import BayosKernel.Vfs

/-!
Which file system serves an open file. The mountpoint is looked up again by the
file's path at each call, so that it is the one of the opener only as long as no
mount and no unmount changes the answer.
-/

namespace BayosKernel

open Foundation

/-- The calls on the file go to the operations that opened it. -/
def Served (mounts : List Mountpoint) (f : OpenFile) : Prop :=
  (vfsGetMountpoint mounts f.file.path).map Mountpoint.operations = some f.openedBy

namespace VfsAction

/-- A new mountpoint that covers an open file and has a longer path than all that
do so far has the operations that opened the file; where the mountpoint of an
open file is unmounted, so has the one that then covers it. -/
def Undisturbed (s : VfsState) : VfsAction → Prop
  | .mount (some _) _ path operations =>
      ∀ f ∈ s.files, path.Covers f.file.path →
        (∀ mp ∈ s.mounts, mp.path.Covers f.file.path → mp.path.length < path.length) →
          operations = f.openedBy
  | .umount path =>
      ∀ f ∈ s.files, ∀ mp ∈ vfsGetMountpoint s.mounts path,
        vfsGetMountpoint s.mounts f.file.path = some mp →
          (vfsGetMountpoint (removePointer s.mounts mp.addr) f.file.path).map
            Mountpoint.operations = some f.openedBy
  | _ => True

instance (s : VfsState) : DecidablePred (Undisturbed s)
  | .mount (some _) _ _ _ => inferInstanceAs (Decidable (∀ f ∈ s.files, _ → _ → _))
  | .umount _ => inferInstanceAs (Decidable (∀ f ∈ s.files, ∀ mp ∈ _, _ → _))
  | .mount none _ _ _ => isTrue trivial
  | .openFile _ _ => isTrue trivial
  | .read _ _ => isTrue trivial
  | .write _ _ => isTrue trivial
  | .close _ => isTrue trivial

end VfsAction

/-- The mountpoints are distinct, every open file is served by its opener, and so were all calls. -/
structure VfsInv (s : VfsState) : Prop where
  distinct : (s.mounts.map Mountpoint.addr).Nodup
  served : ∀ f ∈ s.files, Served s.mounts f
  log : ∀ c ∈ s.log, c.carriedBy = some c.openedBy

/-- A mountpoint in front of which there is a longer one, or an equally long
earlier one, changes nothing. -/
theorem Served.mount {mounts : List Mountpoint} {f : OpenFile} {mp : Mountpoint}
    (h : Served mounts f)
    (hmp : mp.path.Covers f.file.path →
      (∀ other ∈ mounts, other.path.Covers f.file.path → other.path.length < mp.path.length) →
        mp.operations = f.openedBy) : Served (mounts ++ [mp]) f := by
  rw [Served, vfsGetMountpoint_eq, firstMax_append_single]
  split
  · rename_i hlonger
    obtain ⟨hcovers, hbest⟩ := hlonger
    refine congrArg some (hmp hcovers fun other hother hcovers' => ?_)
    rw [Served, vfsGetMountpoint_eq] at h
    obtain ⟨best, hsome, -⟩ := Option.map_eq_some_iff.mp h
    have hle := (firstMax_eq_some.mp hsome).le hother hcovers'
    have hlt := hbest best hsome
    omega
  · rw [← vfsGetMountpoint_eq]
    exact h

/-- The removal of a mountpoint that does not serve the file. -/
theorem Served.umount {mounts : List Mountpoint} {f : OpenFile} {mp : Mountpoint}
    (h : Served mounts f) (hdistinct : (mounts.map Mountpoint.addr).Nodup) (hmp : mp ∈ mounts)
    (hother : vfsGetMountpoint mounts f.file.path ≠ some mp) :
    Served (removePointer mounts mp.addr) f := by
  obtain ⟨best, hsome, hops⟩ := Option.map_eq_some_iff.mp h
  rw [vfsGetMountpoint_eq] at hsome
  have hmax := firstMax_eq_some.mp hsome
  have haddr : best.addr ≠ mp.addr := fun heq => by
    have hsame := List.inj_on_of_nodup_map hdistinct hmax.mem hmp heq
    rw [vfsGetMountpoint_eq, hsome, hsame] at hother
    exact hother rfl
  have hkept := hmax.eraseP (q := fun m => m.addr == mp.addr) (by simpa using haddr)
  rw [Served, vfsGetMountpoint_eq, removePointer, firstMax_eq_some.mpr hkept, Option.map_some, hops]

namespace VfsInv

variable {fs : Nat → FsOperations} {s s' : VfsState}

/-- A call on a served file is carried out by the opener and keeps the file's path. -/
theorem called (h : VfsInv s) {i : Nat} {f : OpenFile} {file : FileT} {carriedBy : Option Nat}
    (hf : s.files[i]? = some f) (hpath : file.path = f.file.path)
    (hcarried : carriedBy = some f.openedBy) : VfsInv ((s.update i f file).note f carriedBy) := by
  refine ⟨h.distinct, fun g hg => ?_, ?_⟩
  · rcases List.mem_or_eq_of_mem_set hg with hg | rfl
    · exact h.served g hg
    · rw [Served]
      simp only [hpath]
      exact h.served f (List.mem_of_getElem? hf)
  · exact List.forall_mem_cons.mpr ⟨hcarried, h.log⟩

theorem step (h : VfsInv s) {a : VfsAction} (hclean : a.Undisturbed s)
    (hstep : s.step fs a = some s') : VfsInv s' := by
  cases a with
  | mount addr device path operations =>
      cases addr with
      | none =>
          cases hstep
          exact h
      | some addr =>
          simp only [VfsState.step] at hstep
          split at hstep
          · cases hstep
          · rename_i hfresh
            cases hstep
            refine ⟨?_, fun f hf => (h.served f hf).mount fun hcovers hlonger =>
              hclean f hf hcovers hlonger, h.log⟩
            simp only [vfsMount, List.map_append, List.map_cons, List.map_nil]
            refine List.nodup_append.mpr ⟨h.distinct, by simp, ?_⟩
            intro a ha b hb
            rw [List.mem_singleton.mp hb]
            exact fun heq => hfresh (heq ▸ ha)
  | umount path =>
      cases hstep
      simp only [vfsUmount]
      split
      · exact h
      · rename_i mp hmp
        have hmem : mp ∈ s.mounts := by
          rw [vfsGetMountpoint_eq] at hmp
          exact (firstMax_eq_some.mp hmp).mem
        refine ⟨h.distinct.sublist (List.eraseP_sublist.map _), fun f hf => ?_, h.log⟩
        by_cases hserves : vfsGetMountpoint s.mounts f.file.path = some mp
        · exact hclean f hf mp hmp hserves
        · exact (h.served f hf).umount h.distinct hmem hserves
  | openFile path flags =>
      simp only [VfsState.step] at hstep
      split at hstep
      · cases hstep
        exact h
      · rename_i file openedBy hopen
        cases hstep
        obtain ⟨mp, hmp, hfile⟩ := Option.bind_eq_some_iff.mp hopen
        obtain ⟨file', hfile', heq⟩ := Option.map_eq_some_iff.mp hfile
        obtain ⟨rfl, rfl⟩ := Prod.mk.inj heq
        refine ⟨h.distinct, fun f hf => ?_, h.log⟩
        rcases List.mem_append.mp hf with hf | hf
        · exact h.served f hf
        · rw [List.mem_singleton.mp hf, Served]
          simp only [(fs mp.operations).openFile_path path flags file' hfile', hmp, Option.map_some]
  | read i count =>
      obtain ⟨f, hf, rfl⟩ := Option.map_eq_some_iff.mp hstep
      obtain ⟨mp, hmp, hops⟩ := Option.map_eq_some_iff.mp (h.served f (List.mem_of_getElem? hf))
      refine h.called hf ?_ ?_ <;> simp only [vfsRead, hmp, hops, FsOperations.read_path]
  | write i buf =>
      obtain ⟨f, hf, rfl⟩ := Option.map_eq_some_iff.mp hstep
      obtain ⟨mp, hmp, hops⟩ := Option.map_eq_some_iff.mp (h.served f (List.mem_of_getElem? hf))
      refine h.called hf ?_ ?_ <;> simp only [vfsWrite, hmp, hops, FsOperations.write_path]
  | close i =>
      obtain ⟨f, hf, rfl⟩ := Option.map_eq_some_iff.mp hstep
      obtain ⟨mp, hmp, hops⟩ := Option.map_eq_some_iff.mp (h.served f (List.mem_of_getElem? hf))
      simp only [vfsClose, hmp]
      refine ⟨h.distinct, fun g hg => h.served g ?_, ?_⟩
      · exact (List.eraseIdx_sublist ..).subset hg
      · exact List.forall_mem_cons.mpr ⟨congrArg some hops, h.log⟩

end VfsInv

/-- In every run that leaves the mountpoints of its open files in place, each
call on a file was carried out by the operations that opened the file, and so
will the next one be. -/
theorem vfsMachine_served {fs : Nat → FsOperations} {run : List VfsAction} {s : VfsState}
    (hclean : (vfsMachine fs).Meets (fun s a => a.Undisturbed s) ⟨[], [], []⟩ run)
    (hrun : (vfsMachine fs).exec ⟨[], [], []⟩ run = some s) :
    (∀ c ∈ s.log, c.carriedBy = some c.openedBy) ∧
      ∀ f ∈ s.files,
        (∀ count, (vfsRead fs s.mounts f.file count).1 = some f.openedBy) ∧
        (∀ buf, (vfsWrite fs s.mounts f.file buf).1 = some f.openedBy) ∧
        (vfsClose fs s.mounts f.file).1 = some f.openedBy := by
  have hstart : VfsInv ⟨[], [], []⟩ := ⟨by simp, by simp, by simp⟩
  have hinv : VfsInv s := (vfsMachine fs).exec_invariant
    (fun _ _ _ hinv hclean hstep => hinv.step hclean hstep) hstart hclean hrun
  refine ⟨hinv.log, fun f hf => ?_⟩
  obtain ⟨mp, hmp, hops⟩ := Option.map_eq_some_iff.mp (hinv.served f hf)
  simp only [vfsRead, vfsWrite, vfsClose, hmp, hops, implies_true, and_self]

/-- A file system like the initramfs, with the size of each of its files. -/
def readOnlyFiles (sizes : Path → Nat) : FsOperations where
  openFile path _ := if sizes path = 0 then none else some ⟨path, 0, sizes path⟩
  read file count :=
    if file.offset ≥ sizes file.path then (file, [])
    else
      let toCopy := min count (sizes file.path - file.offset)
      ({ file with offset := file.offset + toCopy }, List.replicate toCopy 0)
  write file _ := (file, 0)
  close _ := 0
  openFile_path path flags f h := by
    split at h
    · cases h
    · cases h
      rfl
  read_path f count := by
    split <;> rfl
  write_path _ _ := rfl

/-- `/`, `/a` and `/a/b`. -/
def rootPath : Path := ⟨[0x2f], by decide⟩

def dirA : Path := ⟨[0x2f, 0x61], by decide⟩

def fileAB : Path := ⟨[0x2f, 0x61, 0x2f, 0x62], by decide⟩

/-- Every file system has ten bytes for each path. -/
def tenBytes : Nat → FsOperations := fun _ => readOnlyFiles fun _ => 10

def mountAndRead : List VfsAction :=
  [.mount (some 0x1000) 0 rootPath 1, .openFile fileAB 0, .mount (some 0x2000) 0 dirA 1, .read 0 4,
    .umount dirA, .mount none 0 dirA 2, .read 0 4]

theorem vfsMachine_served_mountAndRead : ∃ s,
    (vfsMachine tenBytes).exec ⟨[], [], []⟩ mountAndRead = some s ∧ s.log.length = 2 ∧
      ∀ c ∈ s.log, c.carriedBy = some c.openedBy := by
  have hruns : ((vfsMachine tenBytes).exec ⟨[], [], []⟩ mountAndRead).map
      (fun s => s.log.length) = some 2 := by decide +kernel
  obtain ⟨s, hs, hlength⟩ := Option.map_eq_some_iff.mp hruns
  exact ⟨s, hs, hlength, (vfsMachine_served (by decide +kernel) hs).1⟩

/-- The file was opened by the first file system at `/`, and the next one there serves it. -/
theorem umountAndRead_notServed : ∃ s,
    (vfsMachine tenBytes).exec ⟨[], [], []⟩ [.mount (some 0x1000) 0 rootPath 1,
        .openFile fileAB 0, .umount rootPath, .mount (some 0x1000) 0 rootPath 2, .read 0 4] =
        some s ∧
      s.log = [⟨1, some 2⟩] ∧ ¬∀ c ∈ s.log, c.carriedBy = some c.openedBy := by
  have hruns : ((vfsMachine tenBytes).exec ⟨[], [], []⟩ [.mount (some 0x1000) 0 rootPath 1,
      .openFile fileAB 0, .umount rootPath, .mount (some 0x1000) 0 rootPath 2, .read 0 4]).map
        VfsState.log = some [⟨1, some 2⟩] := by decide +kernel
  obtain ⟨s, hs, hlog⟩ := Option.map_eq_some_iff.mp hruns
  refine ⟨s, hs, hlog, ?_⟩
  rw [hlog]
  decide

end BayosKernel
