import BayosKernel.ArchiveScan
import BayosKernel.ExecveCall
import BayosKernel.VfsMemory

/-!
The kernel heap over calls of `execve_syscall`: the two blocks that `vfs_open`
takes from it are never given back.

Every mountpoint is one of the initramfs, which is the only file system. The
array of the archive stays as it is; what `vfs_read` puts at `elf_copy` is arbitrary.
-/

namespace BayosKernel

open Foundation BlockList

open FileStruct

def strcpy (m : ByteMemory) (dest : Nat) (src : Path) : ByteMemory := fun x =>
  if dest ≤ x ∧ x < dest + (src.length + 1) then src.bytes (x - dest) else m x

/-- `initramfs_lookup` over the array; `none` where it reads outside it or has not ended. -/
def archiveLookup (archive : List UInt8) (filename : Path) : Nat → Int → Option (Int × Option Int)
  | 0, _ => none
  | fuel + 1, ptr =>
      match lookupTurn archive filename ptr with
      | .outside => none
      | .ended => some (0, none)
      | .found filesize out => some (filesize, some out)
      | .moved next => archiveLookup archive filename fuel next

section

variable (archive : List UInt8) (mounts : List Mountpoint) (fuel : Nat)

/-- `open` of `fs/initramfs.c`. -/
def initramfsOpen (heap : HeapState) (path : Path) : Option (HeapState × Nat) :=
  (archiveLookup archive path fuel 0).bind fun (filesz, _) =>
    -- a size that is not 0 comes with the pointer
    if filesz = 0 then some (heap, NULL)
    else
      (heap.take fuel sizeofFile).bind fun (heap, file) =>
        if file = NULL then some (heap, NULL)
        else
          (heap.take fuel (path.length + 1)).map fun (heap, chars) =>
            let heap := { heap with mem := setPath heap.mem file chars }
            if chars = NULL then (heap.give file, NULL)
            else
              let m := strcpy heap.mem chars path
              let m := setOffset m file 0
              let m := setFilesz m file (sizeT filesz)
              ({ heap with mem := m }, file)

/-- `vfs_open`, for a path that is not NULL. -/
def vfsOpenFile (heap : HeapState) (path : Path) : Option (HeapState × Nat) :=
  match vfsGetMountpoint mounts path with
  | none => some (heap, NULL)
  | some _ => initramfsOpen archive fuel heap path

end

/-- The kernel heap beside the pages and the processes. -/
structure ExecveState where
  heap : HeapState
  pages : PageState
  procs : List UserProcess

/-- A call by a process, which is given by its place. A string that a program can
name lies in one half of the address space. -/
structure ExecveEntry where
  proc : Nat
  path : Option Path
  elf : ElfImage
  short : ∀ p ∈ path, p.length < 0x800000000000

/-- `execve_syscall`, up to the return or the jump to user mode. -/
def ExecveState.step (archive : List UInt8) (mounts : List Mountpoint) (fuel : Nat)
    (s : ExecveState) (a : ExecveEntry) : Option ExecveState :=
  s.procs[a.proc]?.bind fun p =>
    match a.path with
    | none => some s
    | some path =>
        (vfsOpenFile archive mounts fuel s.heap path).bind fun (heap, file) =>
          if file = NULL then some { s with heap := heap }
          else if path.length + 1 > 0x2000 then some { s with heap := heap }
          else
            -- `vfs_read` moves the offset to the end of the file
            let m := setOffset heap.mem file (filesz heap.mem file)
            (execveSyscall fuel s.pages p (filesz heap.mem file) a.elf).map fun (pages, p) =>
              ⟨{ heap with mem := m }, pages, s.procs.set a.proc p⟩

def execveMachine (archive : List UInt8) (mounts : List Mountpoint) (fuel : Nat) :
    Machine ExecveState ExecveEntry := ⟨ExecveState.step archive mounts fuel⟩

/-- There is no file to be opened: none is named, no mountpoint covers the path, the archive
has no file with contents of this name, or the heap has no room for the `file_t` and the path. -/
def ExecveEntry.OpensNothing (archive : List UInt8) (mounts : List Mountpoint) (fuel : Nat)
    (s : ExecveState) (a : ExecveEntry) : Prop :=
  ∀ path ∈ a.path, vfsGetMountpoint mounts path = none ∨
    (∃ out, archiveLookup archive path fuel 0 = some (0, out)) ∨ ¬s.heap.HoldsFile path.length

section Calls

variable {archive : List UInt8} {mounts : List Mountpoint} {fuel : Nat}

/-- What a call does to the heap: it leaves no block behind, or the `file_t` and the path. -/
def HeapKept (heap heap' : HeapState) : Prop :=
  heap'.al = heap.al ∧ (∃ bs, HeapInv heap' bs) ∧ heap'.live = heap.live

def HeapLeft (heap heap' : HeapState) (file : Nat) : Prop :=
  heap'.al = heap.al ∧ (∃ bs, HeapInv heap' bs) ∧
    ∃ g, heap'.live = g :: (file, sizeofFile) :: heap.live

/-- `open` leaves two blocks where there is a file and room for them, and none elsewhere. -/
theorem HeapInv.initramfsOpen {heap heap' : HeapState} {bs : List Block} {path : Path}
    {file : Nat} (h : HeapInv heap bs) (hpos : 0 < heap.al.addr) (hfuel : heap.al.size ≤ fuel)
    (hshort : path.length < 0x800000000000)
    (hopen : initramfsOpen archive fuel heap path = some (heap', file)) :
    (((∃ out, archiveLookup archive path fuel 0 = some (0, out)) ∨ ¬heap.HoldsFile path.length) ∧
        file = NULL ∧ HeapKept heap heap') ∨
      (¬((∃ out, archiveLookup archive path fuel 0 = some (0, out)) ∨
          ¬heap.HoldsFile path.length) ∧ file ≠ NULL ∧ HeapLeft heap heap' file) := by
  obtain ⟨⟨filesz, out⟩, hlookup, hopen⟩ := Option.bind_eq_some_iff.mp hopen
  by_cases hzero : filesz = 0
  · simp only [if_pos hzero] at hopen
    cases hopen
    exact Or.inl ⟨Or.inl ⟨out, by rw [hlookup, hzero]⟩, rfl, rfl, ⟨bs, h⟩, rfl⟩
  have hfound : ¬∃ out, archiveLookup archive path fuel 0 = some (0, out) := by
    rintro ⟨out', heq⟩
    rw [hlookup] at heq
    cases heq
    exact hzero rfl
  simp only [if_neg hzero] at hopen
  obtain ⟨⟨heap₁, file₁⟩, htake, hrest⟩ := Option.bind_eq_some_iff.mp hopen
  have hmax : max sizeofFile 0x20 = 0x20 := rfl
  have htaken := h.take_firstFit hpos hfuel (by decide) htake
  rw [hmax] at htaken
  rcases htaken with
    ⟨hnone, rfl, rfl⟩ | ⟨bs₁, htaken⟩
  · cases hrest
    refine Or.inl ⟨Or.inr fun hholds => ?_, rfl, rfl, ⟨bs, h⟩, rfl⟩
    obtain ⟨o, bs', hfit, -⟩ := h.holdsFile_iff.mp hholds
    rw [hnone] at hfit
    cases hfit
  obtain ⟨o, hfit, -⟩ := htaken.fit
  rw [hmax] at hfit
  obtain ⟨-, h₁, hal, hlive, -⟩ := htaken
  have hne : file₁ ≠ NULL := h₁.live_ne_null (g := (file₁, sizeofFile)) (by rw [hlive]; simp)
  simp only [if_neg hne] at hrest
  obtain ⟨⟨heap₂, chars⟩, htake', heq⟩ := Option.map_eq_some_iff.mp hrest
  have hmem : (file₁, sizeofFile) ∈ heap₁.live := by rw [hlive]; exact List.mem_cons_self
  rcases h₁.take_firstFit (by rw [hal]; exact hpos) (by rw [hal]; exact hfuel) (by omega) htake'
    with ⟨hnone, rfl, rfl⟩ | ⟨bs₂, htaken'⟩
  · -- the path does not fit, and the `file_t` is given back
    simp only [if_true] at heq
    obtain ⟨rfl, rfl⟩ := Prod.mk.inj heq
    have hstored := h₁.of_block hmem fun x hx =>
      @ByteMemory.store_outside heap₂.mem 8 file₁ NULL x (by simp only [sizeofFile] at hx; omega)
    have hgiven := (hstored.give_block hmem).1
    refine Or.inl ⟨Or.inr fun hholds => ?_, rfl, hal, hgiven, ?_⟩
    · obtain ⟨o', bs', hfit', hpath⟩ := h.holdsFile_iff.mp hholds
      rw [hfit] at hfit'
      cases hfit'
      exact hpath hnone
    · simp [HeapState.give, hlive]
  · simp only [if_neg htaken'.ne_null] at heq
    obtain ⟨rfl, rfl⟩ := Prod.mk.inj heq
    obtain ⟨o', hfit', -⟩ := htaken'.fit
    obtain ⟨-, h₂, hal', hlive', -⟩ := htaken'
    refine Or.inr ⟨not_or.mpr ⟨hfound, not_not.mpr (h.holdsFile_iff.mpr ⟨o, bs₁, hfit, ?_⟩)⟩,
      hne, hal'.trans hal, ⟨bs₂, h₂.of_frame fun x hx => ?_⟩, _, by rw [hlive', hlive]⟩
    · rw [hfit']
      exact Option.some_ne_none _
    · have hfile : ¬(file₁ ≤ x ∧ x < file₁ + 24) := fun hin =>
        h₂.not_managed (Or.inr ⟨(file₁, 24), by rw [hlive', hlive]; simp, hin⟩) hx
      have hchars : ¬(chars ≤ x ∧ x < chars + (path.length + 1)) := fun hin =>
        h₂.not_managed (Or.inr ⟨(chars, path.length + 1), by rw [hlive']; simp, hin⟩) hx
      rw [setFilesz, setOffset, setPath, ByteMemory.store_outside _ (by omega),
        ByteMemory.store_outside _ (by omega), strcpy, if_neg hchars,
        ByteMemory.store_outside _ (by omega)]

/-- Behind `vfs_open` only the offset of the file is written. -/
theorem ExecveState.step_heap {s s' : ExecveState} {a : ExecveEntry} {path : Path}
    {heap : HeapState} {file : Nat} (hpath : a.path = some path)
    (hopen : vfsOpenFile archive mounts fuel s.heap path = some (heap, file))
    (hstep : s.step archive mounts fuel a = some s') :
    (file = NULL ∧ s'.heap = heap) ∨ (file ≠ NULL ∧ (s'.heap = heap ∨
      s'.heap = { heap with mem := setOffset heap.mem file (filesz heap.mem file) })) := by
  obtain ⟨p, -, hcall⟩ := Option.bind_eq_some_iff.mp hstep
  simp only [hpath, hopen, Option.bind_some] at hcall
  by_cases hnull : file = NULL
  · rw [if_pos hnull] at hcall
    cases hcall
    exact Or.inl ⟨hnull, rfl⟩
  · rw [if_neg hnull] at hcall
    refine Or.inr ⟨hnull, ?_⟩
    split at hcall
    · cases hcall
      exact Or.inl rfl
    · obtain ⟨r, -, rfl⟩ := Option.map_eq_some_iff.mp hcall
      exact Or.inr rfl

/-- What `execve_syscall` leaves in the heap, whether it returns or enters the program. -/
theorem HeapInv.execve {s s' : ExecveState} {a : ExecveEntry} {bs : List Block}
    (h : HeapInv s.heap bs) (hpos : 0 < s.heap.al.addr) (hfuel : s.heap.al.size ≤ fuel)
    (hstep : s.step archive mounts fuel a = some s') :
    (a.OpensNothing archive mounts fuel s ∧ HeapKept s.heap s'.heap) ∨
      (¬a.OpensNothing archive mounts fuel s ∧ ∃ file, HeapLeft s.heap s'.heap file) := by
  obtain ⟨p, -, hcall⟩ := Option.bind_eq_some_iff.mp hstep
  cases hpath : a.path with
  | none =>
      simp only [hpath] at hcall
      cases hcall
      exact Or.inl ⟨fun path hmem => by simp [hpath] at hmem, rfl, ⟨bs, h⟩, rfl⟩
  | some path =>
      have hopens : a.OpensNothing archive mounts fuel s ↔ vfsGetMountpoint mounts path = none ∨
          (∃ out, archiveLookup archive path fuel 0 = some (0, out)) ∨
            ¬s.heap.HoldsFile path.length := by
        simp only [ExecveEntry.OpensNothing, hpath, Option.mem_some_iff, forall_eq']
      simp only [hpath] at hcall
      obtain ⟨⟨heap, file⟩, hopen, -⟩ := Option.bind_eq_some_iff.mp hcall
      have hheap := ExecveState.step_heap hpath hopen hstep
      rw [hopens]
      rw [vfsOpenFile] at hopen
      cases hmount : vfsGetMountpoint mounts path with
      | none =>
          simp only [hmount] at hopen
          cases hopen
          have hsame : s'.heap = s.heap := (hheap.resolve_right fun hor => hor.1 rfl).2
          rw [hsame]
          exact Or.inl ⟨Or.inl rfl, rfl, ⟨bs, h⟩, rfl⟩
      | some mp =>
          simp only [hmount] at hopen
          rcases h.initramfsOpen hpos hfuel (a.short path hpath) hopen with
            ⟨hnothing, hnull, hkept⟩ | ⟨hfile, hne, hal, ⟨bs', h'⟩, g, hlive⟩
          · rw [(hheap.resolve_right fun hor => hor.1 hnull).2]
            exact Or.inl ⟨Or.inr hnothing, hkept⟩
          · refine Or.inr ⟨fun hnothing => hfile (hnothing.resolve_left (by simp)), file, ?_⟩
            rcases (hheap.resolve_left fun hand => hne hand.1).2 with hsame | hread
            · rw [hsame]
              exact ⟨hal, ⟨bs', h'⟩, g, hlive⟩
            · rw [hread]
              have hmem : (file, sizeofFile) ∈ heap.live := by rw [hlive]; simp
              refine ⟨hal, ⟨bs', h'.of_block hmem fun x hx => ?_⟩, g, hlive⟩
              rw [setOffset, ByteMemory.store_outside _ (by simp only [sizeofFile] at hx; omega)]

/-- The blocks that a run leaves behind lie on top of those before. -/
theorem HeapInv.execve_run {s s' : ExecveState} {run : List ExecveEntry} {bs : List Block}
    (h : HeapInv s.heap bs) (hpos : 0 < s.heap.al.addr) (hfuel : s.heap.al.size ≤ fuel)
    (hrun : (execveMachine archive mounts fuel).exec s run = some s') :
    (∃ bs', HeapInv s'.heap bs') ∧ ∃ left, s'.heap.live = left ++ s.heap.live ∧
      (left = [] ↔ (execveMachine archive mounts fuel).Meets
        (fun s a => a.OpensNothing archive mounts fuel s) s run) := by
  induction run generalizing s bs with
  | nil =>
      cases hrun
      exact ⟨⟨bs, h⟩, [], rfl, iff_of_true rfl trivial⟩
  | cons a rest ih =>
      obtain ⟨s₁, hstep, hrest⟩ := (execveMachine archive mounts fuel).exec_cons_some hrun
      rw [(execveMachine archive mounts fuel).meets_cons_iff hstep]
      rcases h.execve hpos hfuel hstep with
        ⟨hnothing, hal, ⟨bs₁, h₁⟩, hlive⟩ | ⟨hfile, file, hal, ⟨bs₁, h₁⟩, g, hlive⟩
      · obtain ⟨hinv, left, hleft, hmeets⟩ :=
          ih h₁ (by rw [hal]; exact hpos) (by rw [hal]; exact hfuel) hrest
        refine ⟨hinv, left, by rw [hleft, hlive], hmeets.trans ?_⟩
        exact (and_iff_right hnothing).symm
      · obtain ⟨hinv, left, hleft, -⟩ :=
          ih h₁ (by rw [hal]; exact hpos) (by rw [hal]; exact hfuel) hrest
        refine ⟨hinv, left ++ [g, (file, sizeofFile)], by rw [hleft, hlive]; simp, ?_⟩
        exact iff_of_false (by simp) fun hmeets => hfile hmeets.1

/-- After a run of `execve_syscall` the live blocks of the kernel heap are those before it
exactly when no call opened a file. -/
theorem execveMachine_live_iff {addr size : Nat} {m : ByteMemory} {before : List HeapAction}
    {s s' : ExecveState} {run : List ExecveEntry} (hsize : 0x20 < size) (hpos : 0 < addr)
    (hend : addr + size < 0x10000000000000000) (hfuel : size ≤ fuel)
    (hfits : (heapMachine fuel).Meets (fun st a => a.Fits st) (newHeap m addr size) before)
    (hheap : (heapMachine fuel).exec (newHeap m addr size) before = some s.heap)
    (hrun : (execveMachine archive mounts fuel).exec s run = some s') :
    (∀ g, g ∈ s'.heap.live ↔ g ∈ s.heap.live) ↔
      (execveMachine archive mounts fuel).Meets
        (fun s a => a.OpensNothing archive mounts fuel s) s run := by
  obtain ⟨hal, bs, hinv⟩ := heapMachine_inv hsize hend hfuel hfits hheap
  obtain ⟨⟨bs', hinv'⟩, left, hleft, hmeets⟩ :=
    hinv.execve_run (by rw [hal]; exact hpos) (by rw [hal]; exact hfuel) hrun
  rw [← hmeets]
  constructor
  · intro hsame
    cases left with
    | nil => rfl
    | cons g left =>
        -- a block that is left behind is not among those before
        have hapart := hinv'.liveBlocks.apart
        rw [hleft, List.cons_append] at hapart
        have hold : g ∈ s.heap.live := (hsame g).mp (by rw [hleft]; exact List.mem_cons_self)
        have hself := (List.pairwise_cons.mp hapart).1 g (List.mem_append_right _ hold)
        simp only [granted] at hself
        omega
  · intro hnil g
    rw [hleft, hnil, List.nil_append]

end Calls

/-- `./a/b` with 64 zeros, and the archive of it alone. -/
def zeroFile : ArchiveEntry :=
  ⟨[0x2e, 0x2f, 0x61, 0x2f, 0x62], List.replicate 64 0, rfl, by decide, by decide, by decide⟩

def zeroArchive : List UInt8 := bytesAt (writeArchive (fun _ => 0) 0 [zeroFile]) 0 1536

/-- Calls by the first process for `/b`, which is not there, for NULL and for `/a/b`. -/
def missingEntry : ExecveEntry :=
  ⟨0, some fileB, zeroElf, fun p hp => by cases hp; decide⟩

def nullEntry : ExecveEntry := ⟨0, none, zeroElf, fun p hp => by cases hp⟩

def fileEntry : ExecveEntry := ⟨0, some fileAB, zeroElf, fun p hp => by cases hp; decide⟩

theorem execveMachine_live_missing : ∃ s s',
    (heapMachine 0x1000).exec (newHeap (fun _ => 0) 0x1000 0x1000) [.alloc 0x30] = some s.heap ∧
      (execveMachine zeroArchive rootMount 0x1000).exec s [missingEntry, nullEntry] = some s' ∧
      ∀ g, g ∈ s'.heap.live ↔ g ∈ s.heap.live := by
  obtain ⟨-, -, pages, -, -, -, -, -, -⟩ := bootProcess_zeroElf
  let proc : UserProcess := ⟨0x1000, 0x401800, 0x800000⟩
  have hbefore : ((heapMachine 0x1000).exec (newHeap (fun _ => 0) 0x1000 0x1000)
      [.alloc 0x30]).isSome := by decide +kernel
  obtain ⟨heap, hheap⟩ := Option.isSome_iff_exists.mp hbefore
  have hlookup : archiveLookup zeroArchive fileB 0x1000 0 = some (0, none) := by decide +kernel
  obtain ⟨mp, hmount⟩ : ∃ mp, vfsGetMountpoint rootMount fileB = some mp :=
    Option.isSome_iff_exists.mp (by decide)
  have hmissing : (execveMachine zeroArchive rootMount 0x1000).step ⟨heap, pages, [proc]⟩
      missingEntry = some ⟨heap, pages, [proc]⟩ := by
    simp only [execveMachine, ExecveState.step, missingEntry, vfsOpenFile, hmount, initramfsOpen,
      hlookup, List.getElem?_cons_zero, Option.bind_some, if_true]
  have hnull : (execveMachine zeroArchive rootMount 0x1000).step ⟨heap, pages, [proc]⟩
      nullEntry = some ⟨heap, pages, [proc]⟩ := rfl
  have hrun : (execveMachine zeroArchive rootMount 0x1000).exec ⟨heap, pages, [proc]⟩
      [missingEntry, nullEntry] = some ⟨heap, pages, [proc]⟩ := by
    simp only [Machine.exec, hmissing, hnull, Option.bind_some]
  refine ⟨⟨heap, pages, [proc]⟩, _, hheap, hrun, ?_⟩
  refine (execveMachine_live_iff (by decide) (by decide) (by decide) (Nat.le_refl 0x1000)
    (by decide +kernel) hheap hrun).mpr ?_
  rw [Machine.meets_cons_iff _ hmissing, Machine.meets_cons_iff _ hnull]
  refine ⟨fun path hpath => Or.inr (Or.inl ⟨none, ?_⟩), fun path hpath => ?_, trivial⟩
  · cases hpath
    exact hlookup
  · cases hpath

/-- A program is executed, and its `file_t` and path stay in the heap. -/
theorem fileEntry_leftBehind : ∃ s s', s.heap = newHeap (fun _ => 0) 0x1000 0x1000 ∧
    (execveMachine zeroArchive rootMount 0x10000001).exec s [fileEntry] = some s' ∧
    s'.heap.live = [(0x1060, 5), (0x1020, 24)] ∧ ¬∀ g, g ∈ s'.heap.live ↔ g ∈ s.heap.live := by
  obtain ⟨-, -, st₁, st', proc', -, -, -, hcall⟩ := bootProcess_zeroElf
  have hopen : (vfsOpenFile zeroArchive rootMount 0x10000001 (newHeap (fun _ => 0) 0x1000 0x1000)
      fileAB).map (fun r => (r.1.live, r.2, filesz r.1.mem r.2)) =
    some ([(0x1060, 5), (0x1020, 24)], 0x1020, 64) := by decide +kernel
  obtain ⟨⟨heap, file⟩, hheap, heq⟩ := Option.map_eq_some_iff.mp hopen
  obtain ⟨hlive, heq⟩ := Prod.mk.inj heq
  obtain ⟨hfile, hsize⟩ := Prod.mk.inj heq
  simp only at hlive hfile hsize
  have hne : ¬file = NULL := by
    rw [hfile]
    decide
  have hshort : ¬fileAB.length + 1 > 0x2000 := by decide
  refine ⟨⟨newHeap (fun _ => 0) 0x1000 0x1000, st₁, [⟨0x1000, 0x401800, 0x800000⟩]⟩,
    ⟨{ heap with mem := setOffset heap.mem file 64 }, st', [proc']⟩, rfl, ?_, hlive,
    fun hsame => ?_⟩
  · simp only [Machine.exec, execveMachine, ExecveState.step, fileEntry, hheap, if_neg hne,
      if_neg hshort, hsize, hcall, List.getElem?_cons_zero, Option.bind_some, Option.map_some,
      List.set_cons_zero]
  · have hold := (hsame (0x1020, 24)).mp (by rw [hlive]; simp)
    cases hold

end BayosKernel
