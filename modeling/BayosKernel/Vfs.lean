import BayosKernel.Foundation.FirstMax
import BayosKernel.Foundation.Machine
import BayosKernel.StringFunctions
import Mathlib.Data.List.GetD

/-!
The calls of `fs/vfs.c` over the sequence of mountpoints.

The file system behind an `fs_operations_t` is a parameter. The locks are left
out, and the three allocations of `vfs_mount` are one that may fail.
-/

namespace BayosKernel

open Foundation

/-- A string, without its terminator. -/
structure Path where
  chars : List UInt8
  terminated : 0 ∉ chars
  deriving DecidableEq

namespace Path

def bytes (p : Path) : Nat → UInt8 := fun i => p.chars.getD i 0

/-- What `strlen` answers. -/
def length (p : Path) : Nat := p.chars.length

theorem bytes_cstring (p : Path) : CString p.bytes p.chars := ⟨p.terminated, fun _ _ => rfl⟩

theorem bytes_eq_zero {p : Path} {i : Nat} : p.bytes i = 0 ↔ p.length ≤ i := by
  refine ⟨fun hzero => p.bytes_cstring.length_le hzero, fun hle => ?_⟩
  rw [bytes, List.getD_eq_default _ _ hle]

/-- The test of `vfs_get_mountpoint`: the mountpoint of this path is one of `path`. -/
def Covers (mp path : Path) : Prop :=
  strncmp path.bytes mp.bytes mp.length = 0 ∧
    (mp.length = 1 ∨ path.bytes mp.length = 0 ∨ path.bytes mp.length = 0x2f)

instance (mp path : Path) : Decidable (mp.Covers path) := inferInstanceAs (Decidable (_ ∧ _))

end Path

/-- A `mountpoint_t` at its address; device and operations are pointers. -/
structure Mountpoint where
  addr : Nat
  device : Nat
  path : Path
  operations : Nat
  deriving DecidableEq

structure FileT where
  path : Path
  offset : Nat
  filesz : Nat
  deriving DecidableEq

/-- The functions of a file system. A file keeps the path under which it was opened. -/
structure FsOperations where
  openFile : Path → Int → Option FileT
  read : FileT → Nat → FileT × List UInt8
  write : FileT → List UInt8 → FileT × Nat
  close : FileT → Int
  openFile_path : ∀ path flags f, openFile path flags = some f → f.path = path
  read_path : ∀ f count, (read f count).1.path = f.path
  write_path : ∀ f buf, (write f buf).1.path = f.path

/-- The loop of `vfs_get_mountpoint`. -/
def getMountpointFrom (path : Path) :
    List Mountpoint → Option Mountpoint → Nat → Option Mountpoint
  | [], best, _ => best
  | mp :: rest, best, bestLen =>
      if mp.path.Covers path ∧ (best = none ∨ mp.path.length > bestLen) then
        getMountpointFrom path rest (some mp) mp.path.length
      else getMountpointFrom path rest best bestLen

def vfsGetMountpoint (mounts : List Mountpoint) (path : Path) : Option Mountpoint :=
  getMountpointFrom path mounts none 0

/-- The sequence without the mountpoint at this address, which `ll_remove_pointer` takes out
of a list only where it is the first. -/
def removePointer (mounts : List Mountpoint) (addr : Nat) : List Mountpoint :=
  mounts.eraseP fun mp => mp.addr == addr

/-- The answer is -1, or none: the function ends without a `return`. -/
def vfsUmount (mounts : List Mountpoint) (path : Path) : List Mountpoint × Option Int :=
  match vfsGetMountpoint mounts path with
  | none => (mounts, some (-1))
  | some mp => (removePointer mounts mp.addr, none)

/-- `none` where an allocation fails. -/
def vfsMount (mounts : List Mountpoint) : Option Mountpoint → List Mountpoint × Int
  | none => (mounts, -1)
  | some mp => (mounts ++ [mp], 0)

section

variable (fs : Nat → FsOperations) (mounts : List Mountpoint)

/-- The file, with the operations that opened it. -/
def vfsOpen (path : Path) (flags : Int) : Option (FileT × Nat) :=
  (vfsGetMountpoint mounts path).bind fun mp =>
    ((fs mp.operations).openFile path flags).map fun file => (file, mp.operations)

/-- The operations that carry the call out, and what they do. -/
def vfsRead (file : FileT) (count : Nat) : Option Nat × FileT × List UInt8 :=
  match vfsGetMountpoint mounts file.path with
  | none => (none, file, [])
  | some mp => (some mp.operations, (fs mp.operations).read file count)

def vfsWrite (file : FileT) (buf : List UInt8) : Option Nat × FileT × Nat :=
  match vfsGetMountpoint mounts file.path with
  | none => (none, file, 0)
  | some mp => (some mp.operations, (fs mp.operations).write file buf)

def vfsClose (file : FileT) : Option Nat × Int :=
  match vfsGetMountpoint mounts file.path with
  | none => (none, -1)
  | some mp => (some mp.operations, (fs mp.operations).close file)

end

/-- A file and the operations of the mountpoint that opened it. -/
structure OpenFile where
  file : FileT
  openedBy : Nat
  deriving DecidableEq

/-- A call on an open file, and the operations that carried it out. -/
structure FileCall where
  openedBy : Nat
  carriedBy : Option Nat
  deriving DecidableEq

structure VfsState where
  mounts : List Mountpoint
  files : List OpenFile
  log : List FileCall
  deriving DecidableEq

/-- The calls; a file is given by its place among the open ones. -/
inductive VfsAction where
  | mount (addr : Option Nat) (device : Nat) (path : Path) (operations : Nat)
  | umount (path : Path)
  | openFile (path : Path) (flags : Int)
  | read (i count : Nat)
  | write (i : Nat) (buf : List UInt8)
  | close (i : Nat)
  deriving DecidableEq

namespace VfsState

def note (s : VfsState) (f : OpenFile) (carriedBy : Option Nat) : VfsState :=
  { s with log := ⟨f.openedBy, carriedBy⟩ :: s.log }

/-- The file after a call on it. -/
def update (s : VfsState) (i : Nat) (f : OpenFile) (file : FileT) : VfsState :=
  { s with files := s.files.set i { f with file := file } }

def step (fs : Nat → FsOperations) (s : VfsState) : VfsAction → Option VfsState
  | .mount none _ _ _ => some { s with mounts := (vfsMount s.mounts none).1 }
  | .mount (some addr) device path operations =>
      if addr ∈ s.mounts.map Mountpoint.addr then none
      else some { s with mounts := (vfsMount s.mounts (some ⟨addr, device, path, operations⟩)).1 }
  | .umount path => some { s with mounts := (vfsUmount s.mounts path).1 }
  | .openFile path flags =>
      match vfsOpen fs s.mounts path flags with
      | none => some s
      | some (file, openedBy) => some { s with files := s.files ++ [⟨file, openedBy⟩] }
  | .read i count =>
      s.files[i]?.map fun f =>
        let r := vfsRead fs s.mounts f.file count
        (s.update i f r.2.1).note f r.1
  | .write i buf =>
      s.files[i]?.map fun f =>
        let r := vfsWrite fs s.mounts f.file buf
        (s.update i f r.2.1).note f r.1
  | .close i =>
      s.files[i]?.map fun f =>
        let r := vfsClose fs s.mounts f.file
        let files := if r.1 = none then s.files else s.files.eraseIdx i
        { s with files := files }.note f r.1

end VfsState

def vfsMachine (fs : Nat → FsOperations) : Machine VfsState VfsAction := ⟨VfsState.step fs⟩

/-- `vfs_get_mountpoint` finds the first of the longest mountpoints that cover the path. -/
theorem vfsGetMountpoint_eq (mounts : List Mountpoint) (path : Path) :
    vfsGetMountpoint mounts path =
      firstMax (fun mp : Mountpoint => mp.path.Covers path) (fun mp => mp.path.length) mounts := by
  have hloop : ∀ (best : Option Mountpoint) bestLen, (∀ b ∈ best, bestLen = b.path.length) →
      getMountpointFrom path mounts best bestLen =
        firstMaxFrom (fun mp : Mountpoint => mp.path.Covers path) (fun mp => mp.path.length)
          mounts best := by
    induction mounts with
    | nil => exact fun _ _ _ => rfl
    | cons mp rest ih =>
        intro best bestLen hbest
        have htest : (best = none ∨ mp.path.length > bestLen) ↔
            ∀ b ∈ best, b.path.length < mp.path.length := by
          cases best with
          | none => simp
          | some b =>
              rw [hbest b rfl]
              simp
        rw [getMountpointFrom, firstMaxFrom]
        simp only [htest]
        split
        · exact ih (some mp) _ fun b hb => by cases hb; rfl
        · exact ih best bestLen hbest
  exact hloop none 0 (by simp)

end BayosKernel
