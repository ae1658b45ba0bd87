import BayosKernel.PageSpaces
import BayosKernel.Process

/-!
What the system calls of `syscall.c` do to the address spaces: `fork_syscall` up
to `insert_process`, `execve_syscall` with `map_elf`, `anon_allocate_syscall` and
`exit_syscall`.

Of a process only the fields that say what is mapped are kept. `none` stands
for a halt, a page fault or a loop that has not ended. The blocks of the kernel
heap, the file system and the scheduler are left out: a call gets the size of
the file it opened, and the bytes that `map_elf` reads where the file lies. The
segments lie below that place, so that loading them does not change it.
-/

namespace BayosKernel

open Foundation

structure UserProcess where
  cr3 : Nat
  elfEnd : UInt32
  anonAllocateEnd : Nat
  deriving DecidableEq

/-- The body of the loop of `copy_pages_between_pagetables`. -/
def copyPage (dst src va : Nat) (s : PageState × Nat) : PageState × Nat :=
  match walk s.1.mem src va with
  | none => s
  | some srcPte =>
      if s.1.mem.load 8 srcPte &&& 1 = 0 then s
      else
        match walk s.1.mem dst va with
        | none => s
        | some dstPte =>
            if s.1.mem.load 8 dstPte &&& 1 = 0 then s
            else
              let srcPage := pteAddr (s.1.mem.load 8 srcPte)
              let dstPage := pteAddr (s.1.mem.load 8 dstPte)
              ({ s.1 with mem := s.1.mem.memcpy dstPage srcPage 0x1000 }, s.2 + 1)

/-- The new state and the number of the pages copied. -/
def copyPagesBetweenPagetables (fuel : Nat) (st : PageState) (dst src start len : Nat) :
    Option (PageState × Nat) :=
  forPages (fun va s => some (copyPage dst src va s)) (add64 start len) fuel start (st, 0)

/-- The first `n` turns of `for (i = 256; i < 512; i++) v_new_cr3[i] = v_cr3[i]`. -/
def copyUpperHalf (m : ByteMemory) (newCr3 cr3 : Nat) : Nat → ByteMemory
  | 0 => m
  | n + 1 =>
      let m := copyUpperHalf m newCr3 cr3 n
      setEntry m newCr3 (256 + n) (entry m cr3 (256 + n))

namespace PageState

/-- `allocate_page`; the caller gets NULL when there is no page. -/
def allocPage (st : PageState) : Option (PageState × Nat) :=
  (allocatePage st.mem st.areas).map fun (m, page) =>
    ({ st with mem := m, allocated := if page = NULL then st.allocated else page :: st.allocated },
      page)

/-- The PML4 of a child: an empty user half and the upper half of the parent. -/
def newSpace (st : PageState) (cr3 : Nat) : Option (PageState × Nat) :=
  st.allocPage.map fun (st, newCr3) =>
    ({ st with mem := copyUpperHalf (st.mem.memset newCr3 0 0x1000) newCr3 cr3 256 }, newCr3)

/-- A copy of `n` bytes to a virtual address. -/
def copyToUser (st : PageState) (cr3 va : Nat) (bytes : Nat → UInt8) : Nat → Option PageState
  | 0 => some st
  | n + 1 => (st.copyToUser cr3 va bytes n).bind fun st => st.write cr3 (add64 va n) (bytes n)

end PageState

/-- The child process, when `fork_syscall` comes to `insert_process`. -/
def forkSyscall (fuel : Nat) (st : PageState) (proc : UserProcess) :
    Option (PageState × UserProcess) :=
  (st.newSpace proc.cr3).bind fun (st, newCr3) =>
    (st.allocateRegion fuel newCr3 0x200000 proc.elfEnd.toNat 7).bind fun st =>
      (st.allocateRegion fuel newCr3 0x800000 proc.anonAllocateEnd 7).bind fun st =>
        (copyPagesBetweenPagetables fuel st newCr3 proc.cr3 0x200000 proc.elfEnd.toNat).bind
          fun (st, _) =>
            (copyPagesBetweenPagetables fuel st newCr3 proc.cr3 0x800000
              proc.anonAllocateEnd).map fun (st, _) => (st, { proc with cr3 := newCr3 })

/-- `pages` turns of the loop of `anon_allocate_syscall`. -/
def anonAllocatePages (st : PageState) (proc : UserProcess) :
    Nat → Option (PageState × UserProcess)
  | 0 => some (st, proc)
  | pages + 1 =>
      (anonAllocatePages st proc pages).bind fun (st, proc) =>
        (st.mapMemoryPage proc.cr3 proc.anonAllocateEnd 7).map fun st =>
          (st, { proc with anonAllocateEnd := add64 proc.anonAllocateEnd 0x1000 })

def anonAllocateSyscall (st : PageState) (proc : UserProcess) (size : Nat) :
    Option (PageState × UserProcess) :=
  let pages := int32 ((add64 size 0xfff >>> 12 : Nat) : Int)
  anonAllocatePages st proc pages.toNat

/-- `exit_syscall` up to `mark_current_proc_as_dead`. -/
def exitSyscall (fuel : Nat) (st : PageState) (proc : UserProcess) : Option PageState :=
  (st.freeRegion fuel proc.cr3 0x200000 0x400000).bind fun st =>
    (st.freeRegion fuel proc.cr3 0x400000 proc.elfEnd.toNat).bind fun st =>
      st.freeRegion fuel proc.cr3 0x800000 proc.anonAllocateEnd

structure ElfProgram where
  type : Nat
  offset : Nat
  vaddr : Nat
  filesz : Nat
  memsz : Nat
  deriving DecidableEq, Repr

/-- The bytes of an ELF file, and what lies behind its end. -/
abbrev ElfImage := Nat → UInt8

namespace ElfImage

/-- `programs[i]`, of 56 bytes each from `e_phoff` on. -/
def program (elf : ElfImage) (i : Nat) : ElfProgram :=
  let p := add64 (ByteMemory.load elf 8 32) (56 * i)
  ⟨ByteMemory.load elf 4 p, ByteMemory.load elf 8 (p + 8), ByteMemory.load elf 8 (p + 16),
    ByteMemory.load elf 8 (p + 32), ByteMemory.load elf 8 (p + 40)⟩

/-- `e_phnum`. -/
def phnum (elf : ElfImage) : Nat := ByteMemory.load elf 2 56

end ElfImage

/-- `p_vaddr + j * 0x1000`, where `j` is an `int`. -/
def segmentPage (vaddr j : Nat) : Nat := add64 vaddr (sizeT (int32 (j * 0x1000 : Nat)))

/-- The first `pages` pages of a segment. -/
def mapSegment (st : PageState) (cr3 vaddr : Nat) : Nat → Option PageState
  | 0 => some st
  | pages + 1 =>
      (mapSegment st cr3 vaddr pages).bind fun st =>
        st.mapMemoryPage cr3 (segmentPage vaddr pages) 7

/-- The branch of `map_elf` for PT_LOAD, without `highest_address`. -/
def loadSegment (elf : ElfImage) (cr3 : Nat) (st : PageState) (ph : ElfProgram) :
    Option PageState :=
  let pages := int32 ((pageRoundDown (sub64 (add64 ph.memsz 0x1000) 1) / 0x1000 : Nat) : Int)
  (mapSegment st cr3 ph.vaddr pages.toNat).bind fun st =>
    (st.copyToUser cr3 ph.vaddr (fun k => elf (add64 ph.offset k)) ph.filesz).bind fun st =>
      if ph.memsz > ph.filesz then
        st.copyToUser cr3 (add64 ph.vaddr ph.filesz) (fun _ => 0) (ph.memsz - ph.filesz)
      else some st

/-- The first `n` turns of the loop of `map_elf`, and `highest_address`. -/
def mapPrograms (elf : ElfImage) (cr3 : Nat) (st : PageState) : Nat → Option (PageState × UInt32)
  | 0 => some (st, 0)
  | n + 1 =>
      (mapPrograms elf cr3 st n).bind fun (st, highestAddress) =>
        let ph := elf.program n
        if ph.type = 1 then
          let last := add64 ph.vaddr ph.memsz
          let highestAddress :=
            if last > highestAddress.toNat then UInt32.ofNat last else highestAddress
          (loadSegment elf cr3 st ph).map fun st => (st, highestAddress)
        else some (st, highestAddress)

def mapElf (st : PageState) (cr3 : Nat) (elf : ElfImage) : Option (PageState × UInt32) :=
  mapPrograms elf cr3 st elf.phnum

/-- `execve_syscall` from the first `free_region` to the jump to user mode, for a
file of `filesz` bytes. -/
def execveSyscall (fuel : Nat) (st : PageState) (proc : UserProcess) (filesz : Nat)
    (elf : ElfImage) : Option (PageState × UserProcess) :=
  (st.freeRegion fuel proc.cr3 0x400000 proc.elfEnd.toNat).bind fun st =>
    (st.freeRegion fuel proc.cr3 0x800000 proc.anonAllocateEnd).bind fun st =>
      let scratchEnd := add64 0x800000 filesz
      (st.allocateRegion fuel proc.cr3 0x800000 scratchEnd 3).bind fun st =>
        (st.copyToUser proc.cr3 0x800000 elf filesz).bind fun st =>
          (mapElf st proc.cr3 elf).bind fun (st, elfEnd) =>
            (st.freeRegion fuel proc.cr3 0x800000 scratchEnd).map fun st =>
              (st, { proc with elfEnd := elfEnd, anonAllocateEnd := 0x800000 })

/-- `enter_ring_3_init`: the stack and the ELF file of the first process, whose
other stores go to its own memory. -/
def enterRing3Init (fuel : Nat) (st : PageState) (proc : UserProcess) (elf : ElfImage) :
    Option (PageState × UserProcess) :=
  (st.allocateRegion fuel proc.cr3 0x200000 0x400000 7).bind fun st =>
    (mapElf st proc.cr3 elf).map fun (st, elfEnd) => (st, { proc with elfEnd := elfEnd })

/-- The address spaces and the live user processes. -/
structure SyscallState where
  pages : PageState
  procs : List UserProcess

/-- A process is given by its place among the live ones. `store` is a store of
the program to its own memory. -/
inductive SyscallAction where
  | fork (i : Nat)
  | execve (i filesz : Nat) (elf : ElfImage)
  | anonAllocate (i size : Nat)
  | exit (i : Nat)
  | store (i va : Nat) (v : UInt8)

namespace SyscallState

def step (fuel : Nat) (s : SyscallState) : SyscallAction → Option SyscallState
  | .fork i =>
      s.procs[i]?.bind fun proc =>
        (forkSyscall fuel s.pages proc).map fun (st, child) => ⟨st, s.procs ++ [child]⟩
  | .execve i filesz elf =>
      s.procs[i]?.bind fun proc =>
        (execveSyscall fuel s.pages proc filesz elf).map fun (st, proc) => ⟨st, s.procs.set i proc⟩
  | .anonAllocate i size =>
      s.procs[i]?.bind fun proc =>
        (anonAllocateSyscall s.pages proc size).map fun (st, proc) => ⟨st, s.procs.set i proc⟩
  | .exit i =>
      s.procs[i]?.bind fun proc =>
        (exitSyscall fuel s.pages proc).map fun st => ⟨st, s.procs.eraseIdx i⟩
  | .store i va v =>
      s.procs[i]?.bind fun proc =>
        (s.pages.write proc.cr3 va v).map fun st => { s with pages := st }

end SyscallState

def syscallMachine (fuel : Nat) : Machine SyscallState SyscallAction := ⟨SyscallState.step fuel⟩

end BayosKernel
