import BayosKernel.SyscallRanges

/-!
The system calls under the preemptive scheduler. They run on the user stack with
interrupts enabled, so that a tick may fall between any two of their steps and
`schedule` may go on with any process that is not DEAD: every such process may
take the next step.

A step is a turn of a region loop or a statement. The mutex `g_ba` keeps other
processes out of the allocator during a turn. `fork_syscall` fills the PML4 that
it allocates before another process can know of it, which is part of its first
step.
-/

namespace BayosKernel

open Foundation

/-- A statement of a system call; a loop with the value of its variable. -/
inductive KernelCall where
  | allocateRegion (cr3 va stop flags : Nat)
  | freeRegion (cr3 va stop : Nat)
  | copyPages (dst src va stop : Nat)
  | insertProcess (newCr3 : Nat)
  | anonAllocate (pages : Nat)
  | resetAnon
  | mapSegment (vaddr j pages : Nat)
  | copyIn (va : Nat) (bytes : Nat → UInt8) (k n : Nat)
  | setElfEnd (elfEnd : UInt32)
  | markDead

/-- A process of the list with what is left of its system call; `dead` is its
status DEAD. -/
structure UserThread where
  proc : UserProcess
  dead : Bool
  calls : List KernelCall

/-- `fork_syscall` behind the filling of the PML4. -/
def forkCalls (proc : UserProcess) (newCr3 : Nat) : List KernelCall :=
  [.allocateRegion newCr3 (pageRoundDown 0x200000) proc.elfEnd.toNat 7,
    .allocateRegion newCr3 (pageRoundDown 0x800000) proc.anonAllocateEnd 7,
    .copyPages newCr3 proc.cr3 0x200000 (add64 0x200000 proc.elfEnd.toNat),
    .copyPages newCr3 proc.cr3 0x800000 (add64 0x800000 proc.anonAllocateEnd),
    .insertProcess newCr3]

def exitCalls (proc : UserProcess) : List KernelCall :=
  [.freeRegion proc.cr3 (pageRoundDown 0x200000) 0x400000,
    .freeRegion proc.cr3 (pageRoundDown 0x400000) proc.elfEnd.toNat,
    .freeRegion proc.cr3 (pageRoundDown 0x800000) proc.anonAllocateEnd, .markDead]

/-- The branch of `map_elf` for PT_LOAD. -/
def segmentCalls (elf : ElfImage) (ph : ElfProgram) : List KernelCall :=
  let pages := int32 ((pageRoundDown (sub64 (add64 ph.memsz 0x1000) 1) / 0x1000 : Nat) : Int)
  [.mapSegment ph.vaddr 0 pages.toNat,
    .copyIn ph.vaddr (fun k => elf (add64 ph.offset k)) 0 ph.filesz] ++
  if ph.memsz > ph.filesz then
    [.copyIn (add64 ph.vaddr ph.filesz) (fun _ => 0) 0 (ph.memsz - ph.filesz)]
  else []

/-- The first `n` turns of the loop of `map_elf`. -/
def loadCalls (elf : ElfImage) : Nat → List KernelCall
  | 0 => []
  | n + 1 =>
      loadCalls elf n ++
        if (elf.program n).type = 1 then segmentCalls elf (elf.program n) else []

/-- `highest_address` after the first `n` turns. -/
def highestAddress (elf : ElfImage) : Nat → UInt32
  | 0 => 0
  | n + 1 =>
      let ph := elf.program n
      let last := add64 ph.vaddr ph.memsz
      if ph.type = 1 ∧ last > (highestAddress elf n).toNat then UInt32.ofNat last
      else highestAddress elf n

/-- `execve_syscall` from the first `free_region` to the jump to user mode. -/
def execveCalls (proc : UserProcess) (filesz : Nat) (elf : ElfImage) : List KernelCall :=
  [.freeRegion proc.cr3 (pageRoundDown 0x400000) proc.elfEnd.toNat,
    .freeRegion proc.cr3 (pageRoundDown 0x800000) proc.anonAllocateEnd, .resetAnon,
    .allocateRegion proc.cr3 (pageRoundDown 0x800000) (add64 0x800000 filesz) 3,
    .copyIn 0x800000 elf 0 filesz] ++ loadCalls elf elf.phnum ++
  [.setElfEnd (highestAddress elf elf.phnum),
    .freeRegion proc.cr3 (pageRoundDown 0x800000) (add64 0x800000 filesz)]

/-- One step of a statement that stays inside the process: the new state, and what
is left of the statement. -/
def KernelCall.run (st : PageState) (proc : UserProcess) :
    KernelCall → Option (PageState × UserProcess × List KernelCall)
  | .allocateRegion cr3 va stop flags =>
      if va < stop then
        (st.mapMemoryPage cr3 va flags).map fun st =>
          (st, proc, [.allocateRegion cr3 (add64 va 0x1000) stop flags])
      else some (st, proc, [])
  | .freeRegion cr3 va stop =>
      if va < stop then
        some (st.freeRegionPage cr3 va, proc, [.freeRegion cr3 (add64 va 0x1000) stop])
      else some (st, proc, [])
  | .copyPages dst src va stop =>
      if va < stop then
        some ((copyPage dst src va (st, 0)).1, proc, [.copyPages dst src (add64 va 0x1000) stop])
      else some (st, proc, [])
  | .anonAllocate 0 => some (st, proc, [])
  | .anonAllocate (pages + 1) =>
      (st.mapMemoryPage proc.cr3 proc.anonAllocateEnd 7).map fun st =>
        (st, { proc with anonAllocateEnd := add64 proc.anonAllocateEnd 0x1000 },
          [.anonAllocate pages])
  | .resetAnon => some (st, { proc with anonAllocateEnd := 0x800000 }, [])
  | .mapSegment vaddr j pages =>
      if j < pages then
        (st.mapMemoryPage proc.cr3 (segmentPage vaddr j) 7).map fun st =>
          (st, proc, [.mapSegment vaddr (j + 1) pages])
      else some (st, proc, [])
  | .copyIn va bytes k n =>
      if k < n then
        (st.write proc.cr3 (add64 va k) (bytes k)).map fun st =>
          (st, proc, [.copyIn va bytes (k + 1) n])
      else some (st, proc, [])
  | .setElfEnd elfEnd => some (st, { proc with elfEnd := elfEnd }, [])
  | .insertProcess _ => none
  | .markDead => none

structure PreemptState where
  pages : PageState
  threads : List UserThread

/-- A process is given by its place in the list. `run` is the next step of its
system call, `store` one to its own memory, and `reap` the
`remove_proc_from_list` of a waitpid. -/
inductive PreemptAction where
  | fork (i : Nat)
  | execve (i filesz : Nat) (elf : ElfImage)
  | anonAllocate (i size : Nat)
  | exit (i : Nat)
  | store (i va : Nat) (v : UInt8)
  | run (i : Nat)
  | reap (i : Nat)

namespace PreemptState

/-- The process when it is not DEAD and in no system call. -/
def user (s : PreemptState) (i : Nat) : Option UserThread :=
  s.threads[i]?.filter fun t => !t.dead && t.calls.isEmpty

/-- The process enters a system call. -/
def enter (s : PreemptState) (i : Nat) (t : UserThread) (calls : List KernelCall) :
    PreemptState :=
  { s with threads := s.threads.set i { t with calls := calls } }

def run (s : PreemptState) (i : Nat) (t : UserThread) : Option PreemptState :=
  match t.calls with
  | [] => none
  | .insertProcess newCr3 :: rest =>
      some { s with threads := s.threads.set i { t with calls := rest } ++
        [⟨{ t.proc with cr3 := newCr3 }, t.dead, []⟩] }
  | .markDead :: rest =>
      some { s with threads := s.threads.set i { t with dead := true, calls := rest } }
  | call :: rest =>
      (call.run s.pages t.proc).map fun (st, proc, left) =>
        ⟨st, s.threads.set i ⟨proc, t.dead, left ++ rest⟩⟩

def step (s : PreemptState) : PreemptAction → Option PreemptState
  | .fork i =>
      (s.user i).bind fun t =>
        (s.pages.newSpace t.proc.cr3).map fun (st, newCr3) =>
          { s with pages := st }.enter i t (forkCalls t.proc newCr3)
  | .execve i filesz elf =>
      (s.user i).map fun t => s.enter i t (execveCalls t.proc filesz elf)
  | .anonAllocate i size =>
      let pages := int32 ((add64 size 0xfff >>> 12 : Nat) : Int)
      (s.user i).map fun t => s.enter i t [.anonAllocate pages.toNat]
  | .exit i => (s.user i).map fun t => s.enter i t (exitCalls t.proc)
  | .store i va v =>
      (s.threads[i]?.filter fun t => !t.dead).bind fun t =>
        (s.pages.write t.proc.cr3 va v).map fun st => { s with pages := st }
  | .run i => (s.threads[i]?.filter fun t => !t.dead).bind (s.run i)
  | .reap i =>
      (s.threads[i]?.filter fun t => t.dead).map fun _ =>
        { s with threads := s.threads.eraseIdx i }

end PreemptState

def preemptMachine : Machine PreemptState PreemptAction := ⟨PreemptState.step⟩

/-- The stack of 2 MiB is mapped, to frames that are marked. -/
def StackHeld (st : PageState) (cr3 : Nat) : Prop :=
  ∀ va, InRegion 0x200000 0x400000 va → ∃ p, PageAt st.mem cr3 va p ∧ st.Marked p

end BayosKernel
