import Mathlib.Data.Set.Disjoint
import BayosKernel.Foundation.Simulation
import BayosKernel.Foundation.TimeSharing
import BayosKernel.InterruptHandlers
import BayosKernel.ProcessListLoops

/-!
The processes under the interrupt handlers: which registers a process goes on with when
`schedule` selects it again.

The code of a process between two interrupts is any change of the registers and of its
own bytes; `areas` tells which bytes are its own, and `inserted` which process structs are
in use. The functions `add_process` and `fork_syscall` are one step each, from the words
of the new `cpu_status` to `insert_process`; the pages of the child are copied as bytes.
All interrupts of ring 3 use the stack `kernel_stack`, which ends at `ringStack`.
-/

namespace BayosKernel

open Foundation

structure SwitchState where
  code : CodeState Scheduler
  inserted : List Ptr
  areas : Ptr → Set Nat

inductive SwitchAction where
  | exec (cpu : Cpu) (mem : ByteMemory)
  | claim (area : Set Nat)
  | timer (left : HandlerCall → Scratch)
  | keyboard (left : HandlerCall → Scratch) (scancode : UInt8) (woken : Option Ptr)
  | addProcess (p stack : Ptr) (func : UInt64) (area : Set Nat)
  | fork (p : Ptr) (newCr3 context after : UInt64) (pid : Int) (resources : Ptr) (area : Set Nat)
  | setStatus (p : Ptr) (status : ProcessStatus)
  | reap (p : Ptr)

/-- The registers of a process that `add_process` makes. -/
def newCpu (stack : Ptr) (func cr3 : UInt64) : Cpu where
  reg _ := 0
  rsp := UInt64.ofNat (stack + 0x2000 - 0x10)
  rip := func
  cs := 0x8
  ss := 0x10
  flags := 0x202
  cr3 := cr3

/-- The stack of a new process with its `cpu_status`. -/
def newStack (m : ByteMemory) (stack : Ptr) (func : UInt64) : ByteMemory :=
  let context := stack + 0x2000 - sizeofCpuStatus
  storeWords ((m.memset stack 0 0x2000).memset context 0 sizeofCpuStatus) (context + 120)
    [func, 0x8, 0x202, UInt64.ofNat (stack + 0x2000 - 0x10), 0x10]

/-- The registers with which the child goes on in `fork_syscall`. -/
def forkedCpu (after newCr3 : UInt64) (cpu : Cpu) : Cpu :=
  { cpu with rip := after, cs := 0x8, ss := 0x10, cr3 := newCr3 }

/-- The pushes of `fork_syscall`, to the end of its local `context`. -/
def forkFrame (cpu : Cpu) (m : ByteMemory) (context after : UInt64) : ByteMemory :=
  (pushWords cpu.cr3
    ([0x10, cpu.rsp, cpu.flags, 0x8, after] ++ statusRegs.reverse.map cpu.reg)
    (context + 160, m)).2

/-- The bytes of the pages from `va` on that `copy_pages_between_pagetables` copies. -/
def copyRegion (m : ByteMemory) (dst src : UInt64) (va length : Nat) : ByteMemory :=
  m.memcpy (place dst 0 + va) (place src 0 + va) ((length + 0xfff) / 0x1000 * 0x1000)

namespace SwitchState

def current (s : SwitchState) : Ptr := s.code.kernel.currentProcess

def proc (s : SwitchState) (p : Ptr) : Process := s.code.kernel.procs p

/-- The new state of the scheduler, with a process that has these bytes. -/
def insert (fuel : Nat) (s : SwitchState) (p : Ptr) (proc : Process) (m : ByteMemory)
    (area : Set Nat) : Option SwitchState :=
  ((s.code.kernel.modify p fun _ => proc).insertProcess fuel p).map fun k =>
    { code := { s.code with kernel := k, mem := m }
      inserted := p :: s.inserted
      areas := Function.update s.areas p area }

/-- The struct that `add_process` fills. -/
def addedProcess (s : SwitchState) (stack : Ptr) : Process :=
  { Process.zeroed with
    kernelStack := stack, context := stack + 0x2000 - sizeofCpuStatus,
    anonAllocateEnd := 0x800000, cr3 := s.code.cpu.cr3.toNat }

/-- The struct that `fork_syscall` fills. -/
def forkedProcess (s : SwitchState) (newCr3 context : UInt64) (pid : Int) (resources : Ptr) :
    Process :=
  { s.proc s.current with
    cr3 := newCr3.toNat, pid := pid, resources := resources, context := context.toNat }

/-- The memory after `fork_syscall` has copied the pages of its process. -/
def forkedMemory (s : SwitchState) (newCr3 context after : UInt64) : ByteMemory :=
  let proc := s.proc s.current
  copyRegion (copyRegion (forkFrame s.code.cpu s.code.mem context after) newCr3 s.code.cpu.cr3
    0x200000 proc.elfEnd) newCr3 s.code.cpu.cr3 0x800000 proc.anonAllocateEnd

def interrupted (fuel : Nat) (ringStack : UInt64) (s : SwitchState)
    (left : HandlerCall → Scratch) (scancode : UInt8) (woken : Option Ptr)
    (handler : List (Instr HandlerCall)) : Option SwitchState :=
  (runCode (handlerEnv fuel left scancode woken) handler 0
    (s.code.interrupt ringStack kernelCs)).map fun code => { s with code := code }

def step (fuel : Nat) (ringStack : UInt64) (s : SwitchState) : SwitchAction → Option SwitchState
  | .exec cpu mem =>
      some { s with code := { s.code with cpu := { cpu with cr3 := s.code.cpu.cr3 }, mem := mem } }
  | .claim area => some { s with areas := Function.update s.areas s.current area }
  | .timer left => s.interrupted fuel ringStack left 0 none timerIntHandler
  | .keyboard left scancode woken =>
      s.interrupted fuel ringStack left scancode woken keyboardHandlerEntry
  | .addProcess p stack func area =>
      s.insert fuel p (s.addedProcess stack) (newStack s.code.mem stack func) area
  | .fork p newCr3 context after pid resources area =>
      s.insert fuel p (s.forkedProcess newCr3 context pid resources)
        (s.forkedMemory newCr3 context after) area
  | .setStatus p status =>
      some { s with code := { s.code with kernel := s.code.kernel.setStatus p status } }
  | .reap p =>
      (s.code.kernel.removeProcFromList fuel p).map fun k =>
        { s with code := { s.code with kernel := k }, inserted := s.inserted.erase p }

/-- The processes that may run again. -/
def Live (s : SwitchState) (p : Ptr) : Prop :=
  p ∈ s.inserted ∧ (p = s.current ∨ s.code.kernel.status p ≠ .dead)

/-- The processes whose registers are in their `cpu_status`. -/
def Waiting (s : SwitchState) (p : Ptr) : Prop :=
  p ∈ s.inserted ∧ p ≠ s.current ∧ s.code.kernel.status p ≠ .dead

/-- Where the `cpu_status` of a process lies. -/
def frame (s : SwitchState) (p : Ptr) : Nat :=
  place (UInt64.ofNat (s.proc p).cr3) (UInt64.ofNat (s.proc p).context)

end SwitchState

def switchMachine (fuel : Nat) (ringStack : UInt64) : Machine SwitchState SwitchAction :=
  ⟨SwitchState.step fuel ringStack⟩

/-- The bytes of `kernel_stack`. -/
def ringArea (ringStack : UInt64) : Set Nat :=
  {x | ringStack.toNat - 0x1000 ≤ x ∧ x < ringStack.toNat}

end BayosKernel
