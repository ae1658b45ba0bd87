import BayosKernel.Foundation.Machine
import BayosKernel.Process

/-!
The process list: the list functions of `sched.c`, and the system calls that
use them (`add_process`, fork, exit, waitpid) as a machine.

The loops run on fuel; `none` stands for a loop that has not ended or for a
load through NULL. `heap` and `unreaped` are ghosts: the process structs that
are allocated, and the processes that were inserted and not taken out again by
a waitpid, the oldest first.
-/

namespace BayosKernel

open Foundation

namespace Scheduler

def setNext (k : Scheduler) (p v : Ptr) : Scheduler :=
  k.modify p fun q => { q with next := v }

/-- The walk of `insert_process` to the last process. -/
def insertLoop : Nat → Scheduler → Ptr → Option Ptr
  | 0, _, _ => none
  | fuel + 1, k, last =>
      if last = NULL then none
      else if k.next last ≠ NULL then insertLoop fuel k (k.next last)
      else some last

def insertProcess (fuel : Nat) (k : Scheduler) (p : Ptr) : Option Scheduler :=
  (insertLoop fuel k k.processList).map fun last => k.setNext last p

def getProcLoop : Nat → Scheduler → Int → Ptr → Option Ptr
  | 0, _, _, _ => none
  | fuel + 1, k, pid, curr =>
      if curr = NULL then some NULL
      else if (k.procs curr).pid = pid then some curr
      else getProcLoop fuel k pid (k.next curr)

def getProcFromPid (fuel : Nat) (k : Scheduler) (pid : Int) : Option Ptr :=
  getProcLoop fuel k pid k.processList

def removeLoop : Nat → Scheduler → Ptr → Ptr → Option Scheduler
  | 0, _, _, _ => none
  | fuel + 1, k, p, current =>
      if k.next current ≠ NULL then
        if k.next current = p then some ((k.setNext current (k.next p)).setNext p NULL)
        else removeLoop fuel k p (k.next current)
      else some k

/-- `remove_proc_from_list`, without interruption. -/
def removeProcFromList (fuel : Nat) (k : Scheduler) (p : Ptr) : Option Scheduler :=
  if p = NULL ∨ k.processList = NULL then some k
  else if k.processList = p then
    some ({ k with processList := k.next k.processList }.setNext p NULL)
  else removeLoop fuel k p k.processList

end Scheduler

def sizeofCpuStatus : Nat := 160

/-- Where a process stands in a system call that works on the process list; `p`
and `c` are the structs that the call has allocated or is waiting for. The
points from `removing` to `clearNext` are the statements of
`remove_proc_from_list`, with its local `current`. -/
inductive ListPoint where
  | idle
  | exited
  | yielding
  | addFill (p stack : Ptr) (cr3 : Nat)
  | forkCopy (p : Ptr) (cr3 : Nat) (resources context : Ptr)
  | inserting (p : Ptr) (fork : Bool)
  | waiting (c : Ptr)
  | removing (c : Ptr)
  | headSet (c : Ptr)
  | start (c : Ptr)
  | loop (c current : Ptr)
  | test (c current : Ptr)
  | unlink (c current : Ptr)
  | advance (c current : Ptr)
  | clearNext (c : Ptr)
  | freeing (c : Ptr)
  deriving DecidableEq, Repr

/-- The process struct the call works on. -/
def ListPoint.struct : ListPoint → Option Ptr
  | .idle | .exited | .yielding => none
  | .addFill p _ _ | .forkCopy p _ _ _ | .inserting p _ => some p
  | .waiting c | .removing c | .headSet c | .start c | .loop c _ | .test c _ | .unlink c _
  | .advance c _ | .clearNext c | .freeing c => some c

structure ListState where
  sched : Scheduler
  code : Ptr → ListPoint
  nextPid : Nat
  heap : List Ptr
  unreaped : List Ptr

namespace ListState

def current (st : ListState) : Ptr := st.sched.currentProcess

def goto (st : ListState) (pt : ListPoint) : ListState :=
  { st with code := Function.update st.code st.current pt }

def setProc (st : ListState) (p : Ptr) (f : Process → Process) : ListState :=
  { st with sched := st.sched.modify p f }

/-- The timer interrupt, or the `int $0x20` of `yield`. -/
def switch (fuel : Nat) (st : ListState) (context : Ptr) : Option ListState :=
  (st.sched.schedule fuel context).map fun r => { st with sched := r.1 }

/-- `alloc(al, sizeof(process))` returns `p`. -/
def alloc (st : ListState) (p : Ptr) (pt : ListPoint) : Option ListState :=
  if p = NULL ∨ p ∈ st.heap then none
  else some ({ st with heap := st.heap ++ [p] }.goto pt)

/-- `add_process` between the allocation and `insert_process`. -/
def addFill (st : ListState) (p stack : Ptr) (cr3 : Nat) : ListState :=
  (st.setProc p fun _ => { Process.zeroed with
    status := .ready, pid := 0, kernelStack := stack, context := stack + 0x2000 - sizeofCpuStatus,
    anonAllocateEnd := 0x800000, elfEnd := 0, cr3 := cr3, resources := NULL }).goto
      (.inserting p false)

/-- `fork_syscall` from `memcpy(p, proc, sizeof(process))` to `insert_process`. -/
def forkCopy (st : ListState) (p : Ptr) (cr3 : Nat) (resources context : Ptr) : ListState :=
  ({ st with nextPid := (st.nextPid + 1) % 0x100000000 }.setProc p fun _ =>
    { st.sched.procs st.current with
      cr3 := cr3, pid := Int.bmod st.nextPid (0x100000000), resources := resources,
      context := context }).goto (.inserting p true)

/-- `insert_process(p)`; the new process starts outside of these calls. -/
def insert (fuel : Nat) (st : ListState) (p : Ptr) (fork : Bool) : Option ListState :=
  (st.sched.insertProcess fuel p).map fun sched =>
    { st with
      sched := sched
      code := Function.update (Function.update st.code p .idle) st.current
        (if fork then .yielding else .idle)
      unreaped := st.unreaped ++ [p] }

/-- `waitpid_syscall` up to its loop. -/
def waitpid (fuel : Nat) (st : ListState) (pid : Int) (status : Ptr) : Option ListState :=
  if status = NULL ∨ pid = -1 then some st
  else (st.sched.getProcFromPid fuel pid).map fun c =>
    if c = NULL then st else st.goto (.waiting c)

/-- The statements that are not part of `remove_proc_from_list`. -/
def statement (fuel : Nat) (st : ListState) (context : Ptr) : ListPoint → Option ListState
  | .exited => st.switch fuel context
  | .yielding => (st.goto .idle).switch fuel context
  | .addFill p stack cr3 => some (st.addFill p stack cr3)
  | .forkCopy p cr3 resources ctx => some (st.forkCopy p cr3 resources ctx)
  | .inserting p fork => st.insert fuel p fork
  | .waiting c =>
      if st.sched.status c = .dead then some (st.goto (.removing c))
      else st.switch fuel context
  | .freeing c => some ({ st with heap := st.heap.erase c }.goto .idle)
  | _ => none

/-- `remove_proc_from_list(c)` without interruption. -/
def removeWhole (fuel : Nat) (st : ListState) : ListPoint → Option ListState
  | .removing c =>
      (st.sched.removeProcFromList fuel c).map fun sched =>
        { st with sched := sched, unreaped := st.unreaped.erase c }.goto (.freeing c)
  | _ => none

/-- The statements of `remove_proc_from_list(c)`, one by one. -/
def removeStatement (st : ListState) : ListPoint → Option ListState
  | .removing c =>
      if c = NULL ∨ st.sched.processList = NULL then some (st.goto (.freeing c))
      else if st.sched.processList = c then some (st.goto (.headSet c))
      else some (st.goto (.start c))
  | .headSet c =>
      some ({ st with
        sched := { st.sched with processList := st.sched.next st.sched.processList }
        unreaped := st.unreaped.erase c }.goto (.clearNext c))
  | .start c => some (st.goto (.loop c st.sched.processList))
  | .loop c current =>
      if st.sched.next current ≠ NULL then some (st.goto (.test c current))
      else some (st.goto (.freeing c))
  | .test c current =>
      if st.sched.next current = c then some (st.goto (.unlink c current))
      else some (st.goto (.advance c current))
  | .unlink c current =>
      some ({ st with
        sched := st.sched.setNext current (st.sched.next c)
        unreaped := st.unreaped.erase c }.goto (.clearNext c))
  | .advance c current => some (st.goto (.loop c (st.sched.next current)))
  | .clearNext c => some ({ st with sched := st.sched.setNext c NULL }.goto (.freeing c))
  | _ => none

end ListState

inductive ListAction where
  | addProcess (p stack : Ptr) (cr3 : Nat)
  | fork (p : Ptr) (cr3 : Nat) (resources context : Ptr)
  | exit
  | waitpid (pid : Int) (status : Ptr)
  | run (context : Ptr)
  | tick (context : Ptr)
  deriving DecidableEq, Repr

/-- A step of the current process or a tick; `remove` says how the statements
of `remove_proc_from_list` are executed. -/
def ListState.step (fuel : Nat) (remove : ListState → ListPoint → Option ListState)
    (st : ListState) : ListAction → Option ListState
  | .addProcess p stack cr3 =>
      if st.code st.current = .idle then st.alloc p (.addFill p stack cr3) else none
  | .fork p cr3 resources context =>
      if st.code st.current = .idle then st.alloc p (.forkCopy p cr3 resources context) else none
  | .exit =>
      if st.code st.current = .idle then
        some ((st.setProc st.current fun q => { q with status := .dead }).goto .exited)
      else none
  | .waitpid pid status =>
      if st.code st.current = .idle then st.waitpid fuel pid status else none
  | .run context =>
      match remove st (st.code st.current) with
      | some st' => some st'
      | none => st.statement fuel context (st.code st.current)
  | .tick context => st.switch fuel context

/-- Every list operation is executed without interruption. -/
def listMachine (fuel : Nat) : Machine ListState ListAction where
  step := ListState.step fuel (ListState.removeWhole fuel)

/-- A tick may fall between any two statements of `remove_proc_from_list`. -/
def reapMachine (fuel : Nat) : Machine ListState ListAction where
  step := ListState.step fuel ListState.removeStatement

end BayosKernel
