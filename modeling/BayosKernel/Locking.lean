import BayosKernel.Foundation.LockOrder
import BayosKernel.ProcessList
import BayosKernel.Pipe

/-!
The mutexes of the kernel: what each function locks and unlocks on each of its
paths, and the machine in which any number of processes run these functions.

Only `mountpoint_list` is held while another mutex, `g_al`, is locked. The
skeletons leave out what holds no lock and waits for none: `alloc` and `free`,
`printk` to the serial port, the page table code. The file operations are those
of `initramfs`, the only ones there are. A pipe is named by its struct.
-/

namespace BayosKernel

open Foundation

inductive Mutex where
  | gAl | gBa | gFb | mountpointList
  | bufLock (p : Ptr)
  deriving DecidableEq, Repr

inductive PipeSem where
  | semEmpty (p : Ptr)
  | semFull (p : Ptr)
  deriving DecidableEq, Repr

inductive LockOp where
  | lock (m : Mutex)
  | unlock (m : Mutex)
  | wait (s : PipeSem)
  | trywait (s : PipeSem)
  | signal (s : PipeSem)
  | initPipe
  | insertProcess
  | removeProcess
  | markDead
  | yield
  deriving DecidableEq, Repr

abbrev LockCode := Skeleton LockOp

namespace LockCode

def lock (m : Mutex) : LockCode := .op (.lock m)
def unlock (m : Mutex) : LockCode := .op (.unlock m)

/-- A statement under one mutex. -/
def locked (m : Mutex) : LockCode := lock m >> unlock m

/-- The early returns without a mutex come first in an `alt`. -/
def vfsMount : LockCode :=
  locked .gAl >>
  .alt .skip
    (locked .gAl >>
     .alt (locked .gAl)
      (lock .mountpointList >> lock .gAl >> unlock .gAl >> unlock .mountpointList >>
       .alt (locked .gAl) .skip))

def vfsUmount : LockCode :=
  lock .mountpointList >>
  .alt (unlock .mountpointList)
    (lock .gAl >> unlock .gAl >> unlock .mountpointList)

/-- `open` of `initramfs`: no such file, no struct, no path, or the file. -/
def initramfsOpen : LockCode :=
  .alt .skip
    (locked .gAl >>
     .alt .skip
      (locked .gAl >> .alt (locked .gAl) .skip))

def initramfsRead : LockCode := .skip
def initramfsWrite : LockCode := .skip
def initramfsClose : LockCode := locked .gAl

def vfsOpen : LockCode :=
  .alt .skip (locked .mountpointList >> .alt .skip initramfsOpen)

def vfsRead : LockCode := locked .mountpointList >> .alt .skip initramfsRead
def vfsWrite : LockCode := locked .mountpointList >> .alt .skip initramfsWrite
def vfsClose : LockCode := locked .mountpointList >> .alt .skip initramfsClose

def pipeCreate : LockCode := locked .gAl >> .op .initPipe

/-- The loop may be left after `sem_wait`, when `read_refs` is 0. -/
def pipeWrite (p : Ptr) : LockCode :=
  .alt .skip
    (.loop (.op (.wait (.semEmpty p)) >> locked (.bufLock p) >> .op (.signal (.semFull p))) >>
     .alt (.op (.wait (.semEmpty p))) .skip)

def pipeRead (p : Ptr) : LockCode :=
  .alt .skip
    (.op (.wait (.semFull p)) >> locked (.bufLock p) >> .op (.signal (.semEmpty p)) >>
     .loop (.op (.trywait (.semFull p)) >> locked (.bufLock p) >>
      .op (.signal (.semEmpty p))) >>
     .alt (.op (.trywait (.semFull p))) .skip)

def resourceTableAlloc : LockCode := locked .gAl
def resourceTableFree : LockCode := locked .gAl

/-- Each round allocates a table and frees it or the old one; the last finds a free entry, or
gets no table. -/
def resourceAdd : LockCode :=
  .loop (resourceTableAlloc >> resourceTableFree) >> .alt .skip resourceTableAlloc

def resourceRead (p : Ptr) : LockCode := .alt (pipeRead p) (.alt vfsRead .skip)
def resourceWrite (p : Ptr) : LockCode := .alt (pipeWrite p) (.alt vfsWrite .skip)

def addProcess : LockCode := locked .gAl >> .op .insertProcess

def anonAllocateSyscall : LockCode := .loop (locked .gBa)

def exitSyscall : LockCode :=
  resourceTableFree >> locked .gBa >> .op .markDead >> .op .yield

def forkSyscall : LockCode :=
  locked .gBa >> locked .gBa >> locked .gAl >> resourceTableAlloc >> .op .insertProcess >>
  .op .yield

/-- No file and a path that is too long both return -1. -/
def execveSyscall : LockCode :=
  vfsOpen >>
  .alt .skip (locked .gBa >> locked .gBa >> vfsRead >> locked .gBa >> locked .gBa)

def waitpidSyscall : LockCode :=
  .alt .skip (.loop (.op .yield) >> .op .removeProcess >> locked .gAl)

def enterRing3Init : LockCode :=
  locked .gBa >> locked .gBa >> resourceTableAlloc >> resourceAdd >> resourceAdd

/-- One round of the loop. -/
def framebufferPrintProcess (p : Ptr) : LockCode := pipeRead p >> locked .gFb

end LockCode

inductive KernelFunction where
  | vfsMount | vfsUmount | vfsOpen | vfsRead | vfsWrite | vfsClose
  | pipeCreate
  | pipeRead (p : Ptr)
  | pipeWrite (p : Ptr)
  | resourceAdd
  | resourceRead (p : Ptr)
  | resourceWrite (p : Ptr)
  | addProcess | anonAllocateSyscall | exitSyscall | forkSyscall | execveSyscall | waitpidSyscall
  | enterRing3Init
  | framebufferPrintProcess (p : Ptr)
  deriving DecidableEq, Repr

namespace KernelFunction

def code : KernelFunction → LockCode
  | vfsMount => LockCode.vfsMount
  | vfsUmount => LockCode.vfsUmount
  | vfsOpen => LockCode.vfsOpen
  | vfsRead => LockCode.vfsRead
  | vfsWrite => LockCode.vfsWrite
  | vfsClose => LockCode.vfsClose
  | pipeCreate => LockCode.pipeCreate
  | pipeRead p => LockCode.pipeRead p
  | pipeWrite p => LockCode.pipeWrite p
  | resourceAdd => LockCode.resourceAdd
  | resourceRead p => LockCode.resourceRead p
  | resourceWrite p => LockCode.resourceWrite p
  | addProcess => LockCode.addProcess
  | anonAllocateSyscall => LockCode.anonAllocateSyscall
  | exitSyscall => LockCode.exitSyscall
  | forkSyscall => LockCode.forkSyscall
  | execveSyscall => LockCode.execveSyscall
  | waitpidSyscall => LockCode.waitpidSyscall
  | enterRing3Init => LockCode.enterRing3Init
  | framebufferPrintProcess p => LockCode.framebufferPrintProcess p

/-- The pipe that the caller passes. -/
def pipe : KernelFunction → Option Ptr
  | pipeRead p | pipeWrite p | resourceRead p | resourceWrite p | framebufferPrintProcess p =>
      some p
  | _ => none

end KernelFunction

namespace LockOp

/-- `mountpoint_list` is the first in the order, and the others are not nested. -/
def rank : Mutex → Nat
  | .mountpointList => 0
  | _ => 1

/-- The mutexes of the process after the operation. -/
def after : LockOp → List Mutex → List Mutex
  | lock m, held => m :: held
  | unlock m, held => held.erase m
  | _, held => held

/-- A mutex is locked above those held, and only a mutex that is held is unlocked; a process
waits for a pipe, dies or gives up the processor without a mutex. -/
def Allowed : LockOp → List Mutex → Prop
  | lock m, held => ∀ x ∈ held, rank x < rank m
  | unlock m, held => m ∈ held
  | wait _, held | insertProcess, held | markDead, held | yield, held => held = []
  | _, _ => True

instance (o : LockOp) (held : List Mutex) : Decidable (o.Allowed held) := by
  cases o <;> simp only [Allowed] <;> infer_instance

def effect (o : LockOp) (held : List Mutex) : Option (List Mutex) :=
  if o.Allowed held then some (o.after held) else none

/-- The operations in which a process may block. -/
def Blocking : LockOp → Prop
  | lock _ | wait _ => True
  | _ => False

end LockOp

/-- The semaphores of the global mutexes. -/
structure KernelMutexes where
  gAl : Ptr
  gBa : Ptr
  gFb : Ptr
  mountpointList : Ptr

/-- `array p` is the array of the three semaphores of the pipe `p`. `held` is a ghost: the
mutexes whose `mutex_lock` has returned and that were not unlocked since. -/
structure LockState where
  sem : SemState
  pipes : List Ptr
  array : Ptr → Ptr
  code : Ptr → List LockCode
  held : Ptr → List Mutex

inductive LockAction where
  | call (f : KernelFunction)
  | choose (first : Bool)
  | run (context : Ptr)
  | initPipe (p s : Ptr) (content : Nat → UInt8) (bufferLen : Nat)
  | insertProcess (p : Ptr) (content : Process)
  | removeProcess (c : Ptr)
  | tick (context : Ptr)
  | irqTrywait (s : PipeSem)
  | irqSignal (s : PipeSem)

namespace LockState

def current (st : LockState) : Ptr := st.sem.current

def mutexAddr (ms : KernelMutexes) (st : LockState) : Mutex → Ptr
  | .gAl => ms.gAl
  | .gBa => ms.gBa
  | .gFb => ms.gFb
  | .mountpointList => ms.mountpointList
  | .bufLock p => st.array p

def pipeSemAddr (st : LockState) : PipeSem → Ptr
  | .semEmpty p => st.array p + sizeofSemaphore
  | .semFull p => st.array p + 2 * sizeofSemaphore

def goto (st : LockState) (rest : List LockCode) : LockState :=
  { st with code := Function.update st.code st.current rest }

/-- The operation of the current process is over. -/
def finish (st : LockState) (o : LockOp) (rest : List LockCode) : LockState :=
  { st with
    code := Function.update st.code st.current rest
    held := Function.update st.held st.current (o.after (st.held st.current)) }

/-- `sem_wait(s)`: on if it returns at once. -/
def waitOn (st : LockState) (s : Ptr) (o : LockOp) (rest : List LockCode) : LockState :=
  if (st.sem.wait s).point st.current = .outside then
    { st.finish o rest with sem := st.sem.wait s }
  else { st with sem := st.sem.wait s }

def switch (fuel : Nat) (st : LockState) (context : Ptr) : Option LockState :=
  (st.sem.switch fuel context).map fun sem => { st with sem := sem }

def withSched (st : LockState) (sched : Scheduler) : LockState :=
  { st with sem := { st.sem with kernel := { st.sem.kernel with sched := sched } } }

/-- The operation at the head of the current process's code, outside of `sem_wait`. -/
def runOp (ms : KernelMutexes) (fuel : Nat) (st : LockState) (context : Ptr)
    (rest : List LockCode) : LockOp → Option LockState
  | .lock m => some (st.waitOn (st.mutexAddr ms m) (.lock m) rest)
  | .unlock m =>
      some { st.finish (.unlock m) rest with
        sem := st.sem.signal (some st.current) (st.mutexAddr ms m) }
  | .wait s => some (st.waitOn (st.pipeSemAddr s) (.wait s) rest)
  | .trywait s =>
      some { st.finish (.trywait s) rest with
        sem := (st.sem.trywait (some st.current) (st.pipeSemAddr s)).1 }
  | .signal s =>
      some { st.finish (.signal s) rest with
        sem := st.sem.signal (some st.current) (st.pipeSemAddr s) }
  | .markDead =>
      some ((st.finish .markDead rest).withSched
        (st.sem.kernel.sched.setStatus st.current .dead))
  | .yield => (st.finish .yield rest).switch fuel context
  | .initPipe | .insertProcess | .removeProcess => none

/-- `run` also goes on inside `sem_wait`. A new process starts outside of all calls; what its
struct holds and which process a `waitpid` removes is left open. -/
def step (ms : KernelMutexes) (fuel : Nat) (st : LockState) : LockAction → Option LockState
  | .call f =>
      if st.code st.current = [] ∧ ∀ p ∈ f.pipe, p ∈ st.pipes then some (st.goto [f.code])
      else none
  | .choose first => (Skeleton.advance first (st.code st.current)).map st.goto
  | .run context =>
      match st.sem.point st.current, st.code st.current with
      | .outside, .op o :: rest => st.runOp ms fuel context rest o
      | .beforeYield s, _ => (st.sem.yieldWait fuel s context).map fun sem => { st with sem := sem }
      | .inYield s, .op o :: rest => some { st.finish o rest with sem := st.sem.resume s }
      | _, _ => none
  | .initPipe p s content bufferLen =>
      match st.code st.current with
      | .op .initPipe :: rest =>
          if p ∈ st.pipes then none
          else some { st.finish .initPipe rest with
            sem := { st.sem with kernel := (pipeCreate st.sem.kernel content bufferLen s).1 }
            pipes := p :: st.pipes
            array := Function.update st.array p s }
      | _ => none
  | .insertProcess p content =>
      match st.code st.current with
      | .op .insertProcess :: rest =>
          if p = st.current then none
          else ((st.sem.kernel.sched.modify p fun _ => content).insertProcess fuel p).map
            fun sched =>
              { (st.finish .insertProcess rest).withSched sched with
                code := Function.update (st.finish .insertProcess rest).code p []
                held := Function.update (st.finish .insertProcess rest).held p []
                sem := { st.sem with
                  kernel := { st.sem.kernel with sched := sched }
                  point := Function.update st.sem.point p .outside } }
      | _ => none
  | .removeProcess c =>
      match st.code st.current with
      | .op .removeProcess :: rest =>
          (st.sem.kernel.sched.removeProcFromList fuel c).map
            (st.finish .removeProcess rest).withSched
      | _ => none
  | .tick context => st.switch fuel context
  | .irqTrywait s => some { st with sem := (st.sem.trywait none (st.pipeSemAddr s)).1 }
  | .irqSignal s => some { st with sem := st.sem.signal none (st.pipeSemAddr s) }

/-- The process is inside the `sem_wait` of the operation, which did not return at once. -/
def BlockedIn (st : LockState) (p : Ptr) (o : LockOp) : Prop :=
  st.sem.point p ≠ .outside ∧ ∃ rest, st.code p = .op o :: rest

/-- `p` is blocked on a mutex that `q` holds. -/
def WaitsFor (st : LockState) (p q : Ptr) : Prop :=
  ∃ m, st.BlockedIn p (.lock m) ∧ m ∈ st.held q

end LockState

def lockMachine (ms : KernelMutexes) (fuel : Nat) : Machine LockState LockAction :=
  ⟨LockState.step ms fuel⟩

end BayosKernel
