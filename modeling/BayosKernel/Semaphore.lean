import BayosKernel.Foundation.Machine
import BayosKernel.Process

/-!
The counting semaphore of `sem.c` and the machine in which any number of
processes use any number of semaphores under the preemptive scheduler.

Each interrupts-off section is one step. A timer tick may fall at every other
point: outside the semaphore code, between `irqrestore` and `yield` inside
`sem_wait`, and after the yield, before `sem_wait` returns.
-/

namespace BayosKernel

open Foundation

structure Semaphore where
  count : Int
  waitHead : Ptr
  waitTail : Ptr
  deriving DecidableEq, Repr

def semCreate (initialCount : Int) : Semaphore := ⟨initialCount, NULL, NULL⟩

structure Kernel where
  sched : Scheduler
  sems : Ptr → Semaphore

namespace Kernel

def current (k : Kernel) : Ptr := k.sched.currentProcess

def status (k : Kernel) (p : Ptr) : ProcessStatus := k.sched.status p

def waitNext (k : Kernel) (p : Ptr) : Ptr := (k.sched.procs p).waitNext

def setProc (k : Kernel) (p : Ptr) (f : Process → Process) : Kernel :=
  { k with sched := k.sched.modify p f }

def setSem (k : Kernel) (s : Ptr) (f : Semaphore → Semaphore) : Kernel :=
  { k with sems := Function.update k.sems s (f (k.sems s)) }

/-- The branch of `sem_wait` taken when the count has dropped below zero. -/
def blockCurrent (k : Kernel) (s : Ptr) : Kernel :=
  let me := k.current
  let k := k.setProc me fun q => { q with status := .blocked }
  let k := k.setProc me fun q => { q with waitNext := NULL }
  let k :=
    if (k.sems s).waitTail ≠ NULL then
      k.setProc (k.sems s).waitTail fun q => { q with waitNext := me }
    else k.setSem s fun m => { m with waitHead := me }
  k.setSem s fun m => { m with waitTail := me }

/-- `sem_wait` up to `irqrestore`; the flag says that the caller still has to
`yield`. -/
def semWait (k : Kernel) (s : Ptr) : Kernel × Bool :=
  let k := k.setSem s fun m => { m with count := int32 (m.count - 1) }
  if (k.sems s).count < 0 then (k.blockCurrent s, true) else (k, false)

def semTrywait (k : Kernel) (s : Ptr) : Kernel × Int :=
  if (k.sems s).count > 0 then
    (k.setSem s fun m => { m with count := int32 (m.count - 1) }, 1)
  else (k, 0)

/-- The branch of `sem_signal` that wakes `wait_head`. -/
def wakeOldest (k : Kernel) (s : Ptr) : Kernel :=
  let woken := (k.sems s).waitHead
  let k := k.setSem s fun m => { m with waitHead := k.waitNext woken }
  let k :=
    if (k.sems s).waitHead = NULL then k.setSem s fun m => { m with waitTail := NULL } else k
  let k := k.setProc woken fun q => { q with waitNext := NULL }
  k.setProc woken fun q => { q with status := .ready }

/-- `sem_signal` with the process it woke. -/
def semSignal (k : Kernel) (s : Ptr) : Kernel × Option Ptr :=
  let k := k.setSem s fun m => { m with count := int32 (m.count + 1) }
  if (k.sems s).count ≤ 0 ∧ (k.sems s).waitHead ≠ NULL then
    (k.wakeOldest s, some (k.sems s).waitHead)
  else (k, none)

end Kernel

/-- Where a process stands with respect to `sem_wait`. -/
inductive Point where
  | outside
  | beforeYield (s : Ptr)
  | inYield (s : Ptr)
  deriving DecidableEq, Repr

def Point.Waits (pt : Point) (s : Ptr) : Prop := pt = .beforeYield s ∨ pt = .inYield s

instance (pt : Point) (s : Ptr) : Decidable (pt.Waits s) := by
  unfold Point.Waits
  infer_instance

@[simp] theorem Point.outside_waits (s : Ptr) : ¬Point.outside.Waits s := by
  simp [Point.Waits]

@[simp] theorem Point.beforeYield_waits (s t : Ptr) : (Point.beforeYield s).Waits t ↔ s = t := by
  simp [Point.Waits]

@[simp] theorem Point.inYield_waits (s t : Ptr) : (Point.inYield s).Waits t ↔ s = t := by
  simp [Point.Waits]

theorem Point.Waits.unique {pt : Point} {s t : Ptr} (h : pt.Waits s) (k : pt.Waits t) : s = t := by
  rcases h with rfl | rfl <;> simpa using k

/-- What happened to semaphores so far. `none` in place of a process stands for
an interrupt handler. -/
inductive SemEvent where
  | blocked (p s : Ptr)
  | woken (p s : Ptr)
  | acquired (who : Option Ptr) (s : Ptr)
  | signalled (who : Option Ptr) (s : Ptr)
  deriving DecidableEq, Repr

/-- The processes that blocked on `s` and were not woken since, the oldest
first. The history has its latest event in front. -/
def waiters (s : Ptr) : List SemEvent → List Ptr
  | [] => []
  | .blocked p t :: older => if t = s then waiters s older ++ [p] else waiters s older
  | .woken p t :: older => if t = s then (waiters s older).erase p else waiters s older
  | .acquired _ _ :: older | .signalled _ _ :: older => waiters s older

def acquisitions (s : Ptr) (history : List SemEvent) : Nat :=
  history.countP fun e => match e with
    | .acquired _ t => t = s
    | _ => false

def signals (s : Ptr) (history : List SemEvent) : Nat :=
  history.countP fun e => match e with
    | .signalled _ t => t = s
    | _ => false

structure SemState where
  kernel : Kernel
  point : Ptr → Point
  history : List SemEvent

namespace SemState

def current (st : SemState) : Ptr := st.kernel.current

def status (st : SemState) (p : Ptr) : ProcessStatus := st.kernel.status p

def count (st : SemState) (s : Ptr) : Int := (st.kernel.sems s).count

/-- `sem_wait(s)` by the current process, up to `irqrestore` or its return. -/
def wait (st : SemState) (s : Ptr) : SemState :=
  let (k, mustYield) := st.kernel.semWait s
  if mustYield then
    { kernel := k, point := Function.update st.point st.current (.beforeYield s),
      history := .blocked st.current s :: st.history }
  else { st with kernel := k, history := .acquired (some st.current) s :: st.history }

/-- `sem_trywait(s)` and its result. -/
def trywait (st : SemState) (who : Option Ptr) (s : Ptr) : SemState × Int :=
  let (k, r) := st.kernel.semTrywait s
  (if r = 1 then { st with kernel := k, history := .acquired who s :: st.history }
    else { st with kernel := k }, r)

def signal (st : SemState) (who : Option Ptr) (s : Ptr) : SemState :=
  match st.kernel.semSignal s with
  | (k, none) => { st with kernel := k, history := .signalled who s :: st.history }
  | (k, some woken) =>
      { st with kernel := k, history := .woken woken s :: .signalled who s :: st.history }

/-- The timer interrupt, or the `int $0x20` of `yield`. -/
def switch (fuel : Nat) (st : SemState) (context : Ptr) : Option SemState :=
  (st.kernel.sched.schedule fuel context).map fun r =>
    { st with kernel := { st.kernel with sched := r.1 } }

/-- The call of `yield` that ends a blocked `sem_wait`. -/
def yieldWait (fuel : Nat) (st : SemState) (s context : Ptr) : Option SemState :=
  switch fuel { st with point := Function.update st.point st.current (.inYield s) } context

/-- `yield` has come back and `sem_wait(s)` returns. -/
def resume (st : SemState) (s : Ptr) : SemState :=
  { st with point := Function.update st.point st.current .outside,
            history := .acquired (some st.current) s :: st.history }

end SemState

inductive SemAction where
  | wait (s : Ptr)
  | trywait (s : Ptr)
  | signal (s : Ptr)
  | yield (context : Ptr)
  | resume
  | tick (context : Ptr)
  | irqTrywait (s : Ptr)
  | irqSignal (s : Ptr)
  deriving DecidableEq, Repr

/-- The actions of the current process depend on where it stands; ticks and
interrupt handlers come at any point. `fuel` bounds the search of `schedule`. -/
def semMachine (fuel : Nat) : Machine SemState SemAction where
  step st
    | .wait s => if st.point st.current = .outside then some (st.wait s) else none
    | .trywait s =>
        if st.point st.current = .outside then some (st.trywait (some st.current) s).1 else none
    | .signal s =>
        if st.point st.current = .outside then some (st.signal (some st.current) s) else none
    | .yield context =>
        match st.point st.current with
        | .beforeYield s => st.yieldWait fuel s context
        | _ => none
    | .resume =>
        match st.point st.current with
        | .inYield s => some (st.resume s)
        | _ => none
    | .tick context => st.switch fuel context
    | .irqTrywait s => some (st.trywait none s).1
    | .irqSignal s => some (st.signal none s)

/-- The increments and decrements of `count` stay in the range of `int`. -/
def SemAction.NoWrap (st : SemState) : SemAction → Prop
  | .wait s => -0x80000000 ≤ st.count s - 1
  | .signal s | .irqSignal s => st.count s + 1 < 0x80000000
  | _ => True

instance (st : SemState) (a : SemAction) : Decidable (a.NoWrap st) := by
  cases a <;> simp only [SemAction.NoWrap] <;> infer_instance

end BayosKernel
