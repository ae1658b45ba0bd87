import Mathlib.Data.Nat.Basic
import BayosKernel.Locking

/-!
The lock order over whole runs. Every function takes the mutexes in the order of
`LockOp.rank`, gives back all that it took, and waits for a pipe without a mutex, on each
of its paths; so no cycle of blocked processes comes about, whatever the schedule.
-/

namespace BayosKernel

open Foundation

namespace LockCode

/-- The transfer of `a` from no mutex held to none. -/
def Balanced (a : LockCode) : Prop := a.transfer LockOp.effect [] = some []

theorem Balanced.seq {a b : LockCode} (ha : Balanced a) (hb : Balanced b) : Balanced (a >> b) := by
  rw [Balanced] at ha
  rw [Balanced, Skeleton.transfer_andThen, ha]
  exact hb

theorem Balanced.alt {a b : LockCode} (ha : Balanced a) (hb : Balanced b) :
    Balanced (.alt a b) := by
  rw [Balanced] at ha hb
  simp [Balanced, Skeleton.transfer, ha, hb]

theorem Balanced.loop {a : LockCode} (ha : Balanced a) : Balanced (.loop a) := by
  rw [Balanced] at ha
  simp [Balanced, Skeleton.transfer, ha]

theorem balanced_skip : Balanced .skip := rfl

theorem balanced_locked (m : Mutex) : Balanced (locked m) := by
  have hlock : LockOp.effect (.lock m) [] = some [m] := by
    simp [LockOp.effect, LockOp.Allowed, LockOp.after]
  have hunlock : LockOp.effect (.unlock m) [m] = some [] := by
    simp [LockOp.effect, LockOp.Allowed, LockOp.after]
  rw [Balanced, locked, Skeleton.transfer_andThen, lock, Skeleton.transfer, hlock]
  exact hunlock

theorem balanced_wait (s : PipeSem) : Balanced (.op (.wait s)) := rfl

theorem balanced_trywait (s : PipeSem) : Balanced (.op (.trywait s)) := rfl

theorem balanced_signal (s : PipeSem) : Balanced (.op (.signal s)) := rfl

theorem balanced_pipeWrite (p : Ptr) : Balanced (pipeWrite p) := by
  have hround : Balanced
      (.op (.wait (.semEmpty p)) >> locked (.bufLock p) >> .op (.signal (.semFull p))) :=
    (balanced_wait _).seq ((balanced_locked _).seq (balanced_signal _))
  exact balanced_skip.alt (hround.loop.seq ((balanced_wait _).alt balanced_skip))

theorem balanced_pipeRead (p : Ptr) : Balanced (pipeRead p) := by
  have htake : Balanced (locked (.bufLock p) >> .op (.signal (.semEmpty p))) :=
    (balanced_locked _).seq (balanced_signal _)
  exact balanced_skip.alt ((balanced_wait _).seq ((balanced_locked _).seq
    ((balanced_signal _).seq (((balanced_trywait _).seq htake).loop.seq
      ((balanced_trywait _).alt balanced_skip)))))

end LockCode

/-- Every path of every function keeps to the order and ends without a mutex. -/
theorem KernelFunction.balanced (f : KernelFunction) : f.code.Balanced := by
  have hread : LockCode.vfsRead.Balanced := by
    unfold LockCode.Balanced
    decide
  have hwrite : LockCode.vfsWrite.Balanced := by
    unfold LockCode.Balanced
    decide
  cases f with
  | pipeRead p => exact LockCode.balanced_pipeRead p
  | pipeWrite p => exact LockCode.balanced_pipeWrite p
  | resourceRead p =>
      exact (LockCode.balanced_pipeRead p).alt (hread.alt LockCode.balanced_skip)
  | resourceWrite p =>
      exact (LockCode.balanced_pipeWrite p).alt (hwrite.alt LockCode.balanced_skip)
  | framebufferPrintProcess p =>
      exact (LockCode.balanced_pipeRead p).seq (LockCode.balanced_locked _)
  | _ =>
      unfold LockCode.Balanced
      decide

namespace SemState

theorem point_trywait (st : SemState) (who : Option Ptr) (s : Ptr) :
    (st.trywait who s).1.point = st.point := by
  simp only [trywait]
  split <;> rfl

theorem point_signal (st : SemState) (who : Option Ptr) (s : Ptr) :
    (st.signal who s).point = st.point := by
  simp only [signal]
  split <;> rfl

theorem point_wait_ne (st : SemState) (s : Ptr) {p : Ptr} (hp : p ≠ st.current) :
    (st.wait s).point p = st.point p := by
  simp only [wait]
  split
  · exact Function.update_of_ne hp _ _
  · rfl

end SemState

/-- The code of a process, from the mutexes it holds, keeps to the order and ends without
one; and a process inside `sem_wait` stands at a blocking operation. -/
structure LockInv (st : LockState) : Prop where
  ordered : ∀ p, Skeleton.transferAll LockOp.effect (st.code p) (st.held p) = some []
  waiting : ∀ p, st.sem.point p ≠ .outside → ∃ o rest, st.code p = .op o :: rest ∧ o.Blocking

namespace LockInv

variable {st st' : LockState} {ms : KernelMutexes} {fuel : Nat}

/-- A step of the current process; the others stay where they are, or start anew. -/
theorem move (h : LockInv st)
    (hother : ∀ p, p ≠ st.current → (st'.code p = st.code p ∧ st'.held p = st.held p ∧
        st'.sem.point p = st.sem.point p) ∨
      (st'.code p = [] ∧ st'.held p = [] ∧ st'.sem.point p = .outside))
    (hordered : Skeleton.transferAll LockOp.effect (st'.code st.current) (st'.held st.current) =
      some [])
    (hwaiting : st'.sem.point st.current ≠ .outside →
      ∃ o rest, st'.code st.current = .op o :: rest ∧ o.Blocking) : LockInv st' := by
  refine ⟨fun p => ?_, fun p hp => ?_⟩
  · by_cases hpc : p = st.current
    · rw [hpc]
      exact hordered
    · rcases hother p hpc with ⟨hcode, hheld, -⟩ | ⟨hcode, hheld, -⟩
      · rw [hcode, hheld]
        exact h.ordered p
      · rw [hcode, hheld]
        rfl
  · by_cases hpc : p = st.current
    · rw [hpc] at hp ⊢
      exact hwaiting hp
    · rcases hother p hpc with ⟨hcode, -, hpoint⟩ | ⟨-, -, hpoint⟩
      · rw [hpoint] at hp
        rw [hcode]
        exact h.waiting p hp
      · exact absurd hpoint hp

/-- The semaphores change, and no process moves. -/
theorem semaphores (h : LockInv st) {sem : SemState} (hpoint : sem.point = st.sem.point) :
    LockInv { st with sem := sem } :=
  ⟨h.ordered, fun p hp => h.waiting p (by rwa [← hpoint])⟩

theorem switch (h : LockInv st) {context : Ptr} (hs : st.switch fuel context = some st') :
    LockInv st' := by
  obtain ⟨sem, hsem, rfl⟩ := Option.map_eq_some_iff.mp hs
  obtain ⟨r, -, rfl⟩ := Option.map_eq_some_iff.mp hsem
  exact h.semaphores rfl

/-- The operation at the head of the code is over. -/
theorem finish (h : LockInv st) {o : LockOp} {rest : List LockCode}
    (hcode : st.code st.current = .op o :: rest) (sem : SemState)
    (hself : sem.point st.current = .outside)
    (hother : ∀ p, p ≠ st.current → sem.point p = st.sem.point p) :
    LockInv { st.finish o rest with sem := sem } := by
  have hordered := h.ordered st.current
  rw [hcode] at hordered
  obtain ⟨held, heffect, hrest⟩ := Skeleton.transferAll_op hordered
  simp only [LockOp.effect, Option.ite_none_right_eq_some, Option.some.injEq] at heffect
  refine h.move (fun p hp => .inl ⟨Function.update_of_ne hp _ _, Function.update_of_ne hp _ _,
    hother p hp⟩) ?_ (fun hp => absurd hself hp)
  simp only [LockState.finish, Function.update_self]
  rw [heffect.2]
  exact hrest

theorem waitOn (h : LockInv st) {s : Ptr} {o : LockOp} {rest : List LockCode}
    (hcode : st.code st.current = .op o :: rest) (hblocking : o.Blocking) :
    LockInv (st.waitOn s o rest) := by
  unfold LockState.waitOn
  split
  · rename_i hreturned
    exact h.finish hcode _ hreturned fun p hp => st.sem.point_wait_ne s hp
  · exact h.move (fun p hp => .inl ⟨rfl, rfl, st.sem.point_wait_ne s hp⟩) (h.ordered _)
      fun _ => ⟨o, rest, hcode, hblocking⟩

theorem runOp (h : LockInv st) {context : Ptr} {o : LockOp} {rest : List LockCode}
    (hcode : st.code st.current = .op o :: rest) (hout : st.sem.point st.current = .outside)
    (hs : st.runOp ms fuel context rest o = some st') : LockInv st' := by
  cases o with
  | lock m =>
      cases hs
      exact h.waitOn hcode trivial
  | wait s =>
      cases hs
      exact h.waitOn hcode trivial
  | unlock m =>
      cases hs
      exact h.finish hcode _ (by rw [SemState.point_signal, hout])
        fun p _ => by rw [SemState.point_signal]
  | trywait s =>
      cases hs
      exact h.finish hcode _ (by rw [SemState.point_trywait, hout])
        fun p _ => by rw [SemState.point_trywait]
  | signal s =>
      cases hs
      exact h.finish hcode _ (by rw [SemState.point_signal, hout])
        fun p _ => by rw [SemState.point_signal]
  | markDead =>
      cases hs
      exact h.finish hcode _ hout fun _ _ => rfl
  | yield =>
      have hfinished : LockInv (st.finish .yield rest) :=
        h.finish hcode st.sem hout fun _ _ => rfl
      exact hfinished.switch hs
  | initPipe | insertProcess | removeProcess => cases hs

theorem step (h : LockInv st) {a : LockAction} (hs : (lockMachine ms fuel).step st a = some st') :
    LockInv st' := by
  have houtside : ∀ {o rest}, st.code st.current = .op o :: rest → ¬o.Blocking →
      st.sem.point st.current = .outside := by
    intro o rest hcode hnot
    by_contra hp
    obtain ⟨o', rest', hcode', hblocking⟩ := h.waiting _ hp
    rw [hcode] at hcode'
    cases hcode'
    exact hnot hblocking
  cases a with
  | call f =>
      simp only [lockMachine, LockState.step, Option.ite_none_right_eq_some, Option.some.injEq] at hs
      obtain ⟨⟨hnil, -⟩, rfl⟩ := hs
      have hordered := h.ordered st.current
      rw [hnil] at hordered
      have hheld : st.held st.current = [] := by simpa [Skeleton.transferAll] using hordered
      refine h.move (fun p hp => .inl ⟨Function.update_of_ne hp _ _, rfl, rfl⟩) ?_ (fun hp => ?_)
      · have hbalanced : f.code.transfer LockOp.effect [] = some [] := f.balanced
        simp [LockState.goto, hheld, Skeleton.transferAll, hbalanced]
      · obtain ⟨o, rest, hcode, -⟩ := h.waiting _ hp
        rw [hnil] at hcode
        cases hcode
  | choose first =>
      obtain ⟨code, hadvance, rfl⟩ := Option.map_eq_some_iff.mp hs
      refine h.move (fun p hp => .inl ⟨Function.update_of_ne hp _ _, rfl, rfl⟩) ?_ (fun hp => ?_)
      · simp only [LockState.goto, Function.update_self]
        exact Skeleton.transferAll_advance hadvance (h.ordered _)
      · obtain ⟨o, rest, hcode, -⟩ := h.waiting _ hp
        rw [hcode] at hadvance
        cases hadvance
  | run context =>
      simp only [lockMachine, LockState.step] at hs
      split at hs
      · rename_i o rest hout hcode
        exact h.runOp hcode hout hs
      · rename_i s hpoint
        obtain ⟨sem, hsem, rfl⟩ := Option.map_eq_some_iff.mp hs
        obtain ⟨r, -, rfl⟩ := Option.map_eq_some_iff.mp hsem
        refine h.move (fun p hp => .inl ⟨rfl, rfl, Function.update_of_ne hp _ _⟩) (h.ordered _)
          fun _ => h.waiting _ ?_
        rw [hpoint]
        simp
      · rename_i s o rest hpoint hcode
        cases hs
        exact h.finish hcode _ (Function.update_self _ _ _) fun p hp => Function.update_of_ne hp _ _
      · cases hs
  | initPipe p s content bufferLen =>
      simp only [lockMachine, LockState.step] at hs
      split at hs
      · rename_i rest hcode
        simp only [Option.ite_none_left_eq_some, Option.some.injEq] at hs
        obtain ⟨-, rfl⟩ := hs
        have hout := houtside hcode (by simp [LockOp.Blocking])
        have hfinished := h.finish hcode st.sem hout fun _ _ => rfl
        exact ⟨hfinished.ordered, hfinished.waiting⟩
      · cases hs
  | insertProcess p content =>
      simp only [lockMachine, LockState.step] at hs
      split at hs
      · rename_i rest hcode
        simp only [Option.ite_none_left_eq_some] at hs
        obtain ⟨hne, hs⟩ := hs
        obtain ⟨sched, -, rfl⟩ := Option.map_eq_some_iff.mp hs
        have hout := houtside hcode (by simp [LockOp.Blocking])
        have hfinished := h.finish hcode st.sem hout fun _ _ => rfl
        refine hfinished.move (fun q hq => ?_) ?_ (fun hp => ?_)
        · by_cases hqp : q = p
          · rw [hqp]
            exact .inr ⟨Function.update_self _ _ _, Function.update_self _ _ _,
              Function.update_self _ _ _⟩
          · exact .inl ⟨Function.update_of_ne hqp _ _, Function.update_of_ne hqp _ _,
              Function.update_of_ne hqp _ _⟩
        · have hcur : st.sem.current ≠ p := Ne.symm hne
          simpa [LockState.current, LockState.finish, Function.update_of_ne hcur] using
            hfinished.ordered st.current
        · refine absurd ?_ hp
          exact (Function.update_of_ne (Ne.symm hne) _ _).trans hout
      · cases hs
  | removeProcess c =>
      simp only [lockMachine, LockState.step] at hs
      split at hs
      · rename_i rest hcode
        obtain ⟨sched, -, rfl⟩ := Option.map_eq_some_iff.mp hs
        exact h.finish hcode _ (houtside hcode (by simp [LockOp.Blocking])) fun _ _ => rfl
      · cases hs
  | tick context => exact h.switch hs
  | irqTrywait s =>
      cases hs
      exact h.semaphores (SemState.point_trywait _ _ _)
  | irqSignal s =>
      cases hs
      exact h.semaphores (SemState.point_signal _ _ _)

end LockInv

/-- No process is inside a call or holds a mutex. -/
structure LockInit (st : LockState) : Prop where
  outside : ∀ p, st.sem.point p = .outside
  code : ∀ p, st.code p = []
  held : ∀ p, st.held p = []

theorem LockInit.inv {st : LockState} (h : LockInit st) : LockInv st where
  ordered p := by rw [h.code, h.held]; rfl
  waiting p hp := absurd (h.outside p) hp

namespace LockInv

variable {st : LockState}

theorem allowed (h : LockInv st) {p : Ptr} {o : LockOp} (hp : st.BlockedIn p o) :
    o.Allowed (st.held p) := by
  obtain ⟨-, rest, hcode⟩ := hp
  have hordered := h.ordered p
  rw [hcode] at hordered
  obtain ⟨held, heffect, -⟩ := Skeleton.transferAll_op hordered
  simp only [LockOp.effect, Option.ite_none_right_eq_some] at heffect
  exact heffect.1

end LockInv

theorem LockState.BlockedIn.unique {st : LockState} {p : Ptr} {o o' : LockOp}
    (h : st.BlockedIn p o) (h' : st.BlockedIn p o') : o = o' := by
  obtain ⟨-, rest, hcode⟩ := h
  obtain ⟨-, rest', hcode'⟩ := h'
  rw [hcode] at hcode'
  cases hcode'
  rfl

/-- In every state that any number of processes reach with the functions of the kernel, in
any order of their steps, no processes wait for each other in a cycle, no process is blocked
on a mutex it holds, and none is blocked on a pipe while it holds a mutex; outside of the
functions a process holds none. -/
theorem lockMachine_deadlockFree (ms : KernelMutexes) (fuel : Nat) (st₀ st : LockState)
    (run : List LockAction) (init : LockInit st₀)
    (reached : (lockMachine ms fuel).exec st₀ run = some st) :
    (∀ p, ¬Relation.TransGen st.WaitsFor p p) ∧
    (∀ p m, st.BlockedIn p (.lock m) → m ∉ st.held p) ∧
    (∀ p s, st.BlockedIn p (.wait s) → st.held p = []) ∧
    ∀ p, st.code p = [] → st.held p = [] := by
  have h : LockInv st := (lockMachine ms fuel).exec_invariant_always
    (fun _ _ _ h hs => h.step hs) init.inv reached
  have hrank : ∀ p m m', m ∈ st.held p → st.BlockedIn p (.lock m') →
      LockOp.rank m < LockOp.rank m' := fun p m m' hm hp => h.allowed hp m hm
  refine ⟨fun p => ?_, fun p m hp hm => ?_, fun p s hp => h.allowed hp, fun p hp => ?_⟩
  · refine not_transGen_of_lockOrder (fun p m => m ∈ st.held p)
      (fun p m => st.BlockedIn p (.lock m)) LockOp.rank (fun p m m' hm hm' => ?_) hrank p
    cases hm.unique hm'
    rfl
  · exact lt_irrefl _ (hrank p m m hm hp)
  · have hordered := h.ordered p
    rw [hp] at hordered
    simpa [Skeleton.transferAll] using hordered

/-- Two processes that are about to make their calls. -/
def twoCallers : LockState where
  sem :=
    { kernel :=
        { sched :=
            { procs := fun p =>
                if p = kernelHeap + 32 then
                  { Process.zeroed with status := .running, next := kernelHeap + 256 }
                else { Process.zeroed with status := .ready }
              processList := kernelHeap + 32
              currentProcess := kernelHeap + 32 }
          sems := fun _ => semCreate 1 }
      point := fun _ => .outside
      history := [] }
  pipes := []
  array _ := NULL
  code _ := []
  held _ := []

/-- The first locks `g_al` for a resource table, the second locks `mountpoint_list` to unmount
and then blocks on `g_al`. -/
def blockedUmount : List LockAction :=
  [.call .resourceAdd, .choose true, .choose true, .choose true, .choose true, .run 0, .tick 0,
    .call .vfsUmount, .choose true, .run 0, .choose false, .choose true, .run 0]

theorem blockedUmount_waits : ∃ st,
    (lockMachine ⟨8, 16, 24, 32⟩ 3).exec twoCallers blockedUmount = some st ∧
      st.WaitsFor (kernelHeap + 256) (kernelHeap + 32) ∧
      ¬Relation.TransGen st.WaitsFor (kernelHeap + 256) (kernelHeap + 256) := by
  have hrun : ((lockMachine ⟨8, 16, 24, 32⟩ 3).exec twoCallers blockedUmount).map (fun st =>
      (st.sem.point (kernelHeap + 256), (st.code (kernelHeap + 256)).head?,
        st.held (kernelHeap + 32))) =
      some (.beforeYield 8, some (.op (.lock .gAl)), [.gAl]) := by decide +kernel
  obtain ⟨st, hst, heq⟩ := Option.map_eq_some_iff.mp hrun
  simp only [Prod.mk.injEq] at heq
  obtain ⟨hpoint, hcode, hheld⟩ := heq
  refine ⟨st, hst, ⟨.gAl, ⟨by rw [hpoint]; simp, List.head?_eq_some_iff.mp hcode⟩, ?_⟩, ?_⟩
  · rw [hheld]
    simp
  · exact (lockMachine_deadlockFree ⟨8, 16, 24, 32⟩ 3 twoCallers st blockedUmount
      ⟨fun _ => rfl, fun _ => rfl, fun _ => rfl⟩ hst).1 _

end BayosKernel
