import BayosKernel.ProcessListRuns

/-!
The pids over the runs of the process list. `_start` has pid -1, `add_process`
gives 0, and `get_new_pid` counts from 0, for a forked child and for the process
in which `enter_ring_3_init` runs. The pid of the init process is therefore 0 as
well.
-/

namespace BayosKernel

open Foundation

/-- The functions that `_start` gives to `add_process`. -/
inductive KernelFunc where
  | framebufferPrintProcess | enterRing3Init
  deriving DecidableEq, Repr

inductive ProcKind where
  | start
  | kernel (func : KernelFunc)
  | user
  deriving DecidableEq, Repr

/-- `generated` counts the calls of `get_new_pid`. -/
structure PidState where
  base : ListState
  kind : Ptr → ProcKind
  generated : Nat

inductive PidAction where
  | addProcess (func : KernelFunc) (p stack : Ptr) (cr3 : Nat)
  | enterRing3Init
  | fork (p : Ptr) (cr3 : Nat) (resources context : Ptr)
  | exit
  | waitpid (pid : Int) (status : Ptr)
  | run (context : Ptr)
  | tick (context : Ptr)

/-- The step of the process list. -/
def PidAction.call : PidAction → Option ListAction
  | .addProcess _ p stack cr3 => some (.addProcess p stack cr3)
  | .enterRing3Init => none
  | .fork p cr3 resources context => some (.fork p cr3 resources context)
  | .exit => some .exit
  | .waitpid pid status => some (.waitpid pid status)
  | .run context => some (.run context)
  | .tick context => some (.tick context)

namespace PidState

def pid (st : PidState) (p : Ptr) : Int := (st.base.sched.procs p).pid

/-- Only a process in user mode makes system calls. -/
def Enabled (st : PidState) : PidAction → Prop
  | .addProcess _ _ _ _ => st.kind st.base.current ≠ .user
  | .enterRing3Init =>
      st.kind st.base.current = .kernel .enterRing3Init ∧ st.base.code st.base.current = .idle
  | .fork _ _ _ _ | .exit | .waitpid _ _ => st.kind st.base.current = .user
  | .run _ | .tick _ => True

instance (st : PidState) (a : PidAction) : Decidable (st.Enabled a) := by
  cases a <;> simp only [Enabled] <;> infer_instance

/-- `proc->pid = get_new_pid()` in `enter_ring_3_init`. -/
def enterRing3Init (st : PidState) : PidState where
  base := { st.base with nextPid := (st.base.nextPid + 1) % 0x100000000 }.setProc st.base.current
    fun q => { q with pid := Int.bmod st.base.nextPid 0x100000000 }
  kind := Function.update st.kind st.base.current .user
  generated := st.generated + 1

/-- The kinds after a step: that of a new struct is known when it is allocated. -/
def kinds (st : PidState) : PidAction → Ptr → ProcKind
  | .addProcess func p _ _ => Function.update st.kind p (.kernel func)
  | .fork p _ _ _ => Function.update st.kind p .user
  | _ => st.kind

/-- The calls of `get_new_pid` in a step. -/
def newPids (st : PidState) : PidAction → Nat
  | .run _ =>
      match st.base.code st.base.current with
      | .forkCopy _ _ _ _ => 1
      | _ => 0
  | _ => 0

def step (fuel : Nat) (st : PidState) (a : PidAction) : Option PidState :=
  if st.Enabled a then
    match a.call with
    | none => some st.enterRing3Init
    | some b =>
        ((listMachine fuel).step st.base b).map fun base =>
          ⟨base, st.kinds a, st.generated + st.newPids a⟩
  else none

end PidState

def pidMachine (fuel : Nat) : Machine PidState PidAction := ⟨PidState.step fuel⟩

/-- The conditions under which the list stays well-formed. -/
def PidAction.Ordered (fuel : Nat) (st : PidState) (a : PidAction) : Prop :=
  ∀ b ∈ a.call, b.Ordered fuel st.base

instance (fuel : Nat) (st : PidState) (a : PidAction) : Decidable (a.Ordered fuel st) := by
  cases h : a.call with
  | none => exact isTrue (by simp [PidAction.Ordered, h])
  | some b => exact decidable_of_iff (b.Ordered fuel st.base) (by simp [PidAction.Ordered, h])

/-- The structs that hold a process: those in the list, and one that is about to be
inserted. -/
def ListState.Filled (st : ListState) (p : Ptr) : Prop :=
  p ∈ st.unreaped ∨ ∃ q fork, st.code q = .inserting p fork

/-- A new struct is filled as its kind says, and only a process in user mode exits. -/
def ListPoint.Fits (kind : Ptr → ProcKind) (q : Ptr) : ListPoint → Prop
  | .addFill p _ _ => kind p ≠ .user
  | .forkCopy p _ _ _ => kind p = .user
  | .exited => kind q = .user
  | _ => True

structure PidInv (st : PidState) : Prop where
  custody : Custody st.base
  next : st.base.nextPid = st.generated
  fits : ∀ q ∈ st.base.unreaped, (st.base.code q).Fits st.kind q
  kernel : ∀ p, st.base.Filled p → st.kind p ≠ .user → st.pid p ≤ 0
  user : ∀ p, st.base.Filled p → st.kind p = .user → 0 ≤ st.pid p ∧ st.pid p < st.generated
  unique : ∀ p q, st.base.Filled p → st.base.Filled q → st.kind p = .user → st.kind q = .user →
    st.pid p = st.pid q → p = q
  printing : ∃ p ∈ st.base.unreaped, st.kind p = .kernel .framebufferPrintProcess ∧ st.pid p = 0

theorem ListPoint.Fits.congr {kind kind' : Ptr → ProcKind} {q : Ptr} {pt : ListPoint}
    (h : pt.Fits kind q) (hq : kind' q = kind q)
    (hp : ∀ p ∈ pt.struct, pt.detached = true → kind' p = kind p) : pt.Fits kind' q := by
  cases pt <;> simp_all [Fits, struct, detached]

/-- The custody depends on the links and states of the processes only. -/
theorem Custody.congr {st st' : ListState} (h : Custody st) (hcode : st'.code = st.code)
    (hheap : st'.heap = st.heap) (hunreaped : st'.unreaped = st.unreaped)
    (hlist : st'.sched.processList = st.sched.processList) (hcurrent : st'.current = st.current)
    (hnext : ∀ q, st'.sched.next q = st.sched.next q)
    (hstatus : ∀ q, st'.sched.status q = st.sched.status q) : Custody st' := by
  constructor
  · rw [hunreaped, Scheduler.Listed, hlist]
    exact Chain.congr h.listed fun q _ => hnext q
  all_goals simp only [hcode, hheap, hunreaped, hcurrent, hnext, hstatus]
  · exact h.current_mem
  · exact h.allocated
  · exact h.heap_nodup
  · exact h.heap_ne_null
  · exact h.struct_heap
  · exact h.detached
  · exact h.unique
  · exact h.outside
  · exact h.dead
  · exact h.doomed
  · exact h.filled

namespace Scheduler

theorem getProcLoop_eq {k : Scheduler} {a p : Ptr} {xs : List Ptr} {n : Nat}
    (h : Chain k.next NULL a xs) (hp : p ∈ xs)
    (hunique : ∀ q ∈ xs, (k.procs q).pid = (k.procs p).pid → q = p) (hn : xs.length < n) :
    getProcLoop n k (k.procs p).pid a = some p := by
  induction n generalizing a xs with
  | zero => omega
  | succ n ih =>
      cases xs with
      | nil => simp at hp
      | cons z zs =>
          obtain ⟨rfl, hne, hrest⟩ := h
          simp only [getProcLoop, if_neg hne]
          split
          · rename_i heq
            rw [hunique a (by simp) heq]
          · rename_i hdiff
            have hpz : p ∈ zs := by
              rcases List.mem_cons.mp hp with rfl | hpz
              · exact absurd rfl hdiff
              · exact hpz
            exact ih hrest hpz (fun q hq => hunique q (List.mem_cons_of_mem _ hq))
              (by simp at hn; omega)

/-- A pid that one member of the list has finds this member. -/
theorem Listed.getProcFromPid_eq {k : Scheduler} {l : List Ptr} (h : k.Listed l) {p : Ptr}
    {n : Nat} (hp : p ∈ l) (hunique : ∀ q ∈ l, (k.procs q).pid = (k.procs p).pid → q = p)
    (hn : l.length < n) : k.getProcFromPid n (k.procs p).pid = some p :=
  getProcLoop_eq h hp hunique hn

theorem setNext_pid (k : Scheduler) (p v : Ptr) :
    (fun q => ((k.setNext p v).procs q).pid) = fun q => (k.procs q).pid :=
  funext fun q => modify_field k p q (f := fun x => { x with next := v }) Process.pid fun _ => rfl

theorem removeLoop_pid {fuel : Nat} {k k' : Scheduler} {p current : Ptr}
    (h : removeLoop fuel k p current = some k') :
    (fun q => (k'.procs q).pid) = fun q => (k.procs q).pid := by
  induction fuel generalizing current with
  | zero => cases h
  | succ fuel ih =>
      simp only [removeLoop] at h
      split at h
      · split at h
        · cases h
          rw [setNext_pid, setNext_pid]
        · exact ih h
      · cases h
        rfl

theorem removeProcFromList_pid {fuel : Nat} {k k' : Scheduler} {p : Ptr}
    (h : removeProcFromList fuel k p = some k') :
    (fun q => (k'.procs q).pid) = fun q => (k.procs q).pid := by
  simp only [removeProcFromList] at h
  split at h
  · cases h
    rfl
  · split at h
    · cases h
      rw [setNext_pid]
    · exact removeLoop_pid h

end Scheduler

namespace PidInv

variable {st st' : PidState}

theorem fits_update (h : PidInv st) {b : ListPoint} (hb : b.Fits st.kind st.base.current) :
    ∀ q ∈ st.base.unreaped, (Function.update st.base.code st.base.current b q).Fits st.kind q := by
  intro q hq
  by_cases hqc : q = st.base.current
  · rw [hqc, Function.update_self]
    exact hb
  · rw [Function.update_of_ne hqc]
    exact h.fits q hq

/-- No pid is given and no struct is filled. -/
theorem move (h : PidInv st) (hcustody : Custody st'.base)
    (hnext : st'.base.nextPid = st.base.nextPid) (hgenerated : st'.generated = st.generated)
    (hfits : ∀ q ∈ st'.base.unreaped, (st'.base.code q).Fits st'.kind q)
    (hfilled : ∀ p, st'.base.Filled p → st.base.Filled p)
    (hpid : ∀ p, st'.pid p = st.pid p)
    (hkind : ∀ p, st'.base.Filled p → st'.kind p = st.kind p)
    (hkept : ∀ p ∈ st.base.unreaped, st.kind p ≠ .user → p ∈ st'.base.unreaped) : PidInv st' := by
  refine ⟨hcustody, by rw [hnext, h.next, hgenerated], hfits, fun p hp hk => ?_,
    fun p hp hk => ?_, fun p q hp hq hkp hkq heq => ?_, ?_⟩
  · rw [hkind p hp] at hk
    rw [hpid p]
    exact h.kernel p (hfilled p hp) hk
  · rw [hkind p hp] at hk
    rw [hpid p, hgenerated]
    exact h.user p (hfilled p hp) hk
  · rw [hkind p hp] at hkp
    rw [hkind q hq] at hkq
    rw [hpid p, hpid q] at heq
    exact h.unique p q (hfilled p hp) (hfilled q hq) hkp hkq heq
  · obtain ⟨p, hp, hk, hzero⟩ := h.printing
    have hp' := hkept p hp (by simp [hk])
    exact ⟨p, hp', (hkind p (Or.inl hp')).trans hk, (hpid p).trans hzero⟩

/-- The call of the current process fills the struct `p`. -/
theorem fill (h : PidInv st) {p : Ptr} {fork : Bool} (hcustody : Custody st'.base)
    (hstruct : (st.base.code st.base.current).struct = some p)
    (hdetached : (st.base.code st.base.current).detached = true)
    (hcode : st'.base.code = Function.update st.base.code st.base.current (.inserting p fork))
    (hunreaped : st'.base.unreaped = st.base.unreaped) (hkind : st'.kind = st.kind)
    (hpid : ∀ q, q ≠ p → st'.pid q = st.pid q)
    (hnext : st'.base.nextPid = st'.generated) (hgenerated : st.generated ≤ st'.generated)
    (hkernel : st.kind p ≠ .user → st'.pid p ≤ 0)
    (huser : st.kind p = .user → st'.pid p = st.generated ∧ st.generated < st'.generated) :
    PidInv st' := by
  have hnot : p ∉ st.base.unreaped := (h.custody.detached _ p hstruct).mp hdetached
  have hold : ∀ q, st'.base.Filled q → q ≠ p → st.base.Filled q := by
    intro q hq hqp
    rcases hq with hq | ⟨r, fork', hr⟩
    · rw [hunreaped] at hq
      exact Or.inl hq
    · rw [hcode] at hr
      by_cases hrc : r = st.base.current
      · rw [hrc, Function.update_self] at hr
        cases hr
        exact absurd rfl hqp
      · rw [Function.update_of_ne hrc] at hr
        exact Or.inr ⟨r, fork', hr⟩
  have hother : ∀ q, st'.base.Filled q → q ≠ p → st.kind q = .user →
      0 ≤ st'.pid q ∧ st'.pid q < st.generated := by
    intro q hq hqp hk
    rw [hpid q hqp]
    exact h.user q (hold q hq hqp) hk
  refine ⟨hcustody, hnext, ?_, fun q hq hk => ?_, fun q hq hk => ?_,
    fun q r hq hr hkq hkr heq => ?_, ?_⟩
  · rw [hunreaped, hcode, hkind]
    exact h.fits_update trivial
  · rw [hkind] at hk
    by_cases hqp : q = p
    · rw [hqp] at hk ⊢
      exact hkernel hk
    · rw [hpid q hqp]
      exact h.kernel q (hold q hq hqp) hk
  · rw [hkind] at hk
    by_cases hqp : q = p
    · rw [hqp] at hk ⊢
      have := huser hk
      omega
    · have := hother q hq hqp hk
      omega
  · rw [hkind] at hkq hkr
    by_cases hqp : q = p <;> by_cases hrp : r = p
    · rw [hqp, hrp]
    · rw [hqp] at heq hkq
      have := huser hkq
      have := hother r hr hrp hkr
      omega
    · rw [hrp] at heq hkr
      have := huser hkr
      have := hother q hq hqp hkq
      omega
    · rw [hpid q hqp, hpid r hrp] at heq
      exact h.unique q r (hold q hq hqp) (hold r hr hrp) hkq hkr heq
  · obtain ⟨q, hq, hk, hzero⟩ := h.printing
    have hqp : q ≠ p := fun heq => hnot (heq ▸ hq)
    exact ⟨q, hunreaped ▸ hq, by rw [hkind, hk], by rw [hpid q hqp, hzero]⟩

/-- The process list, the calls and the pids are as before, up to the current process's
point in its call. -/
theorem goto (h : PidInv st) {base : ListState} {b : ListPoint} (hcustody : Custody base)
    (hnext : base.nextPid = st.base.nextPid)
    (hcode : base.code = Function.update st.base.code st.base.current b)
    (hunreaped : base.unreaped = st.base.unreaped)
    (hpid : ∀ p, (base.sched.procs p).pid = st.pid p)
    (hb : b.Fits st.kind st.base.current) (hins : ∀ p fork, b ≠ .inserting p fork) :
    PidInv { st with base := base } := by
  refine h.move hcustody hnext rfl ?_ (fun p hp => ?_) hpid (fun _ _ => rfl) (fun p hp _ => ?_)
  · rw [hunreaped, hcode]
    exact h.fits_update hb
  · rcases hp with hp | ⟨q, fork, hq⟩
    · rw [hunreaped] at hp
      exact Or.inl hp
    · rw [hcode] at hq
      by_cases hqc : q = st.base.current
      · rw [hqc, Function.update_self] at hq
        exact absurd hq (hins p fork)
      · rw [Function.update_of_ne hqc] at hq
        exact Or.inr ⟨q, fork, hq⟩
  · rw [hunreaped]
    exact hp

theorem switch (h : PidInv st) {fuel : Nat} {context : Ptr} {base : ListState}
    (hs : st.base.switch fuel context = some base) : PidInv { st with base := base } := by
  have hcustody := h.custody.switch hs
  obtain ⟨⟨sched, r⟩, hsched, rfl⟩ := Option.map_eq_some_iff.mp hs
  have hsw := Scheduler.schedule_switched hsched
  exact h.move hcustody rfl rfl h.fits (fun _ hp => hp)
    (fun p => hsw.field Process.pid p fun _ _ _ => rfl) (fun _ _ => rfl) (fun _ hp _ => hp)

/-- A new struct is allocated, of a kind that its filling fits. -/
theorem alloc (h : PidInv st) {p : Ptr} {b : ListPoint} {kind : ProcKind} {base : ListState}
    (hcustody : Custody base) (hs : st.base.alloc p b = some base)
    (hins : ∀ q fork, b ≠ .inserting q fork)
    (hb : b.Fits (Function.update st.kind p kind) st.base.current) :
    PidInv { st with base := base, kind := Function.update st.kind p kind } := by
  simp only [ListState.alloc, Option.ite_none_left_eq_some, not_or, Option.some.injEq] at hs
  obtain ⟨⟨_, hfresh⟩, rfl⟩ := hs
  have hkind : ∀ q ∈ st.base.heap, Function.update st.kind p kind q = st.kind q := by
    intro q hq
    refine Function.update_of_ne ?_ _ _
    rintro rfl
    exact hfresh hq
  have hfits : ∀ q ∈ st.base.unreaped, (st.base.code q).Fits (Function.update st.kind p kind) q :=
    fun q hq => (h.fits q hq).congr (hkind q (h.custody.allocated q hq))
      fun c hc _ => hkind c (h.custody.struct_heap q c hc)
  have hheap : ∀ q, st.base.Filled q → q ∈ st.base.heap := by
    intro q hq
    rcases hq with hq | ⟨r, fork, hr⟩
    · exact h.custody.allocated q hq
    · exact h.custody.struct_heap r q (by rw [hr]; rfl)
  have hfilled : ∀ q, ({ st.base with heap := st.base.heap ++ [p] }.goto b).Filled q →
      st.base.Filled q := by
    intro q hq
    rcases hq with hq | ⟨r, fork, hr⟩
    · exact Or.inl hq
    · simp only [ListState.goto] at hr
      by_cases hrc : r = st.base.current
      · subst hrc
        exact absurd ((Function.update_self _ _ _).symm.trans hr) (hins q fork)
      · exact Or.inr ⟨r, fork, (Function.update_of_ne hrc _ _).symm.trans hr⟩
  refine h.move hcustody rfl rfl (fun q hq => ?_) hfilled (fun _ => rfl)
    (fun q hq => hkind q (hheap q (hfilled q hq))) (fun q hq _ => hq)
  by_cases hqc : q = st.base.current
  · subst hqc
    simp only [ListState.goto, ListState.current, Function.update_self]
    exact hb
  · simp only [ListState.goto, ListState.current] at hqc ⊢
    rw [Function.update_of_ne hqc]
    exact hfits q hq

theorem exit (h : PidInv st) (hidle : st.base.code st.base.current = .idle)
    (huser : st.kind st.base.current = .user) :
    PidInv { st with
      base := (st.base.setProc st.base.current fun q => { q with status := .dead }).goto .exited } :=
  h.goto (h.custody.exit hidle) rfl rfl rfl
    (fun p => Scheduler.modify_field st.base.sched st.base.current p
      (f := fun q => { q with status := .dead }) Process.pid fun _ => rfl) huser (by simp)

theorem waitpid (h : PidInv st) {fuel : Nat} {pid : Int} {status : Ptr} {base : ListState}
    (hcustody : Custody base) (hs : st.base.waitpid fuel pid status = some base) :
    PidInv { st with base := base } := by
  simp only [ListState.waitpid] at hs
  split at hs
  · cases hs
    exact h
  · obtain ⟨c, hc, rfl⟩ := Option.map_eq_some_iff.mp hs
    by_cases hnull : c = NULL
    · rw [if_pos hnull]
      exact h
    · rw [if_neg hnull] at hcustody ⊢
      exact h.goto hcustody rfl rfl rfl (fun _ => rfl) trivial (by simp)

/-- `insert_process` adds a struct that is filled. -/
theorem insert (h : PidInv st) {fuel : Nat} {p : Ptr} {fork : Bool} {base : ListState}
    (hcode : st.base.code st.base.current = .inserting p fork) (hcustody : Custody base)
    (hs : st.base.insert fuel p fork = some base) : PidInv { st with base := base } := by
  obtain ⟨sched, hins, rfl⟩ := Option.map_eq_some_iff.mp hs
  obtain ⟨last, -, rfl⟩ := Option.map_eq_some_iff.mp hins
  have hfilled : st.base.Filled p := Or.inr ⟨_, fork, hcode⟩
  have hother : ∀ q, q ≠ p → q ≠ st.base.current →
      Function.update (Function.update st.base.code p .idle) st.base.current
        (if fork then ListPoint.yielding else .idle) q = st.base.code q := fun q hqp hqc => by
    rw [Function.update_of_ne hqc, Function.update_of_ne hqp]
  have hidle : ∀ q, q = p ∨ q = st.base.current → ∀ kind,
      (Function.update (Function.update st.base.code p .idle) st.base.current
        (if fork then ListPoint.yielding else .idle) q).Fits kind q := by
    intro q hq kind
    by_cases hqc : q = st.base.current
    · rw [hqc, Function.update_self]
      cases fork <;> trivial
    · rw [Function.update_of_ne hqc, hq.resolve_right hqc, Function.update_self]
      trivial
  refine h.move hcustody rfl rfl (fun q hq => ?_) (fun q hq => ?_)
    (fun q => Scheduler.modify_field st.base.sched last q (f := fun x => { x with next := p })
      Process.pid fun _ => rfl)
    (fun _ _ => rfl) (fun q hq _ => List.mem_append_left _ hq)
  · by_cases hq' : q = p ∨ q = st.base.current
    · exact hidle q hq' _
    · simp only [not_or] at hq'
      dsimp only
      rw [hother q hq'.1 hq'.2]
      refine h.fits q ((List.mem_append.mp hq).resolve_right fun hmem => hq'.1 ?_)
      exact List.mem_singleton.mp hmem
  · rcases hq with hq | ⟨r, fork', hr⟩
    · rcases List.mem_append.mp hq with hq | hq
      · exact Or.inl hq
      · rw [List.mem_singleton.mp hq]
        exact hfilled
    · by_cases hr' : r = st.base.current
      · simp only [hr', Function.update_self] at hr
        cases fork <;> cases hr
      · by_cases hrp : r = p
        · simp only [hrp] at hr
          rw [Function.update_of_ne (by rwa [← hrp]), Function.update_self] at hr
          cases hr
        · exact Or.inr ⟨r, fork', (hother r hrp hr').symm.trans hr⟩

theorem removeWhole (h : PidInv st) {fuel : Nat} {base : ListState}
    (hs : st.base.removeWhole fuel (st.base.code st.base.current) = some base) :
    PidInv { st with base := base } := by
  have hcustody := h.custody.removeWhole hs
  cases hcode : st.base.code st.base.current with
  | removing c =>
      rw [hcode] at hs
      obtain ⟨sched, hr, rfl⟩ := Option.map_eq_some_iff.mp hs
      have hreap : (st.base.code st.base.current).reaping = true := by rw [hcode]; rfl
      have hc : (st.base.code st.base.current).struct = some c := by rw [hcode]; rfl
      have hmem := h.custody.reaping_mem hreap hc
      have hcur := (h.custody.listed.removeProcFromList hmem hr).2.2.1
      have huser : st.kind c = .user := by
        have hfits := h.fits c hmem
        rw [h.custody.dead c hmem (h.custody.doomed _ c hreap hc)] at hfits
        exact hfits
      have hlocal : ({ st.base with
          sched := sched, unreaped := st.base.unreaped.erase c }.goto (.freeing c)).code =
          Function.update st.base.code st.base.current (.freeing c) := by
        simp only [ListState.goto, ListState.current, hcur]
      refine h.move hcustody rfl rfl (fun q hq => ?_) (fun q hq => ?_)
        (fun q => congrFun (Scheduler.removeProcFromList_pid hr) q) (fun _ _ => rfl)
        (fun q hq hk => ?_)
      · dsimp only
        rw [hlocal]
        exact h.fits_update (b := .freeing c) trivial q (List.mem_of_mem_erase hq)
      · rcases hq with hq | ⟨r, fork, hr⟩
        · exact Or.inl (List.mem_of_mem_erase hq)
        · rw [hlocal] at hr
          by_cases hrc : r = st.base.current
          · rw [hrc, Function.update_self] at hr
            cases hr
          · rw [Function.update_of_ne hrc] at hr
            exact Or.inr ⟨r, fork, hr⟩
      · refine (List.mem_erase_of_ne ?_).mpr hq
        rintro rfl
        exact hk huser
  | _ =>
      rw [hcode] at hs
      cases hs

/-- `proc->pid = get_new_pid()` for the process that `_start` added. -/
theorem enterRing3Init (h : PidInv st) (hbound : st.generated + 1 < 0x80000000)
    (henabled : st.Enabled .enterRing3Init) : PidInv st.enterRing3Init := by
  obtain ⟨hkind, hidle⟩ := henabled
  have hmem := h.custody.current_mem
  have hpid : st.enterRing3Init.pid st.base.current = st.generated := by
    simp only [PidState.enterRing3Init, PidState.pid, ListState.setProc]
    rw [Scheduler.modify_procs_self]
    simp only [h.next]
    exact Int.bmod_eq_of_le (by omega) (by omega)
  have hother : ∀ p, p ≠ st.base.current → st.enterRing3Init.pid p = st.pid p := fun p hp => by
    simp only [PidState.enterRing3Init, PidState.pid, ListState.setProc]
    rw [Scheduler.modify_procs_ne _ hp]
  have hkindOther : ∀ p, p ≠ st.base.current → st.enterRing3Init.kind p = st.kind p := fun p hp =>
    Function.update_of_ne hp _ _
  have hkindSelf : st.enterRing3Init.kind st.base.current = .user := Function.update_self _ _ _
  refine ⟨?_, ?_, fun q hq => ?_, fun p hp hk => ?_, fun p hp hk => ?_,
    fun p q hp hq hkp hkq heq => ?_, ?_⟩
  · refine h.custody.congr rfl rfl rfl rfl rfl (fun q => ?_) (fun q => ?_)
    · exact Scheduler.modify_field st.base.sched st.base.current q
        (f := fun x => { x with pid := Int.bmod st.base.nextPid 0x100000000 }) Process.next
        fun _ => rfl
    · exact Scheduler.modify_field st.base.sched st.base.current q
        (f := fun x => { x with pid := Int.bmod st.base.nextPid 0x100000000 }) Process.status
        fun _ => rfl
  · simp only [PidState.enterRing3Init, ListState.setProc, h.next]
    omega
  · by_cases hqc : q = st.base.current
    · rw [hqc]
      simp only [PidState.enterRing3Init, ListState.setProc, hidle]
      trivial
    · refine (h.fits q hq).congr (hkindOther q hqc) fun p hp hdetached => hkindOther p ?_
      rintro rfl
      exact (h.custody.detached q _ hp).mp hdetached hmem
  · have hpc : p ≠ st.base.current := by
      rintro rfl
      exact hk hkindSelf
    rw [hkindOther p hpc] at hk
    rw [hother p hpc]
    exact h.kernel p hp hk
  · by_cases hpc : p = st.base.current
    · rw [hpc, hpid]
      simp only [PidState.enterRing3Init]
      omega
    · rw [hkindOther p hpc] at hk
      rw [hother p hpc]
      have := h.user p hp hk
      simp only [PidState.enterRing3Init]
      omega
  · have hold : ∀ r, st.enterRing3Init.kind r = .user → r ≠ st.base.current →
        st.base.Filled r → 0 ≤ st.enterRing3Init.pid r ∧ st.enterRing3Init.pid r < st.generated := by
      intro r hk hrc hr
      rw [hkindOther r hrc] at hk
      rw [hother r hrc]
      exact h.user r hr hk
    by_cases hpc : p = st.base.current <;> by_cases hqc : q = st.base.current
    · rw [hpc, hqc]
    · rw [hpc, hpid] at heq
      have := hold q hkq hqc hq
      omega
    · rw [hqc, hpid] at heq
      have := hold p hkp hpc hp
      omega
    · rw [hkindOther p hpc] at hkp
      rw [hkindOther q hqc] at hkq
      rw [hother p hpc, hother q hqc] at heq
      exact h.unique p q hp hq hkp hkq heq
  · obtain ⟨p, hp, hk, hzero⟩ := h.printing
    have hpc : p ≠ st.base.current := by
      rintro rfl
      rw [hk] at hkind
      cases hkind
    exact ⟨p, hp, by rw [hkindOther p hpc, hk], by rw [hother p hpc, hzero]⟩

/-- The statements of the calls. -/
theorem run (h : PidInv st) {fuel : Nat} {context : Ptr} {base : ListState}
    (hcustody : Custody base)
    (hs : ListState.step fuel (ListState.removeWhole fuel) st.base (.run context) = some base)
    (hbound : st.generated + st.newPids (.run context) < 0x80000000) :
    PidInv ⟨base, st.kind, st.generated + st.newPids (.run context)⟩ := by
  simp only [ListState.step] at hs
  split at hs
  · rename_i base' hremove
    cases hs
    have hnone : st.newPids (.run context) = 0 := by
      simp only [PidState.newPids]
      split
      · rename_i hcode
        rw [hcode] at hremove
        cases hremove
      · rfl
    rw [hnone]
    exact h.removeWhole hremove
  · cases hcode : st.base.code st.base.current with
    | exited =>
        simp only [PidState.newPids, hcode]
        rw [hcode] at hs
        exact h.switch hs
    | yielding =>
        simp only [PidState.newPids, hcode]
        rw [hcode] at hs
        have hidle : PidInv { st with base := st.base.goto .idle } := by
          refine h.goto ?_ rfl rfl rfl (fun _ => rfl) trivial (by simp)
          refine h.custody.goto ?_ ?_ ?_ ?_ <;> simp [hcode, ListPoint.struct]
        exact hidle.switch hs
    | addFill p stack cr3 =>
        simp only [hcode, ListState.statement, Option.some.injEq] at hs
        subst hs
        simp only [PidState.newPids, hcode]
        have hkernel : st.kind p ≠ .user := by
          have := h.fits _ h.custody.current_mem
          rwa [hcode] at this
        refine h.fill (p := p) hcustody (by rw [hcode]; rfl) (by rw [hcode]; rfl) rfl rfl rfl
          (fun q hq => ?_) h.next (Nat.le_refl _) (fun _ => ?_) (fun hk => absurd hk hkernel)
        · simp only [PidState.pid, ListState.addFill, ListState.setProc, ListState.goto]
          rw [Scheduler.modify_procs_ne _ hq]
        · simp only [PidState.pid, ListState.addFill, ListState.setProc, ListState.goto,
            Scheduler.modify_procs_self, Int.le_refl]
    | forkCopy p cr3 resources ctx =>
        simp only [hcode, ListState.statement, Option.some.injEq] at hs
        subst hs
        simp only [PidState.newPids, hcode] at hbound ⊢
        have huser : st.kind p = .user := by
          have := h.fits _ h.custody.current_mem
          rwa [hcode] at this
        refine h.fill (p := p) hcustody (by rw [hcode]; rfl) (by rw [hcode]; rfl) rfl rfl rfl
          (fun q hq => ?_) ?_ (Nat.le_succ _) (fun hk => absurd huser hk)
          (fun _ => ⟨?_, Nat.lt_succ_self _⟩)
        · simp only [PidState.pid, ListState.forkCopy, ListState.setProc, ListState.goto]
          rw [Scheduler.modify_procs_ne _ hq]
        · simp only [ListState.forkCopy, ListState.setProc, ListState.goto, h.next]
          omega
        · simp only [PidState.pid, ListState.forkCopy, ListState.setProc, ListState.goto]
          rw [Scheduler.modify_procs_self]
          simp only [h.next]
          exact Int.bmod_eq_of_le (by omega) (by omega)
    | inserting p fork =>
        simp only [PidState.newPids, hcode]
        simp only [hcode, ListState.statement] at hs
        exact h.insert hcode hcustody hs
    | waiting c =>
        simp only [PidState.newPids, hcode]
        simp only [hcode, ListState.statement] at hs
        split at hs
        · cases hs
          exact h.goto hcustody rfl rfl rfl (fun _ => rfl) trivial (by simp)
        · exact h.switch hs
    | freeing c =>
        simp only [PidState.newPids, hcode]
        simp only [hcode, ListState.statement, Option.some.injEq] at hs
        subst hs
        exact h.goto hcustody rfl rfl rfl (fun _ => rfl) trivial (by simp)
    | idle | removing _ | headSet _ | start _ | loop _ _ | test _ _ | unlink _ _ | advance _ _
    | clearNext _ =>
        rw [hcode] at hs
        cases hs

theorem step (h : PidInv st) {fuel : Nat} {a : PidAction} (hord : a.Ordered fuel st)
    (hs : (pidMachine fuel).step st a = some st') (hbound : st'.generated < 0x80000000) :
    PidInv st' := by
  simp only [pidMachine, PidState.step, Option.ite_none_right_eq_some] at hs
  obtain ⟨henabled, hs⟩ := hs
  cases hcall : a.call with
  | none =>
      simp only [hcall, Option.some.injEq] at hs
      subst hs
      cases a with
      | enterRing3Init => exact h.enterRing3Init hbound henabled
      | _ => cases hcall
  | some b =>
      simp only [hcall] at hs
      obtain ⟨base, hstep, rfl⟩ := Option.map_eq_some_iff.mp hs
      have hcustody := listMachine_custody h.custody (hord b hcall) hstep
      simp only [listMachine] at hstep
      cases a with
      | addProcess func p stack cr3 =>
          cases hcall
          simp only [ListState.step, Option.ite_none_right_eq_some] at hstep
          refine h.alloc hcustody hstep.2 (by simp) ?_
          simp [ListPoint.Fits]
      | fork p cr3 resources context =>
          cases hcall
          simp only [ListState.step, Option.ite_none_right_eq_some] at hstep
          refine h.alloc hcustody hstep.2 (by simp) ?_
          simp [ListPoint.Fits]
      | exit =>
          cases hcall
          simp only [ListState.step, Option.ite_none_right_eq_some, Option.some.injEq] at hstep
          obtain ⟨hidle, rfl⟩ := hstep
          exact h.exit hidle henabled
      | waitpid pid status =>
          cases hcall
          simp only [ListState.step, Option.ite_none_right_eq_some] at hstep
          exact h.waitpid hcustody hstep.2
      | run context =>
          cases hcall
          exact h.run hcustody hstep hbound
      | tick context =>
          cases hcall
          exact h.switch hstep
      | enterRing3Init => cases hcall

/-- The only user process whose pid a kernel process has is the one with pid 0. -/
theorem unique_iff (h : PidInv st) {p : Ptr} (hp : p ∈ st.base.unreaped)
    (hk : st.kind p = .user) :
    (∀ q ∈ st.base.unreaped, st.pid q = st.pid p → q = p) ↔ st.pid p ≠ 0 := by
  constructor
  · intro hunique hzero
    obtain ⟨q, hq, hkq, hpid⟩ := h.printing
    rw [hunique q hq (by rw [hpid, hzero]), hk] at hkq
    cases hkq
  · intro hne q hq heq
    by_cases hkq : st.kind q = .user
    · exact h.unique q p (Or.inl hq) (Or.inl hp) hkq hk heq
    · have := h.kernel q (Or.inl hq) hkq
      have := h.user p (Or.inl hp) hk
      omega

end PidInv

theorem PidState.generated_le {fuel : Nat} {st st' : PidState} {a : PidAction}
    (hs : (pidMachine fuel).step st a = some st') : st.generated ≤ st'.generated := by
  simp only [pidMachine, PidState.step, Option.ite_none_right_eq_some] at hs
  obtain ⟨-, hs⟩ := hs
  split at hs
  · cases hs
    exact Nat.le_succ _
  · obtain ⟨base, -, rfl⟩ := Option.map_eq_some_iff.mp hs
    exact Nat.le_add_right _ _

/-- The process list when `_start` is done: kernel processes outside of calls, one of
them printing. -/
structure PidInit (st : PidState) : Prop where
  list : ListInit st.base
  nextPid : st.base.nextPid = 0
  generated : st.generated = 0
  kernel : ∀ p ∈ st.base.unreaped, st.kind p ≠ .user ∧ st.pid p ≤ 0 ∧ st.base.code p = .idle
  printing : ∃ p ∈ st.base.unreaped, st.kind p = .kernel .framebufferPrintProcess ∧ st.pid p = 0

theorem PidInit.inv {st : PidState} (h : PidInit st) : PidInv st := by
  have hfilled : ∀ p, st.base.Filled p → p ∈ st.base.unreaped := by
    rintro p (hp | ⟨q, fork, hq⟩)
    · exact hp
    · rcases h.list.code q with hcode | hcode <;> rw [hcode] at hq <;> cases hq
  refine ⟨h.list.custody, by rw [h.nextPid, h.generated], fun q hq => ?_,
    fun p hp _ => (h.kernel p (hfilled p hp)).2.1, fun p hp hk => ?_, fun p _ hp _ hk => ?_,
    h.printing⟩
  · rw [(h.kernel q hq).2.2]
    trivial
  · exact absurd hk (h.kernel p (hfilled p hp)).1
  · exact absurd hk (h.kernel p (hfilled p hp)).1

theorem pidMachine_inv {fuel : Nat} {st₀ st : PidState} {run : List PidAction}
    (init : PidInit st₀)
    (ordered : (pidMachine fuel).Meets (fun st a => a.Ordered fuel st) st₀ run)
    (reached : (pidMachine fuel).exec st₀ run = some st) (hbound : st.generated < 0x80000000) :
    PidInv st := by
  refine (pidMachine fuel).exec_invariant (I := fun st => st.generated < 0x80000000 → PidInv st)
    (fun s a s' h hord hs hb => ?_) (fun _ => init.inv) ordered reached hbound
  exact (h (Nat.lt_of_le_of_lt (PidState.generated_le hs) hb)).step hord hs hb

/-- In every run with fewer than `0x80000000` pids in which the list stays well-formed,
the processes in user mode have different pids, and the pid of one of them is that of
no other process in the list and finds it again exactly when it is not 0. -/
theorem pidMachine_unique_iff (fuel : Nat) (st₀ st : PidState) (run : List PidAction)
    (init : PidInit st₀)
    (ordered : (pidMachine fuel).Meets (fun st a => a.Ordered fuel st) st₀ run)
    (reached : (pidMachine fuel).exec st₀ run = some st) (bound : st.generated < 0x80000000) :
    (∀ p ∈ st.base.unreaped, ∀ q ∈ st.base.unreaped, st.kind p = .user → st.kind q = .user →
      st.pid p = st.pid q → p = q) ∧
    ∀ p ∈ st.base.unreaped, st.kind p = .user →
      ((∀ q ∈ st.base.unreaped, st.pid q = st.pid p → q = p) ∧
        (∀ n, st.base.unreaped.length < n →
          st.base.sched.getProcFromPid n (st.pid p) = some p) ↔ st.pid p ≠ 0) := by
  have h := pidMachine_inv init ordered reached bound
  refine ⟨fun p hp q hq => h.unique p q (Or.inl hp) (Or.inl hq), fun p hp hk => ?_⟩
  rw [← h.unique_iff hp hk]
  refine ⟨And.left, fun hunique => ⟨hunique, fun n hn => ?_⟩⟩
  exact h.custody.listed.getProcFromPid_eq hp hunique hn

/-- `_start` and the two processes that it adds. -/
def bootedPids : PidState where
  base :=
    { sched :=
        { procs := fun p =>
            if p = kernelHeap + 32 then
              { Process.zeroed with status := .running, pid := -1, next := kernelHeap + 256 }
            else if p = kernelHeap + 256 then
              { Process.zeroed with
                status := .ready, next := kernelHeap + 512, anonAllocateEnd := 0x800000 }
            else { Process.zeroed with status := .ready, anonAllocateEnd := 0x800000 }
          processList := kernelHeap + 32
          currentProcess := kernelHeap + 32 }
      code _ := .idle
      nextPid := 0
      heap := [kernelHeap + 32, kernelHeap + 256, kernelHeap + 512]
      unreaped := [kernelHeap + 32, kernelHeap + 256, kernelHeap + 512] }
  kind p :=
    if p = kernelHeap + 32 then .start
    else if p = kernelHeap + 256 then .kernel .framebufferPrintProcess
    else .kernel .enterRing3Init
  generated := 0

theorem bootedPids_init : PidInit bootedPids where
  list :=
    { listed := by
        simp [Scheduler.Listed, Scheduler.next, bootedPids, Process.zeroed, kernelHeap]
      current_mem := by decide
      allocated := by decide
      heap_nodup := by decide
      heap_ne_null := by decide
      code := fun _ => .inl rfl
      dead := by decide }
  nextPid := rfl
  generated := rfl
  kernel := by decide
  printing := by decide

/-- Init enters user mode and forks a child, which gets pid 1. -/
def initAndFork : List PidAction :=
  [.tick 0, .tick 0, .enterRing3Init, .fork (kernelHeap + 1024) 0x5000 0 0, .run 0, .run 0,
    .run 0]

theorem initAndFork_unique : ∃ st, (pidMachine 5).exec bootedPids initAndFork = some st ∧
    st.pid (kernelHeap + 1024) = 1 ∧
      ∀ n, 4 < n → st.base.sched.getProcFromPid n 1 = some (kernelHeap + 1024) := by
  have hrun : ((pidMachine 5).exec bootedPids initAndFork).map (fun st =>
      (st.base.unreaped, st.kind (kernelHeap + 1024), st.pid (kernelHeap + 1024),
        st.generated)) =
      some ([kernelHeap + 32, kernelHeap + 256, kernelHeap + 512, kernelHeap + 1024], .user, 1,
        2) := by decide +kernel
  obtain ⟨st, hst, heq⟩ := Option.map_eq_some_iff.mp hrun
  simp only [Prod.mk.injEq] at heq
  obtain ⟨hlist, hkind, hpid, hgenerated⟩ := heq
  refine ⟨st, hst, hpid, fun n hn => ?_⟩
  have hfound := (pidMachine_unique_iff 5 bootedPids st initAndFork bootedPids_init
    (by decide +kernel) hst (by omega)).2 (kernelHeap + 1024) (by rw [hlist]; simp) hkind
  rw [hpid] at hfound
  exact (hfound.mpr (by decide)).2 n (by rw [hlist]; exact hn)

/-- Init has the pid 0 of the printing process, and `get_proc_from_pid(0)` finds that one. -/
theorem enterRing3Init_shares_pid : ∃ st,
    (pidMachine 5).exec bootedPids [.tick 0, .tick 0, .enterRing3Init] = some st ∧
      kernelHeap + 512 ∈ st.base.unreaped ∧ st.kind (kernelHeap + 512) = .user ∧
      kernelHeap + 256 ∈ st.base.unreaped ∧
      st.kind (kernelHeap + 256) = .kernel .framebufferPrintProcess ∧
      st.pid (kernelHeap + 256) = st.pid (kernelHeap + 512) ∧
      st.base.sched.getProcFromPid 5 (st.pid (kernelHeap + 512)) = some (kernelHeap + 256) := by
  have hrun : ((pidMachine 5).exec bootedPids [.tick 0, .tick 0, .enterRing3Init]).map (fun st =>
      (st.base.unreaped, st.kind (kernelHeap + 512), st.kind (kernelHeap + 256))) =
      some ([kernelHeap + 32, kernelHeap + 256, kernelHeap + 512], .user,
        .kernel .framebufferPrintProcess) := by decide +kernel
  have hpids : ((pidMachine 5).exec bootedPids [.tick 0, .tick 0, .enterRing3Init]).map (fun st =>
      (st.pid (kernelHeap + 512), st.pid (kernelHeap + 256),
        st.base.sched.getProcFromPid 5 0)) = some (0, 0, some (kernelHeap + 256)) := by
    decide +kernel
  obtain ⟨st, hst, heq⟩ := Option.map_eq_some_iff.mp hrun
  rw [hst] at hpids
  simp only [Option.map_some, Option.some.injEq, Prod.mk.injEq] at heq hpids
  obtain ⟨hlist, huser, hprinting⟩ := heq
  obtain ⟨hinit, hprint, hfound⟩ := hpids
  refine ⟨st, hst, by rw [hlist]; simp, huser, by rw [hlist]; simp, hprinting, ?_, ?_⟩
  · rw [hinit, hprint]
  · rw [hinit, hfound]

end BayosKernel
