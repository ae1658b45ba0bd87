import BayosKernel.Semaphore

/-!
The wait lists of the semaphores over whole runs.

`Queues` is the inductive invariant: the intrusive list of every semaphore is
the list of its unwoken waiters in order of arrival, its length is what the
count says, and being BLOCKED is the same as standing in exactly one list.
-/

namespace BayosKernel

open Foundation

namespace Kernel

theorem setProc_field {β : Type} (k : Kernel) (p : Ptr) (f : Process → Process) (g : Process → β) :
    (fun q => g ((k.setProc p f).sched.procs q)) =
      Function.update (fun q => g (k.sched.procs q)) p (g (f (k.sched.procs p))) := by
  funext q
  by_cases h : q = p
  · subst h; simp [setProc, Scheduler.modify]
  · simp [setProc, Scheduler.modify, h]

theorem setProc_waitNext (k : Kernel) (p : Ptr) (f : Process → Process) :
    (k.setProc p f).waitNext = Function.update k.waitNext p (f (k.sched.procs p)).waitNext :=
  setProc_field k p f Process.waitNext

theorem setProc_status (k : Kernel) (p : Ptr) (f : Process → Process) :
    (k.setProc p f).status = Function.update k.status p (f (k.sched.procs p)).status :=
  setProc_field k p f Process.status

theorem setProc_status_keep (k : Kernel) (p : Ptr) {f : Process → Process}
    (h : ∀ x, (f x).status = x.status) : (k.setProc p f).status = k.status := by
  rw [setProc_status, h]
  exact Function.update_eq_self p k.status

theorem setProc_waitNext_keep (k : Kernel) (p : Ptr) {f : Process → Process}
    (h : ∀ x, (f x).waitNext = x.waitNext) : (k.setProc p f).waitNext = k.waitNext := by
  rw [setProc_waitNext, h]
  exact Function.update_eq_self p k.waitNext

theorem setProc_next (k : Kernel) (p : Ptr) (f : Process → Process) :
    (k.setProc p f).sched.next = Function.update k.sched.next p (f (k.sched.procs p)).next :=
  setProc_field k p f Process.next

@[simp] theorem setProc_sems (k : Kernel) (p : Ptr) (f : Process → Process) :
    (k.setProc p f).sems = k.sems := rfl

@[simp] theorem setProc_current (k : Kernel) (p : Ptr) (f : Process → Process) :
    (k.setProc p f).current = k.current := rfl

@[simp] theorem setProc_processList (k : Kernel) (p : Ptr) (f : Process → Process) :
    (k.setProc p f).sched.processList = k.sched.processList := rfl

@[simp] theorem setSem_sched (k : Kernel) (s : Ptr) (f : Semaphore → Semaphore) :
    (k.setSem s f).sched = k.sched := rfl

@[simp] theorem setSem_current (k : Kernel) (s : Ptr) (f : Semaphore → Semaphore) :
    (k.setSem s f).current = k.current := rfl

@[simp] theorem setSem_waitNext (k : Kernel) (s : Ptr) (f : Semaphore → Semaphore) :
    (k.setSem s f).waitNext = k.waitNext := rfl

@[simp] theorem setSem_status (k : Kernel) (s : Ptr) (f : Semaphore → Semaphore) :
    (k.setSem s f).status = k.status := rfl

@[simp] theorem setSem_self (k : Kernel) (s : Ptr) (f : Semaphore → Semaphore) :
    (k.setSem s f).sems s = f (k.sems s) := by simp [setSem]

theorem setSem_ne (k : Kernel) {s t : Ptr} (h : t ≠ s) (f : Semaphore → Semaphore) :
    (k.setSem s f).sems t = k.sems t := by simp [setSem, h]

/-- The process list is the same: no semaphore operation touches `next`. -/
structure SameList (k k' : Kernel) : Prop where
  current : k'.current = k.current
  processList : k'.sched.processList = k.sched.processList
  next : k'.sched.next = k.sched.next

theorem SameList.refl (k : Kernel) : SameList k k := ⟨rfl, rfl, rfl⟩

theorem SameList.trans {k₁ k₂ k₃ : Kernel} (h : SameList k₁ k₂) (g : SameList k₂ k₃) :
    SameList k₁ k₃ :=
  ⟨g.current.trans h.current, g.processList.trans h.processList, g.next.trans h.next⟩

theorem sameList_setSem (k : Kernel) (s : Ptr) (f : Semaphore → Semaphore) :
    SameList k (k.setSem s f) := ⟨rfl, rfl, rfl⟩

theorem sameList_setProc (k : Kernel) (p : Ptr) {f : Process → Process}
    (h : ∀ x, (f x).next = x.next) : SameList k (k.setProc p f) := by
  refine ⟨rfl, rfl, ?_⟩
  rw [setProc_next, h]
  exact Function.update_eq_self p k.sched.next

/-- `blockCurrent` appends the current process to the list. -/
structure Blocks (k k' : Kernel) (s : Ptr) : Prop where
  sems_self : k'.sems s =
    ⟨(k.sems s).count,
      if (k.sems s).waitTail ≠ NULL then (k.sems s).waitHead else k.current, k.current⟩
  sems_ne : ∀ t, t ≠ s → k'.sems t = k.sems t
  status : k'.status = Function.update k.status k.current .blocked
  waitNext : k'.waitNext =
    if (k.sems s).waitTail ≠ NULL then
      Function.update (Function.update k.waitNext k.current NULL) (k.sems s).waitTail k.current
    else Function.update k.waitNext k.current NULL
  sameList : SameList k k'

theorem blockCurrent_blocks (k : Kernel) (s : Ptr) : Blocks k (k.blockCurrent s) s := by
  by_cases ht : (k.sems s).waitTail = NULL
  · refine ⟨?_, ?_, ?_, ?_, ?_⟩
    · simp [blockCurrent, ht]
    · intro t hne; simp [blockCurrent, ht, setSem_ne _ hne]
    · simp [blockCurrent, ht, setProc_status_keep, setProc_status]
    · simp [blockCurrent, ht, setProc_waitNext_keep, setProc_waitNext]
    · simp only [blockCurrent, setProc_sems, ht, ne_eq, not_true_eq_false, if_false]
      refine .trans ?_ (sameList_setSem _ _ _)
      refine .trans ?_ (sameList_setSem _ _ _)
      refine .trans ?_ (sameList_setProc _ _ fun _ => rfl)
      exact sameList_setProc _ _ fun _ => rfl
  · refine ⟨?_, ?_, ?_, ?_, ?_⟩
    · simp [blockCurrent, ht]
    · intro t hne; simp [blockCurrent, ht, setSem_ne _ hne]
    · simp [blockCurrent, ht, setProc_status_keep, setProc_status]
    · simp [blockCurrent, ht, setProc_waitNext_keep, setProc_waitNext]
    · simp only [blockCurrent, setProc_sems, ht, ne_eq, not_false_eq_true, if_true]
      refine .trans ?_ (sameList_setSem _ _ _)
      refine .trans ?_ (sameList_setProc _ _ fun _ => rfl)
      refine .trans ?_ (sameList_setProc _ _ fun _ => rfl)
      exact sameList_setProc _ _ fun _ => rfl

/-- `wakeOldest` takes the first process off the list. -/
structure Wakes (k k' : Kernel) (s woken : Ptr) : Prop where
  sems_self : k'.sems s =
    ⟨(k.sems s).count, k.waitNext woken,
      if k.waitNext woken = NULL then NULL else (k.sems s).waitTail⟩
  sems_ne : ∀ t, t ≠ s → k'.sems t = k.sems t
  status : k'.status = Function.update k.status woken .ready
  waitNext : k'.waitNext = Function.update k.waitNext woken NULL
  sameList : SameList k k'

theorem wakeOldest_wakes (k : Kernel) (s : Ptr) :
    Wakes k (k.wakeOldest s) s (k.sems s).waitHead := by
  by_cases hn : k.waitNext (k.sems s).waitHead = NULL
  · refine ⟨?_, ?_, ?_, ?_, ?_⟩
    · simp [wakeOldest, hn]
    · intro t hne; simp [wakeOldest, hn, setSem_ne _ hne]
    · simp [wakeOldest, hn, setProc_status_keep, setProc_status]
    · simp [wakeOldest, hn, setProc_waitNext_keep, setProc_waitNext]
    · simp only [wakeOldest, setSem_self, hn, if_true]
      refine .trans ?_ (sameList_setProc _ _ fun _ => rfl)
      refine .trans ?_ (sameList_setProc _ _ fun _ => rfl)
      refine .trans ?_ (sameList_setSem _ _ _)
      exact sameList_setSem _ _ _
  · refine ⟨?_, ?_, ?_, ?_, ?_⟩
    · simp [wakeOldest, hn]
    · intro t hne; simp [wakeOldest, hn, setSem_ne _ hne]
    · simp [wakeOldest, hn, setProc_status_keep, setProc_status]
    · simp [wakeOldest, hn, setProc_waitNext_keep, setProc_waitNext]
    · simp only [wakeOldest, setSem_self, hn, if_false]
      refine .trans ?_ (sameList_setProc _ _ fun _ => rfl)
      refine .trans ?_ (sameList_setProc _ _ fun _ => rfl)
      exact sameList_setSem _ _ _

end Kernel

/-- The wait lists agree with the counts, the statuses and the history. -/
structure Queues (st : SemState) : Prop where
  chain : ∀ s, Chain st.kernel.waitNext NULL (st.kernel.sems s).waitHead (waiters s st.history)
  tail : ∀ s, (st.kernel.sems s).waitTail = (waiters s st.history).getLast?.getD NULL
  length : ∀ s, ((waiters s st.history).length : Int) = max 0 (-st.count s)
  range : ∀ s, -0x80000000 ≤ st.count s ∧ st.count s < 0x80000000
  mem : ∀ s p, p ∈ waiters s st.history ↔ st.status p = .blocked ∧ (st.point p).Waits s
  waits : ∀ p, st.status p = .blocked → ∃ s, (st.point p).Waits s

/-- A BLOCKED process runs only until it yields. -/
structure CurrentOk (st : SemState) : Prop where
  ne_null : st.current ≠ NULL
  waits : st.status st.current = .blocked → ∃ s, st.point st.current = .beforeYield s

namespace Queues

variable {st : SemState} (h : Queues st)

include h

theorem disjoint {s t p : Ptr} (hs : p ∈ waiters s st.history) (ht : p ∈ waiters t st.history) :
    s = t :=
  ((h.mem s p).mp hs).2.unique ((h.mem t p).mp ht).2

theorem nodup (s : Ptr) : (waiters s st.history).Nodup := (h.chain s).nodup

theorem not_mem_of_outside {p : Ptr} (hp : st.point p = .outside) (s : Ptr) :
    p ∉ waiters s st.history := by
  intro hm
  have := ((h.mem s p).mp hm).2
  rw [hp] at this
  exact Point.outside_waits s this

theorem not_blocked_of_outside {p : Ptr} (hp : st.point p = .outside) :
    st.status p ≠ .blocked := by
  intro hb
  obtain ⟨s, hs⟩ := h.waits p hb
  rw [hp] at hs
  exact Point.outside_waits s hs

theorem waiting_of_count_neg {s : Ptr} (hc : st.count s < 0) :
    ∃ w rest, waiters s st.history = w :: rest ∧ (st.kernel.sems s).waitHead = w ∧ w ≠ NULL := by
  have hlen := h.length s
  cases hq : waiters s st.history with
  | nil => rw [hq] at hlen; simp at hlen; omega
  | cons w rest =>
      have hch := h.chain s
      rw [hq] at hch
      exact ⟨w, rest, rfl, hch.1, hch.2.1⟩

theorem no_waiters_of_count_nonneg {s : Ptr} (hc : 0 ≤ st.count s) :
    waiters s st.history = [] := by
  have hlen := h.length s
  exact List.eq_nil_of_length_eq_zero (by omega)

/-- A change of `count` alone, with no waiter before or after. -/
theorem setCount {s : Ptr} {c : Int} {history : List SemEvent} (hold : 0 ≤ st.count s)
    (hc : 0 ≤ c) (hc' : c < 0x80000000) (hw : ∀ t, waiters t history = waiters t st.history) :
    Queues { st with kernel := st.kernel.setSem s fun m => { m with count := c },
                     history := history } := by
  have hnil := h.no_waiters_of_count_nonneg hold
  constructor
  · intro t
    rw [hw t]
    by_cases ht : t = s
    · subst ht; simpa using h.chain t
    · simpa [Kernel.setSem_ne _ ht] using h.chain t
  · intro t
    rw [hw t]
    by_cases ht : t = s
    · subst ht; simpa using h.tail t
    · simpa [Kernel.setSem_ne _ ht] using h.tail t
  · intro t
    rw [hw t]
    by_cases ht : t = s
    · subst ht
      simp only [SemState.count, Kernel.setSem_self, hnil, List.length_nil]
      omega
    · simpa [SemState.count, Kernel.setSem_ne _ ht] using h.length t
  · intro t
    by_cases ht : t = s
    · subst ht
      simp only [SemState.count, Kernel.setSem_self]
      omega
    · simpa [SemState.count, Kernel.setSem_ne _ ht] using h.range t
  · intro t p
    rw [hw t]
    exact h.mem t p
  · exact h.waits

theorem blockCurrent {s : Ptr} (hcur : st.current ≠ NULL) (hpt : st.point st.current = .outside)
    (hc : st.count s ≤ 0) (hlo : -0x80000000 ≤ st.count s - 1) :
    Queues { kernel := (st.kernel.setSem s fun m => { m with count := st.count s - 1 }).blockCurrent s,
             point := Function.update st.point st.current (.beforeYield s),
             history := .blocked st.current s :: st.history } := by
  have hb := (st.kernel.setSem s fun m => { m with count := st.count s - 1 }).blockCurrent_blocks s
  generalize (st.kernel.setSem s fun m => { m with count := st.count s - 1 }).blockCurrent s = k'
    at hb
  have hme : ∀ t, st.current ∉ waiters t st.history := h.not_mem_of_outside hpt
  have hcurrent : (st.kernel.setSem s fun m => { m with count := st.count s - 1 }).current
      = st.current := rfl
  have hself := hb.sems_self
  have hwn := hb.waitNext
  rw [hcurrent, Kernel.setSem_self] at hself
  rw [hcurrent, Kernel.setSem_self, Kernel.setSem_waitNext] at hwn
  simp only at hself hwn
  have hsems : ∀ t, t ≠ s → k'.sems t = st.kernel.sems t := fun t ht => by
    rw [hb.sems_ne t ht, Kernel.setSem_ne _ ht]
  have hstatus : k'.status = Function.update st.kernel.status st.current .blocked := hb.status
  have htail := h.tail s
  constructor
  · intro t
    by_cases ht : t = s
    · subst ht
      simp only [waiters, if_true, hself]
      rcases List.eq_nil_or_concat (waiters t st.history) with hq | ⟨ys, x, hq⟩
      · rw [hq] at htail
        simp only [List.getLast?_nil, Option.getD_none] at htail
        simp [hq, htail, hwn, hcur]
      · rw [List.concat_eq_append] at hq
        have hch := h.chain t
        have hx := hch.ne_null (x := x) (by simp [hq])
        rw [hq, List.getLast?_concat, Option.getD_some] at htail
        rw [hq] at hch
        have hnot : st.current ∉ ys ++ [x] := by rw [← hq]; exact hme t
        rw [hwn, hq, List.append_assoc]
        simp only [htail, ne_eq, hx, not_false_eq_true, if_true]
        exact (hch.update_notMem hnot).append_last hnot hcur (by simp)
    · have hq : waiters t (.blocked st.current s :: st.history) = waiters t st.history := by
        simp [waiters, Ne.symm ht]
      simp only [hsems t ht, hq, hwn]
      refine (h.chain t).congr fun x hx => ?_
      have h1 : x ≠ st.current := by rintro rfl; exact hme t hx
      have h2 : (st.kernel.sems s).waitTail ≠ NULL → x ≠ (st.kernel.sems s).waitTail := by
        rintro hne rfl
        refine ht (h.disjoint hx ?_)
        rcases List.eq_nil_or_concat (waiters s st.history) with hq | ⟨ys, y, hq⟩
        · rw [htail, hq] at hne; simp at hne
        · rw [htail, hq]; simp
      split
      · rename_i hne
        rw [Function.update_of_ne (h2 hne), Function.update_of_ne h1]
      · rw [Function.update_of_ne h1]
  · intro t
    by_cases ht : t = s
    · subst ht; simp [waiters, hself]
    · simpa [waiters, Ne.symm ht, hsems t ht] using h.tail t
  · intro t
    by_cases ht : t = s
    · subst ht
      have := h.length t
      simp only [SemState.count, waiters, if_true, hself, List.length_append, List.length_cons,
        List.length_nil]
      simp only [SemState.count] at this hc
      push_cast
      omega
    · simpa [SemState.count, waiters, Ne.symm ht, hsems t ht] using h.length t
  · intro t
    by_cases ht : t = s
    · subst ht
      have := h.range t
      simp only [SemState.count, hself] at this hlo ⊢
      omega
    · simpa [SemState.count, hsems t ht] using h.range t
  · intro t p
    have hmem := h.mem t p
    simp only [SemState.status, hstatus]
    by_cases hp : p = st.current
    · subst hp
      by_cases ht : t = s
      · subst ht; simp [waiters]
      · simp [waiters, Ne.symm ht, hme t]
    · have hp' : (Function.update st.kernel.status st.current ProcessStatus.blocked p) =
          st.status p := Function.update_of_ne hp _ _
      rw [hp', Function.update_of_ne hp, ← hmem]
      by_cases ht : t = s
      · subst ht; simp [waiters, hp]
      · simp [waiters, Ne.symm ht]
  · intro p hp
    simp only [SemState.status, hstatus] at hp
    by_cases hpc : p = st.current
    · subst hpc; exact ⟨s, by simp⟩
    · rw [Function.update_of_ne hpc] at hp
      simpa [hpc] using h.waits p hp

theorem wakeOldest {s w : Ptr} {rest : List Ptr} {who : Option Ptr}
    (hq : waiters s st.history = w :: rest) (hc : st.count s < 0) :
    Queues { kernel := (st.kernel.setSem s fun m => { m with count := st.count s + 1 }).wakeOldest s,
             point := st.point,
             history := .woken w s :: .signalled who s :: st.history } := by
  have hch := h.chain s
  rw [hq] at hch
  obtain ⟨hhead, hw, hrest⟩ := hch
  have hwk := (st.kernel.setSem s fun m => { m with count := st.count s + 1 }).wakeOldest_wakes s
  generalize (st.kernel.setSem s fun m => { m with count := st.count s + 1 }).wakeOldest s = k'
    at hwk
  rw [Kernel.setSem_self] at hwk
  simp only [hhead] at hwk
  have hself := hwk.sems_self
  have hwn := hwk.waitNext
  rw [Kernel.setSem_self, Kernel.setSem_waitNext] at hself
  rw [Kernel.setSem_waitNext] at hwn
  simp only at hself
  have hsems : ∀ t, t ≠ s → k'.sems t = st.kernel.sems t := fun t ht => by
    rw [hwk.sems_ne t ht, Kernel.setSem_ne _ ht]
  have hstatus : k'.status = Function.update st.kernel.status w .ready := hwk.status
  have hnd := h.nodup s
  rw [hq, List.nodup_cons] at hnd
  have hws : w ∈ waiters s st.history := by simp [hq]
  have hqs : ∀ t, waiters t (.woken w s :: .signalled who s :: st.history) =
      if t = s then rest else waiters t st.history := by
    intro t
    by_cases ht : t = s
    · subst ht; simp [waiters, hq]
    · simp [waiters, Ne.symm ht, ht]
  constructor
  · intro t
    simp only [hqs, hwn]
    by_cases ht : t = s
    · subst ht
      simp only [if_true, hself]
      exact hrest.update_notMem hnd.1
    · simp only [ht, if_false, hsems t ht]
      exact (h.chain t).update_notMem fun hm => ht (h.disjoint hm hws)
  · intro t
    simp only [hqs]
    by_cases ht : t = s
    · subst ht
      have htail := h.tail t
      simp only [if_true, hself]
      rcases List.eq_nil_or_concat rest with hr | ⟨ys, x, hr⟩
      · subst hr
        simp [show st.kernel.waitNext w = NULL from hrest]
      · have hne : st.kernel.waitNext w ≠ NULL := by
          rw [Ne, hrest.head_null_iff, hr]
          simp
        rw [if_neg hne, htail, hq, hr, List.concat_eq_append, ← List.cons_append,
          List.getLast?_concat, List.getLast?_concat]
    · simpa [ht, hsems t ht] using h.tail t
  · intro t
    simp only [hqs]
    by_cases ht : t = s
    · subst ht
      have hlen := h.length t
      rw [hq] at hlen
      simp only [SemState.count, hself, if_true]
      simp only [SemState.count, List.length_cons] at hlen hc
      push_cast at hlen
      omega
    · simpa [SemState.count, ht, hsems t ht] using h.length t
  · intro t
    by_cases ht : t = s
    · subst ht
      have := h.range t
      simp only [SemState.count, hself] at this hc ⊢
      omega
    · simpa [SemState.count, hsems t ht] using h.range t
  · intro t p
    have hmem := h.mem t p
    simp only [SemState.status, hstatus, hqs]
    by_cases hp : p = w
    · subst hp
      by_cases ht : t = s
      · subst ht; simp [hnd.1]
      · simp only [ht, if_false, Function.update_self]
        have hno : p ∉ waiters t st.history := fun hm => ht (h.disjoint hm hws)
        simp [hno]
    · have hp' : (Function.update st.kernel.status w ProcessStatus.ready p) = st.status p :=
        Function.update_of_ne hp _ _
      rw [hp', ← hmem]
      by_cases ht : t = s
      · subst ht; simp [hq, hp]
      · simp [ht]
  · intro p hp
    simp only [SemState.status, hstatus] at hp
    by_cases hpw : p = w
    · subst hpw; simp at hp
    · rw [Function.update_of_ne hpw] at hp
      exact h.waits p hp

/-- Events that neither block nor wake leave the lists alone. -/
theorem withHistory {history : List SemEvent} (hw : ∀ t, waiters t history = waiters t st.history) :
    Queues { st with history := history } where
  chain t := by rw [hw t]; exact h.chain t
  tail t := by rw [hw t]; exact h.tail t
  length t := by rw [hw t]; exact h.length t
  range := h.range
  mem t p := by rw [hw t]; exact h.mem t p
  waits := h.waits

/-- Moving one process's point, without changing what it waits for while BLOCKED. -/
theorem withPoint {p : Ptr} {pt : Point}
    (hp : st.status p = .blocked → ∀ s, pt.Waits s ↔ (st.point p).Waits s) :
    Queues { st with point := Function.update st.point p pt } where
  chain := h.chain
  tail := h.tail
  length := h.length
  range := h.range
  mem t q := by
    rw [h.mem t q]
    refine and_congr_right fun hb => ?_
    by_cases hq : q = p
    · subst hq; simp [hp hb t]
    · simp [hq]
  waits q hb := by
    obtain ⟨t, ht⟩ := h.waits q hb
    refine ⟨t, ?_⟩
    by_cases hq : q = p
    · subst hq; simpa [hp hb t] using ht
    · simpa [hq] using ht

theorem withSched {sched : Scheduler} (hsw : Scheduler.Switched st.kernel.sched sched) :
    Queues { st with kernel := { st.kernel with sched := sched } } where
  chain t := by
    refine (h.chain t).congr fun x _ => ?_
    exact hsw.waitNext_eq x
  tail := h.tail
  length := h.length
  range := h.range
  mem t p := by
    rw [h.mem t p]
    exact and_congr_left fun _ => (hsw.blocked_iff p).symm
  waits p hp := h.waits p ((hsw.blocked_iff p).mp hp)

end Queues

namespace SemState

theorem wait_of_pos {st : SemState} (h : Queues st) {s : Ptr} (hc : 0 < st.count s) :
    st.wait s = { st with
      kernel := st.kernel.setSem s fun m => { m with count := st.count s - 1 },
      history := .acquired (some st.current) s :: st.history } := by
  have hr := h.range s
  have hi : int32 ((st.kernel.sems s).count - 1) = st.count s - 1 :=
    int32_of_range (by change -0x80000000 ≤ st.count s - 1; omega)
      (by change st.count s - 1 < 0x80000000; omega)
  have hn : ¬st.count s - 1 < 0 := by omega
  simp [wait, Kernel.semWait, hi, hn, Kernel.setSem]

theorem wait_of_nonpos {st : SemState} (h : Queues st) {s : Ptr} (hc : st.count s ≤ 0)
    (hlo : -0x80000000 ≤ st.count s - 1) :
    st.wait s =
      { kernel := (st.kernel.setSem s fun m => { m with count := st.count s - 1 }).blockCurrent s,
        point := Function.update st.point st.current (.beforeYield s),
        history := .blocked st.current s :: st.history } := by
  have hr := h.range s
  have hi : int32 ((st.kernel.sems s).count - 1) = st.count s - 1 :=
    int32_of_range hlo (by change st.count s - 1 < 0x80000000; omega)
  have hn : st.count s - 1 < 0 := by omega
  simp [wait, Kernel.semWait, hi, hn, Kernel.setSem]

theorem trywait_of_pos {st : SemState} (h : Queues st) {who : Option Ptr} {s : Ptr}
    (hc : 0 < st.count s) :
    st.trywait who s = ({ st with
      kernel := st.kernel.setSem s fun m => { m with count := st.count s - 1 },
      history := .acquired who s :: st.history }, 1) := by
  have hr := h.range s
  have hi : int32 ((st.kernel.sems s).count - 1) = st.count s - 1 :=
    int32_of_range (by change -0x80000000 ≤ st.count s - 1; omega)
      (by change st.count s - 1 < 0x80000000; omega)
  have hp : (st.kernel.sems s).count > 0 := hc
  simp [trywait, Kernel.semTrywait, hi, hp, Kernel.setSem]

theorem trywait_of_nonpos {st : SemState} {who : Option Ptr} {s : Ptr} (hc : st.count s ≤ 0) :
    st.trywait who s = (st, 0) := by
  have hp : ¬(st.kernel.sems s).count > 0 := by
    change ¬st.count s > 0
    omega
  simp [trywait, Kernel.semTrywait, hp]

theorem signal_of_nonneg {st : SemState} {who : Option Ptr} {s : Ptr}
    (hc : 0 ≤ st.count s) (hhi : st.count s + 1 < 0x80000000) :
    st.signal who s = { st with
      kernel := st.kernel.setSem s fun m => { m with count := st.count s + 1 },
      history := .signalled who s :: st.history } := by
  have hi : int32 ((st.kernel.sems s).count + 1) = st.count s + 1 :=
    int32_of_range (by change -0x80000000 ≤ st.count s + 1; omega) hhi
  have hn : ¬st.count s + 1 ≤ 0 := by omega
  simp [signal, Kernel.semSignal, hi, hn, Kernel.setSem]

theorem signal_of_neg {st : SemState} (h : Queues st) (who : Option Ptr) {s : Ptr}
    (hc : st.count s < 0) :
    ∃ w rest, waiters s st.history = w :: rest ∧ st.signal who s =
      { kernel := (st.kernel.setSem s fun m => { m with count := st.count s + 1 }).wakeOldest s,
        point := st.point,
        history := .woken w s :: .signalled who s :: st.history } := by
  obtain ⟨w, rest, hq, hw, hne⟩ := h.waiting_of_count_neg hc
  have hr := h.range s
  have hi : int32 ((st.kernel.sems s).count + 1) = st.count s + 1 :=
    int32_of_range (by change -0x80000000 ≤ st.count s + 1; omega)
      (by change st.count s + 1 < 0x80000000; omega)
  have hn : st.count s + 1 ≤ 0 := by omega
  have hn' : st.count s < 0 := hc
  refine ⟨w, rest, hq, ?_⟩
  simp [signal, Kernel.semSignal, hi, hn, hw, hne, Kernel.setSem]

/-- What a blocking `sem_wait` does to the state, field by field. -/
structure Blocked (st st' : SemState) (s : Ptr) : Prop where
  count_self : st'.count s = st.count s - 1
  count_ne : ∀ t, t ≠ s → st'.count t = st.count t
  status : st'.status = Function.update st.status st.current .blocked
  point : st'.point = Function.update st.point st.current (.beforeYield s)
  history : st'.history = .blocked st.current s :: st.history
  sameList : Kernel.SameList st.kernel st'.kernel

theorem wait_blocked {st : SemState} (h : Queues st) {s : Ptr} (hc : st.count s ≤ 0)
    (hlo : -0x80000000 ≤ st.count s - 1) : Blocked st (st.wait s) s := by
  have hb := (st.kernel.setSem s fun m => { m with count := st.count s - 1 }).blockCurrent_blocks s
  rw [wait_of_nonpos h hc hlo]
  refine ⟨?_, fun t ht => ?_, hb.status, rfl, rfl, (Kernel.sameList_setSem _ _ _).trans hb.sameList⟩
  · change (Kernel.sems _ s).count = _
    rw [hb.sems_self, Kernel.setSem_self]
  · change (Kernel.sems _ t).count = _
    rw [hb.sems_ne t ht, Kernel.setSem_ne _ ht]
    rfl

/-- What a waking `sem_signal` does to the state, field by field. -/
structure Woke (st st' : SemState) (who : Option Ptr) (s w : Ptr) : Prop where
  count_self : st'.count s = st.count s + 1
  count_ne : ∀ t, t ≠ s → st'.count t = st.count t
  status : st'.status = Function.update st.status w .ready
  point : st'.point = st.point
  history : st'.history = .woken w s :: .signalled who s :: st.history
  sameList : Kernel.SameList st.kernel st'.kernel

theorem signal_woke {st : SemState} (h : Queues st) (who : Option Ptr) {s : Ptr}
    (hc : st.count s < 0) :
    ∃ w rest, waiters s st.history = w :: rest ∧ Woke st (st.signal who s) who s w := by
  obtain ⟨w, rest, hq, heq⟩ := signal_of_neg h who hc
  have hwk := (st.kernel.setSem s fun m => { m with count := st.count s + 1 }).wakeOldest_wakes s
  have hhead : (st.kernel.sems s).waitHead = w := by
    have hch := h.chain s
    rw [hq] at hch
    exact hch.1
  rw [Kernel.setSem_self] at hwk
  simp only [hhead] at hwk
  refine ⟨w, rest, hq, ?_⟩
  rw [heq]
  refine ⟨?_, fun t ht => ?_, hwk.status, rfl, rfl,
    (Kernel.sameList_setSem _ _ _).trans hwk.sameList⟩
  · change (Kernel.sems _ s).count = _
    rw [hwk.sems_self, Kernel.setSem_self]
  · change (Kernel.sems _ t).count = _
    rw [hwk.sems_ne t ht, Kernel.setSem_ne _ ht]
    rfl

end SemState

namespace Queues

variable {st : SemState}

theorem wait (h : Queues st) (hc : CurrentOk st) {s : Ptr} (hpt : st.point st.current = .outside)
    (hnw : -0x80000000 ≤ st.count s - 1) : Queues (st.wait s) := by
  by_cases hpos : 0 < st.count s
  · rw [SemState.wait_of_pos h hpos]
    have hr := h.range s
    exact h.setCount (by omega) (by omega) (by omega) fun t => rfl
  · rw [SemState.wait_of_nonpos h (by omega) hnw]
    exact h.blockCurrent hc.ne_null hpt (by omega) hnw

theorem trywait (h : Queues st) (who : Option Ptr) (s : Ptr) : Queues (st.trywait who s).1 := by
  by_cases hpos : 0 < st.count s
  · rw [SemState.trywait_of_pos h hpos]
    have hr := h.range s
    exact h.setCount (by omega) (by omega) (by omega) fun t => rfl
  · rw [SemState.trywait_of_nonpos (by omega)]
    exact h

theorem signal (h : Queues st) (who : Option Ptr) {s : Ptr} (hnw : st.count s + 1 < 0x80000000) :
    Queues (st.signal who s) := by
  by_cases hneg : st.count s < 0
  · obtain ⟨w, rest, hq, heq⟩ := SemState.signal_of_neg h who hneg
    rw [heq]
    exact h.wakeOldest hq hneg
  · rw [SemState.signal_of_nonneg (by omega) hnw]
    exact h.setCount (by omega) (by omega) hnw fun t => rfl

theorem resume (h : Queues st) (hc : CurrentOk st) {s : Ptr}
    (hpt : st.point st.current = .inYield s) : Queues (st.resume s) := by
  have hfree : st.status st.current ≠ .blocked := fun hb => by
    obtain ⟨t, ht⟩ := hc.waits hb
    rw [hpt] at ht
    cases ht
  have hp : Queues { st with point := Function.update st.point st.current .outside } :=
    h.withPoint fun hb => absurd hb hfree
  exact hp.withHistory fun t => rfl

theorem switch (h : Queues st) {fuel : Nat} {context : Ptr} {st' : SemState}
    (hs : st.switch fuel context = some st') : Queues st' := by
  simp only [SemState.switch, Option.map_eq_some_iff] at hs
  obtain ⟨⟨sched, r⟩, hsched, rfl⟩ := hs
  exact h.withSched (Scheduler.schedule_switched hsched)

theorem yieldWait (h : Queues st) {fuel : Nat} {s context : Ptr} {st' : SemState}
    (hpt : st.point st.current = .beforeYield s)
    (hs : st.yieldWait fuel s context = some st') : Queues st' := by
  have hp : Queues { st with point := Function.update st.point st.current (.inYield s) } :=
    h.withPoint fun _ t => by simp [hpt]
  exact hp.switch hs

end Queues

namespace CurrentOk

variable {st : SemState}

theorem setSem (h : CurrentOk st) (s : Ptr) (f : Semaphore → Semaphore)
    (history : List SemEvent) :
    CurrentOk { st with kernel := st.kernel.setSem s f, history := history } :=
  ⟨h.ne_null, h.waits⟩

theorem wait (hq : Queues st) (h : CurrentOk st) {s : Ptr} (hnw : -0x80000000 ≤ st.count s - 1) :
    CurrentOk (st.wait s) := by
  by_cases hpos : 0 < st.count s
  · rw [SemState.wait_of_pos hq hpos]
    exact h.setSem s _ _
  · have ev := SemState.wait_blocked hq (Int.not_lt.mp hpos) hnw
    have hcur : (st.wait s).current = st.current := ev.sameList.current
    refine ⟨hcur.symm ▸ h.ne_null, fun _ => ⟨s, ?_⟩⟩
    rw [hcur, ev.point, Function.update_self]

theorem trywait (hq : Queues st) (h : CurrentOk st) (who : Option Ptr) (s : Ptr) :
    CurrentOk (st.trywait who s).1 := by
  by_cases hpos : 0 < st.count s
  · rw [SemState.trywait_of_pos hq hpos]
    exact h.setSem s _ _
  · rw [SemState.trywait_of_nonpos (by omega)]
    exact h

/-- A signal may wake the very process it interrupts. -/
theorem signal (hq : Queues st) (h : CurrentOk st) (who : Option Ptr) {s : Ptr}
    (hnw : st.count s + 1 < 0x80000000) : CurrentOk (st.signal who s) := by
  by_cases hneg : st.count s < 0
  · obtain ⟨w, rest, _, ev⟩ := SemState.signal_woke hq who hneg
    have hcur : (st.signal who s).current = st.current := ev.sameList.current
    refine ⟨hcur.symm ▸ h.ne_null, ?_⟩
    rw [hcur, ev.status, ev.point]
    intro hb
    by_cases hcw : st.current = w
    · rw [hcw, Function.update_self] at hb
      cases hb
    · rw [Function.update_of_ne hcw] at hb
      exact h.waits hb
  · rw [SemState.signal_of_nonneg (by omega) hnw]
    exact h.setSem s _ _

/-- After `schedule` the current process is not BLOCKED. -/
theorem switch {fuel : Nat} {context : Ptr} {st' : SemState}
    (hs : st.switch fuel context = some st') : CurrentOk st' := by
  simp only [SemState.switch, Option.map_eq_some_iff] at hs
  obtain ⟨⟨sched, r⟩, hsched, rfl⟩ := hs
  have hsw := Scheduler.schedule_switched hsched
  refine ⟨hsw.current_ne, fun hb => ?_⟩
  exact absurd (Or.inr ((hsw.blocked_iff _).mp hb)) hsw.current_free

theorem resume {s : Ptr} (hq : Queues (st.resume s)) (h : CurrentOk st) :
    CurrentOk (st.resume s) :=
  ⟨h.ne_null, fun hb => absurd hb (hq.not_blocked_of_outside (by
    simp [SemState.resume, SemState.current]))⟩

end CurrentOk

/-- One step of the machine keeps the wait lists. -/
theorem semMachine_step {fuel : Nat} {st st' : SemState} {a : SemAction}
    (h : Queues st ∧ CurrentOk st) (hnw : a.NoWrap st)
    (hs : (semMachine fuel).step st a = some st') : Queues st' ∧ CurrentOk st' := by
  obtain ⟨hq, hc⟩ := h
  cases a with
  | wait s =>
      simp only [semMachine, Option.ite_none_right_eq_some, Option.some.injEq] at hs
      obtain ⟨hpt, rfl⟩ := hs
      exact ⟨hq.wait hc hpt hnw, hc.wait hq hnw⟩
  | trywait s =>
      simp only [semMachine, Option.ite_none_right_eq_some, Option.some.injEq] at hs
      obtain ⟨_, rfl⟩ := hs
      exact ⟨hq.trywait _ s, hc.trywait hq _ s⟩
  | signal s =>
      simp only [semMachine, Option.ite_none_right_eq_some, Option.some.injEq] at hs
      obtain ⟨_, rfl⟩ := hs
      exact ⟨hq.signal _ hnw, hc.signal hq _ hnw⟩
  | yield context =>
      simp only [semMachine] at hs
      split at hs
      · rename_i s hpt
        exact ⟨hq.yieldWait hpt hs, CurrentOk.switch hs⟩
      · cases hs
  | resume =>
      simp only [semMachine] at hs
      split at hs
      · rename_i s hpt
        cases hs
        exact ⟨hq.resume hc hpt, hc.resume (hq.resume hc hpt)⟩
      · cases hs
  | tick context => exact ⟨hq.switch hs, CurrentOk.switch hs⟩
  | irqTrywait s =>
      cases hs
      exact ⟨hq.trywait _ s, hc.trywait hq _ s⟩
  | irqSignal s =>
      cases hs
      exact ⟨hq.signal _ hnw, hc.signal hq _ hnw⟩

/-- A state before any semaphore was used: a well-formed process list, no
process BLOCKED, every semaphore as `sem_create` leaves it. The initial counts
are not negative, as in every call of `sem_create` and `mutex_create`. -/
structure SemInit (l : List Ptr) (st : SemState) : Prop where
  listed : st.kernel.sched.Listed l
  current_mem : st.current ∈ l
  created : ∀ s, ∃ n : Int, 0 ≤ n ∧ n < 0x80000000 ∧ st.kernel.sems s = semCreate n
  unblocked : ∀ p, st.status p ≠ .blocked
  outside : ∀ p, st.point p = .outside
  history : st.history = []

theorem SemInit.queues {l : List Ptr} {st : SemState} (h : SemInit l st) :
    Queues st ∧ CurrentOk st := by
  refine ⟨⟨?_, ?_, ?_, ?_, ?_, ?_⟩, ⟨h.listed.ne_null h.current_mem, ?_⟩⟩
  · intro s
    obtain ⟨n, _, _, hs⟩ := h.created s
    simp [hs, semCreate, h.history, waiters]
  · intro s
    obtain ⟨n, _, _, hs⟩ := h.created s
    simp [hs, semCreate, h.history, waiters]
  · intro s
    obtain ⟨n, hn, _, hs⟩ := h.created s
    simp only [SemState.count, hs, semCreate, h.history, waiters, List.length_nil]
    omega
  · intro s
    obtain ⟨n, hn, hn', hs⟩ := h.created s
    simp only [SemState.count, hs, semCreate]
    omega
  · intro s p
    simp [h.history, waiters, h.unblocked p]
  · intro p hp
    exact absurd hp (h.unblocked p)
  · intro hp
    exact absurd hp (h.unblocked _)

/-- What every semaphore satisfies: the list from `wait_head` to `wait_tail` is
duplicate-free, as long as the count says and made of the BLOCKED processes
that entered `sem_wait` and were not woken, in order of arrival; a process
stands in one list at most; a signal gives a permit or wakes the oldest waiter. -/
structure WaitLists (st : SemState) : Prop where
  list : ∀ s, ∃ q, Chain st.kernel.waitNext NULL (st.kernel.sems s).waitHead q ∧
    (st.kernel.sems s).waitTail = q.getLast?.getD NULL ∧ q.Nodup ∧
    (q.length : Int) = max 0 (-st.count s) ∧ q = waiters s st.history ∧
    ∀ p, p ∈ q ↔ st.status p = .blocked ∧ (st.point p).Waits s
  once : ∀ p s t, p ∈ waiters s st.history → p ∈ waiters t st.history → s = t
  signal : ∀ who s, st.count s + 1 < 0x80000000 →
    (0 < (st.signal who s).count s ∧ (st.signal who s).status = st.status) ∨
    ∃ w rest, waiters s st.history = w :: rest ∧
      waiters s (st.signal who s).history = rest ∧
      (st.signal who s).status = Function.update st.status w .ready

theorem Queues.waitLists {st : SemState} (h : Queues st) : WaitLists st := by
  refine ⟨fun s => ⟨_, h.chain s, h.tail s, h.nodup s, h.length s, rfl, h.mem s⟩,
    fun p s t hs ht => h.disjoint hs ht, fun who s hnw => ?_⟩
  by_cases hneg : st.count s < 0
  · obtain ⟨w, rest, hq, ev⟩ := SemState.signal_woke h who hneg
    refine Or.inr ⟨w, rest, hq, ?_, ev.status⟩
    rw [ev.history]
    simp [waiters, hq]
  · refine Or.inl ⟨?_, ?_⟩
    · rw [SemState.signal_of_nonneg (by omega) hnw]
      simp only [SemState.count, Kernel.setSem_self]
      change 0 < st.count s + 1
      omega
    · rw [SemState.signal_of_nonneg (by omega) hnw]
      rfl

/-- In every run in which `count` does not wrap, every semaphore's wait list is
as `WaitLists` says, in every state reached. -/
theorem semMachine_waitLists (fuel : Nat) (l : List Ptr) (st₀ st : SemState)
    (run : List SemAction) (init : SemInit l st₀)
    (noWrap : (semMachine fuel).Meets (fun st a => a.NoWrap st) st₀ run)
    (reached : (semMachine fuel).exec st₀ run = some st) : WaitLists st :=
  ((semMachine fuel).exec_invariant (fun _ _ _ h hn hs => semMachine_step h hn hs)
    init.queues noWrap reached).1.waitLists

/-- Two processes at addresses 8 and 16 and semaphores without a permit. -/
def twoProcesses : SemState where
  kernel :=
    { sched :=
        { procs := fun p => { Process.zeroed with next := if p = 8 then 16 else NULL }
          processList := 8
          currentProcess := 8 }
      sems := fun _ => semCreate 0 }
  point := fun _ => .outside
  history := []

theorem twoProcesses_init : SemInit [8, 16] twoProcesses where
  listed := by simp [Scheduler.Listed, Scheduler.next, twoProcesses]
  current_mem := by decide
  created s := ⟨0, by decide, by decide, rfl⟩
  unblocked p := by simp [SemState.status, Kernel.status, Scheduler.status, twoProcesses, Process.zeroed]
  outside p := rfl
  history := rfl

/-- A process blocks, a tick falls before its yield, the other one signals. -/
theorem semMachine_waitLists_handover : ∃ st,
    (semMachine 3).exec twoProcesses [.wait 1, .tick 0, .signal 1, .tick 0, .yield 0] = some st ∧
      WaitLists st :=
  ⟨_, rfl, semMachine_waitLists 3 [8, 16] twoProcesses _ [.wait 1, .tick 0, .signal 1, .tick 0, .yield 0]
    twoProcesses_init (by decide) rfl⟩

end BayosKernel
