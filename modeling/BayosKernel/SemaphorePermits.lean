import BayosKernel.Foundation.Counting
import BayosKernel.SemaphoreQueue

/-!
Permit accounting: what a semaphore has given out never exceeds what it was
created with and what was signalled since.

A process that was woken carries its permit until `sem_wait` returns, without
looking at the count again. The balance therefore has three parts: the free
permits, the completed acquisitions, and the processes granted a permit inside
`sem_wait`.
-/

namespace BayosKernel

open Foundation

/-- Woken, or never blocked, but still inside `sem_wait(s)`. -/
def SemState.granted (st : SemState) (s p : Ptr) : Bool :=
  (st.point p).Waits s ∧ st.status p ≠ .blocked

theorem granted_congr {st st' : SemState} {s p : Ptr}
    (hpt : (st'.point p).Waits s ↔ (st.point p).Waits s)
    (hst : st'.status p = .blocked ↔ st.status p = .blocked) : st'.granted s p = st.granted s p :=
  decide_eq_decide.mpr (and_congr hpt (not_congr hst))

theorem granted_eq_true_iff {st : SemState} {s p : Ptr} :
    st.granted s p = true ↔ (st.point p).Waits s ∧ st.status p ≠ .blocked := decide_eq_true_iff

theorem granted_eq_false {st : SemState} {s p : Ptr}
    (h : (st.point p).Waits s → st.status p = .blocked) : st.granted s p = false :=
  decide_eq_false fun hc => hc.2 (h hc.1)

structure Permits (l : List Ptr) (n : Ptr → Int) (st : SemState) : Prop where
  listed : st.kernel.sched.Listed l
  current_mem : st.current ∈ l
  inside_mem : ∀ p, st.point p ≠ .outside → p ∈ l
  balance : ∀ s, n s + signals s st.history =
    max 0 (st.count s) + acquisitions s st.history + tally l (st.granted s)

theorem listed_of_sameList {k k' : Kernel} {l : List Ptr} (h : Kernel.SameList k k')
    (hl : k.sched.Listed l) : k'.sched.Listed l := by
  unfold Scheduler.Listed at *
  rw [h.processList, h.next]
  exact hl

@[simp] theorem acquisitions_blocked (s p t : Ptr) (h : List SemEvent) :
    acquisitions s (.blocked p t :: h) = acquisitions s h := by simp [acquisitions]

@[simp] theorem acquisitions_woken (s p t : Ptr) (h : List SemEvent) :
    acquisitions s (.woken p t :: h) = acquisitions s h := by simp [acquisitions]

@[simp] theorem acquisitions_signalled (s t : Ptr) (who : Option Ptr) (h : List SemEvent) :
    acquisitions s (.signalled who t :: h) = acquisitions s h := by simp [acquisitions]

theorem acquisitions_acquired (s t : Ptr) (who : Option Ptr) (h : List SemEvent) :
    acquisitions s (.acquired who t :: h) = acquisitions s h + if t = s then 1 else 0 := by
  simp [acquisitions, List.countP_cons]

@[simp] theorem signals_blocked (s p t : Ptr) (h : List SemEvent) :
    signals s (.blocked p t :: h) = signals s h := by simp [signals]

@[simp] theorem signals_woken (s p t : Ptr) (h : List SemEvent) :
    signals s (.woken p t :: h) = signals s h := by simp [signals]

@[simp] theorem signals_acquired (s t : Ptr) (who : Option Ptr) (h : List SemEvent) :
    signals s (.acquired who t :: h) = signals s h := by simp [signals]

theorem signals_signalled (s t : Ptr) (who : Option Ptr) (h : List SemEvent) :
    signals s (.signalled who t :: h) = signals s h + if t = s then 1 else 0 := by
  simp [signals, List.countP_cons]

namespace Permits

variable {l : List Ptr} {n : Ptr → Int} {st : SemState}

/-- A step that moves `count` and one of the two totals, and no process. -/
theorem setCount (h : Permits l n st) {s : Ptr} {c : Int} {history : List SemEvent}
    (hs : max 0 c + acquisitions s history - signals s history =
      max 0 (st.count s) + acquisitions s st.history - signals s st.history)
    (ha : ∀ t, t ≠ s → acquisitions t history = acquisitions t st.history)
    (hg : ∀ t, t ≠ s → signals t history = signals t st.history) :
    Permits l n { st with kernel := st.kernel.setSem s fun m => { m with count := c },
                          history := history } where
  listed := h.listed
  current_mem := h.current_mem
  inside_mem := h.inside_mem
  balance t := by
    have hb := h.balance t
    have htally : tally l (SemState.granted
        { st with kernel := st.kernel.setSem s fun m => { m with count := c },
                  history := history } t) = tally l (st.granted t) := rfl
    rw [htally]
    by_cases ht : t = s
    · subst ht
      simp only [SemState.count, Kernel.setSem_self] at hs hb ⊢
      omega
    · simp only [SemState.count, Kernel.setSem_ne _ ht, ha t ht, hg t ht] at hb ⊢
      exact hb

theorem wait (h : Permits l n st) (hq : Queues st) {s : Ptr}
    (hpt : st.point st.current = .outside) (hnw : -0x80000000 ≤ st.count s - 1) :
    Permits l n (st.wait s) := by
  by_cases hpos : 0 < st.count s
  · rw [SemState.wait_of_pos hq hpos]
    refine h.setCount ?_ ?_ ?_
    · rw [acquisitions_acquired, signals_acquired]
      push_cast
      simp only [if_true]
      omega
    · intro t ht
      simp [acquisitions_acquired, Ne.symm ht]
    · intro t _
      simp
  · have ev := SemState.wait_blocked hq (Int.not_lt.mp hpos) hnw
    have hcur : (st.wait s).current = st.current := ev.sameList.current
    refine ⟨listed_of_sameList ev.sameList h.listed, hcur.symm ▸ h.current_mem, ?_, ?_⟩
    · intro p hp
      by_cases hpc : p = st.current
      · rw [hpc]; exact h.current_mem
      · exact h.inside_mem p (by simpa [ev.point, hpc] using hp)
    · intro t
      have hbal := h.balance t
      have htally : tally l ((st.wait s).granted t) = tally l (st.granted t) := by
        refine tally_congr fun p _ => ?_
        by_cases hpc : p = st.current
        · subst hpc
          rw [granted_eq_false fun _ => by simp [ev.status],
            granted_eq_false fun hv => absurd hv (by simp [hpt])]
        · exact granted_congr (by simp [ev.point, hpc]) (by simp [ev.status, hpc])
      rw [htally, ev.history, signals_blocked, acquisitions_blocked]
      by_cases ht : t = s
      · subst ht
        rw [ev.count_self]
        omega
      · rw [ev.count_ne t ht]
        exact hbal

theorem trywait (h : Permits l n st) (hq : Queues st) (who : Option Ptr) (s : Ptr) :
    Permits l n (st.trywait who s).1 := by
  by_cases hpos : 0 < st.count s
  · rw [SemState.trywait_of_pos hq hpos]
    refine h.setCount ?_ ?_ ?_
    · rw [acquisitions_acquired, signals_acquired]
      push_cast
      simp only [if_true]
      omega
    · intro t ht
      simp [acquisitions_acquired, Ne.symm ht]
    · intro t _
      simp
  · rw [SemState.trywait_of_nonpos (by omega)]
    exact h

/-- The woken process takes over the permit of the signal. -/
theorem signal (h : Permits l n st) (hq : Queues st) (who : Option Ptr) {s : Ptr}
    (hnw : st.count s + 1 < 0x80000000) : Permits l n (st.signal who s) := by
  by_cases hneg : st.count s < 0
  · obtain ⟨w, rest, hw, ev⟩ := SemState.signal_woke hq who hneg
    have hwait := (hq.mem s w).mp (by simp [hw])
    have hwl : w ∈ l := h.inside_mem w fun hout => by
      rw [hout] at hwait
      exact Point.outside_waits s hwait.2
    refine ⟨listed_of_sameList ev.sameList h.listed, ?_, ?_, ?_⟩
    · have hcur : (st.signal who s).current = st.current := ev.sameList.current
      rw [hcur]
      exact h.current_mem
    · rw [ev.point]
      exact h.inside_mem
    · intro t
      have hbal := h.balance t
      have hne : ∀ p ∈ l, p ≠ w → st.granted t p = (st.signal who s).granted t p := by
        intro p _ hp
        refine (granted_congr (by rw [ev.point]) ?_).symm
        rw [ev.status, Function.update_of_ne hp]
      have hch := tally_change h.listed.nodup hwl hne
      have hold : st.granted t w = false := granted_eq_false fun _ => hwait.1
      rw [hold] at hch
      rw [ev.history, acquisitions_woken, acquisitions_signalled, signals_woken, signals_signalled]
      by_cases ht : t = s
      · subst ht
        have hnew : (st.signal who t).granted t w = true := by
          refine granted_eq_true_iff.mpr ⟨by rw [ev.point]; exact hwait.2, ?_⟩
          rw [ev.status, Function.update_self]
          decide
        rw [hnew] at hch
        rw [ev.count_self]
        simp only [Bool.toNat_true, Bool.toNat_false, if_true] at hch ⊢
        push_cast
        omega
      · have hnew : (st.signal who s).granted t w = false :=
          granted_eq_false fun hv => absurd (by rw [ev.point] at hv; exact hv.unique hwait.2) ht
        rw [hnew] at hch
        rw [ev.count_ne t ht]
        simp only [Ne.symm ht, Bool.toNat_false, if_false] at hch ⊢
        push_cast
        omega
  · rw [SemState.signal_of_nonneg (by omega) hnw]
    refine h.setCount ?_ ?_ ?_
    · rw [acquisitions_signalled, signals_signalled]
      push_cast
      simp only [if_true]
      omega
    · intro t _
      simp
    · intro t ht
      simp [signals_signalled, Ne.symm ht]

theorem resume (h : Permits l n st) (hc : CurrentOk st) {s : Ptr}
    (hpt : st.point st.current = .inYield s) : Permits l n (st.resume s) where
  listed := h.listed
  current_mem := h.current_mem
  inside_mem p hp := by
    by_cases hpc : p = st.current
    · rw [hpc]; exact h.current_mem
    · exact h.inside_mem p (by simpa [SemState.resume, hpc] using hp)
  balance t := by
    have hbal := h.balance t
    have hfree : st.status st.current ≠ .blocked := fun hb => by
      obtain ⟨t, ht⟩ := hc.waits hb
      rw [hpt] at ht
      cases ht
    have hne : ∀ p, p ≠ st.current → (st.resume s).granted t p = st.granted t p := by
      intro p hp
      refine granted_congr ?_ Iff.rfl
      simp [SemState.resume, hp]
    have hch := tally_change h.listed.nodup h.current_mem fun p _ hp => (hne p hp).symm
    have hold : st.granted t st.current = decide (t = s) :=
      decide_eq_decide.mpr (by simp [hpt, hfree, eq_comm])
    have hnew : (st.resume s).granted t st.current = false :=
      granted_eq_false fun hv => absurd hv (by simp [SemState.resume])
    rw [hold, hnew] at hch
    have hcount : (st.resume s).count t = st.count t := rfl
    have hhist : (st.resume s).history = .acquired (some st.current) s :: st.history := rfl
    rw [hcount, hhist, acquisitions_acquired, signals_acquired]
    by_cases ht : t = s
    · subst ht
      simp only [decide_true, Bool.toNat_true, Bool.toNat_false, if_true] at hch ⊢
      push_cast
      omega
    · simp only [ht, Ne.symm ht, decide_false, Bool.toNat_false, if_false] at hch ⊢
      push_cast
      omega

theorem switch (h : Permits l n st) {fuel : Nat} {context : Ptr} {st' : SemState}
    (hs : st.switch fuel context = some st') : Permits l n st' := by
  simp only [SemState.switch, Option.map_eq_some_iff] at hs
  obtain ⟨⟨sched, r⟩, hsched, rfl⟩ := hs
  have hsw := Scheduler.schedule_switched hsched
  refine ⟨hsw.listed h.listed, hsw.current_mem l h.listed h.current_mem, h.inside_mem, fun t => ?_⟩
  have htally : tally l (SemState.granted
      { st with kernel := { st.kernel with sched := sched } } t) = tally l (st.granted t) := by
    refine tally_congr fun p _ => ?_
    exact granted_congr Iff.rfl (hsw.blocked_iff p)
  rw [htally]
  exact h.balance t

theorem yieldWait (h : Permits l n st) {fuel : Nat} {s context : Ptr} {st' : SemState}
    (hpt : st.point st.current = .beforeYield s)
    (hs : st.yieldWait fuel s context = some st') : Permits l n st' := by
  have hp : Permits l n { st with point := Function.update st.point st.current (.inYield s) } := by
    refine ⟨h.listed, h.current_mem, ?_, fun t => ?_⟩
    · intro p hp
      by_cases hpc : p = st.current
      · rw [hpc]; exact h.current_mem
      · exact h.inside_mem p (by simpa [hpc] using hp)
    · have htally : tally l (SemState.granted
          { st with point := Function.update st.point st.current (.inYield s) } t) =
          tally l (st.granted t) := by
        refine tally_congr fun p _ => granted_congr ?_ Iff.rfl
        by_cases hpc : p = st.current
        · subst hpc; simp [hpt]
        · simp [hpc]
      rw [htally]
      exact h.balance t
  exact hp.switch hs

end Permits

theorem semMachine_permits {fuel : Nat} {l : List Ptr} {n : Ptr → Int} {st st' : SemState}
    {a : SemAction} (h : Permits l n st) (hi : Queues st ∧ CurrentOk st) (hnw : a.NoWrap st)
    (hs : (semMachine fuel).step st a = some st') : Permits l n st' := by
  obtain ⟨hq, hc⟩ := hi
  cases a with
  | wait s =>
      simp only [semMachine, Option.ite_none_right_eq_some, Option.some.injEq] at hs
      obtain ⟨hpt, rfl⟩ := hs
      exact h.wait hq hpt hnw
  | trywait s =>
      simp only [semMachine, Option.ite_none_right_eq_some, Option.some.injEq] at hs
      obtain ⟨_, rfl⟩ := hs
      exact h.trywait hq _ s
  | signal s =>
      simp only [semMachine, Option.ite_none_right_eq_some, Option.some.injEq] at hs
      obtain ⟨_, rfl⟩ := hs
      exact h.signal hq _ hnw
  | yield context =>
      simp only [semMachine] at hs
      split at hs
      · rename_i s hpt
        exact h.yieldWait hpt hs
      · cases hs
  | resume =>
      simp only [semMachine] at hs
      split at hs
      · rename_i s hpt
        cases hs
        exact h.resume hc hpt
      · cases hs
  | tick context => exact h.switch hs
  | irqTrywait s =>
      cases hs
      exact h.trywait hq _ s
  | irqSignal s =>
      cases hs
      exact h.signal hq _ hnw

/-- The count every semaphore was created with. -/
def SemState.initialCount (st₀ : SemState) (s : Ptr) : Int := st₀.count s

theorem SemInit.permits {l : List Ptr} {st : SemState} (h : SemInit l st) :
    Permits l st.initialCount st where
  listed := h.listed
  current_mem := h.current_mem
  inside_mem p hp := absurd (h.outside p) hp
  balance s := by
    obtain ⟨n, hn, _, hs⟩ := h.created s
    have htally : tally l (st.granted s) = 0 :=
      tally_eq_zero fun p _ => granted_eq_false fun hv => absurd hv (by simp [h.outside p])
    have hcount : st.count s = n := by simp [SemState.count, hs, semCreate]
    simp only [SemState.initialCount, hcount, h.history, htally, signals, acquisitions,
      List.countP_nil]
    omega

section Mutex

/-- Acquisitions of `s` by the process `p`. -/
def acquisitionsBy (p s : Ptr) (history : List SemEvent) : Nat :=
  history.count (.acquired (some p) s)

def signalsBy (p s : Ptr) (history : List SemEvent) : Nat :=
  history.count (.signalled (some p) s)

/-- `p` is between its `mutex_lock` and its `mutex_unlock` of `s`. -/
def Holds (p s : Ptr) (history : List SemEvent) : Prop :=
  signalsBy p s history < acquisitionsBy p s history

/-- Every unlock of `s` is made by a process that has locked it before. -/
def Disciplined (s : Ptr) : List SemEvent → Prop
  | [] => True
  | .signalled who t :: older =>
      (t = s → ∃ p, who = some p ∧ Holds p s older) ∧ Disciplined s older
  | _ :: older => Disciplined s older

/-- The locks not yet given back, as a list with one entry for each. -/
theorem exists_holders {s : Ptr} {history : List SemEvent} (h : Disciplined s history) :
    ∃ holders : List (Option Ptr),
      holders.length + signals s history = acquisitions s history ∧
      ∀ p, holders.count (some p) + signalsBy p s history = acquisitionsBy p s history := by
  induction history with
  | nil => exact ⟨[], by simp [signals, acquisitions, signalsBy, acquisitionsBy]⟩
  | cons e older ih =>
      cases e with
      | blocked p t =>
          obtain ⟨holders, hlen, hcount⟩ := ih h
          exact ⟨holders, by simpa using hlen, by simpa [signalsBy, acquisitionsBy] using hcount⟩
      | woken p t =>
          obtain ⟨holders, hlen, hcount⟩ := ih h
          exact ⟨holders, by simpa using hlen, by simpa [signalsBy, acquisitionsBy] using hcount⟩
      | acquired who t =>
          obtain ⟨holders, hlen, hcount⟩ := ih h
          by_cases ht : t = s
          · subst ht
            refine ⟨who :: holders, ?_, fun p => ?_⟩
            · rw [acquisitions_acquired, signals_acquired]
              simp only [if_true, List.length_cons]
              omega
            · have := hcount p
              simp only [signalsBy, acquisitionsBy, List.count_cons] at this ⊢
              by_cases hw : who = some p <;> simp [hw] <;> omega
          · refine ⟨holders, ?_, fun p => ?_⟩
            · simpa [acquisitions_acquired, ht] using hlen
            · have := hcount p
              simpa [signalsBy, acquisitionsBy, List.count_cons, ht] using this
      | signalled who t =>
          obtain ⟨hown, hold⟩ := h
          obtain ⟨holders, hlen, hcount⟩ := ih hold
          by_cases ht : t = s
          · subst ht
            obtain ⟨q, rfl, hq⟩ := hown rfl
            have hmem : some q ∈ holders := by
              have := hcount q
              unfold Holds at hq
              exact List.count_pos_iff.mp (by omega)
            refine ⟨holders.erase (some q), ?_, fun p => ?_⟩
            · have hpos := List.length_pos_of_mem hmem
              rw [signals_signalled, acquisitions_signalled, List.length_erase_of_mem hmem]
              simp only [if_true]
              omega
            · have := hcount p
              have hpos := List.count_pos_iff.mpr hmem
              simp only [signalsBy, acquisitionsBy, List.count_cons, List.count_erase] at this ⊢
              by_cases hpq : q = p
              · subst hpq
                simp at this ⊢
                omega
              · simp [hpq] at this ⊢
                omega
          · refine ⟨holders, ?_, fun p => ?_⟩
            · simpa [signals_signalled, ht] using hlen
            · have := hcount p
              simpa [signalsBy, acquisitionsBy, List.count_cons, ht] using this

theorem holds_unique {s : Ptr} {history : List SemEvent} (h : Disciplined s history)
    (hle : acquisitions s history ≤ 1 + signals s history) {p q : Ptr}
    (hp : Holds p s history) (hq : Holds q s history) : p = q := by
  obtain ⟨holders, hlen, hcount⟩ := exists_holders h
  have hmem : ∀ r, Holds r s history → some r ∈ holders := by
    intro r hr
    have := hcount r
    unfold Holds at hr
    exact List.count_pos_iff.mp (by omega)
  match holders, hlen, hmem with
  | [], _, hmem => exact absurd (hmem p hp) (by simp)
  | [x], _, hmem =>
      have h1 := hmem p hp
      have h2 := hmem q hq
      simp only [List.mem_singleton] at h1 h2
      exact Option.some.inj (h1.trans h2.symm)
  | _ :: _ :: _, hlen, _ =>
      simp only [List.length_cons] at hlen
      omega

end Mutex

/-- In every run in which `count` does not wrap, completed acquisitions never
exceed the initial count plus the signals; so a mutex whose unlocks follow
locks by the same process has one holder at most. -/
theorem semMachine_acquisitions_le (fuel : Nat) (l : List Ptr) (st₀ st : SemState)
    (run : List SemAction) (init : SemInit l st₀)
    (noWrap : (semMachine fuel).Meets (fun st a => a.NoWrap st) st₀ run)
    (reached : (semMachine fuel).exec st₀ run = some st) (s : Ptr) :
    (acquisitions s st.history : Int) ≤ st₀.initialCount s + signals s st.history ∧
    (st₀.kernel.sems s = semCreate 1 → Disciplined s st.history →
      ∀ p q, Holds p s st.history → Holds q s st.history → p = q) := by
  have hinv : (Queues st ∧ CurrentOk st) ∧ Permits l st₀.initialCount st := by
    refine (semMachine fuel).exec_invariant (C := fun st a => a.NoWrap st)
      (I := fun st => (Queues st ∧ CurrentOk st) ∧ Permits l st₀.initialCount st) ?_
      ⟨init.queues, init.permits⟩ noWrap reached
    rintro s a s' ⟨hi, hp⟩ hn hs
    exact ⟨semMachine_step hi hn hs, semMachine_permits hp hi hn hs⟩
  have hbal := hinv.2.balance s
  refine ⟨by omega, fun hone hdisc p q hp hq => ?_⟩
  have hn : st₀.initialCount s = 1 := by simp [SemState.initialCount, SemState.count, hone, semCreate]
  exact holds_unique hdisc (by omega) hp hq

/-- The two processes with semaphores that are mutexes. -/
def twoLockers : SemState :=
  { twoProcesses with kernel := { twoProcesses.kernel with sems := fun _ => semCreate 1 } }

theorem twoLockers_init : SemInit [8, 16] twoLockers where
  listed := twoProcesses_init.listed
  current_mem := by decide
  created s := ⟨1, by decide, by decide, rfl⟩
  unblocked := twoProcesses_init.unblocked
  outside p := rfl
  history := rfl

/-- The second process waits for mutex 1 and gets it when the first one unlocks it. -/
def lockHandover : List SemAction :=
  [.wait 1, .tick 0, .wait 1, .yield 0, .signal 1, .tick 0, .resume]

theorem semMachine_acquisitions_le_handover : ∃ st,
    (semMachine 3).exec twoLockers lockHandover = some st ∧
      (acquisitions 1 st.history : Int) ≤ twoLockers.initialCount 1 + signals 1 st.history ∧
      Holds 16 1 st.history ∧ ∀ p, Holds p 1 st.history → p = 16 := by
  have hrun : ((semMachine 3).exec twoLockers lockHandover).map SemState.history =
      some [.acquired (some 16) 1, .woken 16 1, .signalled (some 8) 1, .blocked 16 1,
        .acquired (some 8) 1] := by decide
  obtain ⟨st, hst, hhistory⟩ := Option.map_eq_some_iff.mp hrun
  have hlocked : Holds 8 1 [.blocked 16 1, .acquired (some 8) 1] := by
    rw [Holds]
    decide
  have hdisc : Disciplined 1 st.history := by
    rw [hhistory]
    exact ⟨fun _ => ⟨8, rfl, hlocked⟩, trivial⟩
  have hholds : Holds 16 1 st.history := by
    rw [hhistory, Holds]
    decide
  obtain ⟨hle, hmutex⟩ := semMachine_acquisitions_le 3 [8, 16] twoLockers st lockHandover
    twoLockers_init (by decide) hst 1
  exact ⟨st, hst, hle, hholds, fun p hp => hmutex rfl hdisc p 16 hp hholds⟩

end BayosKernel
