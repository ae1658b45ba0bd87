import Mathlib.Data.List.Find
import Mathlib.Data.List.Perm.Basic
import BayosKernel.Foundation.CyclicOrder
import BayosKernel.Process

/-!
`schedule` on a list that ends in NULL: it goes round the list once at most and
takes the first process that is neither DEAD nor BLOCKED, so that over the calls
with the same such processes each has its turn.
-/

namespace BayosKernel

open Foundation

namespace Scheduler

/-- The processes `schedule` may select. -/
def Free (k : Scheduler) (p : Ptr) : Prop := ¬(k.status p).Parked

instance (k : Scheduler) (p : Ptr) : Decidable (k.Free p) := inferInstanceAs (Decidable (¬_))

variable {k : Scheduler} {l : List Ptr}

/-- The loop looks at the processes in the order of the list behind the current one. -/
theorem following_eq (hl : k.Listed l) {p q : Ptr} {rest : List Ptr}
    (h : cycleFrom l p = q :: rest) (hp : p ∈ l) : k.following p = q := by
  obtain ⟨pre, post, rfl⟩ := List.append_of_mem hp
  rw [cycleFrom_append hl.nodup] at h
  have hnext : Chain k.next NULL (k.next p) post := hl.after
  rw [following]
  cases post with
  | nil =>
      have hnull : k.next p = NULL := hnext
      rw [if_neg (not_not.mpr hnull)]
      cases pre with
      | nil =>
          cases h
          exact hl.1
      | cons x pre =>
          cases h
          exact hl.1
  | cons x post =>
      cases h
      rw [hnext.1, if_pos hnext.2.1]

theorem scheduleLoop_eq {fuel : Nat} {pre post : List Ptr} {d : Ptr} (hl : k.Listed l)
    (hcur : k.currentProcess ∈ l) (hsplit : cycleFrom l k.currentProcess = pre ++ d :: post)
    (hpre : ∀ p ∈ pre, ¬k.Free p) (hd : k.Free d) (hfuel : pre.length < fuel) :
    scheduleLoop fuel k = some ({ k with currentProcess := d }.setStatus d .running) := by
  induction pre generalizing k fuel post with
  | nil =>
      obtain ⟨fuel, rfl⟩ := Nat.exists_eq_succ_of_ne_zero (Nat.ne_of_gt hfuel)
      have hfollow : k.following k.currentProcess = d := following_eq hl hsplit hcur
      have hmem : d ∈ l := by
        rw [← mem_cycleFrom, hsplit]
        exact List.mem_cons_self
      rw [scheduleLoop]
      simp only [hfollow, if_neg (hl.ne_null hmem), if_neg hd]
  | cons p pre ih =>
      obtain ⟨fuel, rfl⟩ := Nat.exists_eq_succ_of_ne_zero (Nat.ne_zero_of_lt hfuel)
      have hfollow : k.following k.currentProcess = p := following_eq hl hsplit hcur
      have hmem : p ∈ l := by
        rw [← mem_cycleFrom, hsplit]
        exact List.mem_cons_self
      have hparked : (k.status p).Parked := not_not.mp (hpre p List.mem_cons_self)
      have hnext : cycleFrom l p = pre ++ d :: (post ++ [p]) := by
        rw [cycleFrom_of_split (a := []) hl.nodup hsplit]
        simp
      rw [scheduleLoop]
      simp only [hfollow, if_neg (hl.ne_null hmem), if_pos hparked]
      exact ih hl hmem hnext (fun q hq => hpre q (List.mem_cons_of_mem _ hq)) hd
        (Nat.lt_of_succ_lt_succ hfuel)

/-- What one call of `schedule` does, when it returns `r`. -/
structure Selects (k : Scheduler) (l : List Ptr) (context : Ptr) (k' : Scheduler) (r : Ptr) :
    Prop where
  first : (cycleFrom l k.currentProcess).find? (fun p => decide ((k.requeue context).Free p)) =
    some k'.currentProcess
  processList : k'.processList = k.processList
  procs : ∀ p, k'.procs p = { k.procs p with
    context := if p = k.currentProcess then context else (k.procs p).context
    status :=
      if p = k'.currentProcess then .running
      else if p = k.currentProcess ∧ k.Free p then .ready
      else k.status p }
  returned : r = (k'.procs k'.currentProcess).context

theorem requeue_procs (k : Scheduler) (context p : Ptr) :
    (k.requeue context).procs p = { k.procs p with
      context := if p = k.currentProcess then context else (k.procs p).context
      status := if p = k.currentProcess ∧ k.Free p then .ready else k.status p } := by
  by_cases hp : p = k.currentProcess
  · subst hp
    rw [requeue, modify_procs_self]
    by_cases hparked : (k.procs k.currentProcess).status.Parked <;>
      simp [Free, status, hparked]
  · rw [requeue, modify_procs_ne k hp]
    simp [hp, status]

theorem requeue_listed (context : Ptr) (hl : k.Listed l) : (k.requeue context).Listed l :=
  Chain.congr hl fun x _ => requeue_field k context x Process.next fun _ _ _ => rfl

theorem requeue_free_iff (context p : Ptr) : (k.requeue context).Free p ↔ k.Free p :=
  not_congr (requeue_parked_iff k context p)

theorem schedule_of_loop {fuel : Nat} {k' : Scheduler} {context : Ptr}
    (h : scheduleLoop fuel (k.requeue context) = some k') :
    schedule fuel k context = some (k', (k'.procs k'.currentProcess).context) := by
  rw [schedule, h, Option.map_some]

/-- `schedule` comes back after one round of the list. -/
theorem schedule_selects {fuel : Nat} (context : Ptr) (hl : k.Listed l)
    (hcur : k.currentProcess ∈ l) (hfree : ∃ p ∈ l, (k.requeue context).Free p)
    (hfuel : l.length ≤ fuel) :
    ∃ k' r, schedule fuel k context = some (k', r) ∧ Selects k l context k' r := by
  obtain ⟨d, hfind⟩ : ∃ d, (cycleFrom l k.currentProcess).find?
      (fun p => decide ((k.requeue context).Free p)) = some d := by
    obtain ⟨p, hp, hpfree⟩ := hfree
    rw [← Option.isSome_iff_exists, List.find?_isSome]
    exact ⟨p, mem_cycleFrom.mpr hp, decide_eq_true hpfree⟩
  obtain ⟨hd, pre, post, hsplit, hpre⟩ := List.find?_eq_some_iff_append.mp hfind
  have hlength : pre.length < l.length := by
    have := congrArg List.length hsplit
    rw [length_cycleFrom, List.length_append, List.length_cons] at this
    omega
  have hloop := scheduleLoop_eq (requeue_listed context hl) (k := k.requeue context) hcur hsplit
    (fun p hp => by simpa using hpre p hp) (of_decide_eq_true hd)
    (Nat.lt_of_lt_of_le hlength hfuel)
  refine ⟨_, _, schedule_of_loop hloop, hfind, rfl, fun p => ?_, rfl⟩
  by_cases hp : p = d
  · subst hp
    simp [setStatus, modify, requeue_procs]
  · simp [setStatus, modify, requeue_procs, hp]

/-- The list and the processes of it that may be selected. -/
structure Steady (l : List Ptr) (free : Ptr → Bool) (k : Scheduler) : Prop where
  listed : k.Listed l
  current : k.currentProcess ∈ l
  free : ∀ p ∈ l, k.Free p ↔ free p = true

/-- Calls of `schedule` one after another; between two of them anything may happen
that changes neither the list nor which of its processes may be selected. `sel` are
the processes selected. -/
inductive Turns (fuel : Nat) (l : List Ptr) (free : Ptr → Bool) : Scheduler → List Ptr → Prop
  | done (k : Scheduler) : Turns fuel l free k []
  | turn {k k' k'' : Scheduler} {context r : Ptr} {sel : List Ptr}
      (hcall : schedule fuel k context = some (k', r))
      (hsame : k''.currentProcess = k'.currentProcess) (hsteady : Steady l free k'')
      (hrest : Turns fuel l free k'' sel) : Turns fuel l free k (k'.currentProcess :: sel)

/-- The selected processes come up in the order of the list. -/
theorem Turns.eq_take {fuel : Nat} {free : Ptr → Bool} {sel : List Ptr}
    (h : Turns fuel l free k sel) (hk : Steady l free k) (hfuel : l.length ≤ fuel)
    (hlength : sel.length ≤ (l.filter free).length) :
    sel = ((cycleFrom l k.currentProcess).filter free).take sel.length := by
  induction h with
  | done k => rfl
  | @turn k k' k'' context r sel hcall hsame hsteady _ ih =>
      rw [List.length_cons] at hlength ⊢
      have hany : ∃ p ∈ l, (k.requeue context).Free p := by
        obtain ⟨p, hp⟩ := List.exists_mem_of_length_pos (Nat.lt_of_lt_of_le (Nat.succ_pos _) hlength)
        obtain ⟨hp, hpfree⟩ := List.mem_filter.mp hp
        exact ⟨p, hp, (requeue_free_iff context p).mpr ((hk.free p hp).mpr hpfree)⟩
      obtain ⟨k₁, r₁, hcall₁, hselects⟩ := schedule_selects context hk.listed hk.current hany hfuel
      rw [hcall₁] at hcall
      cases hcall
      have hfind : (cycleFrom l k.currentProcess).find? free = some k'.currentProcess := by
        rw [← hselects.first]
        refine List.find?_congr fun p hp => ?_
        rw [Bool.eq_iff_iff, decide_eq_true_iff, requeue_free_iff]
        exact (hk.free p (mem_cycleFrom.mp hp)).symm
      obtain ⟨rest, hnow, hthen⟩ := filter_cycleFrom hk.listed.nodup hfind
      have hcount : (l.filter free).length = rest.length + 1 := by
        rw [← ((List.rotate_perm l _).filter free).length_eq, ← cycleFrom, hnow, List.length_cons]
      have hsel := ih hsteady (Nat.le_of_succ_le hlength)
      rw [hsame, hthen, List.take_append_of_le_length (by omega)] at hsel
      rw [hnow, List.take_succ_cons, ← hsel]

/-- `schedule` selects the next process that is neither DEAD nor BLOCKED, and over
as many calls as there are such processes it selects each exactly once. -/
theorem schedule_roundRobin :
    (∀ fuel k l context, Listed k l → k.currentProcess ∈ l →
      (∃ p ∈ l, (k.requeue context).Free p) → l.length ≤ fuel →
      ∃ k' r, schedule fuel k context = some (k', r) ∧ Selects k l context k' r) ∧
    ∀ fuel l free k sel, Steady l free k → l.length ≤ fuel → Turns fuel l free k sel →
      sel.length = (l.filter free).length → ∀ p ∈ l, free p = true → sel.count p = 1 := by
  refine ⟨fun _ _ _ context hl hcur hfree hfuel => schedule_selects context hl hcur hfree hfuel,
    fun fuel l free k sel hk hfuel hturns hlength p hp hpfree => ?_⟩
  have hperm := (List.rotate_perm l (l.idxOf k.currentProcess + 1)).filter free
  have hsel := hturns.eq_take hk hfuel (Nat.le_of_eq hlength)
  rw [hlength, ← hperm.length_eq, ← cycleFrom, List.take_length] at hsel
  rw [hsel, cycleFrom, hperm.count_eq]
  exact List.count_eq_one_of_mem (hk.listed.nodup.filter _) (List.mem_filter.mpr ⟨hp, hpfree⟩)

/-- The running process 1, the blocked process 2 and the ready process 3. -/
def threeProcesses : Scheduler where
  procs p :=
    if p = 1 then { Process.zeroed with status := .running, next := 2 }
    else if p = 2 then { Process.zeroed with status := .blocked, next := 3 }
    else Process.zeroed
  processList := 1
  currentProcess := 1

def afterTurn (k : Scheduler) (context d : Ptr) : Scheduler :=
  { k.requeue context with currentProcess := d }.setStatus d .running

theorem threeProcesses_turns :
    (∃ k' r, schedule 3 threeProcesses 7 = some (k', r) ∧ Selects threeProcesses [1, 2, 3] 7 k' r) ∧
      ∀ p ∈ [1, 2, 3], decide (p ≠ 2) = true → List.count p [3, 1] = 1 := by
  have hsteady : ∀ k, k.processList = 1 → k.currentProcess ∈ [1, 2, 3] →
      [1, 2, 3].map k.next = [2, 3, NULL] → [1, 2, 3].map (fun p => decide (k.Free p)) =
        [true, false, true] → Steady [1, 2, 3] (fun p => decide (p ≠ 2)) k := by
    intro k hhead hcur hnext hfree
    simp only [List.map_cons, List.map_nil, List.cons.injEq, and_true, decide_eq_true_eq,
      decide_eq_false_iff_not] at hnext hfree
    obtain ⟨h₁, h₂, h₃⟩ := hnext
    obtain ⟨h₁', h₂', h₃'⟩ := hfree
    refine ⟨⟨hhead, by decide, h₁, by decide, h₂, by decide, h₃⟩, hcur, fun p hp => ?_⟩
    rcases List.mem_cons.mp hp with rfl | hp
    · simp [h₁']
    · rcases List.mem_cons.mp hp with rfl | hp
      · simp [h₂']
      · obtain rfl := List.mem_singleton.mp hp
        simp [h₃']
  have hfirst : schedule 3 threeProcesses 7 = some (afterTurn threeProcesses 7 3, 0) := rfl
  have hsecond : schedule 3 (afterTurn threeProcesses 7 3) 8 =
      some (afterTurn (afterTurn threeProcesses 7 3) 8 1, 7) := rfl
  have hturns : Turns 3 [1, 2, 3] (fun p => decide (p ≠ 2)) threeProcesses [3, 1] :=
    .turn hfirst rfl (hsteady _ rfl (by decide) (by decide) (by decide))
      (.turn hsecond rfl (hsteady _ rfl (by decide) (by decide) (by decide)) (.done _))
  exact ⟨schedule_roundRobin.1 3 _ _ 7 (hsteady _ rfl (by decide) (by decide) (by decide)).listed
    (by decide) ⟨3, by decide, by decide⟩ (by decide),
    schedule_roundRobin.2 3 _ _ _ _ (hsteady _ rfl (by decide) (by decide) (by decide)) (by decide)
      hturns (by decide)⟩

end Scheduler

end BayosKernel
