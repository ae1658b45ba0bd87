import BayosKernel.Foundation.ListOrder
import BayosKernel.ProcessListRuns

/-!
Several waitpid calls at once, with ticks between any two statements of
`remove_proc_from_list`.

A call that is on course has its `current` in front of its target. Another call
throws it off when it unlinks the struct on which it stands, or makes its
target the direct successor after it has looked at the successor. Without such
a moment every struct is unlinked before it is freed, and freed once.
-/

namespace BayosKernel

open Foundation

/-- Unlinking `x` throws the call off its course: it stands on `x`, or its
target takes the place of `x` after the call has looked there. -/
def ListPoint.Disturbed (k : Scheduler) (x : Ptr) : ListPoint → Prop
  | .start c => k.processList = x ∧ k.next x = c
  | .loop _ current | .test _ current | .unlink _ current => current = x
  | .advance c current => current = x ∨ k.next current = x ∧ k.next x = c
  | _ => False

instance (k : Scheduler) (x : Ptr) (pt : ListPoint) : Decidable (pt.Disturbed k x) := by
  cases pt <;> simp only [ListPoint.Disturbed] <;> infer_instance

/-- A statement that unlinks a process disturbs no other call. -/
def ListState.Undisturbed (st : ListState) : ListPoint → Prop
  | .headSet x | .unlink x _ => ∀ q ∈ st.unreaped, ¬(st.code q).Disturbed st.sched x
  | _ => True

instance (st : ListState) (pt : ListPoint) : Decidable (st.Undisturbed pt) := by
  cases pt <;> simp only [ListState.Undisturbed] <;> infer_instance

/-- The conditions on forks and waitpids, and no unlinking disturbs another call. -/
def ListAction.Apart (fuel : Nat) (st : ListState) : ListAction → Prop
  | .run context => (ListAction.run context).Ordered fuel st ∧
      st.Undisturbed (st.code st.current)
  | a => a.Ordered fuel st

instance (fuel : Nat) (st : ListState) (a : ListAction) : Decidable (a.Apart fuel st) :=
  match a with
  | .run context => inferInstanceAs (Decidable
      ((ListAction.run context).Ordered fuel st ∧ st.Undisturbed (st.code st.current)))
  | .addProcess p stack cr3 =>
      inferInstanceAs (Decidable ((ListAction.addProcess p stack cr3).Ordered fuel st))
  | .fork p cr3 resources context =>
      inferInstanceAs (Decidable ((ListAction.fork p cr3 resources context).Ordered fuel st))
  | .exit => inferInstanceAs (Decidable (ListAction.exit.Ordered fuel st))
  | .waitpid pid status =>
      inferInstanceAs (Decidable ((ListAction.waitpid pid status).Ordered fuel st))
  | .tick context => inferInstanceAs (Decidable ((ListAction.tick context).Ordered fuel st))

theorem ListAction.Apart.ordered {fuel : Nat} {st : ListState} {a : ListAction}
    (h : a.Apart fuel st) : a.Ordered fuel st := by
  cases a with
  | run context => exact h.1
  | _ => exact h

/-- The target of a reaping call is still ahead of it. -/
def ListPoint.OnCourse (k : Scheduler) (l : List Ptr) : ListPoint → Prop
  | .headSet c => k.processList = c
  | .start c => k.processList ≠ c
  | .loop c current | .test c current => [current, c].Sublist l
  | .unlink c current => [current, c].Sublist l ∧ k.next current = c
  | .advance c current => [current, c].Sublist l ∧ k.next current ≠ c
  | _ => True

namespace ListPoint.OnCourse

variable {k k' : Scheduler} {l : List Ptr} {pt : ListPoint}

theorem congr (h : pt.OnCourse k l) (hlist : k'.processList = k.processList)
    (hnext : ∀ x ∈ l, k'.next x = k.next x) : pt.OnCourse k' l := by
  cases pt with
  | headSet c | start c => simpa only [OnCourse, hlist] using h
  | unlink c current | advance c current =>
      exact ⟨h.1, by rw [hnext current (before_left_mem h.1)]; exact h.2⟩
  | _ => exact h

/-- Appending a process behind the last one. -/
theorem append (h : pt.OnCourse k l) (hl : k.Listed l) {p last : Ptr} (hp : p ∉ l)
    (hlast : k.next last = NULL) : pt.OnCourse (k.setNext last p) (l ++ [p]) := by
  cases pt with
  | loop c current | test c current => exact before_append h [p]
  | unlink c current =>
      refine ⟨before_append h.1 [p], ?_⟩
      have hne : current ≠ last := by
        rintro rfl
        exact hl.ne_null (before_right_mem h.1) (h.2.symm.trans hlast)
      rw [Scheduler.setNext_next, Function.update_of_ne hne]
      exact h.2
  | advance c current =>
      refine ⟨before_append h.1 [p], ?_⟩
      rw [Scheduler.setNext_next]
      by_cases hcl : current = last
      · rw [hcl, Function.update_self]
        rintro rfl
        exact hp (before_right_mem h.1)
      · rw [Function.update_of_ne hcl]
        exact h.2
  | _ => exact h

/-- Another process `x` is unlinked behind `y`. -/
theorem unlink_other (h : pt.OnCourse k l) {x y : Ptr} (hstruct : pt.struct ≠ some x)
    (hfree : ¬pt.Disturbed k x) (hy : k.next y = x) :
    pt.OnCourse (k.setNext y (k.next x)) (l.erase x) := by
  cases pt with
  | loop c current | test c current =>
      exact before_erase h (Ne.symm hfree) (by rintro rfl; exact hstruct rfl)
  | unlink c current =>
      refine ⟨before_erase h.1 (Ne.symm hfree) (by rintro rfl; exact hstruct rfl), ?_⟩
      have hne : current ≠ y := by
        rintro rfl
        exact hstruct (by rw [← hy, h.2]; rfl)
      rw [Scheduler.setNext_next, Function.update_of_ne hne]
      exact h.2
  | advance c current =>
      simp only [Disturbed, not_or, not_and] at hfree
      refine ⟨before_erase h.1 (Ne.symm hfree.1) (by rintro rfl; exact hstruct rfl), ?_⟩
      rw [Scheduler.setNext_next]
      by_cases hcy : current = y
      · rw [hcy, Function.update_self]
        exact hfree.2 (hcy ▸ hy)
      · rw [Function.update_of_ne hcy]
        exact h.2
  | _ => exact h

/-- Another process is taken off the head of the list. -/
theorem headSet_other (h : pt.OnCourse k l) {x : Ptr} (hstruct : pt.struct ≠ some x)
    (hfree : ¬pt.Disturbed k x) (hhead : k.processList = x) :
    pt.OnCourse { k with processList := k.next k.processList } (l.erase x) := by
  cases pt with
  | headSet c => exact absurd (by rw [← hhead, show k.processList = c from h]; rfl) hstruct
  | start c =>
      intro hc
      exact hfree ⟨hhead, by rw [← hhead]; exact hc⟩
  | loop c current | test c current =>
      exact before_erase h (Ne.symm hfree) (by rintro rfl; exact hstruct rfl)
  | unlink c current =>
      exact ⟨before_erase h.1 (Ne.symm hfree) (by rintro rfl; exact hstruct rfl), h.2⟩
  | advance c current =>
      simp only [Disturbed, not_or, not_and] at hfree
      exact ⟨before_erase h.1 (Ne.symm hfree.1) (by rintro rfl; exact hstruct rfl), h.2⟩
  | _ => exact h

end ListPoint.OnCourse

def Course (st : ListState) : Prop := ∀ q, (st.code q).OnCourse st.sched st.unreaped

namespace Scheduler.Listed

variable {k : Scheduler} {l : List Ptr}

/-- A process with another one behind it points to the process behind it. -/
theorem next_of_before (h : k.Listed l) {a b : Ptr} (hab : [a, b].Sublist l) :
    k.next a ≠ NULL ∧ (k.next a ≠ b → [k.next a, b].Sublist l) := by
  obtain ⟨xs, rest, rfl⟩ := List.append_of_mem (before_left_mem hab)
  have hb : b ∈ rest := mem_behind h.nodup hab
  cases rest with
  | nil => simp at hb
  | cons y ys =>
      have hy : k.next a = y := Chain.next_eq h
      refine ⟨?_, fun hne => ?_⟩
      · rw [hy]
        exact h.ne_null (by simp)
      · rw [hy] at hne ⊢
        have hys : b ∈ ys := (List.mem_cons.mp hb).resolve_left (Ne.symm hne)
        exact (before_of_mem hys).trans (by simp [List.sublist_append_of_sublist_right])

/-- The list around a process and its successor. -/
theorem split_next (h : k.Listed l) {a b : Ptr} (ha : a ∈ l) (hab : k.next a = b) (hb : b ≠ NULL) :
    ∃ xs ys, l = xs ++ a :: b :: ys := by
  obtain ⟨xs, rest, rfl⟩ := List.append_of_mem ha
  cases rest with
  | nil => exact absurd (hab.symm.trans (Chain.last_next h)) hb
  | cons y ys =>
      have hy : k.next a = y := Chain.next_eq h
      exact ⟨xs, ys, by rw [← hab, hy]⟩

end Scheduler.Listed

namespace Course

variable {st st' : ListState}

/-- The current process moves on and the list stays as it is. -/
theorem move (h : Course st) {b : ListPoint}
    (hcode : st'.code = Function.update st.code st.current b)
    (hlist : st'.sched.processList = st.sched.processList)
    (hnext : ∀ x ∈ st.unreaped, st'.sched.next x = st.sched.next x)
    (hunreaped : st'.unreaped = st.unreaped) (hb : b.OnCourse st.sched st.unreaped) :
    Course st' := by
  intro q
  rw [hunreaped]
  refine ListPoint.OnCourse.congr ?_ hlist hnext
  by_cases hq : q = st.current
  · rw [hcode, hq, Function.update_self]
    exact hb
  · rw [hcode, Function.update_of_ne hq]
    exact h q

theorem goto (h : Course st) {b : ListPoint} (hb : b.OnCourse st.sched st.unreaped) :
    Course (st.goto b) :=
  h.move rfl rfl (fun _ _ => rfl) rfl hb

theorem switch (h : Course st) {fuel : Nat} {context : Ptr}
    (hs : st.switch fuel context = some st') : Course st' := by
  obtain ⟨⟨sched, r⟩, hsched, rfl⟩ := Option.map_eq_some_iff.mp hs
  have hsw := Scheduler.schedule_switched hsched
  exact fun q => (h q).congr hsw.processList fun x _ => hsw.next_eq x

theorem insert (h : Course st) (hc : Custody st) {fuel : Nat} {p : Ptr} {fork : Bool}
    (hcode : st.code st.current = .inserting p fork) (hs : st.insert fuel p fork = some st') :
    Course st' := by
  obtain ⟨sched, hins, rfl⟩ := Option.map_eq_some_iff.mp hs
  have hp : (st.code st.current).struct = some p := by rw [hcode]; rfl
  have hnot : p ∉ st.unreaped := (hc.detached _ p hp).mp (by rw [hcode]; rfl)
  obtain ⟨_, last, _, hlast, rfl⟩ := hc.listed.insertProcess hc.ne_nil hnot
    (hc.heap_ne_null p (hc.struct_heap _ p hp)) (hc.filled _ p fork hcode).1 hins
  intro q
  simp only
  by_cases hq : q = st.current
  · rw [hq, Function.update_self]
    cases fork <;> trivial
  · rw [Function.update_of_ne hq]
    by_cases hqp : q = p
    · rw [hqp, Function.update_self]
      trivial
    · rw [Function.update_of_ne hqp]
      exact (h q).append hc.listed hnot hlast

/-- A call that frees or fills a struct, or waits, has no course to keep. -/
theorem statement (h : Course st) (hc : Custody st) {fuel : Nat} {context : Ptr}
    (hs : st.statement fuel context (st.code st.current) = some st') : Course st' := by
  cases hcode : st.code st.current with
  | exited =>
      rw [hcode] at hs
      exact h.switch hs
  | yielding =>
      rw [hcode] at hs
      exact Course.switch (h.goto (b := .idle) trivial) hs
  | addFill p _ _ | forkCopy p _ _ _ =>
      have hnot : p ∉ st.unreaped := (hc.detached st.current p (by rw [hcode]; rfl)).mp
        (by rw [hcode]; rfl)
      simp only [hcode, ListState.statement, Option.some.injEq] at hs
      subst hs
      refine h.move rfl rfl (fun x hx => ?_) rfl trivial
      have hxp : x ≠ p := fun he => hnot (he ▸ hx)
      simp [ListState.addFill, ListState.forkCopy, ListState.setProc, ListState.goto,
        Scheduler.next, Scheduler.modify_procs_ne _ hxp]
  | inserting p fork =>
      rw [hcode] at hs
      exact h.insert hc hcode hs
  | waiting c =>
      simp only [hcode, ListState.statement] at hs
      split at hs
      · cases hs
        exact h.goto trivial
      · exact h.switch hs
  | freeing c =>
      simp only [hcode, ListState.statement, Option.some.injEq] at hs
      subst hs
      exact h.move rfl rfl (fun _ _ => rfl) rfl trivial
  | idle | removing _ | headSet _ | start _ | loop _ _ | test _ _ | unlink _ _ | advance _ _
  | clearNext _ =>
      rw [hcode] at hs
      cases hs

end Course

/-- Everything a call of `waitpid_syscall` does to the list is sound: custody and course. -/
structure Reapable (st : ListState) : Prop where
  custody : Custody st
  course : Course st

namespace Reapable

variable {st st' : ListState} {fuel : Nat}

theorem goto (h : Reapable st) {c : Ptr} {b : ListPoint}
    (hreap : (st.code st.current).reaping = true) (hc : (st.code st.current).struct = some c)
    (hb : b.struct = some c) (hbreap : b.reaping = true)
    (hcourse : b.OnCourse st.sched st.unreaped) : Reapable (st.goto b) := by
  refine ⟨h.custody.goto (fun d hd => ?_) (fun d _ hd => ?_) ?_ ?_, h.course.goto hcourse⟩
  · rw [hb] at hd
    cases hd
    refine ⟨hc, ?_⟩
    rw [ListPoint.not_detached_of_reaping hbreap, ListPoint.not_detached_of_reaping hreap]
  · rw [hb] at hd
    cases hd
    exact h.custody.doomed _ c hreap hc
  · intro he
    rw [he] at hreap
    cases hreap
  · rintro p fork rfl
    cases hbreap

/-- The unlinking statements: the list loses the target of the call. -/
theorem unlink (h : Reapable st) {c : Ptr} {sched : Scheduler}
    (hreap : (st.code st.current).reaping = true) (hc : (st.code st.current).struct = some c)
    (hlisted : sched.Listed (st.unreaped.erase c)) (hstatus : sched.status = st.sched.status)
    (hcur : sched.currentProcess = st.sched.currentProcess)
    (hnext : ∀ q, q ∉ st.unreaped → sched.next q = st.sched.next q)
    (hother : ∀ q, (st.code q).struct ≠ some c → (st.code q).OnCourse sched (st.unreaped.erase c)) :
    Reapable ({ st with sched := sched, unreaped := st.unreaped.erase c }.goto (.clearNext c)) := by
  have hcode : ({ st with sched := sched, unreaped := st.unreaped.erase c }.goto
      (.clearNext c)).code = Function.update st.code st.current (.clearNext c) := by
    simp only [ListState.goto, ListState.current, hcur]
  refine ⟨h.custody.unlink hreap hc rfl rfl (by simp) hcode rfl rfl hlisted hstatus hcur hnext,
    fun q => ?_⟩
  rw [hcode]
  by_cases hq : q = st.current
  · rw [hq, Function.update_self]
    trivial
  · rw [Function.update_of_ne hq]
    exact hother q fun hs => hq (h.custody.unique q _ c hs hc)

/-- A process outside of the list is in no call, so the list's processes are all there is. -/
theorem not_disturbed (h : Reapable st) {x : Ptr}
    (hclear : ∀ q ∈ st.unreaped, ¬(st.code q).Disturbed st.sched x) (q : Ptr) :
    ¬(st.code q).Disturbed st.sched x := by
  by_cases hq : q ∈ st.unreaped
  · exact hclear q hq
  · have hnone := h.custody.outside q hq
    cases hc : st.code q <;> simp_all [ListPoint.struct, ListPoint.Disturbed]

/-- The target is the first process of the list. -/
theorem headSet (h : Reapable st) {c : Ptr} (hcode : st.code st.current = .headSet c)
    (hclear : st.Undisturbed (.headSet c)) (hs : st.removeStatement (.headSet c) = some st') :
    Reapable st' := by
  have hreap : (st.code st.current).reaping = true := by rw [hcode]; rfl
  have hc : (st.code st.current).struct = some c := by rw [hcode]; rfl
  have hlisted := h.custody.listed
  have hhead : st.sched.processList = c := by
    have hcourse := h.course st.current
    rw [hcode] at hcourse
    exact hcourse
  have hfree := h.not_disturbed hclear
  simp only [ListState.removeStatement, Option.some.injEq] at hs
  subst hs
  refine h.unlink hreap hc ?_ rfl rfl (fun q _ => rfl) fun q hq =>
    (h.course q).headSet_other hq (hfree q) hhead
  cases hl : st.unreaped with
  | nil => exact absurd hl h.custody.ne_nil
  | cons x xs =>
      rw [hl] at hlisted
      have hx : x = c := hlisted.1.symm.trans hhead
      rw [hx, List.erase_cons_head]
      exact hlisted.tail

/-- The target is behind `current`, which goes on with the process behind it. -/
theorem unlinkNext (h : Reapable st) {c current : Ptr}
    (hcode : st.code st.current = .unlink c current)
    (hclear : st.Undisturbed (.unlink c current))
    (hs : st.removeStatement (.unlink c current) = some st') : Reapable st' := by
  have hreap : (st.code st.current).reaping = true := by rw [hcode]; rfl
  have hc : (st.code st.current).struct = some c := by rw [hcode]; rfl
  have hmem := h.custody.reaping_mem hreap hc
  have hfree := h.not_disturbed hclear
  have hlisted := h.custody.listed
  have hcourse := h.course st.current
  rw [hcode] at hcourse
  obtain ⟨hbefore, hnext⟩ := hcourse
  have hcur := before_left_mem hbefore
  simp only [ListState.removeStatement, Option.some.injEq] at hs
  subst hs
  refine h.unlink hreap hc ?_ (Scheduler.setNext_status _ _ _) rfl (fun q hq => ?_)
    fun q hq => (h.course q).unlink_other hq (hfree q) hnext
  · obtain ⟨xs, ys, hl⟩ := hlisted.split_next hcur hnext (hlisted.ne_null hmem)
    rw [hl] at hlisted ⊢
    rw [Scheduler.erase_middle hlisted.nodup]
    exact hlisted.unlink
  · have hne : q ≠ current := fun he => hq (he ▸ hcur)
    rw [Scheduler.setNext_next, Function.update_of_ne hne]

/-- The target has left the list when its `next` is cleared. -/
theorem clearNext (h : Reapable st) {c : Ptr} (hcode : st.code st.current = .clearNext c)
    (hs : st.removeStatement (.clearNext c) = some st') : Reapable st' := by
  have hc : (st.code st.current).struct = some c := by rw [hcode]; rfl
  have hnot : c ∉ st.unreaped := (h.custody.detached _ c hc).mp (by rw [hcode]; rfl)
  have hlisted := h.custody.listed
  have hkeep : ∀ x, x ≠ c → (st.sched.setNext c NULL).next x = st.sched.next x := fun x hx => by
    rw [Scheduler.setNext_next, Function.update_of_ne hx]
  simp only [ListState.removeStatement, Option.some.injEq] at hs
  subst hs
  refine ⟨h.custody.move rfl rfl (hlisted.setNext_notMem hnot NULL) h.custody.current_mem
    (fun p hp => .inl hp) h.custody.heap_nodup h.custody.heap_ne_null (fun d hd => ?_)
    (fun p _ hd => ?_) (fun p hp hd => ?_) (fun d hr _ => by cases hr)
    (fun q p fork hq => ?_), ?_⟩
  · cases hd
    exact ⟨h.custody.struct_heap _ c hc, by simp [ListPoint.detached, hnot],
      fun q hq => h.custody.unique q _ c hq hc⟩
  · exact (congrFun (Scheduler.setNext_status _ _ _) p).trans hd
  · have hd' : st.sched.status p = .dead :=
      (congrFun (Scheduler.setNext_status st.sched c NULL) p).symm.trans hd
    have hpc : p ≠ st.current := by
      rintro rfl
      exact h.custody.current_not_dead (by simp [hcode]) hd'
    exact (Function.update_of_ne hpc _ _).trans (h.custody.dead p hp hd')
  · by_cases hqc : q = st.current
    · rw [hqc] at hq
      cases (Function.update_self _ _ _).symm.trans hq
    · have hq' : st.code q = .inserting p fork := (Function.update_of_ne hqc _ _).symm.trans hq
      have hpc : p ≠ c := by
        rintro rfl
        exact hqc (h.custody.unique q _ p (by rw [hq']; rfl) hc)
      obtain ⟨hn, hst⟩ := h.custody.filled q p fork hq'
      refine ⟨(hkeep p hpc).trans hn, fun hd => hst ?_⟩
      exact (congrFun (Scheduler.setNext_status st.sched c NULL) p).symm.trans hd
  · exact h.course.move rfl rfl (fun x hx => hkeep x fun he => hnot (he ▸ hx)) rfl trivial

/-- One statement of `remove_proc_from_list`, by the point of the call. -/
theorem removeStatement (h : Reapable st) (hclear : st.Undisturbed (st.code st.current))
    (hs : st.removeStatement (st.code st.current) = some st') : Reapable st' := by
  have hcourse := h.course st.current
  have hlisted := h.custody.listed
  cases hcode : st.code st.current with
  | removing c =>
      have hreap : (st.code st.current).reaping = true := by rw [hcode]; rfl
      have hc : (st.code st.current).struct = some c := by rw [hcode]; rfl
      have hmem := h.custody.reaping_mem hreap hc
      have hnull : ¬(c = NULL ∨ st.sched.processList = NULL) := by
        rintro (hn | hn)
        · exact hlisted.ne_null hmem hn
        · exact h.custody.ne_nil (hlisted.head_null_iff.mp hn)
      simp only [hcode, ListState.removeStatement, hnull, if_false] at hs
      split at hs
      · rename_i hhead
        cases hs
        exact h.goto hreap hc rfl rfl hhead
      · rename_i hhead
        cases hs
        exact h.goto hreap hc rfl rfl hhead
  | headSet c =>
      rw [hcode] at hclear hs
      exact h.headSet hcode hclear hs
  | start c =>
      have hreap : (st.code st.current).reaping = true := by rw [hcode]; rfl
      have hc : (st.code st.current).struct = some c := by rw [hcode]; rfl
      have hmem := h.custody.reaping_mem hreap hc
      rw [hcode] at hcourse
      simp only [hcode, ListState.removeStatement, Option.some.injEq] at hs
      subst hs
      refine h.goto hreap hc rfl rfl ?_
      cases hl : st.unreaped with
      | nil => exact absurd hl h.custody.ne_nil
      | cons x xs =>
          rw [hl] at hlisted hmem
          have hhead : st.sched.processList ≠ c := hcourse
          rw [hlisted.1] at hhead ⊢
          exact before_of_mem ((List.mem_cons.mp hmem).resolve_left (Ne.symm hhead))
  | loop c current =>
      rw [hcode] at hcourse
      have hne := (hlisted.next_of_before hcourse).1
      simp only [hcode, ListState.removeStatement, hne, ne_eq, not_false_eq_true, if_true,
        Option.some.injEq] at hs
      subst hs
      exact h.goto (by rw [hcode]; rfl) (by rw [hcode]; rfl) rfl rfl hcourse
  | test c current =>
      rw [hcode] at hcourse
      simp only [hcode, ListState.removeStatement] at hs
      split at hs
      · rename_i heq
        cases hs
        exact h.goto (by rw [hcode]; rfl) (by rw [hcode]; rfl) rfl rfl ⟨hcourse, heq⟩
      · rename_i hne
        cases hs
        exact h.goto (by rw [hcode]; rfl) (by rw [hcode]; rfl) rfl rfl ⟨hcourse, hne⟩
  | unlink c current =>
      rw [hcode] at hclear hs
      exact h.unlinkNext hcode hclear hs
  | advance c current =>
      rw [hcode] at hcourse
      have hahead := (hlisted.next_of_before hcourse.1).2 hcourse.2
      simp only [hcode, ListState.removeStatement, Option.some.injEq] at hs
      subst hs
      exact h.goto (by rw [hcode]; rfl) (by rw [hcode]; rfl) rfl rfl hahead
  | clearNext c =>
      rw [hcode] at hs
      exact h.clearNext hcode hs
  | idle | exited | yielding | addFill _ _ _ | forkCopy _ _ _ _ | inserting _ _ | waiting _
  | freeing _ =>
      rw [hcode] at hs
      cases hs

end Reapable

theorem Course.alloc {st st' : ListState} (h : Course st) {p : Ptr} {b : ListPoint}
    (hb : b.OnCourse st.sched st.unreaped) (hs : st.alloc p b = some st') : Course st' := by
  simp only [ListState.alloc, Option.ite_none_left_eq_some, Option.some.injEq] at hs
  obtain ⟨_, rfl⟩ := hs
  exact h.move rfl rfl (fun _ _ => rfl) rfl hb

/-- One step of the machine, of whatever process, keeps the list reapable. -/
theorem reapMachine_reapable {fuel : Nat} {st st' : ListState} {a : ListAction}
    (h : Reapable st) (hapart : a.Apart fuel st)
    (hs : (reapMachine fuel).step st a = some st') : Reapable st' := by
  have hremove : ∀ context st'', a = .run context →
      st.removeStatement (st.code st.current) = some st'' → Reapable st'' := by
    rintro context st'' rfl hr
    exact h.removeStatement hapart.2 hr
  cases a with
  | addProcess p stack cr3 =>
      simp only [reapMachine, ListState.step, Option.ite_none_right_eq_some] at hs
      exact ⟨h.custody.alloc hs.1 rfl rfl (by simp) hs.2, h.course.alloc (by trivial) hs.2⟩
  | fork p cr3 resources context =>
      simp only [reapMachine, ListState.step, Option.ite_none_right_eq_some] at hs
      exact ⟨h.custody.alloc hs.1 rfl rfl (by simp) hs.2, h.course.alloc (by trivial) hs.2⟩
  | exit =>
      simp only [reapMachine, ListState.step, Option.ite_none_right_eq_some,
        Option.some.injEq] at hs
      obtain ⟨hidle, rfl⟩ := hs
      refine ⟨h.custody.exit hidle, h.course.move rfl rfl (fun x _ => ?_) rfl trivial⟩
      exact Scheduler.setStatus_next st.sched st.current .dead x
  | waitpid pid status =>
      simp only [reapMachine, ListState.step, Option.ite_none_right_eq_some] at hs
      refine ⟨h.custody.waitpid hs.1 hapart.ordered hs.2, ?_⟩
      obtain ⟨_, hs⟩ := hs
      simp only [ListState.waitpid] at hs
      split at hs
      · cases hs
        exact h.course
      · obtain ⟨c, _, rfl⟩ := Option.map_eq_some_iff.mp hs
        split
        · exact h.course
        · exact h.course.goto trivial
  | run context =>
      simp only [reapMachine, ListState.step] at hs
      split at hs
      · rename_i st'' hr
        cases hs
        exact hremove context _ rfl hr
      · exact ⟨h.custody.statement hapart.ordered hs, h.course.statement h.custody hs⟩
  | tick context => exact ⟨h.custody.switch hs, h.course.switch hs⟩

/-- The list is well-formed and made of the processes that were inserted and
not reaped, all of them allocated; a struct that a waitpid is about to free is
allocated, so it is freed once, and unlinked, and no other call frees it; a
struct that a waitpid waits for is still in the list. -/
structure Reaping (st : ListState) : Prop where
  listed : st.sched.Listed st.unreaped
  allocated : ∀ p ∈ st.unreaped, p ∈ st.heap
  freeing : ∀ q c, st.code q = .freeing c → c ∈ st.heap ∧ c ∉ st.unreaped
  freed_once : ∀ q q' c, st.code q = .freeing c → st.code q' = .freeing c → q = q'
  waiting : ∀ q c, st.code q = .waiting c → c ∈ st.unreaped

theorem Custody.reaping {st : ListState} (h : Custody st) : Reaping st where
  listed := h.listed
  allocated := h.allocated
  freeing q c hq := ⟨h.struct_heap q c (by rw [hq]; rfl),
    (h.detached q c (by rw [hq]; rfl)).mp (by rw [hq]; rfl)⟩
  freed_once q q' c hq hq' := h.unique q q' c (by rw [hq]; rfl) (by rw [hq']; rfl)
  waiting q c hq := by
    have := h.detached q c (by rw [hq]; rfl)
    rw [hq] at this
    simpa [ListPoint.detached] using this

theorem ListInit.reapable {st : ListState} (h : ListInit st) : Reapable st :=
  ⟨h.custody, fun q => by rcases h.code q with hq | hq <;> rw [hq] <;> trivial⟩

/-- In every run in which forks copy a parent that is last in the list, no two
waitpid calls hold the same process and no unlinking disturbs another
`remove_proc_from_list`, reaping is sound in every state reached. -/
theorem reapMachine_reaping (fuel : Nat) (st₀ st : ListState) (run : List ListAction)
    (init : ListInit st₀)
    (apart : (reapMachine fuel).Meets (fun st a => a.Apart fuel st) st₀ run)
    (reached : (reapMachine fuel).exec st₀ run = some st) : Reaping st :=
  ((reapMachine fuel).exec_invariant (fun _ _ _ h ha hs => reapMachine_reapable h ha hs)
    init.reapable apart reached).custody.reaping

section Uninterrupted

variable {fuel : Nat} {st st' : ListState} {c : Ptr} (context : Ptr)

theorem reapMachine_removeStatement {pt : ListPoint} (hcode : st.code st.current = pt)
    (h : st.removeStatement pt = some st') :
    (reapMachine fuel).step st (.run context) = some st' := by
  simp only [reapMachine, ListState.step, hcode, h]

theorem ListState.goto_code (st : ListState) (pt : ListPoint) :
    (st.goto pt).code (st.goto pt).current = pt := by
  simp [goto, current]

theorem ListState.goto_goto (st : ListState) (a b : ListPoint) :
    (st.goto a).goto b = st.goto b := by
  simp [goto, current]

/-- A statement of the call, from the state in which it is about to execute it. -/
theorem reapMachine_goto {a b : ListPoint} {n : Nat}
    (h : (st.goto a).removeStatement a = some ((st.goto a).goto b))
    (hrest : (reapMachine fuel).exec (st.goto b) (List.replicate n (.run context)) = some st') :
    (reapMachine fuel).exec (st.goto a) (List.replicate (n + 1) (.run context)) = some st' := by
  rw [ListState.goto_goto] at h
  rw [List.replicate_succ, Machine.exec,
    reapMachine_removeStatement context (st.goto_code a) h]
  exact hrest

/-- An unlinking statement and the one that clears `next`. -/
theorem reapMachine_unlink {a : ListPoint} {sched : Scheduler}
    (h : (st.goto a).removeStatement a =
      some ({ st with sched := sched, unreaped := st.unreaped.erase c }.goto (.clearNext c))) :
    (reapMachine fuel).exec (st.goto a) (List.replicate 2 (.run context)) =
      some ({ st with sched := sched.setNext c NULL, unreaped := st.unreaped.erase c }.goto
        (.freeing c)) := by
  have hclear : ({ st with sched := sched, unreaped := st.unreaped.erase c }.goto
      (.clearNext c)).removeStatement (.clearNext c) =
      some ({ st with sched := sched.setNext c NULL, unreaped := st.unreaped.erase c }.goto
        (.freeing c)) := by
    simp [ListState.removeStatement, ListState.goto, ListState.current]
  rw [List.replicate_succ, Machine.exec, reapMachine_removeStatement context (st.goto_code a) h,
    Option.bind_some, List.replicate_succ, Machine.exec,
    reapMachine_removeStatement context (ListState.goto_code _ _) hclear]
  rfl

/-- The loop of `remove_proc_from_list`, statement by statement. -/
theorem reapMachine_removeLoop {k : Nat} {current : Ptr} {xs : List Ptr} {sched : Scheduler}
    (h : Chain st.sched.next NULL current (current :: xs)) (hc : c ∈ xs)
    (hr : Scheduler.removeLoop k st.sched c current = some sched) :
    ∃ n, (reapMachine fuel).exec (st.goto (.loop c current))
      (List.replicate n (.run context)) =
        some ({ st with sched := sched, unreaped := st.unreaped.erase c }.goto (.freeing c)) := by
  induction k generalizing current xs with
  | zero => simp [Scheduler.removeLoop] at hr
  | succ k ih =>
      cases xs with
      | nil => simp at hc
      | cons z zs =>
          obtain ⟨_, hne, hnext, hz, hrest⟩ := h
          have hnull : st.sched.next current ≠ NULL := by rw [hnext]; exact hz
          have hloop : (st.goto (.loop c current)).removeStatement (.loop c current) =
              some ((st.goto (.loop c current)).goto (.test c current)) := by
            simp [ListState.removeStatement, ListState.goto, hnull]
          simp only [Scheduler.removeLoop, hnull, ne_eq, not_false_eq_true, if_true] at hr
          split at hr
          · rename_i heq
            cases hr
            refine ⟨4, reapMachine_goto context hloop (reapMachine_goto context
              (b := .unlink c current) ?_ ?_)⟩
            · simp [ListState.removeStatement, ListState.goto, heq]
            · exact reapMachine_unlink context
                (by simp [ListState.removeStatement, ListState.goto, ListState.current])
          · rename_i hneq
            rw [hnext] at hr hneq
            have hcz : c ∈ zs := (List.mem_cons.mp hc).resolve_left (Ne.symm hneq)
            obtain ⟨n, hn⟩ := ih ⟨rfl, hz, hrest⟩ hcz hr
            refine ⟨n + 3, reapMachine_goto context hloop (reapMachine_goto context
              (b := .advance c current) ?_ (reapMachine_goto context ?_ hn))⟩
            · simp [ListState.removeStatement, ListState.goto, hnext, hneq]
            · simp [ListState.removeStatement, ListState.goto, hnext]

/-- Executed without interruption, the statements of `remove_proc_from_list` do
what the function does: a run of the one machine is a run of the other. -/
theorem reapMachine_removeWhole (h : Custody st) (hcode : st.code st.current = .removing c)
    (hs : st.removeWhole fuel (.removing c) = some st') :
    ∃ n, (reapMachine fuel).exec st (List.replicate n (.run context)) = some st' := by
  obtain ⟨sched, hr, rfl⟩ := Option.map_eq_some_iff.mp hs
  have hmem := h.reaping_mem (q := st.current) (c := c) (by rw [hcode]; rfl) (by rw [hcode]; rfl)
  have hself : st.goto (.removing c) = st := by
    rw [ListState.goto, ← hcode, Function.update_eq_self]
  have hc0 : c ≠ NULL := h.listed.ne_null hmem
  have hlist0 : st.sched.processList ≠ NULL := fun hn =>
    h.ne_nil (h.listed.head_null_iff.mp hn)
  rw [Scheduler.removeProcFromList, if_neg (by simp [hc0, hlist0])] at hr
  rw [← hself]
  split at hr
  · rename_i hhead
    cases hr
    refine ⟨3, reapMachine_goto context (b := .headSet c) ?_ ?_⟩
    · simp only [hself]
      simp [ListState.removeStatement, hc0, hhead]
    · simp only [hself]
      exact reapMachine_unlink context
        (by simp [ListState.removeStatement, ListState.goto, ListState.current])
  · rename_i hhead
    obtain ⟨x, xs, hl⟩ := List.exists_cons_of_ne_nil h.ne_nil
    have hlisted := h.listed
    rw [hl] at hlisted hmem
    obtain ⟨hx, hne, hrest⟩ := hlisted
    rw [hx] at hr hhead
    have hxs := (List.mem_cons.mp hmem).resolve_left (Ne.symm hhead)
    obtain ⟨n, hn⟩ := reapMachine_removeLoop context ⟨rfl, hne, hrest⟩ hxs hr
    rw [← hx] at hn hhead
    refine ⟨n + 2, reapMachine_goto context (b := .start c) ?_
      (reapMachine_goto context (b := .loop c st.sched.processList) ?_ ?_)⟩
    · simp only [hself]
      simp [ListState.removeStatement, hc0, hlist0, hhead]
    · rfl
    · rw [hself]
      exact hn

end Uninterrupted

/-- Two processes with a DEAD child each; the second process runs. -/
def twoDeadChildren : ListState where
  sched :=
    { procs := fun p =>
        if p = kernelHeap + 32 then
          { Process.zeroed with pid := 0, next := kernelHeap + 256 }
        else if p = kernelHeap + 256 then
          { Process.zeroed with pid := 1, next := kernelHeap + 512, status := .running }
        else if p = kernelHeap + 512 then
          { Process.zeroed with pid := 2, next := kernelHeap + 768, status := .dead }
        else { Process.zeroed with pid := 3, status := .dead }
      processList := kernelHeap + 32
      currentProcess := kernelHeap + 256 }
  code p := if p = kernelHeap + 512 ∨ p = kernelHeap + 768 then .exited else .idle
  nextPid := 4
  heap := [kernelHeap + 32, kernelHeap + 256, kernelHeap + 512, kernelHeap + 768]
  unreaped := [kernelHeap + 32, kernelHeap + 256, kernelHeap + 512, kernelHeap + 768]

theorem twoDeadChildren_init : ListInit twoDeadChildren where
  listed := by
    simp [Scheduler.Listed, Scheduler.next, twoDeadChildren, Process.zeroed, kernelHeap]
  current_mem := by decide
  allocated := by decide
  heap_nodup := by decide
  heap_ne_null := by decide
  code p := by
    by_cases h : p = kernelHeap + 512 ∨ p = kernelHeap + 768 <;> simp [twoDeadChildren, h]
  dead := by decide

/-- Both children are reaped; the two removals overlap, but not at neighbours. -/
def reapApart : List ListAction :=
  .waitpid 3 8 :: List.replicate 3 (.run 0) ++ .tick 0 :: .waitpid 2 8 ::
    List.replicate 11 (.run 0) ++ .tick 0 :: List.replicate 8 (.run 0)

theorem reapMachine_reaping_reapApart : ∃ st,
    (reapMachine 6).exec twoDeadChildren reapApart = some st ∧
      st.unreaped = [kernelHeap + 32, kernelHeap + 256] ∧ Reaping st := by
  have hrun : ((reapMachine 6).exec twoDeadChildren reapApart).map ListState.unreaped =
      some [kernelHeap + 32, kernelHeap + 256] := by decide +kernel
  obtain ⟨st, hst, hlist⟩ := Option.map_eq_some_iff.mp hrun
  exact ⟨st, hst, hlist, reapMachine_reaping 6 twoDeadChildren st reapApart twoDeadChildren_init
    (by decide +kernel) hst⟩

/-- The second process stands on the child of pid 2, about to unlink pid 3
behind it, when the first process reaps pid 2. -/
def reapNeighbours : List ListAction :=
  .waitpid 3 8 :: List.replicate 11 (.run 0) ++ .tick 0 :: .waitpid 2 8 ::
    List.replicate 11 (.run 0) ++ .tick 0 :: List.replicate 3 (.run 0)

/-- The child of pid 3 is freed and still in the list. -/
theorem reapNeighbours_freed_in_list : ∃ st,
    (reapMachine 6).exec twoDeadChildren reapNeighbours = some st ∧
      st.sched.Listed [kernelHeap + 32, kernelHeap + 256, kernelHeap + 768] ∧
      kernelHeap + 768 ∉ st.heap := by
  have hrun : ((reapMachine 6).exec twoDeadChildren reapNeighbours).map (fun st =>
      (st.sched.processList, st.sched.next (kernelHeap + 32), st.sched.next (kernelHeap + 256),
        st.sched.next (kernelHeap + 768), st.heap)) =
      some (kernelHeap + 32, kernelHeap + 256, kernelHeap + 768, NULL,
        [kernelHeap + 32, kernelHeap + 256]) := by decide +kernel
  obtain ⟨st, hst, heq⟩ := Option.map_eq_some_iff.mp hrun
  simp only [Prod.mk.injEq] at heq
  obtain ⟨hhead, h1, h2, h3, hheap⟩ := heq
  refine ⟨st, hst, ?_, by rw [hheap]; decide⟩
  simp only [Scheduler.Listed, Chain.cons_iff, Chain.nil_iff, hhead, h1, h2, h3]
  decide

end BayosKernel
