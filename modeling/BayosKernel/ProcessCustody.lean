import BayosKernel.ProcessListLoops

/-!
Who works on which process struct.

Every allocated struct is in the list, or one call is filling it before its
insertion or freeing it after its removal. `Custody` keeps these apart, in both
machines: the step lemmas here are about what a step does, not about which
statement it is.
-/

namespace BayosKernel

open Foundation

/-- The call's struct is allocated and not in the list. -/
def ListPoint.detached : ListPoint → Bool
  | .addFill _ _ _ | .forkCopy _ _ _ _ | .inserting _ _ | .clearNext _ | .freeing _ => true
  | _ => false

/-- The call has seen its process DEAD and has not unlinked it. -/
def ListPoint.reaping : ListPoint → Bool
  | .removing _ | .headSet _ | .start _ | .loop _ _ | .test _ _ | .unlink _ _
  | .advance _ _ => true
  | _ => false

structure Custody (st : ListState) : Prop where
  listed : st.sched.Listed st.unreaped
  current_mem : st.current ∈ st.unreaped
  allocated : ∀ p ∈ st.unreaped, p ∈ st.heap
  heap_nodup : st.heap.Nodup
  heap_ne_null : ∀ p ∈ st.heap, p ≠ NULL
  struct_heap : ∀ q c, (st.code q).struct = some c → c ∈ st.heap
  detached : ∀ q c, (st.code q).struct = some c →
    ((st.code q).detached = true ↔ c ∉ st.unreaped)
  unique : ∀ q q' c, (st.code q).struct = some c → (st.code q').struct = some c → q = q'
  outside : ∀ q, q ∉ st.unreaped → (st.code q).struct = none
  dead : ∀ p ∈ st.unreaped, st.sched.status p = .dead → st.code p = .exited
  doomed : ∀ q c, (st.code q).reaping = true → (st.code q).struct = some c →
    st.sched.status c = .dead
  filled : ∀ q p fork, st.code q = .inserting p fork →
    st.sched.next p = NULL ∧ st.sched.status p ≠ .dead

theorem ListPoint.not_detached_of_reaping {pt : ListPoint} (h : pt.reaping = true) :
    pt.detached = false := by
  cases pt <;> simp_all [reaping, detached]

namespace Custody

variable {st st' : ListState}

theorem nodup (h : Custody st) : st.unreaped.Nodup := h.listed.nodup

theorem ne_nil (h : Custody st) : st.unreaped ≠ [] := List.ne_nil_of_mem h.current_mem

/-- A process in the middle of a call is not DEAD. -/
theorem current_not_dead (h : Custody st) (hexit : st.code st.current ≠ .exited) :
    st.sched.status st.current ≠ .dead :=
  fun hd => hexit (h.dead _ h.current_mem hd)

theorem reaping_mem (h : Custody st) {q c : Ptr} (hr : (st.code q).reaping = true)
    (hc : (st.code q).struct = some c) : c ∈ st.unreaped := by
  have := h.detached q c hc
  rw [ListPoint.not_detached_of_reaping hr] at this
  simpa using this

/-- A step of the current process that leaves the list as it is. -/
theorem move (h : Custody st) {b : ListPoint}
    (hcode : st'.code = Function.update st.code st.current b)
    (hunreaped : st'.unreaped = st.unreaped) (hlisted : st'.sched.Listed st.unreaped)
    (hcur : st'.current ∈ st.unreaped)
    (hheap : ∀ p ∈ st.heap, p ∈ st'.heap ∨ (st.code st.current).struct = some p ∧
      b.struct = none ∧ p ∉ st.unreaped)
    (hnodup : st'.heap.Nodup) (hne : ∀ p ∈ st'.heap, p ≠ NULL)
    (hb : ∀ c, b.struct = some c → c ∈ st'.heap ∧ (b.detached = true ↔ c ∉ st.unreaped) ∧
      ∀ q, (st.code q).struct = some c → q = st.current)
    (hdead : ∀ p ∈ st.unreaped, st.sched.status p = .dead → st'.sched.status p = .dead)
    (hexit : ∀ p ∈ st.unreaped, st'.sched.status p = .dead → st'.code p = .exited)
    (hdoomed : ∀ c, b.reaping = true → b.struct = some c → st.sched.status c = .dead)
    (hfilled : ∀ q p fork, st'.code q = .inserting p fork →
      st'.sched.next p = NULL ∧ st'.sched.status p ≠ .dead) : Custody st' := by
  have hself : st'.code st.current = b := by rw [hcode, Function.update_self]
  have hother : ∀ q, q ≠ st.current → st'.code q = st.code q := fun q hq => by
    rw [hcode, Function.update_of_ne hq]
  refine ⟨?_, ?_, ?_, hnodup, hne, ?_, ?_, ?_, ?_, ?_, ?_, hfilled⟩
  · rw [hunreaped]
    exact hlisted
  · rw [hunreaped]
    exact hcur
  · intro p hp
    rw [hunreaped] at hp
    exact (hheap p (h.allocated p hp)).resolve_right fun hc => hc.2.2 hp
  · intro q c hc
    by_cases hq : q = st.current
    · rw [hq, hself] at hc
      exact (hb c hc).1
    · rw [hother q hq] at hc
      refine (hheap c (h.struct_heap q c hc)).resolve_right fun hp => hq ?_
      exact h.unique q _ c hc hp.1
  · intro q c hc
    rw [hunreaped]
    by_cases hq : q = st.current
    · rw [hq, hself] at hc ⊢
      exact (hb c hc).2.1
    · rw [hother q hq] at hc ⊢
      exact h.detached q c hc
  · intro q q' c hc hc'
    by_cases hq : q = st.current <;> by_cases hq' : q' = st.current
    · rw [hq, hq']
    · rw [hq, hself] at hc
      rw [hother q' hq'] at hc'
      rw [hq, (hb c hc).2.2 q' hc']
    · rw [hother q hq] at hc
      rw [hq', hself] at hc'
      rw [hq', (hb c hc').2.2 q hc]
    · rw [hother q hq] at hc
      rw [hother q' hq'] at hc'
      exact h.unique q q' c hc hc'
  · intro q hq
    rw [hunreaped] at hq
    rw [hother q (by rintro rfl; exact hq h.current_mem)]
    exact h.outside q hq
  · intro p hp
    rw [hunreaped] at hp
    exact hexit p hp
  · intro q c hr hc
    by_cases hq : q = st.current
    · rw [hq, hself] at hr hc
      have hmem : c ∈ st.unreaped := by
        have := (hb c hc).2.1
        rw [ListPoint.not_detached_of_reaping hr] at this
        simpa using this
      exact hdead c hmem (hdoomed c hr hc)
    · rw [hother q hq] at hr hc
      exact hdead c (h.reaping_mem hr hc) (h.doomed q c hr hc)

/-- A step that only moves the current process on, within its call. -/
theorem goto (h : Custody st) {b : ListPoint}
    (hb : ∀ c, b.struct = some c → (st.code st.current).struct = some c ∧
      b.detached = (st.code st.current).detached)
    (hdoomed : ∀ c, b.reaping = true → b.struct = some c → st.sched.status c = .dead)
    (hexit : st.code st.current ≠ .exited) (hins : ∀ p fork, b ≠ .inserting p fork) :
    Custody (st.goto b) := by
  refine h.move rfl rfl h.listed h.current_mem (fun p hp => .inl hp) h.heap_nodup h.heap_ne_null
    (fun c hc => ?_) (fun p _ hd => hd) (fun p hp hd => ?_) hdoomed (fun q p fork hq => ?_)
  · obtain ⟨hold, hdet⟩ := hb c hc
    refine ⟨h.struct_heap _ c hold, ?_, fun q hq => h.unique q _ c hq hold⟩
    rw [hdet]
    exact h.detached _ c hold
  · have hpc : p ≠ st.current := by
      rintro rfl
      exact h.current_not_dead hexit hd
    simp only [ListState.goto, Function.update_of_ne hpc]
    exact h.dead p hp hd
  · by_cases hqc : q = st.current
    · subst hqc
      simp only [ListState.goto, Function.update_self] at hq
      exact absurd hq (hins p fork)
    · simp only [ListState.goto, Function.update_of_ne hqc] at hq
      exact h.filled q p fork hq

theorem switch (h : Custody st) {fuel : Nat} {context : Ptr}
    (hs : st.switch fuel context = some st') : Custody st' := by
  obtain ⟨⟨sched, r⟩, hsched, rfl⟩ := Option.map_eq_some_iff.mp hs
  have hsw := Scheduler.schedule_switched hsched
  have hdead : ∀ p, sched.status p = .dead ↔ st.sched.status p = .dead := by
    intro p
    constructor
    · intro hd
      have hk : (st.sched.status p).Parked := (hsw.parked_iff p).mp (Or.inl hd)
      rw [← hsw.parked_eq p hk, hd]
    · intro hd
      rw [hsw.parked_eq p (Or.inl hd), hd]
  refine ⟨hsw.listed h.listed, hsw.current_mem _ h.listed h.current_mem, h.allocated,
    h.heap_nodup, h.heap_ne_null, h.struct_heap, h.detached, h.unique, h.outside, ?_, ?_, ?_⟩
  · exact fun p hp hd => h.dead p hp ((hdead p).mp hd)
  · exact fun q c hr hc => (hdead c).mpr (h.doomed q c hr hc)
  · intro q p fork hq
    rw [hsw.next_eq, Ne, hdead]
    exact h.filled q p fork hq

/-- `alloc` returned a struct that the call goes on to fill. -/
theorem alloc (h : Custody st) {p : Ptr} {b : ListPoint} (hidle : st.code st.current = .idle)
    (hb : b.struct = some p) (hdet : b.detached = true) (hins : ∀ q fork, b ≠ .inserting q fork)
    (hs : st.alloc p b = some st') : Custody st' := by
  simp only [ListState.alloc, Option.ite_none_left_eq_some, not_or, Option.some.injEq] at hs
  obtain ⟨⟨hne, hfresh⟩, rfl⟩ := hs
  have hnot : p ∉ st.unreaped := fun hm => hfresh (h.allocated p hm)
  refine h.move rfl rfl h.listed h.current_mem (fun q hq => .inl (by simp [ListState.goto, hq]))
    ?_ ?_ (fun c hc => ?_) (fun q _ hd => hd) (fun q hq hd => ?_) (fun c hr _ => ?_)
    (fun q p' fork hq => ?_)
  · refine List.nodup_append.mpr ⟨h.heap_nodup, by simp, ?_⟩
    rintro a ha b hb' rfl
    simp at hb'
    exact hfresh (hb' ▸ ha)
  · intro q hq
    simp only [ListState.goto, List.mem_append, List.mem_singleton] at hq
    rcases hq with hq | rfl
    · exact h.heap_ne_null q hq
    · exact hne
  · rw [hb] at hc
    cases hc
    refine ⟨by simp [ListState.goto], by simp [hdet, hnot], fun q hq => ?_⟩
    exact absurd (h.struct_heap q p hq) hfresh
  · have hqc : q ≠ st.current := by
      rintro rfl
      exact h.current_not_dead (by simp [hidle]) hd
    simp only [ListState.goto, ListState.current] at hqc ⊢
    rw [Function.update_of_ne hqc]
    exact h.dead q hq hd
  · rw [ListPoint.not_detached_of_reaping hr] at hdet
    cases hdet
  · by_cases hqc : q = st.current
    · subst hqc
      simp only [ListState.goto, ListState.current, Function.update_self] at hq
      exact absurd hq (hins p' fork)
    · simp only [ListState.goto, ListState.current] at hq hqc
      rw [Function.update_of_ne hqc] at hq
      exact h.filled q p' fork hq

/-- The call writes its struct, before the insertion. -/
theorem fill (h : Custody st) {p : Ptr} {fork : Bool} {content : Process}
    (hp : (st.code st.current).struct = some p) (hdet : (st.code st.current).detached = true)
    (hexit : st.code st.current ≠ .exited) (hnull : content.next = NULL)
    (halive : content.status ≠ .dead)
    (hcode : st'.code = Function.update st.code st.current (.inserting p fork))
    (hsched : st'.sched = st.sched.modify p fun _ => content) (hheap : st'.heap = st.heap)
    (hunreaped : st'.unreaped = st.unreaped) : Custody st' := by
  have hnot : p ∉ st.unreaped := (h.detached _ p hp).mp hdet
  have hne : ∀ q ∈ st.unreaped, q ≠ p := fun q hq hqp => hnot (hqp ▸ hq)
  have hstatus : ∀ q, q ≠ p → st'.sched.status q = st.sched.status q := fun q hq => by
    rw [hsched]
    exact congrArg Process.status (Scheduler.modify_procs_ne _ hq _)
  have hself : st'.sched.procs p = content := by
    rw [hsched]
    exact Scheduler.modify_procs_self _ _ _
  refine h.move hcode hunreaped ?_ ?_ (fun q hq => .inl (by rw [hheap]; exact hq))
    (by rw [hheap]; exact h.heap_nodup) (by rw [hheap]; exact h.heap_ne_null) (fun c hc => ?_)
    (fun q hq hd => ?_) (fun q hq hd => ?_) (fun c hr _ => by cases hr) (fun q p' fork' hq => ?_)
  · rw [hsched]
    refine h.listed.congr fun q hq => ?_
    exact congrArg Process.next (Scheduler.modify_procs_ne _ (hne q hq) _)
  · rw [ListState.current, hsched]
    exact h.current_mem
  · cases hc
    exact ⟨by rw [hheap]; exact h.struct_heap _ p hp, by simp [ListPoint.detached, hnot],
      fun q hq => h.unique q _ p hq hp⟩
  · rw [hstatus q (hne q hq)]
    exact hd
  · rw [hstatus q (hne q hq)] at hd
    have hqc : q ≠ st.current := by
      rintro rfl
      exact h.current_not_dead hexit hd
    rw [hcode, Function.update_of_ne hqc]
    exact h.dead q hq hd
  · by_cases hqc : q = st.current
    · rw [hcode, hqc, Function.update_self] at hq
      cases hq
      rw [Scheduler.next, Scheduler.status, hself]
      exact ⟨hnull, halive⟩
    · rw [hcode, Function.update_of_ne hqc] at hq
      have hp' : p' ≠ p := by
        rintro rfl
        exact hqc (h.unique q _ p' (by rw [hq]; rfl) hp)
      have hnext : st'.sched.next p' = st.sched.next p' := by
        rw [hsched]
        exact congrArg Process.next (Scheduler.modify_procs_ne _ hp' _)
      rw [hnext, hstatus p' hp']
      exact h.filled q p' fork' hq

theorem exit (h : Custody st) (hidle : st.code st.current = .idle) :
    Custody ((st.setProc st.current fun q => { q with status := .dead }).goto .exited) := by
  have hstatus : ∀ q, q ≠ st.current → (st.sched.modify st.current fun q =>
      { q with status := .dead }).status q = st.sched.status q := fun q hq =>
    congrArg Process.status (Scheduler.modify_procs_ne _ hq _)
  have hnext : ∀ q, (st.sched.modify st.current fun q => { q with status := .dead }).next q =
      st.sched.next q := fun q => Scheduler.setStatus_next st.sched st.current .dead q
  refine h.move rfl rfl ?_ h.current_mem (fun p hp => .inl hp) h.heap_nodup h.heap_ne_null
    (fun c hc => by cases hc) (fun p hp hd => ?_) (fun p hp hd => ?_) (fun c hr _ => by cases hr)
    (fun q p fork hq => ?_)
  · exact h.listed.congr fun q _ => hnext q
  · have hpc : p ≠ st.current := by
      rintro rfl
      exact h.current_not_dead (by simp [hidle]) hd
    exact (hstatus p hpc).trans hd
  · by_cases hpc : p = st.current
    · rw [hpc]
      exact Function.update_self _ _ _
    · refine (Function.update_of_ne hpc _ _).trans (h.dead p hp ?_)
      rw [← hstatus p hpc]
      exact hd
  · by_cases hqc : q = st.current
    · rw [hqc] at hq
      cases (Function.update_self _ _ _).symm.trans hq
    · have hq' : st.code q = .inserting p fork := (Function.update_of_ne hqc _ _).symm.trans hq
      have hpc : p ≠ st.current := by
        rintro rfl
        have hdet := (h.detached q _ (by rw [hq']; rfl)).mp (by rw [hq']; rfl)
        exact hdet h.current_mem
      obtain ⟨hn, hs⟩ := h.filled q p fork hq'
      exact ⟨(hnext p).trans hn, fun hd => hs ((hstatus p hpc).symm.trans hd)⟩

/-- The struct is given back; the call is over. -/
theorem free (h : Custody st) {c : Ptr} (hcode : st.code st.current = .freeing c) :
    Custody ({ st with heap := st.heap.erase c }.goto .idle) := by
  have hc : (st.code st.current).struct = some c := by rw [hcode]; rfl
  have hnot : c ∉ st.unreaped := (h.detached _ c hc).mp (by rw [hcode]; rfl)
  refine h.move rfl rfl h.listed h.current_mem (fun p hp => ?_) (h.heap_nodup.erase c)
    (fun p hp => h.heap_ne_null p (List.mem_of_mem_erase hp)) (fun d hd => by cases hd)
    (fun p _ hd => hd) (fun p hp hd => ?_) (fun d hr _ => by cases hr) (fun q p fork hq => ?_)
  · by_cases hpc : p = c
    · exact .inr ⟨hpc ▸ hc, rfl, hpc ▸ hnot⟩
    · exact .inl (List.mem_erase_of_ne hpc |>.mpr hp)
  · have hpc : p ≠ st.current := by
      rintro rfl
      exact h.current_not_dead (by simp [hcode]) hd
    exact (Function.update_of_ne hpc _ _).trans (h.dead p hp hd)
  · by_cases hqc : q = st.current
    · rw [hqc] at hq
      cases (Function.update_self _ _ _).symm.trans hq
    · exact h.filled q p fork ((Function.update_of_ne hqc _ _).symm.trans hq)

/-- A waitpid takes hold of a process that no other call holds. -/
theorem hold (h : Custody st) {c : Ptr} (hidle : st.code st.current = .idle)
    (hc : c ∈ st.unreaped) (hfree : ∀ q ∈ st.unreaped, (st.code q).struct ≠ some c) :
    Custody (st.goto (.waiting c)) := by
  refine h.move rfl rfl h.listed h.current_mem (fun p hp => .inl hp) h.heap_nodup h.heap_ne_null
    (fun d hd => ?_) (fun p _ hd => hd) (fun p hp hd => ?_) (fun d hr _ => by cases hr)
    (fun q p fork hq => ?_)
  · cases hd
    refine ⟨h.allocated c hc, by simp [ListPoint.detached, hc], fun q hq => ?_⟩
    by_cases hm : q ∈ st.unreaped
    · exact absurd hq (hfree q hm)
    · rw [h.outside q hm] at hq
      cases hq
  · have hpc : p ≠ st.current := by
      rintro rfl
      exact h.current_not_dead (by simp [hidle]) hd
    exact (Function.update_of_ne hpc _ _).trans (h.dead p hp hd)
  · by_cases hqc : q = st.current
    · rw [hqc] at hq
      cases (Function.update_self _ _ _).symm.trans hq
    · exact h.filled q p fork ((Function.update_of_ne hqc _ _).symm.trans hq)

/-- `insert_process` hands the struct over to the list. -/
theorem insert (h : Custody st) {fuel : Nat} {p : Ptr} {fork : Bool}
    (hcode : st.code st.current = .inserting p fork) (hs : st.insert fuel p fork = some st') :
    Custody st' := by
  obtain ⟨sched, hins, rfl⟩ := Option.map_eq_some_iff.mp hs
  have hp : (st.code st.current).struct = some p := by rw [hcode]; rfl
  have hnot : p ∉ st.unreaped := (h.detached _ p hp).mp (by rw [hcode]; rfl)
  have hheap := h.struct_heap _ p hp
  obtain ⟨hnull, halive⟩ := h.filled _ p fork hcode
  obtain ⟨hlisted, last, hlast, _, rfl⟩ :=
    h.listed.insertProcess h.ne_nil hnot (h.heap_ne_null p hheap) hnull hins
  have hpc : p ≠ st.current := by
    rintro rfl
    exact hnot h.current_mem
  have hself : Function.update (Function.update st.code p .idle) st.current
      (if fork then ListPoint.yielding else .idle) st.current =
      if fork then .yielding else .idle := Function.update_self _ _ _
  have hnew : Function.update (Function.update st.code p .idle) st.current
      (if fork then ListPoint.yielding else .idle) p = .idle := by
    rw [Function.update_of_ne hpc, Function.update_self]
  have hother : ∀ q, q ≠ st.current → q ≠ p →
      Function.update (Function.update st.code p .idle) st.current
        (if fork then ListPoint.yielding else .idle) q = st.code q := fun q hq hqp => by
    rw [Function.update_of_ne hq, Function.update_of_ne hqp]
  -- a call in progress afterwards is one of another process, with another struct
  have hold : ∀ q c, (Function.update (Function.update st.code p .idle) st.current
      (if fork then ListPoint.yielding else .idle) q).struct = some c →
      q ≠ st.current ∧ q ≠ p ∧ (st.code q).struct = some c ∧ c ≠ p := by
    intro q c hc
    have hq : q ≠ st.current := by
      rintro rfl
      rw [hself] at hc
      cases fork <;> cases hc
    have hqp : q ≠ p := by
      rintro rfl
      rw [hnew] at hc
      cases hc
    rw [hother q hq hqp] at hc
    refine ⟨hq, hqp, hc, ?_⟩
    rintro rfl
    exact hq (h.unique q _ c hc hp)
  refine ⟨hlisted, by simp [ListState.current]; exact .inl h.current_mem, ?_, h.heap_nodup,
    h.heap_ne_null, ?_, ?_, ?_, ?_, ?_, ?_, ?_⟩
  · intro q hq
    rcases List.mem_append.mp hq with hq | hq
    · exact h.allocated q hq
    · rw [List.mem_singleton.mp hq]
      exact hheap
  · intro q c hc
    exact h.struct_heap q c (hold q c hc).2.2.1
  · intro q c hc
    obtain ⟨hq, hqp, hc', hcp⟩ := hold q c hc
    simp only [hother q hq hqp, List.mem_append, List.mem_singleton, hcp, or_false]
    exact h.detached q c hc'
  · intro q q' c hc hc'
    exact h.unique q q' c (hold q c hc).2.2.1 (hold q' c hc').2.2.1
  · intro q hq
    simp only [List.mem_append, List.mem_singleton, not_or] at hq
    simp only
    rw [hother q (by rintro rfl; exact hq.1 h.current_mem) hq.2]
    exact h.outside q hq.1
  · intro q hq hd
    rw [Scheduler.setNext_status] at hd
    rcases List.mem_append.mp hq with hmem | hmem
    · have hqc : q ≠ st.current := by
        rintro rfl
        exact h.current_not_dead (by simp [hcode]) hd
      have hqp : q ≠ p := fun he => hnot (he ▸ hmem)
      exact (hother q hqc hqp).trans (h.dead q hmem hd)
    · rw [List.mem_singleton.mp hmem] at hd
      exact absurd hd halive
  · intro q c hr hc
    obtain ⟨hq, hqp, hc', _⟩ := hold q c hc
    simp only [hother q hq hqp] at hr
    rw [Scheduler.setNext_status]
    exact h.doomed q c hr hc'
  · intro q p' fork' hq
    obtain ⟨hqc, hqp, hp', _⟩ := hold q p' (by simp only at hq; rw [hq]; rfl)
    simp only [hother q hqc hqp] at hq
    have hnot' : p' ∉ st.unreaped := (h.detached q p' hp').mp (by rw [hq]; rfl)
    have hne : p' ≠ last := by rintro rfl; exact hnot' hlast
    rw [Scheduler.setNext_status, Scheduler.setNext_next, Function.update_of_ne hne]
    exact h.filled q p' fork' hq

/-- The process a reaping call holds leaves the list; the call keeps the struct. -/
theorem unlink (h : Custody st) {c : Ptr} {b : ListPoint}
    (hreap : (st.code st.current).reaping = true) (hc : (st.code st.current).struct = some c)
    (hb : b.struct = some c) (hdet : b.detached = true) (hins : ∀ p fork, b ≠ .inserting p fork)
    (hcode : st'.code = Function.update st.code st.current b) (hheap : st'.heap = st.heap)
    (hunreaped : st'.unreaped = st.unreaped.erase c)
    (hlisted : st'.sched.Listed (st.unreaped.erase c))
    (hstatus : st'.sched.status = st.sched.status) (hcur : st'.current = st.current)
    (hnext : ∀ q, q ∉ st.unreaped → st'.sched.next q = st.sched.next q) : Custody st' := by
  have hmem := h.reaping_mem hreap hc
  have hdead := h.doomed _ c hreap hc
  have hexit : st.code st.current ≠ .exited := by
    intro he
    rw [he] at hc
    cases hc
  have hne : c ≠ st.current := by
    rintro rfl
    exact h.current_not_dead hexit hdead
  have hself : st'.code st.current = b := by rw [hcode, Function.update_self]
  have hother : ∀ q, q ≠ st.current → st'.code q = st.code q := fun q hq => by
    rw [hcode, Function.update_of_ne hq]
  have herase : ∀ q, q ∈ st.unreaped.erase c ↔ q ≠ c ∧ q ∈ st.unreaped := fun q =>
    h.nodup.mem_erase_iff
  have hdiff : ∀ q d, q ≠ st.current → (st.code q).struct = some d → d ≠ c := by
    rintro q d hq hd rfl
    exact hq (h.unique q _ d hd hc)
  refine ⟨by rw [hunreaped]; exact hlisted, ?_, ?_, by rw [hheap]; exact h.heap_nodup,
    by rw [hheap]; exact h.heap_ne_null, ?_, ?_, ?_, ?_, ?_, ?_, ?_⟩
  · rw [hunreaped, hcur, herase]
    exact ⟨hne.symm, h.current_mem⟩
  · intro p hp
    rw [hunreaped, herase] at hp
    rw [hheap]
    exact h.allocated p hp.2
  · intro q d hd
    rw [hheap]
    by_cases hq : q = st.current
    · rw [hq, hself, hb] at hd
      cases hd
      exact h.struct_heap _ c hc
    · rw [hother q hq] at hd
      exact h.struct_heap q d hd
  · intro q d hd
    rw [hunreaped, herase]
    by_cases hq : q = st.current
    · rw [hq, hself] at hd ⊢
      rw [hb] at hd
      cases hd
      simp [hdet]
    · rw [hother q hq] at hd ⊢
      rw [h.detached q d hd]
      simp [hdiff q d hq hd]
  · intro q q' d hd hd'
    by_cases hq : q = st.current <;> by_cases hq' : q' = st.current
    · rw [hq, hq']
    · rw [hq, hself, hb] at hd
      rw [hother q' hq'] at hd'
      cases hd
      exact absurd rfl (hdiff q' c hq' hd')
    · rw [hq', hself, hb] at hd'
      rw [hother q hq] at hd
      cases hd'
      exact absurd rfl (hdiff q c hq hd)
    · rw [hother q hq] at hd
      rw [hother q' hq'] at hd'
      exact h.unique q q' d hd hd'
  · intro q hq
    rw [hunreaped, herase] at hq
    have hqc : q ≠ st.current := by
      rintro rfl
      exact hq ⟨hne.symm, h.current_mem⟩
    rw [hother q hqc]
    by_cases hqd : q = c
    · rw [hqd, h.dead c hmem hdead]
      rfl
    · exact h.outside q fun hm => hq ⟨hqd, hm⟩
  · intro p hp hd
    rw [hunreaped, herase] at hp
    rw [hstatus] at hd
    have hpc : p ≠ st.current := by
      rintro rfl
      exact h.current_not_dead hexit hd
    rw [hother p hpc]
    exact h.dead p hp.2 hd
  · intro q d hr hd
    rw [hstatus]
    by_cases hq : q = st.current
    · rw [hq, hself] at hr
      rw [ListPoint.not_detached_of_reaping hr] at hdet
      cases hdet
    · rw [hother q hq] at hr hd
      exact h.doomed q d hr hd
  · intro q p fork hq
    by_cases hqc : q = st.current
    · rw [hqc, hself] at hq
      exact absurd hq (hins p fork)
    · rw [hother q hqc] at hq
      have hnot : p ∉ st.unreaped := (h.detached q p (by rw [hq]; rfl)).mp (by rw [hq]; rfl)
      rw [hstatus, hnext p hnot]
      exact h.filled q p fork hq

end Custody

end BayosKernel
