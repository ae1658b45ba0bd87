import Mathlib.Logic.Function.Iterate
import BayosKernel.ProcessList

/-!
What the loops over the process list do on a well-formed list: they end, and
insertion and removal change the list as their names say.
-/

namespace BayosKernel

open Foundation

namespace Scheduler

@[simp] theorem setNext_next (k : Scheduler) (p v : Ptr) :
    (k.setNext p v).next = Function.update k.next p v := by
  funext q
  by_cases h : q = p
  · subst h
    simp [setNext, next, modify]
  · simp [setNext, next, modify, h]

@[simp] theorem setNext_status (k : Scheduler) (p v : Ptr) :
    (k.setNext p v).status = k.status := by
  funext q
  exact modify_field k p q Process.status fun _ => rfl

theorem setStatus_next (k : Scheduler) (p : Ptr) (st : ProcessStatus) (q : Ptr) :
    (k.setStatus p st).next q = k.next q :=
  modify_field k p q Process.next fun _ => rfl

@[simp] theorem setNext_processList (k : Scheduler) (p v : Ptr) :
    (k.setNext p v).processList = k.processList := rfl

@[simp] theorem setNext_currentProcess (k : Scheduler) (p v : Ptr) :
    (k.setNext p v).currentProcess = k.currentProcess := rfl

section

variable {k k' : Scheduler} {fuel : Nat} {a p x : Ptr} {xs l : List Ptr}

theorem insertLoop_eq (h : Chain k.next NULL a (xs ++ [x])) {y : Ptr}
    (hy : insertLoop fuel k a = some y) : y = x := by
  induction fuel generalizing a xs with
  | zero => simp [insertLoop] at hy
  | succ fuel ih =>
      cases xs with
      | nil =>
          obtain ⟨rfl, hne, hlast⟩ := h
          have hlast' : k.next a = NULL := hlast
          simpa [insertLoop, hne, hlast', eq_comm] using hy
      | cons z zs =>
          obtain ⟨rfl, hne, hrest⟩ := h
          have hnext : k.next a ≠ NULL := by
            rw [Ne, hrest.head_null_iff]
            simp
          simp only [insertLoop, hne, hnext, if_false, ne_eq, not_false_eq_true, if_true] at hy
          exact ih hrest hy

theorem insertLoop_isSome (h : Chain k.next NULL a (xs ++ [x])) (hf : xs.length < fuel) :
    (insertLoop fuel k a).isSome := by
  induction fuel generalizing a xs with
  | zero => omega
  | succ fuel ih =>
      cases xs with
      | nil =>
          obtain ⟨rfl, hne, hlast⟩ := h
          have hlast' : k.next a = NULL := hlast
          simp [insertLoop, hne, hlast']
      | cons z zs =>
          obtain ⟨rfl, hne, hrest⟩ := h
          have hnext : k.next a ≠ NULL := by
            rw [Ne, hrest.head_null_iff]
            simp
          simp only [insertLoop, hne, hnext, if_false, ne_eq, not_false_eq_true, if_true]
          exact ih hrest (by simp at hf; omega)

theorem insertLoop_of_closed (S : Ptr → Prop) (ha : S a)
    (hS : ∀ x, S x → x ≠ NULL ∧ S (k.next x)) : insertLoop fuel k a = none := by
  induction fuel generalizing a with
  | zero => rfl
  | succ fuel ih =>
      obtain ⟨hne, hnext⟩ := hS a ha
      simp only [insertLoop, hne, (hS _ hnext).1, if_false, ne_eq, not_false_eq_true, if_true]
      exact ih hnext

theorem getProcLoop_mem (h : Chain k.next NULL a xs) {pid : Int} {c : Ptr}
    (hc : getProcLoop fuel k pid a = some c) : c = NULL ∨ c ∈ xs := by
  induction fuel generalizing a xs with
  | zero => simp [getProcLoop] at hc
  | succ fuel ih =>
      simp only [getProcLoop] at hc
      split at hc
      · cases hc
        exact .inl rfl
      · rename_i hne
        cases xs with
        | nil => exact absurd h hne
        | cons z zs =>
            obtain ⟨rfl, _, hrest⟩ := h
            split at hc
            · cases hc
              simp
            · exact (ih hrest hc).imp id (by simp +contextual)

theorem getProcLoop_isSome (h : Chain k.next NULL a xs) (pid : Int) (hf : xs.length < fuel) :
    (getProcLoop fuel k pid a).isSome := by
  induction fuel generalizing a xs with
  | zero => omega
  | succ fuel ih =>
      simp only [getProcLoop]
      split
      · rfl
      · rename_i hne
        cases xs with
        | nil => exact absurd h hne
        | cons z zs =>
            obtain ⟨rfl, _, hrest⟩ := h
            split
            · rfl
            · exact ih hrest (by simp at hf; omega)

/-- The walk finds `p` behind `current` and unlinks it there. -/
theorem removeLoop_eq {current : Ptr} (h : Chain k.next NULL current (current :: xs))
    (hp : p ∈ xs) (hr : removeLoop fuel k p current = some k') :
    ∃ ys y zs, current :: xs = ys ++ y :: p :: zs ∧
      k' = (k.setNext y (k.next p)).setNext p NULL := by
  induction fuel generalizing current xs with
  | zero => simp [removeLoop] at hr
  | succ fuel ih =>
      cases xs with
      | nil => simp at hp
      | cons z zs =>
          obtain ⟨_, hne, hnext, hz, hrest⟩ := h
          have hnull : k.next current ≠ NULL := by rw [hnext]; exact hz
          simp only [removeLoop, hnull, ne_eq, not_false_eq_true, if_true] at hr
          split at hr
          · rename_i heq
            cases hr
            exact ⟨[], current, zs, by rw [← heq, hnext]; rfl, rfl⟩
          · rename_i hneq
            rw [hnext] at hr hneq
            have hp' : p ∈ zs := (List.mem_cons.mp hp).resolve_left (Ne.symm hneq)
            obtain ⟨ys, y, ws, hl, hk⟩ := ih ⟨rfl, hz, hrest⟩ hp' hr
            exact ⟨current :: ys, y, ws, by rw [hl]; rfl, hk⟩

theorem removeLoop_isSome {current : Ptr} (h : Chain k.next NULL current (current :: xs))
    (p : Ptr) (hf : xs.length < fuel) : (removeLoop fuel k p current).isSome := by
  induction fuel generalizing current xs with
  | zero => omega
  | succ fuel ih =>
      cases xs with
      | nil =>
          have hlast : k.next current = NULL := h.2.2
          simp [removeLoop, hlast]
      | cons z zs =>
          obtain ⟨_, hne, hnext, hz, hrest⟩ := h
          have hnull : k.next current ≠ NULL := by rw [hnext]; exact hz
          simp only [removeLoop, hnull, ne_eq, not_false_eq_true, if_true]
          split
          · rfl
          · rw [hnext]
            exact ih ⟨rfl, hz, hrest⟩ (by simp at hf; omega)

end

section Listed

variable {k k' : Scheduler} {l : List Ptr}

theorem Listed.exists_last (h : k.Listed l) (hl : l ≠ []) : ∃ xs x, l = xs ++ [x] ∧
    Chain k.next NULL k.processList (xs ++ [x]) := by
  rcases List.eq_nil_or_concat l with rfl | ⟨xs, x, hx⟩
  · exact absurd rfl hl
  · rw [List.concat_eq_append] at hx
    exact ⟨xs, x, hx, hx ▸ h⟩

theorem Listed.insertProcess_isSome (h : k.Listed l) (hl : l ≠ []) (p : Ptr) {fuel : Nat}
    (hf : l.length ≤ fuel) : (insertProcess fuel k p).isSome := by
  obtain ⟨xs, x, rfl, hch⟩ := h.exists_last hl
  have : (insertLoop fuel k k.processList).isSome :=
    insertLoop_isSome hch (by simp at hf; omega)
  simpa [insertProcess] using this

/-- `insert_process` appends. -/
theorem Listed.insertProcess (h : k.Listed l) (hl : l ≠ []) {p : Ptr} (hp : p ∉ l)
    (hne : p ≠ NULL) (hnull : k.next p = NULL) {fuel : Nat}
    (hi : insertProcess fuel k p = some k') :
    k'.Listed (l ++ [p]) ∧ ∃ x ∈ l, k.next x = NULL ∧ k' = k.setNext x p := by
  obtain ⟨xs, x, rfl, hch⟩ := h.exists_last hl
  obtain ⟨y, hy, rfl⟩ := Option.map_eq_some_iff.mp hi
  obtain rfl := insertLoop_eq hch hy
  refine ⟨?_, y, by simp, hch.last_next, rfl⟩
  unfold Listed
  rw [setNext_next, setNext_processList, List.append_assoc]
  exact hch.append_last hp hne hnull

/-- Inserting a struct that still points into the list closes a cycle. -/
theorem Listed.insertProcess_cyclic (h : k.Listed l) {p : Ptr} (hp : p ∉ l)
    (hne : p ≠ NULL) (hnext : k.next p ∈ l) {fuel : Nat}
    (hi : Scheduler.insertProcess fuel k p = some k') (xs : List Ptr) : ¬k'.Listed xs := by
  obtain ⟨ys, x, rfl, hch⟩ := h.exists_last (List.ne_nil_of_mem hnext)
  obtain ⟨y, hy, rfl⟩ := Option.map_eq_some_iff.mp hi
  obtain rfl := insertLoop_eq hch hy
  have hpy : p ≠ y := by rintro rfl; simp at hp
  refine Chain.not_of_closed (fun q => q ∈ (ys ++ [y]) ++ [p]) ?_ fun q hq => ?_
  · refine List.mem_append_left _ (hch.head_mem fun hnull => ?_)
    simpa using hch.head_null_iff.mp hnull
  · rw [setNext_next]
    rcases List.mem_append.mp hq with hq | hq
    · refine ⟨h.ne_null hq, ?_⟩
      by_cases hqy : q = y
      · rw [hqy, Function.update_self]
        simp
      · rw [Function.update_of_ne hqy]
        refine List.mem_append_left _ (h.next_mem hq fun hnull => hqy ?_)
        -- only the last process ends the list
        rcases List.mem_append.mp hq with hq | hq
        · obtain ⟨us, vs, rfl⟩ := List.append_of_mem hq
          have hsplit : Chain k.next NULL k.processList (us ++ q :: (vs ++ [y])) := by
            simpa using hch
          simpa using hsplit.after.head_null_iff.mp hnull
        · exact List.mem_singleton.mp hq
    · rw [List.mem_singleton.mp hq, Function.update_of_ne hpy]
      exact ⟨hne, List.mem_append_left _ hnext⟩

theorem Listed.getProcFromPid_isSome (h : k.Listed l) (pid : Int) {fuel : Nat}
    (hf : l.length < fuel) : (getProcFromPid fuel k pid).isSome :=
  getProcLoop_isSome h pid hf

theorem Listed.getProcFromPid_mem (h : k.Listed l) {pid : Int} {c : Ptr} {fuel : Nat}
    (hc : getProcFromPid fuel k pid = some c) (hne : c ≠ NULL) : c ∈ l :=
  (getProcLoop_mem h hc).resolve_left hne

theorem Listed.removeProcFromList_isSome (h : k.Listed l) (p : Ptr) {fuel : Nat}
    (hf : l.length ≤ fuel) : (removeProcFromList fuel k p).isSome := by
  unfold removeProcFromList
  split
  · rfl
  · split
    · rfl
    · rename_i hnull _
      cases l with
      | nil =>
          have hlist : k.processList = NULL := h
          simp [hlist] at hnull
      | cons x xs =>
          obtain ⟨hx, hne, hrest⟩ := h
          rw [hx]
          exact removeLoop_isSome ⟨rfl, hne, hrest⟩ p (by simp at hf; omega)

/-- Taking the head off the list. -/
theorem Listed.tail {x : Ptr} (h : k.Listed (x :: l)) :
    Chain k.next NULL (k.next k.processList) l := by
  obtain ⟨hx, _, hrest⟩ := h
  rw [hx]
  exact hrest

/-- Linking `y` to the successor of the process behind it. -/
theorem Listed.unlink {xs ys : List Ptr} {y p : Ptr} (h : k.Listed (xs ++ y :: p :: ys)) :
    (k.setNext y (k.next p)).Listed (xs ++ y :: ys) := by
  unfold Listed
  rw [setNext_next]
  exact Chain.unlink_next h

theorem Listed.setNext_notMem (h : k.Listed l) {p : Ptr} (hp : p ∉ l) (v : Ptr) :
    (k.setNext p v).Listed l := by
  unfold Listed
  rw [setNext_next]
  exact Chain.update_notMem h hp

theorem erase_middle {xs ys : List Ptr} {y p : Ptr} (h : (xs ++ y :: p :: ys).Nodup) :
    (xs ++ y :: p :: ys).erase p = xs ++ y :: ys := by
  have hp : p ∉ xs ++ [y] := by
    intro hm
    have := List.disjoint_of_nodup_append
      (by simpa using h : ((xs ++ [y]) ++ p :: ys).Nodup) hm
    simp at this
  have hsplit : xs ++ y :: p :: ys = (xs ++ [y]) ++ p :: ys := by simp
  rw [hsplit, List.erase_append_right _ hp]
  simp

/-- `remove_proc_from_list` takes a member out and touches no other list field. -/
theorem Listed.removeProcFromList (h : k.Listed l) {p : Ptr} (hp : p ∈ l) {fuel : Nat}
    (hr : removeProcFromList fuel k p = some k') :
    k'.Listed (l.erase p) ∧ k'.status = k.status ∧ k'.currentProcess = k.currentProcess ∧
      ∀ q, q ∉ l → k'.next q = k.next q := by
  have hne := h.ne_null hp
  have hnd := h.nodup
  unfold Scheduler.removeProcFromList at hr
  split at hr
  · rename_i hnull
    rcases hnull with hnull | hnull
    · exact absurd hnull hne
    · rw [h.head_null_iff.mp hnull] at hp
      simp at hp
  · cases l with
    | nil => simp at hp
    | cons x xs =>
        split at hr
        · rename_i hhead
          cases hr
          have hx : x = p := h.1.symm.trans hhead
          subst hx
          refine ⟨?_, setNext_status _ _ _, rfl, fun q hq => ?_⟩
          · rw [List.erase_cons_head]
            have hnot : x ∉ xs := (List.nodup_cons.mp hnd).1
            exact Listed.setNext_notMem (k := { k with processList := k.next k.processList })
              h.tail hnot NULL
          · have hqx : q ≠ x := by rintro rfl; simp at hq
            simp only [setNext_next, Function.update_of_ne hqx]
            rfl
        · rename_i hhead
          rw [h.1] at hr hhead
          have hpxs : p ∈ xs := (List.mem_cons.mp hp).resolve_left (Ne.symm hhead)
          obtain ⟨ys, y, zs, hl, rfl⟩ := removeLoop_eq ⟨rfl, h.2.1, h.2.2⟩ hpxs hr
          rw [hl] at h hnd ⊢
          refine ⟨?_, by simp, rfl, fun q hq => ?_⟩
          · rw [erase_middle hnd]
            refine h.unlink.setNext_notMem (fun hm => ?_) NULL
            simp [List.nodup_append, List.nodup_cons] at hnd
            simp at hm
            grind
          · have hqy : q ≠ y := by rintro rfl; simp at hq
            have hqp : q ≠ p := by rintro rfl; simp at hq
            simp [Function.update_of_ne hqy, Function.update_of_ne hqp]

theorem following_of_next {p : Ptr} (h : k.next p ≠ NULL) : k.following p = k.next p := by
  simp [following, h]

theorem following_of_last {p : Ptr} (h : k.next p = NULL) : k.following p = k.processList := by
  simp [following, h]

/-- Going round from a process comes to every process behind it. -/
theorem exists_following_behind {x y : Ptr} {xs : List Ptr} (h : Chain k.next NULL x (x :: xs))
    (hy : y ∈ x :: xs) : ∃ n, k.following^[n] x = y := by
  induction xs generalizing x with
  | nil => exact ⟨0, by simpa [eq_comm] using hy⟩
  | cons z zs ih =>
      obtain ⟨_, _, hz, hne, hrest⟩ := h
      rcases List.mem_cons.mp hy with rfl | hy
      · exact ⟨0, rfl⟩
      · obtain ⟨n, hn⟩ := ih ⟨rfl, hne, hrest⟩ hy
        refine ⟨n + 1, ?_⟩
        rw [Function.iterate_succ_apply, following_of_next (by rw [hz]; exact hne), hz, hn]

theorem exists_following_head {x : Ptr} {xs : List Ptr} (h : Chain k.next NULL x (x :: xs)) :
    ∃ n, k.following^[n] x = k.processList := by
  induction xs generalizing x with
  | nil => exact ⟨1, following_of_last h.2.2⟩
  | cons z zs ih =>
      obtain ⟨_, _, hz, hne, hrest⟩ := h
      obtain ⟨n, hn⟩ := ih ⟨rfl, hne, hrest⟩
      refine ⟨n + 1, ?_⟩
      rw [Function.iterate_succ_apply, following_of_next (by rw [hz]; exact hne), hz, hn]

/-- The search of `schedule` comes from every process to every other one. -/
theorem Listed.exists_following (h : k.Listed l) {p q : Ptr} (hp : p ∈ l) (hq : q ∈ l) :
    ∃ n, k.following^[n] p = q := by
  obtain ⟨xs, ys, rfl⟩ := List.append_of_mem hp
  obtain ⟨n, hn⟩ := exists_following_head h.suffix
  have hhead : Chain k.next NULL k.processList (xs ++ p :: ys) := h
  have hall : ∃ m, k.following^[m] k.processList = q := by
    cases hl : xs ++ p :: ys with
    | nil => simp at hl
    | cons z zs =>
        rw [hl] at hhead hq
        rw [hhead.1]
        exact exists_following_behind ⟨rfl, hhead.2⟩ hq
  obtain ⟨m, hm⟩ := hall
  exact ⟨m + n, by rw [Function.iterate_add_apply, hn, hm]⟩

end Listed

end Scheduler

end BayosKernel
