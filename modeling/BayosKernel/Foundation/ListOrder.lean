import Mathlib.Data.List.Nodup

/-!
One member standing before another one in a duplicate-free list: `[a, b] <+ l`.
-/

namespace Foundation

universe u
variable {P : Type u} {a b x : P} {l xs rest : List P}

theorem before_of_mem (h : b ∈ rest) : [a, b].Sublist (a :: rest) :=
  (List.singleton_sublist.mpr h).cons_cons a

theorem before_left_mem (h : [a, b].Sublist l) : a ∈ l := h.subset (by simp)

theorem before_right_mem (h : [a, b].Sublist l) : b ∈ l := h.subset (by simp)

/-- What stands before in a list that is split at `a` stands in its second part. -/
theorem mem_behind (hl : (xs ++ a :: rest).Nodup) (h : [a, b].Sublist (xs ++ a :: rest)) :
    b ∈ rest := by
  obtain ⟨l₁, l₂, hsplit, h₁, h₂⟩ := List.sublist_append_iff.mp h
  have hnot : a ∉ xs := fun ha =>
    (List.disjoint_of_nodup_append hl ha) (by simp)
  cases l₁ with
  | nil =>
      rw [List.nil_append] at hsplit
      rw [← hsplit] at h₂
      exact List.singleton_sublist.mp (List.cons_sublist_cons.mp h₂)
  | cons y ys =>
      simp only [List.cons_append, List.cons.injEq] at hsplit
      exact absurd (h₁.subset (by simp [hsplit.1])) hnot

theorem before_append (h : [a, b].Sublist l) (l' : List P) : [a, b].Sublist (l ++ l') :=
  h.trans (List.sublist_append_left l l')

variable [DecidableEq P]

/-- Taking a third member out keeps the order of the two. -/
theorem before_erase (h : [a, b].Sublist l) (ha : x ≠ a) (hb : x ≠ b) :
    [a, b].Sublist (l.erase x) := by
  have := h.erase x
  rwa [List.erase_of_not_mem (by simp [ha, hb])] at this

end Foundation
