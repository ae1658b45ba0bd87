import Mathlib.Data.List.Rotate

/-!
Going round a list without repetitions: the order in which the elements come up
behind a given one, that one last.
-/

namespace Foundation

universe u

variable {α : Type u} [DecidableEq α]

def cycleFrom (l : List α) (c : α) : List α := l.rotate (l.idxOf c + 1)

variable {l pre post : List α} {c d : α}

theorem cycleFrom_append (hl : (pre ++ c :: post).Nodup) :
    cycleFrom (pre ++ c :: post) c = post ++ (pre ++ [c]) := by
  have hc : c ∉ pre := fun hmem => (List.nodup_append'.mp hl).2.2 hmem List.mem_cons_self
  have hidx : (pre ++ c :: post).idxOf c + 1 = (pre ++ [c]).length := by
    rw [List.idxOf_append_of_notMem hc, List.idxOf_cons_self, List.length_append]
    rfl
  rw [cycleFrom, hidx, List.append_cons, List.rotate_append_length_eq]

theorem mem_cycleFrom {x : α} : x ∈ cycleFrom l c ↔ x ∈ l := List.mem_rotate

theorem length_cycleFrom (l : List α) (c : α) : (cycleFrom l c).length = l.length :=
  List.length_rotate _ _

/-- Only one rotation ends in a given element. -/
theorem cycleFrom_of_rotate (hl : l.Nodup) {n : Nat} {a : List α} (h : l.rotate n = a ++ [d]) :
    cycleFrom l d = a ++ [d] := by
  have hlength : l.length = a.length + 1 := by
    rw [← List.length_rotate l n, h, List.length_append]
    rfl
  have hlast : l[(a.length + n) % l.length]? = some d := by
    rw [← List.getElem?_rotate (by omega), h, List.getElem?_append_right (Nat.le_refl _),
      Nat.sub_self]
    rfl
  obtain ⟨hlt, hd⟩ := List.getElem?_eq_some_iff.mp hlast
  have hidx : l.idxOf d = (a.length + n) % l.length := by
    rw [← hd]
    exact hl.idxOf_getElem _ hlt
  calc cycleFrom l d = (l.rotate ((a.length + n) % l.length)).rotate 1 := by
        rw [cycleFrom, hidx, List.rotate_rotate]
    _ = l.rotate (l.length + n) := by
        rw [List.rotate_mod, List.rotate_rotate, hlength, Nat.add_right_comm]
    _ = a ++ [d] := by rw [← List.rotate_rotate, List.rotate_length, h]

/-- Going on from an element that comes up behind `c`. -/
theorem cycleFrom_of_split (hl : l.Nodup) {a b : List α} (h : cycleFrom l c = a ++ d :: b) :
    cycleFrom l d = b ++ (a ++ [d]) := by
  rw [← List.append_assoc]
  refine cycleFrom_of_rotate (n := l.idxOf c + 1 + (a ++ [d]).length) hl ?_
  rw [← List.rotate_rotate, ← cycleFrom, h, List.append_cons, List.rotate_append_length_eq,
    List.append_assoc]

/-- The elements that meet a condition go round as well: the first one becomes the last. -/
theorem filter_cycleFrom (hl : l.Nodup) {p : α → Bool}
    (hfind : (cycleFrom l c).find? p = some d) :
    ∃ rest, (cycleFrom l c).filter p = d :: rest ∧ (cycleFrom l d).filter p = rest ++ [d] := by
  obtain ⟨hd, a, b, hsplit, hbefore⟩ := List.find?_eq_some_iff_append.mp hfind
  have hnone : a.filter p = [] := List.filter_eq_nil_iff.mpr fun x hx => by simpa using hbefore x hx
  refine ⟨b.filter p, ?_, ?_⟩
  · rw [hsplit, List.filter_append, hnone, List.nil_append, List.filter_cons_of_pos hd]
  · rw [cycleFrom_of_split hl hsplit, List.filter_append, List.filter_append, hnone,
      List.nil_append, List.filter_cons_of_pos hd, List.filter_nil]

end Foundation
