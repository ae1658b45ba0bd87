import BayosKernel.Foundation.ByteMemory
import Mathlib.Data.Option.Basic
import Mathlib.Data.Set.Function

/-!
Two memories that agree on a set of addresses. An operation that reads only there
does the same to both, and leaves memories that agree on more where it writes.
-/

namespace Foundation

namespace ByteMemory

variable {S T : Set Nat} {m m' : ByteMemory} {w a p len v : Nat}

theorem load_agree (h : Set.EqOn m m' S) (hS : ∀ x, a ≤ x → x < a + w → x ∈ S) :
    load m' w a = load m w a :=
  load_congr fun x hle hlt => (h (hS x hle hlt)).symm

theorem store_agree (h : Set.EqOn m m' S) : Set.EqOn (store m w a v) (store m' w a v) S := by
  induction w generalizing a v with
  | zero => exact h
  | succ w ih =>
      intro x hx
      simp only [store]
      by_cases hxa : x = a
      · rw [if_pos hxa, if_pos hxa]
      · rw [if_neg hxa, if_neg hxa]
        exact ih hx

theorem update_agree (h : Set.EqOn m m' S) (b : UInt8) :
    Set.EqOn (Function.update m a b) (Function.update m' a b) S := by
  intro x hx
  by_cases hxa : x = a
  · rw [hxa, Function.update_self, Function.update_self]
  · rw [Function.update_of_ne hxa, Function.update_of_ne hxa, h hx]

/-- What is cleared agrees from then on. -/
theorem memset_agree (h : Set.EqOn m m' S) {b : UInt8}
    (hT : ∀ x ∈ T, x ∈ S ∨ p ≤ x ∧ x < p + len) :
    Set.EqOn (memset m p b len) (memset m' p b len) T := by
  intro x hx
  rcases hT x hx with hS | hin
  · simp only [memset, h hS]
  · rw [memset_inside _ hin, memset_inside _ hin]

end ByteMemory

/-- The same result, and memories that agree. -/
def Same {α : Type} (S : Set Nat) (a b : ByteMemory × α) : Prop :=
  b.2 = a.2 ∧ Set.EqOn a.1 b.1 S

theorem Same.of_some {α : Type} {S : Set Nat} {o o' : Option (ByteMemory × α)}
    {m : ByteMemory} {a : α} (h : Option.Rel (Same S) o o') (ho : o = some (m, a)) :
    ∃ m', o' = some (m', a) ∧ Set.EqOn m m' S := by
  cases h with
  | none => cases ho
  | @some r r' hsame =>
      cases ho
      exact ⟨r'.1, congrArg some (Prod.ext rfl hsame.1), hsame.2⟩

end Foundation
