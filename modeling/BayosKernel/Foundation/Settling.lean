import Mathlib.Data.Set.Function
import Mathlib.Logic.Function.Iterate

/-!
Loops that apply a function to a value until it no longer changes:
`do { prev = x; x = f(x); } while (x != prev);`.
-/

namespace Foundation

universe u

variable {α : Type u} [DecidableEq α]

/-- The loop from `x` on; `none` when it has not ended within the fuel. -/
def settle (f : α → α) : Nat → α → Option α
  | 0, _ => none
  | fuel + 1, x => if f x ≠ x then settle f fuel (f x) else some (f x)

variable {f : α → α} {fuel : Nat} {x y : α}

theorem settle_of_fixed (hfixed : f x = x) : settle f (fuel + 1) x = some x := by
  rw [settle, if_neg (not_not.mpr hfixed), hfixed]

/-- What the loop returns is a fixed point that it has come to. -/
theorem settle_eq_some (h : settle f fuel x = some y) : f y = y ∧ ∃ n, f^[n] x = y := by
  induction fuel generalizing x with
  | zero => cases h
  | succ fuel ih =>
      rw [settle] at h
      by_cases hfixed : f x = x
      · rw [if_neg (not_not.mpr hfixed)] at h
        cases h
        exact ⟨congrArg f hfixed, 1, rfl⟩
      · rw [if_pos hfixed] at h
        obtain ⟨hy, n, hn⟩ := ih h
        exact ⟨hy, n + 1, hn⟩

/-- The loop ends when some turn comes to a fixed point. -/
theorem settle_of_iterate {n : Nat} (hn : f^[n] x = y) (hfixed : f y = y) :
    settle f (n + 1) x = some y := by
  induction n generalizing x with
  | zero =>
      obtain rfl : x = y := hn
      exact settle_of_fixed hfixed
  | succ n ih =>
      by_cases hx : f x = x
      · have hsame : x = y := (Function.iterate_fixed hx (n + 1)).symm.trans hn
        rw [settle_of_fixed hx, hsame]
      · rw [settle, if_pos hx]
        exact ih hn

/-- More turns do not change a result. -/
theorem settle_mono {fuel' : Nat} (hle : fuel ≤ fuel') (h : settle f fuel x = some y) :
    settle f fuel' x = some y := by
  induction fuel generalizing fuel' x with
  | zero => cases h
  | succ fuel ih =>
      obtain ⟨k, rfl⟩ := Nat.exists_eq_add_of_le hle
      rw [Nat.add_right_comm, settle]
      rw [settle] at h
      by_cases hfixed : f x = x
      · rw [if_neg (not_not.mpr hfixed)] at h ⊢
        exact h
      · rw [if_pos hfixed] at h ⊢
        exact ih (by omega) h

end Foundation
