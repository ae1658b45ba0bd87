import Mathlib.Data.List.Nodup
import Mathlib.Logic.Function.Basic

/-!
Counting the members of a duplicate-free list that satisfy a test, and how the
count moves when the test changes at one or two members only.
-/

namespace Foundation

universe u
variable {P : Type u}

def tally (l : List P) (p : P → Bool) : Nat := l.countP p

@[simp] theorem tally_nil (p : P → Bool) : tally [] p = 0 := rfl

theorem tally_cons (x : P) (l : List P) (p : P → Bool) :
    tally (x :: l) p = tally l p + (p x).toNat := by
  cases h : p x <;> simp [tally, h]

theorem tally_congr {l : List P} {p q : P → Bool} (h : ∀ x ∈ l, p x = q x) :
    tally l p = tally l q := by
  refine List.countP_congr fun x hx => ?_
  rw [h x hx]

/-- A test that changes at the member `c` only moves the count by that change. -/
theorem tally_change {l : List P} (hl : l.Nodup) {c : P} (hc : c ∈ l) {p q : P → Bool}
    (h : ∀ x ∈ l, x ≠ c → p x = q x) :
    tally l q + (p c).toNat = tally l p + (q c).toNat := by
  induction l with
  | nil => simp at hc
  | cons y ys ih =>
      obtain ⟨hy, hys⟩ := List.nodup_cons.mp hl
      rw [tally_cons, tally_cons]
      rcases List.mem_cons.mp hc with rfl | hc
      · have hrest : tally ys p = tally ys q :=
          tally_congr fun x hx => h x (by simp [hx]) (by rintro rfl; exact hy hx)
        omega
      · have hne : y ≠ c := by rintro rfl; exact hy hc
        have := ih hys hc fun x hx => h x (by simp [hx])
        rw [h y (by simp) hne]
        omega

theorem tally_pos {l : List P} {p : P → Bool} {x : P} (hx : x ∈ l) (hp : p x = true) :
    0 < tally l p := List.countP_pos_iff.mpr ⟨x, hx, hp⟩

theorem tally_eq_zero {l : List P} {p : P → Bool} (h : ∀ x ∈ l, p x = false) :
    tally l p = 0 := by
  refine List.countP_eq_zero.mpr fun x hx => ?_
  simp [h x hx]

/-- A count of at most one leaves no room for two members. -/
theorem tally_le_one_unique {l : List P} {p : P → Bool} (h : tally l p ≤ 1) {x y : P}
    (hx : x ∈ l) (hy : y ∈ l) (hpx : p x = true) (hpy : p y = true) : x = y := by
  induction l with
  | nil => simp at hx
  | cons z zs ih =>
      rw [tally_cons] at h
      rcases List.mem_cons.mp hx with rfl | hx'
      · rcases List.mem_cons.mp hy with rfl | hy'
        · rfl
        · have := tally_pos hy' hpy
          simp [hpx] at h
          omega
      · rcases List.mem_cons.mp hy with rfl | hy'
        · have := tally_pos hx' hpx
          simp [hpy] at h
          omega
        · exact ih (by omega) hx' hy'

end Foundation
