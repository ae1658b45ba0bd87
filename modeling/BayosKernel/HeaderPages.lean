import BayosKernel.Foundation.Settling
import BayosKernel.PageAllocator

/-!
The loop of `calc_header_pages`. One header page more leaves one page less to
describe, so the number of header pages falls when the last guess was larger.
The loop is at most one page off after three turns, and it goes back and forth
for ever when no number of header pages describes exactly the rest.
-/

namespace BayosKernel

open Foundation

theorem calcHeaderPagesLoop_eq (pageCount fuel prev : Nat) :
    calcHeaderPagesLoop pageCount fuel prev = settle (headerPagesStep pageCount) fuel prev := by
  induction fuel generalizing prev with
  | zero => rfl
  | succ fuel ih =>
      rw [calcHeaderPagesLoop, settle]
      simp only [ih]

section

variable {p : Nat}

/-- The numbers of header pages that leave a page to describe. -/
def headerRange (p : Nat) : Set Nat := {x | 1 ≤ x ∧ x < p}

/-- A page of the bitmap describes 32768 pages. -/
theorem headerPagesStep_eq (hp : p < 0x10000000000000) {x : Nat} (hx : x ≤ p) :
    headerPagesStep p x = (p + 32959 - x) / 32768 := by
  have husable : sub64 p x = p - x := sub64_eq hx (by omega)
  have hbytes : bitmapBytesFor (p - x) = (p - x + 7) / 8 := by
    rw [bitmapBytesFor, add64_eq (by omega)]
  have hneeded : add64 offsetOfDataInArea ((p - x + 7) / 8) = 24 + (p - x + 7) / 8 :=
    add64_eq (by simp only [offsetOfDataInArea]; omega)
  have hsum : sub64 (add64 (24 + (p - x + 7) / 8) 0x1000) 1 = 24 + (p - x + 7) / 8 + 0xfff := by
    rw [add64_eq (by omega), sub64_eq (by omega) (by omega)]
    omega
  have hpages : (24 + (p - x + 7) / 8 + 0xfff) / 0x1000 = (p + 32959 - x) / 32768 := by omega
  simp only [headerPagesStep, husable, hbytes, hneeded, hsum, hpages]
  rw [if_neg (by omega)]

theorem headerPagesStep_mapsTo (hlow : 2 ≤ p) (hp : p < 0x10000000000000) :
    Set.MapsTo (headerPagesStep p) (headerRange p) (headerRange p) := by
  rintro x ⟨hx, hlt⟩
  rw [headerPagesStep_eq hp (Nat.le_of_lt hlt)]
  constructor <;> omega

/-- In the range a fixed point is the quotient by 32769, and it needs a remainder. -/
theorem headerPagesStep_fixed_iff (hp : p < 0x10000000000000) {x : Nat} (hx : x ≤ p) :
    headerPagesStep p x = x ↔ x = (p + 32959) / 32769 ∧ (p + 191) % 32769 ≠ 0 := by
  rw [headerPagesStep_eq hp hx]
  omega

/-- The guess `x` is at most `e` pages away from `h`. -/
def Near (h e x : Nat) : Prop := x ≤ h + e ∧ h ≤ x + e

/-- A turn divides the distance by 32768. -/
theorem Near.step (hp : p < 0x10000000000000) (hrem : (p + 191) % 32769 ≠ 0) {x e e' : Nat}
    (hx : x ≤ p) (hnear : Near ((p + 32959) / 32769) e x) (he : e ≤ e' * 32768) :
    Near ((p + 32959) / 32769) e' (headerPagesStep p x) := by
  rw [headerPagesStep_eq hp hx]
  unfold Near at *
  omega

/-- Two more turns close a distance of one page. -/
theorem Near.settled (hp : p < 0x10000000000000) (hrem : (p + 191) % 32769 ≠ 0) {x : Nat}
    (hx : x < p) (hnear : Near ((p + 32959) / 32769) 1 x) :
    headerPagesStep p (headerPagesStep p x) = (p + 32959) / 32769 := by
  unfold Near at hnear
  have hstep := headerPagesStep_eq hp (Nat.le_of_lt hx)
  rw [headerPagesStep_eq hp (by omega), hstep]
  omega

theorem headerPagesStep_iterate (hlow : 2 ≤ p) (hp : p < 0x10000000000000)
    (hrem : (p + 191) % 32769 ≠ 0) :
    (headerPagesStep p)^[5] 1 = (p + 32959) / 32769 := by
  have hone : 1 ∈ headerRange p := ⟨Nat.le_refl 1, hlow⟩
  have hrange : ∀ n, (headerPagesStep p)^[n] 1 < p := fun n =>
    ((headerPagesStep_mapsTo hlow hp).iterate n hone).2
  have hturn : ∀ n e e', Near ((p + 32959) / 32769) e ((headerPagesStep p)^[n] 1) →
      e ≤ e' * 32768 → Near ((p + 32959) / 32769) e' ((headerPagesStep p)^[n + 1] 1) := by
    intro n e e' hnear he
    rw [Function.iterate_succ_apply']
    exact hnear.step hp hrem (Nat.le_of_lt (hrange n)) he
  have hnear₀ : Near ((p + 32959) / 32769) 0x4000000000 ((headerPagesStep p)^[0] 1) := by
    rw [Function.iterate_zero_apply]
    unfold Near
    omega
  have hnear₁ := hturn 0 _ 0x800000 hnear₀ (by decide)
  have hnear₂ := hturn 1 _ 0x100 hnear₁ (by decide)
  have hnear₃ := hturn 2 _ 1 hnear₂ (by decide)
  rw [Function.iterate_succ_apply', Function.iterate_succ_apply']
  exact hnear₃.settled hp hrem (hrange 3)

end

section

variable {p : Nat} (hlow : 2 ≤ p) (hp : p < 0x10000000000000)

include hlow hp

theorem calcHeaderPages_some {fuel h : Nat} (hcalc : calcHeaderPages fuel p = some h) :
    h < p ∧ h = (p + 32959) / 32769 ∧ (p + 191) % 32769 ≠ 0 := by
  rw [calcHeaderPages, calcHeaderPagesLoop_eq] at hcalc
  obtain ⟨hfixed, n, hn⟩ := settle_eq_some hcalc
  have hone : 1 ∈ headerRange p := ⟨Nat.le_refl 1, hlow⟩
  have hrange : h < p := hn ▸ ((headerPagesStep_mapsTo hlow hp).iterate n hone).2
  exact ⟨hrange, (headerPagesStep_fixed_iff hp (Nat.le_of_lt hrange)).mp hfixed⟩

/-- The loop ends within six turns. -/
theorem calcHeaderPages_of_rem (hrem : (p + 191) % 32769 ≠ 0) {fuel : Nat} (hfuel : 6 ≤ fuel) :
    calcHeaderPages fuel p = some ((p + 32959) / 32769) := by
  rw [calcHeaderPages, calcHeaderPagesLoop_eq]
  refine settle_mono hfuel (settle_of_iterate (headerPagesStep_iterate hlow hp hrem) ?_)
  rw [headerPagesStep_fixed_iff hp (by omega)]
  exact ⟨rfl, hrem⟩

theorem calcHeaderPages_none (hrem : (p + 191) % 32769 = 0) (fuel : Nat) :
    calcHeaderPages fuel p = none := by
  refine Option.eq_none_iff_forall_ne_some.mpr fun h hcalc => ?_
  exact (calcHeaderPages_some hlow hp hcalc).2.2 hrem

end

end BayosKernel
