import Mathlib.Data.Nat.Count
import BayosKernel.Foundation.ByteMemory

/-!
Bitmaps in byte memory: bit `k` of the bitmap at `a` is bit `k % 8` of the byte
at `a + k / 8`.
-/

namespace Foundation

namespace Bitmap

/-- `1 << j` as a byte. -/
def mask (j : Nat) : UInt8 := 1 <<< UInt8.ofNat j

def bit (m : ByteMemory) (a k : Nat) : Bool := (m (a + k / 8)).toNat.testBit (k % 8)

def set (m : ByteMemory) (a k : Nat) : ByteMemory :=
  Function.update m (a + k / 8) (m (a + k / 8) ||| mask (k % 8))

def clear (m : ByteMemory) (a k : Nat) : ByteMemory :=
  Function.update m (a + k / 8) (m (a + k / 8) &&& ~~~mask (k % 8))

/-- The number of set bits among the first `n`. -/
def count (m : ByteMemory) (a n : Nat) : Nat := Nat.count (fun k => bit m a k = true) n

theorem testBit_mask {i j : Nat} (hj : j < 8) (hi : i < 8) :
    (mask j).toNat.testBit i = decide (i = j) := by
  have hall : ∀ j < 8, ∀ i < 8, (mask j).toNat.testBit i = decide (i = j) := by decide
  exact hall j hj i hi

theorem testBit_not_mask {i j : Nat} (hj : j < 8) (hi : i < 8) :
    (~~~mask j).toNat.testBit i = decide (i ≠ j) := by
  have hall : ∀ j < 8, ∀ i < 8, (~~~mask j).toNat.testBit i = decide (i ≠ j) := by decide
  exact hall j hj i hi

theorem testBit_large (b : UInt8) {i : Nat} (hi : 8 ≤ i) : b.toNat.testBit i = false :=
  Nat.testBit_lt_two_pow
    (Nat.lt_of_lt_of_le b.toNat_lt (Nat.pow_le_pow_right (by decide) hi))

theorem and_mask_eq_zero {b : UInt8} {j : Nat} (hj : j < 8) :
    b &&& mask j = 0 ↔ b.toNat.testBit j = false := by
  constructor
  · intro hzero
    have hbit : (b &&& mask j).toNat.testBit j = false := by
      rw [hzero]
      simp
    simpa [testBit_mask hj hj] using hbit
  · intro hbit
    apply UInt8.toNat_inj.mp
    apply Nat.eq_of_testBit_eq
    intro i
    rcases Nat.lt_or_ge i 8 with hi | hi
    · by_cases heq : i = j
      · subst heq
        simp [hbit]
      · simp [testBit_mask hj hi, heq]
    · simp [testBit_large b hi]

theorem set_outside (m : ByteMemory) {a k x : Nat} (h : x ≠ a + k / 8) : set m a k x = m x := by
  simp [set, Function.update, h]

theorem clear_outside (m : ByteMemory) {a k x : Nat} (h : x ≠ a + k / 8) :
    clear m a k x = m x := by
  simp [clear, Function.update, h]

theorem bit_set (m : ByteMemory) (a k i : Nat) :
    bit (set m a k) a i = (bit m a i || decide (i = k)) := by
  by_cases hbyte : i / 8 = k / 8
  · have hsame : i % 8 = k % 8 ↔ i = k := by omega
    simp [bit, set, hbyte, testBit_mask (Nat.mod_lt k (by decide)) (Nat.mod_lt i (by decide)),
      hsame]
  · have hne : i ≠ k := by
      rintro rfl
      exact hbyte rfl
    simp only [bit, set_outside m (show a + i / 8 ≠ a + k / 8 by omega), hne, decide_false,
      Bool.or_false]

theorem bit_clear (m : ByteMemory) (a k i : Nat) :
    bit (clear m a k) a i = (bit m a i && decide (i ≠ k)) := by
  by_cases hbyte : i / 8 = k / 8
  · have hsame : i % 8 = k % 8 ↔ i = k := by omega
    simp [bit, clear, hbyte, -UInt8.toNat_not,
      testBit_not_mask (Nat.mod_lt k (by decide)) (Nat.mod_lt i (by decide)), hsame]
  · have hne : i ≠ k := by
      rintro rfl
      exact hbyte rfl
    simp only [bit, clear_outside m (show a + i / 8 ≠ a + k / 8 by omega), hne, ne_eq,
      not_false_eq_true, decide_true, Bool.and_true]

theorem bit_congr {m m' : ByteMemory} {a k : Nat} (h : m' (a + k / 8) = m (a + k / 8)) :
    bit m' a k = bit m a k := by
  simp only [bit, h]

theorem count_congr {m m' : ByteMemory} {a n : Nat}
    (h : ∀ k < n, bit m' a k = bit m a k) : count m' a n = count m a n := by
  induction n with
  | zero => simp [count]
  | succ n ih =>
      have hrest := ih fun k hk => h k (by omega)
      simp only [count] at hrest ⊢
      rw [Nat.count_succ, Nat.count_succ, hrest, h n (by omega)]

theorem count_le (m : ByteMemory) (a n : Nat) : count m a n ≤ n := Nat.count_le _

theorem count_eq_iff (m : ByteMemory) (a n : Nat) :
    count m a n = n ↔ ∀ k < n, bit m a k = true := Nat.count_iff_forall

theorem count_set {m : ByteMemory} {a k n : Nat} (hk : k < n) (hbit : bit m a k = false) :
    count (set m a k) a n = count m a n + 1 := by
  induction n with
  | zero => omega
  | succ n ih =>
      simp only [count] at ih ⊢
      rw [Nat.count_succ, Nat.count_succ, bit_set]
      by_cases heq : k = n
      · have hbefore : count (set m a k) a n = count m a n :=
          count_congr fun i hi => by
            rw [bit_set, decide_eq_false (by omega), Bool.or_false]
        simp only [count] at hbefore
        rw [hbefore, ← heq, hbit]
        simp
      · rw [ih (by omega), decide_eq_false (fun h => heq h.symm), Bool.or_false]
        omega

theorem count_clear {m : ByteMemory} {a k n : Nat} (hk : k < n) (hbit : bit m a k = true) :
    count (clear m a k) a n + 1 = count m a n := by
  have hclear : bit (clear m a k) a k = false := by
    rw [bit_clear]
    simp
  have hset := count_set (m := clear m a k) hk hclear
  rw [← hset]
  refine count_congr fun i _ => ?_
  rw [bit_set, bit_clear]
  by_cases heq : i = k
  · simp [heq, hbit]
  · simp [heq]

end Bitmap

end Foundation
