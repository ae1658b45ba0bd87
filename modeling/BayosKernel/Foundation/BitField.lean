import Mathlib.Algebra.Group.Basic
import Mathlib.Data.Nat.Bitwise

/-!
Words that pack a 4096-aligned address and low flag bits.
-/

namespace Foundation

namespace BitField

/-- A mask of `k` ones above `n` zeros clears the low bits of a small enough word. -/
theorem and_high_mask {n k e : Nat} (he : e < 2 ^ (n + k)) :
    e &&& (2 ^ k - 1) * 2 ^ n = e / 2 ^ n * 2 ^ n := by
  apply Nat.eq_of_testBit_eq
  intro i
  rw [Nat.testBit_and, Nat.testBit_mul_two_pow, Nat.testBit_mul_two_pow,
    Nat.testBit_two_pow_sub_one, Nat.testBit_div_two_pow]
  by_cases hn : n ≤ i
  · rcases Nat.lt_or_ge i (n + k) with hi | hi
    · have hk : i - n < k := by omega
      simp [hn, hk]
    · have hzero : e.testBit i = false :=
        Nat.testBit_lt_two_pow (Nat.lt_of_lt_of_le he (Nat.pow_le_pow_right (by decide) hi))
      simp [hn, hzero]
  · simp [hn]

theorem and_low_mask (e n : Nat) : e &&& (2 ^ n - 1) = e % 2 ^ n :=
  Nat.and_two_pow_sub_one_eq_mod e n

variable {c f : Nat}

theorem or_flags (hc : c % 0x1000 = 0) (hf : f < 0x1000) : c ||| f = c + f := by
  have hdiv : c = 2 ^ 12 * (c / 0x1000) := by omega
  rw [hdiv, ← Nat.two_pow_add_eq_or_of_lt hf]

theorem and_pageMask {e : Nat} (he : e < 0x10000000000000000) :
    e &&& 0xfffffffffffff000 = e - e % 0x1000 := by
  have hmask : e &&& 0xfffffffffffff000 = e / 0x1000 * 0x1000 :=
    and_high_mask (n := 12) (k := 52) he
  omega

theorem and_addrMask {e : Nat} (he : e < 0x10000000000000) :
    e &&& 0x000FFFFFFFFFF000 = e - e % 0x1000 := by
  have hmask : e &&& 0x000FFFFFFFFFF000 = e / 0x1000 * 0x1000 :=
    and_high_mask (n := 12) (k := 40) he
  omega

/-- Masks below 0x1000 see the flags only. -/
theorem and_flags {b : Nat} (hc : c % 0x1000 = 0) (hf : f < 0x1000) (hb : b < 0x1000) :
    (c + f) &&& b = f &&& b := by
  rw [← or_flags hc hf, Nat.and_or_distrib_right]
  have hzero : c &&& b = 0 := by
    have hdiv : c = c / 0x1000 * 2 ^ 12 := by omega
    apply Nat.eq_of_testBit_eq
    intro i
    rw [Nat.testBit_and, Nat.zero_testBit, hdiv, Nat.testBit_mul_two_pow]
    rcases Nat.lt_or_ge i 12 with hi | hi
    · simp [Nat.not_le.mpr hi]
    · have hbi : b.testBit i = false :=
        Nat.testBit_lt_two_pow (Nat.lt_of_lt_of_le (show b < 2 ^ 12 from hb)
          (Nat.pow_le_pow_right (by decide) hi))
      simp [hbi]
  rw [hzero, Nat.zero_or]

theorem and_one (e : Nat) : e &&& 1 = e % 2 := and_low_mask e 1

end BitField

end Foundation
