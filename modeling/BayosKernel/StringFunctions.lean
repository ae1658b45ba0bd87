import BayosKernel.Foundation.ByteMemory
import BayosKernel.Foundation.CString
import BayosKernel.Process

/-!
`memcmp`, `strlen` and `strncmp` of `string.c`.

A pointer argument is the sequence of the bytes from it on. The loop of
`strlen` runs on fuel.
-/

namespace BayosKernel

open Foundation

/-- The bytes from `p` on. -/
def bytesFrom (m : ByteMemory) (p : Nat) : Nat → UInt8 := fun i => m (p + i)

/-- The loop of `memcmp` from `i` on, with `left` bytes to go. -/
def memcmpFrom (s1 s2 : Nat → UInt8) : Nat → Nat → Int
  | _, 0 => 0
  | i, left + 1 =>
      if s1 i ≠ s2 i then if s1 i < s2 i then -1 else 1 else memcmpFrom s1 s2 (i + 1) left

def memcmp (s1 s2 : Nat → UInt8) (n : Nat) : Int := memcmpFrom s1 s2 0 n

theorem memcmpFrom_eq_zero {s1 s2 : Nat → UInt8} {i left : Nat} :
    memcmpFrom s1 s2 i left = 0 ↔ ∀ k, i ≤ k → k < i + left → s1 k = s2 k := by
  induction left generalizing i with
  | zero =>
      simp only [memcmpFrom, true_iff]
      intro k hle hlt
      omega
  | succ left ih =>
      by_cases hhead : s1 i = s2 i
      · have hskip : memcmpFrom s1 s2 i (left + 1) = memcmpFrom s1 s2 (i + 1) left :=
          if_neg fun hne => hne hhead
        rw [hskip, ih]
        constructor
        · intro h k hle hlt
          by_cases hk : k = i
          · rw [hk]
            exact hhead
          · exact h k (by omega) (by omega)
        · intro h k hle hlt
          exact h k (by omega) (by omega)
      · have hdiffer : memcmpFrom s1 s2 i (left + 1) = if s1 i < s2 i then -1 else 1 :=
          if_pos hhead
        rw [hdiffer]
        constructor
        · intro h
          split at h <;> simp at h
        · intro h
          exact absurd (h i (Nat.le_refl i) (by omega)) hhead

theorem memcmp_eq_zero {s1 s2 : Nat → UInt8} {n : Nat} :
    memcmp s1 s2 n = 0 ↔ ∀ i < n, s1 i = s2 i := by
  rw [memcmp, memcmpFrom_eq_zero]
  constructor
  · intro h i hi
    exact h i (Nat.zero_le i) (by omega)
  · intro h i _ hi
    exact h i (by omega)

/-- The loop of `strlen`; `p` is the offset of the pointer. -/
def strlenFrom (s : Nat → UInt8) : Nat → Nat → Option Nat
  | 0, _ => none
  | fuel + 1, p => if s p ≠ 0 then strlenFrom s fuel (p + 1) else some p

def strlen (fuel : Nat) (s : Nat → UInt8) : Option Nat := strlenFrom s fuel 0

theorem strlenFrom_eq {s : Nat → UInt8} {cs : List UInt8} (h : CString s cs) {fuel p : Nat}
    (hp : p ≤ cs.length) (hfuel : cs.length - p < fuel) : strlenFrom s fuel p = some cs.length := by
  induction fuel generalizing p with
  | zero => omega
  | succ fuel ih =>
      rw [strlenFrom]
      by_cases hend : p = cs.length
      · rw [hend, if_neg fun hne => hne h.terminator]
      · rw [if_pos (h.char_ne_zero (by omega))]
        exact ih (by omega) (by omega)

theorem strlen_eq {s : Nat → UInt8} {cs : List UInt8} (h : CString s cs) {fuel : Nat}
    (hfuel : cs.length < fuel) : strlen fuel s = some cs.length :=
  strlenFrom_eq h (Nat.zero_le _) (by omega)

/-- The loop of `strncmp` from `i` on, with `left` characters to go. -/
def strncmpFrom (s1 s2 : Nat → UInt8) : Nat → Nat → Int
  | _, 0 => 0
  | i, left + 1 =>
      if s1 i ≠ s2 i then ((s1 i).toNat : Int) - (s2 i).toNat
      else if s1 i = 0 then 0
      else strncmpFrom s1 s2 (i + 1) left

def strncmp (s1 s2 : Nat → UInt8) (n : Nat) : Int := strncmpFrom s1 s2 0 n

end BayosKernel
