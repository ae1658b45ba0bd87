import Mathlib.Logic.Function.Basic
import BayosKernel.Foundation.ByteMemory

/-!
`memmove` of `string.c`, whose areas may overlap.
-/

namespace BayosKernel

open Foundation

/-- The loop of `memmove` that counts up from `i`, with `left` bytes to go. -/
def memmoveUp (pdest psrc : Nat) : Nat → Nat → ByteMemory → ByteMemory
  | _, 0, m => m
  | i, left + 1, m =>
      memmoveUp pdest psrc (i + 1) left
        (Function.update m (add64 pdest i) (m (add64 psrc i)))

/-- The loop of `memmove` that counts down from `i`. -/
def memmoveDown (pdest psrc : Nat) : Nat → ByteMemory → ByteMemory
  | 0, m => m
  | i + 1, m =>
      memmoveDown pdest psrc i (Function.update m (add64 pdest i) (m (add64 psrc i)))

def memmove (m : ByteMemory) (dest src n : Nat) : ByteMemory × Nat :=
  if src > dest then (memmoveUp dest src 0 n m, dest)
  else if src < dest then (memmoveDown dest src n m, dest)
  else (m, dest)

/-- The bytes from `lo` to `hi` of the destination are those that lay at the source
in `m`; no other byte has changed. -/
def Moved (m m' : ByteMemory) (dest src lo hi : Nat) : Prop :=
  ∀ x, m' x = if dest + lo ≤ x ∧ x < dest + hi then m (src + (x - dest)) else m x

namespace Moved

variable {m m' : ByteMemory} {dest src lo hi : Nat}

theorem refl (m : ByteMemory) (dest src i : Nat) : Moved m m dest src i i := by
  intro x
  rw [if_neg (by omega)]

/-- The next byte upwards has not been overwritten when the source lies higher. -/
theorem up (h : Moved m m' dest src lo hi) (hsrc : dest < src) (hlo : lo ≤ hi) :
    Moved m (Function.update m' (dest + hi) (m' (src + hi))) dest src lo (hi + 1) := by
  intro x
  by_cases hx : x = dest + hi
  · rw [hx, Function.update_self, h (src + hi), if_neg (by omega), if_pos (by omega),
      Nat.add_sub_cancel_left]
  · rw [Function.update_of_ne hx, h x]
    by_cases hin : dest + lo ≤ x ∧ x < dest + hi
    · rw [if_pos hin, if_pos (by omega)]
    · rw [if_neg hin, if_neg (by omega)]

/-- The next byte downwards has not been overwritten when the source lies lower. -/
theorem down (h : Moved m m' dest src (lo + 1) hi) (hsrc : src < dest) (hlo : lo < hi) :
    Moved m (Function.update m' (dest + lo) (m' (src + lo))) dest src lo hi := by
  intro x
  by_cases hx : x = dest + lo
  · rw [hx, Function.update_self, h (src + lo), if_neg (by omega), if_pos (by omega),
      Nat.add_sub_cancel_left]
  · rw [Function.update_of_ne hx, h x]
    by_cases hin : dest + (lo + 1) ≤ x ∧ x < dest + hi
    · rw [if_pos hin, if_pos (by omega)]
    · rw [if_neg hin, if_neg (by omega)]

end Moved

theorem memmoveUp_moved {m m' : ByteMemory} {dest src i left : Nat}
    (h : Moved m m' dest src 0 i) (hsrc : dest < src)
    (hend : src + (i + left) ≤ 0x10000000000000000) :
    Moved m (memmoveUp dest src i left m') dest src 0 (i + left) := by
  induction left generalizing i m' with
  | zero => exact h
  | succ left ih =>
      rw [memmoveUp, add64_eq (by omega), add64_eq (by omega), ← Nat.add_assoc,
        Nat.add_right_comm]
      exact ih (h.up hsrc (Nat.zero_le i)) (by omega)

theorem memmoveDown_moved {m m' : ByteMemory} {dest src i n : Nat}
    (h : Moved m m' dest src i n) (hsrc : src < dest) (hi : i ≤ n)
    (hend : dest + n ≤ 0x10000000000000000) :
    Moved m (memmoveDown dest src i m') dest src 0 n := by
  induction i generalizing m' with
  | zero => exact h
  | succ i ih =>
      rw [memmoveDown, add64_eq (by omega), add64_eq (by omega)]
      exact ih (h.down hsrc (by omega)) (by omega)

/-- Whatever the areas have in common, the bytes are copied as if at once. -/
theorem memmove_memcpy {m : ByteMemory} {dest src n : Nat}
    (hdest : dest + n ≤ 0x10000000000000000) (hsrc : src + n ≤ 0x10000000000000000) :
    memmove m dest src n = (m.memcpy dest src n, dest) := by
  have hmoved : ∀ {m'}, Moved m m' dest src 0 n → m' = m.memcpy dest src n := fun h => funext h
  rw [memmove]
  split
  · have hup := memmoveUp_moved (Moved.refl m dest src 0) ‹_› (by rwa [Nat.zero_add])
    rw [Nat.zero_add] at hup
    rw [hmoved hup]
  split
  · rw [hmoved (memmoveDown_moved (Moved.refl m dest src n) ‹_› (Nat.le_refl n) hdest)]
  · have hsame : src = dest := by omega
    have hkept : m = m.memcpy dest src n := by
      funext x
      rw [ByteMemory.memcpy]
      split
      · rw [hsame, Nat.add_sub_cancel' (by omega)]
      · rfl
    rw [← hkept]

/-- The bytes at the destination are those that were at the source, and no other
byte changes. -/
theorem memmove_moves {m : ByteMemory} {dest src n : Nat}
    (hdest : dest + n ≤ 0x10000000000000000) (hsrc : src + n ≤ 0x10000000000000000) :
    (∀ i < n, (memmove m dest src n).1 (dest + i) = m (src + i)) ∧
      (∀ x, x < dest ∨ dest + n ≤ x → (memmove m dest src n).1 x = m x) ∧
      (memmove m dest src n).2 = dest := by
  rw [memmove_memcpy hdest hsrc]
  exact ⟨fun i hi => m.memcpy_inside hi, fun x hx => m.memcpy_outside hx, rfl⟩

/-- Eight bytes are moved up by one. -/
theorem memmove_moves_overlap :
    (memmove (fun x => UInt8.ofNat x) 0x1001 0x1000 8).1 (0x1001 + 7) = 7 :=
  (@memmove_moves (fun x => UInt8.ofNat x) 0x1001 0x1000 8 (by decide) (by decide)).1 7 (by decide)

end BayosKernel
