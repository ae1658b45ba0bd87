import Mathlib.Logic.Basic

/-!
Byte-addressed memory with little-endian words, and 64-bit arithmetic.

Addresses are natural numbers and do not wrap by themselves: code with 64-bit
pointers reduces every address it computes with `add64`, `sub64` and `mul64`.
-/

namespace Foundation

def add64 (a b : Nat) : Nat := (a + b) % 0x10000000000000000

def sub64 (a b : Nat) : Nat := (a + 0x10000000000000000 - b) % 0x10000000000000000

def mul64 (a b : Nat) : Nat := a * b % 0x10000000000000000

theorem add64_eq {a b : Nat} (h : a + b < 0x10000000000000000) : add64 a b = a + b :=
  Nat.mod_eq_of_lt h

theorem mul64_eq {a b : Nat} (h : a * b < 0x10000000000000000) : mul64 a b = a * b :=
  Nat.mod_eq_of_lt h

theorem sub64_eq {a b : Nat} (h : b ≤ a) (ha : a < 0x10000000000000000) :
    sub64 a b = a - b := by
  unfold sub64
  omega

abbrev ByteMemory := Nat → UInt8

namespace ByteMemory

/-- One more than the largest value that `w` bytes hold. -/
def capacity : Nat → Nat
  | 0 => 1
  | w + 1 => 0x100 * capacity w

def load (m : ByteMemory) : Nat → Nat → Nat
  | 0, _ => 0
  | w + 1, a => (m a).toNat + 0x100 * load m w (a + 1)

def store (m : ByteMemory) : Nat → Nat → Nat → ByteMemory
  | 0, _, _ => m
  | w + 1, a, v => fun x => if x = a then UInt8.ofNat v else store m w (a + 1) (v / 0x100) x

/-- `memset(p, v, len)`. -/
def memset (m : ByteMemory) (p : Nat) (v : UInt8) (len : Nat) : ByteMemory :=
  fun x => if p ≤ x ∧ x < p + len then v else m x

theorem memset_outside (m : ByteMemory) {p len x : Nat} {v : UInt8} (h : x < p ∨ p + len ≤ x) :
    memset m p v len x = m x := by
  rw [memset, if_neg (by omega)]

theorem memset_inside (m : ByteMemory) {p len x : Nat} {v : UInt8} (h : p ≤ x ∧ x < p + len) :
    memset m p v len x = v := by
  rw [memset, if_pos h]

/-- `memcpy(dst, src, len)` of areas that do not overlap. -/
def memcpy (m : ByteMemory) (dst src len : Nat) : ByteMemory :=
  fun x => if dst ≤ x ∧ x < dst + len then m (src + (x - dst)) else m x

theorem memcpy_outside (m : ByteMemory) {dst src len x : Nat} (h : x < dst ∨ dst + len ≤ x) :
    memcpy m dst src len x = m x := by
  rw [memcpy, if_neg (by omega)]

theorem memcpy_inside (m : ByteMemory) {dst src len i : Nat} (hi : i < len) :
    memcpy m dst src len (dst + i) = m (src + i) := by
  rw [memcpy, if_pos (by omega), Nat.add_sub_cancel_left]

theorem load_congr {m m' : ByteMemory} {w a : Nat}
    (h : ∀ x, a ≤ x → x < a + w → m' x = m x) : load m' w a = load m w a := by
  induction w generalizing a with
  | zero => rfl
  | succ w ih =>
      have hhead : m' a = m a := h a (Nat.le_refl a) (by omega)
      have htail : load m' w (a + 1) = load m w (a + 1) :=
        ih fun x hx hlt => h x (by omega) (by omega)
      simp only [load, hhead, htail]

theorem load_zero {m : ByteMemory} {w a : Nat} (h : ∀ x, a ≤ x → x < a + w → m x = 0) :
    load m w a = 0 := by
  induction w generalizing a with
  | zero => rfl
  | succ w ih =>
      have hhead : m a = 0 := h a (Nat.le_refl a) (by omega)
      have htail : load m w (a + 1) = 0 := ih fun x hx hlt => h x (by omega) (by omega)
      simp [load, hhead, htail]

theorem load_eq_zero_iff {m : ByteMemory} {w a : Nat} :
    load m w a = 0 ↔ ∀ x, a ≤ x → x < a + w → m x = 0 := by
  refine ⟨fun h => ?_, load_zero⟩
  induction w generalizing a with
  | zero =>
      intro x hle hlt
      omega
  | succ w ih =>
      simp only [load] at h
      have hhead : m a = 0 := UInt8.toNat_inj.mp (show (m a).toNat = 0 by omega)
      have htail := ih (a := a + 1) (by omega)
      intro x hle hlt
      by_cases hx : x = a
      · rw [hx, hhead]
      · exact htail x (by omega) (by omega)

theorem store_outside (m : ByteMemory) {w a v x : Nat} (h : x < a ∨ a + w ≤ x) :
    store m w a v x = m x := by
  induction w generalizing a v with
  | zero => rfl
  | succ w ih =>
      have hne : x ≠ a := by omega
      simp only [store, if_neg hne]
      exact ih (by omega)

theorem load_store_apart (m : ByteMemory) {w a v u b : Nat} (h : b + u ≤ a ∨ a + w ≤ b) :
    load (store m w a v) u b = load m u b :=
  load_congr fun _ _ _ => store_outside m (by omega)

theorem load_store (m : ByteMemory) {w a v : Nat} (hv : v < capacity w) :
    load (store m w a v) w a = v := by
  induction w generalizing a v with
  | zero =>
      simp only [capacity] at hv
      simp only [load]
      omega
  | succ w ih =>
      have hhigh : v / 0x100 < capacity w := by
        simp only [capacity] at hv
        omega
      have htail : load (store m (w + 1) a v) w (a + 1) = v / 0x100 := by
        rw [← ih (a := a + 1) hhigh]
        refine load_congr fun x hx _ => ?_
        have hne : x ≠ a := by omega
        simp only [store, if_neg hne]
      have hhead : (store m (w + 1) a v a).toNat = v % 0x100 := by
        simp [store]
      simp only [load, htail, hhead]
      omega

/-- The case of a 64-bit word. -/
theorem load_store_word (m : ByteMemory) {a v : Nat} (hv : v < 0x10000000000000000) :
    load (store m 8 a v) 8 a = v :=
  load_store m (show v < capacity 8 from hv)

/-- Structs of `k` words each at these addresses, none of which overlap. -/
def Spread (k : Nat) (ps : List Nat) : Prop :=
  ∀ p ∈ ps, ∀ q ∈ ps, p ≠ q → p + 8 * k ≤ q ∨ q + 8 * k ≤ p

/-- A store to one word of one struct. -/
theorem load_store_field (m : ByteMemory) {k : Nat} {ps : List Nat} (h : Spread k ps)
    {p q i j v : Nat} (hp : p ∈ ps) (hq : q ∈ ps) (hi : i < k) (hj : j < k)
    (hv : v < 0x10000000000000000) :
    load (store m 8 (q + 8 * j) v) 8 (p + 8 * i) =
      if p = q ∧ i = j then v else load m 8 (p + 8 * i) := by
  by_cases hpq : p = q
  · by_cases hij : i = j
    · rw [if_pos ⟨hpq, hij⟩, hpq, hij, load_store_word m hv]
    · rw [if_neg fun hand => hij hand.2, load_store_apart m (by omega)]
  · have := h p hp q hq hpq
    rw [if_neg fun hand => hpq hand.1, load_store_apart m (by omega)]

theorem load_lt (m : ByteMemory) (w a : Nat) : load m w a < capacity w := by
  induction w generalizing a with
  | zero => simp [load, capacity]
  | succ w ih =>
      have hhead : (m a).toNat < 0x100 := (m a).toNat_lt
      have htail := ih (a + 1)
      simp only [load, capacity]
      omega

end ByteMemory

end Foundation
