import BayosKernel.StringFunctions

/-!
The functions of `string.c` with the bytes that they read. A pointer argument is
the sequence of the bytes from it on, of which some may not be read; the
functions answer `none` as soon as they read such a byte.
-/

namespace BayosKernel

open Foundation

/-- The string and its terminator may be read. -/
structure StringIn (s : Nat → Option UInt8) (cs : List UInt8) : Prop where
  chars : 0 ∉ cs
  bytes : ∀ i ≤ cs.length, s i = some (cs.getD i 0)

/-- The loop of `memcmp`. -/
def memcmpInFrom (s1 s2 : Nat → Option UInt8) : Nat → Nat → Option Int
  | _, 0 => some 0
  | i, left + 1 =>
      (s1 i).bind fun c1 =>
        (s2 i).bind fun c2 =>
          if c1 ≠ c2 then some (if c1 < c2 then -1 else 1) else memcmpInFrom s1 s2 (i + 1) left

def memcmpIn (s1 s2 : Nat → Option UInt8) (n : Nat) : Option Int := memcmpInFrom s1 s2 0 n

/-- The loop of `strlen`; `none` also stands for a loop that has not ended. -/
def strlenInFrom (s : Nat → Option UInt8) : Nat → Nat → Option Nat
  | 0, _ => none
  | fuel + 1, p => (s p).bind fun c => if c ≠ 0 then strlenInFrom s fuel (p + 1) else some p

def strlenIn (fuel : Nat) (s : Nat → Option UInt8) : Option Nat := strlenInFrom s fuel 0

/-- The loop of `strncmp`. -/
def strncmpInFrom (s1 s2 : Nat → Option UInt8) : Nat → Nat → Option Int
  | _, 0 => some 0
  | i, left + 1 =>
      (s1 i).bind fun c1 =>
        (s2 i).bind fun c2 =>
          if c1 ≠ c2 then some ((c1.toNat : Int) - c2.toNat)
          else if c1 = 0 then some 0
          else strncmpInFrom s1 s2 (i + 1) left

def strncmpIn (s1 s2 : Nat → Option UInt8) (n : Nat) : Option Int := strncmpInFrom s1 s2 0 n

/-- What `memcmp` answers with the bytes at hand is what it answers over the memory. -/
theorem memcmpInFrom_some {s1 s2 : Nat → Option UInt8} {t1 t2 : Nat → UInt8}
    (h1 : ∀ k c, s1 k = some c → t1 k = c) (h2 : ∀ k c, s2 k = some c → t2 k = c)
    {i left : Nat} {v : Int} (h : memcmpInFrom s1 s2 i left = some v) :
    memcmpFrom t1 t2 i left = v := by
  induction left generalizing i with
  | zero =>
      rw [memcmpInFrom] at h
      exact Option.some.inj h
  | succ left ih =>
      rw [memcmpInFrom] at h
      obtain ⟨c1, hc1, h⟩ := Option.bind_eq_some_iff.mp h
      obtain ⟨c2, hc2, h⟩ := Option.bind_eq_some_iff.mp h
      rw [memcmpFrom, h1 i c1 hc1, h2 i c2 hc2]
      by_cases hne : c1 ≠ c2
      · rw [if_pos hne] at h ⊢
        exact Option.some.inj h
      · rw [if_neg hne] at h ⊢
        exact ih h

theorem memcmpIn_some {s1 s2 : Nat → Option UInt8} {t1 t2 : Nat → UInt8}
    (h1 : ∀ k c, s1 k = some c → t1 k = c) (h2 : ∀ k c, s2 k = some c → t2 k = c)
    {n : Nat} {v : Int} (h : memcmpIn s1 s2 n = some v) : memcmp t1 t2 n = v :=
  memcmpInFrom_some h1 h2 h

/-- The bytes are the same, or one of them differs, or one before may not be read. -/
theorem memcmpInFrom_cases {s1 s2 : Nat → Option UInt8} {t : Nat → UInt8} {i left : Nat}
    (ht : ∀ k, i ≤ k → k < i + left → s2 k = some (t k)) :
    (memcmpInFrom s1 s2 i left = some 0 ∧ ∀ k, i ≤ k → k < i + left → s1 k = some (t k)) ∨
    (∃ v ≠ 0, memcmpInFrom s1 s2 i left = some v ∧
      ∃ j c, i ≤ j ∧ j < i + left ∧ s1 j = some c ∧ c ≠ t j) ∨
    (memcmpInFrom s1 s2 i left = none ∧
      ∃ j, i ≤ j ∧ j < i + left ∧ s1 j = none ∧ ∀ k, i ≤ k → k < j → s1 k = some (t k)) := by
  induction left generalizing i with
  | zero => exact Or.inl ⟨rfl, fun k hle hlt => by omega⟩
  | succ left ih =>
      have hi := ht i (Nat.le_refl i) (by omega)
      rw [memcmpInFrom, hi]
      cases hread : s1 i with
      | none =>
          exact Or.inr (Or.inr ⟨rfl, i, Nat.le_refl i, by omega, hread, fun k _ _ => by omega⟩)
      | some c =>
          simp only [Option.bind_some]
          by_cases hc : c = t i
          · rw [if_neg fun hne => hne hc]
            have hhead : ∀ k, i ≤ k → ¬i + 1 ≤ k → s1 k = some (t k) := fun k hle hnot => by
              rw [show k = i by omega, hread, hc]
            rcases ih (i := i + 1) fun k hle hlt => ht k (by omega) (by omega) with
              ⟨hzero, hall⟩ | ⟨v, hv, hcmp, j, d, hle, hlt, hj, hd⟩ | ⟨hnone, j, hle, hlt, hj, hall⟩
            · refine Or.inl ⟨hzero, fun k hle hlt => ?_⟩
              by_cases hk : i + 1 ≤ k
              · exact hall k hk (by omega)
              · exact hhead k hle hk
            · exact Or.inr (Or.inl ⟨v, hv, hcmp, j, d, by omega, by omega, hj, hd⟩)
            · refine Or.inr (Or.inr ⟨hnone, j, by omega, by omega, hj, fun k hle' hlt' => ?_⟩)
              by_cases hk : i + 1 ≤ k
              · exact hall k hk hlt'
              · exact hhead k hle' hk
          · rw [if_pos hc]
            refine Or.inr (Or.inl ⟨_, ?_, rfl, i, c, Nat.le_refl i, by omega, hread, hc⟩)
            split <;> decide

theorem memcmpIn_cases (s1 : Nat → Option UInt8) {s2 : Nat → Option UInt8} {t : Nat → UInt8}
    {n : Nat} (ht : ∀ k < n, s2 k = some (t k)) :
    (memcmpIn s1 s2 n = some 0 ∧ ∀ k < n, s1 k = some (t k)) ∨
    (∃ v ≠ 0, memcmpIn s1 s2 n = some v ∧ ∃ j < n, ∃ c, s1 j = some c ∧ c ≠ t j) ∨
    (memcmpIn s1 s2 n = none ∧ ∃ j < n, s1 j = none ∧ ∀ k < j, s1 k = some (t k)) := by
  rcases @memcmpInFrom_cases s1 s2 t 0 n
      fun k _ hlt => ht k (by omega) with
    ⟨hzero, hall⟩ | ⟨v, hv, hcmp, j, c, -, hlt, hj, hc⟩ | ⟨hnone, j, -, hlt, hj, hall⟩
  · exact Or.inl ⟨hzero, fun k hk => hall k (Nat.zero_le k) (by omega)⟩
  · exact Or.inr (Or.inl ⟨v, hv, hcmp, j, by omega, c, hj, hc⟩)
  · exact Or.inr (Or.inr ⟨hnone, j, by omega, hj, fun k hk => hall k (Nat.zero_le k) hk⟩)

namespace StringIn

variable {s t : Nat → Option UInt8} {cs ds : List UInt8}

theorem cstring (h : StringIn s cs) : CString (fun i => cs.getD i 0) cs := ⟨h.chars, fun _ _ => rfl⟩

theorem strlenInFrom (h : StringIn s cs) {fuel p : Nat} (hp : p ≤ cs.length)
    (hfuel : cs.length - p < fuel) : strlenInFrom s fuel p = some cs.length := by
  induction fuel generalizing p with
  | zero => omega
  | succ fuel ih =>
      rw [BayosKernel.strlenInFrom, h.bytes p hp, Option.bind_some]
      by_cases hend : p = cs.length
      · rw [hend, if_neg fun hne => hne h.cstring.terminator]
      · rw [if_pos (h.cstring.char_ne_zero (by omega))]
        exact ih (by omega) (by omega)

/-- `strlen` reads the string alone. -/
theorem strlenIn (h : StringIn s cs) {fuel : Nat} (hfuel : cs.length < fuel) :
    strlenIn fuel s = some cs.length :=
  h.strlenInFrom (Nat.zero_le _) (by omega)

theorem strncmpInFrom (hs : StringIn s cs) (ht : StringIn t ds) {i left : Nat}
    (hi : i ≤ cs.length) (hi' : i ≤ ds.length) :
    strncmpInFrom s t i left =
      some (strncmpFrom (fun k => cs.getD k 0) (fun k => ds.getD k 0) i left) := by
  induction left generalizing i with
  | zero => rfl
  | succ left ih =>
      rw [BayosKernel.strncmpInFrom, strncmpFrom, hs.bytes i hi, ht.bytes i hi', Option.bind_some,
        Option.bind_some]
      split
      · rfl
      · rename_i heq
        split
        · rfl
        · rename_i hchar
          -- neither string ends here
          have hne : i ≠ cs.length := fun hend => hchar (by rw [hend]; exact hs.cstring.terminator)
          have hne' : i ≠ ds.length := fun hend =>
            hchar ((not_not.mp heq).trans (by rw [hend]; exact ht.cstring.terminator))
          exact ih (by omega) (by omega)

/-- `strncmp` reads the strings alone, whatever the limit is. -/
theorem strncmpIn (hs : StringIn s cs) (ht : StringIn t ds) (n : Nat) :
    strncmpIn s t n = some (strncmp (fun k => cs.getD k 0) (fun k => ds.getD k 0) n) :=
  hs.strncmpInFrom ht (Nat.zero_le _) (Nat.zero_le _)

end StringIn

end BayosKernel
