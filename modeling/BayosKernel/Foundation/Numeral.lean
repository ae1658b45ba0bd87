import Mathlib.Data.Nat.Digits.Lemmas

/-!
Numerals to a base, as lists of digits with the most significant one first.
-/

namespace Foundation

/-- The numeral of `n`: it has a digit, and the first one is 0 only when it is alone. -/
structure IsNumeral (b n : Nat) (ds : List Nat) : Prop where
  digits : ∀ d ∈ ds, d < b
  nonempty : ds ≠ []
  leading : ds.head? = some 0 → ds = [0]
  value : Nat.ofDigits b ds.reverse = n

namespace IsNumeral

variable {b n d : Nat} {ds es : List Nat}

theorem digit (h : n < b) : IsNumeral b n [n] where
  digits := by simpa using h
  nonempty := by simp
  leading := by simp
  value := by simp

/-- A digit is written behind the numeral of a number that is not 0. -/
theorem snoc (h : IsNumeral b n ds) (hn : 0 < n) (hd : d < b) :
    IsNumeral b (n * b + d) (ds ++ [d]) where
  digits := by
    intro e he
    rcases List.mem_append.mp he with he | he
    · exact h.digits e he
    · rw [List.mem_singleton.mp he]
      exact hd
  nonempty := by simp
  leading := by
    intro hhead
    rw [List.head?_append_of_ne_nil _ h.nonempty] at hhead
    have hzero := h.value
    rw [h.leading hhead] at hzero
    simp at hzero
    omega
  value := by
    rw [List.reverse_append, List.reverse_singleton, List.singleton_append, Nat.ofDigits_cons,
      h.value]
    simp [Nat.mul_comm, Nat.add_comm]

theorem ofDigits (hb : 1 < b) (hn : n ≠ 0) : IsNumeral b n (Nat.digits b n).reverse where
  digits := fun d hd => Nat.digits_lt_base hb (List.mem_reverse.mp hd)
  nonempty := by
    intro hnil
    exact Nat.digits_ne_nil_iff_ne_zero.mpr hn (List.reverse_eq_nil_iff.mp hnil)
  leading := by
    intro hhead
    rw [List.head?_reverse, List.getLast?_eq_some_getLast (Nat.digits_ne_nil_iff_ne_zero.mpr hn)]
      at hhead
    exact absurd (Option.some.inj hhead) (Nat.getLast_digit_ne_zero b hn)
  value := by rw [List.reverse_reverse, Nat.ofDigits_digits]

theorem exists_numeral (hb : 1 < b) (n : Nat) : ∃ ds, IsNumeral b n ds := by
  by_cases hn : n = 0
  · exact ⟨[n], digit (by omega)⟩
  · exact ⟨_, ofDigits hb hn⟩

/-- A numeral either is the single digit 0 or has the digits of its number. -/
theorem eq_cases (hb : 1 < b) (h : IsNumeral b n ds) :
    (n = 0 ∧ ds = [0]) ∨ (n ≠ 0 ∧ ds = (Nat.digits b n).reverse) := by
  have hvalue := h.value
  by_cases hhead : ds.head? = some 0
  · rw [h.leading hhead] at hvalue
    exact Or.inl ⟨by simpa using hvalue.symm, h.leading hhead⟩
  · have hdigits : Nat.digits b n = ds.reverse := by
      rw [← hvalue]
      refine Nat.digits_ofDigits b hb _ (fun d hd => h.digits d (List.mem_reverse.mp hd)) ?_
      intro hne hlast
      rw [List.getLast_reverse] at hlast
      exact hhead (by rw [← hlast, List.head?_eq_some_head])
    refine Or.inr ⟨?_, by rw [hdigits, List.reverse_reverse]⟩
    rintro rfl
    rw [Nat.digits_zero] at hdigits
    exact h.nonempty (List.reverse_eq_nil_iff.mp hdigits.symm)

/-- A number has one numeral. -/
theorem unique (hb : 1 < b) (h : IsNumeral b n ds) (h' : IsNumeral b n es) : ds = es := by
  rcases h.eq_cases hb with ⟨hn, hds⟩ | ⟨hn, hds⟩ <;>
    rcases h'.eq_cases hb with ⟨hn', hes⟩ | ⟨hn', hes⟩
  · rw [hds, hes]
  · exact absurd hn hn'
  · exact absurd hn' hn
  · rw [hds, hes]

/-- A number below `b ^ k` has `k` digits at most. -/
theorem length_le (hb : 1 < b) (h : IsNumeral b n ds) {k : Nat} (hk : 0 < k) (hn : n < b ^ k) :
    ds.length ≤ k := by
  rcases h.eq_cases hb with ⟨-, hds⟩ | ⟨-, hds⟩
  · rw [hds]
    exact hk
  · rw [hds, List.length_reverse]
    exact (Nat.digits_length_le_iff hb n).mpr hn

end IsNumeral

variable {α : Type*}

/-- Reads a text that is made of digits only. -/
def readNumeral (b : Nat) (digitOf : α → Option Nat) : List α → Option Nat
  | [] => none
  | c :: text =>
      ((c :: text).mapM digitOf).map fun ds => Nat.ofDigits b ds.reverse

theorem mapM_digitOf {b : Nat} {ds : List Nat} {digitOf : α → Option Nat} {char : Nat → α}
    (hds : ∀ d ∈ ds, d < b) (hchar : ∀ d < b, digitOf (char d) = some d) :
    (ds.map char).mapM digitOf = some ds := by
  induction ds with
  | nil => rfl
  | cons d ds ih =>
      obtain ⟨hd, hds⟩ := List.forall_mem_cons.mp hds
      simp [hchar d hd, ih hds]

/-- Reading gives back the number that was written. -/
theorem readNumeral_map {b n : Nat} {ds : List Nat} {digitOf : α → Option Nat} {char : Nat → α}
    (h : IsNumeral b n ds) (hchar : ∀ d < b, digitOf (char d) = some d) :
    readNumeral b digitOf (ds.map char) = some n := by
  have hmap := mapM_digitOf h.digits hchar
  cases ds with
  | nil => exact absurd rfl h.nonempty
  | cons d ds =>
      rw [List.map_cons] at hmap ⊢
      rw [readNumeral, hmap, Option.map_some, h.value]

end Foundation
