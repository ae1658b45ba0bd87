import BayosKernel.Foundation.Numeral
import BayosKernel.Printk

/-!
The numbers that `%x` and `%d` print, against their numerals.
-/

namespace BayosKernel

open Foundation

/-- The digit `d` in lower case. -/
def hexByte (d : Nat) : UInt8 := hexDigits.getD d 0

/-- The lower-case hexadecimal numeral of `n`. -/
def HexText (n : Nat) (text : List Int32) : Prop :=
  ∃ ds, IsNumeral 16 n ds ∧ text = ds.map fun d => charInt (hexByte d)

def hexDigitOf (c : Int32) : Option Nat :=
  if charInt (chr '0') ≤ c ∧ c ≤ charInt (chr '9') then
    some (c - charInt (chr '0')).toNatClampNeg
  else if charInt (chr 'a') ≤ c ∧ c ≤ charInt (chr 'f') then
    some ((c - charInt (chr 'a')).toNatClampNeg + 10)
  else none

theorem hexDigitOf_hexByte : ∀ d < 16, hexDigitOf (charInt (hexByte d)) = some d := by
  decide

/-- The first elements of `buffer` are set to these characters. -/
def BufferHolds (buffer : Vector (Option UInt8) 16) (cs : List UInt8) : Prop :=
  ∀ (j : Nat) (c : UInt8), cs[j]? = some c → buffer[j]? = some (some c)

theorem BufferHolds.set {buffer : Vector (Option UInt8) 16} {cs : List UInt8}
    (h : BufferHolds buffer cs) (hroom : cs.length < 16) (c : UInt8) :
    BufferHolds (buffer.set cs.length (some c)) (cs ++ [c]) := by
  intro j d hj
  by_cases hlt : j < cs.length
  · rw [List.getElem?_append_left hlt] at hj
    rw [Vector.getElem?_set_ne (by omega) (by omega)]
    exact h j d hj
  · have hend : j = cs.length := by
      have := (List.getElem?_eq_some_iff.mp hj).1
      simp only [List.length_append, List.length_singleton] at this
      omega
    rw [hend, List.getElem?_concat_length] at hj
    rw [hend, Vector.getElem?_set_self, Option.some.inj hj]

/-- The first loop stores the digits that remain behind those it has stored. -/
theorem formatSpecXFill_eq {val : UInt64} {buffer : Vector (Option UInt8) 16} {cs : List UInt8}
    (h : BufferHolds buffer cs) (hroom : cs.length + (Nat.digits 16 val.toNat).length ≤ 16) :
    ∃ buffer', formatSpecXFill val cs.length buffer =
        some (buffer', (cs ++ (Nat.digits 16 val.toNat).map hexByte).length) ∧
      BufferHolds buffer' (cs ++ (Nat.digits 16 val.toNat).map hexByte) := by
  induction hn : val.toNat using Nat.strongRecOn generalizing val buffer cs with
  | _ n ih =>
  subst hn
  rw [formatSpecXFill]
  by_cases hval : val > 0
  · have hpos : 0 < val.toNat := UInt64.lt_iff_toNat_lt.mp hval
    have hdiv : (val / 16).toNat = val.toNat / 16 := UInt64.toNat_div val 16
    have hmod : (val % 16).toNat = val.toNat % 16 := UInt64.toNat_mod val 16
    have hdigits : Nat.digits 16 val.toNat =
        val.toNat % 16 :: Nat.digits 16 (val.toNat / 16) := Nat.digits_def' (by decide) hpos
    rw [hdigits, List.length_cons] at hroom
    have hdigit : hexDigits[(val % 16).toNat]? = some (hexByte (val.toNat % 16)) := by
      have hlt : val.toNat % 16 < hexDigits.length := Nat.mod_lt _ (by decide)
      rw [hmod, hexByte, List.getElem?_eq_getElem hlt, List.getD_eq_getElem _ _ hlt]
    obtain ⟨buffer', hfill, hholds⟩ := @ih (val.toNat / 16) (Nat.div_lt_self hpos (by decide))
      (val / 16) _ (cs ++ [hexByte (val.toNat % 16)]) (h.set (by omega) _)
      (by rw [hdiv, List.length_append, List.length_singleton]; omega) hdiv
    rw [List.length_append, List.length_singleton] at hfill
    rw [if_pos hval, dif_pos (by omega), hdigit, Option.bind_some, hfill, hdigits]
    refine ⟨buffer', ?_, ?_⟩
    · simp
    · simpa using hholds
  · have hzero : val.toNat = 0 := by
      rw [gt_iff_lt, UInt64.lt_iff_toNat_lt, show (0 : UInt64).toNat = 0 from rfl] at hval
      omega
    rw [if_neg hval, hzero, Nat.digits_zero, List.map_nil, List.append_nil]
    exact ⟨buffer, rfl, h⟩

/-- The second loop prints the stored characters from the last one on. -/
theorem formatSpecXEmit_eq {buffer : Vector (Option UInt8) 16} {cs : List UInt8}
    (h : BufferHolds buffer cs) (count : Int32) :
    formatSpecXEmit buffer cs.length count =
      some (cs.reverse.map charInt, count + Int32.ofNat cs.length) := by
  induction cs using List.reverseRecOn generalizing count with
  | nil => simp [formatSpecXEmit]
  | append_singleton cs c ih =>
      have hlast : buffer[cs.length]? = some (some c) := h _ _ List.getElem?_concat_length
      have hfirst : BufferHolds buffer cs := by
        intro j d hj
        refine h j d ?_
        rw [List.getElem?_append_left (List.getElem?_eq_some_iff.mp hj).1, hj]
      rw [List.length_append, List.length_singleton, formatSpecXEmit, hlast, Option.join_some,
        Option.bind_some, ih hfirst, Option.map_some, List.reverse_append, List.reverse_singleton,
        List.singleton_append, List.map_cons, Int32.ofNat_add, Int32.add_assoc,
        Int32.add_comm 1]
      rfl

theorem formatSpecX_eq (val : UInt64) : ∃ ds, IsNumeral 16 val.toNat ds ∧
    formatSpecX val = some (ds.map fun d => charInt (hexByte d), Int32.ofNat ds.length) := by
  by_cases hval : val = 0
  · refine ⟨[0], ?_, ?_⟩
    · rw [hval]
      exact IsNumeral.digit (show 0 < 16 by decide)
    · rw [formatSpecX, if_pos hval]
      rfl
  · have hne : val.toNat ≠ 0 := fun h => hval (UInt64.toNat_inj.mp h)
    refine ⟨_, IsNumeral.ofDigits (by decide) hne, ?_⟩
    have hlength : (Nat.digits 16 val.toNat).length ≤ 16 :=
      (Nat.digits_length_le_iff (by decide) _).mpr val.toNat_lt
    obtain ⟨buffer, hfill, hholds⟩ := @formatSpecXFill_eq val (Vector.replicate 16 none) []
      (by simp [BufferHolds]) (by simpa using hlength)
    rw [List.length_nil, List.nil_append] at hfill
    rw [List.nil_append] at hholds
    rw [formatSpecX, if_neg hval, hfill, Option.bind_some, formatSpecXEmit_eq hholds]
    simp [List.map_reverse, Function.comp_def]

/-- `format_spec_x` stays inside its arrays, prints the lower-case hexadecimal
numeral and returns its length; the text reads back as the value. -/
theorem formatSpecX_hexadecimal (val : UInt64) :
    ∃ text count, formatSpecX val = some (text, count) ∧ HexText val.toNat text ∧
      count.toInt = text.length ∧ readNumeral 16 hexDigitOf text = some val.toNat := by
  obtain ⟨ds, hds, hprint⟩ := formatSpecX_eq val
  have hlength : ds.length ≤ 16 := hds.length_le (by decide) (by decide) val.toNat_lt
  refine ⟨_, _, hprint, ⟨ds, hds, rfl⟩, ?_, readNumeral_map hds hexDigitOf_hexByte⟩
  rw [List.length_map]
  exact Int32.toInt_ofNat_of_lt (by omega)

/-- The digit `d`, as `'0' + d`. -/
def decimalChar (d : Nat) : Int32 := charInt (chr '0') + Int32.ofNat d

/-- The sign in front of a decimal numeral. -/
def signText (z : Int) : List Int32 := if z < 0 then [charInt (chr '-')] else []

/-- The decimal numeral of `z`. -/
def DecimalText (z : Int) (text : List Int32) : Prop :=
  ∃ ds, IsNumeral 10 z.natAbs ds ∧ text = signText z ++ ds.map decimalChar

def decimalDigitOf (c : Int32) : Option Nat :=
  if charInt (chr '0') ≤ c ∧ c ≤ charInt (chr '9') then
    some (c - charInt (chr '0')).toNatClampNeg
  else none

def readDecimal : List Int32 → Option Int
  | [] => none
  | c :: text =>
      if c = charInt (chr '-') then
        (readNumeral 10 decimalDigitOf text).map fun n : Nat => -(n : Int)
      else (readNumeral 10 decimalDigitOf (c :: text)).map fun n : Nat => (n : Int)

theorem decimalDigitOf_decimalChar : ∀ d < 10, decimalDigitOf (decimalChar d) = some d := by
  decide

theorem decimalChar_ne_sign : ∀ d < 10, decimalChar d ≠ charInt (chr '-') := by
  decide

theorem DecimalText.unique {z : Int} {text text' : List Int32} (h : DecimalText z text)
    (h' : DecimalText z text') : text = text' := by
  obtain ⟨ds, hds, rfl⟩ := h
  obtain ⟨es, hes, rfl⟩ := h'
  rw [hds.unique (by decide) hes]

/-- A decimal numeral reads back as its number. -/
theorem DecimalText.read {z : Int} {text : List Int32} (h : DecimalText z text) :
    readDecimal text = some z := by
  obtain ⟨ds, hds, rfl⟩ := h
  have hread := readNumeral_map hds decimalDigitOf_decimalChar
  by_cases hz : z < 0
  · rw [signText, if_pos hz, List.singleton_append, readDecimal, if_pos rfl, hread,
      Option.map_some]
    congr 1
    omega
  · rw [signText, if_neg hz, List.nil_append]
    cases ds with
    | nil => exact absurd rfl hds.nonempty
    | cons d ds =>
        have hne := decimalChar_ne_sign d (hds.digits d List.mem_cons_self)
        rw [List.map_cons] at hread ⊢
        rw [readDecimal, if_neg hne, hread, Option.map_some]
        congr 1
        omega

/-- What is asked of the text and of the count that `format_spec_d` gives. -/
structure WritesDecimal (val : Int32) (r : List Int32 × Int32) : Prop where
  text : DecimalText val.toInt r.1
  count : r.2.toInt = r.1.length
  read : readDecimal r.1 = some val.toInt

/-- The last digit. -/
theorem decimalChar_rem {val : Int32} (h : val ≠ Int32.minValue) :
    charInt (chr '0') + unsignedPart val % 10 = decimalChar (val.toInt.natAbs % 10) := by
  have hrem : unsignedPart val % 10 = Int32.ofNat (val.toInt.natAbs % 10) := by
    refine Int32.toInt_inj.mp ?_
    rw [Int32.toInt_mod, unsignedPart_toInt h, show (10 : Int32).toInt = 10 from rfl,
      Int.tmod_eq_emod_of_nonneg (by omega), Int32.toInt_ofNat_of_lt (by omega)]
    omega
  rw [hrem, decimalChar]

theorem formatSpecD_sign (val : Int32) :
    (if val < 0 then ([charInt (chr '-')], (1 : Int32)) else ([], 0)) =
      (signText val.toInt, Int32.ofNat (signText val.toInt).length) := by
  have hzero : val < 0 ↔ val.toInt < 0 := Int32.lt_iff_toInt_lt
  simp only [signText, hzero]
  split <;> rfl

/-- All digits but the last are those of the quotient by ten. -/
theorem formatSpecD_eq {val : Int32} (h : val ≠ Int32.minValue) :
    ∃ ds, IsNumeral 10 val.toInt.natAbs ds ∧
      formatSpecD val = (signText val.toInt ++ ds.map decimalChar,
        Int32.ofNat (signText val.toInt ++ ds.map decimalChar).length) := by
  induction val using formatSpecD.induct with
  | case1 val ih =>
      rw [formatSpecD, formatSpecD_sign, decimalChar_rem h]
      by_cases hten : unsignedPart val ≥ 10
      · have hdiv := unsignedPart_div hten
        have hquot : 10 ≤ (val.toInt.natAbs : Int) := by
          rw [← unsignedPart_toInt h]
          exact Int32.le_iff_toInt_le.mp hten
        have hmin : unsignedPart val / 10 ≠ Int32.minValue := by
          intro heq
          rw [heq] at hdiv
          have : Int32.minValue.toInt = -0x80000000 := rfl
          omega
        obtain ⟨ds, hds, hrec⟩ := ih hten hmin
        have hsign : signText (val.toInt.natAbs / 10 : Int) = [] := if_neg (by omega)
        have habs : (val.toInt.natAbs / 10 : Int).natAbs = val.toInt.natAbs / 10 := by omega
        rw [hdiv, habs] at hds
        rw [hdiv, hsign, List.nil_append] at hrec
        have hsnoc := hds.snoc (by omega) (Nat.mod_lt val.toInt.natAbs (show 0 < 10 by decide))
        rw [Nat.div_add_mod'] at hsnoc
        refine ⟨_, hsnoc, ?_⟩
        rw [if_pos hten, hrec]
        simp [Int32.add_assoc]
      · have hlt : val.toInt.natAbs < 10 := by
          rw [ge_iff_le, Int32.le_iff_toInt_le, unsignedPart_toInt h] at hten
          have : (10 : Int32).toInt = 10 := rfl
          omega
        refine ⟨_, IsNumeral.digit hlt, ?_⟩
        rw [if_neg hten, Nat.mod_eq_of_lt hlt]
        simp

theorem formatSpecD_min :
    formatSpecD Int32.minValue = ([charInt (chr '-'), charInt (chr '(')], 2) := by
  rw [formatSpecD]
  decide

/-- `format_spec_d` prints the decimal numeral of every `int` but the smallest,
which is its own negation. -/
theorem formatSpecD_decimal_iff (val : Int32) :
    WritesDecimal val (formatSpecD val) ↔ val ≠ Int32.minValue := by
  constructor
  · rintro h rfl
    have hread := h.read
    rw [formatSpecD_min] at hread
    revert hread
    decide
  · intro h
    obtain ⟨ds, hds, hprint⟩ := formatSpecD_eq h
    have htext : DecimalText val.toInt (formatSpecD val).1 := ⟨ds, hds, by rw [hprint]⟩
    refine ⟨htext, ?_, htext.read⟩
    have hlength : ds.length ≤ 10 :=
      hds.length_le (by decide) (by decide) (by have := val.le_toInt; have := val.toInt_lt; omega)
    rw [hprint]
    refine Int32.toInt_ofNat_of_lt ?_
    rw [List.length_append, List.length_map, signText]
    split <;> simp <;> omega

/-- The smallest `int` is printed as "-(". -/
theorem formatSpecD_minValue : ¬∀ val, WritesDecimal val (formatSpecD val) := by
  intro h
  have hread := (h Int32.minValue).read
  rw [formatSpecD_min] at hread
  revert hread
  decide

end BayosKernel
