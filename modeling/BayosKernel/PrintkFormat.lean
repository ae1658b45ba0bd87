import BayosKernel.NumberFormats

/-!
What a format stands for, and when `printk` prints it.
-/

namespace BayosKernel

open Foundation

/-- The characters behind '%' that take an argument. -/
def takesArg (spec : UInt8) : Prop :=
  spec = chr 'x' ∨ spec = chr 'c' ∨ spec = chr 's' ∨ spec = chr 'd'

instance (spec : UInt8) : Decidable (takesArg spec) := by
  unfold takesArg
  infer_instance

/-- `Converts m spec args rest text`: '%' and `spec` stand for `text` and leave `rest` of the
arguments. -/
inductive Converts (m : ByteMemory) : UInt8 → List UInt64 → List UInt64 → List Int32 → Prop
  | hexadecimal {w : UInt64} {args : List UInt64} {text : List Int32}
      (h : HexText w.toNat text) : Converts m (chr 'x') (w :: args) args text
  | percent (args : List UInt64) : Converts m (chr '%') args args [charInt (chr '%')]
  | character (w : UInt64) (args : List UInt64) : Converts m (chr 'c') (w :: args) args [vaInt w]
  | string {w : UInt64} {args : List UInt64} {s : List UInt8}
      (h : CString (bytesFrom m w.toNat) s) : Converts m (chr 's') (w :: args) args (s.map charInt)
  | decimal {w : UInt64} {args : List UInt64} {text : List Int32}
      (h : DecimalText (vaInt w).toInt text) : Converts m (chr 'd') (w :: args) args text
  | unknown {spec : UInt8} (args : List UInt64) (h : ¬takesArg spec) (hne : spec ≠ chr '%') :
      Converts m spec args args []

/-- `Expands m cs args out`: the arguments match the format `cs`, which stands for `out`. -/
inductive Expands (m : ByteMemory) : List UInt8 → List UInt64 → List Int32 → Prop
  | stop (args : List UInt64) : Expands m [] args []
  | lone (args : List UInt64) : Expands m [chr '%'] args []
  | literal {c : UInt8} {cs : List UInt8} {args : List UInt64} {out : List Int32}
      (hc : c ≠ chr '%') (h : Expands m cs args out) : Expands m (c :: cs) args (charInt c :: out)
  | conversion {spec : UInt8} {cs : List UInt8} {args rest : List UInt64}
      {text out : List Int32} (hspec : Converts m spec args rest text)
      (h : Expands m cs rest out) : Expands m (chr '%' :: spec :: cs) args (text ++ out)

/-- Each specifier that takes an argument finds one, and "%s" finds a string. -/
def ArgsMatch (m : ByteMemory) : List UInt8 → List UInt64 → Prop
  | [], _ => True
  | [_], _ => True
  | c :: d :: cs, args =>
      if c = chr '%' then
        (takesArg d → ∃ w rest, args = w :: rest ∧
          (d = chr 's' → ∃ s, CString (bytesFrom m w.toNat) s)) ∧
        ArgsMatch m cs (if takesArg d then args.tail else args)
      else ArgsMatch m (d :: cs) args

/-- The last specifier of the format has no character. -/
def EndsInPercent : List UInt8 → Prop
  | [] => False
  | [c] => c = chr '%'
  | c :: d :: cs => if c = chr '%' then EndsInPercent cs else EndsInPercent (d :: cs)

/-- The value that '%' and `spec` print in decimal, if they do. -/
def decimalArg (spec : UInt8) (args : List UInt64) : List Int32 :=
  if spec = chr 'd' then (args.take 1).map vaInt else []

/-- The values that a format prints in decimal. -/
def decimalArgs : List UInt8 → List UInt64 → List Int32
  | [], _ => []
  | [_], _ => []
  | c :: d :: cs, args =>
      if c = chr '%' then
        decimalArg d args ++ decimalArgs cs (if takesArg d then args.tail else args)
      else decimalArgs (d :: cs) args

/-- The text `out` of a format `cs`, its length, and no read behind the terminator. -/
structure Prints (cs : List UInt8) (out : List Int32) (st : PrintkState) : Prop where
  text : st.out = out
  count : st.count.toInt = out.length
  reads : ∀ i ∈ st.reads, i ≤ cs.length

/-- A specifier stands for some text, whatever the argument that it finds. -/
theorem Converts.of_arg {m : ByteMemory} {spec : UInt8} {args : List UInt64}
    (h : takesArg spec → ∃ w rest, args = w :: rest ∧
      (spec = chr 's' → ∃ s, CString (bytesFrom m w.toNat) s)) :
    ∃ text, Converts m spec args (if takesArg spec then args.tail else args) text := by
  by_cases htakes : takesArg spec
  · obtain ⟨w, rest, rfl, hstring⟩ := h htakes
    rw [if_pos htakes, List.tail_cons]
    rcases htakes with rfl | rfl | rfl | rfl
    · obtain ⟨ds, hds⟩ := IsNumeral.exists_numeral (show 1 < 16 by decide) w.toNat
      exact ⟨_, .hexadecimal ⟨ds, hds, rfl⟩⟩
    · exact ⟨_, .character w rest⟩
    · obtain ⟨s, hs⟩ := hstring rfl
      exact ⟨_, .string hs⟩
    · obtain ⟨ds, hds⟩ := IsNumeral.exists_numeral (show 1 < 10 by decide) (vaInt w).toInt.natAbs
      exact ⟨_, .decimal ⟨ds, hds, rfl⟩⟩
  · rw [if_neg htakes]
    by_cases hspec : spec = chr '%'
    · rw [hspec]
      exact ⟨_, .percent args⟩
    · exact ⟨_, .unknown args htakes hspec⟩

/-- A format stands for some text whenever its arguments match. -/
theorem ArgsMatch.expands {m : ByteMemory} {cs : List UInt8} {args : List UInt64}
    (h : ArgsMatch m cs args) : ∃ out, Expands m cs args out := by
  induction cs, args using ArgsMatch.induct with
  | case1 args => exact ⟨[], .stop args⟩
  | case2 c args =>
      by_cases hc : c = chr '%'
      · rw [hc]
        exact ⟨[], .lone args⟩
      · exact ⟨_, .literal hc (.stop args)⟩
  | case3 d cs args ih =>
      rw [ArgsMatch, if_pos rfl] at h
      obtain ⟨text, hspec⟩ := Converts.of_arg h.1
      obtain ⟨out, hout⟩ := ih h.2
      exact ⟨_, .conversion hspec hout⟩
  | case4 c d cs args hc ih =>
      rw [ArgsMatch, if_neg hc] at h
      obtain ⟨out, hout⟩ := ih h
      exact ⟨_, .literal hc hout⟩

theorem cstring_cons {s : Nat → UInt8} {p : Nat} {c : UInt8} {cs : List UInt8}
    (h : CString (bytesFrom s p) (c :: cs)) :
    s p = c ∧ c ≠ 0 ∧ CString (bytesFrom s (p + 1)) cs := by
  have hhead : s p = c := h.bytes 0 (Nat.zero_le _)
  refine ⟨hhead, fun hc => h.chars (hc ▸ List.mem_cons_self), ?_⟩
  refine (h.tail (List.cons_ne_nil c cs)).congr fun i _ => ?_
  simp only [bytesFrom, Nat.add_assoc]

theorem formatSpecSFrom_eq {s : Nat → UInt8} {cs : List UInt8} {fuel c : Nat}
    (h : CString (bytesFrom s c) cs) (hfuel : cs.length < fuel) (count : Int32) :
    formatSpecSFrom s fuel c count =
      some (cs.map charInt, count + Int32.ofNat cs.length) := by
  induction cs generalizing fuel c count with
  | nil =>
      obtain ⟨k, rfl⟩ := Nat.exists_eq_add_of_lt hfuel
      have hend : s c = 0 := h.terminator
      simp [formatSpecSFrom, hend]
  | cons d cs ih =>
      obtain ⟨k, rfl⟩ : ∃ k, fuel = k + 1 := ⟨fuel - 1, by omega⟩
      obtain ⟨hhead, hne, htail⟩ := cstring_cons h
      rw [List.length_cons] at hfuel
      rw [formatSpecSFrom, hhead, if_pos hne, ih htail (by omega), Option.map_some,
        List.map_cons, List.length_cons, Int32.ofNat_add, Int32.add_assoc,
        Int32.add_comm (Int32.ofNat cs.length)]
      rfl

/-- `text'` is `text`, and it is shorter instead in the case `p`. -/
def Cut (p : Prop) (text' text : List Int32) : Prop :=
  (¬p → text' = text) ∧ (p → text'.length < text.length)

namespace Cut

variable {p q : Prop} {text text' out out' : List Int32}

theorem refl (hp : ¬p) (text : List Int32) : Cut p text text :=
  ⟨fun _ => rfl, fun h => absurd h hp⟩

theorem length_le (h : Cut p text' text) : text'.length ≤ text.length := by
  by_cases hp : p
  · exact Nat.le_of_lt (h.2 hp)
  · rw [h.1 hp]

theorem append (h : Cut p text' text) (h' : Cut q out' out) :
    Cut (p ∨ q) (text' ++ out') (text ++ out) := by
  have hle := h.length_le
  have hle' := h'.length_le
  refine ⟨fun hnone => ?_, fun hone => ?_⟩
  · rw [not_or] at hnone
    rw [h.1 hnone.1, h'.1 hnone.2]
  · rw [List.length_append, List.length_append]
    rcases hone with hp | hq
    · have := h.2 hp
      omega
    · have := h'.2 hq
      omega

end Cut

theorem DecimalText.min_length {text : List Int32}
    (h : DecimalText Int32.minValue.toInt text) : text.length = 11 := by
  have hmin : IsNumeral 10 Int32.minValue.toInt.natAbs [2, 1, 4, 7, 4, 8, 3, 6, 4, 8] :=
    ⟨by decide, by decide, by decide, by decide⟩
  rw [h.unique ⟨_, hmin, rfl⟩]
  decide

theorem formatSpecD_cut {val : Int32} {text : List Int32} (h : DecimalText val.toInt text) :
    ∃ text', formatSpecD val = (text', Int32.ofNat text'.length) ∧
      Cut (val = Int32.minValue) text' text := by
  by_cases hval : val = Int32.minValue
  · subst hval
    refine ⟨_, formatSpecD_min, fun hne => absurd rfl hne, fun _ => ?_⟩
    rw [h.min_length]
    decide
  · obtain ⟨ds, hds, hprint⟩ := formatSpecD_eq hval
    exact ⟨_, hprint, fun _ => DecimalText.unique ⟨ds, hds, rfl⟩ h, fun heq => absurd heq hval⟩

theorem HexText.eq {n : Nat} {ds : List Nat} {text : List Int32} (h : HexText n text)
    (hds : IsNumeral 16 n ds) : text = ds.map fun d => charInt (hexByte d) := by
  obtain ⟨es, hes, rfl⟩ := h
  rw [hes.unique (by decide) hds]

/-- `printk` prints a conversion as `text'`, when strings have enough fuel. -/
def Switches (m : ByteMemory) (spec : UInt8) (args rest : List UInt64) (text' : List Int32) :
    Prop :=
  ∃ n, ∀ fuel st, n ≤ fuel → st.args = args → printkSwitch fuel m spec st =
    some ({ st with args := rest }.print (text', Int32.ofNat text'.length))

theorem PrintkState.vaArg_cons {st : PrintkState} {w : UInt64} {args : List UInt64}
    {format : UInt64 → Option (List Int32 × Int32)} {r : List Int32 × Int32}
    (hargs : st.args = w :: args) (hformat : format w = some r) :
    st.vaArg format = some ({ st with args := args }.print r) := by
  rw [vaArg, hargs]
  simp only [hformat, Option.map_some]

theorem decimalArg_of_ne {spec : UInt8} (hspec : spec ≠ chr 'd') (args : List UInt64) :
    Int32.minValue ∉ decimalArg spec args := by
  rw [decimalArg, if_neg hspec]
  exact List.not_mem_nil

/-- A conversion prints what it stands for, a smallest `int` in decimal apart. -/
theorem Converts.switches {m : ByteMemory} {spec : UInt8} {args rest : List UInt64}
    {text : List Int32} (h : Converts m spec args rest text) :
    ∃ text', Switches m spec args rest text' ∧
      Cut (Int32.minValue ∈ decimalArg spec args) text' text := by
  cases h with
  | @hexadecimal w args text h =>
      obtain ⟨ds, hds, hprint⟩ := formatSpecX_eq w
      rw [h.eq hds]
      refine ⟨_, ⟨0, fun fuel st _ hargs => ?_⟩, Cut.refl (decimalArg_of_ne (by decide) _) _⟩
      rw [printkSwitch, if_pos rfl, PrintkState.vaArg_cons hargs hprint, List.length_map]
  | percent args =>
      refine ⟨_, ⟨0, fun fuel st _ hargs => ?_⟩, Cut.refl (decimalArg_of_ne (by decide) _) _⟩
      rw [printkSwitch, if_neg (by decide), if_pos rfl, ← hargs]
      rfl
  | character w args =>
      refine ⟨_, ⟨0, fun fuel st _ hargs => ?_⟩, Cut.refl (decimalArg_of_ne (by decide) _) _⟩
      rw [printkSwitch, if_neg (by decide), if_neg (by decide), if_pos rfl,
        PrintkState.vaArg_cons hargs rfl]
      rfl
  | @string w args s h =>
      refine ⟨_, ⟨s.length + 1, fun fuel st hfuel hargs => ?_⟩,
        Cut.refl (decimalArg_of_ne (by decide) _) _⟩
      have hprint : formatSpecS fuel (bytesFrom m w.toNat) =
          some (s.map charInt, Int32.ofNat (s.map charInt).length) := by
        have hstart : CString (bytesFrom (bytesFrom m w.toNat) 0) s :=
          h.congr fun i _ => by simp only [bytesFrom, Nat.zero_add]
        rw [formatSpecS, formatSpecSFrom_eq hstart (by omega), Int32.zero_add, List.length_map]
      rw [printkSwitch, if_neg (by decide), if_neg (by decide), if_neg (by decide), if_pos rfl,
        PrintkState.vaArg_cons hargs hprint]
  | @decimal w args text h =>
      obtain ⟨text', hprint, hcut⟩ := formatSpecD_cut h
      refine ⟨text', ⟨0, fun fuel st _ hargs => ?_⟩, ?_⟩
      · rw [printkSwitch, if_neg (by decide), if_neg (by decide), if_neg (by decide),
          if_neg (by decide), if_pos rfl, PrintkState.vaArg_cons hargs (congrArg some hprint)]
      · simpa [decimalArg, eq_comm] using hcut
  | unknown args h hne =>
      simp only [takesArg, not_or] at h
      refine ⟨_, ⟨0, fun fuel st _ hargs => ?_⟩, Cut.refl (decimalArg_of_ne h.2.2.2 _) _⟩
      rw [printkSwitch, if_neg h.1, if_neg hne, if_neg h.2.1, if_neg h.2.2.1, if_neg h.2.2.2,
        ← hargs]
      simp [PrintkState.print]

theorem Converts.rest_eq {m : ByteMemory} {spec : UInt8} {args rest : List UInt64}
    {text : List Int32} (h : Converts m spec args rest text) :
    rest = if takesArg spec then args.tail else args := by
  cases h with
  | unknown _ h _ => rw [if_neg h]
  | hexadecimal _ | percent _ | character _ _ | string _ | decimal _ => rfl

theorem decimalArgs_literal {c : UInt8} (hc : c ≠ chr '%') (cs : List UInt8)
    (args : List UInt64) : decimalArgs (c :: cs) args = decimalArgs cs args := by
  cases cs with
  | nil => rfl
  | cons d cs => rw [decimalArgs, if_neg hc]

theorem endsInPercent_literal {c : UInt8} (hc : c ≠ chr '%') (cs : List UInt8) :
    EndsInPercent (c :: cs) ↔ EndsInPercent cs := by
  cases cs with
  | nil => simp [EndsInPercent, hc]
  | cons d cs => rw [EndsInPercent, if_neg hc]

/-- With enough fuel the loop comes to its end and has printed `out` on the way;
it reads nothing behind `stop`. -/
def Finishes (m : ByteMemory) (fmt : Nat → UInt8) (st : PrintkState) (stop : Nat)
    (out : List Int32) : Prop :=
  ∃ n, ∀ fuel, n ≤ fuel → ∃ st', printkLoop m fmt fuel st = some st' ∧
    st'.out = st.out ++ out ∧ st'.count = st.count + Int32.ofNat out.length ∧
      ∀ i ∈ st'.reads, i ∈ st.reads ∨ i ≤ stop

namespace Finishes

variable {m : ByteMemory} {fmt : Nat → UInt8} {st st₁ : PrintkState} {stop : Nat}
  {text out : List Int32}

theorem terminator (hend : fmt st.c = 0) : Finishes m fmt st st.c [] := by
  refine ⟨1, fun fuel hfuel => ⟨st.read, ?_, ?_, ?_, fun i hi => ?_⟩⟩
  · obtain ⟨k, rfl⟩ : ∃ k, fuel = k + 1 := ⟨fuel - 1, by omega⟩
    rw [printkLoop, if_pos hend]
  · simp [PrintkState.read]
  · simp [PrintkState.read]
  · rcases List.mem_append.mp hi with hi | hi
    · exact Or.inl hi
    · exact Or.inr (Nat.le_of_eq (List.mem_singleton.mp hi))

/-- A turn of the loop that prints `text`. -/
theorem turn (hturn : ∃ n, ∀ fuel, n ≤ fuel →
      printkLoop m fmt (fuel + 1) st = printkLoop m fmt fuel st₁)
    (hout : st₁.out = st.out ++ text) (hcount : st₁.count = st.count + Int32.ofNat text.length)
    (hreads : ∀ i ∈ st₁.reads, i ∈ st.reads ∨ i ≤ stop) (h : Finishes m fmt st₁ stop out) :
    Finishes m fmt st stop (text ++ out) := by
  obtain ⟨n, hturn⟩ := hturn
  obtain ⟨n', hrun⟩ := h
  refine ⟨max n n' + 1, fun fuel hfuel => ?_⟩
  obtain ⟨k, rfl⟩ : ∃ k, fuel = k + 1 := ⟨fuel - 1, by omega⟩
  obtain ⟨st', hloop, hout', hcount', hreads'⟩ := hrun k (by omega)
  refine ⟨st', by rw [hturn k (by omega), hloop], ?_, ?_, fun i hi => ?_⟩
  · rw [hout', hout, List.append_assoc]
  · rw [hcount', hcount, List.length_append, Int32.ofNat_add, Int32.add_assoc]
  · exact (hreads' i hi).elim (hreads i) Or.inr

theorem literal {c : UInt8} (hc : fmt st.c = c) (hne : c ≠ 0) (hpercent : c ≠ chr '%')
    (hstop : st.c ≤ stop)
    (h : Finishes m fmt (st.read.print ([charInt c], 1)).next stop out) :
    Finishes m fmt st stop (charInt c :: out) := by
  refine @turn m fmt st _ stop [charInt c] out ⟨0, fun fuel _ => ?_⟩ rfl rfl (fun i hi => ?_) h
  · rw [printkLoop, hc, if_neg hne, if_neg hpercent]
  · rcases List.mem_append.mp hi with hi | hi
    · exact Or.inl hi
    · exact Or.inr (by rw [List.mem_singleton.mp hi]; exact hstop)

theorem conversion {spec : UInt8} {args rest : List UInt64} (hpercent : fmt st.c = chr '%')
    (hspec : fmt (st.c + 1) = spec) (hargs : st.args = args) (hstop : st.c + 1 ≤ stop)
    (hswitch : Switches m spec args rest text)
    (h : Finishes m fmt
      ({ st.read.next.read with args := rest }.print (text, Int32.ofNat text.length)).next stop
      out) :
    Finishes m fmt st stop (text ++ out) := by
  obtain ⟨n, hswitch⟩ := hswitch
  refine turn ⟨n, fun fuel hfuel => ?_⟩ rfl rfl (fun i hi => ?_) h
  · rw [printkLoop, hpercent, if_neg (by decide), if_pos rfl, hspec,
      hswitch fuel st.read.next.read hfuel hargs, Option.bind_some]
  · rcases List.mem_append.mp hi with hi | hi
    · rcases List.mem_append.mp hi with hi | hi
      · exact Or.inl hi
      · exact Or.inr (by rw [List.mem_singleton.mp hi]; omega)
    · exact Or.inr (by rw [List.mem_singleton.mp hi]; exact hstop)

end Finishes

/-- A format whose last specifier has a character is printed to its end, and no further. -/
theorem Expands.finishes {m : ByteMemory} {fmt : Nat → UInt8} {cs : List UInt8}
    {args : List UInt64} {out : List Int32} (h : Expands m cs args out) {st : PrintkState}
    (hcs : CString (bytesFrom fmt st.c) cs) (hargs : st.args = args)
    (hpercent : ¬EndsInPercent cs) :
    ∃ out', Finishes m fmt st (st.c + cs.length) out' ∧
      Cut (Int32.minValue ∈ decimalArgs cs args) out' out := by
  induction h generalizing st with
  | stop args => exact ⟨[], .terminator hcs.terminator, Cut.refl List.not_mem_nil []⟩
  | lone args => exact absurd rfl hpercent
  | @literal c cs args out hc h ih =>
      obtain ⟨hhead, hne, htail⟩ := cstring_cons hcs
      rw [endsInPercent_literal hc] at hpercent
      obtain ⟨out', hfinish, hcut⟩ := @ih (st.read.print ([charInt c], 1)).next htail hargs hpercent
      have hstop : st.c + (c :: cs).length = st.c + 1 + cs.length := by
        rw [List.length_cons]
        omega
      refine ⟨charInt c :: out', ?_, ?_⟩
      · rw [hstop]
        exact .literal hhead hne hc (by omega) hfinish
      · rw [decimalArgs_literal hc]
        simpa using (Cut.refl id [charInt c]).append hcut
  | @conversion spec cs args rest text out hspec h ih =>
      obtain ⟨hhead, -, htail⟩ := cstring_cons hcs
      obtain ⟨hhead', -, htail'⟩ := cstring_cons htail
      obtain ⟨text', hswitch, hcut⟩ := hspec.switches
      rw [EndsInPercent, if_pos rfl] at hpercent
      obtain ⟨out', hfinish, hcut'⟩ := @ih
        ({ st.read.next.read with args := rest }.print (text', Int32.ofNat text'.length)).next
        htail' rfl hpercent
      have hstop : st.c + (chr '%' :: spec :: cs).length = st.c + 1 + 1 + cs.length := by
        simp only [List.length_cons]
        omega
      refine ⟨text' ++ out', ?_, ?_⟩
      · rw [hstop]
        exact .conversion hhead hhead' hargs (by omega) hswitch hfinish
      · rw [decimalArgs, if_pos rfl, ← hspec.rest_eq, List.mem_append]
        exact hcut.append hcut'

theorem PrintkState.vaArg_some {st st' : PrintkState}
    {format : UInt64 → Option (List Int32 × Int32)} (h : st.vaArg format = some st') :
    st'.c = st.c ∧ st'.reads = st.reads := by
  rw [vaArg] at h
  split at h
  · cases h
  · obtain ⟨r, -, rfl⟩ := Option.map_eq_some_iff.mp h
    exact ⟨rfl, rfl⟩

/-- The `switch` reads nothing of the format. -/
theorem printkSwitch_some {fuel : Nat} {m : ByteMemory} {spec : UInt8} {st st' : PrintkState}
    (h : printkSwitch fuel m spec st = some st') : st'.c = st.c ∧ st'.reads = st.reads := by
  rw [printkSwitch] at h
  split at h
  · exact PrintkState.vaArg_some h
  split at h
  · cases h
    exact ⟨rfl, rfl⟩
  split at h
  · exact PrintkState.vaArg_some h
  split at h
  · exact PrintkState.vaArg_some h
  split at h
  · exact PrintkState.vaArg_some h
  · cases h
    exact ⟨rfl, rfl⟩

/-- A turn of the loop that comes back. -/
theorem printkLoop_cases {m : ByteMemory} {fmt : Nat → UInt8} {fuel : Nat}
    {st st' : PrintkState} (h : printkLoop m fmt (fuel + 1) st = some st') :
    (fmt st.c = 0 ∧ st' = st.read) ∨
      ∃ st₁, printkLoop m fmt fuel st₁ = some st' ∧
        if fmt st.c = chr '%' then
          st₁.c = st.c + 1 + 1 ∧ st₁.reads = st.reads ++ [st.c] ++ [st.c + 1]
        else st₁.c = st.c + 1 ∧ st₁.reads = st.reads ++ [st.c] := by
  rw [printkLoop] at h
  split at h
  · exact Or.inl ⟨‹_›, (Option.some.inj h).symm⟩
  · refine Or.inr ?_
    split at h
    · obtain ⟨st₁, hswitch, hloop⟩ := Option.bind_eq_some_iff.mp h
      obtain ⟨hc, hreads⟩ := printkSwitch_some hswitch
      refine ⟨st₁.next, hloop, ?_⟩
      rw [if_pos ‹_›]
      exact ⟨congrArg Nat.succ hc, hreads⟩
    · refine ⟨_, h, ?_⟩
      rw [if_neg ‹_›]
      exact ⟨rfl, rfl⟩

/-- The loop reads the character under the cursor, and what was read stays so. -/
theorem printkLoop_reads {m : ByteMemory} {fmt : Nat → UInt8} {fuel : Nat}
    {st st' : PrintkState} (h : printkLoop m fmt fuel st = some st') :
    st.c ∈ st'.reads ∧ ∀ i ∈ st.reads, i ∈ st'.reads := by
  induction fuel generalizing st with
  | zero => cases h
  | succ fuel ih =>
      rcases printkLoop_cases h with ⟨-, rfl⟩ | ⟨st₁, hloop, hturn⟩
      · exact ⟨List.mem_append_right _ List.mem_cons_self, fun i => List.mem_append_left _⟩
      · have hkeep := (ih hloop).2
        split at hturn
        · rw [hturn.2] at hkeep
          exact ⟨hkeep _ (by simp), fun i hi => hkeep i (by simp [hi])⟩
        · rw [hturn.2] at hkeep
          exact ⟨hkeep _ (by simp), fun i hi => hkeep i (by simp [hi])⟩

/-- Behind a '%' at the end the loop goes on after the terminator. -/
theorem printkLoop_behind {m : ByteMemory} {fmt : Nat → UInt8} {fuel : Nat}
    {st st' : PrintkState} {cs : List UInt8} (h : printkLoop m fmt fuel st = some st')
    (hcs : CString (bytesFrom fmt st.c) cs) (hpercent : EndsInPercent cs) :
    st.c + cs.length + 1 ∈ st'.reads := by
  induction fuel generalizing st cs with
  | zero => cases h
  | succ fuel ih =>
      cases cs with
      | nil => exact hpercent.elim
      | cons c cs =>
          obtain ⟨hhead, hne, htail⟩ := cstring_cons hcs
          rcases printkLoop_cases h with ⟨hend, -⟩ | ⟨st₁, hloop, hturn⟩
          · exact absurd (hhead.symm.trans hend) hne
          · rw [hhead] at hturn
            by_cases hc : c = chr '%'
            · rw [if_pos hc] at hturn
              cases cs with
              | nil =>
                  have hread := (printkLoop_reads hloop).1
                  rwa [hturn.1] at hread
              | cons d cs =>
                  obtain ⟨-, -, htail'⟩ := cstring_cons htail
                  rw [EndsInPercent, if_pos hc] at hpercent
                  rw [← hturn.1] at htail'
                  have hread := ih hloop htail' hpercent
                  rw [hturn.1] at hread
                  simpa only [List.length_cons, Nat.add_assoc, Nat.add_comm,
                    Nat.add_left_comm] using hread
            · rw [if_neg hc] at hturn
              rw [endsInPercent_literal hc] at hpercent
              rw [← hturn.1] at htail
              have hread := ih hloop htail hpercent
              rw [hturn.1] at hread
              simpa only [List.length_cons, Nat.add_assoc, Nat.add_comm,
                Nat.add_left_comm] using hread

section Printk

variable {m : ByteMemory} {fmt : Nat} {cs : List UInt8} {args : List UInt64} {out : List Int32}

theorem cstring_start (hcs : CString (bytesFrom m fmt) cs) :
    CString (bytesFrom (bytesFrom m fmt) 0) cs :=
  hcs.congr fun i _ => by simp only [bytesFrom, Nat.zero_add]

theorem printk_finishes (hfmt : fmt ≠ NULL) (hcs : CString (bytesFrom m fmt) cs)
    (hout : Expands m cs args out) (hpercent : ¬EndsInPercent cs) :
    ∃ n out', (∀ fuel, n ≤ fuel → ∃ st, printk fuel m fmt args = some st ∧ st.out = out' ∧
        st.count = Int32.ofNat out'.length ∧ ∀ i ∈ st.reads, i ≤ cs.length) ∧
      Cut (Int32.minValue ∈ decimalArgs cs args) out' out := by
  obtain ⟨out', ⟨n, hrun⟩, hcut⟩ := @Expands.finishes m (bytesFrom m fmt) cs args out hout
    ⟨0, args, 0, [], []⟩ (cstring_start hcs) rfl hpercent
  refine ⟨n, out', fun fuel hfuel => ?_, hcut⟩
  obtain ⟨st, hloop, htext, hcount, hreads⟩ := hrun fuel hfuel
  rw [Int32.zero_add] at hcount
  refine ⟨st, by rw [printk, if_neg hfmt, hloop], htext, hcount, fun i hi => ?_⟩
  have hread := hreads i hi
  simpa using hread

theorem printk_behind {fuel : Nat} {st : PrintkState} (hfmt : fmt ≠ NULL)
    (hcs : CString (bytesFrom m fmt) cs) (hpercent : EndsInPercent cs)
    (h : printk fuel m fmt args = some st) : ¬Prints cs out st := by
  rw [printk, if_neg hfmt] at h
  intro hprints
  have hread := hprints.reads _ (printkLoop_behind h (cstring_start hcs) hpercent)
  omega

/-- `printk` prints what a format stands for, returns its length and stops at the
terminator, unless the format ends in the middle of a specifier, the smallest
`int` is printed in decimal, or the length exceeds an `int`. -/
theorem printk_prints_iff (hfmt : fmt ≠ NULL) (hcs : CString (bytesFrom m fmt) cs)
    (hout : Expands m cs args out) :
    (∃ n, ∀ fuel, n ≤ fuel → ∃ st, printk fuel m fmt args = some st ∧ Prints cs out st) ↔
      ¬EndsInPercent cs ∧ Int32.minValue ∉ decimalArgs cs args ∧ out.length < 0x80000000 := by
  constructor
  · rintro ⟨n, hprints⟩
    have hpercent : ¬EndsInPercent cs := by
      intro hpercent
      obtain ⟨st, hprintk, h⟩ := hprints n (Nat.le_refl n)
      exact printk_behind hfmt hcs hpercent hprintk h
    obtain ⟨n', out', hrun, hcut⟩ := printk_finishes hfmt hcs hout hpercent
    obtain ⟨st, hprintk, h⟩ := hprints (max n n') (Nat.le_max_left _ _)
    obtain ⟨st', hprintk', htext, hcount, -⟩ := hrun (max n n') (Nat.le_max_right _ _)
    have hst : st = st' := Option.some.inj (hprintk.symm.trans hprintk')
    rw [← hst] at htext hcount
    have hsame : out' = out := htext.symm.trans h.text
    refine ⟨hpercent, fun hmin => ?_, ?_⟩
    · have hshort := hcut.2 hmin
      rw [hsame] at hshort
      exact Nat.lt_irrefl _ hshort
    · have hlength := h.count
      have hhigh := st.count.toInt_lt
      omega
  · rintro ⟨hpercent, hmin, hlength⟩
    obtain ⟨n, out', hrun, hcut⟩ := printk_finishes hfmt hcs hout hpercent
    have hsame : out' = out := hcut.1 hmin
    refine ⟨n, fun fuel hfuel => ?_⟩
    obtain ⟨st, hprintk, htext, hcount, hreads⟩ := hrun fuel hfuel
    refine ⟨st, hprintk, htext.trans hsame, ?_, hreads⟩
    rw [hcount, hsame]
    exact Int32.toInt_ofNat_of_lt hlength

/-- The devices get what the format stands for, character by character. -/
theorem printkTo_eq (hfmt : fmt ≠ NULL) (hcs : CString (bytesFrom m fmt) cs)
    (hout : Expands m cs args out) (hpercent : ¬EndsInPercent cs)
    (hmin : Int32.minValue ∉ decimalArgs cs args) (font type : Nat) (con : Console) :
    ∃ n, ∀ fuel, n ≤ fuel → printkTo font type con fuel m fmt args =
      some (out.foldl (Console.putchar font type) con, Int32.ofNat out.length) := by
  obtain ⟨n, out', hrun, hcut⟩ := printk_finishes hfmt hcs hout hpercent
  refine ⟨n, fun fuel hfuel => ?_⟩
  obtain ⟨st, hprintk, htext, hcount, -⟩ := hrun fuel hfuel
  rw [printkTo, hprintk, Option.map_some, htext, hcount, hcut.1 hmin]

/-- An early message writes nothing outside of the framebuffer. -/
theorem printkTo_early {info : FramebufferInfo} {buffer k font type : Nat} {m' : ByteMemory}
    {s : Screen} {con : Console} (hfmt : fmt ≠ NULL) (hcs : CString (bytesFrom m fmt) cs)
    (hout : Expands m cs args out) (hpercent : ¬EndsInPercent cs)
    (hmin : Int32.minValue ∉ decimalArgs cs args) (htype : type &&& EARLY ≠ 0)
    (hfb : con.fbDefault = some s) (hwidth : 9 ≤ info.width) (hheight : 17 ≤ info.height)
    (hs : Contained info buffer m' s) (hcursor : CursorWithin k s)
    (hk : k + out.length < 0x100000000) :
    ∃ n, ∀ fuel, n ≤ fuel → ∃ con' s', printkTo font type con fuel m fmt args =
        some (con', Int32.ofNat out.length) ∧ con'.fbDefault = some s' ∧
      Contained info buffer m' s' := by
  obtain ⟨n, hrun⟩ := printkTo_eq hfmt hcs hout hpercent hmin font type con
  have hscreen : (out.foldl (Console.putchar font type) con).fbDefault =
      some ((out.map Int32.toInt).foldl (Screen.putchar font) s) := by
    rw [Console.putchars_eq]
    simp only [if_pos htype, hfb, Option.map_some]
  exact ⟨n, fun fuel hfuel => ⟨_, _, hrun fuel hfuel, hscreen,
    Contained.putchars hwidth hheight _ hs hcursor (by rwa [List.length_map])⟩⟩

end Printk

/-- These bytes lie at 0x1000, and zeros behind them. -/
def formatMemory (bytes : List UInt8) : ByteMemory := fun x => bytes.getD (x - 0x1000) 0

theorem formatMemory_cstring {cs : List UInt8} (hcs : 0 ∉ cs) (rest : List UInt8) :
    CString (bytesFrom (formatMemory (cs ++ 0 :: rest)) 0x1000) cs := by
  refine ⟨hcs, fun i hi => ?_⟩
  simp only [bytesFrom, formatMemory, Nat.add_sub_cancel_left, List.getD_eq_getElem?_getD]
  rcases Nat.lt_or_eq_of_le hi with hlt | rfl
  · rw [List.getElem?_append_left hlt]
  · simp

/-- "a%d%%" with 42. -/
theorem printk_prints_iff_percents :
    ∃ n, ∀ fuel, n ≤ fuel → ∃ st,
      printk fuel (formatMemory ([chr 'a', chr '%', chr 'd', chr '%', chr '%'] ++ 0 :: [1]))
          0x1000 [42] = some st ∧
        Prints [chr 'a', chr '%', chr 'd', chr '%', chr '%']
          [charInt (chr 'a'), charInt (chr '4'), charInt (chr '2'), charInt (chr '%')] st := by
  have hnumber : DecimalText (vaInt 42).toInt [charInt (chr '4'), charInt (chr '2')] :=
    ⟨[4, 2], ⟨by decide, by decide, by decide, by decide⟩, by decide⟩
  have hout : Expands (formatMemory ([chr 'a', chr '%', chr 'd', chr '%', chr '%'] ++ 0 :: [1]))
      [chr 'a', chr '%', chr 'd', chr '%', chr '%'] [42]
      [charInt (chr 'a'), charInt (chr '4'), charInt (chr '2'), charInt (chr '%')] :=
    .literal (by decide)
      (.conversion (.decimal hnumber) (.conversion (.percent []) (.stop [])))
  exact (printk_prints_iff (by decide) (formatMemory_cstring (by decide) [1]) hout).mpr
    ⟨by simp only [EndsInPercent]; decide, by decide, by decide⟩

/-- Of "%" the scanner reads on behind the terminator. -/
theorem printk_lonePercent :
    ¬∀ m fmt cs args out, fmt ≠ NULL → CString (bytesFrom m fmt) cs → Expands m cs args out →
      out.length < 0x80000000 →
        ∃ fuel st, printk fuel m fmt args = some st ∧ Prints cs out st := by
  intro h
  have hcs := @formatMemory_cstring [chr '%'] (by decide) [chr 'A']
  obtain ⟨fuel, st, hprintk, hprints⟩ :=
    h _ 0x1000 _ [] [] (by decide) hcs (.lone []) (by decide)
  exact printk_behind (by decide) hcs rfl hprintk hprints

example : printk 9 (formatMemory ([chr '%'] ++ 0 :: [chr 'A'])) 0x1000 [] =
    some ⟨3, [], 1, [charInt (chr 'A')], [0, 1, 2, 3]⟩ := by
  decide +kernel

end BayosKernel
