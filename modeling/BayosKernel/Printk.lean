import BayosKernel.Framebuffer
import BayosKernel.StringFunctions

/-!
`printk.c`: the number and string formats and the scanner of `printk`.

An `int` is an `Int32` and wraps; a `char` is signed. The formats answer the
arguments of their calls of `putchar`, in order, and the `int` they return.
`none` stands for an access outside of an array or to an element that is not
set, for an argument that is not there and for a loop that has not ended.
-/

namespace BayosKernel

open Foundation

/-- A character constant. -/
def chr (c : Char) : UInt8 := UInt8.ofNat c.toNat

/-- The conversion of a `char` to `int`. -/
def charInt (c : UInt8) : Int32 := c.toInt8.toInt32

/-- The array `digits` of `format_spec_x`. -/
def hexDigits : List UInt8 :=
  ['0', '1', '2', '3', '4', '5', '6', '7', '8', '9', 'a', 'b', 'c', 'd', 'e', 'f'].map chr

/-- The first loop of `format_spec_x`; an element of `buffer` is `none` until it is set. -/
def formatSpecXFill (val : UInt64) (i : Nat) (buffer : Vector (Option UInt8) 16) :
    Option (Vector (Option UInt8) 16 × Nat) :=
  if val > 0 then
    if h : i < 16 then
      hexDigits[(val % 16).toNat]?.bind fun c =>
        formatSpecXFill (val / 16) (i + 1) (buffer.set i (some c))
    else none
  else some (buffer, i)
termination_by val.toNat
decreasing_by
  have hpos : 0 < val.toNat := UInt64.lt_iff_toNat_lt.mp ‹val > 0›
  rw [UInt64.toNat_div]
  exact Nat.div_lt_self hpos (by decide)

/-- The second loop of `format_spec_x`. -/
def formatSpecXEmit (buffer : Vector (Option UInt8) 16) :
    Nat → Int32 → Option (List Int32 × Int32)
  | 0, count => some ([], count)
  | i + 1, count =>
      buffer[i]?.join.bind fun c =>
        (formatSpecXEmit buffer i (count + 1)).map fun r => (charInt c :: r.1, r.2)

def formatSpecX (val : UInt64) : Option (List Int32 × Int32) :=
  if val = 0 then some ([charInt (chr '0')], 1)
  else
    (formatSpecXFill val 0 (Vector.replicate 16 none)).bind fun r => formatSpecXEmit r.1 r.2 0

/-- The loop of `format_spec_s`; `c` is the offset of the pointer. -/
def formatSpecSFrom (s : Nat → UInt8) : Nat → Nat → Int32 → Option (List Int32 × Int32)
  | 0, _, _ => none
  | fuel + 1, c, count =>
      if s c ≠ 0 then
        (formatSpecSFrom s fuel (c + 1) (count + 1)).map fun r => (charInt (s c) :: r.1, r.2)
      else some ([], count)

def formatSpecS (fuel : Nat) (s : Nat → UInt8) : Option (List Int32 × Int32) :=
  formatSpecSFrom s fuel 0 0

/-- `number` after the sign; the smallest `int` is its own negation. -/
def unsignedPart (val : Int32) : Int32 := if val < 0 then -val else val

theorem unsignedPart_toInt {val : Int32} (h : val ≠ Int32.minValue) :
    (unsignedPart val).toInt = val.toInt.natAbs := by
  have hmin : val.toInt ≠ -0x80000000 := fun heq => h (Int32.toInt_inj.mp heq)
  have hlow := val.le_toInt
  have hhigh := val.toInt_lt
  have hzero : val < 0 ↔ val.toInt < 0 := Int32.lt_iff_toInt_lt
  rw [unsignedPart]
  split
  · rename_i hneg
    rw [hzero] at hneg
    rw [Int32.toInt_neg, Int.bmod_eq_of_le (by omega) (by omega)]
    omega
  · rename_i hneg
    rw [hzero] at hneg
    omega

theorem ne_minValue_of_ten_le {val : Int32} (h : 10 ≤ unsignedPart val) :
    val ≠ Int32.minValue := by
  rintro rfl
  revert h
  decide

/-- `number / 10`, when there is another digit. -/
theorem unsignedPart_div {val : Int32} (h : 10 ≤ unsignedPart val) :
    (unsignedPart val / 10).toInt = val.toInt.natAbs / 10 := by
  have hten : 10 ≤ (unsignedPart val).toInt := Int32.le_iff_toInt_le.mp h
  have hval := unsignedPart_toInt (ne_minValue_of_ten_le h)
  rw [hval] at hten
  rw [Int32.toInt_div_of_ne_right _ _ (by decide), hval, show (10 : Int32).toInt = 10 from rfl,
    Int.tdiv_eq_ediv_of_nonneg (by omega)]

def formatSpecD (val : Int32) : List Int32 × Int32 :=
  let sign := if val < 0 then ([charInt (chr '-')], 1) else ([], 0)
  let high := if unsignedPart val ≥ 10 then formatSpecD (unsignedPart val / 10) else ([], 0)
  (sign.1 ++ high.1 ++ [charInt (chr '0') + unsignedPart val % 10], sign.2 + high.2 + 1)
termination_by val.toInt.natAbs
decreasing_by
  have hnumber : 10 ≤ unsignedPart val := ‹unsignedPart val ≥ 10›
  have hten : 10 ≤ (unsignedPart val).toInt := Int32.le_iff_toInt_le.mp hnumber
  rw [unsignedPart_toInt (ne_minValue_of_ten_le hnumber)] at hten
  rw [unsignedPart_div hnumber]
  omega

/-- The variables of `printk`: `c` is the offset of the cursor in the format.
`out` and `reads` record the calls of `putchar` and the offsets that were read. -/
structure PrintkState where
  c : Nat
  args : List UInt64
  count : Int32
  out : List Int32
  reads : List Nat
  deriving DecidableEq

/-- `va_arg` of an `int`, which is the lower half of a word. -/
def vaInt (w : UInt64) : Int32 := w.toUInt32.toInt32

namespace PrintkState

/-- `*c`. -/
def read (st : PrintkState) : PrintkState := { st with reads := st.reads ++ [st.c] }

/-- `c++`. -/
def next (st : PrintkState) : PrintkState := { st with c := st.c + 1 }

def print (st : PrintkState) (r : List Int32 × Int32) : PrintkState :=
  { st with out := st.out ++ r.1, count := st.count + r.2 }

/-- A format is applied to the next argument. -/
def vaArg (st : PrintkState) (format : UInt64 → Option (List Int32 × Int32)) :
    Option PrintkState :=
  match st.args with
  | [] => none
  | w :: args => (format w).map fun r => { st with args := args }.print r

end PrintkState

/-- The `switch` on the character behind a '%'. -/
def printkSwitch (fuel : Nat) (m : ByteMemory) (spec : UInt8) (st : PrintkState) :
    Option PrintkState :=
  if spec = chr 'x' then st.vaArg formatSpecX
  else if spec = chr '%' then some (st.print ([charInt spec], 1))
  else if spec = chr 'c' then st.vaArg fun w => some ([vaInt w], 1)
  else if spec = chr 's' then st.vaArg fun w => formatSpecS fuel (bytesFrom m w.toNat)
  else if spec = chr 'd' then st.vaArg fun w => some (formatSpecD (vaInt w))
  else some st

def printkLoop (m : ByteMemory) (fmt : Nat → UInt8) : Nat → PrintkState → Option PrintkState
  | 0, _ => none
  | fuel + 1, st =>
      if fmt st.c = 0 then some st.read
      else if fmt st.c = chr '%' then
        (printkSwitch fuel m (fmt (st.c + 1)) st.read.next.read).bind fun st =>
          printkLoop m fmt fuel st.next
      else printkLoop m fmt fuel (st.read.print ([charInt (fmt st.c)], 1)).next

def printk (fuel : Nat) (m : ByteMemory) (fmt : Nat) (args : List UInt64) :
    Option PrintkState :=
  if fmt = NULL then some ⟨0, args, 0, [], []⟩
  else printkLoop m (bytesFrom m fmt) fuel ⟨0, args, 0, [], []⟩

/-- `printk_output_type`, a set of bits. -/
abbrev QEMU_SERIAL : Nat := 1

abbrev FRAMEBUFFER : Nat := 2

abbrev EARLY : Nat := 4

/-- What was written to the serial port and to `g_framebuffer_print_pipe`, and `fb_default`. -/
structure Console where
  serial : List UInt8
  printPipe : List UInt8
  fbDefault : Option Screen

namespace Console

def putcharQemuSerial (con : Console) (c : Int32) : Console :=
  { con with serial := con.serial ++ [c.toUInt32.toUInt8] }

/-- The pipe gets the lowest byte of the `int`. -/
def putcharFramebuffer (con : Console) (c : Int32) : Console :=
  { con with printPipe := con.printPipe ++ [c.toUInt32.toUInt8] }

def putcharEarly (font : Nat) (con : Console) (c : Int32) : Console :=
  { con with fbDefault := con.fbDefault.map fun s => s.putchar font c.toInt }

def putchar (font type : Nat) (con : Console) (c : Int32) : Console :=
  let con := if type &&& QEMU_SERIAL ≠ 0 then con.putcharQemuSerial c else con
  let con := if type &&& FRAMEBUFFER ≠ 0 then con.putcharFramebuffer c else con
  if type &&& EARLY ≠ 0 then con.putcharEarly font c else con

/-- Each device that `type` names gets the whole text in order, and no other device any of it. -/
theorem putchars_eq (font type : Nat) (con : Console) (text : List Int32) :
    text.foldl (putchar font type) con =
      { serial := con.serial ++
          if type &&& QEMU_SERIAL ≠ 0 then text.map fun c => c.toUInt32.toUInt8 else [],
        printPipe := con.printPipe ++
          if type &&& FRAMEBUFFER ≠ 0 then text.map fun c => c.toUInt32.toUInt8 else [],
        fbDefault :=
          if type &&& EARLY ≠ 0 then
            con.fbDefault.map fun s => (text.map Int32.toInt).foldl (Screen.putchar font) s
          else con.fbDefault } := by
  induction text generalizing con with
  | nil => simp
  | cons c text ih =>
      rw [List.foldl_cons, ih]
      simp only [putchar]
      split <;> split <;> split <;>
        simp [putcharQemuSerial, putcharFramebuffer, putcharEarly, Function.comp_def]

end Console

/-- `printk` with the devices that it prints on. -/
def printkTo (font type : Nat) (con : Console) (fuel : Nat) (m : ByteMemory) (fmt : Nat)
    (args : List UInt64) : Option (Console × Int32) :=
  (printk fuel m fmt args).map fun st => (st.out.foldl (Console.putchar font type) con, st.count)

end BayosKernel
