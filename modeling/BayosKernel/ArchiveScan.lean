import BayosKernel.Initramfs
import BayosKernel.StringReads
import BayosKernel.Vfs

/-!
The scan of `initramfs_lookup` over an array of bytes: which bytes it reads and
where the cursor goes. The cursor is an offset into the array; a byte outside the
array may not be read.
-/

namespace BayosKernel

open Foundation

/-- The bytes of the array from an offset on. -/
def archiveFrom (bytes : List UInt8) (ptr : Int) : Nat → Option UInt8 := fun i =>
  if 0 ≤ ptr + i then bytes[(ptr + i).toNat]? else none

/-- The characters of a path and its terminator. -/
def Path.readable (p : Path) : Nat → Option UInt8 := fun i =>
  if i ≤ p.length then some (p.bytes i) else none

/-- The loop of `oct2bin`. -/
def oct2binInFrom (str : Nat → Option UInt8) : Nat → Nat → Int → Option Int
  | 0, _, n => some n
  | size + 1, i, n =>
      (str i).bind fun c =>
        let n := int32 (n * 8)
        let n := int32 (n + (c.toNat - 48))
        oct2binInFrom str size (i + 1) n

def oct2binIn (str : Nat → Option UInt8) (size : Nat) : Option Int := oct2binInFrom str size 0 0

/-- What is added to the cursor: `(((filesize + 511) / 512) + 1) * 512`. -/
def headerStep (filesize : Int) : Int :=
  int32 (int32 ((int32 (filesize + 511)).tdiv 512 + 1) * 512)

/-- One turn of the loop: it reads outside the array, finds no magic, finds the
file or moves the cursor. -/
inductive LookupTurn where
  | outside
  | ended
  | found (filesize : Int) (out : Int)
  | moved (ptr : Int)
  deriving DecidableEq

section

variable (bytes : List UInt8) (filename : Path)

def lookupTurn (ptr : Int) : LookupTurn :=
  match memcmpIn (archiveFrom bytes (ptr + 257)) (fun i => some (ustar i)) 5 with
  | none => .outside
  | some magic =>
      if magic ≠ 0 then .ended
      else
        match oct2binIn (archiveFrom bytes (ptr + 0x7c)) 11 with
        | none => .outside
        | some filesize =>
            match memcmpIn (archiveFrom bytes (ptr + 1)) filename.readable
                (filename.length + 1) with
            | none => .outside
            | some cmp =>
                if cmp = 0 then .found filesize (ptr + 512)
                else .moved (ptr + headerStep filesize)

/-- The scan from `ptr` on looks at no more than `fuel` headers, reads the array alone
and moves to a later header each time. -/
def ScansForward : Nat → Int → Prop
  | 0, _ => False
  | fuel + 1, ptr =>
      match lookupTurn bytes filename ptr with
      | .outside => False
      | .moved next => ptr < next ∧ ScansForward fuel next
      | _ => True

end

/-- The call for a filename, which is answered at once for NULL. -/
def LookupForward (bytes : List UInt8) : Option Path → Prop
  | none => True
  | some filename => ∃ fuel, ScansForward bytes filename fuel 0

/-- The value of a field whose characters are taken for octal digits. -/
def octalValue (field : List UInt8) : Int := field.foldl (fun n c => n * 8 + (c.toNat - 48)) 0

/-- The size of the header at `c`, as an `int`. -/
def sizeField (bytes : List UInt8) (c : Nat) : Int :=
  int32 (octalValue ((bytes.drop (c + 0x7c)).take 11))

/-- A header, and the blocks of its file. -/
def fileExtent (size : Int) : Nat := ((size.toNat + 511) / 512 + 1) * 512

/-- The headers that the sizes lead to lie in the array, each with a NUL behind its first
byte and a size that moves the cursor on; the last block is without the magic. -/
inductive HeaderChain (bytes : List UInt8) : Nat → Prop
  | last {c i : Nat} {b : UInt8} : i < 5 → bytes[c + 257 + i]? = some b → b ≠ ustar i →
      HeaderChain bytes c
  | header {c i : Nat} : (∀ j < 5, bytes[c + 257 + j]? = some (ustar j)) →
      bytes[c + 1 + i]? = some 0 → -1022 ≤ sizeField bytes c → sizeField bytes c ≤ 0x7ffffc00 →
      HeaderChain bytes (c + fileExtent (sizeField bytes c)) → HeaderChain bytes c

/-- The division of C rounds towards zero. -/
theorem tdiv_block_cases (x : Int) :
    (0 ≤ x ∧ x.tdiv 512 = x / 512) ∨ (x < 0 ∧ x.tdiv 512 = -(-x / 512)) := by
  by_cases hneg : x < 0
  · refine Or.inr ⟨hneg, ?_⟩
    rw [← Int.tdiv_eq_ediv_of_nonneg (by omega), Int.neg_tdiv, Int.neg_neg]
  · exact Or.inl ⟨by omega, Int.tdiv_eq_ediv_of_nonneg (by omega)⟩

theorem int32_overflow {z : Int} (hlo : 0x80000000 ≤ z) (hhi : z < 0x100000000) :
    int32 z = z - 0x100000000 := by
  have hmod : z % ((0x100000000 : Nat) : Int) = z := Int.emod_eq_of_lt (by omega) (by omega)
  rw [int32, Int.bmod_def, hmod, if_neg (by omega)]
  rfl

theorem headerStep_of_range {size : Int} (hlo : -1022 ≤ size) (hhi : size ≤ 0x7ffffc00) :
    headerStep size = fileExtent size := by
  rw [headerStep, fileExtent, int32_of_range (z := size + 511) (by omega) (by omega)]
  obtain ⟨k, hk⟩ : ∃ k : Nat, (size.toNat + 511) / 512 = k := ⟨_, rfl⟩
  have hdiv : (size + 511).tdiv 512 = k := by
    rcases tdiv_block_cases (size + 511) with ⟨_, hdiv⟩ | ⟨_, hdiv⟩ <;> omega
  have hle : k ≤ 0x3ffffe := by omega
  rw [hdiv, hk, int32_of_range (z := (k : Int) + 1) (by omega) (by omega),
    int32_of_range (by omega) (by omega)]
  omega

/-- The cursor moves on for the sizes of this range alone. -/
theorem headerStep_pos {size : Int} (hlo : -0x80000000 ≤ size) (hhi : size < 0x80000000) :
    0 < headerStep size ↔ -1022 ≤ size ∧ size ≤ 0x7ffffc00 := by
  refine ⟨fun hpos => ?_, fun ⟨hlo', hhi'⟩ => ?_⟩
  · refine Classical.byContradiction fun hout => ?_
    obtain ⟨blocks, hblocks⟩ : ∃ blocks, (int32 (size + 511)).tdiv 512 + 1 = blocks := ⟨_, rfl⟩
    have hcases : (-0x400000 ≤ blocks ∧ blocks ≤ 0) ∨ blocks = 0x400000 := by
      by_cases hover : 0x80000000 ≤ size + 511
      · rw [int32_overflow hover (by omega)] at hblocks
        rcases tdiv_block_cases (size + 511 - 0x100000000) with ⟨_, hdiv⟩ | ⟨_, hdiv⟩ <;> omega
      · rw [int32_of_range (by omega) (by omega)] at hblocks
        rcases tdiv_block_cases (size + 511) with ⟨_, hdiv⟩ | ⟨_, hdiv⟩ <;> omega
    rw [headerStep, hblocks, int32_of_range (z := blocks) (by omega) (by omega)] at hpos
    rcases hcases with ⟨hmin, hmax⟩ | hmax
    · rw [int32_of_range (by omega) (by omega)] at hpos
      omega
    · rw [int32_overflow (by omega) (by omega)] at hpos
      omega
  · rw [headerStep_of_range hlo' hhi', fileExtent]
    omega

/-- The digits are added up modulo 2^32. -/
theorem oct2binInFrom_eq {str : Nat → Option UInt8} {cs : List UInt8} {i : Nat} {n : Int}
    (h : ∀ k, (hk : k < cs.length) → str (i + k) = some cs[k]) :
    oct2binInFrom str cs.length i (int32 n) =
      some (int32 (cs.foldl (fun n c => n * 8 + (c.toNat - 48)) n)) := by
  induction cs generalizing i n with
  | nil => rfl
  | cons c rest ih =>
      have hhead : str i = some c := h 0 (by simp)
      have hdigit : int32 (int32 (int32 n * 8) + (c.toNat - 48)) =
          int32 (n * 8 + (c.toNat - 48)) := by
        simp only [int32, Int.bmod_add_bmod]
        rw [← Int.bmod_add_bmod, Int.bmod_mul_bmod, Int.bmod_add_bmod]
      rw [List.length_cons, oct2binInFrom, hhead, Option.bind_some, List.foldl_cons]
      simp only [hdigit]
      refine ih fun k hk => ?_
      rw [Nat.add_assoc, Nat.add_comm 1 k]
      exact h (k + 1) (by rw [List.length_cons]; omega)

section Turns

variable {bytes : List UInt8} {filename : Path} {c : Nat}

theorem archiveFrom_natCast (bytes : List UInt8) (c i : Nat) :
    archiveFrom bytes (c : Int) i = bytes[c + i]? := by
  rw [archiveFrom, if_pos (by omega)]
  rfl

/-- Behind a byte that is outside the array all are. -/
theorem archiveFrom_none {i j : Nat} (h : archiveFrom bytes (c : Int) i = none) (hij : i ≤ j) :
    archiveFrom bytes (c : Int) j = none := by
  rw [archiveFrom_natCast, List.getElem?_eq_none_iff] at h ⊢
  omega

theorem Path.readable_eq {i : Nat} (hi : i < filename.length + 1) :
    filename.readable i = some (filename.bytes i) := by
  rw [readable, if_pos (by omega)]

theorem sizeField_range (bytes : List UInt8) (c : Nat) :
    -0x80000000 ≤ sizeField bytes c ∧ sizeField bytes c < 0x80000000 := by
  unfold sizeField int32
  exact ⟨Int.le_bmod (by decide), Int.bmod_lt (by decide)⟩

theorem oct2binIn_sizeField (hlen : c + 0x7c + 11 ≤ bytes.length) :
    oct2binIn (archiveFrom bytes ((c : Int) + 0x7c)) 11 = some (sizeField bytes c) := by
  have hfield : ((bytes.drop (c + 0x7c)).take 11).length = 11 := by
    rw [List.length_take, List.length_drop]
    omega
  have hdecode := @oct2binInFrom_eq (archiveFrom bytes ((c : Int) + 0x7c))
    ((bytes.drop (c + 0x7c)).take 11) 0 0 fun k hk => by
      have hcast : (c : Int) + 0x7c = ((c + 0x7c : Nat) : Int) := rfl
      rw [Nat.zero_add, hcast, archiveFrom_natCast, List.getElem_take, List.getElem_drop]
      exact List.getElem?_eq_getElem _
  rw [hfield] at hdecode
  exact hdecode

/-- A block without the magic ends the scan. -/
theorem lookupTurn_last {i : Nat} {b : UInt8} (hi : i < 5) (hb : bytes[c + 257 + i]? = some b)
    (hne : b ≠ ustar i) : lookupTurn bytes filename c = .ended := by
  have hread : archiveFrom bytes ((c + 257 : Nat) : Int) i = some b := by
    rw [archiveFrom_natCast, hb]
  rw [lookupTurn, show (c : Int) + 257 = ((c + 257 : Nat) : Int) from rfl]
  rcases memcmpIn_cases (archiveFrom bytes ((c + 257 : Nat) : Int)) (fun k (_ : k < 5) => rfl) with
    ⟨-, hall⟩ | ⟨v, hv, hcmp, -⟩ | ⟨-, j, -, hj, hall⟩
  · have hsame := hall i hi
    rw [hread] at hsame
    exact absurd (Option.some.inj hsame) hne
  · rw [hcmp]
    exact if_pos hv
  · by_cases hij : i < j
    · have hsame := hall i hij
      rw [hread] at hsame
      exact absurd (Option.some.inj hsame) hne
    · have hout := archiveFrom_none hj (Nat.le_of_not_lt hij)
      rw [hread] at hout
      cases hout

/-- At a header the names are compared. -/
theorem lookupTurn_header (hmagic : ∀ j < 5, bytes[c + 257 + j]? = some (ustar j)) :
    lookupTurn bytes filename c =
      match memcmpIn (archiveFrom bytes ((c + 1 : Nat) : Int)) filename.readable
          (filename.length + 1) with
      | none => .outside
      | some cmp =>
          if cmp = 0 then .found (sizeField bytes c) ((c : Int) + 512)
          else .moved (c + headerStep (sizeField bytes c)) := by
  have hlen : c + 257 + 4 < bytes.length := (List.getElem?_eq_some_iff.mp (hmagic 4 (by decide))).1
  rw [lookupTurn, show (c : Int) + 257 = ((c + 257 : Nat) : Int) from rfl]
  rcases memcmpIn_cases (archiveFrom bytes ((c + 257 : Nat) : Int)) (fun k (_ : k < 5) => rfl) with
    ⟨hcmp, -⟩ | ⟨-, -, -, j, hj, b, hb, hne⟩ | ⟨-, j, hj, hout, -⟩
  · rw [hcmp, oct2binIn_sizeField (by omega)]
    rfl
  · rw [archiveFrom_natCast, hmagic j hj] at hb
    exact absurd (Option.some.inj hb).symm hne
  · rw [archiveFrom_natCast, hmagic j hj] at hout
    cases hout

/-- With a NUL behind the first byte of the header the comparison stays in the array. -/
theorem lookupTurn_named {i : Nat} (hmagic : ∀ j < 5, bytes[c + 257 + j]? = some (ustar j))
    (hnul : bytes[c + 1 + i]? = some 0) :
    (∃ size out, lookupTurn bytes filename c = .found size out) ∨
      lookupTurn bytes filename c = .moved (c + headerStep (sizeField bytes c)) := by
  rw [lookupTurn_header hmagic]
  rcases memcmpIn_cases (archiveFrom bytes ((c + 1 : Nat) : Int))
      (fun k => @Path.readable_eq filename k) with
    ⟨hcmp, -⟩ | ⟨v, hv, hcmp, -⟩ | ⟨-, j, hj, hout, hall⟩
  · rw [hcmp]
    exact Or.inl ⟨_, _, rfl⟩
  · rw [hcmp]
    exact Or.inr (if_neg hv)
  · exfalso
    by_cases hij : i < j
    · -- the filename would have a NUL of its own
      have hchar := hall i hij
      rw [archiveFrom_natCast, hnul] at hchar
      have hend := Path.bytes_eq_zero.mp (Option.some.inj hchar).symm
      omega
    · have hout' := archiveFrom_none hout (Nat.le_of_not_lt hij)
      rw [archiveFrom_natCast, hnul] at hout'
      cases hout'

/-- A filename as long as the array is in no header, so that the cursor moves. -/
theorem lookupTurn_long {i : Nat} (hmagic : ∀ j < 5, bytes[c + 257 + j]? = some (ustar j))
    (hnul : bytes[c + 1 + i]? = some 0) (hlong : bytes.length ≤ filename.length) :
    lookupTurn bytes filename c = .moved (c + headerStep (sizeField bytes c)) := by
  refine (lookupTurn_named hmagic hnul).resolve_left ?_
  rintro ⟨size, out, hfound⟩
  rw [lookupTurn_header hmagic] at hfound
  rcases memcmpIn_cases (archiveFrom bytes ((c + 1 : Nat) : Int))
      (fun k => @Path.readable_eq filename k) with
    ⟨-, hall⟩ | ⟨v, hv, hcmp, -⟩ | ⟨hcmp, -⟩
  · have hlast := hall filename.length (by omega)
    rw [archiveFrom_natCast] at hlast
    have hinside := (List.getElem?_eq_some_iff.mp hlast).1
    omega
  · rw [hcmp] at hfound
    simp only [if_neg hv] at hfound
    cases hfound
  · rw [hcmp] at hfound
    cases hfound

/-- Without a NUL behind the first byte some filename is compared past the end. -/
theorem exists_outside (hmagic : ∀ j < 5, bytes[c + 257 + j]? = some (ustar j))
    (hnul : ∀ i, bytes[c + 1 + i]? ≠ some 0) :
    ∃ filename : Path, bytes.length ≤ filename.length ∧ lookupTurn bytes filename c = .outside := by
  have hchars : (0 : UInt8) ∉ bytes.drop (c + 1) ++ List.replicate bytes.length 1 := by
    intro hmem
    rcases List.mem_append.mp hmem with hmem | hmem
    · obtain ⟨i, hi⟩ := List.mem_iff_getElem?.mp hmem
      rw [List.getElem?_drop] at hi
      exact hnul i hi
    · exact absurd (List.eq_of_mem_replicate hmem) (by decide)
  obtain ⟨filename, hname⟩ : ∃ filename : Path,
      filename.chars = bytes.drop (c + 1) ++ List.replicate bytes.length 1 := ⟨⟨_, hchars⟩, rfl⟩
  have hlong : bytes.length ≤ filename.length := by simp [Path.length, hname]
  refine ⟨filename, hlong, ?_⟩
  rw [lookupTurn_header hmagic]
  rcases memcmpIn_cases (archiveFrom bytes ((c + 1 : Nat) : Int))
      (fun k => @Path.readable_eq filename k) with
    ⟨-, hall⟩ | ⟨-, -, -, j, -, b, hb, hne⟩ | ⟨hcmp, -⟩
  · have hlast := hall bytes.length (by omega)
    rw [archiveFrom_natCast] at hlast
    have hinside := (List.getElem?_eq_some_iff.mp hlast).1
    omega
  · -- the filename goes on as the array does
    rw [archiveFrom_natCast] at hb
    have hdrop : (bytes.drop (c + 1))[j]? = some b := by rw [List.getElem?_drop, hb]
    refine absurd ?_ hne
    rw [Path.bytes, hname, List.getD_eq_getElem?_getD, List.getElem?_append_left
      (List.getElem?_eq_some_iff.mp hdrop).1, hdrop]
    rfl
  · rw [hcmp]

/-- The first bytes of a block, or the read behind them. -/
theorem magic_cases (bytes : List UInt8) (filename : Path) (c : Nat) :
    (∃ i < 5, ∃ b, bytes[c + 257 + i]? = some b ∧ b ≠ ustar i) ∨
      (∀ j < 5, bytes[c + 257 + j]? = some (ustar j)) ∨
      lookupTurn bytes filename c = .outside := by
  rcases memcmpIn_cases (archiveFrom bytes ((c + 257 : Nat) : Int)) (fun k (_ : k < 5) => rfl) with
    ⟨-, hall⟩ | ⟨-, -, -, i, hi, b, hb, hne⟩ | ⟨hcmp, -⟩
  · exact Or.inr (Or.inl fun j hj => by rw [← archiveFrom_natCast]; exact hall j hj)
  · exact Or.inl ⟨i, hi, b, by rw [← archiveFrom_natCast]; exact hb, hne⟩
  · refine Or.inr (Or.inr ?_)
    rw [lookupTurn, show (c : Int) + 257 = ((c + 257 : Nat) : Int) from rfl, hcmp]

end Turns

section Scans

variable {bytes : List UInt8}

theorem HeaderChain.scansForward {c : Nat} (h : HeaderChain bytes c) (filename : Path) :
    ∃ fuel, ScansForward bytes filename fuel c := by
  induction h with
  | last hi hb hne =>
      refine ⟨1, ?_⟩
      rw [ScansForward, lookupTurn_last hi hb hne]
      trivial
  | @header c i hmagic hnul hlo hhi _ ih =>
      obtain ⟨fuel, hscan⟩ := ih
      refine ⟨fuel + 1, ?_⟩
      rcases @lookupTurn_named bytes filename c i hmagic hnul with ⟨size, out, hfound⟩ | hmoved
      · rw [ScansForward, hfound]
        trivial
      · rw [ScansForward, hmoved]
        have hstep := headerStep_of_range hlo hhi
        have hpos := (headerStep_pos (sizeField_range bytes c).1 (sizeField_range bytes c).2).mpr
          ⟨hlo, hhi⟩
        refine ⟨by omega, ?_⟩
        rw [hstep]
        exact hscan

theorem headerChain_of_scans {long : Path} (hlong : bytes.length ≤ long.length) {fuel c : Nat}
    (hscan : ScansForward bytes long fuel c)
    (hall : ∀ filename : Path, bytes.length ≤ filename.length →
      ∃ fuel, ScansForward bytes filename fuel c) : HeaderChain bytes c := by
  induction fuel generalizing c with
  | zero => exact False.elim hscan
  | succ fuel ih =>
      rcases magic_cases bytes long c with ⟨i, hi, b, hb, hne⟩ | hmagic | hout
      · exact .last hi hb hne
      · obtain ⟨i, hnul⟩ : ∃ i, bytes[c + 1 + i]? = some 0 := by
          refine Classical.byContradiction fun hnone => ?_
          obtain ⟨filename, hlength, hout⟩ := exists_outside hmagic (not_exists.mp hnone)
          obtain ⟨fuel', hscan'⟩ := hall filename hlength
          cases fuel' with
          | zero => exact hscan'
          | succ fuel' =>
              rw [ScansForward, hout] at hscan'
              exact hscan'
        -- every long filename takes the scan to the next header
        have hnext : ∀ filename : Path, bytes.length ≤ filename.length → ∀ k,
            ScansForward bytes filename (k + 1) c → 0 < headerStep (sizeField bytes c) ∧
              ScansForward bytes filename k (c + headerStep (sizeField bytes c)) := by
          intro filename hlength k hturn
          rw [ScansForward, lookupTurn_long hmagic hnul hlength] at hturn
          exact ⟨by omega, hturn.2⟩
        obtain ⟨hpos, hrest⟩ := hnext long hlong fuel hscan
        obtain ⟨hlo, hhi⟩ :=
          (headerStep_pos (sizeField_range bytes c).1 (sizeField_range bytes c).2).mp hpos
        rw [headerStep_of_range hlo hhi] at hnext hrest
        refine .header hmagic hnul hlo hhi (ih hrest fun filename hlength => ?_)
        obtain ⟨fuel', hscan'⟩ := hall filename hlength
        cases fuel' with
        | zero => exact False.elim hscan'
        | succ fuel' => exact ⟨fuel', (hnext filename hlength fuel' hscan').2⟩
      · rw [ScansForward, hout] at hscan
        exact False.elim hscan

/-- For every filename `initramfs_lookup` ends, reads the archive alone and moves its cursor
forward, exactly when the archive is a chain of headers. -/
theorem lookupForward_iff (bytes : List UInt8) :
    (∀ filename, LookupForward bytes filename) ↔ HeaderChain bytes 0 := by
  constructor
  · intro hall
    have hchars : (0 : UInt8) ∉ List.replicate bytes.length 1 := fun hmem =>
      absurd (List.eq_of_mem_replicate hmem) (by decide)
    obtain ⟨fuel, hscan⟩ := hall (some ⟨_, hchars⟩)
    exact headerChain_of_scans (by simp [Path.length]) hscan fun filename _ => hall (some filename)
  · intro hchain filename
    cases filename with
    | none => trivial
    | some filename => exact hchain.scansForward filename

end Scans

section Memory

variable {bytes : List UInt8} {m : ByteMemory} {base c : Nat}

/-- The array lies at `base`. -/
def StoredAt (bytes : List UInt8) (m : ByteMemory) (base : Nat) : Prop :=
  ∀ i b, bytes[i]? = some b → m (base + i) = b

theorem StoredAt.chars (h : StoredAt bytes m base) (k : Nat) (b : UInt8)
    (hb : archiveFrom bytes (c : Int) k = some b) : bytesFrom m (base + c) k = b := by
  rw [archiveFrom_natCast] at hb
  rw [bytesFrom, Nat.add_assoc]
  exact h _ b hb

theorem oct2binInFrom_some {s : Nat → Option UInt8} {t : Nat → UInt8}
    (h : ∀ k b, s k = some b → t k = b) {size i : Nat} {n v : Int}
    (hdecode : oct2binInFrom s size i n = some v) : oct2binFrom t size i n = v := by
  induction size generalizing i n with
  | zero => exact Option.some.inj hdecode
  | succ size ih =>
      obtain ⟨b, hb, hrest⟩ := Option.bind_eq_some_iff.mp hdecode
      rw [oct2binFrom, h i b hb]
      exact ih hrest

theorem StoredAt.sizeField (h : StoredAt bytes m base) (hlen : c + 0x7c + 11 ≤ bytes.length) :
    oct2bin (bytesFrom m (base + c + 0x7c)) 11 = sizeField bytes c :=
  oct2binInFrom_some (fun k b hb => @StoredAt.chars _ _ _ (c + 0x7c) h k b hb)
    (oct2binIn_sizeField hlen)

/-- One turn over the memory that holds the array. -/
theorem StoredAt.lookupTurn (h : StoredAt bytes m base) {filename : Path} {ptr out fuel : Nat}
    (hname : CString (bytesFrom m ptr) filename.chars) :
    match lookupTurn bytes filename c with
    | .outside => True
    | .ended => lookupFrom m ptr out (some filename.length) (fuel + 1) (base + c) = some (0, out)
    | .found size _ => lookupFrom m ptr out (some filename.length) (fuel + 1) (base + c) =
        some (size, add64 (base + c) 512)
    | .moved next => next = c + headerStep (BayosKernel.sizeField bytes c) ∧
        lookupFrom m ptr out (some filename.length) (fuel + 1) (base + c) =
          lookupFrom m ptr out (some filename.length) fuel
            (nextHeader (base + c) (BayosKernel.sizeField bytes c)) := by
  have hread : ∀ k b, filename.readable k = some b → bytesFrom m ptr k = b := fun k b hb => by
    rw [Path.readable] at hb
    split at hb
    · rename_i hk
      rw [← Option.some.inj hb]
      exact hname.bytes k hk
    · cases hb
  rcases magic_cases bytes filename c with ⟨i, hi, b, hb, hne⟩ | hmagic | hout
  · have hdiffer : memcmp (bytesFrom m (base + c + 257)) ustar 5 ≠ 0 := by
      rw [Ne, memcmp_eq_zero]
      intro hsame
      refine hne ((h _ b hb).symm.trans ?_)
      rw [← hsame i hi, bytesFrom]
      congr 1
      omega
    rw [lookupTurn_last hi hb hne]
    exact if_neg hdiffer
  · have hlen := (List.getElem?_eq_some_iff.mp (hmagic 4 (by decide))).1
    have hsame : memcmp (bytesFrom m (base + c + 257)) ustar 5 = 0 := by
      rw [memcmp_eq_zero]
      intro i hi
      rw [← h _ _ (hmagic i hi), bytesFrom]
      congr 1
      omega
    rw [lookupTurn_header hmagic]
    simp only [lookupFrom, if_pos hsame, h.sizeField (show c + 0x7c + 11 ≤ bytes.length by omega),
      Option.bind_some]
    cases hcmp : memcmpIn (archiveFrom bytes ((c + 1 : Nat) : Int)) filename.readable
        (filename.length + 1) with
    | none => trivial
    | some v =>
        have hmem : memcmp (bytesFrom m (base + c + 1)) (bytesFrom m ptr)
            (filename.length + 1) = v :=
          memcmpIn_some (fun k b hb => @StoredAt.chars _ _ _ (c + 1) h k b hb) hread hcmp
        rw [hmem]
        by_cases hv : v = 0
        · simp only [if_pos hv]
        · simp only [if_neg hv, and_self]
  · rw [hout]
    trivial

/-- The cursor of a scan is inside the array. -/
theorem ScansForward.inside {filename : Path} {fuel : Nat}
    (h : ScansForward bytes filename fuel (c : Int)) : c < bytes.length := by
  cases fuel with
  | zero => exact False.elim h
  | succ fuel =>
      rcases magic_cases bytes filename c with ⟨i, hi, b, hb, -⟩ | hmagic | hout
      · have := (List.getElem?_eq_some_iff.mp hb).1
        omega
      · have := (List.getElem?_eq_some_iff.mp (hmagic 0 (by decide))).1
        omega
      · rw [ScansForward, hout] at h
        exact False.elim h

/-- A scan of the array is one of the memory. -/
theorem ScansForward.lookupFrom {filename : Path} {ptr out fuel : Nat} (h : StoredAt bytes m base)
    (hend : base + bytes.length ≤ 0x10000000000000000)
    (hname : CString (bytesFrom m ptr) filename.chars)
    (hscan : ScansForward bytes filename fuel (c : Int)) :
    ∃ found, lookupFrom m ptr out (some filename.length) fuel (base + c) = some found := by
  induction fuel generalizing c with
  | zero => exact False.elim hscan
  | succ fuel ih =>
      have hturn := @StoredAt.lookupTurn bytes m base c h filename ptr out fuel hname
      rw [ScansForward] at hscan
      cases hcase : BayosKernel.lookupTurn bytes filename c with
      | outside =>
          rw [hcase] at hscan
          exact False.elim hscan
      | ended =>
          rw [hcase] at hturn
          exact ⟨_, hturn⟩
      | found size data =>
          rw [hcase] at hturn
          exact ⟨_, hturn⟩
      | moved next =>
          rw [hcase] at hturn hscan
          obtain ⟨hlt, hrest⟩ := hscan
          obtain ⟨hnext, hloop⟩ := hturn
          obtain ⟨d, rfl⟩ : ∃ d : Nat, next = d := ⟨next.toNat, by omega⟩
          have hinside := hrest.inside
          have hptr : nextHeader (base + c) (BayosKernel.sizeField bytes c) = base + d := by
            have hstep : nextHeader (base + c) (BayosKernel.sizeField bytes c) =
                ((((base + c : Nat) : Int) + headerStep (BayosKernel.sizeField bytes c)) %
                  0x10000000000000000).toNat := rfl
            rw [hstep]
            omega
          obtain ⟨found, hfound⟩ := ih hrest
          exact ⟨found, by rw [hloop, hptr, hfound]⟩

end Memory

/-- The bytes from `base` on. -/
def bytesAt (m : ByteMemory) (base n : Nat) : List UInt8 :=
  (List.range n).map fun i => m (base + i)

theorem bytesAt_getElem? {m : ByteMemory} {base n i : Nat} (hi : i < n) :
    (bytesAt m base n)[i]? = some (m (base + i)) := by
  rw [bytesAt, List.getElem?_map, List.getElem?_range hi, Option.map_some]

theorem bytesAt_holds (m : ByteMemory) (base n : Nat) : StoredAt (bytesAt m base n) m base := by
  intro i b hb
  have hi : i < n := by
    have := (List.getElem?_eq_some_iff.mp hb).1
    rwa [bytesAt, List.length_map, List.length_range] at this
  rw [bytesAt_getElem? hi] at hb
  exact Option.some.inj hb

/-- An archive of files is a chain of headers, up to the magic of the block behind it. -/
theorem Archive.headerChain {m : ByteMemory} {base n c : Nat} {es : List ArchiveEntry}
    (h : Archive m (base + c) es) (hn : c + archiveExtent es + 262 ≤ n) :
    HeaderChain (bytesAt m base n) c := by
  induction es generalizing c with
  | nil =>
      rw [archiveExtent] at hn
      obtain ⟨i, hi⟩ := not_forall.mp h
      obtain ⟨hlt, hne⟩ := Classical.not_imp.mp hi
      refine .last hlt (bytesAt_getElem? (by omega)) fun heq => hne ?_
      rw [← heq]
      congr 1
      omega
  | cons e rest ih =>
      obtain ⟨hat, hrest⟩ := h
      rw [archiveExtent, ArchiveEntry.extent] at hn
      have hshort := e.short
      have hpos : 0 < e.name.length := List.length_pos_iff.mpr e.ne_nil
      have hlen : (bytesAt m base n).length = n := by
        rw [bytesAt, List.length_map, List.length_range]
      have hsize : sizeField (bytesAt m base n) c = e.data.length := by
        rw [← (bytesAt_holds m base n).sizeField (by omega)]
        exact hat.oct2bin
      have hbound := e.size
      have hextent : fileExtent (sizeField (bytesAt m base n) c) = e.extent := by
        rw [hsize]
        rfl
      refine @HeaderChain.header _ _ (e.name.length - 1) (fun j hj => ?_) ?_ (by omega)
        (by omega) ?_
      · rw [bytesAt_getElem? (by omega), ← hat.magic j hj]
        congr 2
        omega
      · rw [bytesAt_getElem? (by omega), ← hat.name.terminator, bytesFrom]
        congr 2
        omega
      · rw [hextent]
        refine ih (by rw [← Nat.add_assoc]; exact hrest) ?_
        rw [ArchiveEntry.extent]
        omega

/-- A header with the size `0000000.000` and a block of zeros. -/
def dotArchive : List UInt8 := (List.range 1024).map fun i =>
  if i = 0 ∨ i = 0x83 then 0x2e else if i = 1 then 0x2f else if i = 2 then 0x61
  else if 0x7c ≤ i ∧ i < 0x87 then 0x30
  else if 257 ≤ i ∧ i < 262 then ustar (i - 257) else 0

/-- `/b`. -/
def fileB : Path := ⟨[0x2f, 0x62], by decide⟩

/-- The cursor stays at the header of the one, and the other has no byte to be read. -/
theorem dotArchive_stays : lookupTurn dotArchive fileB 0 = .moved 0 ∧
    ¬LookupForward dotArchive (some fileB) ∧
    lookupTurn [] fileB 0 = .outside ∧ ¬LookupForward [] (some fileB) := by
  have hstays : lookupTurn dotArchive fileB 0 = .moved 0 := by decide +kernel
  have houtside : lookupTurn [] fileB 0 = .outside := by decide +kernel
  refine ⟨hstays, ?_, houtside, ?_⟩
  · rintro ⟨fuel, hscan⟩
    cases fuel with
    | zero => exact hscan
    | succ fuel =>
        rw [ScansForward, hstays] at hscan
        exact absurd hscan.1 (Int.lt_irrefl 0)
  · rintro ⟨fuel, hscan⟩
    cases fuel with
    | zero => exact hscan
    | succ fuel =>
        rw [ScansForward, houtside] at hscan
        exact hscan

end BayosKernel
