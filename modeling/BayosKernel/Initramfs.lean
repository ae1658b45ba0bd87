import BayosKernel.StringFunctions
import Mathlib.Algebra.Order.Ring.Nat

/-!
The lookup in the ustar archive of `fs/initramfs.c`.

The magic is a literal of the program. `out` is the value of `*out`; the loops
of `initramfs_lookup` and of `strlen` run on fuel.
-/

namespace BayosKernel

open Foundation

/-- `"ustar"`. -/
def ustar (i : Nat) : UInt8 := [0x75, 0x73, 0x74, 0x61, 0x72].getD i 0

/-- The loop of `oct2bin`; `i` is the offset of `c`, `size` what is left. -/
def oct2binFrom (str : Nat → UInt8) : Nat → Nat → Int → Int
  | 0, _, n => n
  | size + 1, i, n =>
      let n := int32 (n * 8)
      let n := int32 (n + ((str i).toNat - 48))
      oct2binFrom str size (i + 1) n

def oct2bin (str : Nat → UInt8) (size : Nat) : Int := oct2binFrom str size 0 0

/-- `ptr += (((filesize + 511) / 512) + 1) * 512`. -/
def nextHeader (ptr : Nat) (filesize : Int) : Nat :=
  let blocks := int32 ((int32 (filesize + 511)).tdiv 512 + 1)
  ((ptr + int32 (blocks * 512)) % 0x10000000000000000).toNat

/-- The loop of `initramfs_lookup`; `len` is what `strlen(filename)` answers. -/
def lookupFrom (m : ByteMemory) (filename out : Nat) (len : Option Nat) :
    Nat → Nat → Option (Int × Nat)
  | 0, _ => none
  | fuel + 1, ptr =>
      if memcmp (bytesFrom m (ptr + 257)) ustar 5 = 0 then
        let filesize := oct2bin (bytesFrom m (ptr + 0x7c)) 11
        len.bind fun n =>
          if memcmp (bytesFrom m (ptr + 1)) (bytesFrom m filename) (n + 1) = 0 then
            some (filesize, add64 ptr 512)
          else lookupFrom m filename out len fuel (nextHeader ptr filesize)
      else some (0, out)

/-- The value that is returned and the new `*out`. -/
def initramfsLookup (fuel : Nat) (m : ByteMemory) (archive filename out : Nat) :
    Option (Int × Nat) :=
  if filename = NULL then some (-1, out)
  else lookupFrom m filename out (strlen fuel (bytesFrom m filename)) fuel archive

/-- A file of the archive, under its name with the leading dot. -/
structure ArchiveEntry where
  name : List UInt8
  data : List UInt8
  dot : name.head? = some 0x2e
  chars : 0 ∉ name
  short : name.length < 100
  size : data.length ≤ 0x7ffffc00

namespace ArchiveEntry

theorem ne_nil (e : ArchiveEntry) : e.name ≠ [] := by
  intro hnil
  have hdot := e.dot
  rw [hnil] at hdot
  cases hdot

/-- The bytes of the entry: a header block, and the data up to a whole block. -/
def extent (e : ArchiveEntry) : Nat := ((e.data.length + 511) / 512 + 1) * 512

/-- The entry lies at `p`. The other fields of the header and the padding are arbitrary. -/
structure At (e : ArchiveEntry) (m : ByteMemory) (p : Nat) : Prop where
  name : CString (bytesFrom m p) e.name
  size : ∀ i < 11, (m (p + 0x7c + i)).toNat = 48 + e.data.length / 8 ^ (10 - i) % 8
  magic : ∀ i < 5, m (p + 257 + i) = ustar i
  data : ∀ i, (h : i < e.data.length) → m (p + 512 + i) = e.data[i]

end ArchiveEntry

/-- The entries follow each other from `p` on, and a block without the magic ends them. -/
def Archive (m : ByteMemory) : Nat → List ArchiveEntry → Prop
  | p, [] => ¬∀ i < 5, m (p + 257 + i) = ustar i
  | p, e :: rest => e.At m p ∧ Archive m (p + e.extent) rest

def archiveExtent : List ArchiveEntry → Nat
  | [] => 0
  | e :: rest => e.extent + archiveExtent rest

/-- The first file of the name, and where its data starts. -/
def firstNamed (name : List UInt8) : Nat → List ArchiveEntry → Option (ArchiveEntry × Nat)
  | _, [] => none
  | p, e :: rest =>
      if e.name.tail = name then some (e, p + 512) else firstNamed name (p + e.extent) rest

/-- Each turn makes `n` the leading digits of the size. -/
theorem oct2binFrom_eq {str : Nat → UInt8} {size left i : Nat} (hsize : size < 0x80000000)
    (hdigits : ∀ k < left, (str (i + k)).toNat = 48 + size / 8 ^ (left - 1 - k) % 8) :
    oct2binFrom str left i ((size / 8 ^ left : Nat) : Int) = size := by
  induction left generalizing i with
  | zero => simp [oct2binFrom]
  | succ left ih =>
      have hdigit := hdigits 0 (by omega)
      rw [Nat.add_zero, Nat.add_sub_cancel, Nat.sub_zero] at hdigit
      have hlead : size / 8 ^ (left + 1) = size / 8 ^ left / 8 := by
        rw [pow_succ, Nat.div_div_eq_div_mul]
      have hle : size / 8 ^ left ≤ size := Nat.div_le_self _ _
      have hnext : int32 (int32 (((size / 8 ^ (left + 1) : Nat) : Int) * 8) +
          ((str i).toNat - 48)) = ((size / 8 ^ left : Nat) : Int) := by
        rw [hlead, hdigit]
        generalize size / 8 ^ left = lead at hle
        rw [int32_of_range (z := ((lead / 8 : Nat) : Int) * 8) (by omega) (by omega),
          int32_of_range (by omega) (by omega)]
        omega
      rw [oct2binFrom, hnext]
      refine ih fun k hk => ?_
      rw [Nat.add_assoc, Nat.add_comm 1 k, hdigits (k + 1) (by omega),
        show left + 1 - 1 - (k + 1) = left - 1 - k by omega]

theorem nextHeader_eq {ptr size : Nat} (hsize : size ≤ 0x7ffffc00)
    (hend : ptr + ((size + 511) / 512 + 1) * 512 < 0x10000000000000000) :
    nextHeader ptr size = ptr + ((size + 511) / 512 + 1) * 512 := by
  have hround : int32 ((size : Int) + 511) = ((size + 511 : Nat) : Int) :=
    int32_of_range (by omega) (by omega)
  have hdiv : ((size + 511 : Nat) : Int).tdiv 512 = (((size + 511) / 512 : Nat) : Int) := by
    rw [Int.tdiv_eq_ediv_of_nonneg (by omega)]
    omega
  simp only [nextHeader, hround, hdiv]
  rw [int32_of_range (z := (((size + 511) / 512 : Nat) : Int) + 1) (by omega) (by omega),
    int32_of_range (by omega) (by omega)]
  omega

namespace ArchiveEntry.At

variable {e : ArchiveEntry} {m : ByteMemory} {p : Nat}

theorem oct2bin (h : e.At m p) :
    BayosKernel.oct2bin (bytesFrom m (p + 0x7c)) 11 = e.data.length := by
  have hsize := e.size
  have hlead : e.data.length / 8 ^ 11 = 0 := Nat.div_eq_of_lt (by omega)
  have hdecode := @oct2binFrom_eq (bytesFrom m (p + 0x7c)) e.data.length 11 0 (by omega) fun k hk => by
      rw [Nat.zero_add]
      exact h.size k hk
  rw [hlead] at hdecode
  exact hdecode

/-- The comparison, terminator included, is that of the names. -/
theorem memcmp (h : e.At m p) {s : Nat → UInt8} {name : List UInt8} (hname : CString s name) :
    BayosKernel.memcmp (bytesFrom m (p + 1)) s (name.length + 1) = 0 ↔ e.name.tail = name := by
  have htail : CString (bytesFrom m (p + 1)) e.name.tail := by
    have hshift : bytesFrom m (p + 1) = fun i => bytesFrom m p (1 + i) := by
      funext i
      simp only [bytesFrom, Nat.add_assoc]
    rw [hshift]
    exact h.name.tail e.ne_nil
  rw [memcmp_eq_zero, htail.eq_iff hname]

end ArchiveEntry.At

theorem lookupFrom_eq {m : ByteMemory} {filename out fuel p : Nat} {name : List UInt8}
    {es : List ArchiveEntry} (hname : CString (bytesFrom m filename) name)
    (harchive : Archive m p es) (hend : p + archiveExtent es + 512 ≤ 0x10000000000000000)
    (hfuel : es.length < fuel) :
    lookupFrom m filename out (some name.length) fuel p =
      some ((firstNamed name p es).elim (0, out) fun found => ((found.1.data.length : Int), found.2)) := by
  induction es generalizing fuel p with
  | nil =>
      obtain ⟨fuel, rfl⟩ : ∃ k, fuel = k + 1 :=
        ⟨fuel - 1, by simp only [List.length_nil] at hfuel; omega⟩
      rw [lookupFrom, if_neg (by rw [memcmp_eq_zero]; exact harchive), firstNamed]
      rfl
  | cons e rest ih =>
      obtain ⟨fuel, rfl⟩ : ∃ k, fuel = k + 1 :=
        ⟨fuel - 1, by simp only [List.length_cons] at hfuel; omega⟩
      obtain ⟨hat, hrest⟩ := harchive
      simp only [archiveExtent, ArchiveEntry.extent] at hend
      have hmagic : memcmp (bytesFrom m (p + 257)) ustar 5 = 0 := memcmp_eq_zero.mpr hat.magic
      rw [lookupFrom, if_pos hmagic, hat.oct2bin, Option.bind_some, firstNamed]
      by_cases hmatch : e.name.tail = name
      · rw [if_pos ((hat.memcmp hname).mpr hmatch), if_pos hmatch, add64_eq (by omega)]
        rfl
      · rw [if_neg fun hzero => hmatch ((hat.memcmp hname).mp hzero), if_neg hmatch,
          nextHeader_eq e.size (by omega)]
        refine ih hrest (by omega) ?_
        simp only [List.length_cons] at hfuel
        omega

/-- The search stops at the first file of the name, and there its data lies. -/
theorem firstNamed_cases {m : ByteMemory} {name : List UInt8} {es : List ArchiveEntry} {p : Nat}
    (harchive : Archive m p es) :
    (∃ pre e post, es = pre ++ e :: post ∧ (∀ d ∈ pre, d.name.tail ≠ name) ∧
      e.name.tail = name ∧ firstNamed name p es = some (e, p + archiveExtent pre + 512) ∧
      ∀ i, (h : i < e.data.length) → m (p + archiveExtent pre + 512 + i) = e.data[i]) ∨
    ((∀ e ∈ es, e.name.tail ≠ name) ∧ firstNamed name p es = none) := by
  induction es generalizing p with
  | nil => exact Or.inr ⟨by simp, rfl⟩
  | cons e rest ih =>
      obtain ⟨hat, hrest⟩ := harchive
      rw [firstNamed]
      by_cases hmatch : e.name.tail = name
      · rw [if_pos hmatch]
        exact Or.inl ⟨[], e, rest, rfl, by simp, hmatch, rfl, hat.data⟩
      · rw [if_neg hmatch]
        rcases ih hrest with ⟨pre, d, post, rfl, hbefore, hname, hfirst, hdata⟩ | ⟨hnone, hfirst⟩
        · refine Or.inl ⟨e :: pre, d, post, rfl, ?_, hname, ?_, ?_⟩
          · simpa using ⟨hmatch, hbefore⟩
          · rw [hfirst, archiveExtent, Nat.add_assoc p]
          · rw [archiveExtent, ← Nat.add_assoc p]
            exact hdata
        · exact Or.inr ⟨by simpa using ⟨hmatch, hnone⟩, hfirst⟩

/-- The lookup answers the first file of the name, and nothing when there is none. -/
theorem initramfsLookup_archive {m : ByteMemory} {archive filename out fuel : Nat}
    {name : List UInt8} {es : List ArchiveEntry} (hname : CString (bytesFrom m filename) name)
    (hfilename : filename ≠ NULL) (harchive : Archive m archive es)
    (hend : archive + archiveExtent es + 512 ≤ 0x10000000000000000)
    (hfuel : name.length < fuel ∧ es.length < fuel) :
    (∃ pre e post, es = pre ++ e :: post ∧ (∀ d ∈ pre, d.name.tail ≠ name) ∧
      e.name.tail = name ∧ ∃ data, data = archive + archiveExtent pre + 512 ∧
        initramfsLookup fuel m archive filename out = some ((e.data.length : Int), data) ∧
        ∀ i, (h : i < e.data.length) → m (data + i) = e.data[i]) ∨
    ((∀ e ∈ es, e.name.tail ≠ name) ∧
      initramfsLookup fuel m archive filename out = some (0, out)) := by
  rw [initramfsLookup, if_neg hfilename, strlen_eq hname hfuel.1,
    lookupFrom_eq hname harchive hend hfuel.2]
  rcases @firstNamed_cases m name es archive harchive with
    ⟨pre, e, post, rfl, hbefore, hmatch, hfirst, hdata⟩ | ⟨hnone, hfirst⟩
  · refine Or.inl ⟨pre, e, post, rfl, hbefore, hmatch, _, rfl, ?_, hdata⟩
    rw [hfirst]
    rfl
  · refine Or.inr ⟨hnone, ?_⟩
    rw [hfirst]
    rfl

namespace ArchiveEntry

/-- The byte at offset `i` of the entry as an archiver writes it. -/
def byte (e : ArchiveEntry) (i : Nat) : UInt8 :=
  if i < 100 then e.name.getD i 0
  else if 0x7c ≤ i ∧ i < 0x87 then UInt8.ofNat (48 + e.data.length / 8 ^ (0x86 - i) % 8)
  else if 257 ≤ i ∧ i < 262 then ustar (i - 257)
  else if 512 ≤ i then e.data.getD (i - 512) 0
  else 0

def write (e : ArchiveEntry) (m : ByteMemory) (p : Nat) : ByteMemory := fun x =>
  if p ≤ x ∧ x < p + e.extent then e.byte (x - p) else m x

theorem write_here {e : ArchiveEntry} {m : ByteMemory} {p i : Nat} (hi : i < e.extent) :
    e.write m p (p + i) = e.byte i := by
  rw [write, if_pos (by omega), Nat.add_sub_cancel_left]

theorem write_at (e : ArchiveEntry) (m : ByteMemory) (p : Nat) : e.At (e.write m p) p := by
  have hextent : 512 + e.data.length ≤ e.extent := by
    simp only [extent]
    omega
  have hshort := e.short
  refine ⟨⟨e.chars, fun i hi => ?_⟩, fun i hi => ?_, fun i hi => ?_, fun i hi => ?_⟩
  · rw [bytesFrom, write_here (by omega), byte, if_pos (by omega)]
  · rw [Nat.add_assoc, write_here (by omega), byte, if_neg (by omega), if_pos (by omega),
      show 0x86 - (0x7c + i) = 10 - i by omega]
    exact UInt8.toNat_ofNat_of_lt' (by simp only [UInt8.size]; omega)
  · rw [Nat.add_assoc, write_here (by omega), byte, if_neg (by omega), if_neg (by omega),
      if_pos (by omega), Nat.add_sub_cancel_left]
  · rw [Nat.add_assoc, write_here (by omega), byte, if_neg (by omega), if_neg (by omega),
      if_neg (by omega), if_pos (by omega), Nat.add_sub_cancel_left]
    simp [hi]

end ArchiveEntry

/-- The archive of the files, and a block of zeros behind it. -/
def writeArchive (m : ByteMemory) : Nat → List ArchiveEntry → ByteMemory
  | p, [] => m.memset p 0 512
  | p, e :: rest => e.write (writeArchive m (p + e.extent) rest) p

theorem Archive.congr {m m' : ByteMemory} {p : Nat} {es : List ArchiveEntry}
    (h : Archive m p es) (hsame : ∀ x, p ≤ x → m' x = m x) : Archive m' p es := by
  induction es generalizing p with
  | nil =>
      intro hmagic
      refine h fun i hi => ?_
      rw [← hmagic i hi, hsame _ (by omega)]
  | cons e rest ih =>
      obtain ⟨⟨hname, hsize, hmagic, hdata⟩, hrest⟩ := h
      refine ⟨⟨⟨hname.chars, fun i hi => ?_⟩, fun i hi => ?_, fun i hi => ?_, fun i hi => ?_⟩,
        ih hrest fun x hx => hsame x (by omega)⟩
      · rw [← hname.bytes i hi]
        exact hsame _ (by omega)
      · rw [hsame _ (by omega), hsize i hi]
      · rw [hsame _ (by omega), hmagic i hi]
      · rw [hsame _ (by omega), hdata i hi]

/-- Every list of files has an archive. -/
theorem writeArchive_archive (m : ByteMemory) (p : Nat) (es : List ArchiveEntry) :
    Archive (writeArchive m p es) p es := by
  induction es generalizing p with
  | nil =>
      intro hmagic
      have hzero := hmagic 0 (by decide)
      rw [writeArchive, ByteMemory.memset_inside _ (by omega)] at hzero
      exact absurd hzero (by decide)
  | cons e rest ih =>
      refine ⟨e.write_at _ p, (ih (p + e.extent)).congr fun x hx => ?_⟩
      rw [writeArchive, ArchiveEntry.write, if_neg (by omega)]

/-- `./a` with three bytes and `./b`, which is empty. -/
def twoFiles : List ArchiveEntry :=
  [⟨[0x2e, 0x2f, 0x61], [7, 8, 9], rfl, by decide, by decide, by decide⟩,
    ⟨[0x2e, 0x2f, 0x62], [], rfl, by decide, by decide, by decide⟩]

/-- `/a` at 0x100. -/
def filenameMemory : ByteMemory := fun x => if x = 0x100 then 0x2f else if x = 0x101 then 0x61 else 0

theorem initramfsLookup_archive_twoFiles :
    ∃ e ∈ twoFiles, ∃ data,
      initramfsLookup 3 (writeArchive filenameMemory 0x1000 twoFiles) 0x1000 0x100 0 =
        some ((e.data.length : Int), data) ∧ e.name.tail = [0x2f, 0x61] ∧
      ∀ i, (h : i < e.data.length) →
        writeArchive filenameMemory 0x1000 twoFiles (data + i) = e.data[i] := by
  have hname : CString (bytesFrom (writeArchive filenameMemory 0x1000 twoFiles) 0x100)
      [0x2f, 0x61] := ⟨by decide, by decide +kernel⟩
  rcases @initramfsLookup_archive _ 0x1000 0x100 0 3 _ _ hname (by decide)
      (writeArchive_archive filenameMemory 0x1000 twoFiles) (by decide) (by decide) with
    ⟨pre, e, post, hes, -, hmatch, data, -, hlookup, hdata⟩ | ⟨hnone, -⟩
  · exact ⟨e, by rw [hes]; simp, data, hlookup, hmatch, hdata⟩
  · exact absurd rfl (hnone _ List.mem_cons_self)

end BayosKernel
