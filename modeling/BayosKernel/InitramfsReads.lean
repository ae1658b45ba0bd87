import BayosKernel.InitramfsOpen

/-!
Runs of `read` on a file of the initramfs. Each call looks the file up again under the copy
of the path that `open` made; what else runs in between leaves the archive and the file alone.
-/

namespace BayosKernel

open Foundation BlockList FileStruct

/-- An entry of an archive at `p`: the size and the magic of its header, which ends in a NUL
somewhere, and the data behind. The name and all other fields are arbitrary. -/
structure UstarEntry (m : ByteMemory) (p : Nat) (data : List UInt8) : Prop where
  size : ∀ i < 11, (m (p + 0x7c + i)).toNat = 48 + data.length / 8 ^ (10 - i) % 8
  magic : ∀ i < 5, m (p + 257 + i) = ustar i
  nul : ∃ i < 511, m (p + 1 + i) = 0
  contents : ∀ i, (h : i < data.length) → m (p + 512 + i) = data[i]
  small : data.length ≤ 0x7ffffc00

def entryExtent (data : List UInt8) : Nat := ((data.length + 511) / 512 + 1) * 512

/-- The entries follow each other from `p` on, and a block without the magic ends them. -/
def Ustar (m : ByteMemory) : Nat → List (List UInt8) → Prop
  | p, [] => ¬∀ i < 5, m (p + 257 + i) = ustar i
  | p, data :: rest => UstarEntry m p data ∧ Ustar m (p + entryExtent data) rest

/-- The bytes of the entries, without the last block. -/
def ustarExtent : List (List UInt8) → Nat
  | [] => 0
  | data :: rest => entryExtent data + ustarExtent rest

/-- The name in the header at `p`, without its first character, and the NUL behind it. -/
def Named (m : ByteMemory) (name : List UInt8) (p : Nat) : Prop :=
  ∀ i < name.length + 1, m (p + 1 + i) = name.getD i 0

instance (m : ByteMemory) (name : List UInt8) (p : Nat) : Decidable (Named m name p) :=
  inferInstanceAs (Decidable (∀ i < name.length + 1, _))

/-- The data of the first entry of the name, and where it starts. -/
def firstMatch (m : ByteMemory) (name : List UInt8) :
    Nat → List (List UInt8) → Option (List UInt8 × Nat)
  | _, [] => none
  | p, data :: rest =>
      if Named m name p then some (data, p + 512) else firstMatch m name (p + entryExtent data) rest

section Archives

variable {m m' : ByteMemory} {name data : List UInt8} {datas : List (List UInt8)} {p : Nat}

namespace UstarEntry

theorem oct2bin (h : UstarEntry m p data) :
    BayosKernel.oct2bin (bytesFrom m (p + 0x7c)) 11 = data.length := by
  have hsmall := h.small
  have hlead : data.length / 8 ^ 11 = 0 := Nat.div_eq_of_lt (by omega)
  have hdecode := @oct2binFrom_eq (bytesFrom m (p + 0x7c)) data.length 11 0 (by omega)
    fun k hk => by
      rw [Nat.zero_add]
      exact h.size k hk
  rw [hlead] at hdecode
  exact hdecode

theorem congr (h : UstarEntry m p data)
    (hsame : ∀ x, p ≤ x → x < p + entryExtent data → m' x = m x) : UstarEntry m' p data := by
  have hextent : 512 + data.length ≤ entryExtent data := by
    simp only [entryExtent]
    omega
  obtain ⟨i, hi, hnul⟩ := h.nul
  refine ⟨fun i hi => ?_, fun i hi => ?_, ⟨i, hi, ?_⟩, fun i hi => ?_, h.small⟩
  · rw [hsame _ (by omega) (by omega), h.size i hi]
  · rw [hsame _ (by omega) (by omega), h.magic i hi]
  · rw [hsame _ (by omega) (by omega), hnul]
  · rw [hsame _ (by omega) (by omega), h.contents i hi]

/-- The comparison of the names ends at the NUL of the header. -/
theorem named_congr (h : UstarEntry m p data) (hname : 0 ∉ name)
    (hsame : ∀ x, p ≤ x → x < p + 512 → m' x = m x) : Named m' name p ↔ Named m name p := by
  obtain ⟨j, hj, hnul⟩ := h.nul
  have hlength : ∀ {n : ByteMemory}, n (p + 1 + j) = 0 → Named n name p → name.length ≤ j := by
    intro n hzero hnamed
    refine Nat.le_of_not_lt fun hlt => hname ?_
    have hchar := hnamed j (by omega)
    rw [hzero, List.getD_eq_getElem _ _ hlt] at hchar
    rw [hchar]
    exact List.getElem_mem hlt
  constructor
  · intro hnamed i hi
    have := hlength ((hsame _ (by omega) (by omega)).trans hnul) hnamed
    rw [← hsame _ (by omega) (by omega)]
    exact hnamed i hi
  · intro hnamed i hi
    have := hlength hnul hnamed
    rw [hsame _ (by omega) (by omega)]
    exact hnamed i hi

end UstarEntry

theorem Ustar.congr (h : Ustar m p datas)
    (hsame : ∀ x, p ≤ x → x < p + ustarExtent datas + 512 → m' x = m x) : Ustar m' p datas := by
  induction datas generalizing p with
  | nil =>
      intro hmagic
      refine h fun i hi => ?_
      rw [← hsame _ (by omega) (by simp only [ustarExtent]; omega)]
      exact hmagic i hi
  | cons data rest ih =>
      simp only [ustarExtent] at hsame
      exact ⟨h.1.congr fun x hle hlt => hsame x hle (by omega),
        ih h.2 fun x hle hlt => hsame x (by omega) (by omega)⟩

theorem firstMatch_congr (h : Ustar m p datas) (hname : 0 ∉ name)
    (hsame : ∀ x, p ≤ x → x < p + ustarExtent datas + 512 → m' x = m x) :
    firstMatch m' name p datas = firstMatch m name p datas := by
  induction datas generalizing p with
  | nil => rfl
  | cons data rest ih =>
      simp only [ustarExtent] at hsame
      rw [firstMatch, firstMatch, ih h.2 fun x hle hlt => hsame x (by omega) (by omega)]
      simp only [h.1.named_congr hname fun x hle hlt => hsame x hle (by omega)]

theorem ustarExtent_append (pre post : List (List UInt8)) :
    ustarExtent (pre ++ post) = ustarExtent pre + ustarExtent post := by
  induction pre with
  | nil => simp [ustarExtent]
  | cons data rest ih => rw [List.cons_append, ustarExtent, ustarExtent, ih, Nat.add_assoc]

/-- The entry that is found is the first of the name. -/
theorem firstMatch_some (h : Ustar m p datas) {d : Nat}
    (hfound : firstMatch m name p datas = some (data, d)) :
    ∃ pre post, datas = pre ++ data :: post ∧ d = p + ustarExtent pre + 512 ∧
      Named m name (p + ustarExtent pre) ∧ UstarEntry m (p + ustarExtent pre) data ∧
      ∀ pre' data' post', pre = pre' ++ data' :: post' → ¬Named m name (p + ustarExtent pre') := by
  induction datas generalizing p with
  | nil => cases hfound
  | cons first rest ih =>
      obtain ⟨hentry, hrest⟩ := h
      rw [firstMatch] at hfound
      by_cases hnamed : Named m name p
      · rw [if_pos hnamed] at hfound
        cases hfound
        refine ⟨[], rest, rfl, rfl, hnamed, hentry, fun pre' data' post' hsplit => ?_⟩
        exact absurd hsplit (by simp)
      · rw [if_neg hnamed] at hfound
        obtain ⟨pre, post, rfl, rfl, hnamed', hentry', hbefore⟩ := ih hrest hfound
        have haddr : p + entryExtent first + ustarExtent pre = p + ustarExtent (first :: pre) := by
          rw [ustarExtent, Nat.add_assoc]
        rw [haddr] at hnamed' hentry'
        refine ⟨first :: pre, post, rfl, by rw [haddr], hnamed', hentry', ?_⟩
        rintro (_ | ⟨d, pre'⟩) data' post' hsplit
        · exact hnamed
        · obtain ⟨rfl, htail⟩ := List.cons.inj hsplit
          rw [ustarExtent, ← Nat.add_assoc]
          exact hbefore pre' data' post' htail

/-- The lookup goes through the entries. -/
theorem lookupFrom_ustar {filename out fuel : Nat} (hname : CString (bytesFrom m filename) name)
    (h : Ustar m p datas) (hend : p + ustarExtent datas + 512 ≤ 0x10000000000000000)
    (hfuel : datas.length < fuel) :
    lookupFrom m filename out (some name.length) fuel p =
      some ((firstMatch m name p datas).elim (0, out) fun found =>
        ((found.1.length : Int), found.2)) := by
  induction datas generalizing fuel p with
  | nil =>
      obtain ⟨fuel, rfl⟩ : ∃ k, fuel = k + 1 :=
        ⟨fuel - 1, by simp only [List.length_nil] at hfuel; omega⟩
      rw [lookupFrom, if_neg (by rw [memcmp_eq_zero]; exact h), firstMatch]
      rfl
  | cons data rest ih =>
      obtain ⟨fuel, rfl⟩ : ∃ k, fuel = k + 1 :=
        ⟨fuel - 1, by simp only [List.length_cons] at hfuel; omega⟩
      obtain ⟨hentry, hrest⟩ := h
      simp only [ustarExtent] at hend
      simp only [List.length_cons] at hfuel
      have hnext : nextHeader p data.length = p + entryExtent data := by
        rw [entryExtent] at hend ⊢
        exact nextHeader_eq hentry.small (by omega)
      have hmagic : memcmp (bytesFrom m (p + 257)) ustar 5 = 0 := memcmp_eq_zero.mpr hentry.magic
      have hmatch : memcmp (bytesFrom m (p + 1)) (bytesFrom m filename) (name.length + 1) = 0 ↔
          Named m name p := by
        rw [memcmp_eq_zero]
        refine forall₂_congr fun i hi => ?_
        rw [hname.bytes i (by omega)]
        rfl
      rw [lookupFrom, if_pos hmagic, hentry.oct2bin, Option.bind_some, firstMatch]
      by_cases hnamed : Named m name p
      · rw [entryExtent] at hend
        rw [if_pos (hmatch.mpr hnamed), if_pos hnamed, add64_eq (by omega)]
        rfl
      · rw [if_neg fun hzero => hnamed (hmatch.mp hzero), if_neg hnamed, hnext]
        exact ih hrest (by omega) (by omega)

end Archives

/-- A call of `read`, with the bytes that it delivered. -/
structure FileReadCall where
  count : Nat
  bytes : List UInt8

/-- Memory, and the calls so far. -/
structure ReaderState where
  mem : ByteMemory
  calls : List FileReadCall

/-- A call with a buffer, or whatever else runs; `fileBuf` is what the stack holds. -/
inductive ReaderAction where
  | read (fileBuf buf count : Nat)
  | other (m : ByteMemory)

namespace ReaderState

def delivered (s : ReaderState) : List UInt8 := s.calls.flatMap FileReadCall.bytes

def asked (s : ReaderState) : Nat := (s.calls.map FileReadCall.count).sum

def step (fuel archive file : Nat) (s : ReaderState) : ReaderAction → Option ReaderState
  | .read fileBuf buf count =>
      (initramfsRead fuel archive fileBuf s.mem file buf count).map fun (m, n) =>
        ⟨m, s.calls ++ [⟨count, (List.range n).map fun i => m (buf + i)⟩]⟩
  | .other m => some { s with mem := m }

end ReaderState

def readerMachine (fuel archive file : Nat) : Machine ReaderState ReaderAction :=
  ⟨ReaderState.step fuel archive file⟩

/-- The archive, the `file_t` and its copy of the path. -/
def Guarded (archive : Nat) (datas : List (List UInt8)) (file chars length x : Nat) : Prop :=
  (archive ≤ x ∧ x < archive + ustarExtent datas + 512) ∨ (file ≤ x ∧ x < file + 24) ∨
    (chars ≤ x ∧ x < chars + (length + 1))

/-- The buffer has room for what is left of the file, and nothing is written to what the
file rests on. -/
def ReaderAction.Clear (archive : Nat) (datas : List (List UInt8)) (file chars length : Nat)
    (s : ReaderState) : ReaderAction → Prop
  | .read _ buf count =>
      ∀ x, buf ≤ x → x < buf + min count (filesz s.mem file - offset s.mem file) →
        x < 0x10000000000000000 ∧ ¬Guarded archive datas file chars length x
  | .other m => ∀ x, Guarded archive datas file chars length x → m x = s.mem x

/-- What an open file rests on, and how far it is read. -/
structure ReaderInv (archive : Nat) (datas : List (List UInt8)) (file chars : Nat)
    (name data : List UInt8) (d : Nat) (s : ReaderState) : Prop where
  entries : Ustar s.mem archive datas
  found : firstMatch s.mem name archive datas = some (data, d)
  pointer : path s.mem file = chars
  string : CString (bytesFrom s.mem chars) name
  size : filesz s.mem file = data.length
  position : offset s.mem file = s.delivered.length
  bytes : s.delivered = data.take s.asked

/-- The `file_t` lies apart from the archive and from the copy of the path. -/
def FileApart (archive : Nat) (datas : List (List UInt8)) (file chars length : Nat) : Prop :=
  ∀ x, file ≤ x → x < file + 24 →
    ¬(archive ≤ x ∧ x < archive + ustarExtent datas + 512) ∧
      ¬(chars ≤ x ∧ x < chars + (length + 1))

namespace ReaderInv

variable {archive file chars d fuel fileBuf buf count : Nat} {datas : List (List UInt8)}
  {name data : List UInt8} {s s' : ReaderState} {m : ByteMemory}

/-- All but the position is read off what is guarded. -/
theorem congr (h : ReaderInv archive datas file chars name data d s)
    (harchive : ∀ x, archive ≤ x → x < archive + ustarExtent datas + 512 → m x = s.mem x)
    (hchars : ∀ x, chars ≤ x → x < chars + (name.length + 1) → m x = s.mem x)
    (hfile : ∀ x, file ≤ x → x < file + 24 → ¬(file + 8 ≤ x ∧ x < file + 16) → m x = s.mem x)
    {calls : List FileReadCall}
    (hposition : offset m file = (calls.flatMap FileReadCall.bytes).length)
    (hbytes : calls.flatMap FileReadCall.bytes = data.take (calls.map FileReadCall.count).sum) :
    ReaderInv archive datas file chars name data d ⟨m, calls⟩ := by
  refine ⟨h.entries.congr harchive, ?_, ?_, ?_, ?_, hposition, hbytes⟩
  · exact (firstMatch_congr h.entries h.string.chars harchive).trans h.found
  · exact (ByteMemory.load_congr fun x hle hlt => hfile x hle (by omega) (by omega)).trans h.pointer
  · exact h.string.congr fun i hi => hchars _ (by omega) (by omega)
  · rw [← h.size]
    exact ByteMemory.load_congr fun x hle hlt => hfile x (by omega) (by omega) (by omega)

theorem lookup (h : ReaderInv archive datas file chars name data d s) (hnull : chars ≠ NULL)
    (hend : archive + ustarExtent datas + 512 ≤ 0x10000000000000000)
    (hfuel : name.length < fuel ∧ datas.length < fuel) :
    initramfsLookup fuel s.mem archive (path s.mem file) fileBuf =
      some ((data.length : Int), d) := by
  rw [initramfsLookup, h.pointer, if_neg hnull, strlen_eq h.string hfuel.1,
    lookupFrom_ustar h.string h.entries hend hfuel.2, h.found]
  rfl

/-- A call delivers the next bytes, as many as it is asked for or as there are. -/
theorem read (h : ReaderInv archive datas file chars name data d s) (hnull : chars ≠ NULL)
    (hend : archive + ustarExtent datas + 512 ≤ 0x10000000000000000)
    (hfuel : name.length < fuel ∧ datas.length < fuel)
    (hclear : ReaderAction.Clear archive datas file chars name.length s (.read fileBuf buf count)) :
    ∃ m', initramfsRead fuel archive fileBuf s.mem file buf count =
        some (m', min count (data.length - offset s.mem file)) ∧
      offset m' file = offset s.mem file + min count (data.length - offset s.mem file) ∧
      (∀ x, Guarded archive datas file chars name.length x → ¬(file + 8 ≤ x ∧ x < file + 16) →
        m' x = s.mem x) ∧
      (List.range (min count (data.length - offset s.mem file))).map (fun i => m' (buf + i)) =
        (data.drop (offset s.mem file)).take count := by
  obtain ⟨pre, post, rfl, rfl, -, hentry, -⟩ := firstMatch_some h.entries h.found
  have hsmall := hentry.small
  have hsize : sizeT data.length = data.length := sizeT_of_range (by omega)
  have hle : offset s.mem file ≤ data.length := by
    rw [h.position, h.bytes, List.length_take]
    omega
  rw [initramfsRead, h.lookup hnull hend hfuel, Option.map_some]
  simp only [hsize]
  by_cases hover : offset s.mem file ≥ data.length
  · have hzero : data.length - offset s.mem file = 0 := by omega
    rw [if_pos hover, hzero, Nat.min_zero]
    refine ⟨s.mem, rfl, (Nat.add_zero _).symm, fun _ _ _ => rfl, ?_⟩
    rw [List.drop_eq_nil_of_le hover, List.take_nil]
    rfl
  · rw [ustarExtent_append, ustarExtent, entryExtent] at hend
    obtain ⟨n, hn⟩ : ∃ n, min count (data.length - offset s.mem file) = n := ⟨_, rfl⟩
    have hremaining : sub64 data.length (offset s.mem file) = data.length - offset s.mem file :=
      sub64_eq hle (by omega)
    have hcopy : (if count < data.length - offset s.mem file then count
        else data.length - offset s.mem file) = n := by
      rw [← hn]
      split <;> omega
    have hsource : add64 (archive + ustarExtent pre + 512) (offset s.mem file) =
        archive + ustarExtent pre + 512 + offset s.mem file := add64_eq (by omega)
    rw [if_neg hover, hremaining, hcopy, hsource, hn]
    -- the copy writes to no guarded byte, the position to no other
    obtain ⟨m₁, hm₁⟩ : ∃ m₁, s.mem.memcpy buf (archive + ustarExtent pre + 512 +
        offset s.mem file) n = m₁ := ⟨_, rfl⟩
    have hout : ∀ x, Guarded archive (pre ++ data :: post) file chars name.length x →
        m₁ x = s.mem x := by
      intro x hx
      rw [← hm₁]
      refine ByteMemory.memcpy_outside _ ?_
      by_contra hin
      rw [← hn] at hin
      exact (hclear x (by omega) (by simp only [h.size]; omega)).2 hx
    have hposition : offset m₁ file = offset s.mem file :=
      ByteMemory.load_congr fun x hle hlt => hout x (Or.inr (Or.inl ⟨by omega, by omega⟩))
    rw [hm₁, hposition, add64_eq (by omega)]
    refine ⟨setOffset m₁ file (offset s.mem file + n), rfl, ?_, fun x hx hnot => ?_, ?_⟩
    · rw [offset, setOffset, ByteMemory.load_store_word _ (by omega)]
    · rw [setOffset, ByteMemory.store_outside _ (by omega), hout x hx]
    · refine List.ext_getElem ?_ fun i hi hi' => ?_
      · rw [List.length_map, List.length_range, List.length_take, List.length_drop, hn]
      · have hi : i < n := by simpa using hi
        have hbuf : ¬(file + 8 ≤ buf + i ∧ buf + i < file + 16) := fun hin =>
          (hclear (buf + i) (by omega) (by rw [h.size, hn]; omega)).2
            (Or.inr (Or.inl ⟨by omega, by omega⟩))
        rw [List.getElem_map, List.getElem_range, List.getElem_take, List.getElem_drop, setOffset,
          ByteMemory.store_outside _ (by omega), ← hm₁, ByteMemory.memcpy_inside _ hi,
          Nat.add_assoc (archive + ustarExtent pre + 512), hentry.contents]

theorem step (h : ReaderInv archive datas file chars name data d s) (hnull : chars ≠ NULL)
    (hapart : FileApart archive datas file chars name.length)
    (hend : archive + ustarExtent datas + 512 ≤ 0x10000000000000000)
    (hfuel : name.length < fuel ∧ datas.length < fuel) {a : ReaderAction}
    (hclear : a.Clear archive datas file chars name.length s)
    (hstep : s.step fuel archive file a = some s') :
    ReaderInv archive datas file chars name data d s' := by
  cases a with
  | read fileBuf buf count =>
      obtain ⟨m', hread, hoffset, hframe, hbytes⟩ := h.read hnull hend hfuel hclear
      rw [ReaderState.step, hread, Option.map_some] at hstep
      cases hstep
      have hdelivered : s.delivered ++ (data.drop (offset s.mem file)).take count =
          data.take (s.asked + count) := by
        rw [h.position, h.bytes, List.length_take]
        by_cases hover : data.length ≤ s.asked
        · rw [Nat.min_eq_right hover, List.drop_length, List.take_nil, List.append_nil,
            List.take_of_length_le hover, List.take_of_length_le (by omega)]
        · rw [Nat.min_eq_left (by omega), List.take_add]
      refine h.congr (fun x hle hlt => hframe x (Or.inl ⟨hle, hlt⟩) fun hin => ?_)
        (fun x hle hlt => hframe x (Or.inr (Or.inr ⟨hle, hlt⟩)) fun hin => ?_)
        (fun x hle hlt hnot => hframe x (Or.inr (Or.inl ⟨hle, hlt⟩)) hnot) ?_ ?_
      · exact (hapart x (by omega) (by omega)).1 ⟨hle, hlt⟩
      · exact (hapart x (by omega) (by omega)).2 ⟨hle, hlt⟩
      · rw [List.flatMap_append, List.length_append, hoffset, h.position]
        simp [ReaderState.delivered]
      · rw [List.flatMap_append, List.flatMap_singleton, hbytes, List.map_append, List.sum_append,
          List.map_singleton, List.sum_singleton]
        exact hdelivered
  | other m =>
      cases hstep
      refine h.congr (fun x hle hlt => hclear x (Or.inl ⟨hle, hlt⟩))
        (fun x hle hlt => hclear x (Or.inr (Or.inr ⟨hle, hlt⟩)))
        (fun x hle hlt _ => hclear x (Or.inr (Or.inl ⟨hle, hlt⟩))) ?_ h.bytes
      rw [← ReaderState.delivered, ← h.position]
      exact ByteMemory.load_congr fun x hle hlt =>
        hclear x (Or.inr (Or.inl ⟨by omega, by omega⟩))

end ReaderInv

section Reads

variable {fuel archive out filename file : Nat} {heap heap' : HeapState} {bs : List Block}
  {datas : List (List UInt8)} {name : List UInt8}

/-- A file that `open` hands out is the first of its name, and nothing of it is read. -/
theorem initramfsOpenAt_readerInv (hinv : HeapInv heap bs) (hnull : filename ≠ NULL)
    (hpath : CString (bytesFrom heap.mem filename) name)
    (hclient : ∀ i ≤ name.length, heap.Writable (filename + i))
    (hshort : name.length < 0x800000000000) (harchive : Ustar heap.mem archive datas)
    (hend : archive + ustarExtent datas + 512 ≤ 0x10000000000000000)
    (houtside : ∀ x, archive ≤ x → x < archive + ustarExtent datas + 512 → heap.Writable x)
    (hfuel : heap.al.size ≤ fuel ∧ name.length < fuel ∧ datas.length < fuel)
    (hopen : initramfsOpenAt fuel archive out heap filename = some (heap', file))
    (hfile : file ≠ NULL) :
    ∃ pre data post, datas = pre ++ data :: post ∧
      Named heap.mem name (archive + ustarExtent pre) ∧
      (∀ pre' data' post', pre = pre' ++ data' :: post' →
        ¬Named heap.mem name (archive + ustarExtent pre')) ∧
      path heap'.mem file ≠ NULL ∧
      FileApart archive datas file (path heap'.mem file) name.length ∧
      ReaderInv archive datas file (path heap'.mem file) name data
        (archive + ustarExtent pre + 512) ⟨heap'.mem, []⟩ := by
  have hlookup : initramfsLookup fuel heap.mem archive filename out =
      some ((firstMatch heap.mem name archive datas).elim (0, out) fun found =>
        ((found.1.length : Int), found.2)) := by
    rw [initramfsLookup, if_neg hnull, strlen_eq hpath hfuel.2.1]
    exact lookupFrom_ustar hpath harchive hend hfuel.2.2
  obtain ⟨heap₁, file₁, hopen₁, ⟨rfl, -⟩ | ⟨-, hsome, hopened⟩⟩ :=
    initramfsOpenAt_cases hinv hfuel.1 hpath hclient hfuel.2.1 hshort hlookup
  · rw [hopen] at hopen₁
    cases hopen₁
    exact absurd rfl hfile
  rw [hopen] at hopen₁
  cases hopen₁
  cases hfound : firstMatch heap.mem name archive datas with
  | none =>
      rw [hfound] at hsome
      exact absurd (Or.inl rfl) hsome
  | some found =>
      obtain ⟨data, d⟩ := found
      rw [hfound] at hopened
      obtain ⟨pre, post, rfl, rfl, hnamed, hentry, hbefore⟩ := firstMatch_some harchive hfound
      have hsame : ∀ x, archive ≤ x → x < archive + ustarExtent (pre ++ data :: post) + 512 →
          heap'.mem x = heap.mem x := fun x hle hlt => (hopened.keeps x (houtside x hle hlt)).1
      obtain ⟨bs', hinv'⟩ := hopened.valid
      obtain ⟨happart, hout⟩ := hopened.apart
      have hsmall := hentry.small
      have hsize : filesz heap'.mem file = data.length := by
        have hlength : data.length < 0x10000000000000000 := by omega
        rw [hopened.size]
        exact sizeT_of_range hlength
      have hchars : path heap'.mem file ≠ NULL :=
        hinv'.live_ne_null (g := (path heap'.mem file, name.length + 1)) (by
          rw [hopened.live]
          simp)
      have hmatch := (firstMatch_congr harchive hpath.chars hsame).trans hfound
      have hreader : ReaderInv archive (pre ++ data :: post) file (path heap'.mem file) name data
          (archive + ustarExtent pre + 512) ⟨heap'.mem, []⟩ :=
        { entries := harchive.congr hsame, found := hmatch, pointer := rfl,
          string := hopened.string, size := hsize, position := hopened.start, bytes := rfl }
      refine ⟨pre, data, post, rfl, hnamed, hbefore, hchars,
        fun x hle hlt => ⟨fun hin => ?_, fun hin => by omega⟩, hreader⟩
      have := (hout x (houtside x hin.1 hin.2)).1
      omega

/-- Calls of `read` with any counts deliver the file from its start: each the next bytes, as many
as it asks for or as are left, and none only at the end. -/
theorem initramfsRead_delivers (hinv : HeapInv heap bs) (hnull : filename ≠ NULL)
    (hpath : CString (bytesFrom heap.mem filename) name)
    (hclient : ∀ i ≤ name.length, heap.Writable (filename + i))
    (hshort : name.length < 0x800000000000) (harchive : Ustar heap.mem archive datas)
    (hend : archive + ustarExtent datas + 512 ≤ 0x10000000000000000)
    (houtside : ∀ x, archive ≤ x → x < archive + ustarExtent datas + 512 → heap.Writable x)
    (hfuel : heap.al.size ≤ fuel ∧ name.length < fuel ∧ datas.length < fuel)
    (hopen : initramfsOpenAt fuel archive out heap filename = some (heap', file))
    (hfile : file ≠ NULL) :
    ∃ pre data post, datas = pre ++ data :: post ∧
      Named heap.mem name (archive + ustarExtent pre) ∧
      (∀ pre' data' post', pre = pre' ++ data' :: post' →
        ¬Named heap.mem name (archive + ustarExtent pre')) ∧
      ∀ run s, (readerMachine fuel archive file).Meets (fun s a =>
          a.Clear archive datas file (path heap'.mem file) name.length s) ⟨heap'.mem, []⟩ run →
        (readerMachine fuel archive file).exec ⟨heap'.mem, []⟩ run = some s →
        s.delivered = data.take s.asked ∧ offset s.mem file = s.delivered.length ∧
          offset s.mem file ≤ filesz s.mem file ∧ filesz s.mem file = data.length ∧
          ∀ fileBuf buf count, ReaderAction.Clear archive datas file (path heap'.mem file)
              name.length s (.read fileBuf buf count) →
            ∃ m n, initramfsRead fuel archive fileBuf s.mem file buf count = some (m, n) ∧
              n = min count (filesz s.mem file - offset s.mem file) ∧
              (0 < count → (n = 0 ↔ offset s.mem file = filesz s.mem file)) := by
  obtain ⟨pre, data, post, hsplit, hnamed, hbefore, hchars, happart, hreader⟩ :=
    initramfsOpenAt_readerInv hinv hnull hpath hclient hshort harchive hend houtside hfuel hopen
      hfile
  refine ⟨pre, data, post, hsplit, hnamed, hbefore, fun run s hmeets hexec => ?_⟩
  have h := (readerMachine fuel archive file).exec_invariant
    (fun _ _ _ hs hclear hstep => hs.step hchars happart hend hfuel.2 hclear hstep) hreader hmeets
    hexec
  have hle : offset s.mem file ≤ data.length := by
    rw [h.position, h.bytes, List.length_take]
    omega
  have hend' : offset s.mem file ≤ filesz s.mem file := h.size ▸ hle
  refine ⟨h.bytes, h.position, hend', h.size, fun fileBuf buf count hclear => ?_⟩
  obtain ⟨m', hread, -⟩ := h.read hchars hend hfuel.2 hclear
  refine ⟨m', _, hread, by rw [h.size], fun hcount => ?_⟩
  rw [h.size]
  omega

end Reads

theorem ArchiveEntry.At.ustarEntry {e : ArchiveEntry} {m : ByteMemory} {p : Nat} (h : e.At m p) :
    UstarEntry m p e.data := by
  have hpos : 0 < e.name.length := List.length_pos_of_ne_nil e.ne_nil
  have hshort := e.short
  refine ⟨h.size, h.magic, ⟨e.name.length - 1, by omega, ?_⟩, h.data, e.size⟩
  rw [show p + 1 + (e.name.length - 1) = p + e.name.length by omega]
  exact h.name.terminator

/-- The files of an archive are its entries. -/
theorem Archive.ustar {m : ByteMemory} {p : Nat} {es : List ArchiveEntry} (h : Archive m p es) :
    Ustar m p (es.map ArchiveEntry.data) := by
  induction es generalizing p with
  | nil => exact h
  | cons e rest ih => exact ⟨h.1.ustarEntry, ih h.2⟩

/-- Two bytes of `/a`, and then more than are left. -/
def twoReads : List ReaderAction := [.read 0 0x300 2, .read 0 0x300 5]

theorem initramfsRead_delivers_twoReads : ∃ heap' s,
    initramfsOpenAt 0x1000 0x4000 0 twoFilesHeap 0x100 = some (heap', 0x2020) ∧
      (readerMachine 0x1000 0x4000 0x2020).exec ⟨heap'.mem, []⟩ twoReads = some s ∧
      s.delivered = [7, 8, 9] := by
  have hrun : ((initramfsOpenAt 0x1000 0x4000 0 twoFilesHeap 0x100).bind fun r =>
      ((readerMachine 0x1000 0x4000 0x2020).exec ⟨r.1.mem, []⟩ twoReads).map fun s =>
        [r.2, path r.1.mem 0x2020, filesz s.mem 0x2020, s.asked]) =
          some [0x2020, 0x2060, 3, 7] := by
    decide +kernel
  obtain ⟨⟨heap', file⟩, hopen, hrest⟩ := Option.bind_eq_some_iff.mp hrun
  obtain ⟨s, hexec, heq⟩ := Option.map_eq_some_iff.mp hrest
  simp only [List.cons.injEq, and_true] at heq
  obtain ⟨rfl, hchars, hsize, hasked⟩ := heq
  have hpath : CString (bytesFrom twoFilesHeap.mem 0x100) [0x2f, 0x61] :=
    ⟨by decide, by decide +kernel⟩
  obtain ⟨pre, data, post, hsplit, -, -, hreads⟩ := @initramfsRead_delivers 0x1000 0x4000 0 0x100
    0x2020 twoFilesHeap heap' _ _ _ twoFilesHeap_inv (by decide) hpath (by decide) (by decide)
    twoFilesHeap_archive.ustar (by decide) (fun x hle _ => Or.inl (Or.inr (by
      rw [show twoFilesHeap.al.addr + twoFilesHeap.al.size = 0x3000 from rfl]
      omega))) (by decide) hopen (by decide)
  have hclear : ∀ a ∈ twoReads, ∀ s, ReaderAction.Clear 0x4000 (twoFiles.map ArchiveEntry.data)
      0x2020 (path heap'.mem 0x2020) 2 s a := by
    intro a ha s
    simp only [twoReads, List.mem_cons, List.not_mem_nil, or_false] at ha
    rcases ha with rfl | rfl <;> intro x hle hlt <;> simp only [Guarded, hchars] <;> omega
  obtain ⟨hdelivered, -, -, hlength, -⟩ := hreads twoReads s
    ((readerMachine 0x1000 0x4000 0x2020).meets_of_mem _ _ hclear) hexec
  refine ⟨heap', s, hopen, hexec, ?_⟩
  have hdata : data ∈ [[7, 8, 9], []] := by
    have hmem : data ∈ twoFiles.map ArchiveEntry.data := by
      rw [hsplit]
      simp
    exact hmem
  rw [hsize] at hlength
  rcases List.mem_cons.mp hdata with rfl | hnil
  · rw [hdelivered, hasked]
    rfl
  · rw [List.mem_singleton.mp hnil] at hlength
    cases hlength

end BayosKernel
