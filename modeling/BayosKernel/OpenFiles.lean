import BayosKernel.InitramfsReads

/-!
Any number of open files of the initramfs at once: `open`, `read` and `close` in any order,
with whatever else runs in between.
-/

namespace BayosKernel

open Foundation BlockList FileStruct

/-- `close` of `fs/initramfs.c`, which ends without a `return`. -/
def initramfsClose (heap : HeapState) (file : Nat) : HeapState :=
  (heap.give (path heap.mem file)).give file

/-- A `file_t`, its copy of the path, and the calls of `read` on it. -/
structure OpenedFile where
  addr : Nat
  chars : Nat
  name : List UInt8
  calls : List FileReadCall

namespace OpenedFile

def blocks (f : OpenedFile) : List (Nat × Nat) :=
  [(f.chars, f.name.length + 1), (f.addr, sizeofFile)]

def delivered (f : OpenedFile) : List UInt8 := f.calls.flatMap FileReadCall.bytes

def asked (f : OpenedFile) : Nat := (f.calls.map FileReadCall.count).sum

end OpenedFile

/-- `others` are the live blocks that belong to no open file. -/
structure FilesState where
  heap : HeapState
  files : List OpenedFile
  others : List (Nat × Nat)

/-- A file is given by its place among the open ones, and `name` is the string at `filename`.
What else runs leaves a heap and its own live blocks. -/
inductive FileAction where
  | openFile (out filename : Nat) (name : List UInt8)
  | read (i fileBuf buf count : Nat)
  | close (i : Nat)
  | other (heap : HeapState) (others : List (Nat × Nat))

namespace FilesState

def step (fuel archive : Nat) (s : FilesState) : FileAction → Option FilesState
  | .openFile out filename name =>
      (initramfsOpenAt fuel archive out s.heap filename).map fun (heap, file) =>
        if file = NULL then { s with heap := heap }
        else { s with heap := heap, files := s.files ++ [⟨file, path heap.mem file, name, []⟩] }
  | .read i fileBuf buf count =>
      s.files[i]?.bind fun f =>
        (initramfsRead fuel archive fileBuf s.heap.mem f.addr buf count).map fun (m, n) =>
          let call : FileReadCall := ⟨count, (List.range n).map fun k => m (buf + k)⟩
          { s with heap := { s.heap with mem := m }
                   files := s.files.set i { f with calls := f.calls ++ [call] } }
  | .close i =>
      s.files[i]?.map fun f =>
        { s with heap := initramfsClose s.heap f.addr, files := s.files.eraseIdx i }
  | .other heap others => some { s with heap := heap, others := others }

def blocks (s : FilesState) : List (Nat × Nat) := s.files.flatMap OpenedFile.blocks

/-- The archive and the blocks of the open files. -/
def Guards (archive : Nat) (datas : List (List UInt8)) (s : FilesState) (x : Nat) : Prop :=
  (archive ≤ x ∧ x < archive + ustarExtent datas + 512) ∨
    ∃ g ∈ s.blocks, g.1 ≤ x ∧ x < g.1 + g.2

/-- A path is a string of a client, a buffer has room for what is left of the file, and
nothing else writes to the archive or to what belongs to an open file. -/
def Allows (fuel archive : Nat) (datas : List (List UInt8)) (s : FilesState) : FileAction → Prop
  | .openFile _ filename name =>
      filename ≠ NULL ∧ CString (bytesFrom s.heap.mem filename) name ∧
        (∀ i ≤ name.length, s.heap.Writable (filename + i)) ∧
        name.length < 0x800000000000 ∧ name.length < fuel
  | .read i _ buf count =>
      ∀ f, s.files[i]? = some f → ∀ x, buf ≤ x →
        x < buf + min count (filesz s.heap.mem f.addr - offset s.heap.mem f.addr) →
          x < 0x10000000000000000 ∧ s.heap.Writable x ∧ ¬s.Guards archive datas x
  | .close _ => True
  | .other heap others =>
      (∃ bs, HeapInv heap bs) ∧ heap.al = s.heap.al ∧ heap.live.Perm (s.blocks ++ others) ∧
        ∀ x, s.Guards archive datas x → heap.mem x = s.heap.mem x

end FilesState

def filesMachine (fuel archive : Nat) : Machine FilesState FileAction :=
  ⟨FilesState.step fuel archive⟩

/-- A heap, and an archive outside of it. -/
structure ArchiveBeside (fuel archive : Nat) (datas : List (List UInt8)) (heap : HeapState) :
    Prop where
  entries : Ustar heap.mem archive datas
  stop : archive + ustarExtent datas + 512 ≤ 0x10000000000000000
  outside : ∀ x, archive ≤ x → x < archive + ustarExtent datas + 512 →
    x < heap.al.addr ∨ heap.al.addr + heap.al.size ≤ x
  fuel : heap.al.size ≤ fuel ∧ datas.length < fuel

/-- The contents of an open file are those that its name had in memory `m₀`. -/
structure FileInv (fuel archive : Nat) (datas : List (List UInt8)) (m₀ m : ByteMemory)
    (f : OpenedFile) (data : List UInt8) (d : Nat) : Prop where
  first : firstMatch m₀ f.name archive datas = some (data, d)
  reader : ReaderInv archive datas f.addr f.chars f.name data d ⟨m, f.calls⟩
  short : f.name.length < fuel

/-- What holds between two calls, in a heap that began as `heap₀`. -/
structure FilesInv (fuel archive : Nat) (datas : List (List UInt8)) (heap₀ : HeapState)
    (s : FilesState) : Prop where
  heap : ∃ bs, HeapInv s.heap bs
  al : s.heap.al = heap₀.al
  same : ∀ x, archive ≤ x → x < archive + ustarExtent datas + 512 → s.heap.mem x = heap₀.mem x
  live : s.heap.live.Perm (s.blocks ++ s.others)
  files : ∀ f ∈ s.files, ∃ data d, FileInv fuel archive datas heap₀.mem s.heap.mem f data d

/-- Blocks of which neither reaches into the other one. -/
def BlocksApart (g g' : Nat × Nat) : Prop :=
  g.1 + (granted g).2 ≤ g'.1 ∨ g'.1 + (granted g').2 ≤ g.1

theorem BlocksApart.symm {g g' : Nat × Nat} (h : BlocksApart g g') : BlocksApart g' g := Or.symm h

theorem BlocksApart.bytes {g g' : Nat × Nat} (h : BlocksApart g g') {x : Nat}
    (hle : g.1 ≤ x) (hlt : x < g.1 + g.2) : x < g'.1 ∨ g'.1 + g'.2 ≤ x := by
  simp only [BlocksApart, granted] at h
  omega

section Lists

variable {α : Type} {β : Type} {l : List α} {i : Nat} {a b : α}

theorem mem_set_cases (h : b ∈ l.set i a) : b = a ∨ b ∈ l.eraseIdx i := by
  obtain ⟨j, hj⟩ := List.mem_iff_getElem?.mp h
  by_cases hij : i = j
  · subst hij
    rw [List.getElem?_set_self'] at hj
    obtain ⟨c, -, rfl⟩ := Option.map_eq_some_iff.mp hj
    exact Or.inl rfl
  · rw [List.getElem?_set_ne hij] at hj
    exact Or.inr (List.mem_eraseIdx_iff_getElem?.mpr ⟨j, fun heq => hij heq.symm, hj⟩)

/-- What an element of a list adds to its `flatMap` stands in front. -/
theorem flatMap_perm_eraseIdx (h : l[i]? = some a) (f : α → List β) :
    (l.flatMap f).Perm (f a ++ (l.eraseIdx i).flatMap f) := by
  have hperm : l.Perm (a :: l.eraseIdx i) := by
    obtain ⟨hlt, rfl⟩ := List.getElem?_eq_some_iff.mp h
    exact (List.getElem_cons_eraseIdx_perm hlt).symm
  rw [← List.flatMap_cons]
  exact hperm.flatMap_right f

theorem flatMap_set {f : α → List β} (h : l[i]? = some a) (hsame : f b = f a) :
    (l.set i b).flatMap f = l.flatMap f := by
  obtain ⟨hlt, rfl⟩ := List.getElem?_eq_some_iff.mp h
  have hmap : (l.set i b).map f = l.map f := by
    rw [List.map_set, hsame, ← List.getElem_map f (h := by rwa [List.length_map]),
      List.set_getElem_self]
  rw [List.flatMap_def, hmap, List.flatMap_def]

end Lists

/-- A call of `read` writes to the buffer and to the position of its file. -/
theorem initramfsRead_frame {fuel archive fileBuf file buf count n x : Nat} {m m' : ByteMemory}
    (h : initramfsRead fuel archive fileBuf m file buf count = some (m', n))
    (hbuf : x < buf ∨ buf + n ≤ x) (hfile : x < file + 8 ∨ file + 16 ≤ x) : m' x = m x := by
  obtain ⟨⟨size, data⟩, -, hres⟩ := Option.map_eq_some_iff.mp h
  by_cases hover : offset m file ≥ sizeT size
  · simp only [if_pos hover] at hres
    cases hres
    rfl
  · simp only [if_neg hover] at hres
    cases hres
    rw [setOffset, ByteMemory.store_outside _ (by omega),
      ByteMemory.memcpy_outside _ (by omega)]

namespace FileInv

variable {fuel archive d : Nat} {datas : List (List UInt8)} {m₀ m m' : ByteMemory}
  {f : OpenedFile} {data : List UInt8}

theorem congr (h : FileInv fuel archive datas m₀ m f data d)
    (harchive : ∀ x, archive ≤ x → x < archive + ustarExtent datas + 512 → m' x = m x)
    (hblocks : ∀ g ∈ f.blocks, ∀ x, g.1 ≤ x → x < g.1 + g.2 → m' x = m x) :
    FileInv fuel archive datas m₀ m' f data d := by
  have hfile : ∀ x, f.addr ≤ x → x < f.addr + 24 → m' x = m x :=
    hblocks (f.addr, sizeofFile) (by simp [OpenedFile.blocks])
  have hchars := hblocks (f.chars, f.name.length + 1) (by simp [OpenedFile.blocks])
  refine ⟨h.first, h.reader.congr harchive hchars (fun x hle hlt _ => hfile x hle hlt)
    (Eq.trans ?_ h.reader.position) h.reader.bytes, h.short⟩
  exact ByteMemory.load_congr fun x hle hlt => hfile x (by omega) (by omega)

end FileInv

namespace FilesInv

variable {fuel archive i : Nat} {datas : List (List UInt8)} {heap₀ : HeapState}
  {s s' : FilesState} {f : OpenedFile}

theorem writable (h : FilesInv fuel archive datas heap₀ s)
    (hbeside : ArchiveBeside fuel archive datas heap₀) {x : Nat}
    (hx : s.Guards archive datas x) : s.heap.Writable x := by
  rcases hx with ⟨hle, hlt⟩ | ⟨g, hg, hle, hlt⟩
  · have hout := hbeside.outside x hle hlt
    rw [← h.al] at hout
    exact Or.inl hout
  · exact Or.inr ⟨g, h.live.mem_iff.mpr (List.mem_append_left _ hg), hle, hlt⟩

theorem guards {g : Nat × Nat} {x : Nat} (hf : f ∈ s.files) (hg : g ∈ f.blocks) (hle : g.1 ≤ x)
    (hlt : x < g.1 + g.2) : s.Guards archive datas x :=
  Or.inr ⟨g, List.mem_flatMap.mpr ⟨f, hf, hg⟩, hle, hlt⟩

/-- The live blocks, those of one file in front. -/
theorem live_split (h : FilesInv fuel archive datas heap₀ s) (hi : s.files[i]? = some f) :
    s.heap.live.Perm
      (f.blocks ++ ((s.files.eraseIdx i).flatMap OpenedFile.blocks ++ s.others)) := by
  rw [← List.append_assoc]
  exact h.live.trans ((flatMap_perm_eraseIdx hi _).append_right _)

theorem apart_split (h : FilesInv fuel archive datas heap₀ s) (hi : s.files[i]? = some f) :
    (f.blocks ++ ((s.files.eraseIdx i).flatMap OpenedFile.blocks ++ s.others)).Pairwise
      BlocksApart := by
  obtain ⟨bs, hinv⟩ := h.heap
  exact ((h.live_split hi).pairwise_iff BlocksApart.symm).mp hinv.liveBlocks.apart

/-- The two blocks of a file. -/
theorem own_apart (h : FilesInv fuel archive datas heap₀ s) (hi : s.files[i]? = some f) :
    BlocksApart (f.chars, f.name.length + 1) (f.addr, sizeofFile) :=
  (List.pairwise_cons.mp (h.apart_split hi)).1 _ List.mem_cons_self

/-- The blocks of one file and those of the others. -/
theorem others_apart (h : FilesInv fuel archive datas heap₀ s) (hi : s.files[i]? = some f)
    {f' : OpenedFile} (hf' : f' ∈ s.files.eraseIdx i) {g g' : Nat × Nat} (hg : g ∈ f.blocks)
    (hg' : g' ∈ f'.blocks) : BlocksApart g g' :=
  (List.pairwise_append.mp (h.apart_split hi)).2.2 g hg g'
    (List.mem_append_left _ (List.mem_flatMap.mpr ⟨f', hf', hg'⟩))

theorem fileApart (h : FilesInv fuel archive datas heap₀ s)
    (hbeside : ArchiveBeside fuel archive datas heap₀) (hi : s.files[i]? = some f) :
    FileApart archive datas f.addr f.chars f.name.length := by
  intro x hle hlt
  refine ⟨fun hin => ?_, fun hin => ?_⟩
  · obtain ⟨bs, hinv⟩ := h.heap
    have hmem : (f.addr, sizeofFile) ∈ s.heap.live :=
      (h.live_split hi).mem_iff.mpr (by simp [OpenedFile.blocks])
    have hinside := hinv.liveBlocks.inside _ hmem
    have hout := hbeside.outside x hin.1 hin.2
    rw [h.al] at hinside
    simp only [granted, sizeofFile] at hinside
    omega
  · have := (h.own_apart hi).bytes hin.1 hin.2
    simp only [sizeofFile] at this
    omega

theorem chars_ne_null (h : FilesInv fuel archive datas heap₀ s) (hi : s.files[i]? = some f) :
    f.chars ≠ NULL := by
  obtain ⟨bs, hinv⟩ := h.heap
  exact hinv.live_ne_null (g := (f.chars, f.name.length + 1))
    ((h.live_split hi).mem_iff.mpr (by simp [OpenedFile.blocks]))

theorem start {bs : List Block} (hinv : HeapInv heap₀ bs) :
    FilesInv fuel archive datas heap₀ ⟨heap₀, [], heap₀.live⟩ := by
  refine ⟨⟨bs, hinv⟩, rfl, fun _ _ _ => rfl, List.Perm.refl _, fun f hf => ?_⟩
  exact absurd hf List.not_mem_nil

theorem guarded_own (hi : s.files[i]? = some f) {x : Nat}
    (hx : Guarded archive datas f.addr f.chars f.name.length x) : s.Guards archive datas x := by
  have hf : f ∈ s.files := List.mem_of_getElem? hi
  rcases hx with hin | ⟨hle, hlt⟩ | ⟨hle, hlt⟩
  · exact Or.inl hin
  · exact guards (g := (f.addr, sizeofFile)) hf (by simp [OpenedFile.blocks]) hle hlt
  · exact guards (g := (f.chars, f.name.length + 1)) hf (by simp [OpenedFile.blocks]) hle hlt

/-- A buffer apart from what all files rest on is apart from what one does. -/
theorem clear (hi : s.files[i]? = some f) {fileBuf buf count : Nat}
    (hbuffer : ∀ x, buf ≤ x →
      x < buf + min count (filesz s.heap.mem f.addr - offset s.heap.mem f.addr) →
        x < 0x10000000000000000 ∧ s.heap.Writable x ∧ ¬s.Guards archive datas x) :
    ReaderAction.Clear archive datas f.addr f.chars f.name.length ⟨s.heap.mem, f.calls⟩
      (.read fileBuf buf count) := fun x hle hlt =>
  ⟨(hbuffer x hle hlt).1, fun hx => (hbuffer x hle hlt).2.2 (guarded_own hi hx)⟩

/-- What else runs, when it leaves the files alone. -/
theorem changed (h : FilesInv fuel archive datas heap₀ s) {heap : HeapState}
    (hsame : ∀ x, s.Guards archive datas x → heap.mem x = s.heap.mem x) :
    (∀ x, archive ≤ x → x < archive + ustarExtent datas + 512 → heap.mem x = heap₀.mem x) ∧
      ∀ f ∈ s.files, ∃ data d, FileInv fuel archive datas heap₀.mem heap.mem f data d := by
  refine ⟨fun x hle hlt => (hsame x (Or.inl ⟨hle, hlt⟩)).trans (h.same x hle hlt), fun f hf => ?_⟩
  obtain ⟨data, d, hfile⟩ := h.files f hf
  exact ⟨data, d, hfile.congr (fun x hle hlt => hsame x (Or.inl ⟨hle, hlt⟩))
    fun g hg x hle hlt => hsame x (guards hf hg hle hlt)⟩

theorem openFile_step (h : FilesInv fuel archive datas heap₀ s)
    (hbeside : ArchiveBeside fuel archive datas heap₀) {out filename : Nat} {name : List UInt8}
    (hallows : s.Allows fuel archive datas (.openFile out filename name))
    (hstep : s.step fuel archive (.openFile out filename name) = some s') :
    FilesInv fuel archive datas heap₀ s' := by
  obtain ⟨hnull, hpath, hclient, hshort, hlength⟩ := hallows
  obtain ⟨bs, hinv⟩ := h.heap
  obtain ⟨⟨heap, file⟩, hopen, hres⟩ := Option.map_eq_some_iff.mp hstep
  have hfuel : s.heap.al.size ≤ fuel := by
    rw [h.al]
    exact hbeside.fuel.1
  have harchive : Ustar s.heap.mem archive datas := hbeside.entries.congr h.same
  have hwritable : ∀ x, archive ≤ x → x < archive + ustarExtent datas + 512 →
      s.heap.Writable x := fun x hle hlt => h.writable hbeside (Or.inl ⟨hle, hlt⟩)
  have hlookup : initramfsLookup fuel s.heap.mem archive filename out =
      some ((firstMatch s.heap.mem name archive datas).elim (0, out) fun found =>
        ((found.1.length : Int), found.2)) := by
    rw [initramfsLookup, if_neg hnull, strlen_eq hpath hlength]
    exact lookupFrom_ustar hpath harchive hbeside.stop hbeside.fuel.2
  obtain ⟨heap', file', hopen', hcases⟩ :=
    initramfsOpenAt_cases hinv hfuel hpath hclient hlength hshort hlookup
  rw [hopen] at hopen'
  cases hopen'
  rcases hcases with ⟨rfl, huntouched, -⟩ | ⟨hfile, -, hopened⟩
  · -- nothing is opened, and nothing else is touched
    simp only [if_true] at hres
    cases hres
    obtain ⟨hsame, hfiles⟩ := h.changed fun x hx =>
      (huntouched.keeps x (h.writable hbeside hx)).1
    refine ⟨⟨bs, huntouched.inv⟩, huntouched.al.trans h.al, hsame, ?_, hfiles⟩
    rw [huntouched.live]
    exact h.live
  · simp only [if_neg hfile] at hres
    cases hres
    obtain ⟨hsame, hfiles⟩ := h.changed fun x hx => (hopened.keeps x (h.writable hbeside hx)).1
    refine ⟨hopened.valid, hopened.al.trans h.al, hsame, ?_, fun f hf => ?_⟩
    · have hblocks : ∀ f : OpenedFile,
          (s.files ++ [f]).flatMap OpenedFile.blocks = s.blocks ++ f.blocks := fun f => by
        rw [List.flatMap_append, List.flatMap_singleton, FilesState.blocks]
      rw [FilesState.blocks, hblocks, hopened.live, List.append_assoc]
      exact (h.live.append_left (OpenedFile.blocks ⟨file, path heap.mem file, name, []⟩)).trans
        (List.perm_append_comm_assoc _ _ _)
    · rcases List.mem_append.mp hf with hf | hf
      · exact hfiles f hf
      · obtain rfl := List.mem_singleton.mp hf
        obtain ⟨pre, data, post, -, -, -, -, -, hreader⟩ := initramfsOpenAt_readerInv hinv hnull
          hpath hclient hshort harchive hbeside.stop hwritable ⟨hfuel, hlength, hbeside.fuel.2⟩
          hopen hfile
        exact ⟨data, _, (firstMatch_congr hbeside.entries hpath.chars hsame).symm.trans
          hreader.found, hreader, hlength⟩

/-- A call of `read` on one file leaves the others where they are. -/
theorem read_step (h : FilesInv fuel archive datas heap₀ s)
    (hbeside : ArchiveBeside fuel archive datas heap₀) {fileBuf buf count : Nat}
    (hallows : s.Allows fuel archive datas (.read i fileBuf buf count))
    (hstep : s.step fuel archive (.read i fileBuf buf count) = some s') :
    FilesInv fuel archive datas heap₀ s' := by
  obtain ⟨f, hi, hcall⟩ := Option.bind_eq_some_iff.mp hstep
  obtain ⟨⟨m, n⟩, hread, hres⟩ := Option.map_eq_some_iff.mp hcall
  cases hres
  have hf : f ∈ s.files := List.mem_of_getElem? hi
  obtain ⟨data, d, hfile⟩ := h.files f hf
  have hbuffer := hallows f hi
  have hclear : ReaderAction.Clear archive datas f.addr f.chars f.name.length
      ⟨s.heap.mem, f.calls⟩ (.read fileBuf buf count) := clear hi hbuffer
  have hfuel : f.name.length < fuel ∧ datas.length < fuel := ⟨hfile.short, hbeside.fuel.2⟩
  obtain ⟨m', hread', -⟩ :=
    hfile.reader.read (h.chars_ne_null hi) hbeside.stop hfuel hclear
  have hn : n = min count (filesz s.heap.mem f.addr - offset s.heap.mem f.addr) := by
    rw [hread, ← hfile.reader.size] at hread'
    exact (Prod.mk.inj (Option.some.inj hread')).2
  -- what the call writes to
  have hout : ∀ x, ¬(buf ≤ x ∧ x < buf + n) → ¬(f.addr + 8 ≤ x ∧ x < f.addr + 16) →
      m x = s.heap.mem x := fun x hbuf hposition =>
    initramfsRead_frame hread (by omega) (by omega)
  have hguarded : ∀ x, s.Guards archive datas x → ¬(f.addr + 8 ≤ x ∧ x < f.addr + 16) →
      m x = s.heap.mem x := fun x hx =>
    hout x fun hin => (hbuffer x hin.1 (hn ▸ hin.2)).2.2 hx
  have hposition : ∀ x, f.addr + 8 ≤ x ∧ x < f.addr + 16 → s.heap.Writable x := fun x hx =>
    h.writable hbeside (guarded_own hi (Or.inr (Or.inl ⟨by omega, by omega⟩)))
  have hapart := h.fileApart hbeside hi
  have harchive : ∀ x, archive ≤ x → x < archive + ustarExtent datas + 512 →
      m x = s.heap.mem x := fun x hle hlt =>
    hguarded x (Or.inl ⟨hle, hlt⟩) fun hin => (hapart x (by omega) (by omega)).1 ⟨hle, hlt⟩
  have hblocks : FilesState.blocks { s with
      heap := { s.heap with mem := m }
      files := s.files.set i { f with calls := f.calls ++
        [⟨count, (List.range n).map fun k => m (buf + k)⟩] } } = s.blocks := flatMap_set hi rfl
  refine ⟨?_, h.al, fun x hle hlt => (harchive x hle hlt).trans (h.same x hle hlt), ?_,
    fun f' hf' => ?_⟩
  · obtain ⟨bs, hinv⟩ := h.heap
    refine ⟨bs, hinv.of_clients fun x hx => hout x (fun hin => ?_) fun hin => ?_⟩
    · exact hx (hbuffer x hin.1 (hn ▸ hin.2)).2.1
    · exact hx (hposition x hin)
  · rw [hblocks]
    exact h.live
  · rcases mem_set_cases hf' with rfl | hf'
    · have hcalls : ReaderState.step fuel archive f.addr ⟨s.heap.mem, f.calls⟩
          (.read fileBuf buf count) =
            some ⟨m, f.calls ++ [⟨count, (List.range n).map fun k => m (buf + k)⟩]⟩ := by
        rw [ReaderState.step, hread, Option.map_some]
      exact ⟨data, d, hfile.first, hfile.reader.step (h.chars_ne_null hi) hapart hbeside.stop
        hfuel hclear hcalls, hfile.short⟩
    · obtain ⟨data', d', hfile'⟩ := h.files f' (List.mem_of_mem_eraseIdx hf')
      refine ⟨data', d', hfile'.congr harchive fun g hg x hle hlt => ?_⟩
      refine hguarded x (guards (List.mem_of_mem_eraseIdx hf') hg hle hlt) fun hin => ?_
      have hother := (h.others_apart hi hf' (g := (f.addr, sizeofFile))
        (by simp [OpenedFile.blocks]) hg).symm.bytes hle hlt
      simp only [sizeofFile] at hother
      omega

/-- `close` gives back the two blocks of its file, and the others keep what they hold. -/
theorem close_step (h : FilesInv fuel archive datas heap₀ s)
    (hbeside : ArchiveBeside fuel archive datas heap₀)
    (hstep : s.step fuel archive (.close i) = some s') :
    FilesInv fuel archive datas heap₀ s' := by
  obtain ⟨f, hi, hres⟩ := Option.map_eq_some_iff.mp hstep
  cases hres
  obtain ⟨bs, hinv⟩ := h.heap
  obtain ⟨data, d, hfile⟩ := h.files f (List.mem_of_getElem? hi)
  have hlive := h.live_split hi
  have hchars : (f.chars, f.name.length + 1) ∈ s.heap.live :=
    hlive.mem_iff.mpr (by simp [OpenedFile.blocks])
  obtain ⟨⟨bs₁, hinv₁⟩, -⟩ := hinv.give_block hchars
  have hlive₁ := List.Perm.cons_inv ((hinv.give_live hchars).symm.trans hlive)
  have haddr : (f.addr, sizeofFile) ∈ (s.heap.give f.chars).live :=
    hlive₁.mem_iff.mpr (by simp)
  obtain ⟨hinv₂, -⟩ := hinv₁.give_block haddr
  have hlive₂ := List.Perm.cons_inv ((hinv₁.give_live haddr).symm.trans hlive₁)
  have hclose : initramfsClose s.heap f.addr = (s.heap.give f.chars).give f.addr := by
    rw [initramfsClose, hfile.reader.pointer]
  have hframe : ∀ x, s.heap.Writable x → (x < f.chars ∨ f.chars + (f.name.length + 1) ≤ x) →
      (initramfsClose s.heap f.addr).mem x = s.heap.mem x := by
    intro x hx hout
    rw [hclose, hinv₁.give_frame haddr (hinv.give_writable hchars hx hout),
      hinv.give_frame hchars hx]
  have harchive : ∀ x, archive ≤ x → x < archive + ustarExtent datas + 512 →
      (initramfsClose s.heap f.addr).mem x = s.heap.mem x := by
    intro x hle hlt
    refine hframe x (h.writable hbeside (Or.inl ⟨hle, hlt⟩)) ?_
    have hinside := hinv.liveBlocks.inside _ hchars
    have hout := hbeside.outside x hle hlt
    rw [h.al] at hinside
    simp only [granted] at hinside
    omega
  refine ⟨?_, ?_, fun x hle hlt => (harchive x hle hlt).trans (h.same x hle hlt), ?_,
    fun f' hf' => ?_⟩
  · rw [hclose]
    exact hinv₂
  · rw [hclose]
    exact h.al
  · rw [hclose]
    exact hlive₂
  · obtain ⟨data', d', hfile'⟩ := h.files f' (List.mem_of_mem_eraseIdx hf')
    refine ⟨data', d', hfile'.congr harchive fun g hg x hle hlt => hframe x ?_ ?_⟩
    · exact h.writable hbeside (guards (List.mem_of_mem_eraseIdx hf') hg hle hlt)
    · exact (h.others_apart hi hf' (g := (f.chars, f.name.length + 1))
        (by simp [OpenedFile.blocks]) hg).symm.bytes hle hlt

theorem step (h : FilesInv fuel archive datas heap₀ s)
    (hbeside : ArchiveBeside fuel archive datas heap₀) {a : FileAction}
    (hallows : s.Allows fuel archive datas a)
    (hstep : (filesMachine fuel archive).step s a = some s') :
    FilesInv fuel archive datas heap₀ s' := by
  cases a with
  | openFile out filename name => exact h.openFile_step hbeside hallows hstep
  | read i fileBuf buf count => exact h.read_step hbeside hallows hstep
  | close i => exact h.close_step hbeside hstep
  | other heap others =>
      cases hstep
      obtain ⟨hinv, hal, hlive, hsame⟩ := hallows
      obtain ⟨harchive, hfiles⟩ := h.changed hsame
      exact ⟨hinv, hal.trans h.al, harchive, hlive, hfiles⟩

/-- Actions that the invariant allows are allowed in every order. -/
theorem meets (h : FilesInv fuel archive datas heap₀ s)
    (hbeside : ArchiveBeside fuel archive datas heap₀) {run : List FileAction}
    (hallows : ∀ a ∈ run, ∀ s, FilesInv fuel archive datas heap₀ s →
      s.Allows fuel archive datas a) :
    (filesMachine fuel archive).Meets (FilesState.Allows fuel archive datas) s run :=
  (filesMachine fuel archive).meets_of_invariant
    (fun s a _ hs ha hstep => hs.step hbeside (hallows a ha s hs) hstep)
    (fun s a hs ha => hallows a ha s hs) h
    ((filesMachine fuel archive).meets_of_mem s run fun _ ha _ => ha)

end FilesInv

/-- However files are opened, read and closed: what each has delivered is the beginning of the
file, whatever happens to the others, and the live blocks are those of the open files. -/
theorem filesMachine_reads {fuel archive : Nat} {datas : List (List UInt8)} {heap : HeapState}
    {bs : List Block} {run : List FileAction} {s : FilesState} (hinv : HeapInv heap bs)
    (hbeside : ArchiveBeside fuel archive datas heap)
    (hmeets : (filesMachine fuel archive).Meets (FilesState.Allows fuel archive datas)
      ⟨heap, [], heap.live⟩ run)
    (hexec : (filesMachine fuel archive).exec ⟨heap, [], heap.live⟩ run = some s) :
    (∃ bs', HeapInv s.heap bs') ∧ s.heap.live.Perm (s.blocks ++ s.others) ∧
      ∀ i f, s.files[i]? = some f → ∃ data d,
        firstMatch heap.mem f.name archive datas = some (data, d) ∧
          f.delivered = data.take f.asked ∧ offset s.heap.mem f.addr = f.delivered.length ∧
          filesz s.heap.mem f.addr = data.length ∧
          ∀ fileBuf buf count, s.Allows fuel archive datas (.read i fileBuf buf count) →
            ∃ m s', initramfsRead fuel archive fileBuf s.heap.mem f.addr buf count =
                some (m, min count (data.length - f.delivered.length)) ∧
              s.step fuel archive (.read i fileBuf buf count) = some s' ∧ s'.heap.mem = m := by
  have h := (filesMachine fuel archive).exec_invariant
    (fun _ _ _ hs hallows hstep => hs.step hbeside hallows hstep)
    (FilesInv.start hinv) hmeets hexec
  refine ⟨h.heap, h.live, fun i f hi => ?_⟩
  obtain ⟨data, d, hfile⟩ := h.files f (List.mem_of_getElem? hi)
  have hreader := hfile.reader
  have hposition : offset s.heap.mem f.addr = f.delivered.length := hreader.position
  refine ⟨data, d, hfile.first, hreader.bytes, hposition, hreader.size,
    fun fileBuf buf count hallows => ?_⟩
  obtain ⟨m, hread, -⟩ := hreader.read (h.chars_ne_null hi) hbeside.stop
    ⟨hfile.short, hbeside.fuel.2⟩ (FilesInv.clear hi (hallows f hi))
  rw [hposition] at hread
  exact ⟨m, _, hread, by rw [FilesState.step, hi, Option.bind_some, hread, Option.map_some], rfl⟩

/-- `/a` twice, and the second file is read on after the first is closed. -/
def openTwice : List FileAction :=
  [.openFile 0 0x100 [0x2f, 0x61], .openFile 0 0x100 [0x2f, 0x61], .read 1 0 0x300 2,
    .read 0 0 0x310 5, .close 0, .read 0 0 0x300 5]

theorem twoFilesHeap_beside :
    ArchiveBeside 0x1000 0x4000 (twoFiles.map ArchiveEntry.data) twoFilesHeap :=
  ⟨twoFilesHeap_archive.ustar, by decide, fun x hle _ => Or.inr (by
    rw [show twoFilesHeap.al.addr + twoFilesHeap.al.size = 0x3000 from rfl]
    omega), by decide, by decide⟩

theorem FilesInv.twoFilesHeap_buffer {s : FilesState}
    (h : FilesInv 0x1000 0x4000 (twoFiles.map ArchiveEntry.data) twoFilesHeap s) {x : Nat}
    (hx : x < 0x2000) :
    s.heap.Writable x ∧ ¬s.Guards 0x4000 (twoFiles.map ArchiveEntry.data) x := by
  have haddr : s.heap.al.addr = 0x2000 := by
    rw [h.al]
    rfl
  refine ⟨Or.inl (Or.inl (by omega)), ?_⟩
  rintro (⟨hle, -⟩ | ⟨g, hg, hle, -⟩)
  · omega
  · obtain ⟨bs, hinv⟩ := h.heap
    have hinside := hinv.liveBlocks.inside g (h.live.mem_iff.mpr (List.mem_append_left _ hg))
    omega

theorem filesMachine_reads_openTwice : ∃ s,
    (filesMachine 0x1000 0x4000).exec ⟨twoFilesHeap, [], twoFilesHeap.live⟩ openTwice = some s ∧
      s.files.map OpenedFile.delivered = [[7, 8, 9]] ∧ s.heap.live.Perm (s.blocks ++ s.others) := by
  have hrun : (((filesMachine 0x1000 0x4000).exec ⟨twoFilesHeap, [], twoFilesHeap.live⟩
      openTwice).map fun s => s.files.map OpenedFile.delivered) = some [[7, 8, 9]] := by
    decide +kernel
  have hfirst : (((filesMachine 0x1000 0x4000).step ⟨twoFilesHeap, [], twoFilesHeap.live⟩
      (.openFile 0 0x100 [0x2f, 0x61])).map fun s =>
        (List.range 3).map fun i => s.heap.mem (0x100 + i)) = some [0x2f, 0x61, 0] := by
    decide +kernel
  obtain ⟨s, hexec, hdelivered⟩ := Option.map_eq_some_iff.mp hrun
  obtain ⟨s₁, hs₁, hchars⟩ := Option.map_eq_some_iff.mp hfirst
  have hallows : FilesState.Allows 0x1000 0x4000 (twoFiles.map ArchiveEntry.data)
      ⟨twoFilesHeap, [], twoFilesHeap.live⟩ (.openFile 0 0x100 [0x2f, 0x61]) :=
    ⟨by decide, ⟨by decide, by decide +kernel⟩, by decide, by decide, by decide⟩
  have h₁ := (FilesInv.start twoFilesHeap_inv).step twoFilesHeap_beside hallows hs₁
  have haddr : s₁.heap.al.addr = 0x2000 := by
    rw [h₁.al]
    rfl
  have hallows₁ : s₁.Allows 0x1000 0x4000 (twoFiles.map ArchiveEntry.data)
      (.openFile 0 0x100 [0x2f, 0x61]) := by
    refine ⟨by decide, ⟨by decide, fun i hi => ?_⟩, fun i hi => Or.inl (Or.inl ?_), by decide,
      by decide⟩
    · have hterminated : ∀ i ≤ 2, [0x2f, 0x61, 0].getD i 0 = [0x2f, 0x61].getD i (0 : UInt8) := by
        decide
      simp only [List.length_cons, List.length_nil] at hi
      rw [bytesFrom, ← hterminated i hi, ← hchars, List.getD_eq_getElem _ _ (by simp; omega),
        List.getElem_map, List.getElem_range]
    · simp only [List.length_cons, List.length_nil] at hi
      omega
  have hrest : ∀ a ∈ openTwice.drop 2, ∀ s : FilesState,
      FilesInv 0x1000 0x4000 (twoFiles.map ArchiveEntry.data) twoFilesHeap s →
        s.Allows 0x1000 0x4000 (twoFiles.map ArchiveEntry.data) a := by
    intro a ha s hs
    have hread : ∀ i buf count, buf + count ≤ 0x2000 →
        s.Allows 0x1000 0x4000 (twoFiles.map ArchiveEntry.data) (.read i 0 buf count) :=
      fun i buf count hle f _ x _ hlt => ⟨by omega, hs.twoFilesHeap_buffer (by omega)⟩
    simp only [openTwice, List.drop_succ_cons, List.drop_zero, List.mem_cons, List.not_mem_nil,
      or_false] at ha
    rcases ha with rfl | rfl | rfl | rfl
    · exact hread _ _ _ (by decide)
    · exact hread _ _ _ (by decide)
    · trivial
    · exact hread _ _ _ (by decide)
  have hmeets : (filesMachine 0x1000 0x4000).Meets
      (FilesState.Allows 0x1000 0x4000 (twoFiles.map ArchiveEntry.data))
      ⟨twoFilesHeap, [], twoFilesHeap.live⟩ openTwice := by
    refine ((filesMachine 0x1000 0x4000).meets_cons_iff hs₁).mpr
      ⟨hallows, hallows₁, fun s₂ hs₂ => ?_⟩
    exact (h₁.step twoFilesHeap_beside hallows₁ hs₂).meets twoFilesHeap_beside hrest
  obtain ⟨-, hlive, -⟩ := filesMachine_reads twoFilesHeap_inv twoFilesHeap_beside hmeets hexec
  exact ⟨s, hexec, hdelivered, hlive⟩

end BayosKernel
