import BayosKernel.VfsMemory

/-!
The `open` of the initramfs over memory. It takes a file of no bytes for one that the
archive does not have.
-/

namespace BayosKernel

open Foundation BlockList FileStruct

/-- What `open` leaves with a file: two blocks, the `file_t` and its copy of the path. -/
structure FileOpened (heap heap' : HeapState) (file : Nat) (cs : List UInt8) (size : Nat) :
    Prop where
  valid : ∃ bs, HeapInv heap' bs
  al : heap'.al = heap.al
  live : heap'.live = (path heap'.mem file, cs.length + 1) :: (file, sizeofFile) :: heap.live
  string : CString (bytesFrom heap'.mem (path heap'.mem file)) cs
  start : offset heap'.mem file = 0
  size : filesz heap'.mem file = size
  keeps : heap.Keeps heap'

/-- The two blocks lie apart from each other and from what clients could write before. -/
theorem FileOpened.apart {heap heap' : HeapState} {file size : Nat} {cs : List UInt8}
    (h : FileOpened heap heap' file cs size) :
    (file + 24 ≤ path heap'.mem file ∨ path heap'.mem file + (cs.length + 1) ≤ file) ∧
      ∀ x, heap.Writable x → (x < file ∨ file + 24 ≤ x) ∧
        (x < path heap'.mem file ∨ path heap'.mem file + (cs.length + 1) ≤ x) := by
  obtain ⟨bs, hinv⟩ := h.valid
  obtain ⟨-, hinside, hpairs, -⟩ := hinv.liveBlocks
  rw [h.live] at hinside hpairs
  obtain ⟨hchars, hrest⟩ := List.pairwise_cons.mp hpairs
  have hfile := (List.pairwise_cons.mp hrest).1
  have hboth := hchars _ List.mem_cons_self
  simp only [granted, sizeofFile] at hboth
  refine ⟨by omega, fun x hx => ?_⟩
  rcases hx with hx | ⟨g, hg, hle, hlt⟩
  · have h₁ := hinside _ List.mem_cons_self
    have h₂ := hinside _ (List.mem_cons_of_mem _ List.mem_cons_self)
    rw [h.al] at h₁ h₂
    simp only [granted, sizeofFile] at h₁ h₂
    omega
  · have h₁ := hchars g (List.mem_cons_of_mem _ hg)
    have h₂ := hfile g hg
    simp only [granted, sizeofFile] at h₁ h₂
    omega

section Open

variable {fuel : Nat} {heap heap' : HeapState} {bs : List Block}
  {filename archive out data : Nat} {cs : List UInt8} {size : Int}

/-- The last writes of `open`. -/
theorem fileFields {m : ByteMemory} {file : Nat} {v : Nat} (hv : v < 0x10000000000000000) :
    path (setFilesz (setOffset m file 0) file v) file = path m file ∧
      offset (setFilesz (setOffset m file 0) file v) file = 0 ∧
      filesz (setFilesz (setOffset m file 0) file v) file = v ∧
      ∀ x, (x < file + 8 ∨ file + 24 ≤ x) → setFilesz (setOffset m file 0) file v x = m x := by
  refine ⟨?_, ?_, ByteMemory.load_store_word _ hv, fun x hx => ?_⟩
  · rw [path, path, setFilesz, setOffset, ByteMemory.load_store_apart _ (by omega),
      ByteMemory.load_store_apart _ (by omega)]
  · rw [offset, setFilesz, setOffset, ByteMemory.load_store_apart _ (by omega),
      ByteMemory.load_store_word _ (by decide)]
  · rw [setFilesz, setOffset, ByteMemory.store_outside _ (by omega),
      ByteMemory.store_outside _ (by omega)]

/-- `open` fails without a trace, or leaves the file. -/
theorem initramfsOpenAt_cases (hinv : HeapInv heap bs) (hfuel : heap.al.size ≤ fuel)
    (hpath : CString (bytesFrom heap.mem filename) cs)
    (hclient : ∀ i ≤ cs.length, heap.Writable (filename + i)) (hlength : cs.length < fuel)
    (hshort : cs.length < 0x800000000000)
    (hlookup : initramfsLookup fuel heap.mem archive filename out = some (size, data)) :
    ∃ heap' file, initramfsOpenAt fuel archive out heap filename = some (heap', file) ∧
      ((file = NULL ∧ Untouched heap heap' bs ∧
          ((size = 0 ∨ data = NULL) ∨ ¬(0 < heap.al.addr ∧ heap.HoldsFile cs.length))) ∨
        (file ≠ NULL ∧ ¬(size = 0 ∨ data = NULL) ∧
          FileOpened heap heap' file cs (sizeT size))) := by
  rw [initramfsOpenAt, hlookup, Option.bind_some]
  by_cases hmiss : size = 0 ∨ data = NULL
  · simp only [if_pos hmiss]
    exact ⟨heap, NULL, rfl, Or.inl ⟨rfl, Untouched.refl hinv, Or.inl hmiss⟩⟩
  simp only [if_neg hmiss]
  obtain ⟨heap₁, file, htake⟩ := hinv.take_some (n := sizeofFile) hfuel (by decide)
  rw [htake, Option.bind_some]
  rcases hinv.take_taken hfuel (by decide) htake with ⟨rfl, rfl⟩ | ⟨bs₁, ht⟩
  · refine ⟨heap₁, NULL, rfl, Or.inl ⟨rfl, Untouched.refl hinv, Or.inr ?_⟩⟩
    rintro ⟨hpos, hholds⟩
    obtain ⟨o, bs', hfit, -⟩ := hinv.holdsFile_iff.mp hholds
    rcases hinv.take_firstFit hpos hfuel (by decide) htake with ⟨hnone, -⟩ | ⟨bs₁, ht⟩
    · rw [show max sizeofFile 0x20 = 0x20 from rfl, hfit] at hnone
      cases hnone
    · exact ht.ne_null rfl
  simp only [if_neg ht.ne_null]
  have hfile : ∀ x, heap.Writable x → x < file ∨ file + 24 ≤ x := fun x hx => ht.apart hx
  have hkeeps₁ : heap.Keeps heap₁ := (HeapState.Keeps.refl heap).take hinv ht
  have hfuel₁ : heap₁.al.size ≤ fuel := by
    rw [ht.al]
    exact hfuel
  have hfield : file ≤ file ∧ file + 8 ≤ file + sizeofFile := by
    simp only [sizeofFile]
    omega
  obtain ⟨heap₂, chars, hcopy, hcases⟩ := allocPath_cases ht.inv hfuel₁ ht.mem hfield
    (hkeeps₁.cstring hpath hclient)
    (fun i hi => ⟨(hkeeps₁ _ (hclient i hi)).2, by have := hfile _ (hclient i hi); omega⟩) hlength
    hshort
  rw [hcopy, Option.map_some]
  rcases hcases with ⟨rfl, rfl, hnone⟩ | ⟨bs₂, hcopied⟩
  · have hout : ∀ x, x < file ∨ file + 24 ≤ x → heap₁.mem.store 8 file NULL x = heap₁.mem x :=
      fun x hx => ByteMemory.store_outside heap₁.mem (by omega)
    refine ⟨_, NULL, rfl, Or.inl ⟨rfl, ht.untouched hinv (ht.inv.of_block ht.mem hout) ht.al ht.live
      (hkeeps₁.write hfile hout), Or.inr ?_⟩⟩
    rintro ⟨-, hholds⟩
    obtain ⟨o, bs', hfit, hroom⟩ := hinv.holdsFile_iff.mp hholds
    obtain ⟨o₁, hfit₁, -⟩ := ht.fit
    rw [show max sizeofFile 0x20 = 0x20 from rfl, hfit] at hfit₁
    cases hfit₁
    exact hroom hnone
  · obtain ⟨heap₁', ht₂⟩ := hcopied.taken
    simp only [if_neg ht₂.ne_null]
    have hv : sizeT size < 0x10000000000000000 := by
      rw [sizeT]
      omega
    obtain ⟨hchars, hstart, hsize, hframe⟩ := @fileFields heap₂.mem file (sizeT size) hv
    have hlive : heap₂.live = (chars, cs.length + 1) :: (file, sizeofFile) :: heap.live := by
      rw [hcopied.live, ht.live]
    have hmem : (file, 24) ∈ heap₂.live := by
      rw [hlive]
      simp
    have hptr : path heap₂.mem file = chars := hcopied.pointer
    have hapart : file + 24 ≤ chars ∨ chars + (cs.length + 1) ≤ file := ht₂.block_apart ht.mem
    refine ⟨_, file, rfl, Or.inr ⟨ht.ne_null, hmiss, ⟨bs₂, hcopied.inv.of_block hmem fun x hx =>
      hframe x (by simp only at hx; omega)⟩, hcopied.al.trans ht.al, ?_, ?_, hstart, hsize,
      fun x hx => ?_⟩⟩
    · simp only [hchars, hptr, hlive]
    · simp only [hchars, hptr]
      exact hcopied.string.congr fun i hi => hframe _ (by omega)
    · have hx₁ := hkeeps₁ x hx
      have hx₂ := hcopied.keeps x hx₁.2
      have hout := hfile x hx
      exact ⟨((hframe x (by omega)).trans (hx₂.1 (by omega))).trans hx₁.1, hx₂.2⟩

end Open

/-- The entries, with the addresses of their headers. -/
def located : Nat → List ArchiveEntry → List (ArchiveEntry × Nat)
  | _, [] => []
  | p, e :: rest => (e, p) :: located (p + e.extent) rest

/-- A type flag of NUL or `0`. -/
def IsRegular (m : ByteMemory) (p : Nat) : Prop := m (p + 156) = 0 ∨ m (p + 156) = 0x30

/-- A regular file of the name. -/
def RegularFile (m : ByteMemory) (archive : Nat) (es : List ArchiveEntry) (name : List UInt8)
    (e : ArchiveEntry) : Prop :=
  ∃ p, (e, p) ∈ located archive es ∧ e.name.tail = name ∧ IsRegular m p

/-- NULL stands for no regular file of the name, a file for one of its size. -/
def OpensRegular (heap heap' : HeapState) (file archive : Nat) (es : List ArchiveEntry)
    (name : List UInt8) : Prop :=
  (file = NULL ∧ ∀ e, ¬RegularFile heap.mem archive es name e) ∨
    (file ≠ NULL ∧ ∃ e, RegularFile heap.mem archive es name e ∧
      filesz heap'.mem file = e.data.length)

/-- The first entry of the name is a stand-in for the regular ones: it has contents when there
is one of its size, and none when there is none at all. -/
def FirstStandsFor (m : ByteMemory) (archive : Nat) (es : List ArchiveEntry)
    (name : List UInt8) : Prop :=
  ∀ e data, firstNamed name archive es = some (e, data) →
    (e.data ≠ [] ∧ ∃ d, RegularFile m archive es name d ∧ d.data.length = e.data.length) ∨
      (e.data = [] ∧ ∀ d, ¬RegularFile m archive es name d)

theorem located_mem {archive p : Nat} {es : List ArchiveEntry} {e : ArchiveEntry}
    (h : (e, p) ∈ located archive es) : e ∈ es := by
  induction es generalizing archive with
  | nil => cases h
  | cons d rest ih =>
      rcases List.mem_cons.mp h with heq | h
      · cases heq
        exact List.mem_cons_self
      · exact List.mem_cons_of_mem _ (ih h)

theorem firstStandsFor_iff {m : ByteMemory} {archive data : Nat} {es : List ArchiveEntry}
    {name : List UInt8} {e : ArchiveEntry} (hfirst : firstNamed name archive es = some (e, data)) :
    FirstStandsFor m archive es name ↔
      (e.data ≠ [] ∧ ∃ d, RegularFile m archive es name d ∧ d.data.length = e.data.length) ∨
        (e.data = [] ∧ ∀ d, ¬RegularFile m archive es name d) := by
  constructor
  · exact fun h => h e data hfirst
  · intro h e' data' hsome
    rw [hfirst] at hsome
    cases hsome
    exact h

/-- `open` finds a regular file, whatever its size, just when the first entry of the name
stands for one. -/
theorem initramfsOpenAt_regular_iff {fuel path archive out : Nat} {heap : HeapState}
    {bs : List Block} {name : List UInt8} {es : List ArchiveEntry} (hinv : HeapInv heap bs)
    (hpos : 0 < heap.al.addr) (hroom : heap.HoldsFile name.length) (hnull : path ≠ NULL)
    (hpath : CString (bytesFrom heap.mem path) name)
    (hclient : ∀ i ≤ name.length, heap.Writable (path + i)) (hshort : name.length < 0x800000000000)
    (harchive : Archive heap.mem archive es)
    (hend : archive + archiveExtent es + 512 ≤ 0x10000000000000000)
    (hfuel : heap.al.size ≤ fuel ∧ name.length < fuel ∧ es.length < fuel) :
    ∃ heap' file, initramfsOpenAt fuel archive out heap path = some (heap', file) ∧
      (OpensRegular heap heap' file archive es name ↔ FirstStandsFor heap.mem archive es name) := by
  have hlookup : initramfsLookup fuel heap.mem archive path out =
      some ((firstNamed name archive es).elim (0, out) fun found =>
        ((found.1.data.length : Int), found.2)) := by
    rw [initramfsLookup, if_neg hnull, strlen_eq hpath hfuel.2.1]
    exact lookupFrom_eq hpath harchive hend hfuel.2.2
  rcases @firstNamed_cases heap.mem name es archive harchive with
    ⟨pre, e, post, rfl, -, -, hfirst, -⟩ | ⟨hnone, hfirst⟩
  · rw [hfirst] at hlookup
    simp only [Option.elim_some] at hlookup
    have hsize : e.data.length ≤ 0x7ffffc00 := e.size
    have hdata : archive + archiveExtent pre + 512 ≠ NULL := by
      simp only [NULL]
      omega
    obtain ⟨heap', file, hopen, hcases⟩ :=
      initramfsOpenAt_cases hinv hfuel.1 hpath hclient hfuel.2.1 hshort hlookup
    refine ⟨heap', file, hopen, ?_⟩
    rw [firstStandsFor_iff hfirst]
    by_cases hempty : e.data = []
    · -- a file of no bytes
      rcases hcases with ⟨rfl, -, -⟩ | ⟨-, hfound, -⟩
      · simp [OpensRegular, hempty]
      · exact absurd (Or.inl (by simp [hempty])) hfound
    · have hlength : e.data.length ≠ 0 := fun hzero => hempty (List.eq_nil_of_length_eq_zero hzero)
      rcases hcases with ⟨-, -, hmiss | hfull⟩ | ⟨hfile, -, hopened⟩
      · rcases hmiss with hzero | hzero
        · omega
        · exact absurd hzero hdata
      · exact absurd ⟨hpos, hroom⟩ hfull
      · have hfilesz : filesz heap'.mem file = e.data.length := by
          rw [hopened.size]
          exact sizeT_of_range (by omega)
        simp only [OpensRegular, hfile, hfilesz, hempty, ne_eq, not_false_eq_true,
          false_and, true_and, false_or, or_false]
        exact exists_congr fun d => and_congr_right fun _ => eq_comm
  · rw [hfirst] at hlookup
    obtain ⟨heap', file, hopen, ⟨rfl, -, -⟩ | ⟨-, hfound, -⟩⟩ :=
      initramfsOpenAt_cases hinv hfuel.1 hpath hclient hfuel.2.1 hshort hlookup
    · refine ⟨heap', NULL, hopen, iff_of_true (Or.inl ⟨rfl, ?_⟩) fun e data hsome => ?_⟩
      · rintro e ⟨p, hmem, hname, -⟩
        exact hnone e (located_mem hmem) hname
      · rw [hfirst] at hsome
        cases hsome
    · exact absurd (Or.inl rfl) hfound

theorem newHeap_outside {m : ByteMemory} {addr size x : Nat} (hx : x < addr ∨ addr + 0x20 ≤ x) :
    (newHeap m addr size).mem x = m x := by
  simp only [newHeap, newAllocator]
  rw [HeapNode.setSize_outside _ hx, HeapNode.setStatus_outside _ hx, HeapNode.setNext_outside _ hx,
    HeapNode.setPrev_outside _ hx]

/-- `/a` at 0x100 and `/b` at 0x110, a new heap, and the archive of `./a` and of `./b`, which is
empty, behind it. -/
def twoFilesHeap : HeapState :=
  newHeap (writeArchive (fun x =>
    if x = 0x100 ∨ x = 0x110 then 0x2f else if x = 0x101 then 0x61
    else if x = 0x111 then 0x62 else 0)
      0x4000 twoFiles) 0x2000 0x1000

theorem twoFilesHeap_inv : HeapInv twoFilesHeap [⟨0xfe0, true⟩] :=
  newHeap_inv _ (by decide) (by decide)

theorem twoFilesHeap_archive : Archive twoFilesHeap.mem 0x4000 twoFiles :=
  (writeArchive_archive _ 0x4000 twoFiles).congr fun _ hx => newHeap_outside (by omega)

/-- Every entry is a regular file. -/
theorem twoFilesHeap_regular : ∀ e ∈ located 0x4000 twoFiles,
    RegularFile twoFilesHeap.mem 0x4000 twoFiles e.1.name.tail e.1 := by
  intro e he
  have hflags : ∀ e ∈ located 0x4000 twoFiles, twoFilesHeap.mem (e.2 + 156) = 0 := by
    decide +kernel
  exact ⟨e.2, he, rfl, Or.inl (hflags e he)⟩

theorem initramfsOpenAt_regular_iff_fileA : ∃ heap' file,
    initramfsOpenAt 0x1000 0x4000 0 twoFilesHeap 0x100 = some (heap', file) ∧
      OpensRegular twoFilesHeap heap' file 0x4000 twoFiles [0x2f, 0x61] := by
  have hroom : twoFilesHeap.HoldsFile [0x2f, 0x61].length :=
    twoFilesHeap_inv.holdsFile_iff.mpr ⟨0, _, rfl, by decide⟩
  have hpath : CString (bytesFrom twoFilesHeap.mem 0x100) [0x2f, 0x61] :=
    ⟨by decide, by decide +kernel⟩
  obtain ⟨heap', file, hopen, hiff⟩ := @initramfsOpenAt_regular_iff 0x1000 0x100 0x4000 0
    twoFilesHeap _ _ _ twoFilesHeap_inv (by decide) hroom (by decide) hpath (by decide) (by decide)
    twoFilesHeap_archive (by decide) (by decide)
  have hfirst : firstNamed [0x2f, 0x61] 0x4000 twoFiles =
      some (twoFiles.head (by decide), 0x4200) := rfl
  refine ⟨heap', file, hopen, hiff.mpr ((firstStandsFor_iff hfirst).mpr (Or.inl ?_))⟩
  exact ⟨by decide, _, twoFilesHeap_regular _ List.mem_cons_self, rfl⟩

/-- `./b` is a regular file, and `open` answers NULL. -/
theorem emptyFile_notOpened : ∃ heap',
    initramfsOpenAt 0x1000 0x4000 0 twoFilesHeap 0x110 = some (heap', NULL) ∧
      Archive twoFilesHeap.mem 0x4000 twoFiles ∧ twoFilesHeap.HoldsFile 2 ∧
      ¬OpensRegular twoFilesHeap heap' NULL 0x4000 twoFiles [0x2f, 0x62] := by
  have hopen : (initramfsOpenAt 0x1000 0x4000 0 twoFilesHeap 0x110).map Prod.snd = some NULL := by
    decide +kernel
  obtain ⟨⟨heap', file⟩, hopen, rfl⟩ := Option.map_eq_some_iff.mp hopen
  refine ⟨heap', hopen, twoFilesHeap_archive,
    twoFilesHeap_inv.holdsFile_iff.mpr ⟨0, _, rfl, by decide⟩, ?_⟩
  rintro (⟨-, hnone⟩ | ⟨hne, -⟩)
  · exact hnone _ (twoFilesHeap_regular _ (List.mem_cons_of_mem _ List.mem_cons_self))
  · exact hne rfl

end BayosKernel
