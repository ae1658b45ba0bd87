import BayosKernel.ForkSyscall

/-!
Address spaces as sets of pages. A call on one address space changes the set of
its mapped pages and leaves those of all others as they are.
-/

namespace BayosKernel

open Foundation

/-- The pages of a user half that are mapped, by their first addresses. -/
def mappedPages (own : Nat → Option Role) (cr3 : Nat) : Set Nat :=
  {va | (va < 0x800000000000 ∧ va % 0x1000 = 0) ∧ ∃ c, Maps own cr3 va c}

def regionPages (start stop : Nat) : Set Nat := {va | InRegion start stop va}

/-- The pages that `pages` turns of the inner loop of `map_elf` map. -/
def segmentPages (vaddr pages : Nat) : Set Nat :=
  {va | ∃ j < pages, va = (vaddr + j * 0x1000) / 0x1000 * 0x1000}

/-- The invariants hold after a call on the address space `cr3`, and all other
spaces are as before. -/
structure Remaps (sites : List Site) (roots : List Nat) (st' : PageState)
    (own own' : Nat → Option Role) (cr3 : Nat) : Prop where
  pages : PageInv st' sites
  tables : TableInv sites st' roots own'
  others : ∀ t ≠ cr3, ∀ va < 0x800000000000, ∀ c, Maps own' t va c ↔ Maps own t va c

section

variable {st st' st'' : PageState} {sites : List Site} {roots : List Nat}
  {own own' own'' : Nat → Option Role} {cr3 t va fuel start stop flags : Nat}

theorem mem_mappedPages {c : Nat} (hmaps : Maps own cr3 va c) (hva : va < 0x800000000000) :
    va / 0x1000 * 0x1000 ∈ mappedPages own cr3 :=
  ⟨⟨by omega, by omega⟩, c, Maps.page.mpr hmaps⟩

theorem Remaps.refl (hpages : PageInv st sites) (h : TableInv sites st roots own) (cr3 : Nat) :
    Remaps sites roots st own own cr3 :=
  ⟨hpages, h, fun _ _ _ _ _ => Iff.rfl⟩

theorem Remaps.trans (hfirst : Remaps sites roots st' own own' cr3)
    (hsecond : Remaps sites roots st'' own' own'' cr3) : Remaps sites roots st'' own own'' cr3 :=
  ⟨hsecond.pages, hsecond.tables, fun t ht va hva c =>
    (hsecond.others t ht va hva c).trans (hfirst.others t ht va hva c)⟩

theorem Remaps.mappedPages_eq (h : Remaps sites roots st' own own' cr3) (ht : t ≠ cr3) :
    mappedPages own' t = mappedPages own t := by
  ext va
  simp only [mappedPages, Set.mem_ofPred_eq]
  exact and_congr_right fun hva => exists_congr (h.others t ht va hva.1)

theorem Allocates.remaps (hall : Allocates sites st st' own own' cr3 start stop)
    (h : TableInv sites st roots own) (hpages' : PageInv st' sites)
    (h' : TableInv sites st' roots own') (hstop : stop ≤ 0x800000000000) :
    Remaps sites roots st' own own' cr3 ∧
      mappedPages own' cr3 = mappedPages own cr3 ∪ regionPages start stop := by
  refine ⟨⟨hpages', h', fun t ht va hva c => hall.maps_other h ht hva hstop⟩, ?_⟩
  ext va
  constructor
  · rintro ⟨hva, c, hmaps⟩
    rcases hall.maps_cases h hmaps hva.1 hstop with hmaps | ⟨-, -, hin⟩
    · exact Or.inl ⟨hva, c, hmaps⟩
    · have hbase : va / 0x1000 * 0x1000 = va := by omega
      rw [hbase] at hin
      exact Or.inr hin
  · rintro (⟨hva, c, hmaps⟩ | hin)
    · exact ⟨hva, c, hmaps.mono hall.grows.keeps⟩
    · exact ⟨⟨Nat.lt_of_lt_of_le hin.2.1 hstop, hin.2.2⟩, hall.mapped va hin⟩

theorem Frees.remaps (hfrees : Frees sites st st' own own' cr3 start stop)
    (hpages' : PageInv st' sites) (h' : TableInv sites st' roots own')
    (hstop : stop ≤ 0x800000000000) :
    Remaps sites roots st' own own' cr3 ∧
      mappedPages own' cr3 = mappedPages own cr3 \ regionPages start stop := by
  have hkept : ∀ t va, va < 0x800000000000 → ∀ c, Maps own' t va c ↔
      Maps own t va c ∧ ¬(t = cr3 ∧ InRegion start stop (va / 0x1000 * 0x1000)) := by
    intro t va hva c
    rw [hfrees.maps_iff]
    exact and_congr_right fun hmaps => not_congr (mappedIn_iff hmaps hva hstop)
  refine ⟨⟨hpages', h', fun t ht va hva c => ?_⟩, ?_⟩
  · rw [hkept t va hva c]
    exact and_iff_left fun hin => ht hin.1
  · ext va
    simp only [mappedPages, regionPages, Set.mem_sdiff, Set.mem_ofPred_eq]
    constructor
    · rintro ⟨hva, c, hmaps⟩
      obtain ⟨hmaps, hout⟩ := (hkept cr3 va hva.1 c).mp hmaps
      have hbase : va / 0x1000 * 0x1000 = va := by omega
      rw [hbase] at hout
      exact ⟨⟨hva, c, hmaps⟩, fun hin => hout ⟨rfl, hin⟩⟩
    · rintro ⟨⟨hva, c, hmaps⟩, hout⟩
      have hbase : va / 0x1000 * 0x1000 = va := by omega
      refine ⟨hva, c, (hkept cr3 va hva.1 c).mpr ⟨hmaps, fun hin => hout ?_⟩⟩
      rw [hbase] at hin
      exact hin.2

end

namespace TableInv

variable {st st' : PageState} {sites : List Site} {roots : List Nat} {own : Nat → Option Role}
  {cr3 fuel start stop flags : Nat}

theorem allocateRegion_remaps (h : TableInv sites st roots own) (hpages : PageInv st sites)
    (hphys : Physical sites) (hroot : cr3 ∈ roots) (halign : start % 0x1000 = 0)
    (hstart : start ≤ 0x800000000000) (hstop : stop ≤ 0x800000000000) (hflags : PageFlags flags)
    (hrun : st.allocateRegion fuel cr3 start stop flags = some st') :
    ∃ own', Remaps sites roots st' own own' cr3 ∧
      mappedPages own' cr3 = mappedPages own cr3 ∪ regionPages start stop := by
  obtain ⟨own', hpages', h', hall⟩ := h.allocateRegion hpages hphys hroot hstop hflags hrun
  have hround : pageRoundDown start = start := by
    rw [pageRoundDown_eq (by omega)]
    omega
  rw [hround] at hall
  exact ⟨own', hall.remaps h hpages' h' hstop⟩

theorem freeRegion_remaps (h : TableInv sites st roots own) (hpages : PageInv st sites)
    (hphys : Physical sites) (hroot : cr3 ∈ roots) (halign : start % 0x1000 = 0)
    (hstart : start ≤ 0x800000000000) (hstop : stop ≤ 0x800000000000)
    (hrun : st.freeRegion fuel cr3 start stop = some st') :
    ∃ own', Remaps sites roots st' own own' cr3 ∧
      mappedPages own' cr3 = mappedPages own cr3 \ regionPages start stop := by
  obtain ⟨own', hpages', h', hfrees⟩ := h.freeRegion hpages hphys hroot hstop hrun
  have hround : pageRoundDown start = start := by
    rw [pageRoundDown_eq (by omega)]
    omega
  rw [hround] at hfrees
  exact ⟨own', hfrees.remaps hpages' h' hstop⟩

/-- One page is a region of its own. -/
theorem mapMemoryPage_allocates (h : TableInv sites st roots own) (hpages : PageInv st sites)
    (hphys : Physical sites) (hroot : cr3 ∈ roots) {va : Nat} (hva : va < 0x800000000000)
    (hflags : PageFlags flags) (hmap : st.mapMemoryPage cr3 va flags = some st') :
    ∃ own', PageInv st' sites ∧ TableInv sites st' roots own' ∧ Allocates sites st st' own own' cr3
      (va / 0x1000 * 0x1000) (va / 0x1000 * 0x1000 + 0x1000) := by
  have hbase : st.mapMemoryPage cr3 (va / 0x1000 * 0x1000) flags = some st' := by
    rw [PageState.mapMemoryPage_eq, pathIndices_page, ← PageState.mapMemoryPage_eq, hmap]
  obtain ⟨-, -, own', hpages', h', hall, -⟩ := allocates_step hphys hroot hflags
    ⟨Nat.le_refl _, by omega, by omega⟩ hpages h (Allocates.refl st own cr3 _)
    (Alike.refl sites [] own st) hbase
  exact ⟨own', hpages', h', hall⟩

theorem mapMemoryPage_remaps (h : TableInv sites st roots own) (hpages : PageInv st sites)
    (hphys : Physical sites) (hroot : cr3 ∈ roots) {va : Nat} (hva : va < 0x800000000000)
    (hflags : PageFlags flags) (hmap : st.mapMemoryPage cr3 va flags = some st') :
    ∃ own', Remaps sites roots st' own own' cr3 ∧ Grows sites st st' own own' ∧
      mappedPages own' cr3 = mappedPages own cr3 ∪ {va / 0x1000 * 0x1000} := by
  obtain ⟨own', hpages', h', hall⟩ :=
    h.mapMemoryPage_allocates hpages hphys hroot hva hflags hmap
  obtain ⟨hremaps, hmapped⟩ := hall.remaps h hpages' h' (by omega)
  refine ⟨own', hremaps, hall.grows, hmapped.trans (congrArg _ ?_)⟩
  ext p
  simp only [regionPages, InRegion, Set.mem_ofPred_eq, Set.mem_singleton_iff]
  omega

/-- One turn of the loop of `free_region`. -/
theorem freeRegionPage_remaps (h : TableInv sites st roots own) (hpages : PageInv st sites)
    (hphys : Physical sites) (hroot : cr3 ∈ roots) {va : Nat} (halign : va % 0x1000 = 0)
    (hva : va < 0x800000000000) :
    ∃ own', Remaps sites roots (st.freeRegionPage cr3 va) own own' cr3 ∧
      mappedPages own' cr3 = mappedPages own cr3 \ {va} := by
  obtain ⟨own', hpages', h', hfrees⟩ := h.frees_step hpages hphys hroot
    ⟨Nat.le_refl va, halign, hva⟩ hpages h (Frees.refl st own cr3 va)
  obtain ⟨hremaps, hmapped⟩ := hfrees.remaps hpages' h' (by omega)
  refine ⟨own', hremaps, hmapped.trans (congrArg _ ?_)⟩
  ext p
  simp only [regionPages, InRegion, Set.mem_ofPred_eq, Set.mem_singleton_iff]
  omega

/-- One turn of the loop of `copy_pages_between_pagetables`. -/
theorem copyPage_remaps {dst src va : Nat} (h : TableInv sites st roots own)
    (hpages : PageInv st sites) (hphys : Physical sites) (hdst : dst ∈ roots) (hsrc : src ∈ roots)
    (hva : va < 0x800000000000) :
    Remaps sites roots (BayosKernel.copyPage dst src va (st, 0)).1 own own dst := by
  rcases h.copyPage hpages hphys hdst hsrc va hva 0 with ⟨p, q, -, hq, hstep⟩ | ⟨hstep, -⟩
  · rw [hstep]
    obtain ⟨pt, i, hrole⟩ := hq.owned
    obtain ⟨hpages', h'⟩ := h.of_data hpages hrole rfl (st.mem.memcpy q p 0x1000)
      fun x hx => ByteMemory.memcpy_outside _ hx
    exact Remaps.refl hpages' h' dst
  · rw [hstep]
    exact Remaps.refl hpages h dst

/-- A copy to user memory goes to mapped pages and changes no mapping. -/
theorem copyToUser (h : TableInv sites st roots own) (hpages : PageInv st sites)
    (hphys : Physical sites) (hroot : cr3 ∈ roots) {va n : Nat} {bytes : Nat → UInt8}
    (hva : va + n ≤ 0x800000000000) (hrun : st.copyToUser cr3 va bytes n = some st') :
    Remaps sites roots st' own own cr3 ∧ st'.allocated = st.allocated ∧
      ∀ k < n, ∃ c, Maps own cr3 (va + k) c := by
  induction n generalizing st' with
  | zero =>
      cases hrun
      exact ⟨Remaps.refl hpages h cr3, rfl, by simp⟩
  | succ n ih =>
      obtain ⟨st₁, hcopy, hwrite⟩ := Option.bind_eq_some_iff.mp hrun
      obtain ⟨hremaps, hallocated, hmapped⟩ := ih (Nat.le_of_succ_le hva) hcopy
      rw [add64_eq (by omega)] at hwrite
      obtain ⟨c, hmaps, hst', hpages', h'⟩ :=
        hremaps.tables.write hremaps.pages hphys hroot (by omega) hwrite
      refine ⟨Remaps.refl hpages' h' cr3, ?_, fun k hk => ?_⟩
      · rw [hst', ← hallocated]
      · rcases Nat.lt_succ_iff_lt_or_eq.mp hk with hk | rfl
        · exact hmapped k hk
        · exact ⟨c, hmaps⟩

end TableInv

theorem PageState.copyToUser_prefix {st st' : PageState} {cr3 va n k : Nat} {bytes : Nat → UInt8}
    (hk : k ≤ n) (hrun : st.copyToUser cr3 va bytes n = some st') :
    ∃ st₁, st.copyToUser cr3 va bytes k = some st₁ := by
  induction n generalizing st' with
  | zero => exact ⟨st', by rwa [Nat.le_zero.mp hk]⟩
  | succ n ih =>
      rcases Nat.le_succ_iff.mp hk with hk | rfl
      · obtain ⟨st₁, hcopy, -⟩ := Option.bind_eq_some_iff.mp hrun
        exact ih hk hcopy
      · exact ⟨st', hrun⟩

/-- What is copied fits into the pages of all areas, and so into the user half. -/
theorem TableInv.copyToUser_le {st st' : PageState} {sites : List Site} {roots : List Nat}
    {own : Nat → Option Role} {cr3 va n : Nat} {bytes : Nat → UInt8}
    (h : TableInv sites st roots own) (hpages : PageInv st sites) (hphys : Physical sites)
    (hsites : sites.length ≤ 0x100) (hroot : cr3 ∈ roots) (hva : va ≤ 0x400000000000)
    (hrun : st.copyToUser cr3 va bytes n = some st') : va + n ≤ 0x800000000000 := by
  by_contra hfar
  obtain ⟨st₁, hpart⟩ :=
    PageState.copyToUser_prefix (show 0x800000000000 - va ≤ n by omega) hrun
  obtain ⟨-, -, hmapped⟩ := h.copyToUser hpages hphys hroot (by omega) hpart
  have hregion : ∀ va', InRegion (va / 0x1000 * 0x1000) 0x800000000000 va' →
      ∃ c, Maps own cr3 va' c := by
    intro va' hin
    have hle := hin.1
    have hlt := hin.2.1
    by_cases hbefore : va' < va
    · -- the first page, up to the first byte
      obtain ⟨c, hmaps⟩ := hmapped 0 (by omega)
      refine ⟨c, ?_⟩
      rw [show va' = va / 0x1000 * 0x1000 by have := hin.2.2; omega]
      exact Maps.page.mpr hmaps
    · obtain ⟨k, rfl⟩ := Nat.exists_eq_add_of_le (Nat.le_of_not_lt hbefore)
      exact hmapped k (by omega)
  have := h.region_le hpages hsites (by omega) (Nat.le_refl _) hregion
  omega

/-- A PT_LOAD segment lies between the stack and the anonymous memory. -/
def ElfProgram.Inside (ph : ElfProgram) : Prop :=
  ph.type = 1 → 0x400000 ≤ ph.vaddr ∧ ph.vaddr + ph.memsz ≤ 0x800000 ∧
    ph.vaddr + ph.filesz ≤ 0x800000

instance (ph : ElfProgram) : Decidable ph.Inside := inferInstanceAs (Decidable (_ → _))

def ElfImage.Inside (elf : ElfImage) : Prop := ∀ i < elf.phnum, (elf.program i).Inside

section Loading

variable {st st' : PageState} {sites : List Site} {roots : List Nat} {own : Nat → Option Role}
  {cr3 : Nat}

theorem segmentPages_succ (vaddr pages : Nat) : segmentPages vaddr (pages + 1) =
    segmentPages vaddr pages ∪ {(vaddr + pages * 0x1000) / 0x1000 * 0x1000} := by
  ext va
  simp only [segmentPages, Set.mem_ofPred_eq, Set.mem_union, Set.mem_singleton_iff,
    Nat.lt_succ_iff_lt_or_eq]
  constructor
  · rintro ⟨j, hj | rfl, hva⟩
    · exact Or.inl ⟨j, hj, hva⟩
    · exact Or.inr hva
  · rintro (⟨j, hj, hva⟩ | hva)
    · exact ⟨j, Or.inl hj, hva⟩
    · exact ⟨pages, Or.inr rfl, hva⟩

/-- The product in the address is no negative one for the first 0x80000 pages. -/
theorem segmentPage_eq {vaddr j : Nat} (hj : j < 0x80000)
    (hvaddr : vaddr + j * 0x1000 < 0x10000000000000000) :
    segmentPage vaddr j = vaddr + j * 0x1000 := by
  rw [segmentPage, int32_of_range (by omega) (by omega), sizeT_of_range (by omega),
    add64_eq hvaddr]

theorem mapSegment_remaps (h : TableInv sites st roots own) (hpages : PageInv st sites)
    (hphys : Physical sites) (hroot : cr3 ∈ roots) {vaddr pages : Nat}
    (hcount : pages ≤ 0x80000) (hbound : vaddr + pages * 0x1000 ≤ 0x800000000000)
    (hrun : mapSegment st cr3 vaddr pages = some st') :
    ∃ own', Remaps sites roots st' own own' cr3 ∧ Grows sites st st' own own' ∧
      mappedPages own' cr3 = mappedPages own cr3 ∪ segmentPages vaddr pages := by
  induction pages generalizing st' with
  | zero =>
      cases hrun
      have hempty : segmentPages vaddr 0 = ∅ := by simp [segmentPages]
      exact ⟨own, Remaps.refl hpages h cr3, Grows.refl st own, by rw [hempty, Set.union_empty]⟩
  | succ pages ih =>
      obtain ⟨st₁, hfirst, hlast⟩ := Option.bind_eq_some_iff.mp hrun
      rw [Nat.succ_mul, ← Nat.add_assoc] at hbound
      obtain ⟨own₁, hremaps, hgrows, hmapped⟩ := ih (by omega) (by omega) hfirst
      rw [segmentPage_eq hcount (by omega)] at hlast
      obtain ⟨own₂, hremaps', hgrows', hmapped'⟩ :=
        hremaps.tables.mapMemoryPage_remaps hremaps.pages hphys hroot (by omega) (by decide) hlast
      refine ⟨own₂, hremaps.trans hremaps', hgrows.trans hgrows', ?_⟩
      rw [hmapped', hmapped, segmentPages_succ, Set.union_assoc]

/-- The pages of a segment that lies inside begin below its end. -/
theorem segmentPages_subset {ph : ElfProgram} (hin : 0x400000 ≤ ph.vaddr) {pages : Nat}
    (hpages : pages = (ph.memsz + 0xfff) / 0x1000) :
    segmentPages ph.vaddr pages ⊆ regionPages 0x400000 (ph.vaddr + ph.memsz) := by
  rintro va ⟨j, hj, rfl⟩
  refine ⟨?_, ?_, ?_⟩
  · omega
  · omega
  · omega

/-- The page count of `map_elf`. -/
theorem segment_count {memsz : Nat} (h : memsz ≤ 0x80000000) :
    int32 ((pageRoundDown (sub64 (add64 memsz 0x1000) 1) / 0x1000 : Nat) : Int) =
      ((memsz + 0xfff) / 0x1000 : Nat) := by
  rw [add64_eq (by omega), sub64_eq (by omega) (by omega), pageRoundDown_eq (by omega),
    int32_of_range (by omega) (by omega)]
  omega

/-- The three loops over a segment of at most 2 GiB. -/
theorem loadSegment_eq (elf : ElfImage) (cr3 : Nat) (st : PageState) {ph : ElfProgram}
    (hmemsz : ph.memsz ≤ 0x80000000) (hfilesz : ph.vaddr + ph.filesz ≤ 0x800000000000) :
    loadSegment elf cr3 st ph =
      (mapSegment st cr3 ph.vaddr ((ph.memsz + 0xfff) / 0x1000)).bind fun st =>
        (st.copyToUser cr3 ph.vaddr (fun k => elf (add64 ph.offset k)) ph.filesz).bind fun st =>
          st.copyToUser cr3 (ph.vaddr + ph.filesz) (fun _ => 0) (ph.memsz - ph.filesz) := by
  have hcount := segment_count hmemsz
  have hsum : add64 ph.vaddr ph.filesz = ph.vaddr + ph.filesz := add64_eq (by omega)
  simp only [loadSegment, hcount, Int.toNat_natCast, hsum]
  by_cases hmore : ph.memsz > ph.filesz
  · simp only [if_pos hmore]
  · simp only [if_neg hmore, Nat.sub_eq_zero_of_le (Nat.le_of_not_lt hmore), PageState.copyToUser]

/-- The bytes of a segment change no mapping. -/
theorem loadSegment_mapped {elf : ElfImage} {ph : ElfProgram} (h : TableInv sites st roots own)
    (hpages : PageInv st sites) (hphys : Physical sites) (hroot : cr3 ∈ roots)
    (hmemsz : ph.memsz ≤ 0x80000000) (hend : ph.vaddr + ph.memsz ≤ 0x7ffffffff000)
    (hfilesz : ph.vaddr + ph.filesz ≤ 0x800000000000)
    (hrun : loadSegment elf cr3 st ph = some st') :
    ∃ own', Remaps sites roots st' own own' cr3 ∧
      mappedPages own' cr3 =
        mappedPages own cr3 ∪ segmentPages ph.vaddr ((ph.memsz + 0xfff) / 0x1000) := by
  rw [loadSegment_eq elf cr3 st hmemsz hfilesz] at hrun
  obtain ⟨st₁, hmap, hrun⟩ := Option.bind_eq_some_iff.mp hrun
  obtain ⟨st₂, hcopy, hzero⟩ := Option.bind_eq_some_iff.mp hrun
  obtain ⟨own₁, hremaps₁, -, hmapped⟩ :=
    mapSegment_remaps h hpages hphys hroot (by omega) (by omega) hmap
  obtain ⟨hremaps₂, -⟩ :=
    hremaps₁.tables.copyToUser hremaps₁.pages hphys hroot hfilesz hcopy
  obtain ⟨hremaps₃, -⟩ :=
    hremaps₂.tables.copyToUser hremaps₂.pages hphys hroot (by omega) hzero
  exact ⟨own₁, hremaps₁.trans hremaps₃, hmapped⟩

theorem loadSegment_remaps {elf : ElfImage} {ph : ElfProgram} (h : TableInv sites st roots own)
    (hpages : PageInv st sites) (hphys : Physical sites) (hroot : cr3 ∈ roots)
    (hin : 0x400000 ≤ ph.vaddr ∧ ph.vaddr + ph.memsz ≤ 0x800000 ∧ ph.vaddr + ph.filesz ≤ 0x800000)
    (hrun : loadSegment elf cr3 st ph = some st') :
    ∃ own', Remaps sites roots st' own own' cr3 ∧
      mappedPages own cr3 ⊆ mappedPages own' cr3 ∧
      mappedPages own' cr3 ⊆
        mappedPages own cr3 ∪ regionPages 0x400000 (ph.vaddr + ph.memsz) := by
  obtain ⟨own', hremaps, hmapped⟩ :=
    loadSegment_mapped h hpages hphys hroot (by omega) (by omega) (by omega) hrun
  refine ⟨own', hremaps, ?_, ?_⟩
  · rw [hmapped]
    exact Set.subset_union_left
  · rw [hmapped]
    exact Set.union_subset_union_right _ (segmentPages_subset hin.1 rfl)

theorem regionPages_mono {start stop stop' : Nat} (hle : stop ≤ stop') :
    regionPages start stop ⊆ regionPages start stop' :=
  fun _ hin => ⟨hin.1, Nat.lt_of_lt_of_le hin.2.1 hle, hin.2.2⟩

/-- The running maximum of `map_elf`, for a sum that fits into it. -/
theorem highest_max {highest : UInt32} {last : Nat} (hlast : last < 0x100000000) :
    (if last > highest.toNat then UInt32.ofNat last else highest).toNat =
      max highest.toNat last := by
  split
  · rw [UInt32.toNat_ofNat']
    omega
  · omega

/-- `map_elf` maps pages below the highest address that it returns. -/
theorem mapPrograms_remaps {elf : ElfImage} {highest : UInt32} (h : TableInv sites st roots own)
    (hpages : PageInv st sites) (hphys : Physical sites) (hroot : cr3 ∈ roots) {n : Nat}
    (hin : ∀ i < n, (elf.program i).Inside)
    (hrun : mapPrograms elf cr3 st n = some (st', highest)) :
    highest.toNat ≤ 0x800000 ∧ ∃ own', Remaps sites roots st' own own' cr3 ∧
      mappedPages own cr3 ⊆ mappedPages own' cr3 ∧
      mappedPages own' cr3 ⊆ mappedPages own cr3 ∪ regionPages 0x400000 highest.toNat := by
  induction n generalizing st' highest with
  | zero =>
      cases hrun
      exact ⟨by decide, own, Remaps.refl hpages h cr3, Set.Subset.refl _, Set.subset_union_left⟩
  | succ n ih =>
      obtain ⟨⟨st₁, highest₁⟩, hfirst, hlast⟩ := Option.bind_eq_some_iff.mp hrun
      obtain ⟨hle, own₁, hremaps₁, hkeep, hnew⟩ := ih (fun i hi => hin i (by omega)) hfirst
      simp only at hlast
      by_cases hload : (elf.program n).type = 1
      · obtain ⟨hvaddr, hmemsz, hfilesz⟩ := hin n (Nat.lt_succ_self n) hload
        rw [if_pos hload, add64_eq (by omega)] at hlast
        obtain ⟨st₂, hsegment, heq⟩ := Option.map_eq_some_iff.mp hlast
        obtain ⟨rfl, hhighest⟩ := Prod.mk.inj heq
        obtain ⟨own₂, hremaps₂, hkeep', hnew'⟩ := loadSegment_remaps hremaps₁.tables
          hremaps₁.pages hphys hroot ⟨hvaddr, hmemsz, hfilesz⟩ hsegment
        have hvalue : highest.toNat =
            max highest₁.toNat ((elf.program n).vaddr + (elf.program n).memsz) := by
          rw [← hhighest, highest_max (by omega)]
        refine ⟨by omega, own₂, hremaps₁.trans hremaps₂, hkeep.trans hkeep',
          hnew'.trans (Set.union_subset (hnew.trans ?_) ?_)⟩
        · exact Set.union_subset_union_right _ (regionPages_mono (by omega))
        · exact (regionPages_mono (by omega)).trans Set.subset_union_right
      · rw [if_neg hload] at hlast
        cases hlast
        exact ⟨hle, own₁, hremaps₁, hkeep, hnew⟩

theorem mapSegment_some (h : TableInv sites st roots own) (hpages : PageInv st sites)
    (hphys : Physical sites) (hroot : cr3 ∈ roots) {vaddr pages : Nat}
    (hcount : pages ≤ 0x80000) (hbound : vaddr + pages * 0x1000 ≤ 0x800000000000)
    (hfree : st.allocated.length + 4 * pages ≤ managedPages sites) :
    ∃ st', mapSegment st cr3 vaddr pages = some st' ∧
      st'.allocated.length ≤ st.allocated.length + 4 * pages := by
  induction pages with
  | zero => exact ⟨st, rfl, Nat.le_refl _⟩
  | succ pages ih =>
      rw [Nat.succ_mul, ← Nat.add_assoc] at hbound
      obtain ⟨st₁, hfirst, hlength⟩ := ih (by omega) (by omega) (by omega)
      obtain ⟨own₁, hremaps, -, -⟩ :=
        mapSegment_remaps h hpages hphys hroot (by omega) (by omega) hfirst
      have hlast : ∃ st₂, st₁.mapMemoryPage cr3 (vaddr + pages * 0x1000) 7 = some st₂ ∧
          st₂.allocated.length ≤ st₁.allocated.length + 4 :=
        hremaps.tables.mapMemoryPage_some hremaps.pages hphys hroot (by omega) (by decide) (by omega)
      obtain ⟨st₂, hlast, hlength'⟩ := hlast
      refine ⟨st₂, ?_, by omega⟩
      rw [mapSegment, hfirst, Option.bind_some, segmentPage_eq hcount (by omega)]
      exact hlast

/-- A copy to mapped pages comes to its end. -/
theorem copyToUser_some (h : TableInv sites st roots own) (hpages : PageInv st sites)
    (hphys : Physical sites) (hroot : cr3 ∈ roots) {va n : Nat} (bytes : Nat → UInt8)
    (hva : va + n ≤ 0x800000000000)
    (hmapped : ∀ k < n, (va + k) / 0x1000 * 0x1000 ∈ mappedPages own cr3) :
    ∃ st', st.copyToUser cr3 va bytes n = some st' := by
  induction n with
  | zero => exact ⟨st, rfl⟩
  | succ n ih =>
      obtain ⟨st₁, hfirst⟩ := ih (by omega) fun k hk => hmapped k (Nat.lt_succ_of_lt hk)
      obtain ⟨hremaps, -⟩ := h.copyToUser hpages hphys hroot (by omega) hfirst
      obtain ⟨-, c, hmaps⟩ := hmapped n (Nat.lt_succ_self n)
      have hwrite := hremaps.tables.write_some hremaps.pages hphys hroot (show va + n < _ by omega)
        (Maps.page.mp hmaps) (bytes n)
      rw [PageState.copyToUser, hfirst, Option.bind_some, add64_eq (by omega)]
      exact ⟨_, hwrite⟩

/-- The pages of a segment that begins with a page are all mapped. -/
theorem mem_segmentPages {ph : ElfProgram} (halign : ph.vaddr % 0x1000 = 0) {k : Nat}
    (hk : k < ph.memsz) :
    (ph.vaddr + k) / 0x1000 * 0x1000 ∈ segmentPages ph.vaddr ((ph.memsz + 0xfff) / 0x1000) :=
  ⟨k / 0x1000, by omega, by omega⟩

/-- A segment is loaded when its pages are mapped and there are frames for them. -/
theorem loadSegment_some (elf : ElfImage) {ph : ElfProgram} (h : TableInv sites st roots own)
    (hpages : PageInv st sites) (hphys : Physical sites) (hroot : cr3 ∈ roots)
    (hmemsz : ph.memsz ≤ 0x80000000) (hin : ph.vaddr + ph.memsz ≤ 0x7ffffffff000)
    (hfilesz : ph.filesz ≤ ph.memsz)
    (hcovered : ∀ k < ph.memsz, (ph.vaddr + k) / 0x1000 * 0x1000 ∈
      mappedPages own cr3 ∪ segmentPages ph.vaddr ((ph.memsz + 0xfff) / 0x1000))
    (hfree : st.allocated.length + 4 * ((ph.memsz + 0xfff) / 0x1000) ≤ managedPages sites) :
    ∃ st', loadSegment elf cr3 st ph = some st' ∧
      st'.allocated.length ≤ st.allocated.length + 4 * ((ph.memsz + 0xfff) / 0x1000) := by
  have hend : ph.vaddr + (ph.memsz + 0xfff) / 0x1000 * 0x1000 ≤ 0x800000000000 := by omega
  obtain ⟨st₁, hmap, hlength⟩ := mapSegment_some h hpages hphys hroot (by omega) hend hfree
  obtain ⟨own₁, hremaps₁, -, hmapped⟩ :=
    mapSegment_remaps h hpages hphys hroot (by omega) hend hmap
  rw [← hmapped] at hcovered
  obtain ⟨st₂, hcopy⟩ := copyToUser_some hremaps₁.tables hremaps₁.pages hphys hroot
    (fun k => elf (add64 ph.offset k)) (show ph.vaddr + ph.filesz ≤ _ by omega)
    fun k hk => hcovered k (by omega)
  obtain ⟨hremaps₂, hallocated₂, -⟩ :=
    hremaps₁.tables.copyToUser hremaps₁.pages hphys hroot (by omega) hcopy
  obtain ⟨st₃, hzero⟩ := copyToUser_some hremaps₂.tables hremaps₂.pages hphys hroot
    (fun _ => 0) (show ph.vaddr + ph.filesz + (ph.memsz - ph.filesz) ≤ _ by omega)
    fun k hk => by
      rw [Nat.add_assoc]
      exact hcovered _ (by omega)
  obtain ⟨-, hallocated₃, -⟩ :=
    hremaps₂.tables.copyToUser hremaps₂.pages hphys hroot (by omega) hzero
  refine ⟨st₃, ?_, by rw [hallocated₃, hallocated₂]; exact hlength⟩
  rw [loadSegment_eq elf cr3 st hmemsz (by omega), hmap, Option.bind_some, hcopy, Option.bind_some,
    hzero]

/-- An image of one segment. -/
theorem mapElf_single {elf : ElfImage} {ph : ElfProgram} (hphnum : elf.phnum = 1)
    (hprogram : elf.program 0 = ph) (hload : ph.type = 1) (hpos : 0 < ph.vaddr + ph.memsz)
    (hend : ph.vaddr + ph.memsz < 0x10000000000000000) : mapElf st cr3 elf =
      (loadSegment elf cr3 st ph).map fun st => (st, UInt32.ofNat (ph.vaddr + ph.memsz)) := by
  rw [mapElf, hphnum, mapPrograms, mapPrograms, Option.bind_some]
  simp only [hprogram, if_pos hload, add64_eq hend, UInt32.toNat_zero, gt_iff_lt, if_pos hpos]

end Loading

end BayosKernel
