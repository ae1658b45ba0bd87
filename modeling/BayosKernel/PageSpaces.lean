import BayosKernel.PageWalks

/-!
Regions, and runs of the calls on any number of address spaces: every frame
that a table refers to is allocated and has one owner.
-/

namespace BayosKernel

open Foundation

/-- Two loops over the same pages whose bodies keep a relation. -/
theorem forPages_lockstep {σ τ : Type} {R : Nat → σ → τ → Prop} {body : Nat → σ → Option σ}
    {body' : Nat → τ → Option τ} {stop : Nat} (hstop : stop ≤ 0x800000000000)
    (hbody : ∀ va s s' t, R va s t → va < stop → body va s = some s' →
      ∃ t', body' va t = some t' ∧ R (va + 0x1000) s' t')
    {fuel va : Nat} {s s' : σ} {t : τ} (h : R va s t)
    (hrun : forPages body stop fuel va s = some s') :
    ∃ va' t', stop ≤ va' ∧ forPages body' stop fuel va t = some t' ∧ R va' s' t' := by
  induction fuel generalizing va s t with
  | zero => cases hrun
  | succ fuel ih =>
      rw [forPages] at hrun ⊢
      by_cases hlt : va < stop
      · rw [if_pos hlt] at hrun ⊢
        obtain ⟨s₁, hs₁, hrun⟩ := Option.bind_eq_some_iff.mp hrun
        obtain ⟨t₁, ht₁, hnext⟩ := hbody va s s₁ t h hlt hs₁
        have hadd : add64 va 0x1000 = va + 0x1000 := by
          unfold add64
          omega
        rw [hadd] at hrun ⊢
        rw [ht₁]
        exact ih hnext hrun
      · rw [if_neg hlt] at hrun ⊢
        cases hrun
        exact ⟨va, t, by omega, rfl, h⟩

theorem forPages_invariant {σ : Type} {I : Nat → σ → Prop} {body : Nat → σ → Option σ}
    {stop : Nat} (hstop : stop ≤ 0x800000000000)
    (hbody : ∀ va s s', I va s → va < stop → body va s = some s' → I (va + 0x1000) s')
    {fuel va : Nat} {s s' : σ} (h : I va s) (hrun : forPages body stop fuel va s = some s') :
    ∃ va', stop ≤ va' ∧ I va' s' := by
  have hstep : ∀ va s s' (t : Unit), I va s → va < stop → body va s = some s' →
      ∃ t' : Unit, some t = some t' ∧ I (va + 0x1000) s' :=
    fun va s s' t hI hlt hs => ⟨t, rfl, hbody va s s' hI hlt hs⟩
  obtain ⟨va', -, hle, -, hI⟩ := forPages_lockstep (t := ()) hstop hstep h hrun
  exact ⟨va', hle, hI⟩

theorem pageRoundDown_aligned (a : Nat) : pageRoundDown a % 0x1000 = 0 := by
  have hmask : a &&& 0xfffffffffffff000 = a % 2 ^ 64 &&& 0xfffffffffffff000 := by
    rw [← Nat.and_two_pow_sub_one_eq_mod a 64, Nat.and_assoc]
    rfl
  rw [pageRoundDown, hmask, BitField.and_pageMask (by omega)]
  omega

theorem pageRoundDown_eq {a : Nat} (ha : a < 0x10000000000000000) :
    pageRoundDown a = a / 0x1000 * 0x1000 := by
  rw [pageRoundDown, BitField.and_pageMask ha]
  omega

/-- The pages of a region, by their first addresses. -/
def InRegion (start stop va : Nat) : Prop := start ≤ va ∧ va < stop ∧ va % 0x1000 = 0

/-- The page `p` is mapped in the region. -/
def MappedIn (own : Nat → Option Role) (cr3 start stop p : Nat) : Prop :=
  ∃ va, InRegion start stop va ∧ Maps own cr3 va p

theorem MappedIn.owned {own : Nat → Option Role} {cr3 start stop p : Nat} {r : Role}
    (h : MappedIn own cr3 start stop p) (hp : own p = some r) : r.height = 0 := by
  obtain ⟨va, -, hmaps⟩ := h
  obtain ⟨pt, i, howned⟩ := hmaps.owned
  rw [hp] at howned
  cases howned
  rfl

/-- What `allocate_region` does: every page of the region is mapped, what was
not mapped before to a fresh page. -/
structure Allocates (sites : List Site) (st st' : PageState) (own own' : Nat → Option Role)
    (cr3 start stop : Nat) : Prop where
  grows : Grows sites st st' own own'
  mapped : ∀ va, InRegion start stop va → ∃ c, Maps own' cr3 va c
  leaves : ∀ d q, own' d = some q → q.height = 0 → own d = some q ∨
    d ∉ st.allocated ∧ MappedIn own' cr3 start stop d

/-- What `free_region` does: the pages of the region are given back. -/
structure Frees (sites : List Site) (st st' : PageState) (own own' : Nat → Option Role)
    (cr3 start stop : Nat) : Prop where
  areas : st'.areas = st.areas
  allocated : ∀ p, p ∈ st'.allocated ↔
    p ∈ st.allocated ∧ ¬MappedIn own cr3 start stop p
  owned : ∀ d q, own' d = some q ↔
    own d = some q ∧ ¬MappedIn own cr3 start stop d
  tables : ∀ t r, own t = some r → 1 < r.height → ∀ i < 512,
    entry st'.mem t i = entry st.mem t i
  data : ∀ p, Frame sites p → (∀ r, own p = some r → r.height = 0) →
    ∀ x, p ≤ x → x < p + 0x1000 → st'.mem x = st.mem x

theorem mappedIn_succ (own : Nat → Option Role) (cr3 : Nat) {first va : Nat} (hle : first ≤ va)
    (halign : va % 0x1000 = 0) (p : Nat) : MappedIn own cr3 first (va + 0x1000) p ↔
      MappedIn own cr3 first va p ∨ Maps own cr3 va p := by
  constructor
  · rintro ⟨va', ⟨hle', hlt', ha⟩, hmaps⟩
    by_cases hlast : va' = va
    · exact Or.inr (hlast ▸ hmaps)
    · exact Or.inl ⟨va', ⟨hle', by omega, ha⟩, hmaps⟩
  · rintro (⟨va', ⟨hle', hlt', ha⟩, hmaps⟩ | hmaps)
    · exact ⟨va', ⟨hle', by omega, ha⟩, hmaps⟩
    · exact ⟨va, ⟨hle, by omega, halign⟩, hmaps⟩

theorem Allocates.refl {sites : List Site} (st : PageState) (own : Nat → Option Role)
    (cr3 first : Nat) : Allocates sites st st own own cr3 first first := by
  refine ⟨Grows.refl st own, fun va hva => ?_, fun d q hd _ => Or.inl hd⟩
  have := hva.1
  have := hva.2.1
  omega

theorem Frees.refl {sites : List Site} (st : PageState) (own : Nat → Option Role)
    (cr3 first : Nat) : Frees sites st st own own cr3 first first := by
  have hempty : ∀ p, ¬MappedIn own cr3 first first p := by
    rintro p ⟨va, ⟨hle, hlt, -⟩, -⟩
    omega
  refine ⟨rfl, fun p => ?_, fun d q => ?_, fun _ _ _ _ _ _ => rfl, fun _ _ _ _ _ _ => rfl⟩
  · simp [hempty p]
  · simp [hempty d]

theorem InRegion.to_stop {start stop va va' : Nat} (hin : InRegion start va va')
    (hva : va % 0x1000 = 0 ∧ (va = start ∨ va < stop + 0x1000)) : InRegion start stop va' := by
  obtain ⟨hle, hlt, halign⟩ := hin
  exact ⟨hle, by omega, halign⟩

/-- The last page may reach over the end of the region. -/
theorem Allocates.to_stop {sites : List Site} {st st' : PageState} {own own' : Nat → Option Role}
    {cr3 first va stop : Nat} (hall : Allocates sites st st' own own' cr3 first va)
    (hle : stop ≤ va) (hva : va % 0x1000 = 0 ∧ (va = first ∨ va < stop + 0x1000)) :
    Allocates sites st st' own own' cr3 first stop := by
  refine ⟨hall.grows, fun va' hin => hall.mapped va' ⟨hin.1, by have := hin.2.1; omega, hin.2.2⟩,
    fun d q hd hq => (hall.leaves d q hd hq).imp_right fun hnew => ⟨hnew.1, ?_⟩⟩
  obtain ⟨va', hin, hmaps⟩ := hnew.2
  exact ⟨va', hin.to_stop hva, hmaps⟩

theorem Frees.to_stop {sites : List Site} {st st' : PageState} {own own' : Nat → Option Role}
    {cr3 first va stop : Nat} (hfrees : Frees sites st st' own own' cr3 first va)
    (hle : stop ≤ va) (hva : va % 0x1000 = 0 ∧ (va = first ∨ va < stop + 0x1000)) :
    Frees sites st st' own own' cr3 first stop := by
  have hregion : ∀ va', InRegion first va va' ↔ InRegion first stop va' := by
    intro va'
    simp only [InRegion]
    omega
  refine ⟨hfrees.areas, ?_, ?_, hfrees.tables, hfrees.data⟩
  · simpa only [MappedIn, hregion] using hfrees.allocated
  · simpa only [MappedIn, hregion] using hfrees.owned

namespace TableInv

variable {st st' : PageState} {sites : List Site} {roots : List Nat} {own : Nat → Option Role}
  {fuel cr3 start stop flags : Nat}

/-- One more page of the region. -/
theorem allocates_step {s s' twin : PageState} {own₁ : Nat → Option Role} {before : List Nat}
    {first va : Nat} (hphys : Physical sites) (hroot : cr3 ∈ roots) (hflags : PageFlags flags)
    (hva : first ≤ va ∧ va % 0x1000 = 0 ∧ va < 0x800000000000) (hpages₁ : PageInv s sites)
    (h₁ : TableInv sites s roots own₁) (hall : Allocates sites st s own own₁ cr3 first va)
    (hlike : Alike sites before own₁ s twin) (hmap : s.mapMemoryPage cr3 va flags = some s') :
    ∃ twin', twin.mapMemoryPage cr3 va flags = some twin' ∧ ∃ own₂, PageInv s' sites ∧
      TableInv sites s' roots own₂ ∧ Allocates sites st s' own own₂ cr3 first (va + 0x1000) ∧
      Alike sites before own₂ s' twin' := by
  obtain ⟨own₂, leaf, twin', hpages₂, h₂, hgrows, hpath, htwin, hlike'⟩ :=
    h₁.mapMemoryPage_lockstep hlike hpages₁ hphys hroot hva.2.2 hflags hmap
  have hold : ∀ d q, own₁ d = some q → q.height = 0 → own d = some q ∨
      d ∉ st.allocated ∧ MappedIn own₂ cr3 first (va + 0x1000) d := by
    intro d q hd hq
    rcases hall.leaves d q hd hq with hd | ⟨hfresh, va', ⟨hle, hlt', ha⟩, hmaps⟩
    · exact Or.inl hd
    · exact Or.inr ⟨hfresh, va', ⟨hle, by omega, ha⟩, Reaches.mono hmaps hgrows.keeps⟩
  refine ⟨twin', htwin, own₂, hpages₂, h₂, ⟨hall.grows.trans hgrows, fun va' ⟨hle, hlt', ha⟩ => ?_,
    fun d q hd hq => ?_⟩, hlike'⟩
  · by_cases hlast : va' = va
    · exact ⟨leaf, hlast ▸ hpath.reaches⟩
    · obtain ⟨c, hc⟩ := hall.mapped va' ⟨hle, by omega, ha⟩
      exact ⟨c, Reaches.mono hc hgrows.keeps⟩
  · rcases hpath.leaves d q hd hq with hd | rfl
    · exact hold d q hd hq
    · rcases hpath.outcome with ⟨-, rfl⟩ | hfresh
      · exact hold d q hd hq
      · exact Or.inr ⟨fun hmem => hfresh (hall.grows.allocated d hmem), va,
          ⟨by omega, by omega, by omega⟩, hpath.reaches⟩

/-- `allocate_region` on a state and its twin. -/
theorem allocateRegion_lockstep {before : List Nat} {twin : PageState}
    (hlike : Alike sites before own st twin) (h : TableInv sites st roots own)
    (hpages : PageInv st sites) (hphys : Physical sites) (hroot : cr3 ∈ roots)
    (hstop : stop ≤ 0x800000000000) (hflags : PageFlags flags)
    (hrun : st.allocateRegion fuel cr3 start stop flags = some st') :
    ∃ twin', twin.allocateRegion fuel cr3 start stop flags = some twin' ∧ ∃ own',
      PageInv st' sites ∧ TableInv sites st' roots own' ∧
      Allocates sites st st' own own' cr3 (pageRoundDown start) stop ∧
      Alike sites before own' st' twin' := by
  have halign := pageRoundDown_aligned start
  rw [PageState.allocateRegion] at hrun ⊢
  generalize pageRoundDown start = first at halign hrun
  let R : Nat → PageState → PageState → Prop := fun va s t =>
    (va % 0x1000 = 0 ∧ first ≤ va ∧ (va = first ∨ va < stop + 0x1000)) ∧
      ∃ own', PageInv s sites ∧ TableInv sites s roots own' ∧
        Allocates sites st s own own' cr3 first va ∧ Alike sites before own' s t
  have hbody : ∀ va s s' t, R va s t → va < stop → s.mapMemoryPage cr3 va flags = some s' →
      ∃ t', t.mapMemoryPage cr3 va flags = some t' ∧ R (va + 0x1000) s' t' := by
    rintro va s s' t ⟨hva, own₁, hpages₁, h₁, hall, hlike₁⟩ hlt hmap
    obtain ⟨t', ht', hnext⟩ := allocates_step hphys hroot hflags ⟨hva.2.1, hva.1, by omega⟩ hpages₁
      h₁ hall hlike₁ hmap
    exact ⟨t', ht', by omega, hnext⟩
  have hstart : R first st twin :=
    ⟨by omega, own, hpages, h, Allocates.refl st own cr3 first, hlike⟩
  obtain ⟨va, twin', hle, htwin, hva, own', hpages', h', hall, hlike'⟩ :=
    forPages_lockstep hstop hbody hstart hrun
  exact ⟨twin', htwin, own', hpages', h', hall.to_stop hle ⟨hva.1, hva.2.2⟩, hlike'⟩

theorem allocateRegion (h : TableInv sites st roots own) (hpages : PageInv st sites)
    (hphys : Physical sites) (hroot : cr3 ∈ roots) (hstop : stop ≤ 0x800000000000)
    (hflags : PageFlags flags) (hrun : st.allocateRegion fuel cr3 start stop flags = some st') :
    ∃ own', PageInv st' sites ∧ TableInv sites st' roots own' ∧
      Allocates sites st st' own own' cr3 (pageRoundDown start) stop := by
  obtain ⟨-, -, own', hpages', h', hall, -⟩ := h.allocateRegion_lockstep
    (Alike.refl sites [] own st) hpages hphys hroot hstop hflags hrun
  exact ⟨own', hpages', h', hall⟩

/-- One more page given back. -/
theorem frees_step (h : TableInv sites st roots own) (hpages : PageInv st sites)
    (hphys : Physical sites) (hroot : cr3 ∈ roots) {s : PageState} {own₁ : Nat → Option Role}
    {first va : Nat} (hva : first ≤ va ∧ va % 0x1000 = 0 ∧ va < 0x800000000000)
    (hpages₁ : PageInv s sites) (h₁ : TableInv sites s roots own₁)
    (hfrees : Frees sites st s own own₁ cr3 first va) :
    ∃ own₂, PageInv (s.freeRegionPage cr3 va) sites ∧
      TableInv sites (s.freeRegionPage cr3 va) roots own₂ ∧
      Frees sites st (s.freeRegionPage cr3 va) own own₂ cr3 first (va + 0x1000) := by
  have hregion := mappedIn_succ own cr3 hva.1 hva.2.1
  have hkeeps : ∀ d q, own₁ d = some q → own d = some q :=
    fun d q hd => ((hfrees.owned d q).mp hd).1
  rcases h₁.freeRegionPage hpages₁ hphys hroot hva.2.2 with
    ⟨c, hmaps, hpages₂, h₂, hdrops⟩ | ⟨heq, hnone⟩
  · have hmaps' := hmaps.mono hkeeps
    obtain ⟨pt, i, hc⟩ := hmaps.owned
    have hthis : ∀ p, Maps own cr3 va p ↔ p = c := fun p =>
      ⟨fun hp => Maps.unique h hpages hp hmaps', fun hp => hp ▸ hmaps'⟩
    simp only [hthis] at hregion
    refine ⟨_, hpages₂, h₂, hdrops.areas.trans hfrees.areas, fun p => ?_, fun d q => ?_,
      fun t r ht hr j hj => ?_, fun p hp hdata x hle hlt => ?_⟩
    · rw [hdrops.allocated, hpages₁.nodup.mem_erase_iff, hfrees.allocated p, hregion]
      tauto
    · rw [hregion]
      by_cases hdc : d = c
      · rw [hdc, Function.update_self]
        simp
      · rw [Function.update_of_ne hdc, hfrees.owned]
        tauto
    · rw [hdrops.entries t r ?_ (by omega) j hj ?_, hfrees.tables t r ht hr j hj]
      · refine (hfrees.owned t r).mpr ⟨ht, fun hin => ?_⟩
        have := hin.owned ht
        omega
      · intro hc'
        obtain ⟨q, -, hparent, hheight, -⟩ := h₁.linked c _ hc' (by simp)
        have := hkeeps t q hparent
        rw [ht] at this
        cases this
        simp only at hheight
        omega
    · rw [hdrops.data p hp (fun r hr => hdata r (hkeeps p r hr)) x hle hlt,
        hfrees.data p hp hdata x hle hlt]
  · have hthis : ∀ p, Maps own cr3 va p → MappedIn own cr3 first va p := by
      intro p hmaps
      by_contra hout
      refine hnone p (hmaps.transfer (fun d r hd hr => ?_) fun r hr => ?_)
      · refine (hfrees.owned d r).mpr ⟨hd, fun hin => ?_⟩
        have := hin.owned hd
        omega
      · exact (hfrees.owned p r).mpr ⟨hr, hout⟩
    rw [heq]
    refine ⟨own₁, hpages₁, h₁, hfrees.areas, fun p => ?_, fun d q => ?_, hfrees.tables,
      hfrees.data⟩
    · rw [hfrees.allocated, hregion, or_iff_left_of_imp (hthis p)]
    · rw [hfrees.owned, hregion, or_iff_left_of_imp (hthis d)]

theorem freeRegion (h : TableInv sites st roots own) (hpages : PageInv st sites)
    (hphys : Physical sites) (hroot : cr3 ∈ roots) (hstop : stop ≤ 0x800000000000)
    (hrun : st.freeRegion fuel cr3 start stop = some st') :
    ∃ own', PageInv st' sites ∧ TableInv sites st' roots own' ∧
      Frees sites st st' own own' cr3 (pageRoundDown start) stop := by
  have halign := pageRoundDown_aligned start
  rw [PageState.freeRegion] at hrun
  generalize pageRoundDown start = first at halign hrun
  let I : Nat → PageState → Prop := fun va s =>
    (va % 0x1000 = 0 ∧ first ≤ va ∧ (va = first ∨ va < stop + 0x1000)) ∧
      ∃ own', PageInv s sites ∧ TableInv sites s roots own' ∧ Frees sites st s own own' cr3 first va
  have hbody : ∀ va s s', I va s → va < stop → some (s.freeRegionPage cr3 va) = some s' →
      I (va + 0x1000) s' := by
    rintro va s s' ⟨hva, own₁, hpages₁, h₁, hfrees⟩ hlt hstep
    cases hstep
    exact ⟨by omega, h.frees_step hpages hphys hroot ⟨hva.2.1, hva.1, by omega⟩ hpages₁ h₁ hfrees⟩
  have hstart : I first st := ⟨by omega, own, hpages, h, Frees.refl st own cr3 first⟩
  obtain ⟨va, hle, hva, own', hpages', h', hfrees⟩ :=
    forPages_invariant hstop hbody hstart hrun
  exact ⟨own', hpages', h', hfrees.to_stop hle (by omega)⟩

end TableInv

/-- A valid page allocator below 2^52, and address spaces with empty user halves,
whose PML4s it handed out or does not manage. -/
structure SpaceInit (sites : List Site) (roots : List Nat) (st : PageState) : Prop where
  pages : PageInv st sites
  physical : Physical sites
  held : ∀ t ∈ roots, t ∈ st.allocated ∨ Unmanaged sites t
  empty : ∀ t ∈ roots, ∀ i < 256, entry st.mem t i = 0

/-- Pages handed out by a fresh allocator over a memory that is zero. -/
theorem SpaceInit.of_start {fuel n : Nat} {memmap : List MemmapEntry} {m : ByteMemory}
    {areas : List Nat} {st : PageState} (hmap : MemmapOk fuel memmap)
    (hphys : ∀ e ∈ memmap, e.Gives → e.base + e.length ≤ 0x10000000000000)
    (hinit : bitmapAllocatorInit fuel memmap (fun _ => 0) = some (m, areas))
    (hrun : pageMachine.exec ⟨areas, m, []⟩ (List.replicate n .allocate) = some st) :
    ∃ sites, SpaceInit sites st.allocated st := by
  obtain ⟨sites, hfresh, hplace, hframe⟩ := bitmapAllocatorInit_fresh hmap hinit
  let I : PageState → Prop := fun st => PageInv st sites ∧
    ∀ x, (∀ s ∈ sites, x < s.base ∨ s.first ≤ x) → st.mem x = 0
  have hstep : ∀ st a st', I st → a = .allocate → pageMachine.step st a = some st' → I st' := by
    rintro st a st' ⟨hinv, hzero⟩ rfl hstep
    obtain ⟨hinv', hkeep⟩ := hinv.allocate_step hstep
    exact ⟨hinv', fun x hx => (hkeep x hx).trans (hzero x hx)⟩
  obtain ⟨hinv, hzero⟩ : I st := pageMachine.exec_invariant (C := fun _ a => a = .allocate) hstep
    ⟨PageInv.of_fresh hfresh, hframe⟩
    (pageMachine.meets_of_mem _ _ fun a ha _ => List.eq_of_mem_replicate ha) hrun
  refine ⟨sites, hinv, fun s hs => ?_, fun t ht => Or.inl ht, fun t ht i hi => ?_⟩
  · obtain ⟨e, he, hgives, hstop⟩ := hplace s hs
    have := hphys e he hgives
    omega
  · refine ByteMemory.load_zero fun x hle hlt => hzero x fun s hs => ?_
    simp only [entryAddr] at hle hlt
    exact hinv.page_outside ht (by omega) (by omega) hs

/-- Fifteen pages from 0x101000 on, of which the first `n` become PML4s. -/
def oneEntry : List MemmapEntry := [⟨0x100000, 0x10000, 0, by decide⟩]

def startSpaces (n : Nat) : Option PageState :=
  (bitmapAllocatorInit 3 oneEntry fun _ => 0).bind fun (m, areas) =>
    pageMachine.exec ⟨areas, m, []⟩ (List.replicate n .allocate)

theorem oneEntry_ok : MemmapOk 3 oneEntry := by
  refine ⟨by decide, by decide, by decide, ?_⟩
  intro e he _ pages hpages
  have hsplit : ∀ e ∈ oneEntry, (e.split 3).all fun r => r.2 ≤ 1000000 := by decide
  have hall := hsplit e he
  rw [hpages] at hall
  simpa using hall

theorem startSpaces_init {n : Nat} {st : PageState} (hstart : startSpaces n = some st) :
    ∃ sites, SpaceInit sites st.allocated st := by
  obtain ⟨⟨m, areas⟩, hinit, hrun⟩ := Option.bind_eq_some_iff.mp hstart
  exact SpaceInit.of_start oneEntry_ok (by decide) hinit hrun

/-- Calls on one of the address spaces, below 2^47 and with the flags of the kernel. -/
def SpaceAction.Valid (roots : List Nat) : SpaceAction → Prop
  | .map cr3 virt flags => cr3 ∈ roots ∧ virt < 0x800000000000 ∧ (flags = 3 ∨ flags = 7)
  | .allocateRegion cr3 _ stop flags =>
      cr3 ∈ roots ∧ stop ≤ 0x800000000000 ∧ (flags = 3 ∨ flags = 7)
  | .freeRegion cr3 _ stop => cr3 ∈ roots ∧ stop ≤ 0x800000000000
  | .write cr3 va _ => cr3 ∈ roots ∧ va < 0x800000000000

instance (roots : List Nat) : DecidablePred (SpaceAction.Valid roots) := fun a => by
  cases a <;> unfold SpaceAction.Valid <;> infer_instance

theorem PageFlags.of_kernel {flags : Nat} (h : flags = 3 ∨ flags = 7) : PageFlags flags := by
  unfold PageFlags
  omega

/-- What every call keeps. -/
structure SpaceInv (sites : List Site) (roots : List Nat) (st : PageState) : Prop where
  pages : PageInv st sites
  tables : ∃ own, TableInv sites st roots own

theorem SpaceInit.inv {sites : List Site} {roots : List Nat} {st : PageState}
    (h : SpaceInit sites roots st) : SpaceInv sites roots st := by
  let own : Nat → Option Role := fun t => if t ∈ roots then some ⟨4, 0, 0⟩ else none
  have howned : ∀ t r, own t = some r → t ∈ roots ∧ r = ⟨4, 0, 0⟩ := by
    intro t r ht
    simp only [own, Option.ite_none_right_eq_some, Option.some.injEq] at ht
    exact ⟨ht.1, ht.2.symm⟩
  refine ⟨h.pages, own, fun t ht => ⟨⟨4, 0, 0⟩, if_pos ht, rfl⟩, fun t r ht => ?_,
    fun t r ht _ i hi => ?_, fun c r hc hlt => ?_⟩
  · obtain ⟨hroot, rfl⟩ := howned t r ht
    exact (h.held t hroot).imp_right fun hboot => ⟨rfl, hboot⟩
  · obtain ⟨hroot, rfl⟩ := howned t r ht
    exact Or.inl (h.empty t hroot i hi)
  · obtain ⟨-, rfl⟩ := howned c r hc
    simp at hlt

theorem SpaceInv.step {sites : List Site} {roots : List Nat} {fuel : Nat} {st st' : PageState}
    {a : SpaceAction} (hphys : Physical sites) (h : SpaceInv sites roots st)
    (hvalid : a.Valid roots) (hstep : spaceStep fuel st a = some st') :
    SpaceInv sites roots st' := by
  obtain ⟨own, htables⟩ := h.tables
  cases a with
  | map cr3 virt flags =>
      obtain ⟨hroot, hvirt, hflags⟩ := hvalid
      obtain ⟨own', -, hpages', htables', -⟩ :=
        htables.mapMemoryPage h.pages hphys hroot hvirt (PageFlags.of_kernel hflags) hstep
      exact ⟨hpages', own', htables'⟩
  | allocateRegion cr3 start stop flags =>
      obtain ⟨hroot, hstop, hflags⟩ := hvalid
      obtain ⟨own', hpages', htables', -⟩ :=
        htables.allocateRegion h.pages hphys hroot hstop (PageFlags.of_kernel hflags) hstep
      exact ⟨hpages', own', htables'⟩
  | freeRegion cr3 start stop =>
      obtain ⟨hroot, hstop⟩ := hvalid
      obtain ⟨own', hpages', htables', -⟩ := htables.freeRegion h.pages hphys hroot hstop hstep
      exact ⟨hpages', own', htables'⟩
  | write cr3 va v =>
      obtain ⟨hroot, hva⟩ := hvalid
      obtain ⟨-, -, -, hpages', htables'⟩ := htables.write h.pages hphys hroot hva hstep
      exact ⟨hpages', own, htables'⟩

theorem spaceMachine_inv {sites : List Site} {roots : List Nat} {fuel : Nat}
    {st₀ st : PageState} {run : List SpaceAction} (hinit : SpaceInit sites roots st₀)
    (hvalid : ∀ a ∈ run, a.Valid roots) (hrun : (spaceMachine fuel).exec st₀ run = some st) :
    SpaceInv sites roots st :=
  (spaceMachine fuel).exec_invariant (C := fun _ a => a.Valid roots)
    (fun _ _ _ h ha hstep => h.step hinit.physical ha hstep) hinit.inv
    ((spaceMachine fuel).meets_of_mem st₀ run fun a ha _ => hvalid a ha) hrun

end BayosKernel
