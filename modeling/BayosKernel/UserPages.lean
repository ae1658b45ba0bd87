import BayosKernel.PageSpaces

/-!
The pages of a user half as `walk` finds them, how the regions of one address
space look from another, and a bound on the number of pages.
-/

namespace BayosKernel

open Foundation

/-- The address is mapped to the page `p`. -/
def PageAt (m : ByteMemory) (cr3 va p : Nat) : Prop :=
  ∃ pte, walk m cr3 va = some pte ∧ m.load 8 pte &&& 1 = 1 ∧ pteAddr (m.load 8 pte) = p

namespace TableInv

variable {st st' : PageState} {sites : List Site} {roots : List Nat} {own own' : Nat → Option Role}
  {cr3 va p : Nat}

/-- `walk` finds a present entry exactly on the paths of the mapped pages. -/
theorem leaf_cases (h : TableInv sites st roots own) (hpages : PageInv st sites)
    (hphys : Physical sites) (hroot : cr3 ∈ roots) (hva : va < 0x800000000000) :
    (∃ c pte, Maps own cr3 va c ∧ walk st.mem cr3 va = some pte ∧ st.mem.load 8 pte &&& 1 = 1 ∧
        pteAddr (st.mem.load 8 pte) = c) ∨
      (∀ pte, walk st.mem cr3 va = some pte → st.mem.load 8 pte &&& 1 = 0) ∧
        ∀ c, ¬Maps own cr3 va c := by
  rcases h.walk_cases hpages hphys hroot hva with
    ⟨c, pt, f, hmaps, hc, hwalk, hf, he⟩ | ⟨hzero, hnone⟩
  · obtain ⟨-, hone, -, haddr, -⟩ :=
      word_fields (h.frame hpages hc).aligned (h.lt hpages hphys hc) hf
    have hload : st.mem.load 8 (entryAddr pt (ptIndex va 0)) = c + f := he
    exact Or.inl ⟨c, _, hmaps, hwalk, by rw [hload, hone], by rw [hload, haddr]⟩
  · exact Or.inr ⟨fun pte hpte => by simp [hzero pte hpte], hnone⟩

theorem pageAt_iff (h : TableInv sites st roots own) (hpages : PageInv st sites)
    (hphys : Physical sites) (hroot : cr3 ∈ roots) (hva : va < 0x800000000000) :
    PageAt st.mem cr3 va p ↔ Maps own cr3 va p := by
  rcases h.leaf_cases hpages hphys hroot hva with
    ⟨c, pte, hmaps, hwalk, hone, haddr⟩ | ⟨habsent, hnone⟩
  · constructor
    · rintro ⟨pte', hwalk', -, rfl⟩
      rw [hwalk] at hwalk'
      cases hwalk'
      rwa [haddr]
    · intro hmaps'
      exact ⟨pte, hwalk, hone, haddr.trans (Maps.unique h hpages hmaps hmaps')⟩
  · constructor
    · rintro ⟨pte, hwalk, hone, -⟩
      rw [habsent pte hwalk] at hone
      cases hone
    · intro hmaps
      exact absurd hmaps (hnone p)

/-- A change inside a page of data. -/
theorem of_data (h : TableInv sites st roots own) (hpages : PageInv st sites) {q : Nat} {r : Role}
    (hq : own q = some r) (hr : r.height = 0) (m' : ByteMemory)
    (hother : ∀ x, x < q ∨ q + 0x1000 ≤ x → m' x = st.mem x) :
    PageInv { st with mem := m' } sites ∧ TableInv sites { st with mem := m' } roots own := by
  have hqa := (h.frame hpages hq).aligned
  have hentries : ∀ t r, own t = some r → 0 < r.height → ∀ j < 512,
      entry m' t j = entry st.mem t j := by
    intro t s ht hs j hj
    have hta := (h.frame hpages ht).aligned
    have hne : t ≠ q := by
      rintro rfl
      rw [hq] at ht
      cases ht
      omega
    exact entry_congr hj fun x _ _ => hother x (by omega)
  refine ⟨hpages.of_pages fun x hx => hother x (hx q (h.frame hpages hq)), h.roots, h.owned,
    fun t r ht hr j hj => ?_, fun d s hd hs => ?_⟩
  · simp only [hentries t r ht hr j (Nat.lt_of_lt_of_le hj r.width_le)]
    exact h.entries t r ht hr j hj
  · obtain ⟨s', g, hparent, hheight, hindex, hg, heq⟩ := h.linked d s hd hs
    refine ⟨s', g, hparent, hheight, hindex, hg, ?_⟩
    rw [← heq]
    exact hentries _ s' hparent (by omega) _ (Nat.lt_of_lt_of_le hindex s'.width_le)

end TableInv

section Regions

variable {st st' : PageState} {sites : List Site} {roots : List Nat} {own own' : Nat → Option Role}
  {cr3 start stop t va c : Nat}

/-- The pages that `allocate_region` adds to an address space lie in the region. -/
theorem Allocates.maps_cases (hall : Allocates sites st st' own own' cr3 start stop)
    (h : TableInv sites st roots own) (hmaps : Maps own' t va c) (hva : va < 0x800000000000)
    (hstop : stop ≤ 0x800000000000) :
    Maps own t va c ∨
      t = cr3 ∧ c ∉ st.allocated ∧ InRegion start stop (va / 0x1000 * 0x1000) := by
  obtain ⟨pt, i, hc⟩ := hmaps.owned
  rcases hall.leaves c _ hc rfl with hold | ⟨hfresh, va', hin, hmaps'⟩
  · exact Or.inl (Reaches.back h hall.grows.keeps hmaps (by rw [pathIndices_length])
      (by simp [pathIndices]) hold).1
  · obtain ⟨rfl, hpage⟩ := hmaps.injective hmaps' (by omega) (by have := hin.2.1; omega)
    refine Or.inr ⟨rfl, hfresh, ?_⟩
    have hbase : va' / 0x1000 * 0x1000 = va' := by
      have := hin.2.2
      omega
    rw [hpage, hbase]
    exact hin

/-- Another address space stays as it is. -/
theorem Allocates.maps_other (hall : Allocates sites st st' own own' cr3 start stop)
    (h : TableInv sites st roots own) (hne : t ≠ cr3) (hva : va < 0x800000000000)
    (hstop : stop ≤ 0x800000000000) : Maps own' t va c ↔ Maps own t va c := by
  refine ⟨fun hmaps => ?_, fun hmaps => hmaps.mono hall.grows.keeps⟩
  exact (hall.maps_cases h hmaps hva hstop).resolve_right fun hnew => hne hnew.1

/-- `free_region` unmaps the pages of the region, and nothing else. -/
theorem Frees.maps_iff (hfrees : Frees sites st st' own own' cr3 start stop) :
    Maps own' t va c ↔ Maps own t va c ∧ ¬MappedIn own cr3 start stop c := by
  constructor
  · intro hmaps
    obtain ⟨pt, i, hc⟩ := hmaps.owned
    exact ⟨hmaps.mono fun d r hd => ((hfrees.owned d r).mp hd).1, ((hfrees.owned c _).mp hc).2⟩
  · rintro ⟨hmaps, hout⟩
    refine hmaps.transfer (fun d r hd hr => (hfrees.owned d r).mpr ⟨hd, fun hin => ?_⟩)
      fun r hr => (hfrees.owned c r).mpr ⟨hr, hout⟩
    have := hin.owned hd
    omega

/-- A page of an address space is mapped in a region if its address lies there. -/
theorem mappedIn_iff (hmaps : Maps own t va c) (hva : va < 0x800000000000)
    (hstop : stop ≤ 0x800000000000) : MappedIn own cr3 start stop c ↔
      t = cr3 ∧ InRegion start stop (va / 0x1000 * 0x1000) := by
  constructor
  · rintro ⟨va', hin, hmaps'⟩
    obtain ⟨rfl, hpage⟩ := hmaps.injective hmaps' (by omega) (by have := hin.2.1; omega)
    have hbase : va' / 0x1000 * 0x1000 = va' := by
      have := hin.2.2
      omega
    rw [hpage, hbase]
    exact ⟨rfl, hin⟩
  · rintro ⟨rfl, hin⟩
    exact ⟨_, hin, Maps.page.mpr hmaps⟩

end Regions

section Counting

variable {st : PageState} {sites : List Site} {roots : List Nat} {own : Nat → Option Role}
  {cr3 start stop : Nat}

/-- No more pages are handed out than the areas have. -/
theorem PageInv.length_le (h : PageInv st sites) :
    st.allocated.length ≤ (sites.map Site.count).sum := by
  have hsubset : st.allocated ⊆ sites.flatMap fun s => (List.range s.count).map s.page := by
    intro p hp
    obtain ⟨s, hs, k, hk, rfl⟩ := h.pages p hp
    exact List.mem_flatMap.mpr ⟨s, hs, List.mem_map.mpr ⟨k, List.mem_range.mpr hk, rfl⟩⟩
  have hle := (h.nodup.subperm hsubset).length_le
  simpa only [List.length_flatMap, List.length_map, List.length_range] using hle

theorem count_sum_le (sites : List Site) : (sites.map Site.count).sum ≤ sites.length * 1000000 := by
  induction sites with
  | nil => exact Nat.le_refl 0
  | cons s rest ih =>
      have := s.small
      simp only [List.map_cons, List.sum_cons, List.length_cons]
      omega

/-- Mapped pages of an address space take one page of the allocator each. -/
theorem TableInv.pages_le (h : TableInv sites st roots own) {n : Nat}
    (halign : start % 0x1000 = 0) (hbound : start + n * 0x1000 ≤ 0x800000000000)
    (hmapped : ∀ k < n, ∃ c, Maps own cr3 (start + k * 0x1000) c) : n ≤ st.allocated.length := by
  choose page hpage using fun k : Fin n => hmapped k k.isLt
  have hmem : ∀ k, page k ∈ st.allocated.toFinset := fun k => by
    obtain ⟨pt, i, hc⟩ := (hpage k).owned
    exact List.mem_toFinset.mpr (h.allocated hc (by simp))
  have hinj : Function.Injective fun k => (⟨page k, hmem k⟩ : st.allocated.toFinset) := by
    intro j k hjk
    have hj := hpage j
    rw [Subtype.mk.inj hjk] at hj
    have hjlt := j.isLt
    have hklt := k.isLt
    have := ((hpage k).injective hj (by omega) (by omega)).2
    omega
  have hcard := Fintype.card_le_of_injective _ hinj
  rw [Fintype.card_fin, Fintype.card_coe] at hcard
  exact Nat.le_trans hcard st.allocated.toFinset_card_le

theorem TableInv.region_le (h : TableInv sites st roots own) (hpages : PageInv st sites)
    (hsites : sites.length ≤ 0x100) (halign : start % 0x1000 = 0) (hstop : stop ≤ 0x800000000000)
    (hmapped : ∀ va, InRegion start stop va → ∃ c, Maps own cr3 va c) :
    stop ≤ start + 256000001 * 0x1000 := by
  by_cases hempty : stop < start
  · omega
  have hpage : ∀ k < (stop - start) / 0x1000, ∃ c, Maps own cr3 (start + k * 0x1000) c :=
    fun k hk => hmapped _ ⟨by omega, by omega, by omega⟩
  have hcount := h.pages_le halign (by omega) hpage
  have := hpages.length_le
  have := count_sum_le sites
  omega

/-- A loop over pages also comes to the end of a part of its range. -/
theorem forPages_prefix {σ : Type} {body : Nat → σ → Option σ} {stop stop' fuel va : Nat}
    {s s' : σ} (hle : stop' ≤ stop) (hrun : forPages body stop fuel va s = some s') :
    ∃ s'', forPages body stop' fuel va s = some s'' := by
  induction fuel generalizing va s with
  | zero => cases hrun
  | succ fuel ih =>
      rw [forPages] at hrun ⊢
      by_cases hlt : va < stop'
      · rw [if_pos (Nat.lt_of_lt_of_le hlt hle)] at hrun
        obtain ⟨s₁, hbody, hrun⟩ := Option.bind_eq_some_iff.mp hrun
        rw [if_pos hlt, hbody]
        exact ih hrun
      · exact ⟨s, if_neg hlt⟩

/-- A region that the pages of all areas suffice for ends below 2^40 bytes. -/
theorem TableInv.allocateRegion_le {st' : PageState} {fuel flags : Nat}
    (h : TableInv sites st roots own) (hpages : PageInv st sites) (hphys : Physical sites)
    (hsites : sites.length ≤ 0x100) (hroot : cr3 ∈ roots) (hflags : PageFlags flags)
    (halign : start % 0x1000 = 0) (hstart : start ≤ 0x400000000000)
    (hrun : st.allocateRegion fuel cr3 start stop flags = some st') :
    stop ≤ start + 256000001 * 0x1000 := by
  by_contra hfar
  obtain ⟨st₁, hpart⟩ :=
    forPages_prefix (show start + 256000001 * 0x1000 + 1 ≤ stop by omega) hrun
  obtain ⟨own', hpages', h', hall⟩ :=
    h.allocateRegion hpages hphys hroot (by omega) hflags hpart
  have hround : pageRoundDown start = start := by
    rw [pageRoundDown_eq (by omega)]
    omega
  rw [hround] at hall
  have := h'.region_le hpages' hsites halign (by omega) hall.mapped
  omega

end Counting

end BayosKernel
