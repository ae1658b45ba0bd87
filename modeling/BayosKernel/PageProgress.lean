import BayosKernel.UserPages

/-!
The calls come back: `map_memory_page` and `allocate_region` when there are pages
left, `free_region` and the stores of a program to its pages in any case.
-/

namespace BayosKernel

open Foundation

/-- The number of pages of all areas. -/
def managedPages (sites : List Site) : Nat := (sites.map Site.count).sum

namespace PageInv

variable {st : PageState} {sites : List Site}

theorem pages_nodup (h : PageInv st sites) :
    (sites.flatMap fun s => (List.range s.count).map s.page).Nodup := by
  refine List.nodup_flatMap.mpr ⟨fun s _ => ?_, h.apart.imp fun {s t} hapart p hp hp' => ?_⟩
  · refine List.Nodup.map_on (fun j _ k _ hjk => ?_) List.nodup_range
    simp only [Site.page] at hjk
    omega
  · obtain ⟨k, hk, rfl⟩ := List.mem_map.mp hp
    obtain ⟨j, hj, heq⟩ := List.mem_map.mp hp'
    exact Site.page_ne hapart (List.mem_range.mp hk) (List.mem_range.mp hj) heq.symm

/-- `allocate_page` finds a page as long as not all are handed out. -/
theorem allocatePage_some (h : PageInv st sites)
    (hfree : st.allocated.length < managedPages sites) :
    ∃ m page, allocatePage st.mem st.areas = some (m, page) ∧ page ≠ NULL := by
  rw [h.places]
  rcases allocatePage_cases h.kept with ⟨-, hall⟩ | ⟨s, hs, k, hk, -, hsome⟩
  · have hsubset : (sites.flatMap fun s => (List.range s.count).map s.page) ⊆ st.allocated := by
      intro p hp
      obtain ⟨s, hs, hp⟩ := List.mem_flatMap.mp hp
      obtain ⟨k, hk, rfl⟩ := List.mem_map.mp hp
      have hk := List.mem_range.mp hk
      exact (h.marked s hs k hk).mp (hall s hs k hk)
    have hle := (h.pages_nodup.subperm hsubset).length_le
    simp only [List.length_flatMap, List.length_map, List.length_range] at hle
    exact absurd hfree (Nat.not_lt.mpr hle)
  · exact ⟨_, _, hsome, s.page_ne_null k⟩

theorem allocPageOrHalt_some (h : PageInv st sites)
    (hfree : st.allocated.length < managedPages sites) :
    ∃ st' f, st.allocPageOrHalt = some (st', f) ∧
      st'.allocated.length = st.allocated.length + 1 := by
  obtain ⟨m, page, hpage, hne⟩ := h.allocatePage_some hfree
  have hzero : ¬page = 0 := hne
  refine ⟨{ st with mem := m, allocated := page :: st.allocated }, page, ?_, rfl⟩
  simp only [PageState.allocPageOrHalt, hpage, if_neg hzero]

end PageInv

namespace TableInv

variable {st : PageState} {sites : List Site} {roots : List Nat} {own : Nat → Option Role}
  {cr3 va flags : Nat}

theorem ensureTable_some (hpages : PageInv st sites) (t i flags : Nat)
    (hfree : st.allocated.length < managedPages sites) :
    ∃ st' c, st.ensureTable t i flags = some (st', c) ∧
      st'.allocated.length ≤ st.allocated.length + 1 := by
  simp only [PageState.ensureTable]
  split
  · obtain ⟨st₁, frame, halloc, hlength⟩ := hpages.allocPageOrHalt_some hfree
    simp only [halloc]
    exact ⟨_, _, rfl, Nat.le_of_eq hlength⟩
  · exact ⟨_, _, rfl, Nat.le_succ _⟩

theorem ensurePage_some (hpages : PageInv st sites) (t i flags : Nat)
    (hfree : st.allocated.length < managedPages sites) :
    ∃ st', st.ensurePage t i flags = some st' ∧
      st'.allocated.length ≤ st.allocated.length + 1 := by
  simp only [PageState.ensurePage]
  split
  · obtain ⟨st₁, frame, halloc, hlength⟩ := hpages.allocPageOrHalt_some hfree
    simp only [halloc]
    exact ⟨_, rfl, Nat.le_of_eq hlength⟩
  · exact ⟨_, rfl, Nat.le_succ _⟩

/-- A path takes at most one page for each of its indices. -/
theorem mapPath_some {indices : List Nat} {t : Nat} {r : Role} (h : TableInv sites st roots own)
    (hpages : PageInv st sites) (hphys : Physical sites) (ht : own t = some r)
    (hheight : r.height = indices.length) (hle : r.height ≤ 4)
    (hfirst : ∀ i ∈ indices.head?, i < r.width) (hindices : ∀ i ∈ indices, i < 512)
    (hflags : PageFlags flags)
    (hfree : st.allocated.length + indices.length ≤ managedPages sites) :
    ∃ st', st.mapPath t flags indices = some st' ∧
      st'.allocated.length ≤ st.allocated.length + indices.length := by
  induction indices generalizing st own t r with
  | nil => exact ⟨st, rfl, Nat.le_refl _⟩
  | cons i rest ih =>
      simp only [List.length_cons] at hfree hheight ⊢
      cases rest with
      | nil =>
          exact ensurePage_some hpages t i flags (Nat.lt_of_lt_of_le (by simp) hfree)
      | cons j rest =>
          simp only [List.length_cons] at hfree hheight ih ⊢
          obtain ⟨st₁, c, hensure, hlength⟩ :=
            ensureTable_some hpages t i flags (by omega)
          obtain ⟨own₁, hpages₁, h₁, -, hc, -⟩ :=
            h.ensureTable hpages hphys ht (by omega) (hfirst i (by simp)) hflags hensure
          have hrest : ∀ k ∈ j :: rest, k < 512 := fun k hk => hindices k (by simp [hk])
          have hjwidth : ∀ k ∈ (j :: rest).head?, k < (⟨r.height - 1, t, i⟩ : Role).width :=
            Role.head_lt_width (by simp only; omega) hrest
          obtain ⟨st', hmap, hlength'⟩ := ih h₁ hpages₁ hc (by simp only; omega)
            (by simp only; omega) hjwidth hrest (by omega)
          refine ⟨st', ?_, by omega⟩
          rw [PageState.mapPath, hensure]
          exact hmap

theorem mapMemoryPage_some (h : TableInv sites st roots own) (hpages : PageInv st sites)
    (hphys : Physical sites) (hroot : cr3 ∈ roots) (hva : va < 0x800000000000)
    (hflags : PageFlags flags) (hfree : st.allocated.length + 4 ≤ managedPages sites) :
    ∃ st', st.mapMemoryPage cr3 va flags = some st' ∧
      st'.allocated.length ≤ st.allocated.length + 4 := by
  obtain ⟨r, hr, hheight, hfour, hfirst⟩ := h.root_width hroot hva
  have hlength := pathIndices_length va 3
  rw [PageState.mapMemoryPage_eq]
  have hpath := h.mapPath_some hpages hphys hr hheight (by omega) hfirst
    (fun i hi => pathIndices_lt hi) hflags (by rw [hlength]; exact hfree)
  rwa [hlength] at hpath

end TableInv

/-- A loop over pages comes to its end when its body always comes back and there
is fuel for every page. -/
theorem forPages_some {σ : Type} {I : Nat → σ → Prop} {body : Nat → σ → Option σ}
    {stop fuel va : Nat} {s : σ} (hstop : stop ≤ 0x800000000000)
    (hbody : ∀ va s, I va s → va < stop → ∃ s', body va s = some s' ∧ I (va + 0x1000) s')
    (h : I va s) (hfuel : stop ≤ va + fuel * 0x1000) :
    ∃ va' s', forPages body stop (fuel + 1) va s = some s' ∧ I va' s' := by
  induction fuel generalizing va s with
  | zero => exact ⟨va, s, if_neg (by omega), h⟩
  | succ fuel ih =>
      rw [forPages]
      by_cases hlt : va < stop
      · obtain ⟨s₁, hs₁, hnext⟩ := hbody va s h hlt
        have hadd : add64 va 0x1000 = va + 0x1000 := add64_eq (by omega)
        rw [if_pos hlt, hs₁, Option.bind_some, hadd]
        exact ih hnext (by omega)
      · exact ⟨va, s, if_neg hlt, h⟩

theorem PageState.freeRegion_some {st : PageState} {fuel cr3 start stop : Nat}
    (hstop : stop ≤ 0x800000000000) (hfuel : stop ≤ pageRoundDown start + fuel * 0x1000) :
    ∃ st', st.freeRegion (fuel + 1) cr3 start stop = some st' := by
  let I : Nat → PageState → Prop := fun _ _ => True
  have hbody : ∀ va s, I va s → va < stop → ∃ s', some (s.freeRegionPage cr3 va) = some s' ∧
      I (va + 0x1000) s' := fun va s _ _ => ⟨s.freeRegionPage cr3 va, rfl, trivial⟩
  obtain ⟨-, st', hrun, -⟩ := forPages_some (s := st) hstop hbody trivial hfuel
  exact ⟨st', hrun⟩

namespace TableInv

variable {st : PageState} {sites : List Site} {roots : List Nat} {own : Nat → Option Role}
  {cr3 va flags start stop : Nat}

theorem allocateRegion_some (h : TableInv sites st roots own) (hpages : PageInv st sites)
    (hphys : Physical sites) (hroot : cr3 ∈ roots) (hstop : stop ≤ 0x800000000000)
    (hflags : PageFlags flags) {n fuel : Nat} (hcount : stop ≤ pageRoundDown start + n * 0x1000)
    (hfuel : n ≤ fuel) (hfree : st.allocated.length + 4 * n ≤ managedPages sites) :
    ∃ st', st.allocateRegion (fuel + 1) cr3 start stop flags = some st' ∧
      st'.allocated.length ≤ st.allocated.length + 4 * n := by
  rw [PageState.allocateRegion]
  generalize pageRoundDown start = first at hcount
  have hfuel' : stop ≤ first + fuel * 0x1000 :=
    Nat.le_trans hcount (Nat.add_le_add_left (Nat.mul_le_mul_right _ hfuel) _)
  let I : Nat → PageState → Prop := fun va s => ∃ k ≤ n, va = first + k * 0x1000 ∧
    s.allocated.length ≤ st.allocated.length + 4 * k ∧
    ∃ own', PageInv s sites ∧ TableInv sites s roots own'
  have hbody : ∀ va s, I va s → va < stop → ∃ s', s.mapMemoryPage cr3 va flags = some s' ∧
      I (va + 0x1000) s' := by
    rintro va s ⟨k, hk, rfl, hlength, own', hpages', h'⟩ hlt
    have hmore : k < n := by omega
    have huser : first + k * 0x1000 < 0x800000000000 := by omega
    obtain ⟨s', hmap, hlength'⟩ := h'.mapMemoryPage_some hpages' hphys hroot huser hflags
      (show s.allocated.length + 4 ≤ managedPages sites by omega)
    obtain ⟨own'', -, hpages'', h'', -⟩ :=
      h'.mapMemoryPage hpages' hphys hroot huser hflags hmap
    exact ⟨s', hmap, k + 1, hmore, by omega, by omega, own'', hpages'', h''⟩
  have hstart : I first st := by
    refine ⟨0, Nat.zero_le n, ?_, ?_, own, hpages, h⟩
    · omega
    · omega
  obtain ⟨va, st', hrun, k, hk, -, hlength, -⟩ := forPages_some hstop hbody hstart hfuel'
  exact ⟨st', hrun, by omega⟩

theorem write_some (h : TableInv sites st roots own) (hpages : PageInv st sites)
    (hphys : Physical sites) (hroot : cr3 ∈ roots) (hva : va < 0x800000000000) {c : Nat}
    (hmaps : Maps own cr3 va c) (v : UInt8) :
    st.write cr3 va v =
      some { st with mem := Function.update st.mem (c + va % 0x1000) v } := by
  rcases h.leaf_cases hpages hphys hroot hva with
    ⟨c', pte, hmaps', hwalk, hone, haddr⟩ | ⟨-, hnone⟩
  · rw [Maps.unique h hpages hmaps hmaps']
    simp only [PageState.write, hwalk, hone, haddr]
    rfl
  · exact absurd hmaps (hnone c)

end TableInv

/-- A fresh allocator over a memory that is zero, and a PML4 below its areas. -/
theorem SpaceInit.of_boot {fuel t : Nat} {memmap : List MemmapEntry} {m : ByteMemory}
    {areas : List Nat} (hmap : MemmapOk fuel memmap)
    (hphys : ∀ e ∈ memmap, e.Gives → e.base + e.length ≤ 0x10000000000000)
    (hinit : bitmapAllocatorInit fuel memmap (fun _ => 0) = some (m, areas))
    (halign : t % 0x1000 = 0) (ht : t < 0x10000000000000) (hbelow : ∀ a ∈ areas, t + 0x1000 ≤ a) :
    ∃ sites, SpaceInit sites [t] ⟨areas, m, []⟩ ∧ FreshAreas m areas sites := by
  obtain ⟨sites, hfresh, hplace, hframe⟩ := bitmapAllocatorInit_fresh hmap hinit
  have hapart : ∀ s ∈ sites, t + 0x1000 ≤ s.base := by
    intro s hs
    refine hbelow s.base ?_
    rw [hfresh.places]
    exact List.mem_map_of_mem hs
  refine ⟨sites, ⟨PageInv.of_fresh hfresh, fun s hs => ?_, fun p hp => ?_, fun p hp i hi => ?_⟩,
    hfresh⟩
  · obtain ⟨e, he, hgives, hstop⟩ := hplace s hs
    exact Nat.le_trans hstop (hphys e he hgives)
  · rw [List.mem_singleton.mp hp]
    exact Or.inr ⟨halign, ht, fun s hs => Or.inl (hapart s hs)⟩
  · rw [List.mem_singleton.mp hp]
    refine ByteMemory.load_zero fun x hle hlt => hframe x fun s hs => Or.inl ?_
    have := hapart s hs
    simp only [entryAddr] at hle hlt
    omega

/-- An empty user half maps nothing. -/
theorem SpaceInit.not_maps {st : PageState} {sites : List Site} {roots : List Nat}
    {own : Nat → Option Role} {t va c : Nat} (hinit : SpaceInit sites roots st)
    (h : TableInv sites st roots own) (ht : t ∈ roots) (hva : va < 0x800000000000) :
    ¬Maps own t va c := fun hmaps =>
  Reaches.present h hmaps (by simp [pathIndices]) (hinit.empty t ht _ (ptIndex_user hva))

/-- An area of 0x3fff pages behind the PML4 of the boot loader at 0x1000. -/
def bootEntry : List MemmapEntry := [⟨0x100000, 0x4000000, 0, by decide⟩]

theorem bootSpace : ∃ st sites, SpaceInit sites [0x1000] st ∧ sites.length ≤ 0x100 ∧
    managedPages sites = 0x3fff ∧ st.allocated = [] := by
  have hok : MemmapOk 3 bootEntry := by
    refine ⟨by decide, by decide, by decide, fun e he _ pages hpages => ?_⟩
    have hsplit : ∀ e ∈ bootEntry, (e.split 3).all fun r => r.2 ≤ 1000000 := by decide
    have hall := hsplit e he
    rw [hpages] at hall
    simpa using hall
  have hrun : (bitmapAllocatorInit 3 bootEntry fun _ => 0).map
      (fun r => (r.2, (Area.read r.1 0x100000).pagesCount)) = some ([0x100000], 0x3fff) := by
    decide +kernel
  obtain ⟨⟨m, areas⟩, hinit, heq⟩ := Option.map_eq_some_iff.mp hrun
  obtain ⟨hareas, hcount⟩ := Prod.mk.inj heq
  simp only at hareas hcount
  obtain ⟨sites, hspace, hfresh⟩ := SpaceInit.of_boot (t := 0x1000) hok (by decide) hinit
    (by decide) (by decide) (by rw [hareas]; decide)
  have hplaces := hfresh.places
  rw [hareas] at hplaces
  obtain ⟨s, rest, rfl, hbase, hrest⟩ := List.map_eq_cons_iff.mp hplaces.symm
  rw [List.map_eq_nil_iff] at hrest
  subst hrest
  have hkept := hfresh.kept s (by simp)
  rw [Site.Kept, hbase] at hkept
  rw [hkept] at hcount
  simp only at hcount
  exact ⟨_, [s], hspace, by simp, by simp [managedPages, hcount], rfl⟩

end BayosKernel
