import BayosKernel.PagePaths

/-!
`walk` finds the entry at the end of a path, whatever flags the entries above
it have; one call of `map_memory_page`, one turn of the loop of `free_region`
and one store of a program, in terms of `Maps`.
-/

namespace BayosKernel

open Foundation

theorem ptIndex_eq (va level : Nat) : ptIndex va level = va / 2 ^ (12 + 9 * level) % 512 := by
  rw [ptIndex, Nat.shiftRight_eq_div_pow, show 0x1ff = 2 ^ 9 - 1 from rfl,
    Nat.and_two_pow_sub_one_eq_mod]

theorem ptIndex_lt (va level : Nat) : ptIndex va level < 512 := by
  rw [ptIndex_eq]
  omega

/-- The user half of the address space. -/
theorem ptIndex_user {va : Nat} (hva : va < 0x800000000000) : ptIndex va 3 < 256 := by
  rw [ptIndex_eq]
  omega

theorem pathIndices_length (va level : Nat) : (pathIndices va level).length = level + 1 := by
  induction level with
  | zero => rfl
  | succ level ih => simp [pathIndices, ih]

theorem pathIndices_lt {va level i : Nat} (hi : i ∈ pathIndices va level) : i < 512 := by
  induction level with
  | zero =>
      rw [List.mem_singleton.mp hi]
      exact ptIndex_lt va 0
  | succ level ih =>
      rcases List.mem_cons.mp hi with rfl | hi
      · exact ptIndex_lt va (level + 1)
      · exact ih hi

theorem pathIndices_head (va level : Nat) :
    (pathIndices va level).head? = some (ptIndex va level) := by
  cases level <;> rfl

/-- Addresses below 2^48 with one path lie in one page. -/
theorem pathIndices_injective {va va' : Nat} (hva : va < 0x1000000000000)
    (hva' : va' < 0x1000000000000) (h : pathIndices va 3 = pathIndices va' 3) :
    va / 0x1000 = va' / 0x1000 := by
  simp only [pathIndices, ptIndex_eq, List.cons.injEq, and_true] at h
  omega

theorem pathIndices_page (va level : Nat) :
    pathIndices (va / 0x1000 * 0x1000) level = pathIndices va level := by
  have hindex : ∀ k, ptIndex (va / 0x1000 * 0x1000) k = ptIndex va k := by
    intro k
    rw [ptIndex_eq, ptIndex_eq, Nat.pow_add, ← Nat.div_div_eq_div_mul, ← Nat.div_div_eq_div_mul,
      show 2 ^ 12 = 0x1000 from rfl, Nat.mul_div_cancel _ (by decide)]
  induction level with
  | zero => simp only [pathIndices, hindex]
  | succ level ih => simp only [pathIndices, hindex, ih]

namespace Maps

variable {st : PageState} {sites : List Site} {roots : List Nat} {own : Nat → Option Role}
  {cr3 va c : Nat}

theorem owned (h : Maps own cr3 va c) : ∃ p i, own c = some ⟨0, p, i⟩ :=
  Reaches.owned h (by simp [pathIndices])

theorem unique {c' : Nat} (htables : TableInv sites st roots own) (hpages : PageInv st sites)
    (h : Maps own cr3 va c) (h' : Maps own cr3 va c') : c = c' :=
  Reaches.unique htables hpages h h' (by rw [pathIndices_length])

theorem page : Maps own cr3 (va / 0x1000 * 0x1000) c ↔ Maps own cr3 va c := by
  rw [Maps, Maps, pathIndices_page]

/-- No page is mapped twice, in one address space or in two. -/
theorem injective {cr3' va' : Nat} (h : Maps own cr3 va c) (h' : Maps own cr3' va' c)
    (hva : va < 0x1000000000000) (hva' : va' < 0x1000000000000) :
    cr3 = cr3' ∧ va / 0x1000 = va' / 0x1000 := by
  obtain ⟨hcr3, hpath⟩ :=
    Reaches.injective h h' (by rw [pathIndices_length, pathIndices_length])
  exact ⟨hcr3, pathIndices_injective hva hva' hpath⟩

end Maps

namespace TableInv

variable {st st' : PageState} {sites : List Site} {roots : List Nat} {own : Nat → Option Role}

/-- `walkFrom` comes to the entry of the page at the end of the path; without
such a page it stops, or comes to an entry that is zero. -/
theorem walkFrom_cases (h : TableInv sites st roots own) (hpages : PageInv st sites)
    (hphys : Physical sites) {level t va : Nat} {r : Role} (ht : own t = some r)
    (hheight : r.height = level + 1) (hlevel : level ≤ 3) (hfirst : ptIndex va level < r.width) :
    (∃ c pt f, Reaches own t (pathIndices va level) c ∧ own c = some ⟨0, pt, ptIndex va 0⟩ ∧
        walkFrom st.mem va level t = some (entryAddr pt (ptIndex va 0)) ∧ PageFlags f ∧
        entry st.mem pt (ptIndex va 0) = c + f) ∨
      (∀ pte, walkFrom st.mem va level t = some pte → st.mem.load 8 pte = 0) ∧
        ∀ c, ¬Reaches own t (pathIndices va level) c := by
  induction level generalizing t r with
  | zero =>
      rcases h.entry_cases hpages hphys ht (by omega) hfirst with
        hzero | ⟨c, f, hf, he, hc, -⟩
      · refine Or.inr ⟨fun pte hpte => ?_, fun c hpath => hpath.present h (by simp) hzero⟩
        cases hpte
        exact hzero
      · rw [hheight] at hc
        exact Or.inl ⟨c, t, f, ⟨c, hc, rfl⟩, hc, rfl, hf, he⟩
  | succ level ih =>
      have hlength := pathIndices_length va level
      rcases h.entry_cases hpages hphys ht (by omega) hfirst with
        hzero | ⟨d, f, hf, he, hd, hone, hps, haddr, -⟩
      · refine Or.inr ⟨fun pte hpte => ?_, fun c hpath => hpath.present h (by omega) hzero⟩
        simp [walkFrom, hzero] at hpte
      · have hstep : walkFrom st.mem va (level + 1) t = walkFrom st.mem va level d := by
          simp only [walkFrom, hone, hps, haddr]
          rfl
        have hdwidth : ptIndex va level < (⟨r.height - 1, t, ptIndex va (level + 1)⟩ : Role).width :=
          Role.lt_width (by simp only; omega) (ptIndex_lt va level)
        have hdown : ∀ c, Reaches own d (pathIndices va level) c ↔
            Reaches own t (pathIndices va (level + 1)) c := by
          intro c
          have hd' : own d = some ⟨(pathIndices va level).length, t, ptIndex va (level + 1)⟩ := by
            rw [hd, hlength, hheight]
            rfl
          refine ⟨fun hpath => ⟨d, hd', hpath⟩, ?_⟩
          rintro ⟨d', hd'', hpath⟩
          have hsame : d' = d :=
            h.child_unique hpages hd'' hd' (by simp only; omega) (by simp only; omega) rfl rfl
          rwa [hsame] at hpath
        rw [hstep]
        simp only [← hdown]
        exact ih hd (by simp only; omega) (by omega) hdwidth

variable {cr3 va flags : Nat}

theorem walk_cases (h : TableInv sites st roots own) (hpages : PageInv st sites)
    (hphys : Physical sites) (hroot : cr3 ∈ roots) (hva : va < 0x800000000000) :
    (∃ c pt f, Maps own cr3 va c ∧ own c = some ⟨0, pt, ptIndex va 0⟩ ∧
        walk st.mem cr3 va = some (entryAddr pt (ptIndex va 0)) ∧ PageFlags f ∧
        entry st.mem pt (ptIndex va 0) = c + f) ∨
      (∀ pte, walk st.mem cr3 va = some pte → st.mem.load 8 pte = 0) ∧
        ∀ c, ¬Maps own cr3 va c := by
  obtain ⟨r, hr, hheight⟩ := h.roots cr3 hroot
  exact h.walkFrom_cases hpages hphys hr hheight (by omega)
    (r.lt_root_width hheight (ptIndex_user hva))

/-- The page that a present entry found by `walk` refers to. -/
theorem walk_present (h : TableInv sites st roots own) (hpages : PageInv st sites)
    (hphys : Physical sites) (hroot : cr3 ∈ roots) (hva : va < 0x800000000000) {pte : Nat}
    (hwalk : walk st.mem cr3 va = some pte) (hpresent : st.mem.load 8 pte &&& 1 ≠ 0) :
    Maps own cr3 va (pteAddr (st.mem.load 8 pte)) := by
  rcases h.walk_cases hpages hphys hroot hva with
    ⟨c, pt, f, hmaps, hc, hwalk', hf, he⟩ | ⟨hzero, -⟩
  · rw [hwalk] at hwalk'
    cases hwalk'
    obtain ⟨-, -, -, haddr, -⟩ :=
      word_fields (h.frame hpages hc).aligned (h.lt hpages hphys hc) hf
    have hload : st.mem.load 8 (entryAddr pt (ptIndex va 0)) = c + f := he
    rw [hload, haddr]
    exact hmaps
  · exact absurd (by simp [hzero pte hwalk]) hpresent

/-- `walk` reads tables only. -/
theorem walkFrom_congr (h : TableInv sites st roots own) (hpages : PageInv st sites)
    (hphys : Physical sites) {m' : ByteMemory} {level t : Nat} {r : Role} (ht : own t = some r)
    (hheight : r.height = level + 1) (hlevel : level ≤ 3) (hfirst : ptIndex va level < r.width)
    (hsame : ∀ p, Frame sites p → ∀ x, p ≤ x → x < p + 0x1000 → m' x = st.mem x) :
    walkFrom m' va level t = walkFrom st.mem va level t ∧
      ∀ pte, walkFrom st.mem va level t = some pte → m'.load 8 pte = st.mem.load 8 pte := by
  have hentry : ∀ i < 512, entry m' t i = entry st.mem t i :=
    fun i hi => entry_congr hi (hsame t (h.frame hpages ht))
  induction level generalizing t r with
  | zero =>
      refine ⟨rfl, fun pte hpte => ?_⟩
      cases hpte
      exact hentry _ (ptIndex_lt va 0)
  | succ level ih =>
      have htop := hentry _ (ptIndex_lt va (level + 1))
      simp only [walkFrom, htop]
      rcases h.entry_cases hpages hphys ht (by omega) hfirst with
        hzero | ⟨d, -, -, -, hd, hone, hps, haddr, -⟩
      · simp [hzero]
      · simp only [hone, hps, haddr]
        have hdwidth : ptIndex va level < (⟨r.height - 1, t, ptIndex va (level + 1)⟩ : Role).width :=
          Role.lt_width (by simp only; omega) (ptIndex_lt va level)
        exact ih hd (by simp only; omega) (by omega) hdwidth
          fun i hi => entry_congr hi (hsame d (h.frame hpages hd))

theorem walk_congr (h : TableInv sites st roots own) (hpages : PageInv st sites)
    (hphys : Physical sites) (hroot : cr3 ∈ roots) (hva : va < 0x800000000000) {m' : ByteMemory}
    (hsame : ∀ p, Frame sites p → ∀ x, p ≤ x → x < p + 0x1000 → m' x = st.mem x) :
    walk m' cr3 va = walk st.mem cr3 va ∧
      ∀ pte, walk st.mem cr3 va = some pte → m'.load 8 pte = st.mem.load 8 pte := by
  obtain ⟨r, hr, hheight⟩ := h.roots cr3 hroot
  exact h.walkFrom_congr hpages hphys hr hheight (by omega)
    (r.lt_root_width hheight (ptIndex_user hva)) hsame

/-- The path of an address below 2^47 begins in the used half of its PML4. -/
theorem root_width (h : TableInv sites st roots own) (hroot : cr3 ∈ roots)
    (hva : va < 0x800000000000) : ∃ r, own cr3 = some r ∧ r.height = (pathIndices va 3).length ∧
      r.height = 4 ∧ ∀ i ∈ (pathIndices va 3).head?, i < r.width := by
  obtain ⟨r, hr, hheight⟩ := h.roots cr3 hroot
  refine ⟨r, hr, by rw [hheight, pathIndices_length], hheight, fun i hi => ?_⟩
  rw [pathIndices_head, Option.mem_some_iff] at hi
  rw [← hi]
  exact r.lt_root_width hheight (ptIndex_user hva)

theorem mapMemoryPage_lockstep {before : List Nat} {twin : PageState}
    (hlike : Alike sites before own st twin) (h : TableInv sites st roots own)
    (hpages : PageInv st sites) (hphys : Physical sites) (hroot : cr3 ∈ roots)
    (hva : va < 0x800000000000) (hflags : PageFlags flags)
    (hmap : st.mapMemoryPage cr3 va flags = some st') :
    ∃ own' leaf twin', PageInv st' sites ∧ TableInv sites st' roots own' ∧
      Grows sites st st' own own' ∧
      PathMapped st st' own own' cr3 flags (pathIndices va 3) leaf ∧
      twin.mapMemoryPage cr3 va flags = some twin' ∧ Alike sites before own' st' twin' := by
  obtain ⟨r, hr, hheight, hfour, hfirst⟩ := h.root_width hroot hva
  rw [PageState.mapMemoryPage_eq] at hmap ⊢
  exact PageState.mapPath_lockstep hlike h hpages hphys hr hheight
    (by omega) (by omega) hfirst (fun i hi => pathIndices_lt hi) hflags hmap

theorem mapMemoryPage (h : TableInv sites st roots own) (hpages : PageInv st sites)
    (hphys : Physical sites) (hroot : cr3 ∈ roots) (hva : va < 0x800000000000)
    (hflags : PageFlags flags) (hmap : st.mapMemoryPage cr3 va flags = some st') :
    ∃ own' leaf, PageInv st' sites ∧ TableInv sites st' roots own' ∧ Grows sites st st' own own' ∧
      PathMapped st st' own own' cr3 flags (pathIndices va 3) leaf := by
  obtain ⟨own', leaf, -, hpages', h', hgrows, hpath, -⟩ :=
    h.mapMemoryPage_lockstep (Alike.refl sites [] own st) hpages hphys hroot hva hflags hmap
  exact ⟨own', leaf, hpages', h', hgrows, hpath⟩

/-- A path that is there is left as it is. -/
theorem mapPath_present {indices : List Nat} {t c : Nat} (h : TableInv sites st roots own)
    (hpages : PageInv st sites) (hphys : Physical sites) (hpath : Reaches own t indices c)
    (hlength : indices.length ≤ 4) : st.mapPath t flags indices = some st := by
  induction indices generalizing t with
  | nil => rfl
  | cons i rest ih =>
      obtain ⟨d, hd, hrest⟩ := hpath
      simp only [List.length_cons] at hlength
      obtain ⟨hone, -, hmask⟩ := h.child_entry hpages hphys hd hlength
      have hpresent : ¬entry st.mem t i &&& 1 = 0 := by
        rw [hone]
        decide
      cases rest with
      | nil => rw [PageState.mapPath, PageState.ensurePage, if_neg hpresent]
      | cons j rest =>
          rw [PageState.mapPath, PageState.ensureTable, if_neg hpresent, hmask, Option.bind_some]
          exact ih hrest (Nat.le_of_succ_le hlength)

theorem mapMemoryPage_present {c : Nat} (h : TableInv sites st roots own)
    (hpages : PageInv st sites) (hphys : Physical sites) (hmaps : Maps own cr3 va c) :
    st.mapMemoryPage cr3 va flags = some st := by
  rw [PageState.mapMemoryPage_eq]
  exact h.mapPath_present hpages hphys hmaps (by rw [pathIndices_length])

end TableInv

/-- The page of data `c` is given back and its entry cleared. -/
structure Drops (sites : List Site) (st st' : PageState) (own : Nat → Option Role) (c : Nat) :
    Prop where
  areas : st'.areas = st.areas
  allocated : st'.allocated = st.allocated.erase c
  entries : ∀ t r, own t = some r → 0 < r.height → ∀ i < 512, own c ≠ some ⟨0, t, i⟩ →
    entry st'.mem t i = entry st.mem t i
  data : ∀ p, Frame sites p → (∀ r, own p = some r → r.height = 0) →
    ∀ x, p ≤ x → x < p + 0x1000 → st'.mem x = st.mem x

namespace TableInv

variable {st st' : PageState} {sites : List Site} {roots : List Nat} {own : Nat → Option Role}
  {cr3 va : Nat}

theorem drop (h : TableInv sites st roots own) (hpages : PageInv st sites) {c pt i : Nat}
    (hc : own c = some ⟨0, pt, i⟩)
    (hallocated : st'.allocated = st.allocated.erase c) (hzero : entry st'.mem pt i = 0)
    (hentries : ∀ t r, own t = some r → 0 < r.height → ∀ j < 512, own c ≠ some ⟨0, t, j⟩ →
      entry st'.mem t j = entry st.mem t j) :
    TableInv sites st' roots (Function.update own c none) := by
  have hback : ∀ {d q}, Function.update own c none d = some q → own d = some q ∧ d ≠ c := by
    intro d q hd
    by_cases hdc : d = c
    · rw [hdc, Function.update_self] at hd
      cases hd
    · rw [Function.update_of_ne hdc] at hd
      exact ⟨hd, hdc⟩
  have hkeeps : ∀ {d q}, own d = some q → d ≠ c → Function.update own c none d = some q := by
    intro d q hd hdc
    rwa [Function.update_of_ne hdc]
  refine ⟨fun t ht => ?_, fun t r ht => ?_, fun t r ht hr j hj => ?_, fun d q hd hq => ?_⟩
  · obtain ⟨r, hr, hheight⟩ := h.roots t ht
    refine ⟨r, hkeeps hr ?_, hheight⟩
    rintro rfl
    rw [hc] at hr
    cases hr
    simp at hheight
  · obtain ⟨ht, htc⟩ := hback ht
    rw [hallocated]
    exact (h.owned t r ht).imp_left (List.mem_erase_of_ne htc).mpr
  · obtain ⟨ht, htc⟩ := hback ht
    by_cases hhere : own c = some ⟨0, t, j⟩
    · rw [hc] at hhere
      cases hhere
      exact Or.inl hzero
    · rw [hentries t r ht hr j (Nat.lt_of_lt_of_le hj r.width_le) hhere]
      rcases h.entries t r ht hr j hj with h0 | ⟨d, f, hf, he, hd⟩
      · exact Or.inl h0
      · refine Or.inr ⟨d, f, hf, he, hkeeps hd ?_⟩
        rintro rfl
        obtain ⟨-, rfl, rfl⟩ := Role.mk.inj (Option.some.inj (hc.symm.trans hd))
        exact hhere hc
  · obtain ⟨hd, hdc⟩ := hback hd
    obtain ⟨r, f, hparent, hheight, hindex, hf, he⟩ := h.linked d q hd hq
    refine ⟨r, f, hkeeps hparent ?_, hheight, hindex, hf, ?_⟩
    · rintro rfl
      rw [hc] at hparent
      cases hparent
      simp at hheight
    · rw [← he]
      refine hentries _ r hparent (by omega) _ (Nat.lt_of_lt_of_le hindex r.width_le) ?_
      intro hhere
      exact hdc (h.child_unique hpages hd hhere hq (by simp) rfl rfl)

theorem freeRegionPage (h : TableInv sites st roots own) (hpages : PageInv st sites)
    (hphys : Physical sites) (hroot : cr3 ∈ roots) (hva : va < 0x800000000000) :
    (∃ c, Maps own cr3 va c ∧ PageInv (st.freeRegionPage cr3 va) sites ∧
        TableInv sites (st.freeRegionPage cr3 va) roots (Function.update own c none) ∧
        Drops sites st (st.freeRegionPage cr3 va) own c) ∨
      st.freeRegionPage cr3 va = st ∧ ∀ c, ¬Maps own cr3 va c := by
  rcases h.walk_cases hpages hphys hroot hva with
    ⟨c, pt, f, hmaps, hc, hwalk, hf, he⟩ | ⟨hzero, hnone⟩
  · left
    have hmem := h.allocated hc (by simp)
    obtain ⟨q, -, hparent, hheight, -⟩ := h.linked c _ hc (by simp)
    have hpt : Frame sites pt := h.frame hpages hparent
    have hca := hpages.page_aligned hmem
    have hpa := hpt.aligned
    have hi := ptIndex_lt va 0
    obtain ⟨-, hone, -, haddr, -⟩ := word_fields hca (hpages.page_lt hphys hmem) hf
    have hload : st.mem.load 8 (entryAddr pt (ptIndex va 0)) = c + f := he
    have hstep : st.freeRegionPage cr3 va =
        { st.freePage c with mem := setEntry (st.freePage c).mem pt (ptIndex va 0) 0 } := by
      simp only [PageState.freeRegionPage, hwalk, hload, hone, haddr]
      rfl
    obtain ⟨hpages', hkeep⟩ := hpages.freePage hmem
    have hdata : ∀ p, Frame sites p → p ≠ pt → ∀ x, p ≤ x → x < p + 0x1000 →
        (st.freeRegionPage cr3 va).mem x = st.mem x := by
      intro p hp hne x hle hlt
      have := hp.aligned
      rw [hstep]
      simp only
      rw [setEntry_outside (by simp only [entryAddr]; omega), hkeep p hp x hle hlt]
    have hentries : ∀ t r, own t = some r → 0 < r.height → ∀ j < 512, own c ≠ some ⟨0, t, j⟩ →
        entry (st.freeRegionPage cr3 va).mem t j = entry st.mem t j := by
      intro t r ht hr j hj hne
      have hta := (h.frame hpages ht).aligned
      have hother : ¬(t = pt ∧ j = ptIndex va 0) := by
        rintro ⟨rfl, rfl⟩
        exact hne hc
      rw [hstep]
      simp only
      rw [entry_apart (fun x hx => setEntry_outside hx) hpa hta hi hj hother]
      exact entry_congr hj (hkeep t (h.frame hpages ht))
    have hallocated : (st.freeRegionPage cr3 va).allocated = st.allocated.erase c := by
      rw [hstep]
      rfl
    refine ⟨c, hmaps, ?_, ?_, ⟨by rw [hstep]; rfl, hallocated, hentries, fun p hp hdata' => ?_⟩⟩
    · rw [hstep]
      refine hpages'.of_pages fun x hx => ?_
      have := hx pt hpt
      exact setEntry_outside (by simp only [entryAddr]; omega)
    · refine h.drop hpages hc hallocated ?_ hentries
      rw [hstep]
      exact entry_setEntry (by decide)
    · refine hdata p hp ?_
      rintro rfl
      have := hdata' q hparent
      omega
  · right
    refine ⟨?_, hnone⟩
    rw [PageState.freeRegionPage]
    cases hwalk : walk st.mem cr3 va with
    | none => rfl
    | some pte => simp [hzero pte hwalk]

/-- A store of a program changes its own page only. -/
theorem write (h : TableInv sites st roots own) (hpages : PageInv st sites) (hphys : Physical sites)
    (hroot : cr3 ∈ roots) (hva : va < 0x800000000000) {v : UInt8}
    (hwrite : st.write cr3 va v = some st') :
    ∃ c, Maps own cr3 va c ∧
      st' = { st with mem := Function.update st.mem (c + va % 0x1000) v } ∧
      PageInv st' sites ∧ TableInv sites st' roots own := by
  rcases h.walk_cases hpages hphys hroot hva with
    ⟨c, pt, f, hmaps, hc, hwalk, hf, he⟩ | ⟨hzero, -⟩
  · have hmem := h.allocated hc (by simp)
    have hca := hpages.page_aligned hmem
    obtain ⟨-, hone, -, haddr, -⟩ := word_fields hca (hpages.page_lt hphys hmem) hf
    have hload : st.mem.load 8 (entryAddr pt (ptIndex va 0)) = c + f := he
    simp only [PageState.write, hwalk, hload, hone, haddr] at hwrite
    cases hwrite
    have hother : ∀ x, x < c ∨ c + 0x1000 ≤ x →
        Function.update st.mem (c + va % 0x1000) v x = st.mem x := by
      intro x hx
      exact Function.update_of_ne (by omega) ..
    have hentries : ∀ t r, own t = some r → 0 < r.height → ∀ j < 512,
        entry (Function.update st.mem (c + va % 0x1000) v) t j = entry st.mem t j := by
      intro t r ht hr j hj
      have hta := (h.frame hpages ht).aligned
      have hne : t ≠ c := by
        rintro rfl
        rw [hc] at ht
        cases ht
        simp at hr
      exact entry_congr hj fun x _ _ => hother x (by omega)
    refine ⟨c, hmaps, rfl, hpages.of_pages fun x hx => hother x (hx c (hpages.frame hmem)), h.roots, h.owned,
      fun t r ht hr j hj => ?_, fun d q hd hq => ?_⟩
    · simp only [hentries t r ht hr j (Nat.lt_of_lt_of_le hj r.width_le)]
      exact h.entries t r ht hr j hj
    · obtain ⟨r, g, hparent, hheight, hindex, hg, heq⟩ := h.linked d q hd hq
      refine ⟨r, g, hparent, hheight, hindex, hg, ?_⟩
      rw [← heq]
      exact hentries _ r hparent (by omega) _ (Nat.lt_of_lt_of_le hindex r.width_le)
  · rw [PageState.write] at hwrite
    cases hwalk : walk st.mem cr3 va with
    | none => simp [hwalk] at hwrite
    | some pte => simp [hwalk, hzero pte hwalk] at hwrite

end TableInv

end BayosKernel
