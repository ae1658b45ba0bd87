import BayosKernel.MapMemoryPage

/-!
`allocate_region` followed by `free_region` with the same bounds. Both visit the same
pages; what is left of the pair are the tables that it made, and a second pair, which
finds them there, leaves nothing.
-/

namespace BayosKernel

open Foundation

section Paths

variable {st st' : PageState} {sites : List Site} {roots : List Nat} {own own' : Nat → Option Role}

/-- Where one page gets an owner, one page is handed out. -/
theorem Grows.new_page (hgrows : Grows sites st st' own own') (h : TableInv sites st roots own)
    (hpages' : PageInv st' sites) {c : Nat}
    (hnew : ∀ d q, own' d = some q → own d = some q ∨ d = c) {p : Nat} (hp : p ∈ st'.allocated) :
    p ∈ st.allocated ∨ p = c := by
  by_cases hold : p ∈ st.allocated
  · exact Or.inl hold
  · obtain ⟨r, hr⟩ := (hgrows.accounted p hp).resolve_left hold
    refine Or.inr ((hnew p r hr).resolve_left fun hown => ?_)
    exact h.ne_fresh hpages' hp hold hown rfl

/-- The pages that `map_memory_page` takes are entered on its path. -/
theorem mapPath_new {indices : List Nat} {t flags : Nat} {r : Role}
    (h : TableInv sites st roots own) (hpages : PageInv st sites) (hphys : Physical sites)
    (ht : own t = some r) (hheight : r.height = indices.length) (hpos : 0 < r.height)
    (hle : r.height ≤ 4) (hfirst : ∀ i ∈ indices.head?, i < r.width)
    (hindices : ∀ i ∈ indices, i < 512) (hflags : PageFlags flags)
    (hmap : st.mapPath t flags indices = some st') {p : Nat} (hp : p ∈ st'.allocated) :
    p ∈ st.allocated ∨ ∃ e ∈ pathFrom st'.mem t indices, e &&& 1 = 1 ∧ pteAddr e = p := by
  induction indices generalizing st own t r with
  | nil =>
      simp only [List.length_nil] at hheight
      omega
  | cons i rest ih =>
      have hi : i < r.width := hfirst i (by simp)
      cases rest with
      | nil =>
          simp only [List.length_cons, List.length_nil] at hheight
          obtain ⟨own', c, hpages', h', hgrows, hc, hnew, hcase⟩ :=
            h.ensurePage hpages hphys ht (by omega) hi hflags hmap
          rcases hgrows.new_page h hpages' hnew hp with hold | rfl
          · exact Or.inl hold
          · rcases hcase with ⟨rfl, -⟩ | ⟨-, -, hentry⟩
            · exact Or.inl hp
            · obtain ⟨-, hone, -, haddr, -⟩ :=
                word_fields (h'.frame hpages' hc).aligned (h'.lt hpages' hphys hc) hflags
              refine Or.inr ⟨entry st'.mem t i, by simp [pathFrom], ?_⟩
              rw [hentry]
              exact ⟨hone, haddr⟩
      | cons j rest =>
          simp only [List.length_cons] at hheight ih
          rw [PageState.mapPath] at hmap
          obtain ⟨⟨st₁, c⟩, hensure, hmap⟩ := Option.bind_eq_some_iff.mp hmap
          obtain ⟨own₁, hpages₁, h₁, hgrows₁, hc, hnew, -⟩ :=
            h.ensureTable hpages hphys ht (by omega) hi hflags hensure
          have hrest : ∀ k ∈ j :: rest, k < 512 := fun k hk => hindices k (by simp [hk])
          have hjwidth : ∀ k ∈ (j :: rest).head?, k < (⟨r.height - 1, t, i⟩ : Role).width :=
            Role.head_lt_width (by simp only; omega) hrest
          obtain ⟨own', -, hpages', h', hgrows', -⟩ := PageState.mapPath_spec h₁ hpages₁ hphys hc
            (by simp only [List.length_cons]; omega) (by simp only; omega) (by simp only; omega)
            hjwidth hrest hflags hmap
          -- the table is entered when the call comes back, whether it was before or not
          obtain ⟨hone, haddr, -⟩ :=
            h'.child_entry hpages' hphys (hgrows'.keeps c _ hc) (by omega)
          rw [pathFrom_present hone haddr]
          rcases ih h₁ hpages₁ hc (by simp only; omega) (by simp only; omega) (by simp only; omega)
            hjwidth hrest hmap with hp₁ | ⟨e, hmem, he⟩
          · rcases hgrows₁.new_page h hpages₁ hnew hp₁ with hold | rfl
            · exact Or.inl hold
            · exact Or.inr ⟨_, List.mem_cons_self, hone, haddr⟩
          · exact Or.inr ⟨e, List.mem_cons_of_mem _ hmem, he⟩

/-- A complete path is still there after more pages are mapped. -/
theorem Grows.pathFrom_eq {indices : List Nat} {t c : Nat} {r : Role}
    (hgrows : Grows sites st st' own own') (h : TableInv sites st roots own)
    (hpages : PageInv st sites) (hphys : Physical sites) (hpath : Reaches own t indices c)
    (ht : own t = some r) (hheight : r.height = indices.length) (hle : r.height ≤ 4)
    (hfirst : ∀ i ∈ indices.head?, i < r.width) (hindices : ∀ i ∈ indices, i < 512) :
    pathFrom st'.mem t indices = pathFrom st.mem t indices := by
  induction indices generalizing t r with
  | nil => rfl
  | cons i rest ih =>
      simp only [List.length_cons] at hheight
      have hpresent := hpath.present h (by omega)
      have hentry : entry st'.mem t i = entry st.mem t i :=
        hgrows.entries t r ht (by omega) i (hfirst i (by simp)) hpresent
      obtain ⟨d, hd, hrest⟩ := hpath
      obtain ⟨hone, haddr, -⟩ := h.child_entry hpages hphys hd (by omega)
      have hbelow : ∀ k ∈ rest, k < 512 := fun k hk => hindices k (List.mem_cons_of_mem _ hk)
      have hdwidth : ∀ k ∈ rest.head?, k < (⟨rest.length, t, i⟩ : Role).width :=
        Role.head_lt_width (by simp only; omega) hbelow
      rw [pathFrom_present (by rw [hentry, hone]) (by rw [hentry, haddr]),
        pathFrom_present hone haddr, hentry, ih hrest hd rfl (by simp only; omega) hdwidth hbelow]

/-- After `free_region` the paths are as before, but for their pages. -/
theorem Frees.mem_pathFrom {indices : List Nat} {cr3 start stop t c : Nat} {r : Role}
    (hfrees : Frees sites st st' own own' cr3 start stop) (h : TableInv sites st roots own)
    (hpages : PageInv st sites) (hphys : Physical sites) (hpath : Reaches own t indices c)
    (ht : own t = some r) (hheight : r.height = indices.length) (hle : r.height ≤ 4)
    (hindices : ∀ i ∈ indices, i < 512) {e : Nat} (hmem : e ∈ pathFrom st.mem t indices)
    (hne : pteAddr e ≠ c) : e ∈ pathFrom st'.mem t indices := by
  induction indices generalizing t r with
  | nil => exact hmem
  | cons i rest ih =>
      simp only [List.length_cons] at hheight
      obtain ⟨d, hd, hrest⟩ := hpath
      obtain ⟨hone, haddr, -⟩ := h.child_entry hpages hphys hd (by omega)
      rw [pathFrom_present hone haddr] at hmem
      cases rest with
      | nil =>
          cases hrest
          simp only [pathFrom, List.mem_singleton] at hmem
          rw [hmem, haddr] at hne
          exact absurd rfl hne
      | cons j rest =>
          have hentry : entry st'.mem t i = entry st.mem t i :=
            hfrees.tables t r ht (by simp only [List.length_cons] at hheight; omega) i
              (hindices i (by simp))
          rw [pathFrom_present (by rw [hentry, hone]) (by rw [hentry, haddr]), hentry]
          rcases List.mem_cons.mp hmem with heq | hmem
          · rw [heq]
            exact List.mem_cons_self
          · exact List.mem_cons_of_mem _
              (ih hrest hd rfl (by simp only; omega) (fun k hk => hindices k (by simp [hk])) hmem)

/-- The tables of a path are there. -/
def Ready (own : Nat → Option Role) : Nat → List Nat → Prop
  | t, i :: j :: rest =>
      ∃ d, own d = some ⟨(j :: rest).length, t, i⟩ ∧ Ready own d (j :: rest)
  | _, _ => True

theorem Reaches.ready {indices : List Nat} {t c : Nat} (h : Reaches own t indices c)
    (hkeeps : ∀ d r, own d = some r → 0 < r.height → own' d = some r) : Ready own' t indices := by
  induction indices generalizing t with
  | nil => trivial
  | cons i rest ih =>
      cases rest with
      | nil => trivial
      | cons j rest =>
          obtain ⟨d, hd, hrest⟩ := h
          exact ⟨d, hkeeps d _ hd (by simp), ih hrest⟩

theorem Ready.mono {indices : List Nat} {t : Nat} (h : Ready own t indices)
    (hkeeps : ∀ d r, own d = some r → own' d = some r) : Ready own' t indices := by
  induction indices generalizing t with
  | nil => trivial
  | cons i rest ih =>
      cases rest with
      | nil => trivial
      | cons j rest =>
          obtain ⟨d, hd, hrest⟩ := h
          exact ⟨d, hkeeps d _ hd, ih hrest⟩

/-- Where the tables are there, `map_memory_page` takes one page at most. -/
theorem mapPath_ready {indices : List Nat} {t flags : Nat} (h : TableInv sites st roots own)
    (hpages : PageInv st sites) (hphys : Physical sites) (hready : Ready own t indices)
    (hlength : indices.length ≤ 4) (hfree : st.allocated.length < managedPages sites) :
    ∃ st', st.mapPath t flags indices = some st' ∧
      st'.allocated.length ≤ st.allocated.length + 1 := by
  induction indices generalizing t with
  | nil => exact ⟨st, rfl, Nat.le_succ _⟩
  | cons i rest ih =>
      cases rest with
      | nil => exact TableInv.ensurePage_some hpages t i flags hfree
      | cons j rest =>
          simp only [List.length_cons] at hlength ih
          obtain ⟨d, hd, hrest⟩ := hready
          obtain ⟨hone, -, hmask⟩ :=
            h.child_entry hpages hphys hd (by simp only [List.length_cons]; omega)
          have hpresent : ¬entry st.mem t i &&& 1 = 0 := by
            rw [hone]
            decide
          obtain ⟨st', hmap, hcount⟩ := ih hrest (by omega)
          refine ⟨st', ?_, hcount⟩
          rw [PageState.mapPath, PageState.ensureTable, if_neg hpresent, hmask]
          exact hmap

/-- The entries of such a path refer to its page and to tables that were there. -/
theorem Ready.entry_cases {indices : List Nat} {t c : Nat} (hready : Ready own t indices)
    (hgrows : Grows sites st st' own own') (h' : TableInv sites st' roots own')
    (hpages' : PageInv st' sites) (hphys : Physical sites) (hpath : Reaches own' t indices c)
    (hlength : indices.length ≤ 4) {e : Nat} (hmem : e ∈ pathFrom st'.mem t indices) :
    pteAddr e = c ∨ ∃ r, own (pteAddr e) = some r ∧ r.height < 4 := by
  induction indices generalizing t with
  | nil => simp [pathFrom] at hmem
  | cons i rest ih =>
      simp only [List.length_cons] at hlength
      obtain ⟨d, hd, hrest⟩ := hpath
      obtain ⟨hone, haddr, -⟩ := h'.child_entry hpages' hphys hd (by omega)
      rw [pathFrom_present hone haddr] at hmem
      cases rest with
      | nil =>
          cases hrest
          simp only [pathFrom, List.mem_singleton] at hmem
          left
          rw [hmem, haddr]
      | cons j rest =>
          obtain ⟨d', hd', hready⟩ := hready
          have hsame : d' = d := h'.child_unique hpages' (hgrows.keeps d' _ hd') hd
            (by simp only; omega) (by simp only; omega) rfl rfl
          subst hsame
          rcases List.mem_cons.mp hmem with heq | hmem
          · right
            rw [heq, haddr]
            exact ⟨_, hd', by simp only; omega⟩
          · exact ih hready hrest (by omega) hmem

end Paths

section Regions

variable {st st' : PageState} {sites : List Site} {roots : List Nat} {own own' : Nat → Option Role}
  {cr3 va start stop flags fuel : Nat}

/-- The page is entered on the path of an address of the region. -/
def EnteredIn (m : ByteMemory) (cr3 start stop p : Nat) : Prop :=
  ∃ va, InRegion start stop va ∧ ∃ e ∈ pathEntries m cr3 va, e &&& 1 = 1 ∧ pteAddr e = p

namespace TableInv

theorem mapMemoryPage_new (h : TableInv sites st roots own) (hpages : PageInv st sites)
    (hphys : Physical sites) (hroot : cr3 ∈ roots) (hva : va < 0x800000000000)
    (hflags : PageFlags flags) (hmap : st.mapMemoryPage cr3 va flags = some st') {p : Nat}
    (hp : p ∈ st'.allocated) :
    p ∈ st.allocated ∨ ∃ e ∈ pathEntries st'.mem cr3 va, e &&& 1 = 1 ∧ pteAddr e = p := by
  obtain ⟨r, hr, hheight, hfour, hfirst⟩ := h.root_width hroot hva
  rw [PageState.mapMemoryPage_eq] at hmap
  exact mapPath_new h hpages hphys hr hheight (by omega) (by omega) hfirst
    (fun i hi => pathIndices_lt hi) hflags hmap hp

theorem pathEntries_eq (h : TableInv sites st roots own) (hpages : PageInv st sites)
    (hphys : Physical sites) (hroot : cr3 ∈ roots) (hva : va < 0x800000000000)
    (hgrows : Grows sites st st' own own') {c : Nat} (hmaps : Maps own cr3 va c) :
    pathEntries st'.mem cr3 va = pathEntries st.mem cr3 va := by
  obtain ⟨r, hr, hheight, hfour, hfirst⟩ := h.root_width hroot hva
  have hindices : ∀ i ∈ pathIndices va 3, i < 512 := fun i hi => pathIndices_lt hi
  exact hgrows.pathFrom_eq h hpages hphys hmaps hr hheight (by omega) hfirst hindices

/-- Every page that `allocate_region` takes is entered on a path of the region. -/
theorem allocateRegion_entered (h : TableInv sites st roots own) (hpages : PageInv st sites)
    (hphys : Physical sites) (hroot : cr3 ∈ roots) (hstop : stop ≤ 0x800000000000)
    (hflags : PageFlags flags) (hrun : st.allocateRegion fuel cr3 start stop flags = some st') :
    ∃ own', PageInv st' sites ∧ TableInv sites st' roots own' ∧
      Allocates sites st st' own own' cr3 (pageRoundDown start) stop ∧
      ∀ p ∈ st'.allocated, p ∈ st.allocated ∨
        EnteredIn st'.mem cr3 (pageRoundDown start) stop p := by
  have halign := pageRoundDown_aligned start
  rw [PageState.allocateRegion] at hrun
  generalize pageRoundDown start = first at halign hrun
  let I : Nat → PageState → Prop := fun va s =>
    (va % 0x1000 = 0 ∧ first ≤ va ∧ (va = first ∨ va < stop + 0x1000)) ∧
      ∃ own', PageInv s sites ∧ TableInv sites s roots own' ∧
        Allocates sites st s own own' cr3 first va ∧
        ∀ p ∈ s.allocated, p ∈ st.allocated ∨ EnteredIn s.mem cr3 first va p
  have hbody : ∀ va s s', I va s → va < stop → s.mapMemoryPage cr3 va flags = some s' →
      I (va + 0x1000) s' := by
    rintro va s s' ⟨hva, own₁, hpages₁, h₁, hall, hentered⟩ hlt hmap
    have huser : va < 0x800000000000 := by omega
    obtain ⟨-, -, own₂, hpages₂, h₂, hall₂, -⟩ := allocates_step hphys hroot hflags
      ⟨hva.2.1, hva.1, huser⟩ hpages₁ h₁ hall (Alike.refl sites [] own₁ s) hmap
    obtain ⟨own₃, -, -, -, hgrows, -⟩ := h₁.mapMemoryPage hpages₁ hphys hroot huser hflags hmap
    refine ⟨by omega, own₂, hpages₂, h₂, hall₂, fun p hp => ?_⟩
    rcases h₁.mapMemoryPage_new hpages₁ hphys hroot huser hflags hmap hp with
      hp | ⟨e, hmem, he⟩
    · refine (hentered p hp).imp_right ?_
      rintro ⟨va', hin, e, hmem, he⟩
      obtain ⟨c, hmaps⟩ := hall.mapped va' hin
      have := hin.2.1
      rw [← h₁.pathEntries_eq hpages₁ hphys hroot (by omega) hgrows hmaps] at hmem
      exact ⟨va', ⟨hin.1, by omega, hin.2.2⟩, e, hmem, he⟩
    · exact Or.inr ⟨va, ⟨hva.2.1, by omega, hva.1⟩, e, hmem, he⟩
  have hstart : I first st :=
    ⟨by omega, own, hpages, h, Allocates.refl st own cr3 first, fun p hp => Or.inl hp⟩
  obtain ⟨va, hle, hva, own', hpages', h', hall, hentered⟩ :=
    forPages_invariant hstop hbody hstart hrun
  have hlast : va % 0x1000 = 0 ∧ (va = first ∨ va < stop + 0x1000) := ⟨hva.1, hva.2.2⟩
  refine ⟨own', hpages', h', hall.to_stop hle hlast, fun p hp => (hentered p hp).imp_right ?_⟩
  rintro ⟨va', hin, hentry⟩
  exact ⟨va', hin.to_stop hlast, hentry⟩

/-- After `free_region` the tables on the paths of the region are entered there. -/
theorem freeRegion_entered (h : TableInv sites st roots own) (hpages : PageInv st sites)
    (hphys : Physical sites) (hroot : cr3 ∈ roots) (hstop : stop ≤ 0x800000000000)
    (hfrees : Frees sites st st' own own' cr3 start stop)
    (hmapped : ∀ va, InRegion start stop va → ∃ c, Maps own cr3 va c) {p : Nat}
    (hentered : EnteredIn st.mem cr3 start stop p) (hp : p ∈ st'.allocated) :
    EnteredIn st'.mem cr3 start stop p := by
  obtain ⟨va, hin, e, hmem, hone, he⟩ := hentered
  obtain ⟨c, hmaps⟩ := hmapped va hin
  have hva : va < 0x800000000000 := Nat.lt_of_lt_of_le hin.2.1 hstop
  obtain ⟨r, hr, hheight, hfour, -⟩ := h.root_width hroot hva
  have hindices : ∀ i ∈ pathIndices va 3, i < 512 := fun i hi => pathIndices_lt hi
  have hne : pteAddr e ≠ c := by
    rw [he]
    rintro rfl
    exact ((hfrees.allocated p).mp hp).2 ⟨va, hin, hmaps⟩
  exact ⟨va, hin, e, hfrees.mem_pathFrom h hpages hphys hmaps hr hheight (by omega) hindices hmem
    hne, hone, he⟩

/-- Pages that are given back make room. -/
theorem freeRegion_length (h : TableInv sites st roots own) (hpages' : PageInv st' sites)
    (hfrees : Frees sites st st' own own' cr3 start stop) {n : Nat}
    (hregion : ∀ k < n, InRegion start stop (start + k * 0x1000))
    (hstop : stop ≤ 0x800000000000)
    (hmapped : ∀ va, InRegion start stop va → ∃ c, Maps own cr3 va c) :
    st'.allocated.length + n ≤ st.allocated.length := by
  choose page hpage using fun k : Fin n => hmapped _ (hregion k k.isLt)
  have hinj : Function.Injective page := by
    intro j k hjk
    have hj := hpage j
    rw [hjk] at hj
    have hjlt := Nat.lt_of_lt_of_le (hregion j j.isLt).2.1 hstop
    have hklt := Nat.lt_of_lt_of_le (hregion k k.isLt).2.1 hstop
    have hsame := ((hpage k).injective hj (Nat.lt_trans hklt (by decide))
      (Nat.lt_trans hjlt (by decide))).2
    have hjalign := (hregion j j.isLt).2.2
    have hkalign := (hregion k k.isLt).2.2
    exact Fin.ext (by omega)
  have hnodup : ((List.finRange n).map page ++ st'.allocated).Nodup := by
    refine List.nodup_append.mpr ⟨(List.nodup_finRange n).map hinj, hpages'.nodup, ?_⟩
    rintro p hp q hq rfl
    obtain ⟨k, -, rfl⟩ := List.mem_map.mp hp
    exact ((hfrees.allocated _).mp hq).2 ⟨_, hregion k k.isLt, hpage k⟩
  have hsubset : (List.finRange n).map page ++ st'.allocated ⊆ st.allocated := by
    intro p hp
    rcases List.mem_append.mp hp with hp | hp
    · obtain ⟨k, -, rfl⟩ := List.mem_map.mp hp
      obtain ⟨pt, i, howned⟩ := (hpage k).owned
      exact h.allocated howned (by simp)
    · exact ((hfrees.allocated p).mp hp).1
  have hle := (hnodup.subperm hsubset).length_le
  simp only [List.length_append, List.length_map, List.length_finRange] at hle
  omega

/-- A region whose tables are there takes one page of the allocator for each of its own. -/
theorem allocateRegion_ready (h : TableInv sites st roots own) (hpages : PageInv st sites)
    (hphys : Physical sites) (hroot : cr3 ∈ roots) (hstop : stop ≤ 0x800000000000)
    (hflags : PageFlags flags)
    (hready : ∀ va, InRegion (pageRoundDown start) stop va → Ready own cr3 (pathIndices va 3))
    {n : Nat} (hcount : stop ≤ pageRoundDown start + n * 0x1000) (hfuel : n ≤ fuel)
    (hfree : st.allocated.length + n ≤ managedPages sites) :
    ∃ st' own', st.allocateRegion (fuel + 1) cr3 start stop flags = some st' ∧
      PageInv st' sites ∧ TableInv sites st' roots own' ∧
      Allocates sites st st' own own' cr3 (pageRoundDown start) stop ∧
      ∀ p ∈ st'.allocated, p ∈ st.allocated ∨ MappedIn own' cr3 (pageRoundDown start) stop p := by
  have halign := pageRoundDown_aligned start
  rw [PageState.allocateRegion]
  generalize pageRoundDown start = first at halign hready hcount
  have hfuel' : stop ≤ first + fuel * 0x1000 :=
    Nat.le_trans hcount (Nat.add_le_add_left (Nat.mul_le_mul_right _ hfuel) _)
  let I : Nat → PageState → Prop := fun va s => ∃ k ≤ n, va = first + k * 0x1000 ∧
    (va = first ∨ va < stop + 0x1000) ∧ s.allocated.length ≤ st.allocated.length + k ∧
    ∃ own', PageInv s sites ∧ TableInv sites s roots own' ∧
      Allocates sites st s own own' cr3 first va ∧
      ∀ p ∈ s.allocated, p ∈ st.allocated ∨ MappedIn own' cr3 first va p
  have hbody : ∀ va s, I va s → va < stop → ∃ s', s.mapMemoryPage cr3 va flags = some s' ∧
      I (va + 0x1000) s' := by
    rintro va s ⟨k, hk, rfl, -, hlength, own₁, hpages₁, h₁, hall, hnew⟩ hlt
    have huser : first + k * 0x1000 < 0x800000000000 := by omega
    have hin : InRegion first stop (first + k * 0x1000) := ⟨by omega, hlt, by omega⟩
    have hready₁ := (hready _ hin).mono hall.grows.keeps
    have hready' : ∃ s', s.mapPath cr3 flags (pathIndices (first + k * 0x1000) 3) = some s' ∧
        s'.allocated.length ≤ s.allocated.length + 1 :=
      mapPath_ready h₁ hpages₁ hphys hready₁ (by rw [pathIndices_length]) (by omega)
    obtain ⟨s', hmap, hlength'⟩ := hready'
    rw [← PageState.mapMemoryPage_eq] at hmap
    obtain ⟨-, -, own₂, hpages₂, h₂, hall₂, -⟩ := allocates_step hphys hroot hflags
      ⟨by omega, by omega, huser⟩ hpages₁ h₁ hall (Alike.refl sites [] own₁ s) hmap
    obtain ⟨own₃, leaf, hpages₃, h₃, hgrows, hpath⟩ :=
      h₁.mapMemoryPage hpages₁ hphys hroot huser hflags hmap
    have hsame : ∀ va' < 0x800000000000, ∀ c, Maps own₃ cr3 va' c → Maps own₂ cr3 va' c :=
      fun va' hva' c hc => (h₂.pageAt_iff hpages₂ hphys hroot hva').mp
        ((h₃.pageAt_iff hpages₃ hphys hroot hva').mpr hc)
    have hold : ∀ p ∈ s.allocated, p ∈ st.allocated ∨
        MappedIn own₂ cr3 first (first + k * 0x1000 + 0x1000) p := by
      intro p hp
      refine (hnew p hp).imp_right ?_
      rintro ⟨va', hin', hmaps⟩
      exact ⟨va', ⟨hin'.1, Nat.lt_add_right _ hin'.2.1, hin'.2.2⟩,
        hsame va' (Nat.lt_trans hin'.2.1 huser) p (hmaps.mono hgrows.keeps)⟩
    refine ⟨s', hmap, k + 1, by omega, by omega, by omega, by omega, own₂, hpages₂, h₂, hall₂,
      fun p hp => ?_⟩
    rcases h₁.mapMemoryPage_new hpages₁ hphys hroot huser hflags hmap hp with
      hp | ⟨e, hmem, -, rfl⟩
    · exact hold p hp
    · rcases hready₁.entry_cases hgrows h₃ hpages₃ hphys hpath.reaches
        (by rw [pathIndices_length]) hmem with he | ⟨r, hr, hheight⟩
      · rw [he]
        exact Or.inr ⟨_, ⟨by omega, by omega, by omega⟩,
          hsame _ huser leaf hpath.reaches⟩
      · exact hold _ (h₁.allocated hr hheight)
  have hstart : I first st := ⟨0, Nat.zero_le n, by omega, Or.inl rfl, Nat.le_refl _, own, hpages,
    h, Allocates.refl st own cr3 first, fun p hp => Or.inl hp⟩
  have hkept : ∀ va s s', I va s → va < stop → s.mapMemoryPage cr3 va flags = some s' →
      I (va + 0x1000) s' := by
    intro va s s' hI hlt hmap
    obtain ⟨s'', hmap', hnext⟩ := hbody va s hI hlt
    rw [hmap] at hmap'
    cases hmap'
    exact hnext
  obtain ⟨-, st', hrun, -⟩ := forPages_some hstop hbody hstart hfuel'
  obtain ⟨va, hle, k, -, hva, hlast, -, own', hpages', h', hall, hnew⟩ :=
    forPages_invariant hstop hkept hstart hrun
  have hend : va % 0x1000 = 0 ∧ (va = first ∨ va < stop + 0x1000) := ⟨by omega, hlast⟩
  refine ⟨st', own', hrun, hpages', h', hall.to_stop hle hend, fun p hp =>
    (hnew p hp).imp_right ?_⟩
  rintro ⟨va', hin, hmaps⟩
  exact ⟨va', hin.to_stop hend, hmaps⟩

end TableInv

/-- The number of pages that the loops over `[start, stop)` visit. -/
def pagesOf (start stop : Nat) : Nat := (stop - pageRoundDown start + 0xfff) / 0x1000

theorem pagesOf_le (start stop : Nat) :
    stop ≤ pageRoundDown start + pagesOf start stop * 0x1000 := by
  unfold pagesOf
  omega

theorem pagesOf_inRegion (start stop : Nat) {k : Nat} (hk : k < pagesOf start stop) :
    InRegion (pageRoundDown start) stop (pageRoundDown start + k * 0x1000) := by
  have halign := pageRoundDown_aligned start
  unfold pagesOf at hk
  exact ⟨by omega, by omega, by omega⟩

/-- What is left of `allocate_region` and `free_region` with the same bounds:
`st₁` is the state between the two. -/
structure LeavesTables (roots : List Nat) (st st₁ st₂ : PageState) (cr3 start stop : Nat) :
    Prop where
  translations : ∀ t ∈ roots, ∀ va < 0x800000000000, ∀ p,
    PageAt st₂.mem t va p ↔ PageAt st.mem t va p
  leaves : ∀ va, InRegion start stop va →
    ∃ p, PageAt st₁.mem cr3 va p ∧ ¬st.Marked p ∧ st₁.Marked p ∧ ¬st₂.Marked p
  kept : ∀ p, st.Marked p → st₂.Marked p
  tables : ∀ p, st₂.Marked p → st.Marked p ∨ EnteredIn st₂.mem cr3 start stop p

end Regions

section Pairs

variable {st st₁ st₂ : PageState} {sites : List Site} {roots : List Nat}
  {own own₁ own₂ : Nat → Option Role} {cr3 start stop : Nat}

/-- A region of fresh pages, mapped and unmapped. -/
theorem TableInv.leavesTables (h : TableInv sites st roots own) (hpages : PageInv st sites)
    (hphys : Physical sites) (hroot : cr3 ∈ roots) (hstop : stop ≤ 0x800000000000)
    (hnone : ∀ va, InRegion start stop va → ∀ p, ¬PageAt st.mem cr3 va p)
    (hpages₁ : PageInv st₁ sites) (h₁ : TableInv sites st₁ roots own₁)
    (hall : Allocates sites st st₁ own own₁ cr3 start stop)
    (hentered : ∀ p ∈ st₁.allocated, p ∈ st.allocated ∨ EnteredIn st₁.mem cr3 start stop p)
    (hpages₂ : PageInv st₂ sites) (h₂ : TableInv sites st₂ roots own₂)
    (hfrees : Frees sites st₁ st₂ own₁ own₂ cr3 start stop) :
    LeavesTables roots st st₁ st₂ cr3 start stop := by
  have hfresh : ∀ {va p}, InRegion start stop va → Maps own₁ cr3 va p → p ∉ st.allocated := by
    intro va p hin hmaps
    have hva : va < 0x800000000000 := Nat.lt_of_lt_of_le hin.2.1 hstop
    refine ((hall.maps_cases h hmaps hva hstop).resolve_left fun hold => ?_).2.1
    exact hnone va hin p ((h.pageAt_iff hpages hphys hroot hva).mpr hold)
  refine ⟨fun t ht va hva p => ?_, fun va hin => ?_, fun p hp => ?_, fun p hp => ?_⟩
  · rw [h.pageAt_iff hpages hphys ht hva, h₂.pageAt_iff hpages₂ hphys ht hva, hfrees.maps_iff]
    constructor
    · rintro ⟨hmaps, hout⟩
      refine (hall.maps_cases h hmaps hva hstop).resolve_right fun hnew => ?_
      exact hout ((mappedIn_iff hmaps hva hstop).mpr ⟨hnew.1, hnew.2.2⟩)
    · intro hmaps
      have hmaps₁ := hmaps.mono hall.grows.keeps
      refine ⟨hmaps₁, fun hmapped => ?_⟩
      obtain ⟨va', hin, hmaps'⟩ := hmapped
      obtain ⟨pt, i, howned⟩ := hmaps.owned
      exact hfresh hin hmaps' (h.allocated howned (by simp))
  · have hva : va < 0x800000000000 := Nat.lt_of_lt_of_le hin.2.1 hstop
    obtain ⟨p, hmaps⟩ := hall.mapped va hin
    obtain ⟨pt, i, howned⟩ := hmaps.owned
    refine ⟨p, (h₁.pageAt_iff hpages₁ hphys hroot hva).mpr hmaps, ?_, ?_, ?_⟩
    · rw [hpages.marked_iff]
      exact hfresh hin hmaps
    · exact hpages₁.marked_of_mem (h₁.allocated howned (by simp))
    · rw [hpages₂.marked_iff, hfrees.allocated]
      exact fun hp => hp.2 ⟨va, hin, hmaps⟩
  · rw [hpages.marked_iff] at hp
    rw [hpages₂.marked_iff, hfrees.allocated]
    refine ⟨hall.grows.allocated p hp, ?_⟩
    rintro ⟨va, hin, hmaps⟩
    exact hfresh hin hmaps hp
  · rw [hpages₂.marked_iff] at hp
    rw [hpages.marked_iff]
    refine (hentered p ((hfrees.allocated p).mp hp).1).imp_right fun he => ?_
    exact h₁.freeRegion_entered hpages₁ hphys hroot hstop hfrees hall.mapped he hp

end Pairs

/-- With pages for the region and its tables left, `allocate_region` and `free_region` leave
the tables behind, and nothing else; the same pair once more leaves nothing behind. -/
theorem allocateRegion_freeRegion {fuel fuel' : Nat} {sites : List Site} {roots : List Nat}
    {st₀ st : PageState} {run : List SpaceAction} {cr3 start stop flags : Nat}
    (hinit : SpaceInit sites roots st₀) (hbuilt : ∀ a ∈ run, a.Maps roots)
    (hrun : (spaceMachine fuel').exec st₀ run = some st) (hroot : cr3 ∈ roots)
    (hstop : stop ≤ 0x800000000000) (hflags : PageFlags flags)
    (hnone : ∀ va, InRegion (pageRoundDown start) stop va → ∀ p, ¬PageAt st.mem cr3 va p)
    (hfree : st.allocated.length + 4 * pagesOf start stop ≤ managedPages sites)
    (hfuel : pagesOf start stop ≤ fuel) :
    ∃ st₁ st₂, st.allocateRegion (fuel + 1) cr3 start stop flags = some st₁ ∧
      st₁.freeRegion (fuel + 1) cr3 start stop = some st₂ ∧
      LeavesTables roots st st₁ st₂ cr3 (pageRoundDown start) stop ∧
      ∃ st₃ st₄, st₂.allocateRegion (fuel + 1) cr3 start stop flags = some st₃ ∧
        st₃.freeRegion (fuel + 1) cr3 start stop = some st₄ ∧
        ∀ p, st₄.Marked p ↔ st₂.Marked p := by
  have hinv := hinit.built hbuilt hrun
  have hphys := hinit.physical
  obtain ⟨own, h⟩ := hinv.tables
  have hcount := pagesOf_le start stop
  have hcovered : stop ≤ pageRoundDown start + fuel * 0x1000 :=
    Nat.le_trans hcount (Nat.add_le_add_left (Nat.mul_le_mul_right _ hfuel) _)
  obtain ⟨st₁, hallocate, -⟩ :=
    h.allocateRegion_some hinv.pages hphys hroot hstop hflags hcount hfuel hfree
  obtain ⟨own₁, hpages₁, h₁, hall, hentered⟩ :=
    h.allocateRegion_entered hinv.pages hphys hroot hstop hflags hallocate
  have hsome₂ : ∃ st₂, st₁.freeRegion (fuel + 1) cr3 start stop = some st₂ :=
    PageState.freeRegion_some hstop hcovered
  obtain ⟨st₂, hfreed⟩ := hsome₂
  obtain ⟨own₂, hpages₂, h₂, hfrees⟩ := h₁.freeRegion hpages₁ hphys hroot hstop hfreed
  refine ⟨st₁, st₂, hallocate, hfreed, h.leavesTables hinv.pages hphys hroot hstop hnone hpages₁ h₁
    hall hentered hpages₂ h₂ hfrees, ?_⟩
  -- the tables on the paths of the region are left, and room for its pages
  have hready : ∀ va, InRegion (pageRoundDown start) stop va →
      Ready own₂ cr3 (pathIndices va 3) := by
    intro va hin
    obtain ⟨c, hmaps⟩ := hall.mapped va hin
    refine Reaches.ready hmaps fun d r hd hr => (hfrees.owned d r).mpr ⟨hd, fun hin' => ?_⟩
    have := hin'.owned hd
    omega
  have hroom := h₁.freeRegion_length hpages₂ hfrees
    (fun k hk => pagesOf_inRegion start stop hk) hstop hall.mapped
  have hmanaged := hpages₁.length_le
  rw [← managedPages] at hmanaged
  obtain ⟨st₃, own₃, hagain, hpages₃, h₃, hall₃, honly⟩ :=
    h₂.allocateRegion_ready hpages₂ hphys hroot hstop hflags hready hcount hfuel (by omega)
  have hsome₄ : ∃ st₄, st₃.freeRegion (fuel + 1) cr3 start stop = some st₄ :=
    PageState.freeRegion_some hstop hcovered
  obtain ⟨st₄, hfreed₄⟩ := hsome₄
  obtain ⟨own₄, hpages₄, -, hfrees₄⟩ := h₃.freeRegion hpages₃ hphys hroot hstop hfreed₄
  refine ⟨st₃, st₄, hagain, hfreed₄, fun p => ?_⟩
  rw [hpages₄.marked_iff, hpages₂.marked_iff, hfrees₄.allocated]
  constructor
  · rintro ⟨hp, hout⟩
    exact (honly p hp).resolve_right hout
  · intro hp
    refine ⟨hall₃.grows.allocated p hp, ?_⟩
    rintro ⟨va, hin, hmaps⟩
    have hva : va < 0x800000000000 := Nat.lt_of_lt_of_le hin.2.1 hstop
    rcases hall₃.maps_cases h₂ hmaps hva hstop with hold | ⟨-, hfresh, -⟩
    · exact (hfrees.maps_iff.mp hold).2
        ((mappedIn_iff (hfrees.maps_iff.mp hold).1 hva hstop).mpr
          ⟨rfl, by rwa [Nat.div_mul_cancel (Nat.dvd_of_mod_eq_zero hin.2.2)]⟩)
    · exact hfresh hp

/-- A region behind the tables of a page in use, with its bounds inside pages. -/
theorem allocateRegion_freeRegion_unaligned : ∃ st₀ sites st st₁ st₂,
    SpaceInit sites [0x1000] st₀ ∧
    (spaceMachine 0).exec st₀ [.map 0x1000 0x400000 7] = some st ∧
    st.allocateRegion 4 0x1000 0x401010 0x403010 7 = some st₁ ∧
    st₁.freeRegion 4 0x1000 0x401010 0x403010 = some st₂ ∧
    LeavesTables [0x1000] st st₁ st₂ 0x1000 0x401000 0x403010 := by
  obtain ⟨st₀, sites, hinit, -, hcount, hallocated⟩ := bootSpace
  have hroot : 0x1000 ∈ [0x1000] := List.mem_singleton.mpr rfl
  have hbuilt : ∀ a ∈ [SpaceAction.map 0x1000 0x400000 7], a.Maps [0x1000] := by decide
  obtain ⟨own, h⟩ := hinit.inv.tables
  have hpage : ∃ st, st₀.mapMemoryPage 0x1000 0x400000 7 = some st ∧
      st.allocated.length ≤ st₀.allocated.length + 4 :=
    h.mapMemoryPage_some hinit.pages hinit.physical hroot (by decide) (by decide)
      (by rw [hallocated, hcount]; decide)
  obtain ⟨st, hpage, hlength⟩ := hpage
  rw [hallocated, List.length_nil] at hlength
  have hrun : (spaceMachine 0).exec st₀ [.map 0x1000 0x400000 7] = some st := by
    simp only [Machine.exec, spaceMachine, spaceStep, hpage, Option.bind_some]
  have hmaps : MapsPage [0x1000] st₀ st 0x1000 0x400000 :=
    h.mapsPage hinit.pages hinit.physical hroot (by decide) (by decide)
      (by rw [hallocated]; exact hlength) hpage
  have hnone : ∀ va, InRegion (pageRoundDown 0x401010) 0x403010 va →
      ∀ p, ¬PageAt st.mem 0x1000 va p := by
    intro va hin p hp
    have hfirst : pageRoundDown 0x401010 = 0x401000 := by decide
    rw [hfirst] at hin
    have hlt := hin.2.1
    have hle := hin.1
    have hva : va < 0x800000000000 := Nat.lt_trans hlt (by decide)
    rw [hmaps.others 0x1000 hroot va hva (Or.inr (by omega)),
      h.pageAt_iff hinit.pages hinit.physical hroot hva] at hp
    exact hinit.not_maps h hroot hva hp
  have hregion : pagesOf 0x401010 0x403010 = 3 := by decide
  have hcount' : pagesOf 0x401010 0x403010 ≤ 3 := Nat.le_of_eq hregion
  obtain ⟨st₁, st₂, hallocate, hfreed, hleaves, -⟩ :=
    allocateRegion_freeRegion hinit hbuilt hrun hroot (by decide) (.of_kernel (.inr rfl)) hnone
      (by rw [hregion, hcount]; omega) hcount'
  exact ⟨st₀, sites, st, st₁, st₂, hinit, hrun, hallocate, hfreed, hleaves⟩

end BayosKernel
