import BayosKernel.PageMapping

/-!
Paths through the tables. `Maps` is the view of an address space in which its
tables are forgotten: the page that a virtual address is mapped to.
-/

namespace BayosKernel

open Foundation

/-- The path of the indices from the table `t` on ends at `c`. -/
def Reaches (own : Nat → Option Role) : Nat → List Nat → Nat → Prop
  | t, [], c => c = t
  | t, i :: rest, c => ∃ d, own d = some ⟨rest.length, t, i⟩ ∧ Reaches own d rest c

def pathIndices (va : Nat) : Nat → List Nat
  | 0 => [ptIndex va 0]
  | level + 1 => ptIndex va (level + 1) :: pathIndices va level

def Maps (own : Nat → Option Role) (cr3 va c : Nat) : Prop :=
  Reaches own cr3 (pathIndices va 3) c

namespace Reaches

variable {own own' : Nat → Option Role} {indices : List Nat} {t c : Nat}

theorem owned (h : Reaches own t indices c) (hne : indices ≠ []) :
    ∃ p i, own c = some ⟨0, p, i⟩ := by
  induction indices generalizing t with
  | nil => exact absurd rfl hne
  | cons i rest ih =>
      obtain ⟨d, hd, hrest⟩ := h
      cases rest with
      | nil =>
          cases hrest
          exact ⟨t, i, hd⟩
      | cons j rest => exact ih hrest (by simp)

theorem mono (h : Reaches own t indices c) (hkeeps : ∀ d r, own d = some r → own' d = some r) :
    Reaches own' t indices c := by
  induction indices generalizing t with
  | nil => exact h
  | cons i rest ih =>
      obtain ⟨d, hd, hrest⟩ := h
      exact ⟨d, hkeeps d _ hd, ih hrest⟩

/-- A path needs its tables and its end only. -/
theorem transfer (h : Reaches own t indices c)
    (htables : ∀ d r, own d = some r → 0 < r.height → own' d = some r)
    (hc : ∀ r, own c = some r → own' c = some r) : Reaches own' t indices c := by
  induction indices generalizing t with
  | nil => exact h
  | cons i rest ih =>
      obtain ⟨d, hd, hrest⟩ := h
      refine ⟨d, ?_, ih hrest⟩
      cases rest with
      | nil =>
          cases hrest
          exact hc _ hd
      | cons j rest => exact htables d _ hd (by simp)

/-- A page lies on one path. -/
theorem injective {indices' : List Nat} {t' : Nat} (h : Reaches own t indices c)
    (h' : Reaches own t' indices' c) (hlength : indices.length = indices'.length) :
    t = t' ∧ indices = indices' := by
  induction indices generalizing t t' indices' with
  | nil =>
      cases indices' with
      | nil =>
          cases h
          cases h'
          exact ⟨rfl, rfl⟩
      | cons j rest' => simp at hlength
  | cons i rest ih =>
      cases indices' with
      | nil => simp at hlength
      | cons j rest' =>
          obtain ⟨d, hd, hrest⟩ := h
          obtain ⟨d', hd', hrest'⟩ := h'
          obtain ⟨rfl, rfl⟩ := ih hrest hrest' (by simpa using hlength)
          rw [hd] at hd'
          cases hd'
          exact ⟨rfl, rfl⟩

/-- A path of the old tables when its end was owned before. -/
theorem back {st : PageState} {roots : List Nat} (h : TableInv sites st roots own)
    (hkeeps : ∀ d r, own d = some r → own' d = some r) (hpath : Reaches own' t indices c)
    (hlength : indices.length ≤ 4) (hne : indices ≠ []) {q : Role} (hc : own c = some q) :
    Reaches own t indices c ∧ ∃ r, own t = some r := by
  induction indices generalizing t with
  | nil => exact absurd rfl hne
  | cons i rest ih =>
      obtain ⟨d, hd, hrest⟩ := hpath
      have hold : Reaches own d rest c ∧ ∃ r, own d = some r := by
        cases rest with
        | nil =>
            cases hrest
            exact ⟨rfl, q, hc⟩
        | cons j rest => exact ih hrest (by simp only [List.length_cons] at *; omega) (by simp)
      obtain ⟨hrest, r, hr⟩ := hold
      have hsame := hkeeps d r hr
      rw [hd] at hsame
      cases hsame
      obtain ⟨p, -, hp, -⟩ := h.linked d _ hr (by simp only [List.length_cons] at *; omega)
      exact ⟨⟨d, hr, hrest⟩, p, hp⟩

/-- No path goes through an entry that is zero. -/
theorem present {st : PageState} {roots : List Nat} {i : Nat} {rest : List Nat}
    (h : TableInv sites st roots own) (hpath : Reaches own t (i :: rest) c) (hlength : rest.length < 4) :
    entry st.mem t i ≠ 0 := by
  obtain ⟨d, hd, -⟩ := hpath
  obtain ⟨-, f, -, -, -, hf, he⟩ := h.linked d _ hd hlength
  have := hf.2
  simp only at he
  omega

/-- The page at the end of a path through an entry that was zero is a fresh one: an old page
would lie on an old path. -/
theorem fresh {st st' : PageState} {roots : List Nat} {i : Nat} {rest : List Nat}
    (h : TableInv sites st roots own) (hgrows : Grows sites st st' own own')
    (hpath : Reaches own' t (i :: rest) c) (hlength : rest.length < 4)
    (hzero : entry st.mem t i = 0) : c ∉ st.allocated := by
  intro hmem
  obtain ⟨p, k, howned⟩ := hpath.owned (by simp)
  have hold := (hgrows.fresh c _ howned).resolve_right fun hnot => hnot hmem
  have hback := hpath.back h hgrows.keeps hlength (by simp) hold
  exact hback.1.present h hlength hzero

/-- A path ends at one page, since an entry refers to one page. -/
theorem unique {st : PageState} {sites : List Site} {roots : List Nat} {c' : Nat}
    (h : TableInv sites st roots own) (hpages : PageInv st sites) (hpath : Reaches own t indices c)
    (hpath' : Reaches own t indices c') (hlength : indices.length ≤ 4) : c = c' := by
  induction indices generalizing t with
  | nil =>
      cases hpath
      cases hpath'
      rfl
  | cons i rest ih =>
      simp only [List.length_cons] at hlength
      obtain ⟨d, hd, hrest⟩ := hpath
      obtain ⟨d', hd', hrest'⟩ := hpath'
      have hsame : d = d' :=
        h.child_unique hpages hd hd' (by simp only; omega) (by simp only; omega) rfl rfl
      subst hsame
      exact ih hrest hrest' (by omega)

/-- Without a page of data all other paths stay. -/
theorem erase {p i : Nat} {d : Nat} (hd : own d = some ⟨0, p, i⟩) (hne : indices ≠ []) :
    Reaches (Function.update own d none) t indices c ↔ Reaches own t indices c ∧ c ≠ d := by
  induction indices generalizing t with
  | nil => exact absurd rfl hne
  | cons j rest ih =>
      simp only [Reaches]
      cases rest with
      | nil =>
          simp only [Reaches, List.length_nil]
          constructor
          · rintro ⟨e, he, rfl⟩
            by_cases hed : c = d
            · rw [hed, Function.update_self] at he
              cases he
            · rw [Function.update_of_ne hed] at he
              exact ⟨⟨c, he, rfl⟩, hed⟩
          · rintro ⟨⟨e, he, rfl⟩, hed⟩
            exact ⟨c, by rw [Function.update_of_ne hed]; exact he, rfl⟩
      | cons k rest =>
          simp only [ih (by simp : k :: rest ≠ [])]
          constructor
          · rintro ⟨e, he, hrest, hcd⟩
            have hed : e ≠ d := by
              rintro rfl
              rw [Function.update_self] at he
              cases he
            rw [Function.update_of_ne hed] at he
            exact ⟨⟨e, he, hrest⟩, hcd⟩
          · rintro ⟨⟨e, he, hrest⟩, hcd⟩
            have hed : e ≠ d := by
              rintro rfl
              rw [hd] at he
              simp at he
            exact ⟨e, by rw [Function.update_of_ne hed]; exact he, hrest, hcd⟩

end Reaches

/-- `map_memory_page` as a recursion over the indices of the path. -/
def PageState.mapPath (st : PageState) (table flags : Nat) : List Nat → Option PageState
  | [] => some st
  | [i] => st.ensurePage table i flags
  | i :: j :: rest =>
      (st.ensureTable table i flags).bind fun (st, child) => st.mapPath child flags (j :: rest)

theorem PageState.mapMemoryPage_eq (st : PageState) (cr3 virt flags : Nat) :
    st.mapMemoryPage cr3 virt flags = st.mapPath cr3 flags (pathIndices virt 3) := rfl

theorem pathFrom_present {m : ByteMemory} {t i c : Nat} {rest : List Nat}
    (hone : entry m t i &&& 1 = 1) (haddr : pteAddr (entry m t i) = c) :
    pathFrom m t (i :: rest) = entry m t i :: pathFrom m c rest := by
  simp only [pathFrom, hone, haddr]
  rfl

theorem pathFrom_word {m : ByteMemory} {t i c f : Nat} {rest : List Nat}
    (hc : c % 0x1000 = 0) (hlt : c < 0x10000000000000) (hf : PageFlags f)
    (he : entry m t i = c + f) : pathFrom m t (i :: rest) = (c + f) :: pathFrom m c rest := by
  obtain ⟨-, hone, -, haddr, -⟩ := word_fields hc hlt hf
  rw [pathFrom_present (by rw [he, hone]) (by rw [he, haddr]), he]

theorem pathFrom_absent {m : ByteMemory} {t i : Nat} {rest : List Nat}
    (hzero : entry m t i = 0) : pathFrom m t (i :: rest) = [0] := by
  simp [pathFrom, hzero]

/-- What a call leaves on its path: it ends at a page, which was there or is
fresh, and every entry that was not there is made with the flags. -/
structure PathMapped (st st' : PageState) (own own' : Nat → Option Role) (t flags : Nat)
    (indices : List Nat) (leaf : Nat) : Prop where
  reaches : Reaches own' t indices leaf
  leaves : ∀ d q, own' d = some q → q.height = 0 → own d = some q ∨ d = leaf
  outcome : (st' = st ∧ own' = own) ∨ leaf ∉ st.allocated
  kept : ∀ e ∈ pathFrom st.mem t indices, e &&& 1 = 1 → e ∈ pathFrom st'.mem t indices
  made : ∀ e ∈ pathFrom st'.mem t indices, e &&& 1 = 1 ∧
    (e ∈ pathFrom st.mem t indices ∨ ∃ c, c % 0x1000 = 0 ∧ e = c + flags)

namespace PathMapped

variable {st st₁ st' : PageState} {own own₁ own' : Nat → Option Role}
  {t c f flags leaf i j : Nat} {rest : List Nat}

/-- A page that was there. -/
theorem page_old (hca : c % 0x1000 = 0) (hlt : c < 0x10000000000000) (hf : PageFlags f)
    (hc : own c = some ⟨0, t, i⟩) (he : entry st.mem t i = c + f) :
    PathMapped st st own own t flags [i] c where
  reaches := ⟨c, hc, rfl⟩
  leaves d q hd _ := Or.inl hd
  outcome := Or.inl ⟨rfl, rfl⟩
  kept e hmem _ := hmem
  made e hmem := by
    obtain ⟨-, hone, -⟩ := word_fields hca hlt hf
    have hword := hmem
    rw [pathFrom_word hca hlt hf he, pathFrom, List.mem_singleton] at hword
    rw [hword] at hmem ⊢
    exact ⟨hone, Or.inl hmem⟩

theorem page_new (hca : c % 0x1000 = 0) (hlt : c < 0x10000000000000) (hflags : PageFlags flags)
    (hc : own' c = some ⟨0, t, i⟩) (hnew : ∀ d q, own' d = some q → own d = some q ∨ d = c)
    (hzero : entry st.mem t i = 0) (hfresh : c ∉ st.allocated)
    (he : entry st'.mem t i = c + flags) : PathMapped st st' own own' t flags [i] c where
  reaches := ⟨c, hc, rfl⟩
  leaves d q hd _ := hnew d q hd
  outcome := Or.inr hfresh
  kept e hmem hpresent := by
    rw [pathFrom_absent hzero, List.mem_singleton] at hmem
    simp [hmem] at hpresent
  made e hmem := by
    obtain ⟨-, hone, -⟩ := word_fields hca hlt hflags
    rw [pathFrom_word hca hlt hflags he, pathFrom, List.mem_singleton] at hmem
    rw [hmem]
    exact ⟨hone, Or.inr ⟨c, hca, rfl⟩⟩

/-- The path goes on from a table that was there. -/
theorem through_old (h : PathMapped st st' own own' c flags rest leaf) (hca : c % 0x1000 = 0)
    (hlt : c < 0x10000000000000) (hf : PageFlags f) (hc : own' c = some ⟨rest.length, t, i⟩)
    (he : entry st.mem t i = c + f) (he' : entry st'.mem t i = c + f) :
    PathMapped st st' own own' t flags (i :: rest) leaf where
  reaches := ⟨c, hc, h.reaches⟩
  leaves := h.leaves
  outcome := h.outcome
  kept := by
    rw [pathFrom_word hca hlt hf he, pathFrom_word hca hlt hf he']
    intro e hmem hpresent
    rcases List.mem_cons.mp hmem with rfl | hmem
    · exact List.mem_cons_self
    · exact List.mem_cons_of_mem _ (h.kept e hmem hpresent)
  made := by
    obtain ⟨-, hone, -⟩ := word_fields hca hlt hf
    rw [pathFrom_word hca hlt hf he, pathFrom_word hca hlt hf he']
    refine List.forall_mem_cons.mpr ⟨⟨hone, Or.inl List.mem_cons_self⟩, fun e hmem => ?_⟩
    obtain ⟨hpresent, hmade⟩ := h.made e hmem
    exact ⟨hpresent, hmade.imp_left (List.mem_cons_of_mem _)⟩

/-- The path goes on from a new table, whose entries are zero. -/
theorem through_new (h : PathMapped st₁ st' own₁ own' c flags (j :: rest) leaf)
    (hca : c % 0x1000 = 0) (hlt : c < 0x10000000000000) (hflags : PageFlags flags)
    (hc₁ : own₁ c = some ⟨(j :: rest).length, t, i⟩)
    (hc : own' c = some ⟨(j :: rest).length, t, i⟩)
    (hnew : ∀ d q, own₁ d = some q → own d = some q ∨ d = c)
    (hzero : entry st.mem t i = 0) (hclear : entry st₁.mem c j = 0)
    (he' : entry st'.mem t i = c + flags) (hfresh : leaf ∉ st.allocated) :
    PathMapped st st' own own' t flags (i :: j :: rest) leaf where
  reaches := ⟨c, hc, h.reaches⟩
  leaves d q hd hq := by
    rcases h.leaves d q hd hq with hd | rfl
    · rcases hnew d q hd with hd | rfl
      · exact Or.inl hd
      · rw [hc₁] at hd
        cases hd
        simp at hq
    · exact Or.inr rfl
  outcome := Or.inr hfresh
  kept e hmem hpresent := by
    rw [pathFrom_absent hzero, List.mem_singleton] at hmem
    simp [hmem] at hpresent
  made := by
    obtain ⟨-, hone, -⟩ := word_fields hca hlt hflags
    rw [pathFrom_word hca hlt hflags he']
    refine List.forall_mem_cons.mpr ⟨⟨hone, Or.inr ⟨c, hca, rfl⟩⟩, fun e hmem => ?_⟩
    obtain ⟨hpresent, hold | hmade⟩ := h.made e hmem
    · rw [pathFrom_absent hclear, List.mem_singleton] at hold
      simp [hold] at hpresent
    · exact ⟨hpresent, Or.inr hmade⟩

end PathMapped

/-- The call on a state, and on a twin that differs in hidden pages only. -/
theorem PageState.mapPath_lockstep {indices : List Nat} {st st' twin : PageState}
    {sites : List Site} {roots before : List Nat} {own : Nat → Option Role} {t flags : Nat}
    {r : Role} (hlike : Alike sites before own st twin)
    (h : TableInv sites st roots own) (hpages : PageInv st sites) (hphys : Physical sites)
    (ht : own t = some r) (hheight : r.height = indices.length) (hpos : 0 < r.height)
    (hle : r.height ≤ 4) (hfirst : ∀ i ∈ indices.head?, i < r.width)
    (hindices : ∀ i ∈ indices, i < 512) (hflags : PageFlags flags)
    (hmap : st.mapPath t flags indices = some st') :
    ∃ own' leaf twin', PageInv st' sites ∧ TableInv sites st' roots own' ∧
      Grows sites st st' own own' ∧ PathMapped st st' own own' t flags indices leaf ∧
      twin.mapPath t flags indices = some twin' ∧ Alike sites before own' st' twin' := by
  induction indices generalizing st twin own t r with
  | nil =>
      simp only [List.length_nil] at hheight
      omega
  | cons i rest ih =>
      have hi : i < r.width := hfirst i (by simp)
      cases rest with
      | nil =>
          simp only [List.length_cons, List.length_nil] at hheight
          obtain ⟨own', c, hpages', h', hgrows, hc, hnew, hcase⟩ :=
            h.ensurePage hpages hphys ht (by omega) hi hflags hmap
          have hca := (h'.frame hpages' hc).aligned
          have hlt := h'.lt hpages' hphys hc
          obtain ⟨twin', htwin, hlike'⟩ := hlike.ensurePage h hpages ht (by omega)
            (Nat.lt_of_lt_of_le hi r.width_le) hmap hc rfl hnew
          refine ⟨own', c, twin', hpages', h', hgrows, ?_, htwin, hlike'⟩
          rcases hcase with ⟨rfl, rfl, f, hf, he⟩ | ⟨hzero, hfresh, he⟩
          · exact PathMapped.page_old hca hlt hf hc he
          · exact PathMapped.page_new hca hlt hflags hc hnew hzero hfresh he
      | cons j rest =>
          simp only [List.length_cons] at hheight ih
          rw [PageState.mapPath] at hmap
          obtain ⟨⟨st₁, c⟩, hensure, hmap⟩ := Option.bind_eq_some_iff.mp hmap
          obtain ⟨own₁, hpages₁, h₁, hgrows₁, hc, hnew, hcase⟩ :=
            h.ensureTable hpages hphys ht (by omega) hi hflags hensure
          have hrest : ∀ k ∈ j :: rest, k < 512 := fun k hk => hindices k (by simp [hk])
          have hjwidth : ∀ k ∈ (j :: rest).head?, k < (⟨r.height - 1, t, i⟩ : Role).width :=
            Role.head_lt_width (by simp only; omega) hrest
          have htwinCase : (st₁ = st ∧ own₁ = own) ∨ (entry st.mem t i = 0 ∧ c ∉ st.allocated) :=
            hcase.imp (fun hold => ⟨hold.1, hold.2.1⟩) fun hmade => ⟨hmade.1, hmade.2.1⟩
          obtain ⟨twin₁, htwin₁, hlike₁⟩ := hlike.ensureTable h hpages ht (by omega)
            (Nat.lt_of_lt_of_le hi r.width_le) hensure h₁ hc (by simp only; omega) hnew htwinCase
          obtain ⟨own', leaf, twin', hpages', h', hgrows', hpath, htwin', hlike'⟩ := ih hlike₁ h₁
            hpages₁ hc (by simp only; omega) (by simp only; omega) (by simp only; omega) hjwidth
            hrest hmap
          have hca := (h₁.frame hpages₁ hc).aligned
          have hlt := h₁.lt hpages₁ hphys hc
          have hgrows := hgrows₁.trans hgrows'
          have hlength : (j :: rest).length < 4 := by
            simp only [List.length_cons]
            omega
          have hc₁ : own₁ c = some ⟨(j :: rest).length, t, i⟩ := by
            rw [hc, hheight]
            rfl
          have hc' := hgrows'.keeps c _ hc₁
          -- an entry of the table on the path stays once it is there
          have hentry : ∀ f, PageFlags f → entry st₁.mem t i = c + f →
              entry st'.mem t i = c + f := by
            intro f hf he
            have hodd := hf.2
            refine (hgrows'.entries t r (hgrows₁.keeps t r ht) hpos i hi ?_).trans he
            omega
          have htwin : twin.mapPath t flags (i :: j :: rest) = some twin' := by
            rw [PageState.mapPath, htwin₁]
            exact htwin'
          refine ⟨own', leaf, twin', hpages', h', hgrows, ?_, htwin, hlike'⟩
          rcases hcase with ⟨rfl, rfl, f, hf, he⟩ | ⟨hzero, -, he, hclear⟩
          · exact hpath.through_old hca hlt hf hc' he (hentry f hf he)
          · have hreaches : Reaches own' t (i :: j :: rest) leaf := ⟨c, hc', hpath.reaches⟩
            exact hpath.through_new hca hlt hflags hc₁ hc' hnew hzero
              (hclear j (hindices j (by simp))) (hentry flags hflags he)
              (hreaches.fresh h hgrows hlength hzero)

theorem PageState.mapPath_spec {indices : List Nat} {st st' : PageState} {sites : List Site}
    {roots : List Nat} {own : Nat → Option Role} {t flags : Nat} {r : Role}
    (h : TableInv sites st roots own) (hpages : PageInv st sites) (hphys : Physical sites)
    (ht : own t = some r) (hheight : r.height = indices.length) (hpos : 0 < r.height)
    (hle : r.height ≤ 4) (hfirst : ∀ i ∈ indices.head?, i < r.width)
    (hindices : ∀ i ∈ indices, i < 512) (hflags : PageFlags flags)
    (hmap : st.mapPath t flags indices = some st') :
    ∃ own' leaf, PageInv st' sites ∧ TableInv sites st' roots own' ∧ Grows sites st st' own own' ∧
      PathMapped st st' own own' t flags indices leaf := by
  obtain ⟨own', leaf, -, hpages', h', hgrows, hpath, -⟩ := PageState.mapPath_lockstep
    (Alike.refl sites [] own st) h hpages hphys ht hheight hpos hle hfirst hindices hflags hmap
  exact ⟨own', leaf, hpages', h', hgrows, hpath⟩

end BayosKernel
