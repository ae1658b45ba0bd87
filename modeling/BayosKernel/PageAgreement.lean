import BayosKernel.Foundation.Agreement
import BayosKernel.PageTableInv

/-!
The page allocator reads and writes its headers only: on memories that agree on
them it hands out the same page.
-/

namespace BayosKernel

open Foundation Area

section Scan

variable {S : Set Nat} {m m' : ByteMemory} {bitmap count i : Nat}

theorem scanBits_agree (h : Set.EqOn m m' S) (hbyte : bitmap + i ∈ S) (bits : List Nat) :
    Option.Rel (Same S) (scanBits m bitmap count i bits) (scanBits m' bitmap count i bits) := by
  induction bits with
  | nil => exact Option.Rel.none
  | cons j rest ih =>
      simp only [scanBits, ← h hbyte]
      by_cases hend : i * 8 + j ≥ count
      · rw [if_pos hend, if_pos hend]
        exact Option.Rel.some ⟨rfl, h⟩
      · rw [if_neg hend, if_neg hend]
        by_cases hclear : m (bitmap + i) &&& Bitmap.mask j = 0
        · rw [if_pos hclear, if_pos hclear]
          exact Option.Rel.some ⟨rfl, ByteMemory.update_agree h _⟩
        · rw [if_neg hclear, if_neg hclear]
          exact ih

theorem scanBytes_agree (h : Set.EqOn m m' S) {bytes : List Nat}
    (hbytes : ∀ i ∈ bytes, bitmap + i ∈ S) :
    Same S (scanBytes m bitmap count bytes) (scanBytes m' bitmap count bytes) := by
  induction bytes with
  | nil => exact ⟨rfl, h⟩
  | cons i rest ih =>
      have hscan : Option.Rel (Same S) (scanBits m bitmap count i (List.range 8))
          (scanBits m' bitmap count i (List.range 8)) :=
        scanBits_agree h (hbytes i (by simp)) (List.range 8)
      simp only [scanBytes]
      generalize scanBits m bitmap count i (List.range 8) = o at hscan
      generalize scanBits m' bitmap count i (List.range 8) = o' at hscan
      cases hscan with
      | none => exact ih fun k hk => hbytes k (by simp [hk])
      | some hsame => exact hsame

theorem findUnusedPage_agree (h : Set.EqOn m m' S)
    (hbytes : ∀ i < (count + 7) / 8, bitmap + i ∈ S) :
    Option.Rel (Same S) (findUnusedPage m bitmap count) (findUnusedPage m' bitmap count) := by
  simp only [findUnusedPage]
  split
  · exact Option.Rel.none
  · exact Option.Rel.some (scanBytes_agree h fun i hi => hbytes i (List.mem_range.mp hi))

theorem areaRead_agree {a : Nat} (h : Set.EqOn m m' S) (ha : ∀ x, a ≤ x → x < a + 24 → x ∈ S) :
    Area.read m' a = Area.read m a := by
  have hload : ∀ o ≤ 16, m'.load 8 (a + o) = m.load 8 (a + o) :=
    fun o ho => ByteMemory.load_agree h fun x hle hlt => ha x (by omega) (by omega)
  have hfirst : m'.load 8 a = m.load 8 a := hload 0 (Nat.zero_le _)
  simp only [Area.read, hfirst, hload 8 (by omega), hload 16 (by omega)]

theorem allocatePage_agree (h : Set.EqOn m m' S) {areas : List Nat}
    (hheaders : ∀ a ∈ areas, ∀ x, a ≤ x → x < a + 24 + ((Area.read m a).pagesCount + 7) / 8 → x ∈ S) :
    Option.Rel (Same S) (allocatePage m areas) (allocatePage m' areas) := by
  induction areas with
  | nil => exact Option.Rel.some ⟨rfl, h⟩
  | cons a rest ih =>
      have hheader := hheaders a (by simp)
      have hfields : ∀ x, a ≤ x → x < a + 24 → x ∈ S := fun x hle hlt => hheader x hle (by omega)
      have hread := areaRead_agree h hfields
      simp only [allocatePage, hread]
      by_cases hfull : (Area.read m a).used ≥ (Area.read m a).pagesCount
      · rw [if_pos hfull, if_pos hfull]
        exact ih fun b hb => hheaders b (by simp [hb])
      · rw [if_neg hfull, if_neg hfull]
        have hfind : Option.Rel (Same S) (findUnusedPage m (data a) (Area.read m a).pagesCount)
            (findUnusedPage m' (data a) (Area.read m a).pagesCount) :=
          findUnusedPage_agree h fun i hi => by
            simp only [data, offsetOfDataInArea]
            exact hheader _ (by omega) (by omega)
        generalize findUnusedPage m (data a) (Area.read m a).pagesCount = o at hfind
        generalize findUnusedPage m' (data a) (Area.read m a).pagesCount = o' at hfind
        cases hfind with
        | none => exact Option.Rel.none
        | @some r r' hsame =>
            obtain ⟨m₁, index⟩ := r
            obtain ⟨m₁', index'⟩ := r'
            obtain ⟨rfl, hmem⟩ := hsame
            simp only [areaRead_agree hmem hfields]
            split
            · exact Option.Rel.none
            · have hused : Set.EqOn (setUsed m₁ a (add64 (Area.read m₁ a).used 1))
                  (setUsed m₁' a (add64 (Area.read m₁ a).used 1)) S := ByteMemory.store_agree hmem
              refine Option.Rel.some ⟨?_, hused⟩
              simp only [areaRead_agree hused hfields]

end Scan

/-- The addresses outside some pages. -/
def outsidePages (hidden : Set Nat) : Set Nat := {x | ∀ p ∈ hidden, x < p ∨ p + 0x1000 ≤ x}

/-- The pages of the allocator that were not handed out before and are no tables. -/
def hiddenPages (sites : List Site) (before : List Nat) (own : Nat → Option Role) : Set Nat :=
  {p | (∃ s ∈ sites, ∃ k < s.count, p = s.page k) ∧ p ∉ before ∧
    ∀ r, own p = some r → r.height = 0}

/-- Two states that differ in the contents of hidden pages only. -/
structure Alike (sites : List Site) (before : List Nat) (own : Nat → Option Role)
    (st twin : PageState) : Prop where
  areas : twin.areas = st.areas
  allocated : twin.allocated = st.allocated
  mem : Set.EqOn st.mem twin.mem (outsidePages (hiddenPages sites before own))

section Alike

variable {st st' twin : PageState} {sites : List Site} {roots before : List Nat}
  {own own' : Nat → Option Role}

theorem Alike.refl (sites : List Site) (before : List Nat) (own : Nat → Option Role)
    (st : PageState) : Alike sites before own st st := ⟨rfl, rfl, Set.eqOn_refl _ _⟩

theorem hidden_frame (hpages : PageInv st sites) {p : Nat} (hp : p ∈ hiddenPages sites before own) :
    Frame sites p := by
  obtain ⟨⟨s, hs, k, hk, rfl⟩, -⟩ := hp
  exact hpages.frame_page hs hk

theorem header_outside (hpages : PageInv st sites) {s : Site} (hs : s ∈ sites) {x : Nat}
    (hle : s.base ≤ x) (hlt : x < s.first) : x ∈ outsidePages (hiddenPages sites before own) := by
  intro p hp
  by_contra hin
  have := (hidden_frame hpages hp).outside (show p ≤ x by omega) (by omega) hs
  omega

theorem table_outside (h : TableInv sites st roots own) (hpages : PageInv st sites) {t x : Nat}
    {r : Role} (ht : own t = some r) (hr : 0 < r.height) (hle : t ≤ x) (hlt : x < t + 0x1000) :
    x ∈ outsidePages (hiddenPages sites before own) := by
  intro p hp
  have hta := (h.frame hpages ht).aligned
  have hpa := (hidden_frame hpages hp).aligned
  have hne : p ≠ t := by
    rintro rfl
    have := hp.2.2 r ht
    omega
  omega

theorem Alike.entry_eq (hlike : Alike sites before own st twin) (h : TableInv sites st roots own)
    (hpages : PageInv st sites) {t i : Nat} {r : Role} (ht : own t = some r) (hr : 0 < r.height)
    (hi : i < 512) : entry twin.mem t i = entry st.mem t i :=
  ByteMemory.load_agree hlike.mem fun x hle hlt => by
    simp only [entryAddr] at hle hlt
    exact table_outside h hpages ht hr (by omega) (by omega)

/-- A page that was handed out before is not hidden. -/
theorem Alike.page_eq (hlike : Alike sites before own st twin) (hpages : PageInv st sites) {p i : Nat}
    (hp : p ∈ before) (halign : p % 0x1000 = 0) (hi : i < 0x1000) :
    twin.mem (p + i) = st.mem (p + i) := by
  refine (hlike.mem fun q hq => ?_).symm
  have hqa := (hidden_frame hpages hq).aligned
  have hpq : p ≠ q := by
    rintro rfl
    exact hq.2.1 hp
  omega

theorem Alike.pageInv (hlike : Alike sites before own st twin) (hpages : PageInv st sites) :
    PageInv twin sites := by
  have hinv : PageInv { st with mem := twin.mem } sites :=
    hpages.of_frame fun s hs x hle hlt => (hlike.mem (header_outside hpages hs hle hlt)).symm
  obtain ⟨areas, m, allocated⟩ := twin
  obtain ⟨rfl, rfl, -⟩ := hlike
  exact hinv

theorem Alike.tableInv (hlike : Alike sites before own st twin) (h : TableInv sites st roots own)
    (hpages : PageInv st sites) : TableInv sites twin roots own := by
  refine ⟨h.roots, fun t r ht => ?_, fun t r ht hr i hi => ?_, fun c r hc hlt => ?_⟩
  · rw [hlike.allocated]
    exact h.owned t r ht
  · rw [hlike.entry_eq h hpages ht hr (Nat.lt_of_lt_of_le hi r.width_le)]
    exact h.entries t r ht hr i hi
  · obtain ⟨q, f, hparent, hheight, hindex, hf, he⟩ := h.linked c r hc hlt
    refine ⟨q, f, hparent, hheight, hindex, hf, ?_⟩
    rw [hlike.entry_eq h hpages hparent (by omega) (Nat.lt_of_lt_of_le hindex q.width_le), he]

theorem Alike.allocatePage (hlike : Alike sites before own st twin) (hpages : PageInv st sites)
    {m : ByteMemory} {page : Nat} (hpage : allocatePage st.mem st.areas = some (m, page)) :
    ∃ m', BayosKernel.allocatePage twin.mem twin.areas = some (m', page) ∧
      Set.EqOn m m' (outsidePages (hiddenPages sites before own)) := by
  rw [hlike.areas]
  refine Same.of_some (allocatePage_agree hlike.mem fun a ha x hle hlt => ?_) hpage
  rw [hpages.places] at ha
  obtain ⟨s, hs, rfl⟩ := List.mem_map.mp ha
  rw [hpages.kept s hs] at hlt
  simp only at hlt
  have := s.room
  exact header_outside hpages hs hle (by omega)

theorem Alike.allocPageOrHalt (hlike : Alike sites before own st twin) (hpages : PageInv st sites)
    {f : Nat} (halloc : st.allocPageOrHalt = some (st', f)) :
    ∃ twin', twin.allocPageOrHalt = some (twin', f) ∧ Alike sites before own st' twin' := by
  simp only [PageState.allocPageOrHalt] at halloc
  cases hpage : BayosKernel.allocatePage st.mem st.areas with
  | none => simp [hpage] at halloc
  | some r =>
      obtain ⟨m, page⟩ := r
      obtain ⟨m', hpage', hmem⟩ := hlike.allocatePage hpages hpage
      simp only [hpage] at halloc
      by_cases hnull : page = 0
      · simp [hnull] at halloc
      · rw [if_neg hnull] at halloc
        cases halloc
        refine ⟨⟨twin.areas, m', f :: twin.allocated⟩, ?_, hlike.areas, ?_, hmem⟩
        · simp only [PageState.allocPageOrHalt, hpage', if_neg hnull]
        · simp only [hlike.allocated]

/-- A page that becomes a table is no longer hidden. -/
theorem outside_grows (hnew : ∀ d q, own' d = some q → own d = some q ∨ d = p) {x : Nat}
    (hx : x ∈ outsidePages (hiddenPages sites before own')) :
    x ∈ outsidePages (hiddenPages sites before own) ∨ p ≤ x ∧ x < p + 0x1000 := by
  by_cases hin : p ≤ x ∧ x < p + 0x1000
  · exact Or.inr hin
  · refine Or.inl fun q hq => ?_
    by_cases hqp : q = p
    · omega
    · exact hx q ⟨hq.1, hq.2.1, fun r hr =>
        hq.2.2 r ((hnew q r hr).resolve_right hqp)⟩

end Alike

end BayosKernel
