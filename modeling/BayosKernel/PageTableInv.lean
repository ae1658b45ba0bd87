import BayosKernel.Foundation.BitField
import BayosKernel.PageTables

/-!
The ownership invariant of the page tables.

Every page that a table refers to has one owner: the table and the index of the
entry that refers to it, and a height (4 for a PML4, 0 for a page of data).
-/

namespace BayosKernel

open Foundation

structure Role where
  height : Nat
  parent : Nat
  index : Nat
  deriving DecidableEq, Repr

/-- The user half of a PML4, and all entries of the other tables. -/
def Role.width (r : Role) : Nat := if r.height = 4 then 256 else 512

theorem Role.width_le (r : Role) : r.width ≤ 512 := by
  unfold width
  split <;> omega

/-- Below a root every entry of a table is used. -/
theorem Role.lt_width {r : Role} (hr : r.height < 4) {i : Nat} (hi : i < 512) : i < r.width := by
  rwa [Role.width, if_neg (Nat.ne_of_lt hr)]

theorem Role.lt_root_width {r : Role} (hr : r.height = 4) {i : Nat} (hi : i < 256) :
    i < r.width := by
  rwa [Role.width, if_pos hr]

theorem Role.head_lt_width {r : Role} (hr : r.height < 4) {indices : List Nat}
    (hindices : ∀ i ∈ indices, i < 512) : ∀ i ∈ indices.head?, i < r.width :=
  fun i hi => r.lt_width hr (hindices i (List.mem_of_mem_head? hi))

/-- Flags with P set that leave the address bits alone. -/
def PageFlags (f : Nat) : Prop := f < 8 ∧ f % 2 = 1

instance (f : Nat) : Decidable (PageFlags f) := inferInstanceAs (Decidable (_ ∧ _))

/-- The entry refers to a page with the role `r`. -/
def Refers (own : Nat → Option Role) (e : Nat) (r : Role) : Prop :=
  ∃ c f, PageFlags f ∧ e = c + f ∧ own c = some r

/-- A page outside all areas, like the PML4 of the boot loader. -/
structure Unmanaged (sites : List Site) (p : Nat) : Prop where
  aligned : p % 0x1000 = 0
  physical : p < 0x10000000000000
  apart : ∀ s ∈ sites, p + 0x1000 ≤ s.base ∨ s.stop ≤ p

structure TableInv (sites : List Site) (st : PageState) (roots : List Nat)
    (own : Nat → Option Role) : Prop where
  roots : ∀ t ∈ roots, ∃ r, own t = some r ∧ r.height = 4
  owned : ∀ t r, own t = some r → t ∈ st.allocated ∨ (r.height = 4 ∧ Unmanaged sites t)
  entries : ∀ t r, own t = some r → 0 < r.height → ∀ i < r.width,
    entry st.mem t i = 0 ∨ Refers own (entry st.mem t i) ⟨r.height - 1, t, i⟩
  linked : ∀ c r, own c = some r → r.height < 4 → ∃ q f, own r.parent = some q ∧
    q.height = r.height + 1 ∧ r.index < q.width ∧ PageFlags f ∧
    entry st.mem r.parent r.index = c + f

/-- Nothing that is owned changes, except that absent entries are filled with
fresh pages; pages that are no tables keep their contents. -/
structure Grows (sites : List Site) (st st' : PageState) (own own' : Nat → Option Role) :
    Prop where
  areas : st'.areas = st.areas
  allocated : ∀ p ∈ st.allocated, p ∈ st'.allocated
  accounted : ∀ p ∈ st'.allocated, p ∈ st.allocated ∨ ∃ r, own' p = some r
  keeps : ∀ c r, own c = some r → own' c = some r
  fresh : ∀ c r, own' c = some r → own c = some r ∨ c ∉ st.allocated
  entries : ∀ t r, own t = some r → 0 < r.height → ∀ i < r.width, entry st.mem t i ≠ 0 →
    entry st'.mem t i = entry st.mem t i
  upper : ∀ t r, own t = some r → r.height = 4 → ∀ i, 256 ≤ i → i < 512 →
    entry st'.mem t i = entry st.mem t i
  data : ∀ p, Frame sites p → (∀ r, own' p = some r → r.height = 0) →
    ∀ x, p ≤ x → x < p + 0x1000 → st'.mem x = st.mem x

namespace Grows

variable {sites : List Site} {st st' st'' : PageState} {own own' own'' : Nat → Option Role}

theorem refl (st : PageState) (own : Nat → Option Role) : Grows sites st st own own where
  areas := rfl
  allocated := fun _ h => h
  accounted := fun _ h => Or.inl h
  keeps := fun _ _ h => h
  fresh := fun _ _ h => Or.inl h
  entries := fun _ _ _ _ _ _ _ => rfl
  upper := fun _ _ _ _ _ _ _ => rfl
  data := fun _ _ _ _ _ _ => rfl

theorem trans (h : Grows sites st st' own own') (h' : Grows sites st' st'' own' own'') :
    Grows sites st st'' own own'' where
  areas := h'.areas.trans h.areas
  allocated := fun p hp => h'.allocated p (h.allocated p hp)
  accounted := by
    intro p hp
    rcases h'.accounted p hp with hp | hp
    · rcases h.accounted p hp with hp | ⟨r, hr⟩
      · exact Or.inl hp
      · exact Or.inr ⟨r, h'.keeps p r hr⟩
    · exact Or.inr hp
  keeps := fun c r hc => h'.keeps c r (h.keeps c r hc)
  fresh := by
    intro c r hc
    rcases h'.fresh c r hc with hc | hc
    · exact h.fresh c r hc
    · exact Or.inr fun hmem => hc (h.allocated c hmem)
  entries := by
    intro t r ht hr i hi hne
    have hsame := h.entries t r ht hr i hi hne
    rw [← hsame] at hne ⊢
    exact h'.entries t r (h.keeps t r ht) hr i hi hne
  upper := by
    intro t r ht hr i hle hlt
    rw [h'.upper t r (h.keeps t r ht) hr i hle hlt, h.upper t r ht hr i hle hlt]
  data := by
    intro p hp hdata x hle hlt
    exact (h'.data p hp hdata x hle hlt).trans
      (h.data p hp (fun r hr => hdata r (h'.keeps p r hr)) x hle hlt)

end Grows

section Words

variable {c f : Nat}

/-- What the code reads out of an entry with address `c` and flags `f`. -/
theorem word_fields (hc : c % 0x1000 = 0) (hlt : c < 0x10000000000000) (hf : PageFlags f) :
    c ||| f = c + f ∧ (c + f) &&& 1 = 1 ∧ (c + f) &&& 0x80 = 0 ∧ pteAddr (c + f) = c ∧
      (c + f) &&& 0xfffffffffffff000 = c := by
  obtain ⟨hsmall, hodd⟩ := hf
  have hps : f &&& 0x80 = 0 := by
    have hall : ∀ f < 8, f &&& 0x80 = 0 := by decide
    exact hall f hsmall
  refine ⟨BitField.or_flags hc (by omega), ?_, ?_, ?_, ?_⟩
  · rw [BitField.and_one]
    omega
  · rw [BitField.and_flags hc (by omega) (by omega), hps]
  · rw [pteAddr, BitField.and_addrMask (by omega)]
    omega
  · rw [BitField.and_pageMask (by omega)]
    omega

end Words

section Entries

variable {m m' : ByteMemory} {t i : Nat}

theorem entry_congr (hi : i < 512) (h : ∀ x, t ≤ x → x < t + 0x1000 → m' x = m x) :
    entry m' t i = entry m t i :=
  ByteMemory.load_congr fun x hle hlt => by
    simp only [entryAddr] at hle hlt
    exact h x (by omega) (by omega)

theorem entry_setEntry {v : Nat} (hv : v < 0x10000000000000000) :
    entry (setEntry m t i v) t i = v :=
  ByteMemory.load_store m (show v < ByteMemory.capacity 8 from hv)

theorem entry_apart (hother : ∀ x, x < entryAddr t i ∨ entryAddr t i + 8 ≤ x → m' x = m x)
    {u j : Nat} (ht : t % 0x1000 = 0) (hu : u % 0x1000 = 0) (hi : i < 512) (hj : j < 512)
    (hne : ¬(u = t ∧ j = i)) : entry m' u j = entry m u j :=
  ByteMemory.load_congr fun x hle hlt => by
    simp only [entryAddr] at hle hlt hother
    exact hother x (by omega)

theorem setEntry_outside {v x : Nat} (h : x < entryAddr t i ∨ entryAddr t i + 8 ≤ x) :
    setEntry m t i v x = m x :=
  ByteMemory.store_outside m h

end Entries

namespace PageInv

variable {st st' : PageState} {sites : List Site}

theorem page_aligned (h : PageInv st sites) {p : Nat} (hp : p ∈ st.allocated) :
    p % 0x1000 = 0 :=
  (h.frame hp).aligned

/-- A change inside page frames keeps the invariant. -/
theorem of_pages (h : PageInv st sites) {m' : ByteMemory}
    (hpages : ∀ x, (∀ p, Frame sites p → x < p ∨ p + 0x1000 ≤ x) → m' x = st.mem x) :
    PageInv { st with mem := m' } sites := by
  refine h.of_frame fun s hs x hle hlt => hpages x fun p hp => ?_
  by_contra hin
  have := hp.outside (x := x) (by omega) (by omega) hs
  omega

theorem allocPageOrHalt (h : PageInv st sites) {f : Nat}
    (halloc : st.allocPageOrHalt = some (st', f)) :
    PageInv st' sites ∧ st'.areas = st.areas ∧ st'.allocated = f :: st.allocated ∧
      f ∉ st.allocated ∧
      ∀ p, Frame sites p → ∀ x, p ≤ x → x < p + 0x1000 → st'.mem x = st.mem x := by
  simp only [PageState.allocPageOrHalt, h.places] at halloc
  rcases allocatePage_cases h.kept with ⟨hnull, -⟩ | ⟨s, hs, k, hk, hclear, hsome⟩
  · rw [hnull] at halloc
    simp at halloc
  · have hne : ¬s.page k = 0 := s.page_ne_null k
    simp only [hsome, if_neg hne] at halloc
    cases halloc
    have hstep : st.step .allocate = some
        { areas := st.areas, mem := s.take st.mem k, allocated := s.page k :: st.allocated } := by
      simp only [PageState.step, h.places, hsome, Option.map_some, if_neg (s.page_ne_null k)]
    obtain ⟨hinv, hframe⟩ := h.allocate_step hstep
    rw [h.places] at hinv
    refine ⟨hinv, h.places.symm, rfl, (List.nodup_cons.mp hinv.nodup).1, fun p hp x hle hlt => ?_⟩
    exact hframe x fun t ht => hp.outside hle hlt ht

theorem freePage (h : PageInv st sites) {p : Nat} (hp : p ∈ st.allocated) :
    PageInv (st.freePage p) sites ∧
      ∀ q, Frame sites q → ∀ x, q ≤ x → x < q + 0x1000 → (st.freePage p).mem x = st.mem x := by
  have hstep : st.step (.free p) = some (st.freePage p) := by
    simp only [PageState.step, if_pos hp, PageState.freePage]
  refine ⟨h.free_step hstep, fun q hq x hle hlt => ?_⟩
  obtain ⟨s, hs, k, hk, rfl⟩ := h.pages p hp
  simp only [PageState.freePage, h.places]
  rw [freePage_page h.kept h.apart hs hk ((h.marked s hs k hk).mpr hp)]
  exact Site.drop_outside hk (hq.outside hle hlt hs)

end PageInv

/-- Every area ends below the 52 bits of a physical address. -/
def Physical (sites : List Site) : Prop := ∀ s ∈ sites, s.stop ≤ 0x10000000000000

theorem PageInv.page_lt {st : PageState} {sites : List Site} (h : PageInv st sites)
    (hphys : Physical sites) {p : Nat} (hp : p ∈ st.allocated) : p < 0x10000000000000 := by
  obtain ⟨s, hs, k, hk, rfl⟩ := h.pages p hp
  have := (s.page_bounds hk).2
  have := hphys s hs
  omega

namespace TableInv

variable {st : PageState} {sites : List Site} {roots : List Nat} {own : Nat → Option Role}
  {t : Nat} {r : Role}

/-- All but the PML4s are pages of the allocator. -/
theorem allocated (h : TableInv sites st roots own) (ht : own t = some r) (hr : r.height < 4) :
    t ∈ st.allocated := by
  rcases h.owned t r ht with hmem | ⟨hroot, -⟩
  · exact hmem
  · omega

theorem frame (h : TableInv sites st roots own) (hpages : PageInv st sites)
    (ht : own t = some r) : Frame sites t := by
  rcases h.owned t r ht with hmem | ⟨-, hboot⟩
  · exact hpages.frame hmem
  · refine ⟨hboot.aligned, fun s hs => ?_⟩
    have := hboot.apart s hs
    simp only [Site.stop] at this
    omega

theorem lt (h : TableInv sites st roots own) (hpages : PageInv st sites) (hphys : Physical sites)
    (ht : own t = some r) : t < 0x10000000000000 := by
  rcases h.owned t r ht with hmem | ⟨-, hboot⟩
  · exact hpages.page_lt hphys hmem
  · exact hboot.physical

/-- A page that the allocator has just handed out was not owned before. -/
theorem ne_fresh (h : TableInv sites st roots own) {st' : PageState}
    (hpages' : PageInv st' sites) {f : Nat} (hf : f ∈ st'.allocated) (hfresh : f ∉ st.allocated)
    (ht : own t = some r) : t ≠ f := by
  rintro rfl
  obtain ⟨s, hs, k, hk, rfl⟩ := hpages'.pages _ hf
  have hbounds := s.page_bounds hk
  have hboot := ((h.owned _ r ht).resolve_left hfresh).2.apart s hs
  have := s.room
  omega

end TableInv

end BayosKernel
