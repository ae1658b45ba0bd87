import BayosKernel.PageSpaces

/-!
Read from the memory alone: every frame that an entry of a user half refers to
is marked, and no two entries refer to one frame.
-/

namespace BayosKernel

open Foundation Area

/-- The present entries of the tables of a user half, by the level of their
table (3 for the PML4), the table and the index. -/
inductive UserEntry (m : ByteMemory) (cr3 : Nat) : Nat → Nat → Nat → Prop where
  | root {i : Nat} : i < 256 → entry m cr3 i &&& 1 = 1 → UserEntry m cr3 3 cr3 i
  | child {level t i j : Nat} : UserEntry m cr3 (level + 1) t i → j < 512 →
      entry m (pteAddr (entry m t i)) j &&& 1 = 1 →
      UserEntry m cr3 level (pteAddr (entry m t i)) j

/-- The bit of the page is set in the bitmap of its area. -/
def PageState.Marked (st : PageState) (p : Nat) : Prop :=
  ∃ a ∈ st.areas, ∃ k < (Area.read st.mem a).pagesCount,
    p = (Area.read st.mem a).firstPage + k * 0x1000 ∧ Bitmap.bit st.mem (data a) k = true

structure PageState.OwnedOnce (st : PageState) (roots : List Nat) : Prop where
  marked : ∀ cr3 ∈ roots, ∀ level t i, UserEntry st.mem cr3 level t i →
    st.Marked (pteAddr (entry st.mem t i))
  once : ∀ cr3 ∈ roots, ∀ cr3' ∈ roots, ∀ level t i level' t' i',
    UserEntry st.mem cr3 level t i → UserEntry st.mem cr3' level' t' i' →
    pteAddr (entry st.mem t i) = pteAddr (entry st.mem t' i') →
    cr3 = cr3' ∧ level = level' ∧ t = t' ∧ i = i'
  noRoot : ∀ cr3 ∈ roots, ∀ level t i, UserEntry st.mem cr3 level t i →
    pteAddr (entry st.mem t i) ∉ roots

theorem UserEntry.level_le {m : ByteMemory} {cr3 level t i : Nat}
    (h : UserEntry m cr3 level t i) : level ≤ 3 := by
  induction h with
  | root => exact Nat.le_refl 3
  | child _ _ _ ih => omega

section

variable {st : PageState} {sites : List Site} {roots : List Nat} {own : Nat → Option Role}
  {cr3 level t i : Nat}

theorem UserEntry.owned (h : TableInv sites st roots own) (hpages : PageInv st sites)
    (hphys : Physical sites) (hroot : cr3 ∈ roots) (hentry : UserEntry st.mem cr3 level t i) :
    own (pteAddr (entry st.mem t i)) = some ⟨level, t, i⟩ := by
  have hchild : ∀ t r i, own t = some r → 0 < r.height → i < r.width →
      entry st.mem t i &&& 1 = 1 →
      own (pteAddr (entry st.mem t i)) = some ⟨r.height - 1, t, i⟩ := by
    intro t r i ht hr hi hpresent
    rcases h.entry_cases hpages hphys ht hr hi with hzero | ⟨c, -, -, -, hc, -, -, haddr, -⟩
    · simp [hzero] at hpresent
    · rw [haddr, hc]
  induction hentry with
  | @root i hi hpresent =>
      obtain ⟨r, hr, hheight⟩ := h.roots cr3 hroot
      rw [hchild cr3 r i hr (by omega) (r.lt_root_width hheight hi) hpresent, hheight]
  | @child level t i j hentry hj hpresent ih =>
      have hlevel := hentry.level_le
      have hwidth : j < (⟨level + 1, t, i⟩ : Role).width := Role.lt_width (by simp only; omega) hj
      exact (hchild _ _ j ih (Nat.succ_pos level) hwidth hpresent).trans rfl

theorem UserEntry.same_root {cr3' i' : Nat} (h : TableInv sites st roots own)
    (hpages : PageInv st sites) (hphys : Physical sites) (hroot : cr3 ∈ roots)
    (hroot' : cr3' ∈ roots) (hentry : UserEntry st.mem cr3 level t i)
    (hentry' : UserEntry st.mem cr3' level t i') : cr3 = cr3' := by
  induction hentry generalizing i' with
  | @root i hi hpresent =>
      generalize hlevel : 3 = level at hentry'
      cases hentry' with
      | root => rfl
      | child hbelow =>
          have := hbelow.level_le
          omega
  | @child level t i j hentry hj hpresent ih =>
      have howned := hentry.owned h hpages hphys hroot
      generalize htable : pteAddr (entry st.mem t i) = table at hentry' howned
      cases hentry' with
      | root =>
          have := hentry.level_le
          omega
      | @child _ t' k _ hbelow =>
          rw [hbelow.owned h hpages hphys hroot'] at howned
          obtain ⟨-, rfl, rfl⟩ := Role.mk.inj (Option.some.inj howned)
          exact ih hbelow

theorem PageInv.marked_of_mem (h : PageInv st sites) {p : Nat} (hp : p ∈ st.allocated) :
    st.Marked p := by
  obtain ⟨s, hs, k, hk, rfl⟩ := h.pages p hp
  refine ⟨s.base, by rw [h.places]; exact List.mem_map_of_mem hs, k, ?_⟩
  rw [h.kept s hs]
  exact ⟨hk, rfl, (h.marked s hs k hk).mpr hp⟩

theorem PageInv.mem_of_marked (h : PageInv st sites) {p : Nat} (hp : st.Marked p) :
    p ∈ st.allocated := by
  obtain ⟨a, ha, k, hk, rfl, hbit⟩ := hp
  rw [h.places] at ha
  obtain ⟨s, hs, rfl⟩ := List.mem_map.mp ha
  rw [h.kept s hs] at hk ⊢
  exact (h.marked s hs k hk).mp hbit

theorem SpaceInv.ownedOnce (hphys : Physical sites) (h : SpaceInv sites roots st) :
    st.OwnedOnce roots := by
  obtain ⟨own, htables⟩ := h.tables
  have howned : ∀ cr3 ∈ roots, ∀ level t i, UserEntry st.mem cr3 level t i →
      own (pteAddr (entry st.mem t i)) = some ⟨level, t, i⟩ :=
    fun cr3 hroot level t i hentry => hentry.owned htables h.pages hphys hroot
  refine ⟨fun cr3 hroot level t i hentry => ?_,
    fun cr3 hroot cr3' hroot' level t i level' t' i' hentry hentry' hsame => ?_,
    fun cr3 hroot level t i hentry hmem => ?_⟩
  · have hlevel := hentry.level_le
    exact h.pages.marked_of_mem
      (htables.allocated (howned cr3 hroot level t i hentry) (Nat.lt_succ_of_le hlevel))
  · have hrole := howned cr3 hroot level t i hentry
    rw [hsame, howned cr3' hroot' level' t' i' hentry'] at hrole
    obtain ⟨rfl, rfl, rfl⟩ := Role.mk.inj (Option.some.inj hrole)
    exact ⟨hentry.same_root htables h.pages hphys hroot hroot' hentry', rfl, rfl, rfl⟩
  · obtain ⟨r, hr, hheight⟩ := htables.roots _ hmem
    rw [howned cr3 hroot level t i hentry] at hr
    cases hr
    have := hentry.level_le
    simp only at hheight
    omega

end

/-- After every run, and after every page that a further `free_region` gives
back, the frames of all user halves are marked and have one owner. -/
theorem spaceMachine_ownedOnce {sites : List Site} {roots : List Nat} {fuel : Nat}
    {st₀ st : PageState} {run : List SpaceAction} (hinit : SpaceInit sites roots st₀)
    (hvalid : ∀ a ∈ run, a.Valid roots) (hrun : (spaceMachine fuel).exec st₀ run = some st) :
    st.OwnedOnce roots ∧ ∀ cr3 ∈ roots, ∀ va < 0x800000000000,
      (st.freeRegionPage cr3 va).OwnedOnce roots := by
  have hinv := spaceMachine_inv hinit hvalid hrun
  refine ⟨hinv.ownedOnce hinit.physical, fun cr3 hroot va hva => ?_⟩
  obtain ⟨own, htables⟩ := hinv.tables
  have hnext : SpaceInv sites roots (st.freeRegionPage cr3 va) := by
    rcases htables.freeRegionPage hinv.pages hinit.physical hroot hva with
      ⟨_, -, hpages', htables', -⟩ | ⟨heq, -⟩
    · exact ⟨hpages', _, htables'⟩
    · rw [heq]
      exact hinv
  exact hnext.ownedOnce hinit.physical

/-- Two address spaces use the same addresses, and one gives a page back that
the other then takes. -/
def mapAndReuse : List SpaceAction :=
  [.allocateRegion 0x101000 0x200000 0x202000 7, .map 0x102000 0x200000 3,
    .write 0x101000 0x200010 7, .freeRegion 0x101000 0x200000 0x201000, .map 0x102000 0x201000 7]

theorem spaceMachine_ownedOnce_mapAndReuse : ∃ st₀ st, startSpaces 2 = some st₀ ∧
    st₀.allocated = [0x102000, 0x101000] ∧ (spaceMachine 3).exec st₀ mapAndReuse = some st ∧
      0x106000 ∈ st.allocated ∧ st.OwnedOnce st₀.allocated := by
  have hrun : ((startSpaces 2).bind fun st₀ => ((spaceMachine 3).exec st₀ mapAndReuse).map
      fun st => (st₀.allocated, decide (0x106000 ∈ st.allocated))) =
        some ([0x102000, 0x101000], true) := by decide +kernel
  obtain ⟨st₀, hstart, hmap⟩ := Option.bind_eq_some_iff.mp hrun
  obtain ⟨st, hexec, heq⟩ := Option.map_eq_some_iff.mp hmap
  obtain ⟨hroots, hmem⟩ := Prod.mk.inj heq
  obtain ⟨sites, hinit⟩ := startSpaces_init hstart
  refine ⟨st₀, st, hstart, hroots, hexec, of_decide_eq_true hmem,
    (spaceMachine_ownedOnce hinit ?_ hexec).1⟩
  rw [hroots]
  decide

end BayosKernel
