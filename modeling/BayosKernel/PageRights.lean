import BayosKernel.PageSpaces

/-!
The effective rights of a page that `map_memory_page` maps. Tables above it
keep the flags of the call that made them, which may have been a narrower one.
-/

namespace BayosKernel

open Foundation

theorem Grants.and_iff (a b flags : Nat) :
    Grants (a &&& b) flags ↔ Grants a flags ∧ Grants b flags := by
  unfold Grants
  constructor
  · intro h
    have hbit := fun i => congrArg (fun n => n.testBit i) h
    simp only [Nat.testBit_and] at hbit
    constructor <;>
    · apply Nat.eq_of_testBit_eq
      intro i
      have := hbit i
      simp only [Nat.testBit_and]
      cases ha : a.testBit i <;> cases hb : b.testBit i <;> simp_all
  · rintro ⟨ha, hb⟩
    rw [Nat.and_assoc, hb, ha]

/-- The rights of a page are those that every entry on its path has. -/
theorem grants_foldr (es : List Nat) (flags : Nat) :
    Grants (es.foldr (fun e rights => e &&& rights) 6) flags ↔ ∀ e ∈ es, Grants e flags := by
  induction es with
  | nil =>
      simp only [List.foldr_nil, List.not_mem_nil, false_implies, implies_true, iff_true, Grants]
      rw [Nat.and_comm, Nat.and_assoc, Nat.and_self]
  | cons e rest ih =>
      rw [List.foldr_cons, Grants.and_iff, ih]
      simp

/-- An entry made with some flags grants them. -/
theorem grants_word {c flags : Nat} (hc : c % 0x1000 = 0) (hflags : PageFlags flags) :
    Grants (c + flags) flags := by
  have hsmall := hflags.1
  have hall : ∀ f < 8, f &&& 6 < 0x1000 ∧ f &&& (f &&& 6) = f &&& 6 := by decide
  unfold Grants
  rw [BitField.and_flags hc (by omega) (hall flags hsmall).1, (hall flags hsmall).2]

/-- A path that `map_memory_page` has completed grants the flags if and only if
the entries that were there before do. -/
theorem PathMapped.rights {st st' : PageState} {own own' : Nat → Option Role}
    {t flags leaf : Nat} {indices : List Nat}
    (h : PathMapped st st' own own' t flags indices leaf) (hflags : PageFlags flags) :
    (∀ e ∈ pathFrom st'.mem t indices, Grants e flags) ↔
      ∀ e ∈ pathFrom st.mem t indices, e &&& 1 = 1 → Grants e flags := by
  constructor
  · intro hnew e hmem hpresent
    exact hnew e (h.kept e hmem hpresent)
  · intro hold e hmem
    obtain ⟨hpresent, hmem' | ⟨c, hc, rfl⟩⟩ := h.made e hmem
    · exact hold e hmem' hpresent
    · exact grants_word hc hflags

/-- After every run, a call of `map_memory_page` maps its page, with all rights
in `flags` exactly when the tables that were already there grant them. -/
theorem spaceMachine_rights {sites : List Site} {roots : List Nat} {fuel : Nat}
    {st₀ st st' : PageState} {run : List SpaceAction} {cr3 virt flags : Nat}
    (hinit : SpaceInit sites roots st₀) (hvalid : ∀ a ∈ run, a.Valid roots)
    (hrun : (spaceMachine fuel).exec st₀ run = some st)
    (hcall : (SpaceAction.map cr3 virt flags).Valid roots)
    (hmap : st.mapMemoryPage cr3 virt flags = some st') :
    Mapped st'.mem cr3 virt ∧ (Grants (effectiveRights st'.mem cr3 virt) flags ↔
      ∀ e ∈ pathEntries st.mem cr3 virt, e &&& 1 = 1 → Grants e flags) := by
  have hinv := spaceMachine_inv hinit hvalid hrun
  obtain ⟨own, htables⟩ := hinv.tables
  obtain ⟨hroot, hvirt, hkernel⟩ := hcall
  have hflags := PageFlags.of_kernel hkernel
  obtain ⟨own', leaf, -, -, -, hpath⟩ :=
    htables.mapMemoryPage hinv.pages hinit.physical hroot hvirt hflags hmap
  refine ⟨fun e hmem => (hpath.made e hmem).1, ?_⟩
  rw [effectiveRights, grants_foldr]
  exact hpath.rights hflags

/-- The scratch area of `execve` at 0x800000 is mapped for the kernel, freed,
and its addresses are then allocated for the program. -/
def scratchThenAnon : List SpaceAction :=
  [.allocateRegion 0x101000 0x800000 0x801000 3, .freeRegion 0x101000 0x800000 0x801000]

theorem spaceMachine_rights_scratch : ∃ st₀ st st', startSpaces 1 = some st₀ ∧
    (spaceMachine 3).exec st₀ scratchThenAnon = some st ∧
      st.mapMemoryPage 0x101000 0x800000 3 = some st' ∧
      Grants (effectiveRights st'.mem 0x101000 0x800000) 3 := by
  have hrun : ((startSpaces 1).bind fun st₀ => ((spaceMachine 3).exec st₀ scratchThenAnon).bind
      fun st => (st.mapMemoryPage 0x101000 0x800000 3).map fun _ =>
        (st₀.allocated, decide (∀ e ∈ pathEntries st.mem 0x101000 0x800000,
          e &&& 1 = 1 → Grants e 3))) = some ([0x101000], true) := by decide +kernel
  obtain ⟨st₀, hstart, hmap⟩ := Option.bind_eq_some_iff.mp hrun
  obtain ⟨st, hexec, hmap⟩ := Option.bind_eq_some_iff.mp hmap
  obtain ⟨st', hmap, heq⟩ := Option.map_eq_some_iff.mp hmap
  obtain ⟨hroots, hgrants⟩ := Prod.mk.inj heq
  obtain ⟨sites, hinit⟩ := startSpaces_init hstart
  have hrights := spaceMachine_rights hinit (by rw [hroots]; decide) hexec
    (by rw [hroots]; decide) hmap
  exact ⟨st₀, st, st', hstart, hexec, hmap, hrights.2.mpr (of_decide_eq_true hgrants)⟩

/-- The anonymous page is writable but not accessible to the program. -/
theorem scratchThenAnon_rights : ∃ st₀ st st', startSpaces 1 = some st₀ ∧
    st₀.allocated = [0x101000] ∧ (spaceMachine 3).exec st₀ scratchThenAnon = some st ∧
      ¬Mapped st.mem 0x101000 0x800000 ∧ st.mapMemoryPage 0x101000 0x800000 7 = some st' ∧
      effectiveRights st'.mem 0x101000 0x800000 = 2 ∧
      ¬Grants (effectiveRights st'.mem 0x101000 0x800000) 7 := by
  have hrun : ((startSpaces 1).bind fun st₀ => ((spaceMachine 3).exec st₀ scratchThenAnon).bind
      fun st => (st.mapMemoryPage 0x101000 0x800000 7).map fun st' =>
        (st₀.allocated, decide (∃ e ∈ pathEntries st.mem 0x101000 0x800000, e &&& 1 ≠ 1),
          effectiveRights st'.mem 0x101000 0x800000)) = some ([0x101000], true, 2) := by
    decide +kernel
  obtain ⟨st₀, hstart, hmap⟩ := Option.bind_eq_some_iff.mp hrun
  obtain ⟨st, hexec, hmap⟩ := Option.bind_eq_some_iff.mp hmap
  obtain ⟨st', hmap, heq⟩ := Option.map_eq_some_iff.mp hmap
  obtain ⟨hroots, heq⟩ := Prod.mk.inj heq
  obtain ⟨habsent, hrights⟩ := Prod.mk.inj heq
  obtain ⟨e, hmem, hne⟩ := of_decide_eq_true habsent
  refine ⟨st₀, st, st', hstart, hroots, hexec, fun hmapped => hne (hmapped e hmem), hmap,
    hrights, ?_⟩
  rw [hrights]
  decide

end BayosKernel
