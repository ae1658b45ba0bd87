import BayosKernel.PageOwnership
import BayosKernel.PageProgress
import BayosKernel.AddressSpaces

/-!
One call of `map_memory_page` against `walk`: the slot that the one fills is the
slot that the other finds, and no other translation changes.
-/

namespace BayosKernel

open Foundation

/-- Calls of `map_memory_page` with P set and no flag beyond W and U. -/
def SpaceAction.Maps (roots : List Nat) : SpaceAction → Prop
  | .map cr3 virt flags => cr3 ∈ roots ∧ virt < 0x800000000000 ∧ PageFlags flags
  | _ => False

instance (roots : List Nat) : DecidablePred (SpaceAction.Maps roots)
  | .map _ _ _ => inferInstanceAs (Decidable (_ ∧ _ ∧ _))
  | .allocateRegion _ _ _ _ | .freeRegion _ _ _ | .write _ _ _ => inferInstanceAs (Decidable False)

section

variable {st st' : PageState} {sites : List Site} {roots : List Nat}

theorem SpaceInv.map {fuel : Nat} {a : SpaceAction} (hphys : Physical sites)
    (h : SpaceInv sites roots st) (hmaps : a.Maps roots) (hstep : spaceStep fuel st a = some st') :
    SpaceInv sites roots st' := by
  obtain ⟨own, htables⟩ := h.tables
  cases a with
  | map cr3 virt flags =>
      obtain ⟨hroot, hvirt, hflags⟩ := hmaps
      obtain ⟨own', -, hpages', htables', -⟩ :=
        htables.mapMemoryPage h.pages hphys hroot hvirt hflags hstep
      exact ⟨hpages', own', htables'⟩
  | allocateRegion _ _ _ _ | freeRegion _ _ _ | write _ _ _ => exact hmaps.elim

theorem SpaceInit.built {st₀ : PageState} {run : List SpaceAction} {fuel : Nat}
    (hinit : SpaceInit sites roots st₀) (hmaps : ∀ a ∈ run, a.Maps roots)
    (hrun : (spaceMachine fuel).exec st₀ run = some st) : SpaceInv sites roots st :=
  (spaceMachine fuel).exec_invariant (C := fun _ a => a.Maps roots)
    (fun _ _ _ h ha hstep => h.map hinit.physical ha hstep) hinit.inv
    ((spaceMachine fuel).meets_of_mem st₀ run fun a ha _ => hmaps a ha) hrun

theorem PageInv.marked_iff (h : PageInv st sites) {p : Nat} : st.Marked p ↔ p ∈ st.allocated :=
  ⟨h.mem_of_marked, h.marked_of_mem⟩

/-- A state with all pages of another one, and some more. -/
theorem PageInv.new_pages (h : PageInv st sites) (h' : PageInv st' sites)
    (hsub : ∀ p ∈ st.allocated, p ∈ st'.allocated) :
    ∃ frames : List Nat, frames.length + st.allocated.length = st'.allocated.length ∧
      ∀ p, st'.Marked p ↔ st.Marked p ∨ p ∈ frames := by
  refine ⟨st'.allocated.filter fun p => p ∉ st.allocated, ?_, fun p => ?_⟩
  · have hperm : (st'.allocated.filter fun p => p ∈ st.allocated).Perm st.allocated := by
      refine (List.perm_ext_iff_of_nodup (h'.nodup.filter _) h.nodup).mpr fun p => ?_
      simp only [List.mem_filter, decide_eq_true_eq]
      exact and_iff_right_of_imp (hsub p)
    have hsplit := List.length_eq_length_filter_add (l := st'.allocated) fun p => decide (p ∈ st.allocated)
    rw [hperm.length_eq] at hsplit
    rw [hsplit, Nat.add_comm]
    simp
  · rw [h.marked_iff, h'.marked_iff, List.mem_filter]
    simp only [decide_eq_true_eq]
    have := hsub p
    tauto

end

/-- What `map_memory_page` does to the translations and to the allocator. -/
structure MapsPage (roots : List Nat) (st st' : PageState) (cr3 virt : Nat) : Prop where
  present : ∃ p, PageAt st'.mem cr3 virt p
  mapped : ∀ p, PageAt st.mem cr3 virt p → st' = st
  fresh : (∀ p, ¬PageAt st.mem cr3 virt p) →
    ∀ p, PageAt st'.mem cr3 virt p → ¬st.Marked p ∧ st'.Marked p
  frames : ∃ frames : List Nat, frames.length ≤ 4 ∧ ∀ p, st'.Marked p ↔ st.Marked p ∨ p ∈ frames
  others : ∀ t ∈ roots, ∀ va < 0x800000000000, (t ≠ cr3 ∨ va / 0x1000 ≠ virt / 0x1000) →
    ∀ p, PageAt st'.mem t va p ↔ PageAt st.mem t va p

theorem TableInv.mapsPage {st st' : PageState} {sites : List Site} {roots : List Nat}
    {own : Nat → Option Role} {cr3 virt flags : Nat} (h : TableInv sites st roots own)
    (hpages : PageInv st sites) (hphys : Physical sites) (hroot : cr3 ∈ roots)
    (hvirt : virt < 0x800000000000) (hflags : PageFlags flags)
    (hlength : st'.allocated.length ≤ st.allocated.length + 4)
    (hmap : st.mapMemoryPage cr3 virt flags = some st') : MapsPage roots st st' cr3 virt := by
  obtain ⟨own', hpages', h', hall⟩ :=
    h.mapMemoryPage_allocates hpages hphys hroot hvirt hflags hmap
  have hstop : virt / 0x1000 * 0x1000 + 0x1000 ≤ 0x800000000000 := by omega
  have hbefore : ∀ t ∈ roots, ∀ va < 0x800000000000, ∀ p,
      PageAt st.mem t va p ↔ Maps own t va p :=
    fun t ht va hva p => h.pageAt_iff hpages hphys ht hva
  have hafter : ∀ t ∈ roots, ∀ va < 0x800000000000, ∀ p,
      PageAt st'.mem t va p ↔ Maps own' t va p :=
    fun t ht va hva p => h'.pageAt_iff hpages' hphys ht hva
  refine ⟨?_, fun p hp => ?_, fun hnone p hp => ?_, ?_, fun t ht va hva hne p => ?_⟩
  · obtain ⟨c, hc⟩ := hall.mapped (virt / 0x1000 * 0x1000)
      ⟨Nat.le_refl _, Nat.lt_add_of_pos_right (by decide), Nat.mul_mod_left _ _⟩
    exact ⟨c, (hafter cr3 hroot virt hvirt c).mpr (Maps.page.mp hc)⟩
  · have hpresent : st.mapMemoryPage cr3 virt flags = some st :=
      h.mapMemoryPage_present hpages hphys ((hbefore cr3 hroot virt hvirt p).mp hp)
    rw [hpresent] at hmap
    exact (Option.some.inj hmap).symm
  · have hmaps := (hafter cr3 hroot virt hvirt p).mp hp
    rcases hall.maps_cases h hmaps hvirt hstop with hold | ⟨-, hfresh, -⟩
    · exact absurd ((hbefore cr3 hroot virt hvirt p).mpr hold) (hnone p)
    · obtain ⟨pt, i, howned⟩ := hmaps.owned
      exact ⟨fun hmarked => hfresh (hpages.mem_of_marked hmarked),
        hpages'.marked_of_mem (h'.allocated howned (by simp))⟩
  · obtain ⟨frames, hcount, hmarked⟩ := hpages.new_pages hpages' hall.grows.allocated
    exact ⟨frames, by omega, hmarked⟩
  · rw [hbefore t ht va hva, hafter t ht va hva]
    refine ⟨fun hmaps => ?_, fun hmaps => hmaps.mono hall.grows.keeps⟩
    refine (hall.maps_cases h hmaps hva hstop).resolve_right ?_
    rintro ⟨hcr3, -, hin⟩
    have := hin.1
    have := hin.2.1
    rcases hne with hne | hne
    · exact hne hcr3
    · omega

/-- In every address space built by `map_memory_page`, with four pages left, one more call
comes back; `walk` finds its page afterwards, and every other one as before. -/
theorem mapMemoryPage_mapsPage {fuel : Nat} {sites : List Site} {roots : List Nat}
    {st₀ st : PageState} {run : List SpaceAction} {cr3 virt flags : Nat}
    (hinit : SpaceInit sites roots st₀) (hbuilt : ∀ a ∈ run, a.Maps roots)
    (hrun : (spaceMachine fuel).exec st₀ run = some st) (hroot : cr3 ∈ roots)
    (hvirt : virt < 0x800000000000) (hflags : PageFlags flags)
    (hfree : st.allocated.length + 4 ≤ managedPages sites) :
    ∃ st', st.mapMemoryPage cr3 virt flags = some st' ∧ MapsPage roots st st' cr3 virt := by
  have hinv := hinit.built hbuilt hrun
  obtain ⟨own, h⟩ := hinv.tables
  obtain ⟨st', hmap, hlength⟩ :=
    h.mapMemoryPage_some hinv.pages hinit.physical hroot hvirt hflags hfree
  exact ⟨st', hmap,
    h.mapsPage hinv.pages hinit.physical hroot hvirt hflags hlength hmap⟩

/-- The second page of a region, behind tables that are there. -/
theorem mapMemoryPage_mapsPage_second : ∃ st₀ sites st st', SpaceInit sites [0x1000] st₀ ∧
    (spaceMachine 0).exec st₀ [.map 0x1000 0x200000 7] = some st ∧
      st.mapMemoryPage 0x1000 0x201234 3 = some st' ∧ MapsPage [0x1000] st st' 0x1000 0x201234 := by
  obtain ⟨st₀, sites, hinit, -, hcount, hallocated⟩ := bootSpace
  have hroot : 0x1000 ∈ [0x1000] := List.mem_singleton.mpr rfl
  have hbuilt : ∀ a ∈ [SpaceAction.map 0x1000 0x200000 7], a.Maps [0x1000] := by decide
  obtain ⟨own, h⟩ := hinit.inv.tables
  have hfirst : ∃ st, st₀.mapMemoryPage 0x1000 0x200000 7 = some st ∧
      st.allocated.length ≤ st₀.allocated.length + 4 :=
    h.mapMemoryPage_some hinit.pages hinit.physical hroot (by decide) (by decide)
      (by rw [hallocated, hcount]; decide)
  obtain ⟨st, hfirst, hlength⟩ := hfirst
  rw [hallocated, List.length_nil] at hlength
  have hrun : (spaceMachine 0).exec st₀ [.map 0x1000 0x200000 7] = some st := by
    simp only [Machine.exec, spaceMachine, spaceStep, hfirst, Option.bind_some]
  have hfree : st.allocated.length + 4 ≤ managedPages sites := by omega
  have hcall : ∃ st', st.mapMemoryPage 0x1000 0x201234 3 = some st' ∧
      MapsPage [0x1000] st st' 0x1000 0x201234 :=
    mapMemoryPage_mapsPage hinit hbuilt hrun hroot (by decide) (by decide) hfree
  obtain ⟨st', hsecond, hmaps⟩ := hcall
  exact ⟨st₀, sites, st, st', hinit, hrun, hsecond, hmaps⟩

end BayosKernel
