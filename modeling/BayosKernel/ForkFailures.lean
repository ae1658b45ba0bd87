import BayosKernel.ForkSyscall
import BayosKernel.HaltedCalls
import BayosKernel.ProcessList
import BayosKernel.ResourceTable

/-!
`fork_syscall` with both allocators, up to its `yield` and without their locks.
When a frame for the child's pages or tables is missing, the call does not come
back: it halts, and all that it has written lies in frames that were free before.

The process struct is kept in `procs`; of its block only the book-keeping is in the heap.
-/

namespace BayosKernel

open Foundation

abbrev sizeofProcess : Nat := 88

structure ForkState where
  pages : PageState
  heap : HeapState
  sched : Scheduler
  nextPid : Nat

/-- How a call of `fork_syscall` goes on: it returns, executes `cli; hlt`, or stores to
virtual address 0, where nothing is mapped. -/
inductive ForkOutcome where
  | returned (s : ForkState) (result : Nat)
  | halted (s : ForkState)
  | faulted (s : ForkState)

namespace ForkState

/-- `get_current_process`. -/
def proc (s : ForkState) : Process := s.sched.procs s.sched.currentProcess

/-- `fork_syscall` from the allocation of the process struct on; `context` is the address of
the context on the stack. `none` stands for a loop that has not ended. -/
def addChild (fuel : Nat) (s : ForkState) (newCr3 : Nat) (context : Ptr) : Option ForkOutcome :=
  let cap := sizeT s.proc.resourcesCap
  (s.heap.take fuel sizeofProcess).bind fun (heap, p) =>
    if p = NULL then some (.faulted { s with heap := heap })
    else
      let pid := int32 s.nextPid
      let nextPid := (s.nextPid + 1) % 0x100000000
      (resourceTableAlloc fuel heap cap).bind fun (heap, resources) =>
        let child := { s.proc with cr3 := newCr3, pid := pid, resources := resources }
        let sched := s.sched.modify p fun _ => child
        if resources = NULL ∧ mul64 sizeofResource cap ≠ 0 then
          some (.faulted ⟨s.pages, heap, sched, nextPid⟩)
        else
          let m := heap.mem.memcpy resources s.proc.resources (mul64 sizeofResource cap)
          (copyPagesBetweenPagetables fuel s.pages newCr3 s.proc.cr3 0x200000 s.proc.elfEnd).bind
            fun (pages, _) =>
              (copyPagesBetweenPagetables fuel pages newCr3 s.proc.cr3 0x800000
                s.proc.anonAllocateEnd).bind fun (pages, _) =>
                  let sched := sched.modify p fun q => { q with context := context }
                  (sched.insertProcess fuel p).map fun sched =>
                    .returned ⟨pages, { heap with mem := m }, sched, nextPid⟩ (sizeT pid)

def forkSyscall (fuel : Nat) (s : ForkState) (context : Ptr) : Option ForkOutcome :=
  match s.pages.newSpace s.proc.cr3 with
  -- the `hlt` of `allocate_page` itself
  | none => some (.halted s)
  | some (pages, newCr3) =>
      match Halting.allocateRegion fuel pages newCr3 0x200000 s.proc.elfEnd 7 with
      | none => none
      | some (.error pages) => some (.halted { s with pages := pages })
      | some (.ok pages) =>
          match Halting.allocateRegion fuel pages newCr3 0x800000 s.proc.anonAllocateEnd 7 with
          | none => none
          | some (.error pages) => some (.halted { s with pages := pages })
          | some (.ok pages) => addChild fuel { s with pages := pages } newCr3 context

/-- What `fork_syscall` uses of the parent's address space. -/
def user (s : ForkState) : UserProcess :=
  ⟨s.proc.cr3, UInt32.ofNat s.proc.elfEnd, s.proc.anonAllocateEnd⟩

theorem addChild_pages {fuel newCr3 n : Nat} {s s' : ForkState} {context : Ptr}
    (hrun : s.addChild fuel newCr3 context = some (.returned s' n)) :
    ∃ st c c', copyPagesBetweenPagetables fuel s.pages newCr3 s.proc.cr3 0x200000 s.proc.elfEnd =
        some (st, c) ∧
      copyPagesBetweenPagetables fuel st newCr3 s.proc.cr3 0x800000 s.proc.anonAllocateEnd =
        some (s'.pages, c') := by
  obtain ⟨⟨heap, p⟩, -, hrun⟩ := Option.bind_eq_some_iff.mp hrun
  by_cases hnull : p = NULL
  · simp only [if_pos hnull] at hrun
    cases hrun
  · simp only [if_neg hnull] at hrun
    obtain ⟨⟨heap', resources⟩, -, hrun⟩ := Option.bind_eq_some_iff.mp hrun
    by_cases hmissing : resources = NULL ∧ mul64 sizeofResource (sizeT s.proc.resourcesCap) ≠ 0
    · simp only [if_pos hmissing] at hrun
      cases hrun
    · simp only [if_neg hmissing] at hrun
      obtain ⟨⟨st, c⟩, hcopy, hrun⟩ := Option.bind_eq_some_iff.mp hrun
      obtain ⟨⟨st', c'⟩, hcopy', hrun⟩ := Option.bind_eq_some_iff.mp hrun
      obtain ⟨sched, -, heq⟩ := Option.map_eq_some_iff.mp hrun
      cases heq
      exact ⟨st, c, c', hcopy, hcopy'⟩

/-- A call that returns has done to the pages what `fork_syscall` does there. -/
theorem forkSyscall_pages {fuel n : Nat} {s s' : ForkState} {context : Ptr}
    (hend : s.proc.elfEnd < 0x100000000)
    (hrun : s.forkSyscall fuel context = some (.returned s' n)) :
    ∃ child, BayosKernel.forkSyscall fuel s.pages s.user = some (s'.pages, child) := by
  have hword : s.user.elfEnd.toNat = s.proc.elfEnd := by
    rw [user, UInt32.toNat_ofNat_of_lt' hend]
  rw [forkSyscall] at hrun
  cases hnew : s.pages.newSpace s.proc.cr3 with
  | none =>
      rw [hnew] at hrun
      cases hrun
  | some r =>
      obtain ⟨st, newCr3⟩ := r
      simp only [hnew] at hrun
      have hfirst := Halting.allocateRegion_toOption st fuel newCr3 0x200000 s.proc.elfEnd 7
      split at hrun
      · cases hrun
      · cases hrun
      · rename_i st₁ helf
        have hsecond :=
          Halting.allocateRegion_toOption st₁ fuel newCr3 0x800000 s.proc.anonAllocateEnd 7
        split at hrun
        · cases hrun
        · cases hrun
        · rename_i st₂ hanon
          rw [helf] at hfirst
          rw [hanon] at hsecond
          have hcopies : ∃ st₃ c c', copyPagesBetweenPagetables fuel st₂ newCr3 s.proc.cr3 0x200000
                s.proc.elfEnd = some (st₃, c) ∧
              copyPagesBetweenPagetables fuel st₃ newCr3 s.proc.cr3 0x800000
                s.proc.anonAllocateEnd = some (s'.pages, c') := addChild_pages hrun
          obtain ⟨st₃, c, c', hcopy, hcopy'⟩ := hcopies
          have hparent : s.user.cr3 = s.proc.cr3 := rfl
          have hanonEnd : s.user.anonAllocateEnd = s.proc.anonAllocateEnd := rfl
          refine ⟨{ s.user with cr3 := newCr3 }, ?_⟩
          simp only [BayosKernel.forkSyscall, hword, hparent, hanonEnd, hnew, ← hfirst, ← hsecond,
            Except.toOption, Option.bind_some, hcopy, hcopy', Option.map_some]

end ForkState

/-- Both calls of `allocate_region` find the frames for the child's pages and tables. -/
def HoldsRegions (fuel : Nat) (st : PageState) (newCr3 : Nat) (proc : Process) : Prop :=
  ∃ st₁ st₂, st.allocateRegion fuel newCr3 0x200000 proc.elfEnd 7 = some st₁ ∧
    st₁.allocateRegion fuel newCr3 0x800000 proc.anonAllocateEnd 7 = some st₂

/-- What memory and the allocator are when `fork_syscall` has halted: no frame is left,
none was given back, and only frames that were free before have been written. -/
structure ForkHalted (sites : List Site) (st st' : PageState) (cr3 : Nat) : Prop where
  exhausted : Halting.Exhausted st'
  marked : ∀ p, st.Marked p → st'.Marked p
  null : ¬st'.Marked NULL
  frames : ∀ p, Frame sites p → st.Marked p ∨ ¬st'.Marked p → ∀ i < 0x1000,
    st'.mem (p + i) = st.mem (p + i)
  parent : ∀ va < 0x800000000000, ∀ p, PageAt st'.mem cr3 va p ↔ PageAt st.mem cr3 va p
  contents : ∀ va < 0x800000000000, ∀ p, PageAt st.mem cr3 va p → ∀ i < 0x1000,
    st'.mem (p + i) = st.mem (p + i)
  upper : ∀ i, 256 ≤ i → i < 512 → entry st'.mem cr3 i = entry st.mem cr3 i

namespace Takes

variable {sites : List Site} {roots : List Nat} {st₀ st : PageState} {own : Nat → Option Role}

/-- The pages of the address spaces stay as they are. -/
theorem kept (h : Takes sites st₀ st) (h₀ : TableInv sites st₀ roots own)
    (hpages : PageInv st₀ sites) {t : Nat} {r : Role} (ht : own t = some r) {x : Nat}
    (hle : t ≤ x) (hlt : x < t + 0x1000) : st.mem x = st₀.mem x := by
  refine h.frames t (h₀.frame hpages ht) ?_ x hle hlt
  by_cases hmem : t ∈ st₀.allocated
  · exact Or.inl hmem
  · exact Or.inr fun hmem' => h₀.ne_fresh h.pages hmem' hmem ht rfl

theorem entry_eq (h : Takes sites st₀ st) (h₀ : TableInv sites st₀ roots own)
    (hpages : PageInv st₀ sites) {t i : Nat} {r : Role} (ht : own t = some r) (hi : i < 512) :
    entry st.mem t i = entry st₀.mem t i :=
  entry_congr hi fun _ hle hlt => h.kept h₀ hpages ht hle hlt

theorem tableInv (h : Takes sites st₀ st) (h₀ : TableInv sites st₀ roots own)
    (hpages : PageInv st₀ sites) : TableInv sites st roots own := by
  refine ⟨h₀.roots, fun t r ht => (h₀.owned t r ht).imp_left (h.allocated t),
    fun t r ht hr i hi => ?_, fun c r hc hr => ?_⟩
  · rw [h.entry_eq h₀ hpages ht (Nat.lt_of_lt_of_le hi r.width_le)]
    exact h₀.entries t r ht hr i hi
  · obtain ⟨q, f, hparent, hheight, hindex, hf, he⟩ := h₀.linked c r hc hr
    refine ⟨q, f, hparent, hheight, hindex, hf, ?_⟩
    rw [h.entry_eq h₀ hpages hparent (Nat.lt_of_lt_of_le hindex q.width_le), he]

theorem forkHalted {cr3 : Nat} (h : Takes sites st₀ st) (h₀ : TableInv sites st₀ roots own)
    (hpages : PageInv st₀ sites) (hphys : Physical sites) (hroot : cr3 ∈ roots)
    (hnone : Halting.Exhausted st) : ForkHalted sites st₀ st cr3 := by
  have hmarked : ∀ p, st₀.Marked p → st.Marked p := fun p hp =>
    h.pages.marked_of_mem (h.allocated p (hpages.mem_of_marked hp))
  have hmaps : ∀ va < 0x800000000000, ∀ p, PageAt st₀.mem cr3 va p ↔ Maps own cr3 va p :=
    fun va hva p => h₀.pageAt_iff hpages hphys hroot hva
  refine ⟨hnone, hmarked, fun hnull => ?_, fun p hp hold i hi => ?_, fun va hva p => ?_,
    fun va hva p hp i hi => ?_, fun i hle hlt => ?_⟩
  · obtain ⟨s, -, k, -, hpage⟩ := h.pages.pages NULL (h.pages.mem_of_marked hnull)
    exact s.page_ne_null k hpage.symm
  · refine h.frames p hp ?_ _ (by omega) (by omega)
    exact hold.imp hpages.mem_of_marked fun hfree hmem => hfree (h.pages.marked_of_mem hmem)
  · rw [hmaps va hva p, (h.tableInv h₀ hpages).pageAt_iff h.pages hphys hroot hva]
  · obtain ⟨t, j, hrole⟩ := ((hmaps va hva p).mp hp).owned
    exact h.kept h₀ hpages hrole (by omega) (by omega)
  · obtain ⟨r, hr, -⟩ := h₀.roots cr3 hroot
    exact h.entry_eq h₀ hpages hr hlt

end Takes

/-- The PML4 of the child is the first frame that is taken. -/
theorem NewSpace.builds {sites : List Site} {roots : List Nat} {st st' : PageState}
    {own : Nat → Option Role} {cr3 newCr3 : Nat} (hspace : NewSpace sites st st' own newCr3 cr3)
    (h : TableInv sites st roots own) (hpages' : PageInv st' sites)
    (h' : TableInv sites st' (newCr3 :: roots) (withRoot own newCr3)) :
    Builds sites (newCr3 :: roots) st own st' (withRoot own newCr3) := by
  refine ⟨⟨hpages', fun p hp => ?_, fun p hp hold => hspace.data p hp ?_⟩, h',
    fun c r hc => withRoot_keeps hspace.unowned hc, fun c r hc hr hspare => ?_⟩
  · rw [hspace.allocated]
    exact List.mem_cons_of_mem _ hp
  · rintro rfl
    refine hold.elim hspace.fresh fun hfree => hfree ?_
    rw [hspace.allocated]
    exact List.mem_cons_self
  · rcases withRoot_cases hc with ⟨hc, -⟩ | ⟨-, rfl⟩
    · obtain ⟨q, -, hparent, -⟩ := h.linked c r hc hr
      rw [hspare.1] at hparent
      cases hparent
    · simp at hr

/-- A frame for the PML4 is found, and one for a page or a table of the child is not:
`fork_syscall` halts before it has changed the processes or the heap. -/
theorem forkSyscall_halts {sites : List Site} {roots : List Nat} {fuel : Nat} {s : ForkState}
    {context : Ptr} {st : PageState} {newCr3 : Nat} (hphys : Physical sites)
    (hsites : sites.length ≤ 0x100) (hinv : SpaceInv sites roots s.pages)
    (hroot : s.proc.cr3 ∈ roots) (hfuel : 0x10000000 ≤ fuel)
    (hnew : s.pages.newSpace s.proc.cr3 = some (st, newCr3)) (hne : newCr3 ≠ NULL)
    (hfail : ¬HoldsRegions (fuel + 1) st newCr3 s.proc) :
    ∃ st', s.forkSyscall (fuel + 1) context = some (.halted { s with pages := st' }) ∧
      ForkHalted sites s.pages st' s.proc.cr3 := by
  obtain ⟨own, h⟩ := hinv.tables
  have hpages := hinv.pages
  have hflags : PageFlags 7 := by decide
  obtain ⟨hpages₀, h₀, hspace⟩ := h.newSpace hpages hroot hnew hne
  have hspare : Spare s.pages own newCr3 := ⟨hspace.unowned, hspace.fresh⟩
  have hmem : newCr3 ∈ st.allocated := by simp [hspace.allocated]
  obtain ⟨r₁, st₁, own₁, helf, hends₁, hbuilds₁, hmem₁⟩ :=
    (hspace.builds h hpages₀ h₀).allocateRegion hphys hsites List.mem_cons_self hmem hspare hflags
      (by decide : 0x200000 % 0x1000 = 0) (by decide) hfuel s.proc.elfEnd
  rcases hends₁ with rfl | ⟨rfl, hnone⟩
  · obtain ⟨r₂, st₂, own₂, hanon, hends₂, hbuilds₂, -⟩ := hbuilds₁.allocateRegion hphys hsites
      List.mem_cons_self hmem₁ hspare hflags (by decide : 0x800000 % 0x1000 = 0) (by decide) hfuel
      s.proc.anonAllocateEnd
    rcases hends₂ with rfl | ⟨rfl, hnone⟩
    · have hfirst := Halting.allocateRegion_toOption st (fuel + 1) newCr3 0x200000 s.proc.elfEnd 7
      have hsecond :=
        Halting.allocateRegion_toOption st₁ (fuel + 1) newCr3 0x800000 s.proc.anonAllocateEnd 7
      rw [helf] at hfirst
      rw [hanon] at hsecond
      exact absurd ⟨st₁, st₂, hfirst.symm, hsecond.symm⟩ hfail
    · refine ⟨st₂, ?_, hbuilds₂.takes.forkHalted h hpages hphys hroot hnone⟩
      simp only [ForkState.forkSyscall, hnew, helf, hanon]
  · refine ⟨st₁, ?_, hbuilds₁.takes.forkHalted h hpages hphys hroot hnone⟩
    simp only [ForkState.forkSyscall, hnew, helf]

/-- A process of 0x4000 pages, in the state around it. -/
def largeFork (st : PageState) : ForkState :=
  ⟨st, ⟨⟨0, 0x1000000, 0x1000⟩, fun _ => 0, []⟩, ⟨fun _ => { Process.zeroed with
    cr3 := 0x1000, elfEnd := 0x4200000, anonAllocateEnd := 0x800000 }, 0x2000000, 0x2000000⟩, 1⟩

theorem forkSyscall_halts_large : ∃ sites st st', managedPages sites = 0x3fff ∧
    (largeFork st).forkSyscall 0x10000001 0x3000000 =
        some (.halted { largeFork st with pages := st' }) ∧
      ForkHalted sites st st' 0x1000 := by
  obtain ⟨st, sites, hinit, hsites, hcount, hallocated⟩ := bootSpace
  have hphys := hinit.physical
  have hroot : 0x1000 ∈ [0x1000] := List.mem_singleton.mpr rfl
  have hfree : st.allocated.length < managedPages sites := by
    rw [hallocated, hcount]
    decide
  obtain ⟨st₁, newCr3, hnew, hne, -⟩ := hinit.pages.newSpace_some hfree 0x1000
  have hfail : ¬HoldsRegions 0x10000001 st₁ newCr3 (largeFork st).proc := by
    rintro ⟨st₂, -, helf, -⟩
    obtain ⟨own, h⟩ := hinit.inv.tables
    obtain ⟨hpages₁, h₁, -⟩ := h.newSpace hinit.pages hroot hnew hne
    obtain ⟨own₂, hpages₂, h₂, hall⟩ := h₁.allocateRegion hpages₁ hphys List.mem_cons_self
      (show 0x4200000 ≤ 0x800000000000 by decide) (by decide : PageFlags 7) helf
    rw [show pageRoundDown 0x200000 = 0x200000 by decide] at hall
    have hmapped : ∀ k < 0x4000, ∃ c, Maps own₂ newCr3 (0x200000 + k * 0x1000) c :=
      fun k hk => hall.mapped _ (by simp only [InRegion]; omega)
    have hle := h₂.pages_le (by decide) (by decide) hmapped
    have hmax := hpages₂.length_le
    rw [show (sites.map Site.count).sum = 0x3fff from hcount] at hmax
    omega
  obtain ⟨st', hrun, hhalted⟩ := @forkSyscall_halts sites [0x1000] 0x10000000 (largeFork st)
    0x3000000 st₁ newCr3 hphys hsites hinit.inv hroot (Nat.le_refl _) hnew hne hfail
  exact ⟨sites, st, st', hcount, hrun, hhalted⟩

/-- One area, of two pages; the first becomes a PML4. -/
def twoPages : Option PageState :=
  (bitmapAllocatorInit 3 [⟨0x100000, 0x3000, 0, by decide⟩] fun _ => 0).bind fun (m, areas) =>
    pageMachine.exec ⟨areas, m, []⟩ [.allocate]

/-- A process of one page, for which the PML4 and three tables are needed. -/
def crowdedFork (st : PageState) : ForkState :=
  ⟨st, ⟨⟨0, 0x1000000, 0x1000⟩, fun _ => 0, []⟩, ⟨fun _ => { Process.zeroed with
    cr3 := 0x101000, elfEnd := 0x201000, anonAllocateEnd := 0x800000 }, 0x2000000, 0x2000000⟩, 1⟩

theorem twoPages_halts : ∃ st s', twoPages = some st ∧ st.allocated = [0x101000] ∧
    (crowdedFork st).forkSyscall 0x10000001 0x3000000 = some (.halted s') ∧
      s'.pages.allocated = [0x102000, 0x101000] ∧
      (allocatePage s'.pages.mem s'.pages.areas).map Prod.snd = some NULL := by
  have hrun : (twoPages.bind fun st =>
      ((crowdedFork st).forkSyscall 0x10000001 0x3000000).bind fun outcome =>
        match outcome with
        | .halted s' => some (st.allocated, s'.pages.allocated,
            (allocatePage s'.pages.mem s'.pages.areas).map Prod.snd)
        | _ => none) =
      some ([0x101000], [0x102000, 0x101000], some NULL) := by decide +kernel
  obtain ⟨st, hstart, hfork⟩ := Option.bind_eq_some_iff.mp hrun
  obtain ⟨outcome, hfork, hhalted⟩ := Option.bind_eq_some_iff.mp hfork
  cases outcome with
  | halted s' =>
      obtain ⟨hbefore, hafter, hnull⟩ := by
        simpa only [Option.some.injEq, Prod.mk.injEq] using hhalted
      exact ⟨st, s', hstart, hbefore, hfork, hafter, hnull⟩
  | returned s' n => cases hhalted
  | faulted s' => cases hhalted

end BayosKernel
