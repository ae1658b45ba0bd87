import BayosKernel.Disclosure
import BayosKernel.SyscallRanges

/-!
The calls of `anon_allocate_syscall` of one program, whatever the rest of the system does
between them: what the program gets in `*ptr`, and what is mapped there. The number of pages
is computed in 64 bits and kept in an `int`.
-/

namespace BayosKernel

open Foundation

/-- `walk` finds a page. -/
def HasPage (m : ByteMemory) (cr3 va : Nat) : Prop := ∃ p, PageAt m cr3 va p

/-- A process with what its calls returned: `*ptr` and the size asked for, the latest first. -/
structure AnonState where
  pages : PageState
  proc : UserProcess
  granted : List (Nat × Nat)

/-- `other` is what the rest of the system does. -/
inductive AnonAction where
  | call (size : Nat)
  | other (pages : PageState)

def AnonAction.size? : AnonAction → Option Nat
  | .call size => some size
  | .other _ => none

/-- `*ptr` gets the `anon_allocate_end` from before the call. -/
def AnonState.step (s : AnonState) : AnonAction → Option AnonState
  | .call size =>
      (anonAllocateSyscall s.pages s.proc size).map fun (st, proc) =>
        ⟨st, proc, (s.proc.anonAllocateEnd, size) :: s.granted⟩
  | .other pages => some { s with pages := pages }

def anonMachine : Machine AnonState AnonAction := ⟨AnonState.step⟩

theorem anonMachine_call (s : AnonState) (size : Nat) : anonMachine.step s (.call size) =
    (anonAllocatePages s.pages s.proc (anonPages size)).map fun (st, proc) =>
      ⟨st, proc, (s.proc.anonAllocateEnd, size) :: s.granted⟩ := by
  simp only [anonMachine, AnonState.step, anonAllocateSyscall_eq]

/-- The anonymous memory of the process is mapped up to its end. -/
structure AnonOk (sites : List Site) (st : PageState) (proc : UserProcess) : Prop where
  space : ∃ roots, proc.cr3 ∈ roots ∧ SpaceInv sites roots st
  aligned : proc.anonAllocateEnd % 0x1000 = 0
  above : 0x800000 ≤ proc.anonAllocateEnd
  below : proc.anonAllocateEnd ≤ 0x800000000000
  mapped : ∀ va, InRegion 0x800000 proc.anonAllocateEnd va → HasPage st.mem proc.cr3 va

/-- The rest of the system keeps the page tables in order and maps or frees no page of the
process. -/
def AnonAction.Kept (sites : List Site) (s : AnonState) : AnonAction → Prop
  | .call size => size < 0x10000000000000000
  | .other st => (∃ roots, s.proc.cr3 ∈ roots ∧ SpaceInv sites roots st) ∧
      ∀ va < 0x800000000000, HasPage st.mem s.proc.cr3 va ↔ HasPage s.pages.mem s.proc.cr3 va

/-- Every range that was returned begins with a page, ends below `anon_allocate_end` and in
the user half, and is mapped; no two of them overlap. -/
structure AnonState.Served (s : AnonState) : Prop where
  aligned : ∀ g ∈ s.granted, g.1 % 0x1000 = 0
  passed : ∀ g ∈ s.granted, g.1 + g.2 ≤ s.proc.anonAllocateEnd
  user : ∀ g ∈ s.granted, g.1 + g.2 ≤ 0x800000000000
  mapped : ∀ g ∈ s.granted, ∀ va, g.1 ≤ va → va < g.1 + g.2 →
    HasPage s.pages.mem s.proc.cr3 va
  apart : s.granted.Pairwise fun g g' => g.1 + g.2 ≤ g'.1 ∨ g'.1 + g'.2 ≤ g.1

/-- The ranges that calls with these sizes return, from `stop` on. -/
def anonRanges : Nat → List Nat → List (Nat × Nat)
  | _, [] => []
  | stop, size :: rest => (stop, size) :: anonRanges (stop + anonPages size * 0x1000) rest

theorem anonPages_eq {size : Nat} (hsize : size ≤ 0x7fffffff000) :
    anonPages size = (size + 0xfff) / 0x1000 := by
  rw [anonPages, add64_eq (by omega), Nat.shiftRight_eq_div_pow,
    int32_of_range (by omega) (by omega), Int.toNat_natCast]

section Ranges

variable {g : Nat × Nat} {stop : Nat} {sizes : List Nat}

theorem mem_anonRanges (hg : g ∈ anonRanges stop sizes) : g.2 ∈ sizes ∧ stop ≤ g.1 ∧
    g.1 + anonPages g.2 * 0x1000 ≤ stop + (sizes.map anonPages).sum * 0x1000 ∧
      g.1 % 0x1000 = stop % 0x1000 := by
  induction sizes generalizing stop with
  | nil => cases hg
  | cons size rest ih =>
      simp only [List.map_cons, List.sum_cons]
      rcases List.mem_cons.mp hg with rfl | hg
      · exact ⟨List.mem_cons_self, Nat.le_refl _, by simp only; omega, rfl⟩
      · obtain ⟨hmem, hle, hend, halign⟩ := ih hg
        exact ⟨List.mem_cons_of_mem _ hmem, by omega, by omega, by omega⟩

theorem anonRanges_sizes (stop : Nat) (sizes : List Nat) :
    (anonRanges stop sizes).map Prod.snd = sizes := by
  induction sizes generalizing stop with
  | nil => rfl
  | cons size rest ih => rw [anonRanges, List.map_cons, ih]

theorem anonRanges_apart (stop : Nat) (sizes : List Nat) :
    (anonRanges stop sizes).Pairwise fun g g' => g.1 + anonPages g.2 * 0x1000 ≤ g'.1 := by
  induction sizes generalizing stop with
  | nil => exact List.Pairwise.nil
  | cons size rest ih => exact List.Pairwise.cons (fun g hg => (mem_anonRanges hg).2.1) (ih _)

end Ranges

section Calls

variable {st st' : PageState} {sites : List Site} {roots : List Nat} {own : Nat → Option Role}
  {proc proc' : UserProcess} {n : Nat}

theorem TableInv.hasPage_iff {cr3 va : Nat} (h : TableInv sites st roots own)
    (hpages : PageInv st sites) (hphys : Physical sites) (hroot : cr3 ∈ roots)
    (hva : va < 0x800000000000) :
    HasPage st.mem cr3 va ↔ va / 0x1000 * 0x1000 ∈ mappedPages own cr3 := by
  constructor
  · rintro ⟨p, hp⟩
    exact mem_mappedPages ((h.pageAt_iff hpages hphys hroot hva).mp hp) hva
  · rintro ⟨-, c, hmaps⟩
    exact ⟨c, (h.pageAt_iff hpages hphys hroot hva).mpr (Maps.page.mp hmaps)⟩

namespace AnonOk

theorem stop_le (h : AnonOk sites st proc) (hphys : Physical sites)
    (hsites : sites.length ≤ 0x100) : proc.anonAllocateEnd ≤ 0x800000 + 256000001 * 0x1000 := by
  obtain ⟨roots, hroot, hpages, own, htables⟩ := h.space
  have hbelow := h.below
  have hregion : ∀ va, InRegion 0x800000 proc.anonAllocateEnd va →
      ∃ c, Maps own proc.cr3 va c := by
    intro va hin
    obtain ⟨p, hp⟩ := h.mapped va hin
    exact ⟨p, (htables.pageAt_iff hpages hphys hroot (Nat.lt_of_lt_of_le hin.2.1 hbelow)).mp hp⟩
  exact htables.region_le hpages hsites (by decide) hbelow hregion

theorem hasPage (h : AnonOk sites st proc) (hphys : Physical sites) {va : Nat}
    (hle : 0x800000 ≤ va) (hlt : va < proc.anonAllocateEnd) : HasPage st.mem proc.cr3 va := by
  have hbelow := h.below
  obtain ⟨roots, hroot, hpages, own, htables⟩ := h.space
  have hpage := h.mapped (va / 0x1000 * 0x1000) ⟨by omega, by omega, by omega⟩
  rw [htables.hasPage_iff hpages hphys hroot (by omega)] at hpage ⊢
  rwa [show va / 0x1000 * 0x1000 / 0x1000 * 0x1000 = va / 0x1000 * 0x1000 by omega] at hpage

/-- One turn of the loop of `anon_allocate_syscall`. -/
theorem page (h : AnonOk sites st proc) (hphys : Physical sites) (hsites : sites.length ≤ 0x100)
    (hmap : st.mapMemoryPage proc.cr3 proc.anonAllocateEnd 7 = some st') :
    AnonOk sites st' { proc with anonAllocateEnd := proc.anonAllocateEnd + 0x1000 } ∧
      ∀ va < 0x800000000000, HasPage st'.mem proc.cr3 va ↔ HasPage st.mem proc.cr3 va ∨
        proc.anonAllocateEnd ≤ va ∧ va < proc.anonAllocateEnd + 0x1000 := by
  have hstop := h.stop_le hphys hsites
  have halign := h.aligned
  have habove := h.above
  obtain ⟨roots, hroot, hpages, own, htables⟩ := h.space
  obtain ⟨own', hremaps, -, hmapped⟩ :=
    htables.mapMemoryPage_remaps hpages hphys hroot (by omega) (by decide) hmap
  have hiff : ∀ va < 0x800000000000, HasPage st'.mem proc.cr3 va ↔ HasPage st.mem proc.cr3 va ∨
      proc.anonAllocateEnd ≤ va ∧ va < proc.anonAllocateEnd + 0x1000 := by
    intro va hva
    rw [hremaps.tables.hasPage_iff hremaps.pages hphys hroot hva,
      htables.hasPage_iff hpages hphys hroot hva, hmapped, Set.mem_union, Set.mem_singleton_iff]
    refine or_congr_right ?_
    omega
  refine ⟨⟨⟨roots, hroot, hremaps.pages, own', hremaps.tables⟩, ?_, ?_, ?_, fun va hin => ?_⟩, hiff⟩
  · simp only
    omega
  · simp only
    omega
  · simp only
    omega
  · have hle : 0x800000 ≤ va := hin.1
    have hlt : va < proc.anonAllocateEnd + 0x1000 := hin.2.1
    refine (hiff va (by omega)).mpr ?_
    by_cases hnew : proc.anonAllocateEnd ≤ va
    · exact Or.inr ⟨hnew, hlt⟩
    · exact Or.inl (h.mapped va ⟨hle, by omega, hin.2.2⟩)

theorem turns (h : AnonOk sites st proc) (hphys : Physical sites) (hsites : sites.length ≤ 0x100)
    (hrun : anonAllocatePages st proc n = some (st', proc')) :
    proc' = { proc with anonAllocateEnd := proc.anonAllocateEnd + n * 0x1000 } ∧
      AnonOk sites st' proc' ∧
      ∀ va < 0x800000000000, HasPage st'.mem proc.cr3 va ↔ HasPage st.mem proc.cr3 va ∨
        proc.anonAllocateEnd ≤ va ∧ va < proc.anonAllocateEnd + n * 0x1000 := by
  induction n generalizing st' proc' with
  | zero =>
      cases hrun
      refine ⟨rfl, h, fun va _ => ?_⟩
      rw [Nat.zero_mul, Nat.add_zero, iff_self_or]
      omega
  | succ n ih =>
      obtain ⟨⟨st₁, proc₁⟩, hfirst, hlast⟩ := Option.bind_eq_some_iff.mp hrun
      obtain ⟨hproc₁, hok₁, hiff₁⟩ := ih hfirst
      obtain ⟨st₂, hmap, heq⟩ := Option.map_eq_some_iff.mp hlast
      obtain ⟨rfl, rfl⟩ := Prod.mk.inj heq
      have hstop := hok₁.stop_le hphys hsites
      obtain ⟨hok, hiff⟩ := hok₁.page hphys hsites hmap
      rw [hproc₁] at hiff hok hstop ⊢
      simp only at hiff hok hstop ⊢
      have hend : add64 (proc.anonAllocateEnd + n * 0x1000) 0x1000 =
          proc.anonAllocateEnd + (n + 1) * 0x1000 := by
        rw [add64_eq (by omega)]
        omega
      rw [hend]
      refine ⟨rfl, ?_, fun va hva => ?_⟩
      · rwa [Nat.add_assoc, ← Nat.succ_mul] at hok
      · rw [hiff va hva, hiff₁ va hva, or_assoc]
        refine or_congr_right ?_
        omega

/-- With four frames for each page the loop comes to its end. -/
theorem turns_some (h : AnonOk sites st proc) (hphys : Physical sites)
    (hsites : sites.length ≤ 0x100)
    (hfree : st.allocated.length + 4 * n ≤ managedPages sites) :
    ∃ st' proc', anonAllocatePages st proc n = some (st', proc') ∧
      st'.allocated.length ≤ st.allocated.length + 4 * n := by
  have hspace : ∀ k ≤ n, ∀ st₁ proc₁, anonAllocatePages st proc k = some (st₁, proc₁) →
      proc₁.anonAllocateEnd < 0x800000000000 ∧
        ∃ roots, proc₁.cr3 ∈ roots ∧ SpaceInv sites roots st₁ := by
    intro k _ st₁ proc₁ hfirst
    obtain ⟨-, hok₁, -⟩ := h.turns hphys hsites hfirst
    have hstop := hok₁.stop_le hphys hsites
    exact ⟨by omega, hok₁.space⟩
  obtain ⟨st', hrun, hlength⟩ := anonAllocatePages_progress hphys hspace hfree
  exact ⟨st', _, hrun, hlength⟩

end AnonOk

end Calls

/-- What a step does to the process. -/
structure AnonStep (sites : List Site) (s s' : AnonState) (n : Nat) : Prop where
  ok : AnonOk sites s'.pages s'.proc
  cr3 : s'.proc.cr3 = s.proc.cr3
  stop : s'.proc.anonAllocateEnd = s.proc.anonAllocateEnd + n * 0x1000
  pages : ∀ va < 0x800000000000, HasPage s'.pages.mem s'.proc.cr3 va ↔
    HasPage s.pages.mem s.proc.cr3 va ∨
      s.proc.anonAllocateEnd ≤ va ∧ va < s.proc.anonAllocateEnd + n * 0x1000

section Steps

variable {sites : List Site} {s s' : AnonState}

theorem AnonOk.granted {size n : Nat} (h : AnonOk sites s.pages s.proc) (hphys : Physical sites)
    (hsites : sites.length ≤ 0x100)
    (hstep : ((anonAllocatePages s.pages s.proc n).map fun (st, proc) =>
      (⟨st, proc, (s.proc.anonAllocateEnd, size) :: s.granted⟩ : AnonState)) = some s') :
    AnonStep sites s s' n ∧ s'.granted = (s.proc.anonAllocateEnd, size) :: s.granted := by
  obtain ⟨⟨st₁, proc₁⟩, hcall, rfl⟩ := Option.map_eq_some_iff.mp hstep
  obtain ⟨rfl, hok₁, hiff⟩ := h.turns hphys hsites hcall
  exact ⟨⟨hok₁, rfl, rfl, hiff⟩, rfl⟩

theorem AnonOk.call {size : Nat} (h : AnonOk sites s.pages s.proc) (hphys : Physical sites)
    (hsites : sites.length ≤ 0x100) (hstep : anonMachine.step s (.call size) = some s') :
    AnonStep sites s s' (anonPages size) ∧
      s'.granted = (s.proc.anonAllocateEnd, size) :: s.granted := by
  rw [anonMachine_call] at hstep
  exact h.granted hphys hsites hstep

theorem AnonOk.other {st : PageState} (h : AnonOk sites s.pages s.proc)
    (hkept : (AnonAction.other st).Kept sites s)
    (hstep : anonMachine.step s (.other st) = some s') :
    AnonStep sites s s' 0 ∧ s'.granted = s.granted := by
  obtain rfl : { s with pages := st } = s' := Option.some.inj hstep
  obtain ⟨hspace, hsame⟩ := hkept
  have hbelow := h.below
  refine ⟨⟨⟨hspace, h.aligned, h.above, hbelow, fun va hin => ?_⟩, rfl, by simp, fun va hva => ?_⟩,
    rfl⟩
  · exact (hsame va (Nat.lt_of_lt_of_le hin.2.1 hbelow)).mpr (h.mapped va hin)
  · rw [hsame va hva, Nat.zero_mul, Nat.add_zero, iff_self_or]
    omega

end Steps

/-- What a run makes of the process: the ranges follow from the sizes alone. -/
theorem anonMachine_run {sites : List Site} {run : List AnonAction} {s₀ s : AnonState}
    (hphys : Physical sites) (hsites : sites.length ≤ 0x100)
    (hok : AnonOk sites s₀.pages s₀.proc)
    (hkept : anonMachine.Meets (fun s a => a.Kept sites s) s₀ run)
    (hrun : anonMachine.exec s₀ run = some s) :
    AnonOk sites s.pages s.proc ∧
      s.proc.anonAllocateEnd = s₀.proc.anonAllocateEnd +
        ((run.filterMap AnonAction.size?).map anonPages).sum * 0x1000 ∧
      s.granted = (anonRanges s₀.proc.anonAllocateEnd
        (run.filterMap AnonAction.size?)).reverse ++ s₀.granted := by
  induction run generalizing s₀ with
  | nil =>
      cases hrun
      exact ⟨hok, by simp, by simp [anonRanges]⟩
  | cons a rest ih =>
      obtain ⟨s₁, hstep, hrest⟩ := anonMachine.exec_cons_some hrun
      cases a with
      | call size =>
          obtain ⟨hcall, hgranted₁⟩ := hok.call hphys hsites hstep
          obtain ⟨hok', hend, hgranted⟩ := ih hcall.ok (hkept.2 s₁ hstep) hrest
          rw [hcall.stop] at hend hgranted
          have hsizes : (AnonAction.call size :: rest).filterMap AnonAction.size? =
              size :: rest.filterMap AnonAction.size? := rfl
          refine ⟨hok', ?_, ?_⟩
          · rw [hend, hsizes, List.map_cons, List.sum_cons, Nat.add_mul, Nat.add_assoc]
          · rw [hgranted, hgranted₁, hsizes, anonRanges, List.reverse_cons, List.append_assoc,
              List.singleton_append]
      | other st =>
          obtain ⟨hother, hgranted₁⟩ := hok.other hkept.1 hstep
          obtain ⟨hok', hend, hgranted⟩ := ih hother.ok (hkept.2 s₁ hstep) hrest
          rw [hother.stop, Nat.zero_mul, Nat.add_zero] at hend hgranted
          have hsizes : (AnonAction.other st :: rest).filterMap AnonAction.size? =
              rest.filterMap AnonAction.size? := rfl
          rw [hgranted₁] at hgranted
          rw [hsizes]
          exact ⟨hok', hend, hgranted⟩

theorem mem_sizes {run : List AnonAction} {size : Nat} :
    size ∈ run.filterMap AnonAction.size? ↔ .call size ∈ run := by
  rw [List.mem_filterMap]
  constructor
  · rintro ⟨a, ha, hsome⟩
    cases a with
    | call n =>
        cases hsome
        exact ha
    | other pages => cases hsome
  · exact fun hcall => ⟨_, hcall, rfl⟩

/-- Sizes whose page count fits into an `int` are covered by the pages of their calls. -/
theorem AnonOk.served {sites : List Site} {s : AnonState} {stop : Nat} {sizes : List Nat}
    (h : AnonOk sites s.pages s.proc) (hphys : Physical sites) (halign : stop % 0x1000 = 0)
    (habove : 0x800000 ≤ stop)
    (hend : s.proc.anonAllocateEnd = stop + (sizes.map anonPages).sum * 0x1000)
    (hgranted : s.granted = (anonRanges stop sizes).reverse)
    (hsmall : ∀ size ∈ sizes, size ≤ 0x7fffffff000) : s.Served := by
  have hbelow := h.below
  have hcovers : ∀ g ∈ s.granted, g.1 % 0x1000 = 0 ∧ 0x800000 ≤ g.1 ∧
      g.1 + g.2 ≤ s.proc.anonAllocateEnd ∧ g.2 ≤ anonPages g.2 * 0x1000 := by
    intro g hg
    rw [hgranted, List.mem_reverse] at hg
    obtain ⟨hin, hle, hsum, hsame⟩ := mem_anonRanges hg
    have hcount := anonPages_eq (hsmall g.2 hin)
    exact ⟨by omega, by omega, by omega, by omega⟩
  refine ⟨fun g hg => (hcovers g hg).1, fun g hg => (hcovers g hg).2.2.1, fun g hg => ?_,
    fun g hg va hle hlt => ?_, ?_⟩
  · have := (hcovers g hg).2.2.1
    omega
  · have := hcovers g hg
    exact h.hasPage hphys (by omega) (by omega)
  · rw [hgranted, List.pairwise_reverse]
    refine (anonRanges_apart _ _).imp_of_mem fun {g g'} hg _ hle => Or.inr ?_
    have hcount := (hcovers g (by rw [hgranted]; exact List.mem_reverse.mpr hg)).2.2.2
    exact Nat.le_trans (Nat.add_le_add_left hcount _) hle

/-- The program gets what it asked for, over every run, if and only if no size exceeds
2^43 - 0x1000; such a call comes back when there are frames. -/
theorem anonMachine_served_iff {sites : List Site} {st : PageState} {proc : UserProcess}
    {run : List AnonAction} {s : AnonState} (hphys : Physical sites)
    (hsites : sites.length ≤ 0x100) (hok : AnonOk sites st proc)
    (hkept : anonMachine.Meets (fun s a => a.Kept sites s) ⟨st, proc, []⟩ run)
    (hrun : anonMachine.exec ⟨st, proc, []⟩ run = some s) :
    (s.Served ↔ ∀ size, .call size ∈ run → size ≤ 0x7fffffff000) ∧
      ∀ size ≤ 0x7fffffff000,
        s.pages.allocated.length + 4 * ((size + 0xfff) / 0x1000) ≤ managedPages sites →
          ∃ s', anonMachine.step s (.call size) = some s' := by
  obtain ⟨hok', hend, hgranted⟩ := anonMachine_run hphys hsites hok hkept hrun
  simp only [List.append_nil] at hend hgranted
  refine ⟨⟨fun hserved size hcall => ?_, fun hsmall => ?_⟩, fun size hsmall hfree => ?_⟩
  · -- the size of a call is that of a range, which ends where the frames have an end
    have hin : size ∈ (anonRanges proc.anonAllocateEnd
        (run.filterMap AnonAction.size?)).map Prod.snd := by
      rw [anonRanges_sizes]
      exact mem_sizes.mpr hcall
    obtain ⟨g, hg, rfl⟩ := List.mem_map.mp hin
    have hpassed := hserved.passed g (by rw [hgranted]; exact List.mem_reverse.mpr hg)
    have hstop := hok'.stop_le hphys hsites
    omega
  · exact hok'.served hphys hok.aligned hok.above hend hgranted
      fun size hsize => hsmall size (mem_sizes.mp hsize)
  · obtain ⟨st', proc', hcall, -⟩ := hok'.turns_some (n := anonPages size) hphys hsites
      (by rw [anonPages_eq hsmall]; exact hfree)
    exact ⟨_, by rw [anonMachine_call, hcall, Option.map_some]⟩

/-- The first process with nothing mapped. -/
theorem SpaceInit.anonOk {sites : List Site} {st : PageState}
    (hinit : SpaceInit sites [0x1000] st) : AnonOk sites st ⟨0x1000, 0, 0x800000⟩ := by
  refine ⟨⟨[0x1000], List.mem_singleton.mpr rfl, hinit.inv⟩, (by decide : 0x800000 % 0x1000 = 0),
    Nat.le_refl 0x800000, (by decide : 0x800000 ≤ 0x800000000000), fun va hin => ?_⟩
  exact absurd hin.1 (Nat.not_le.mpr hin.2.1)

/-- Two calls, for two pages and for one byte. -/
theorem anonMachine_served_iff_twoCalls : ∃ sites st s, SpaceInit sites [0x1000] st ∧
    anonMachine.exec ⟨st, ⟨0x1000, 0, 0x800000⟩, []⟩ [.call 0x1800, .call 1] = some s ∧
      s.granted = [(0x802000, 1), (0x800000, 0x1800)] ∧ s.Served := by
  obtain ⟨st, sites, hinit, hsites, hcount, hallocated⟩ := bootSpace
  have hok := hinit.anonOk
  have htwo : anonPages 0x1800 = 2 := anonPages_eq (by decide)
  have hone : anonPages 1 = 1 := anonPages_eq (by decide)
  obtain ⟨st₁, proc₁, hfirst, hlength⟩ := hok.turns_some (n := 2) hinit.physical hsites
    (by rw [hallocated, hcount]; decide)
  obtain ⟨hproc₁, hok₁, -⟩ := hok.turns hinit.physical hsites hfirst
  rw [hallocated, List.length_nil] at hlength
  obtain ⟨st₂, proc₂, hsecond, -⟩ := hok₁.turns_some (n := 1) hinit.physical hsites
    (by rw [hcount]; omega)
  have hrun : anonMachine.exec ⟨st, ⟨0x1000, 0, 0x800000⟩, []⟩ [.call 0x1800, .call 1] =
      some ⟨st₂, proc₂, [(0x802000, 1), (0x800000, 0x1800)]⟩ := by
    rw [Machine.exec, anonMachine_call, htwo, hfirst, Option.map_some, Option.bind_some,
      Machine.exec, anonMachine_call, hone, hsecond, Option.map_some, Option.bind_some,
      Machine.exec, hproc₁]
  have hkept : anonMachine.Meets (fun s a => AnonAction.Kept sites s a)
      ⟨st, ⟨0x1000, 0, 0x800000⟩, []⟩ [.call 0x1800, .call 1] :=
    ⟨(by decide : 0x1800 < 0x10000000000000000), fun _ _ =>
      ⟨(by decide : 1 < 0x10000000000000000), fun _ _ => trivial⟩⟩
  refine ⟨sites, st, _, hinit, hrun, rfl,
    (anonMachine_served_iff hinit.physical hsites hok hkept hrun).1.mpr fun size hcall => ?_⟩
  simp only [List.mem_cons, AnonAction.call.injEq, List.not_mem_nil, or_false] at hcall
  rcases hcall with rfl | rfl <;> decide

/-- A call for 2^64 - 1 bytes maps no page and returns. -/
theorem hugeAnonAllocate_notServed : ∃ sites st s, SpaceInit sites [0x1000] st ∧
    AnonOk sites st ⟨0x1000, 0, 0x800000⟩ ∧
    anonMachine.exec ⟨st, ⟨0x1000, 0, 0x800000⟩, []⟩ [.call 0xffffffffffffffff] = some s ∧
      s.granted = [(0x800000, 0xffffffffffffffff)] ∧ ¬HasPage s.pages.mem 0x1000 0x800000 := by
  obtain ⟨st, sites, hinit, -, -, -⟩ := bootSpace
  have hnone : anonPages 0xffffffffffffffff = 0 := by decide
  have hrun : anonMachine.exec ⟨st, ⟨0x1000, 0, 0x800000⟩, []⟩ [.call 0xffffffffffffffff] =
      some ⟨st, ⟨0x1000, 0, 0x800000⟩, [(0x800000, 0xffffffffffffffff)]⟩ := by
    rw [Machine.exec, anonMachine_call, hnone, anonAllocatePages, Option.map_some,
      Option.bind_some, Machine.exec]
  refine ⟨sites, st, _, hinit, hinit.anonOk, hrun, rfl, ?_⟩
  rintro ⟨p, hp⟩
  obtain ⟨own, h⟩ := hinit.inv.tables
  have hroot : 0x1000 ∈ [0x1000] := List.mem_singleton.mpr rfl
  exact hinit.not_maps h hroot (by decide)
    ((h.pageAt_iff hinit.pages hinit.physical hroot (by decide)).mp hp)

end BayosKernel
