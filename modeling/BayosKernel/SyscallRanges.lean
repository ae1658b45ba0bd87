import BayosKernel.AddressSpaces

/-!
`elf_end` and `anon_allocate_end` over the runs of the system calls: they record
all pages of a process, so that `exit_syscall` gives every one of them back.
-/

namespace BayosKernel

open Foundation

/-- The page lies on the stack, in the ELF file or in the anonymous memory. -/
def UserProcess.Recorded (proc : UserProcess) (va : Nat) : Prop :=
  InRegion 0x200000 0x400000 va ∨ InRegion 0x400000 proc.elfEnd.toNat va ∨
    InRegion 0x800000 proc.anonAllocateEnd va

/-- The pages of a user half are recorded, and the anonymous ones are all there. -/
structure ProcInv (pages : Set Nat) (proc : UserProcess) : Prop where
  recorded : ∀ va ∈ pages, proc.Recorded va
  anonymous : regionPages 0x800000 proc.anonAllocateEnd ⊆ pages
  elf : proc.elfEnd.toNat ≤ 0x800000
  aligned : proc.anonAllocateEnd % 0x1000 = 0
  above : 0x800000 ≤ proc.anonAllocateEnd
  below : proc.anonAllocateEnd ≤ 0x800000000000

section Calls

variable {st st' : PageState} {sites : List Site} {roots : List Nat} {own : Nat → Option Role}
  {fuel : Nat} {proc proc' : UserProcess}

/-- The anonymous memory is bounded by the pages of all areas. -/
theorem ProcInv.anon_le {cr3 : Nat} (hproc : ProcInv (mappedPages own cr3) proc)
    (h : TableInv sites st roots own) (hpages : PageInv st sites) (hsites : sites.length ≤ 0x100) :
    proc.anonAllocateEnd ≤ 0x800000 + 256000001 * 0x1000 :=
  h.region_le hpages hsites (by decide) hproc.below fun _ hin => (hproc.anonymous hin).2

theorem anonAllocatePages_inv (h : TableInv sites st roots own) (hpages : PageInv st sites)
    (hphys : Physical sites) (hsites : sites.length ≤ 0x100) (hroot : proc.cr3 ∈ roots)
    (hproc : ProcInv (mappedPages own proc.cr3) proc) {pages : Nat}
    (hrun : anonAllocatePages st proc pages = some (st', proc')) :
    proc'.cr3 = proc.cr3 ∧ ∃ own', Remaps sites roots st' own own' proc.cr3 ∧
      ProcInv (mappedPages own' proc.cr3) proc' := by
  induction pages generalizing st' proc' with
  | zero =>
      cases hrun
      exact ⟨rfl, own, Remaps.refl hpages h _, hproc⟩
  | succ pages ih =>
      obtain ⟨⟨st₁, proc₁⟩, hfirst, hlast⟩ := Option.bind_eq_some_iff.mp hrun
      obtain ⟨hcr3, own₁, hremaps, hproc₁⟩ := ih hfirst
      obtain ⟨st₂, hmap, heq⟩ := Option.map_eq_some_iff.mp hlast
      obtain ⟨rfl, rfl⟩ := Prod.mk.inj heq
      simp only at hmap ⊢
      rw [hcr3] at hmap ⊢
      have hbound := hproc₁.anon_le hremaps.tables hremaps.pages hsites
      have halign := hproc₁.aligned
      obtain ⟨own₂, hremaps', -, hmapped⟩ := hremaps.tables.mapMemoryPage_remaps hremaps.pages hphys
        hroot (by omega) (by decide) hmap
      have hbase : proc₁.anonAllocateEnd / 0x1000 * 0x1000 = proc₁.anonAllocateEnd := by omega
      rw [hbase] at hmapped
      have hend : add64 proc₁.anonAllocateEnd 0x1000 = proc₁.anonAllocateEnd + 0x1000 :=
        add64_eq (by omega)
      have habove := hproc₁.above
      refine ⟨rfl, own₂, hremaps.trans hremaps', ?_⟩
      rw [hmapped, hend]
      refine ⟨fun va hva => ?_, fun va hva => ?_, hproc₁.elf, ?_, ?_, ?_⟩
      · rcases hva with hva | rfl
        · rcases hproc₁.recorded va hva with hin | hin | hin
          · exact Or.inl hin
          · exact Or.inr (Or.inl hin)
          · exact Or.inr (Or.inr ⟨hin.1, Nat.lt_add_right _ hin.2.1, hin.2.2⟩)
        · exact Or.inr (Or.inr ⟨habove, Nat.lt_add_of_pos_right (by decide), halign⟩)
      · have hlt : va < proc₁.anonAllocateEnd + 0x1000 := hva.2.1
        by_cases hlast : va = proc₁.anonAllocateEnd
        · exact Or.inr hlast
        · have := hva.2.2
          exact Or.inl (hproc₁.anonymous ⟨hva.1, by omega, hva.2.2⟩)
      · simp only
        omega
      · simp only
        omega
      · simp only
        omega

/-- With four frames for each page the loop comes to its end, when none of its turns leaves
the page tables or the user half. -/
theorem anonAllocatePages_progress (hphys : Physical sites) {pages : Nat}
    (hspace : ∀ k ≤ pages, ∀ st₁ proc₁, anonAllocatePages st proc k = some (st₁, proc₁) →
      proc₁.anonAllocateEnd < 0x800000000000 ∧
        ∃ roots, proc₁.cr3 ∈ roots ∧ SpaceInv sites roots st₁)
    (hfree : st.allocated.length + 4 * pages ≤ managedPages sites) :
    ∃ st', anonAllocatePages st proc pages =
        some (st', { proc with anonAllocateEnd := proc.anonAllocateEnd + pages * 0x1000 }) ∧
      st'.allocated.length ≤ st.allocated.length + 4 * pages := by
  induction pages with
  | zero => exact ⟨st, rfl, Nat.le_refl _⟩
  | succ pages ih =>
      obtain ⟨st₁, hfirst, hlength⟩ := ih (fun k hk => hspace k (by omega)) (by omega)
      obtain ⟨hbound, roots, hroot, hpages, own, h⟩ := hspace pages (by omega) _ _ hfirst
      have hlast : ∃ st₂, st₁.mapMemoryPage proc.cr3 (proc.anonAllocateEnd + pages * 0x1000) 7 =
          some st₂ ∧ st₂.allocated.length ≤ st₁.allocated.length + 4 :=
        h.mapMemoryPage_some hpages hphys hroot hbound (by decide) (by omega)
      obtain ⟨st₂, hlast, hlength'⟩ := hlast
      refine ⟨st₂, ?_, by omega⟩
      simp only at hbound
      rw [anonAllocatePages, hfirst, Option.bind_some]
      simp only [hlast, Option.map_some]
      rw [add64_eq (by omega), Nat.succ_mul, Nat.add_assoc]

theorem anonAllocatePages_some (h : TableInv sites st roots own) (hpages : PageInv st sites)
    (hphys : Physical sites) (hsites : sites.length ≤ 0x100) (hroot : proc.cr3 ∈ roots)
    (hproc : ProcInv (mappedPages own proc.cr3) proc) {pages : Nat}
    (hfree : st.allocated.length + 4 * pages ≤ managedPages sites) :
    ∃ st', anonAllocatePages st proc pages =
        some (st', { proc with anonAllocateEnd := proc.anonAllocateEnd + pages * 0x1000 }) ∧
      st'.allocated.length ≤ st.allocated.length + 4 * pages := by
  refine anonAllocatePages_progress hphys (fun k _ st₁ proc₁ hfirst => ?_) hfree
  obtain ⟨hcr3, own₁, hremaps, hproc₁⟩ :=
    anonAllocatePages_inv h hpages hphys hsites hroot hproc hfirst
  rw [← hcr3] at hremaps hproc₁ hroot
  have hbound := hproc₁.anon_le hremaps.tables hremaps.pages hsites
  exact ⟨by omega, roots, hroot, hremaps.pages, own₁, hremaps.tables⟩

/-- `execve_syscall` up to `map_elf`: the old program is gone and the file lies at 0x800000. -/
def execveScratch (fuel : Nat) (st : PageState) (proc : UserProcess) (filesz : Nat)
    (elf : ElfImage) : Option PageState :=
  (st.freeRegion fuel proc.cr3 0x400000 proc.elfEnd.toNat).bind fun st =>
    (st.freeRegion fuel proc.cr3 0x800000 proc.anonAllocateEnd).bind fun st =>
      (st.allocateRegion fuel proc.cr3 0x800000 (add64 0x800000 filesz) 3).bind fun st =>
        st.copyToUser proc.cr3 0x800000 elf filesz

theorem execveSyscall_eq (filesz : Nat) (elf : ElfImage) :
    execveSyscall fuel st proc filesz elf =
      (execveScratch fuel st proc filesz elf).bind fun st =>
        (mapElf st proc.cr3 elf).bind fun (st, elfEnd) =>
          (st.freeRegion fuel proc.cr3 0x800000 (add64 0x800000 filesz)).map fun st =>
            (st, { proc with elfEnd := elfEnd, anonAllocateEnd := 0x800000 }) := by
  simp only [execveSyscall, execveScratch, Option.bind_assoc]

theorem execveScratch_mapped {filesz : Nat} {elf : ElfImage} (h : TableInv sites st roots own)
    (hpages : PageInv st sites) (hphys : Physical sites) (hsites : sites.length ≤ 0x100)
    (hroot : proc.cr3 ∈ roots) (hanon : proc.anonAllocateEnd ≤ 0x800000000000)
    (hrun : execveScratch fuel st proc filesz elf = some st') :
    0x800000 + filesz ≤ 0x800000000000 ∧ ∃ own', Remaps sites roots st' own own' proc.cr3 ∧
      mappedPages own' proc.cr3 = (mappedPages own proc.cr3 \
        regionPages 0x400000 proc.elfEnd.toNat) \ regionPages 0x800000 proc.anonAllocateEnd ∪
          regionPages 0x800000 (0x800000 + filesz) := by
  have helf := proc.elfEnd.toNat_lt
  obtain ⟨st₁, hfree₁, hrun⟩ := Option.bind_eq_some_iff.mp hrun
  obtain ⟨st₂, hfree₂, hrun⟩ := Option.bind_eq_some_iff.mp hrun
  obtain ⟨st₃, halloc, hcopy⟩ := Option.bind_eq_some_iff.mp hrun
  obtain ⟨own₁, hremaps₁, hmapped₁⟩ :=
    h.freeRegion_remaps hpages hphys hroot (by decide) (by decide) (by omega) hfree₁
  obtain ⟨own₂, hremaps₂, hmapped₂⟩ := hremaps₁.tables.freeRegion_remaps hremaps₁.pages hphys hroot
    (by decide) (by decide) hanon hfree₂
  have hscratch := hremaps₂.tables.allocateRegion_le hremaps₂.pages hphys hsites hroot
    (by decide) (by decide) (by decide) halloc
  obtain ⟨own₃, hremaps₃, hmapped₃⟩ := hremaps₂.tables.allocateRegion_remaps hremaps₂.pages hphys
    hroot (by decide) (by decide) (by omega) (by decide) halloc
  have hcopyEnd := hremaps₃.tables.copyToUser_le hremaps₃.pages hphys hsites hroot
    (by decide) hcopy
  obtain ⟨hremaps₄, -⟩ := hremaps₃.tables.copyToUser hremaps₃.pages hphys hroot hcopyEnd hcopy
  refine ⟨hcopyEnd, own₃, hremaps₁.trans (hremaps₂.trans (hremaps₃.trans hremaps₄)), ?_⟩
  rw [hmapped₃, hmapped₂, hmapped₁, add64_eq (by omega)]

/-- A new program keeps the stack and has the pages of its segments. -/
theorem execveSyscall_inv {filesz : Nat} {elf : ElfImage} (h : TableInv sites st roots own)
    (hpages : PageInv st sites) (hphys : Physical sites) (hsites : sites.length ≤ 0x100)
    (hroot : proc.cr3 ∈ roots) (hproc : ProcInv (mappedPages own proc.cr3) proc)
    (hin : elf.Inside) (hrun : execveSyscall fuel st proc filesz elf = some (st', proc')) :
    proc'.cr3 = proc.cr3 ∧ ∃ own', Remaps sites roots st' own own' proc.cr3 ∧
      ProcInv (mappedPages own' proc.cr3) proc' := by
  rw [execveSyscall_eq] at hrun
  obtain ⟨st₄, hscratch, hrun⟩ := Option.bind_eq_some_iff.mp hrun
  obtain ⟨⟨st₅, elfEnd⟩, hload, hrun⟩ := Option.bind_eq_some_iff.mp hrun
  obtain ⟨st₆, hfree, heq⟩ := Option.map_eq_some_iff.mp hrun
  obtain ⟨rfl, rfl⟩ := Prod.mk.inj heq
  obtain ⟨hend, own₄, hremaps₄, hmapped₄⟩ :=
    execveScratch_mapped h hpages hphys hsites hroot hproc.below hscratch
  rw [add64_eq (by omega)] at hfree
  obtain ⟨helfEnd, own₅, hremaps₅, -, hmapped₅⟩ :=
    mapPrograms_remaps hremaps₄.tables hremaps₄.pages hphys hroot hin hload
  obtain ⟨own₆, hremaps₆, hmapped₆⟩ := hremaps₅.tables.freeRegion_remaps hremaps₅.pages hphys hroot
    (by decide) (by decide) hend hfree
  refine ⟨rfl, own₆, hremaps₄.trans (hremaps₅.trans hremaps₆), fun va hva => ?_,
    fun va hva => ?_, helfEnd, show 0x800000 % 0x1000 = 0 by decide, Nat.le_refl 0x800000,
    show 0x800000 ≤ 0x800000000000 by decide⟩
  · rw [hmapped₆] at hva
    obtain ⟨hva, hout₃⟩ := hva
    rcases hmapped₅ hva with hva | hsegment
    · rw [hmapped₄] at hva
      rcases hva with ⟨⟨hva, hout₁⟩, hout₂⟩ | hva
      · rcases hproc.recorded va hva with hin | hin | hin
        · exact Or.inl hin
        · exact absurd hin hout₁
        · exact absurd hin hout₂
      · exact absurd hva hout₃
    · exact Or.inr (Or.inl hsegment)
  · have hlt : va < 0x800000 := hva.2.1
    exact absurd hva.1 (Nat.not_le.mpr hlt)

/-- The child of `fork_syscall` has the ranges of its parent. -/
theorem Forks.procInv {own' : Nat → Option Role} {newCr3 : Nat}
    (hforks : Forks sites st st' own own' proc newCr3)
    (hproc : ProcInv (mappedPages own proc.cr3) proc) :
    ProcInv (mappedPages own' newCr3) { proc with cr3 := newCr3 } := by
  have helf := hproc.elf
  have hbelow := hproc.below
  refine ⟨fun va hva => ?_, fun va hva => ?_, helf, hproc.aligned, hproc.above, hbelow⟩
  · obtain ⟨⟨hlt, halign⟩, q, hq⟩ := hva
    have hbase : va / 0x1000 * 0x1000 = va := by omega
    obtain ⟨-, hin⟩ := hforks.child va hlt q hq
    rw [hbase] at hin
    simp only [UserProcess.InRanges, UserProcess.Recorded, InRegion] at hin ⊢
    omega
  · have hlt := hva.2.1
    exact ⟨⟨Nat.lt_of_lt_of_le hlt hbelow, hva.2.2⟩, hforks.mapped va (Or.inr hva)⟩

end Calls

section Exit

variable {st st' : PageState} {sites : List Site} {roots : List Nat} {own : Nat → Option Role}
  {fuel cr3 start stop : Nat} {proc : UserProcess}

/-- The frame that one turn of the loop of `free_region` hands to `free_page`. -/
def freedBy (st : PageState) (cr3 va : Nat) : Option Nat :=
  match walk st.mem cr3 va with
  | none => none
  | some pte =>
      if st.mem.load 8 pte &&& 1 = 0 then none else some (pteAddr (st.mem.load 8 pte))

/-- `free_region` with the frames handed to `free_page`, in their order. -/
def freeRegionTrace (fuel : Nat) (s : PageState × List Nat) (cr3 start stop : Nat) :
    Option (PageState × List Nat) :=
  forPages (fun va s => some (s.1.freeRegionPage cr3 va, s.2 ++ (freedBy s.1 cr3 va).toList))
    stop fuel (pageRoundDown start) s

/-- `exit_syscall` with the frames handed to `free_page`. -/
def exitSyscallTrace (fuel : Nat) (st : PageState) (proc : UserProcess) :
    Option (PageState × List Nat) :=
  (freeRegionTrace fuel (st, []) proc.cr3 0x200000 0x400000).bind fun s =>
    (freeRegionTrace fuel s proc.cr3 0x400000 proc.elfEnd.toNat).bind fun s =>
      freeRegionTrace fuel s proc.cr3 0x800000 proc.anonAllocateEnd

/-- The trace does not change what is done. -/
theorem freeRegionTrace_fst (s : PageState × List Nat) :
    (freeRegionTrace fuel s cr3 start stop).map Prod.fst = s.1.freeRegion fuel cr3 start stop := by
  rw [freeRegionTrace, PageState.freeRegion]
  generalize pageRoundDown start = va
  induction fuel generalizing s va with
  | zero => rfl
  | succ fuel ih =>
      rw [forPages, forPages]
      by_cases hlt : va < stop
      · rw [if_pos hlt, if_pos hlt]
        exact ih _ _
      · rw [if_neg hlt, if_neg hlt]
        rfl

theorem exitSyscallTrace_fst :
    (exitSyscallTrace fuel st proc).map Prod.fst = exitSyscall fuel st proc := by
  simp only [exitSyscallTrace, exitSyscall, ← freeRegionTrace_fst (st, []), Option.map_bind,
    Option.bind_map]
  refine Option.bind_congr fun s _ => ?_
  simp only [Function.comp_apply, ← freeRegionTrace_fst s, Option.map_bind, Option.bind_map]
  exact Option.bind_congr fun s' _ => freeRegionTrace_fst s'

theorem freedBy_eq_some {va p : Nat} : freedBy st cr3 va = some p ↔ PageAt st.mem cr3 va p := by
  rw [freedBy, PageAt]
  cases hwalk : walk st.mem cr3 va with
  | none => simp
  | some pte =>
      simp only [Option.some.injEq, exists_eq_left', BitField.and_one]
      rcases Nat.mod_two_eq_zero_or_one (st.mem.load 8 pte) with hzero | hone
      · simp [hzero]
      · simp [hone]

/-- The pages of the region are handed to `free_page`, each of them once. -/
theorem TableInv.freeRegionTrace {log : List Nat} (h : TableInv sites st roots own)
    (hpages : PageInv st sites) (hphys : Physical sites) (hroot : cr3 ∈ roots)
    (halign : start % 0x1000 = 0) (hstart : start ≤ 0x800000000000)
    (hstop : stop ≤ 0x800000000000) {log' : List Nat}
    (hrun : freeRegionTrace fuel (st, log) cr3 start stop = some (st', log')) :
    ∃ own' freed, log' = log ++ freed ∧ PageInv st' sites ∧ TableInv sites st' roots own' ∧
      Frees sites st st' own own' cr3 start stop ∧ freed.Nodup ∧
      ∀ p, p ∈ freed ↔ MappedIn own cr3 start stop p := by
  have hround : pageRoundDown start = start := by
    rw [pageRoundDown_eq (by omega)]
    omega
  rw [BayosKernel.freeRegionTrace, hround] at hrun
  let I : Nat → PageState × List Nat → Prop := fun va s =>
    (va % 0x1000 = 0 ∧ start ≤ va ∧ (va = start ∨ va < stop + 0x1000)) ∧
      ∃ own₁ freed, s.2 = log ++ freed ∧ PageInv s.1 sites ∧ TableInv sites s.1 roots own₁ ∧
        Frees sites st s.1 own own₁ cr3 start va ∧ freed.Nodup ∧
        ∀ p, p ∈ freed ↔ MappedIn own cr3 start va p
  have hbody : ∀ va s s', I va s → va < stop →
      some (s.1.freeRegionPage cr3 va, s.2 ++ (freedBy s.1 cr3 va).toList) = some s' →
      I (va + 0x1000) s' := by
    rintro va s s' ⟨hva, own₁, freed, hlog, hpages₁, h₁, hfrees, hnodup, hmem⟩ hlt hstep
    cases hstep
    have huser : va < 0x800000000000 := by omega
    obtain ⟨own₂, hpages₂, h₂, hfrees₂⟩ := h.frees_step hpages hphys hroot
      ⟨hva.2.1, hva.1, huser⟩ hpages₁ h₁ hfrees
    have hnew : ∀ p, p ∈ (freedBy s.1 cr3 va).toList ↔
        Maps own cr3 va p ∧ ¬MappedIn own cr3 start va p := by
      intro p
      rw [Option.mem_toList, freedBy_eq_some,
        h₁.pageAt_iff hpages₁ hphys hroot huser, hfrees.maps_iff]
    refine ⟨by omega, own₂, freed ++ (freedBy s.1 cr3 va).toList, ?_, hpages₂, h₂, hfrees₂, ?_,
      fun p => ?_⟩
    · simp only [hlog, List.append_assoc]
    · refine hnodup.append ?_ fun p hp hp' => ((hnew p).mp hp').2 ((hmem p).mp hp)
      cases freedBy s.1 cr3 va with
      | none => exact List.nodup_nil
      | some p => exact List.nodup_singleton p
    · rw [List.mem_append, hmem, hnew, mappedIn_succ own cr3 hva.2.1 hva.1]
      tauto
  have hstart : I start (st, log) := by
    refine ⟨⟨halign, Nat.le_refl _, Or.inl rfl⟩, own, [], by simp, hpages, h,
      Frees.refl st own cr3 start, List.nodup_nil, fun p => ?_⟩
    simp only [List.not_mem_nil, false_iff]
    rintro ⟨va, ⟨hle, hlt, -⟩, -⟩
    omega
  obtain ⟨va, hle, hva, own', freed, hlog, hpages', h', hfrees, hnodup, hmem⟩ :=
    forPages_invariant hstop hbody hstart hrun
  have hregion : InRegion start va = InRegion start stop := by
    funext va'
    simp only [InRegion, eq_iff_iff]
    omega
  refine ⟨own', freed, hlog, hpages', h', hfrees.to_stop hle (by omega), hnodup, fun p => ?_⟩
  rw [hmem, MappedIn, MappedIn, hregion]

/-- `exit_syscall` gives every page of the process back, and each of them once. -/
theorem TableInv.exitSyscallTrace {freed : List Nat} (h : TableInv sites st roots own)
    (hpages : PageInv st sites) (hphys : Physical sites) (hroot : proc.cr3 ∈ roots)
    (hproc : ProcInv (mappedPages own proc.cr3) proc)
    (hrun : exitSyscallTrace fuel st proc = some (st', freed)) :
    ∃ own', Remaps sites roots st' own own' proc.cr3 ∧ mappedPages own' proc.cr3 = ∅ ∧
      freed.Nodup ∧ (∀ p, p ∈ freed ↔ ∃ va < 0x800000000000, Maps own proc.cr3 va p) ∧
      ∀ p ∈ freed, p ∉ st'.allocated := by
  have helf := hproc.elf
  have hbelow := hproc.below
  obtain ⟨⟨st₁, log₁⟩, hfree₁, hrun⟩ := Option.bind_eq_some_iff.mp hrun
  obtain ⟨⟨st₂, log₂⟩, hfree₂, hfree₃⟩ := Option.bind_eq_some_iff.mp hrun
  obtain ⟨own₁, freed₁, rfl, hpages₁, h₁, hfrees₁, hnodup₁, hmem₁⟩ :=
    h.freeRegionTrace hpages hphys hroot (by decide) (by decide) (by decide) hfree₁
  obtain ⟨own₂, freed₂, rfl, hpages₂, h₂, hfrees₂, hnodup₂, hmem₂⟩ :=
    h₁.freeRegionTrace hpages₁ hphys hroot (by decide) (by decide) (by omega) hfree₂
  obtain ⟨own₃, freed₃, rfl, hpages₃, h₃, hfrees₃, hnodup₃, hmem₃⟩ :=
    h₂.freeRegionTrace hpages₂ hphys hroot (by decide) (by decide) (by omega) hfree₃
  obtain ⟨hremaps₁, hmapped₁⟩ := hfrees₁.remaps hpages₁ h₁ (by decide)
  obtain ⟨hremaps₂, hmapped₂⟩ := hfrees₂.remaps hpages₂ h₂ (by omega)
  obtain ⟨hremaps₃, hmapped₃⟩ := hfrees₃.remaps hpages₃ h₃ (by omega)
  have hempty : mappedPages own₃ proc.cr3 = ∅ := by
    rw [hmapped₃, hmapped₂, hmapped₁, Set.eq_empty_iff_forall_notMem]
    rintro va ⟨⟨⟨hva, hout₁⟩, hout₂⟩, hout₃⟩
    rcases hproc.recorded va hva with hin | hin | hin
    · exact hout₁ hin
    · exact hout₂ hin
    · exact hout₃ hin
  -- what a later loop frees was mapped before, and not freed by an earlier one
  have hback₂ : ∀ p, p ∈ freed₂ → p ∉ log₁ ∧ ∃ va < 0x800000000000, Maps own proc.cr3 va p := by
    intro p hp
    obtain ⟨va, hin, hmaps⟩ := (hmem₂ p).mp hp
    obtain ⟨hmaps, hout⟩ := hfrees₁.maps_iff.mp hmaps
    exact ⟨fun hp' => hout ((hmem₁ p).mp hp'), va, Nat.lt_of_lt_of_le hin.2.1 (by omega), hmaps⟩
  have hback₃ : ∀ p, p ∈ freed₃ → p ∉ log₁ ∧ p ∉ freed₂ ∧
      ∃ va < 0x800000000000, Maps own proc.cr3 va p := by
    intro p hp
    obtain ⟨va, hin, hmaps⟩ := (hmem₃ p).mp hp
    obtain ⟨hmaps, hout₂⟩ := hfrees₂.maps_iff.mp hmaps
    obtain ⟨hmaps, hout₁⟩ := hfrees₁.maps_iff.mp hmaps
    exact ⟨fun hp' => hout₁ ((hmem₁ p).mp hp'), fun hp' => hout₂ ((hmem₂ p).mp hp'), va,
      Nat.lt_of_lt_of_le hin.2.1 (by omega), hmaps⟩
  refine ⟨own₃, hremaps₁.trans (hremaps₂.trans hremaps₃), hempty, ?_, fun p => ⟨fun hp => ?_, ?_⟩,
    fun p hp => ?_⟩
  · refine (hnodup₁.append hnodup₂ fun p hp hp' => (hback₂ p hp').1 hp).append hnodup₃
      fun p hp hp' => ?_
    obtain ⟨hout₁, hout₂, -⟩ := hback₃ p hp'
    rcases List.mem_append.mp hp with hp | hp
    · exact hout₁ hp
    · exact hout₂ hp
  · rcases List.mem_append.mp hp with hp | hp
    · rcases List.mem_append.mp hp with hp | hp
      · obtain ⟨va, hin, hmaps⟩ := (hmem₁ p).mp hp
        exact ⟨va, Nat.lt_of_lt_of_le hin.2.1 (by decide), hmaps⟩
      · exact (hback₂ p hp).2
    · exact (hback₃ p hp).2.2
  · rintro ⟨va, hva, hmaps⟩
    by_contra hout
    simp only [List.mem_append, hmem₁, hmem₂, hmem₃, not_or] at hout
    have hmaps₁ := hfrees₁.maps_iff.mpr ⟨hmaps, hout.1.1⟩
    have hmaps₂ := hfrees₂.maps_iff.mpr ⟨hmaps₁, hout.1.2⟩
    have hmaps₃ := hfrees₃.maps_iff.mpr ⟨hmaps₂, hout.2⟩
    have hleft := mem_mappedPages hmaps₃ hva
    rw [hempty] at hleft
    exact hleft
  · intro hleft
    obtain ⟨hleft, hout₃⟩ := (hfrees₃.allocated p).mp hleft
    obtain ⟨hleft, hout₂⟩ := (hfrees₂.allocated p).mp hleft
    obtain ⟨-, hout₁⟩ := (hfrees₁.allocated p).mp hleft
    simp only [List.mem_append, hmem₁, hmem₂, hmem₃] at hp
    rcases hp with (hp | hp) | hp
    · exact hout₁ hp
    · exact hout₂ hp
    · exact hout₃ hp

end Exit

/-- `exit_syscall` comes to its end. -/
theorem exitSyscall_some {fuel : Nat} (st : PageState) {proc : UserProcess}
    (helf : proc.elfEnd.toNat ≤ 0x800000)
    (hanon : proc.anonAllocateEnd ≤ 0x800000 + 256000001 * 0x1000) (hfuel : 0x10000000 ≤ fuel) :
    ∃ st', exitSyscall fuel st proc = some st' := by
  obtain ⟨n, rfl⟩ : ∃ n, fuel = n + 1 := ⟨fuel - 1, by omega⟩
  have hround : pageRoundDown 0x200000 = 0x200000 ∧ pageRoundDown 0x400000 = 0x400000 ∧
      pageRoundDown 0x800000 = 0x800000 := by decide
  obtain ⟨h₁, h₂, h₃⟩ := hround
  have hfree : ∀ (st : PageState) {start stop : Nat}, pageRoundDown start = start →
      stop ≤ 0x800000 + 256000001 * 0x1000 →
      ∃ st', st.freeRegion (n + 1) proc.cr3 start stop = some st' := fun st _ _ hstart hstop =>
    PageState.freeRegion_some (by omega) (by omega)
  obtain ⟨st₁, hfree₁⟩ := hfree st h₁ (show 0x400000 ≤ _ by decide)
  obtain ⟨st₂, hfree₂⟩ := hfree st₁ h₂ (Nat.le_trans helf (by decide))
  obtain ⟨st₃, hfree₃⟩ := hfree st₂ h₃ hanon
  exact ⟨st₃, by rw [exitSyscall, hfree₁, Option.bind_some, hfree₂, Option.bind_some, hfree₃]⟩

/-- What holds between two calls. -/
structure SyscallState.Inv (sites : List Site) (roots : List Nat) (own : Nat → Option Role)
    (s : SyscallState) : Prop where
  pages : PageInv s.pages sites
  tables : TableInv sites s.pages roots own
  procs : ∀ proc ∈ s.procs, proc.cr3 ∈ roots ∧ ProcInv (mappedPages own proc.cr3) proc
  distinct : (s.procs.map UserProcess.cr3).Nodup

/-- A `fork_syscall` finds a page for the PML4, the segments of every ELF file lie
inside, and programs store to the user half. -/
def SyscallState.Allows (s : SyscallState) : SyscallAction → Prop
  | .fork _ => ∀ m, allocatePage s.pages.mem s.pages.areas ≠ some (m, NULL)
  | .execve _ _ elf => elf.Inside
  | .store _ va _ => va < 0x800000000000
  | .anonAllocate _ _ => True
  | .exit _ => True

namespace SyscallState.Inv

variable {sites : List Site} {roots : List Nat} {own own' : Nat → Option Role}
  {s s' : SyscallState} {st' : PageState} {i j : Nat} {proc proc' other : UserProcess}

/-- Two processes have two address spaces. -/
theorem other_cr3 (h : s.Inv sites roots own) (hi : s.procs[i]? = some proc)
    (hj : s.procs[j]? = some other) (hne : j ≠ i) : other.cr3 ≠ proc.cr3 := by
  intro hcr3
  obtain ⟨hlt, -⟩ := List.getElem?_eq_some_iff.mp hj
  refine hne ((List.getElem?_inj (by simpa using hlt) h.distinct).mp ?_)
  simp only [List.getElem?_map, hi, hj, Option.map_some, hcr3]

theorem kept (h : s.Inv sites roots own) (hremaps : Remaps sites roots st' own own' proc.cr3)
    (hi : s.procs[i]? = some proc) (hj : s.procs[j]? = some other) (hne : j ≠ i) :
    other.cr3 ∈ roots ∧ ProcInv (mappedPages own' other.cr3) other := by
  obtain ⟨hroot, hproc⟩ := h.procs other (List.mem_of_getElem? hj)
  rw [hremaps.mappedPages_eq (h.other_cr3 hi hj hne)]
  exact ⟨hroot, hproc⟩

/-- A call of process `i` that comes back to it. -/
theorem set (h : s.Inv sites roots own) (hi : s.procs[i]? = some proc)
    (hremaps : Remaps sites roots st' own own' proc.cr3) (hcr3 : proc'.cr3 = proc.cr3)
    (hproc : ProcInv (mappedPages own' proc.cr3) proc') :
    Inv sites roots own' ⟨st', s.procs.set i proc'⟩ := by
  refine ⟨hremaps.pages, hremaps.tables, fun other hother => ?_, ?_⟩
  · obtain ⟨j, hj⟩ := List.mem_iff_getElem?.mp hother
    simp only [List.getElem?_set] at hj
    by_cases hij : i = j
    · rw [if_pos hij] at hj
      split at hj
      · cases hj
        rw [hcr3]
        exact ⟨(h.procs proc (List.mem_of_getElem? hi)).1, hproc⟩
      · cases hj
    · rw [if_neg hij] at hj
      exact h.kept hremaps hi hj (Ne.symm hij)
  · have hsame : (s.procs.set i proc').map UserProcess.cr3 = s.procs.map UserProcess.cr3 := by
      obtain ⟨hlt, rfl⟩ := List.getElem?_eq_some_iff.mp hi
      rw [List.map_set, hcr3, ← List.getElem_map UserProcess.cr3, List.set_getElem_self]
      rwa [List.length_map]
    rw [hsame]
    exact h.distinct

theorem erase (h : s.Inv sites roots own) (hi : s.procs[i]? = some proc)
    (hremaps : Remaps sites roots st' own own' proc.cr3) :
    Inv sites roots own' ⟨st', s.procs.eraseIdx i⟩ := by
  refine ⟨hremaps.pages, hremaps.tables, fun other hother => ?_, ?_⟩
  · obtain ⟨j, hne, hj⟩ := List.mem_eraseIdx_iff_getElem?.mp hother
    exact h.kept hremaps hi hj hne
  · exact ((List.eraseIdx_sublist s.procs i).map UserProcess.cr3).nodup h.distinct

theorem forked {newCr3 : Nat} (h : s.Inv sites roots own) (hmem : proc ∈ s.procs)
    (hpages' : PageInv st' sites) (htables' : TableInv sites st' (newCr3 :: roots) own')
    (hforks : Forks sites s.pages st' own own' proc newCr3) :
    Inv sites (newCr3 :: roots) own' ⟨st', s.procs ++ [{ proc with cr3 := newCr3 }]⟩ := by
  have hnew : ∀ other ∈ s.procs, other.cr3 ≠ newCr3 := by
    intro other hother heq
    obtain ⟨r, hr, -⟩ := h.tables.roots _ (h.procs other hother).1
    rw [heq, hforks.unowned] at hr
    cases hr
  refine ⟨hpages', htables', fun other hother => ?_, ?_⟩
  · rcases List.mem_append.mp hother with hother | hother
    · obtain ⟨hroot, hproc⟩ := h.procs other hother
      have hsame : mappedPages own' other.cr3 = mappedPages own other.cr3 := by
        ext va
        exact and_congr_right fun hva =>
          exists_congr (hforks.others _ (hnew other hother) va hva.1)
      rw [hsame]
      exact ⟨List.mem_cons_of_mem _ hroot, hproc⟩
    · rw [List.mem_singleton.mp hother]
      exact ⟨List.mem_cons_self, hforks.procInv (h.procs proc hmem).2⟩
  · rw [List.map_append, List.map_singleton]
    refine h.distinct.append (List.nodup_singleton _) fun cr3 hcr3 hcr3' => ?_
    obtain ⟨other, hother, rfl⟩ := List.mem_map.mp hcr3
    exact hnew other hother (List.mem_singleton.mp hcr3')

theorem step (fuel : Nat) {a : SyscallAction} (hphys : Physical sites)
    (hsites : sites.length ≤ 0x100) (h : s.Inv sites roots own) (hallows : s.Allows a)
    (hstep : s.step fuel a = some s') : ∃ roots' own', s'.Inv sites roots' own' := by
  cases a with
  | fork i =>
      obtain ⟨proc, hi, hstep⟩ := Option.bind_eq_some_iff.mp hstep
      obtain ⟨⟨st', child⟩, hfork, heq⟩ := Option.map_eq_some_iff.mp hstep
      cases heq
      have hmem := List.mem_of_getElem? hi
      have hne : child.cr3 ≠ NULL := forkSyscall_ne_null hallows hfork
      obtain ⟨hchild, own', hpages', htables', hforks⟩ := h.tables.forkSyscall h.pages hphys hsites
        (h.procs proc hmem).1 hfork hne
      refine ⟨child.cr3 :: roots, own', ?_⟩
      rw [hchild]
      exact h.forked hmem hpages' htables' hforks
  | execve i filesz elf =>
      obtain ⟨proc, hi, hstep⟩ := Option.bind_eq_some_iff.mp hstep
      obtain ⟨⟨st', proc'⟩, hexec, heq⟩ := Option.map_eq_some_iff.mp hstep
      cases heq
      obtain ⟨hroot, hproc⟩ := h.procs proc (List.mem_of_getElem? hi)
      obtain ⟨hcr3, own', hremaps, hproc'⟩ :=
        execveSyscall_inv h.tables h.pages hphys hsites hroot hproc hallows hexec
      exact ⟨roots, own', h.set hi hremaps hcr3 hproc'⟩
  | anonAllocate i size =>
      obtain ⟨proc, hi, hstep⟩ := Option.bind_eq_some_iff.mp hstep
      obtain ⟨⟨st', proc'⟩, hanon, heq⟩ := Option.map_eq_some_iff.mp hstep
      cases heq
      obtain ⟨hroot, hproc⟩ := h.procs proc (List.mem_of_getElem? hi)
      obtain ⟨hcr3, own', hremaps, hproc'⟩ :=
        anonAllocatePages_inv h.tables h.pages hphys hsites hroot hproc hanon
      exact ⟨roots, own', h.set hi hremaps hcr3 hproc'⟩
  | exit i =>
      obtain ⟨proc, hi, hstep⟩ := Option.bind_eq_some_iff.mp hstep
      obtain ⟨st', hexit, heq⟩ := Option.map_eq_some_iff.mp hstep
      cases heq
      obtain ⟨hroot, hproc⟩ := h.procs proc (List.mem_of_getElem? hi)
      rw [← exitSyscallTrace_fst] at hexit
      obtain ⟨⟨st', freed⟩, htrace, rfl⟩ := Option.map_eq_some_iff.mp hexit
      obtain ⟨own', hremaps, -⟩ := h.tables.exitSyscallTrace h.pages hphys hroot hproc htrace
      exact ⟨roots, own', h.erase hi hremaps⟩
  | store i va v =>
      obtain ⟨proc, hi, hstep⟩ := Option.bind_eq_some_iff.mp hstep
      obtain ⟨st', hwrite, heq⟩ := Option.map_eq_some_iff.mp hstep
      cases heq
      obtain ⟨hroot, hproc⟩ := h.procs proc (List.mem_of_getElem? hi)
      obtain ⟨-, -, -, hpages', htables'⟩ := h.tables.write h.pages hphys hroot hallows hwrite
      exact ⟨roots, own, hpages', htables', h.procs, h.distinct⟩

end SyscallState.Inv

/-- All pages of the process are recorded, and `exit_syscall` gives each of them
back once and leaves none. -/
structure Accounted (st : PageState) (proc : UserProcess) : Prop where
  recorded : ∀ va < 0x800000000000, ∀ p, PageAt st.mem proc.cr3 va p →
    proc.Recorded (va / 0x1000 * 0x1000)
  exits : ∀ fuel, 0x10000000 ≤ fuel → ∃ st' freed,
    exitSyscallTrace fuel st proc = some (st', freed) ∧ exitSyscall fuel st proc = some st' ∧
      freed.Nodup ∧ (∀ p, p ∈ freed ↔ ∃ va < 0x800000000000, PageAt st.mem proc.cr3 va p) ∧
      (∀ p ∈ freed, st.Marked p ∧ ¬st'.Marked p) ∧
      ∀ va < 0x800000000000, ∀ p, ¬PageAt st'.mem proc.cr3 va p

theorem SyscallState.Inv.accounted {sites : List Site} {roots : List Nat}
    {own : Nat → Option Role} {s : SyscallState} {proc : UserProcess} (hphys : Physical sites)
    (hsites : sites.length ≤ 0x100) (h : s.Inv sites roots own) (hmem : proc ∈ s.procs) :
    Accounted s.pages proc := by
  obtain ⟨hroot, hproc⟩ := h.procs proc hmem
  have hat : ∀ va < 0x800000000000, ∀ p,
      PageAt s.pages.mem proc.cr3 va p ↔ Maps own proc.cr3 va p :=
    fun va hva p => h.tables.pageAt_iff h.pages hphys hroot hva
  refine ⟨fun va hva p hp => ?_, fun fuel hfuel => ?_⟩
  · exact hproc.recorded _ (mem_mappedPages ((hat va hva p).mp hp) hva)
  · obtain ⟨st', hexit⟩ := exitSyscall_some s.pages hproc.elf
      (hproc.anon_le h.tables h.pages hsites) hfuel
    have hmap := hexit
    rw [← exitSyscallTrace_fst] at hmap
    obtain ⟨⟨st', freed⟩, htrace, rfl⟩ := Option.map_eq_some_iff.mp hmap
    obtain ⟨own', hremaps, hempty, hnodup, hfreed, hgone⟩ :=
      h.tables.exitSyscallTrace h.pages hphys hroot hproc htrace
    refine ⟨st', freed, htrace, hexit, hnodup, fun p => ?_, fun p hp => ⟨?_, fun hmarked => ?_⟩,
      fun va hva p hp => ?_⟩
    · rw [hfreed]
      exact exists_congr fun va => and_congr_right fun hva => (hat va hva p).symm
    · obtain ⟨va, hva, hmaps⟩ := (hfreed p).mp hp
      obtain ⟨pt, i, hrole⟩ := hmaps.owned
      exact h.pages.marked_of_mem (h.tables.allocated hrole (by simp))
    · exact hgone p hp (hremaps.pages.mem_of_marked hmarked)
    · have hmaps := (hremaps.tables.pageAt_iff hremaps.pages hphys hroot hva).mp hp
      have hleft := mem_mappedPages hmaps hva
      rw [hempty] at hleft
      exact hleft

section Boot

variable {st st' : PageState} {sites : List Site} {fuel cr3 : Nat} {elf : ElfImage}
  {init : UserProcess}

/-- The first process: a stack and the segments of its ELF file. -/
theorem enterRing3Init_inv (hinit : SpaceInit sites [cr3] st) (hin : elf.Inside)
    (hstart : enterRing3Init fuel st ⟨cr3, 0, 0x800000⟩ elf = some (st', init)) :
    ∃ own, SyscallState.Inv sites [cr3] own ⟨st', [init]⟩ := by
  obtain ⟨own, h⟩ := hinit.inv.tables
  have hroot : cr3 ∈ [cr3] := List.mem_singleton.mpr rfl
  obtain ⟨st₁, hstack, hstart⟩ := Option.bind_eq_some_iff.mp hstart
  obtain ⟨⟨st₂, elfEnd⟩, hload, heq⟩ := Option.map_eq_some_iff.mp hstart
  obtain ⟨rfl, rfl⟩ := Prod.mk.inj heq
  obtain ⟨own₁, hremaps₁, hmapped₁⟩ := h.allocateRegion_remaps hinit.pages hinit.physical hroot
    (by decide) (by decide) (by decide) (by decide) hstack
  obtain ⟨helf, own₂, hremaps₂, -, hmapped₂⟩ :=
    mapPrograms_remaps hremaps₁.tables hremaps₁.pages hinit.physical hroot hin hload
  refine ⟨own₂, hremaps₂.pages, hremaps₂.tables, fun proc hproc => ?_, List.nodup_singleton _⟩
  rw [List.mem_singleton.mp hproc]
  refine ⟨hroot, fun va hva => ?_, fun va hva => ?_, helf, show 0x800000 % 0x1000 = 0 by decide,
    Nat.le_refl 0x800000, show 0x800000 ≤ 0x800000000000 by decide⟩
  · rcases hmapped₂ hva with hva | hsegment
    · rw [hmapped₁] at hva
      rcases hva with ⟨hva, c, hmaps⟩ | hstack
      · exact absurd hmaps (hinit.not_maps h hroot hva.1)
      · exact Or.inl hstack
    · exact Or.inr (Or.inl hsegment)
  · have hlt : va < 0x800000 := hva.2.1
    exact absurd hva.1 (Nat.not_le.mpr hlt)

/-- After every run from the first process, all pages of every live process are
recorded, and its `exit_syscall` gives each of them back once. -/
theorem syscallMachine_accounted {st₁ : PageState} {run : List SyscallAction} {s : SyscallState}
    (hinit : SpaceInit sites [cr3] st) (hsites : sites.length ≤ 0x100) (hin : elf.Inside)
    (hstart : enterRing3Init fuel st ⟨cr3, 0, 0x800000⟩ elf = some (st₁, init))
    (hallows : (syscallMachine fuel).Meets SyscallState.Allows ⟨st₁, [init]⟩ run)
    (hrun : (syscallMachine fuel).exec ⟨st₁, [init]⟩ run = some s) :
    ∀ proc ∈ s.procs, Accounted s.pages proc := by
  let I : SyscallState → Prop := fun s => ∃ roots own, s.Inv sites roots own
  have hstep : ∀ s a s', I s → s.Allows a → (syscallMachine fuel).step s a = some s' → I s' := by
    rintro s a s' ⟨roots, own, h⟩ ha hstep
    exact h.step fuel hinit.physical hsites ha hstep
  obtain ⟨own₁, h₁⟩ := enterRing3Init_inv hinit hin hstart
  obtain ⟨roots, own, h⟩ : I s :=
    (syscallMachine fuel).exec_invariant hstep ⟨[cr3], own₁, h₁⟩ hallows hrun
  exact fun proc hmem => h.accounted hinit.physical hsites hmem

/-- One segment of 0x1800 bytes at 0x400000, the first four of them from the file. -/
def bootElf : ElfImage := fun k =>
  ([(32, 64), (56, 1), (64, 1), (82, 0x40), (96, 4), (105, 0x18)].lookup k).getD 0

theorem bootElf_program : bootElf.phnum = 1 ∧ bootElf.program 0 = ⟨1, 0, 0x400000, 4, 0x1800⟩ := by
  decide

theorem bootElf_inside : bootElf.Inside := by
  intro i hi
  rw [bootElf_program.1, Nat.lt_one_iff] at hi
  rw [hi, bootElf_program.2]
  decide

/-- With frames for its stack and its only segment the first process starts. -/
theorem enterRing3Init_single {elf : ElfImage} {ph : ElfProgram} (hinit : SpaceInit sites [cr3] st)
    (hphnum : elf.phnum = 1) (hprogram : elf.program 0 = ph) (hload : ph.type = 1)
    (halign : ph.vaddr % 0x1000 = 0) (hmemsz : ph.memsz ≤ 0x80000000)
    (hend : ph.vaddr + ph.memsz ≤ 0x7ffffffff000) (hfilesz : ph.filesz ≤ ph.memsz)
    (hpos : 0 < ph.memsz)
    (hfree : st.allocated.length + (2048 + 4 * ((ph.memsz + 0xfff) / 0x1000)) ≤
      managedPages sites) (hfuel : 513 ≤ fuel) :
    ∃ st', enterRing3Init fuel st ⟨cr3, 0, 0x800000⟩ elf =
        some (st', ⟨cr3, UInt32.ofNat (ph.vaddr + ph.memsz), 0x800000⟩) ∧
      st'.allocated.length ≤ st.allocated.length + (2048 + 4 * ((ph.memsz + 0xfff) / 0x1000)) := by
  obtain ⟨own, h⟩ := hinit.inv.tables
  have hphys := hinit.physical
  have hroot : cr3 ∈ [cr3] := List.mem_singleton.mpr rfl
  obtain ⟨n, rfl⟩ : ∃ n, fuel = n + 1 := ⟨fuel - 1, by omega⟩
  have hstack : ∃ st₁, st.allocateRegion (n + 1) cr3 0x200000 0x400000 7 = some st₁ ∧
      st₁.allocated.length ≤ st.allocated.length + 4 * 512 :=
    h.allocateRegion_some hinit.pages hphys hroot (by decide) (by decide) (by decide) (by omega)
      (by omega)
  obtain ⟨st₁, hstack, hlength₁⟩ := hstack
  obtain ⟨own₁, hpages₁, h₁, -⟩ :=
    h.allocateRegion hinit.pages hphys hroot (by decide) (by decide) hstack
  obtain ⟨st₂, hsegment, hlength₂⟩ := loadSegment_some elf h₁ hpages₁ hphys hroot hmemsz hend
    hfilesz (fun k hk => Or.inr (mem_segmentPages halign hk)) (by omega)
  refine ⟨st₂, ?_, by omega⟩
  rw [enterRing3Init, hstack, Option.bind_some,
    mapElf_single hphnum hprogram hload (by omega) (by omega), hsegment]
  rfl

/-- With 2056 pages left the first process starts. -/
theorem enterRing3Init_some (hinit : SpaceInit sites [cr3] st)
    (hfree : st.allocated.length + 2056 ≤ managedPages sites) (hfuel : 513 ≤ fuel) :
    ∃ st', enterRing3Init fuel st ⟨cr3, 0, 0x800000⟩ bootElf =
        some (st', ⟨cr3, 0x401800, 0x800000⟩) ∧
      st'.allocated.length ≤ st.allocated.length + 2056 :=
  enterRing3Init_single hinit bootElf_program.1 bootElf_program.2 rfl (by decide) (by decide)
    (by decide) (by decide) (by decide) hfree hfuel

end Boot

/-- The first process behind the boot. -/
theorem bootProcess : ∃ sites st st₁, SpaceInit sites [0x1000] st ∧ sites.length ≤ 0x100 ∧
    enterRing3Init 0x10000001 st ⟨0x1000, 0, 0x800000⟩ bootElf =
      some (st₁, ⟨0x1000, 0x401800, 0x800000⟩) ∧
      st₁.allocated.length + 0x3000 ≤ managedPages sites := by
  obtain ⟨st, sites, hinit, hsites, hcount, hallocated⟩ := bootSpace
  have hboot : st.allocated.length + 2056 ≤ managedPages sites := by
    rw [hallocated, hcount]
    decide
  obtain ⟨st₁, hstart, hlength⟩ := enterRing3Init_some hinit hboot (show 513 ≤ 0x10000001 by decide)
  rw [hallocated, List.length_nil] at hlength
  exact ⟨sites, st, st₁, hinit, hsites, hstart, by omega⟩

def allocateAndFork : List SyscallAction := [.anonAllocate 0 0x1800, .fork 0]

/-- The first process with its two pages, and its child. -/
theorem bootProcess_forks : ∃ sites st st₁ st₃ child,
    SpaceInit sites [0x1000] st ∧ sites.length ≤ 0x100 ∧
      enterRing3Init 0x10000001 st ⟨0x1000, 0, 0x800000⟩ bootElf =
        some (st₁, ⟨0x1000, 0x401800, 0x800000⟩) ∧
      (syscallMachine 0x10000001).Meets SyscallState.Allows
        ⟨st₁, [⟨0x1000, 0x401800, 0x800000⟩]⟩ allocateAndFork ∧
      (syscallMachine 0x10000001).exec ⟨st₁, [⟨0x1000, 0x401800, 0x800000⟩]⟩ allocateAndFork =
        some ⟨st₃, [⟨0x1000, 0x401800, 0x802000⟩, child]⟩ ∧
      child.anonAllocateEnd = 0x802000 ∧ child.cr3 ≠ 0x1000 := by
  obtain ⟨sites, st, st₁, hinit, hsites, hstart, hlength₁⟩ := bootProcess
  have hphys := hinit.physical
  obtain ⟨own₁, h₁⟩ := enterRing3Init_inv hinit bootElf_inside hstart
  obtain ⟨hroot₁, hproc₁⟩ := h₁.procs _ List.mem_cons_self
  have hfree₁ : st₁.allocated.length + 4 * 2 ≤ managedPages sites := by omega
  obtain ⟨st₂, hanon, hlength₂⟩ :=
    anonAllocatePages_some h₁.tables h₁.pages hphys hsites hroot₁ hproc₁ hfree₁
  let parent : UserProcess := ⟨0x1000, 0x401800, 0x802000⟩
  have hanonStep : (syscallMachine 0x10000001).step ⟨st₁, [⟨0x1000, 0x401800, 0x800000⟩]⟩
      (.anonAllocate 0 0x1800) = some ⟨st₂, [parent]⟩ := by
    have hcall : anonAllocateSyscall st₁ ⟨0x1000, 0x401800, 0x800000⟩ 0x1800 =
        some (st₂, parent) := hanon
    simp only [syscallMachine, SyscallState.step, List.getElem?_cons_zero, Option.bind_some, hcall,
      Option.map_some, List.set_cons_zero]
  have hanonAllowed : SyscallState.Allows ⟨st₁, [⟨0x1000, 0x401800, 0x800000⟩]⟩
      (.anonAllocate 0 0x1800) := trivial
  obtain ⟨roots₂, own₂, h₂⟩ := h₁.step 0x10000001 hphys hsites hanonAllowed hanonStep
  obtain ⟨hroot₂, -⟩ := h₂.procs parent List.mem_cons_self
  simp only at hlength₂
  have hfree₂ : st₂.allocated.length + 1 + 4 * (514 + 2) ≤ managedPages sites := by omega
  obtain ⟨st₃, child, hfork, hne⟩ := h₂.tables.forkSyscall_some h₂.pages hphys hroot₂
    (show _ ≤ 0x200000 + 514 * 0x1000 by decide) (show _ ≤ 0x800000 + 2 * 0x1000 by decide)
    (by decide) (by decide) (Nat.le_refl 0x10000000) (by decide) hfree₂
  have hforkStep : (syscallMachine 0x10000001).step ⟨st₂, [parent]⟩ (.fork 0) =
      some ⟨st₃, [parent, child]⟩ := by
    simp only [syscallMachine, SyscallState.step, List.getElem?_cons_zero, Option.bind_some, hfork,
      Option.map_some, List.cons_append, List.nil_append]
  have hspare : st₂.allocated.length < managedPages sites := by omega
  obtain ⟨m, page, hpage, hpage_ne⟩ := h₂.pages.allocatePage_some hspare
  have hforkAllowed : SyscallState.Allows ⟨st₂, [parent]⟩ (.fork 0) := by
    intro m' hnull
    rw [hpage] at hnull
    exact hpage_ne (congrArg Prod.snd (Option.some.inj hnull))
  obtain ⟨hchild, own₃, -, -, hforks⟩ :=
    h₂.tables.forkSyscall h₂.pages hphys hsites hroot₂ hfork hne
  refine ⟨sites, st, st₁, st₃, child, hinit, hsites, hstart, ?_, ?_, ?_, fun hcr3 => ?_⟩
  · rw [allocateAndFork, Machine.meets_cons_iff _ hanonStep]
    exact ⟨hanonAllowed, hforkAllowed, fun _ _ => trivial⟩
  · simp only [allocateAndFork, Machine.exec, hanonStep, hforkStep, Option.bind_some, parent]
  · rw [hchild]
  · obtain ⟨r, hr, -⟩ := h₂.tables.roots parent.cr3 hroot₂
    have hunowned := hforks.unowned
    rw [hcr3, hr] at hunowned
    cases hunowned

/-- The first process allocates two pages, forks and exits; its child lives on. -/
def forkAndExit : List SyscallAction := [.anonAllocate 0 0x1800, .fork 0, .exit 0]

theorem syscallMachine_accounted_forkAndExit : ∃ sites st st₁ init s,
    SpaceInit sites [0x1000] st ∧ sites.length ≤ 0x100 ∧
      enterRing3Init 0x10000001 st ⟨0x1000, 0, 0x800000⟩ bootElf = some (st₁, init) ∧
      (syscallMachine 0x10000001).exec ⟨st₁, [init]⟩ forkAndExit = some s ∧ s.procs.length = 1 ∧
      ∀ proc ∈ s.procs, Accounted s.pages proc := by
  obtain ⟨sites, st, st₁, st₃, child, hinit, hsites, hstart, hallows, hrun, -, -⟩ :=
    bootProcess_forks
  let parent : UserProcess := ⟨0x1000, 0x401800, 0x802000⟩
  obtain ⟨st₄, hexit⟩ := exitSyscall_some st₃ (show parent.elfEnd.toNat ≤ 0x800000 by decide)
    (show parent.anonAllocateEnd ≤ _ by decide) (show 0x10000000 ≤ 0x10000001 by decide)
  have hexitStep : (syscallMachine 0x10000001).step ⟨st₃, [parent, child]⟩ (.exit 0) =
      some ⟨st₄, [child]⟩ := by
    simp only [syscallMachine, SyscallState.step, List.getElem?_cons_zero, Option.bind_some, hexit,
      Option.map_some, List.eraseIdx_cons_zero]
  have hwhole : (syscallMachine 0x10000001).exec ⟨st₁, [⟨0x1000, 0x401800, 0x800000⟩]⟩ forkAndExit =
      some ⟨st₄, [child]⟩ := by
    refine (Machine.exec_append _ hrun [.exit 0]).trans ?_
    simp only [Machine.exec, hexitStep, Option.bind_some, parent]
  have hallowed : (syscallMachine 0x10000001).Meets SyscallState.Allows
      ⟨st₁, [⟨0x1000, 0x401800, 0x800000⟩]⟩ forkAndExit :=
    Machine.meets_append _ hrun hallows ⟨trivial, fun _ _ => trivial⟩
  exact ⟨sites, st, st₁, _, _, hinit, hsites, hstart, hwhole, rfl,
    syscallMachine_accounted hinit hsites bootElf_inside hstart hallowed hwhole⟩

end BayosKernel
