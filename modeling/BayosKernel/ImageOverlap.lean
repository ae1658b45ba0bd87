import BayosKernel.AnonMemory
import BayosKernel.ElfEnd

/-!
The image of a program against its anonymous memory and against the copy of the file that
`execve_syscall` loads it from. Both begin at 0x800000, wherever the segments lie, and
`map_memory_page` takes a page that is there already.
-/

namespace BayosKernel

open Foundation

/-- The PT_LOAD segments lie between 0x400000 and 4 GiB, and none is larger than 2 GiB. -/
def ElfImage.Bounded (elf : ElfImage) : Prop :=
  ∀ i < elf.phnum, (elf.program i).type = 1 → 0x400000 ≤ (elf.program i).vaddr ∧
    (elf.program i).vaddr + (elf.program i).memsz ≤ 0x100000000 ∧
      (elf.program i).memsz ≤ 0x80000000

/-- A program of `elf` before its first instruction: the first process, or one whose
`execve_syscall` found every page of the old program recorded, and whose segments lie apart
from the copy of the file. -/
inductive ProgramLoaded (fuel : Nat) (sites : List Site) (elf : ElfImage) :
    PageState → UserProcess → Prop
  | first {st st' : PageState} {roots : List Nat} {cr3 : Nat} {proc' : UserProcess}
      (space : SpaceInv sites roots st) (root : cr3 ∈ roots)
      (empty : ∀ va < 0x800000000000, ¬HasPage st.mem cr3 va)
      (run : enterRing3Init fuel st ⟨cr3, 0, 0x800000⟩ elf = some (st', proc')) :
      ProgramLoaded fuel sites elf st' proc'
  | execve {st st' : PageState} {roots : List Nat} {proc proc' : UserProcess} {filesz : Nat}
      (space : SpaceInv sites roots st) (root : proc.cr3 ∈ roots)
      (anon : proc.anonAllocateEnd ≤ 0x800000000000)
      (recorded : ∀ va < 0x800000000000, HasPage st.mem proc.cr3 va →
        proc.Recorded (va / 0x1000 * 0x1000))
      (clear : ∀ va ∈ elf.loadedPages elf.phnum, ¬InRegion 0x800000 (0x800000 + filesz) va)
      (run : execveSyscall fuel st proc filesz elf = some (st', proc')) :
      ProgramLoaded fuel sites elf st' proc'

/-- No page of the range that the call returns was mapped before it. -/
def AnonAction.Fresh (s : AnonState) : AnonAction → Prop
  | .call size => ∀ va < 0x800000000000, s.proc.anonAllocateEnd ≤ va →
      va < s.proc.anonAllocateEnd + size → ¬HasPage s.pages.mem s.proc.cr3 va
  | .other _ => True

/-- Beyond the stack the pages of a process are those in `P`, and the anonymous ones that it
allocated since. -/
structure ImageAt (sites : List Site) (P : Set Nat) (st : PageState) (proc : UserProcess) :
    Prop where
  anon : AnonOk sites st proc
  user : ∀ va ∈ P, va < 0x800000000000 ∧ va % 0x1000 = 0
  image : ∀ va ∈ P, HasPage st.mem proc.cr3 va
  only : ∀ va < 0x800000000000, HasPage st.mem proc.cr3 va → va < 0x400000 ∨
    va / 0x1000 * 0x1000 ∈ P ∨ 0x800000 ≤ va ∧ va < proc.anonAllocateEnd

theorem ElfImage.Bounded.loadedPages {elf : ElfImage} (h : elf.Bounded) {va : Nat}
    (hva : va ∈ elf.loadedPages elf.phnum) :
    0x400000 ≤ va ∧ va < 0x100000000 ∧ va % 0x1000 = 0 := by
  obtain ⟨i, hi, hload, j, hj, rfl⟩ := hva
  obtain ⟨hlow, hend, -⟩ := h i hi hload
  exact ⟨by omega, by omega, by omega⟩

section Loading

variable {st st' : PageState} {sites : List Site} {roots : List Nat} {own : Nat → Option Role}
  {elf : ElfImage} {cr3 : Nat}

/-- A segment that was copied lies in the user half. -/
theorem loadSegment_filesz_le {ph : ElfProgram} (h : TableInv sites st roots own)
    (hpages : PageInv st sites) (hphys : Physical sites) (hsites : sites.length ≤ 0x100)
    (hroot : cr3 ∈ roots) (hmemsz : ph.memsz ≤ 0x80000000)
    (hend : ph.vaddr + ph.memsz ≤ 0x100000000) (hrun : loadSegment elf cr3 st ph = some st') :
    ph.vaddr + ph.filesz ≤ 0x800000000000 := by
  simp only [loadSegment, segment_count hmemsz, Int.toNat_natCast] at hrun
  obtain ⟨st₁, hmap, hrun⟩ := Option.bind_eq_some_iff.mp hrun
  obtain ⟨st₂, hcopy, -⟩ := Option.bind_eq_some_iff.mp hrun
  obtain ⟨own₁, hremaps, -, -⟩ :=
    mapSegment_remaps h hpages hphys hroot (by omega) (by omega) hmap
  exact hremaps.tables.copyToUser_le hremaps.pages hphys hsites hroot (by omega) hcopy

/-- `map_elf` adds the pages of the segments, and no other. -/
theorem mapPrograms_mapped {highest : UInt32} (h : TableInv sites st roots own)
    (hpages : PageInv st sites) (hphys : Physical sites) (hsites : sites.length ≤ 0x100)
    (hroot : cr3 ∈ roots) (hbounded : elf.Bounded) {n : Nat} (hn : n ≤ elf.phnum)
    (hrun : mapPrograms elf cr3 st n = some (st', highest)) :
    ∃ own', Remaps sites roots st' own own' cr3 ∧
      mappedPages own' cr3 = mappedPages own cr3 ∪ elf.loadedPages n := by
  induction n generalizing st' highest with
  | zero =>
      cases hrun
      have hempty : elf.loadedPages 0 = ∅ := by simp [ElfImage.loadedPages]
      exact ⟨own, Remaps.refl hpages h cr3, by rw [hempty, Set.union_empty]⟩
  | succ n ih =>
      obtain ⟨⟨st₁, highest₁⟩, hfirst, hlast⟩ := Option.bind_eq_some_iff.mp hrun
      obtain ⟨own₁, hremaps₁, hmapped₁⟩ := ih (by omega) hfirst
      simp only at hlast
      rw [elf.loadedPages_succ]
      by_cases hload : (elf.program n).type = 1
      · obtain ⟨hlow, hend, hmemsz⟩ := hbounded n hn hload
        rw [if_pos hload] at hlast ⊢
        obtain ⟨st₂, hsegment, heq⟩ := Option.map_eq_some_iff.mp hlast
        obtain ⟨rfl, -⟩ := Prod.mk.inj heq
        have hfilesz := loadSegment_filesz_le hremaps₁.tables hremaps₁.pages hphys hsites hroot
          hmemsz hend hsegment
        obtain ⟨own₂, hremaps₂, hmapped₂⟩ := loadSegment_mapped hremaps₁.tables hremaps₁.pages
          hphys hroot hmemsz (by omega) hfilesz hsegment
        exact ⟨own₂, hremaps₁.trans hremaps₂, by rw [hmapped₂, hmapped₁, Set.union_assoc]⟩
      · rw [if_neg hload] at hlast ⊢
        cases hlast
        exact ⟨own₁, hremaps₁, by rw [hmapped₁, Set.union_empty]⟩

/-- The pages of a space, from the set of them. -/
theorem ImageAt.of_mappedPages {own' : Nat → Option Role} {proc : UserProcess}
    (hspace : SpaceInv sites roots st) (htables : TableInv sites st roots own')
    (hphys : Physical sites) (hroot : proc.cr3 ∈ roots) (hbounded : elf.Bounded)
    (hstart : proc.anonAllocateEnd = 0x800000)
    (himage : elf.loadedPages elf.phnum ⊆ mappedPages own' proc.cr3)
    (honly : ∀ va ∈ mappedPages own' proc.cr3, va < 0x400000 ∨ va ∈ elf.loadedPages elf.phnum) :
    ImageAt sites (elf.loadedPages elf.phnum) st proc := by
  refine ⟨⟨⟨roots, hroot, hspace⟩, by rw [hstart], by rw [hstart], by rw [hstart]; decide, ?_⟩,
    fun va hva => ?_, fun va hva => ?_, fun va hva hpage => ?_⟩
  · rw [hstart]
    exact fun va hin => absurd hin.1 (Nat.not_le.mpr hin.2.1)
  · have := hbounded.loadedPages hva
    exact ⟨by omega, by omega⟩
  · have hbound := hbounded.loadedPages hva
    rw [htables.hasPage_iff hspace.pages hphys hroot (by omega),
      show va / 0x1000 * 0x1000 = va by omega]
    exact himage hva
  · rw [htables.hasPage_iff hspace.pages hphys hroot hva] at hpage
    rcases honly _ hpage with hlow | hin
    · exact Or.inl (by omega)
    · exact Or.inr (Or.inl hin)

/-- Of the recorded pages those on the stack are left when the two others are freed. -/
theorem TableInv.recorded_stack {proc : UserProcess} {va : Nat} (h : TableInv sites st roots own)
    (hpages : PageInv st sites) (hphys : Physical sites) (hroot : proc.cr3 ∈ roots)
    (hrecorded : ∀ va < 0x800000000000, HasPage st.mem proc.cr3 va →
      proc.Recorded (va / 0x1000 * 0x1000))
    (hva : va ∈ (mappedPages own proc.cr3 \ regionPages 0x400000 proc.elfEnd.toNat) \
      regionPages 0x800000 proc.anonAllocateEnd) : va < 0x400000 := by
  obtain ⟨⟨⟨⟨huser, halign⟩, c, hmaps⟩, hout₁⟩, hout₂⟩ := hva
  have hin := hrecorded va huser ⟨c, (h.pageAt_iff hpages hphys hroot huser).mpr hmaps⟩
  rw [show va / 0x1000 * 0x1000 = va by omega] at hin
  rcases hin with hin | hin | hin
  · exact hin.2.1
  · exact absurd hin hout₁
  · exact absurd hin hout₂

end Loading

section

variable {fuel : Nat} {sites : List Site} {elf : ElfImage} {st : PageState} {proc : UserProcess}

theorem ProgramLoaded.start (h : ProgramLoaded fuel sites elf st proc) :
    proc.anonAllocateEnd = 0x800000 := by
  cases h with
  | first _ _ _ run =>
      obtain ⟨st₁, -, hrun⟩ := Option.bind_eq_some_iff.mp run
      obtain ⟨⟨st₂, elfEnd⟩, -, heq⟩ := Option.map_eq_some_iff.mp hrun
      obtain ⟨-, rfl⟩ := Prod.mk.inj heq
      rfl
  | execve _ _ _ _ _ run =>
      rw [execveSyscall_eq] at run
      obtain ⟨st₁, -, hrun⟩ := Option.bind_eq_some_iff.mp run
      obtain ⟨⟨st₂, elfEnd⟩, -, hrun⟩ := Option.bind_eq_some_iff.mp hrun
      obtain ⟨st₃, -, heq⟩ := Option.map_eq_some_iff.mp hrun
      obtain ⟨-, rfl⟩ := Prod.mk.inj heq
      rfl

theorem ProgramLoaded.imageAt (h : ProgramLoaded fuel sites elf st proc)
    (hphys : Physical sites) (hsites : sites.length ≤ 0x100) (hbounded : elf.Bounded) :
    ImageAt sites (elf.loadedPages elf.phnum) st proc := by
  have hstart := h.start
  cases h with
  | @first st₀ _ roots cr3 _ space root empty run =>
      obtain ⟨hpages, own, h⟩ := space
      obtain ⟨st₁, hstack, hrun⟩ := Option.bind_eq_some_iff.mp run
      obtain ⟨⟨st₂, elfEnd⟩, hload, heq⟩ := Option.map_eq_some_iff.mp hrun
      obtain ⟨rfl, rfl⟩ := Prod.mk.inj heq
      obtain ⟨own₁, hremaps₁, hmapped₁⟩ := h.allocateRegion_remaps hpages hphys root
        (by decide) (by decide) (by decide) (by decide) hstack
      obtain ⟨own₂, hremaps₂, hmapped₂⟩ := mapPrograms_mapped hremaps₁.tables hremaps₁.pages
        hphys hsites root hbounded (Nat.le_refl _) hload
      refine ImageAt.of_mappedPages ⟨hremaps₂.pages, own₂, hremaps₂.tables⟩ hremaps₂.tables
        hphys root hbounded hstart ?_ fun va hva => ?_
      · rw [hmapped₂]
        exact Set.subset_union_right
      · rw [hmapped₂, hmapped₁] at hva
        rcases hva with (⟨hva, c, hmaps⟩ | hstack) | himage
        · exact absurd ⟨c, (h.pageAt_iff hpages hphys root hva.1).mpr hmaps⟩ (empty va hva.1)
        · exact Or.inl hstack.2.1
        · exact Or.inr himage
  | @execve st₀ _ roots proc₀ _ filesz space root anon recorded clear run =>
      obtain ⟨hpages, own, h⟩ := space
      rw [execveSyscall_eq] at run
      obtain ⟨st₁, hscratch, hrun⟩ := Option.bind_eq_some_iff.mp run
      obtain ⟨⟨st₂, elfEnd⟩, hload, hrun⟩ := Option.bind_eq_some_iff.mp hrun
      obtain ⟨st₃, hfree, heq⟩ := Option.map_eq_some_iff.mp hrun
      obtain ⟨rfl, rfl⟩ := Prod.mk.inj heq
      obtain ⟨hend, own₁, hremaps₁, hmapped₁⟩ :=
        execveScratch_mapped h hpages hphys hsites root anon hscratch
      rw [add64_eq (by omega)] at hfree
      obtain ⟨own₂, hremaps₂, hmapped₂⟩ := mapPrograms_mapped hremaps₁.tables hremaps₁.pages
        hphys hsites root hbounded (Nat.le_refl _) hload
      obtain ⟨own₃, hremaps₃, hmapped₃⟩ := hremaps₂.tables.freeRegion_remaps hremaps₂.pages hphys
        root (by decide) (by decide) hend hfree
      refine ImageAt.of_mappedPages ⟨hremaps₃.pages, own₃, hremaps₃.tables⟩ hremaps₃.tables
        hphys root hbounded hstart ?_ fun va hva => ?_
      · rw [hmapped₃, hmapped₂]
        exact fun va hva => ⟨Or.inr hva, clear va hva⟩
      · rw [hmapped₃, hmapped₂, hmapped₁] at hva
        obtain ⟨(hold | hscratch) | himage, hout⟩ := hva
        · exact Or.inl (h.recorded_stack hpages hphys root recorded hold)
        · exact absurd hscratch hout
        · exact Or.inr himage

end

/-- A call finds its range unmapped if and only if no page of the image lies there. -/
theorem ImageAt.fresh_iff {sites : List Site} {P : Set Nat} {s : AnonState} {size : Nat}
    (h : ImageAt sites P s.pages s.proc) : (AnonAction.call size).Fresh s ↔
      ∀ va ∈ P, ¬(s.proc.anonAllocateEnd ≤ va ∧ va < s.proc.anonAllocateEnd + size) := by
  have halign := h.anon.aligned
  have habove := h.anon.above
  constructor
  · intro hfresh va hva hin
    exact hfresh va (h.user va hva).1 hin.1 hin.2 (h.image va hva)
  · intro hclear va hva hle hlt hpage
    rcases h.only va hva hpage with hlow | himage | hanon
    · omega
    · exact hclear _ himage ⟨by omega, by omega⟩
    · omega

theorem ImageAt.step {sites : List Site} {P : Set Nat} {s s' : AnonState} {n : Nat}
    (h : ImageAt sites P s.pages s.proc) (hstep : AnonStep sites s s' n) :
    ImageAt sites P s'.pages s'.proc := by
  have habove := h.anon.above
  have hstop := hstep.stop
  refine ⟨hstep.ok, h.user, fun va hva => ?_, fun va hva hpage => ?_⟩
  · exact (hstep.pages va (h.user va hva).1).mpr (Or.inl (h.image va hva))
  · rcases (hstep.pages va hva).mp hpage with hold | hnew
    · exact (h.only va hva hold).imp_right fun hin =>
        hin.imp_right fun hanon => ⟨hanon.1, by omega⟩
    · exact Or.inr (Or.inr ⟨by omega, by omega⟩)

/-- Over a run the calls find their ranges unmapped if and only if no page of the image lies
in one of them. -/
theorem ImageAt.run {sites : List Site} {P : Set Nat} {s s' : AnonState} {run : List AnonAction}
    (h : ImageAt sites P s.pages s.proc) (hphys : Physical sites) (hsites : sites.length ≤ 0x100)
    (hkept : anonMachine.Meets (fun s a => a.Kept sites s) s run)
    (hrun : anonMachine.exec s run = some s') :
    anonMachine.Meets (fun s a => a.Fresh s) s run ↔
      ∀ g ∈ anonRanges s.proc.anonAllocateEnd (run.filterMap AnonAction.size?),
        ∀ va ∈ P, ¬(g.1 ≤ va ∧ va < g.1 + g.2) := by
  induction run generalizing s with
  | nil => simp [Machine.Meets, anonRanges]
  | cons a rest ih =>
      obtain ⟨s₁, hstep, hrest⟩ := anonMachine.exec_cons_some hrun
      rw [anonMachine.meets_cons_iff hstep]
      cases a with
      | call size =>
          obtain ⟨hcall, -⟩ := h.anon.call hphys hsites hstep
          have hsizes : (AnonAction.call size :: rest).filterMap AnonAction.size? =
              size :: rest.filterMap AnonAction.size? := rfl
          rw [h.fresh_iff, ih (h.step hcall) (hkept.2 s₁ hstep) hrest, hcall.stop, hsizes,
            anonRanges, List.forall_mem_cons]
      | other st =>
          obtain ⟨hother, -⟩ := h.anon.other hkept.1 hstep
          have hsizes : (AnonAction.other st :: rest).filterMap AnonAction.size? =
              rest.filterMap AnonAction.size? := rfl
          rw [ih (h.step hother) (hkept.2 s₁ hstep) hrest, hother.stop, Nat.zero_mul,
            Nat.add_zero, hsizes]
          exact and_iff_right trivial

/-- The ranges of a program consist of unmapped pages if and only if no page of its segments
lies in one of them, and the copy of the file lies apart from the segments if and only if
none of their pages lies behind 0x800000 as far as the file is long. -/
theorem programLoaded_fresh_iff {fuel : Nat} {sites : List Site} {elf : ElfImage}
    (hphys : Physical sites) (hsites : sites.length ≤ 0x100) (hbounded : elf.Bounded) :
    (∀ st proc run s, ProgramLoaded fuel sites elf st proc →
      anonMachine.Meets (fun s a => a.Kept sites s) ⟨st, proc, []⟩ run →
      anonMachine.exec ⟨st, proc, []⟩ run = some s →
        (anonMachine.Meets (fun s a => a.Fresh s) ⟨st, proc, []⟩ run ↔
          ∀ g ∈ anonRanges 0x800000 (run.filterMap AnonAction.size?),
            ∀ va ∈ elf.loadedPages elf.phnum, ¬(g.1 ≤ va ∧ va < g.1 + g.2))) ∧
    ∀ st roots proc filesz st', SpaceInv sites roots st → proc.cr3 ∈ roots →
      proc.anonAllocateEnd ≤ 0x800000000000 →
      (∀ va < 0x800000000000, HasPage st.mem proc.cr3 va →
        proc.Recorded (va / 0x1000 * 0x1000)) →
      execveScratch fuel st proc filesz elf = some st' →
        ((∀ va ∈ elf.loadedPages elf.phnum, ¬HasPage st'.mem proc.cr3 va) ↔
          ∀ va ∈ elf.loadedPages elf.phnum, ¬InRegion 0x800000 (0x800000 + filesz) va) := by
  refine ⟨fun st proc run s hloaded hkept hrun => ?_,
    fun st roots proc filesz st' hspace hroot hanon hrecorded hrun => ?_⟩
  · have hstart := hloaded.start
    have himage := hloaded.imageAt hphys hsites hbounded
    rw [ImageAt.run (s := ⟨st, proc, []⟩) himage hphys hsites hkept hrun, hstart]
  · obtain ⟨hpages, own, h⟩ := hspace
    obtain ⟨hend, own', hremaps, hmapped⟩ :=
      execveScratch_mapped h hpages hphys hsites hroot hanon hrun
    refine forall₂_congr fun va hva => not_congr ?_
    have hbound := hbounded.loadedPages hva
    rw [hremaps.tables.hasPage_iff hremaps.pages hphys hroot (by omega),
      show va / 0x1000 * 0x1000 = va by omega, hmapped]
    refine ⟨fun hin => hin.resolve_left fun hold => ?_, Or.inr⟩
    have := h.recorded_stack hpages hphys hroot hrecorded hold
    omega

theorem SpaceInit.loaded {sites : List Site} {st st' : PageState} {fuel : Nat} {elf : ElfImage}
    {proc' : UserProcess} (hinit : SpaceInit sites [0x1000] st)
    (hrun : enterRing3Init fuel st ⟨0x1000, 0, 0x800000⟩ elf = some (st', proc')) :
    ProgramLoaded fuel sites elf st' proc' := by
  obtain ⟨own, h⟩ := hinit.inv.tables
  have hroot : 0x1000 ∈ [0x1000] := List.mem_singleton.mpr rfl
  refine .first hinit.inv hroot (fun va hva hpage => ?_) hrun
  obtain ⟨p, hp⟩ := hpage
  exact hinit.not_maps h hroot hva
    ((h.pageAt_iff hinit.pages hinit.physical hroot hva).mp hp)

/-- An image of one segment. -/
theorem ElfImage.Bounded.single {elf : ElfImage} {ph : ElfProgram} (hphnum : elf.phnum = 1)
    (hprogram : elf.program 0 = ph) (hlow : 0x400000 ≤ ph.vaddr)
    (hend : ph.vaddr + ph.memsz ≤ 0x100000000) (hmemsz : ph.memsz ≤ 0x80000000) :
    elf.Bounded := by
  intro i hi _
  rw [hphnum, Nat.lt_one_iff] at hi
  rw [hi, hprogram]
  exact ⟨hlow, hend, hmemsz⟩

/-- The first call of a program whose one segment is at 0x400000. -/
theorem programLoaded_fresh_iff_boot : ∃ sites st proc s,
    ProgramLoaded 0x10000001 sites bootElf st proc ∧
      anonMachine.exec ⟨st, proc, []⟩ [.call 0x1800] = some s ∧
      anonMachine.Meets (fun s a => AnonAction.Fresh s a) ⟨st, proc, []⟩ [.call 0x1800] := by
  obtain ⟨sites, st₀, st, hinit, hsites, hstart, hfree⟩ := bootProcess
  obtain ⟨hphnum, hprogram⟩ := bootElf_program
  have hloaded := hinit.loaded hstart
  have hbounded : bootElf.Bounded :=
    .single hphnum hprogram (by decide) (by decide) (by decide)
  have hok := (hloaded.imageAt hinit.physical hsites hbounded).anon
  obtain ⟨st', proc', hcall, -⟩ := hok.turns_some (n := 2) hinit.physical hsites (by omega)
  have hrun : anonMachine.exec ⟨st, ⟨0x1000, 0x401800, 0x800000⟩, []⟩ [.call 0x1800] =
      some ⟨st', proc', [(0x800000, 0x1800)]⟩ := by
    rw [Machine.exec, anonMachine_call, anonPages_eq (by decide), hcall, Option.map_some,
      Option.bind_some, Machine.exec]
  have hkept : anonMachine.Meets (fun s a => AnonAction.Kept sites s a)
      ⟨st, ⟨0x1000, 0x401800, 0x800000⟩, []⟩ [.call 0x1800] :=
    ⟨(by decide : 0x1800 < 0x10000000000000000), fun _ _ => trivial⟩
  refine ⟨sites, st, _, _, hloaded, hrun,
    ((programLoaded_fresh_iff hinit.physical hsites hbounded).1 _ _ _ _ hloaded hkept hrun).mpr ?_⟩
  rintro g hg va ⟨i, hi, -, j, hj, hva⟩
  rw [hphnum, Nat.lt_one_iff] at hi
  rw [hi, hprogram] at hj hva
  simp only [AnonAction.size?, List.filterMap_cons, List.filterMap_nil, anonRanges,
    List.mem_singleton] at hg
  rw [hg]
  simp only at hj hva ⊢
  omega

/-- A program with a segment at 0xfff000 asks for 8 MiB, and gets the page of the segment with
them. -/
theorem overlappingImage_notFresh : ∃ sites st proc s,
    ProgramLoaded 0x10000001 sites (topElf 0) st proc ∧ (topElf 0).Bounded ∧
      anonMachine.exec ⟨st, proc, []⟩ [.call 0x800000] = some s ∧
      ¬anonMachine.Meets (fun s a => AnonAction.Fresh s a) ⟨st, proc, []⟩ [.call 0x800000] := by
  obtain ⟨st₀, sites, hinit, hsites, hcount, hallocated⟩ := bootSpace
  obtain ⟨hphnum, hprogram⟩ := topElf_program 0
  have hstart : ∃ st, enterRing3Init 0x10000001 st₀ ⟨0x1000, 0, 0x800000⟩ (topElf 0) =
      some (st, ⟨0x1000, 0x1000000, 0x800000⟩) ∧
        st.allocated.length ≤ st₀.allocated.length + (2048 + 4 * ((0x1000 + 0xfff) / 0x1000)) :=
    enterRing3Init_single hinit hphnum hprogram rfl (by decide) (by decide) (by decide)
      (by decide) (by decide) (by rw [hallocated, hcount]; decide) (by decide)
  obtain ⟨st, hstart, hlength⟩ := hstart
  rw [hallocated, List.length_nil] at hlength
  have hloaded := hinit.loaded hstart
  have hbounded : (topElf 0).Bounded :=
    .single hphnum hprogram (by decide) (by decide) (by decide)
  have himage := hloaded.imageAt hinit.physical hsites hbounded
  obtain ⟨st', proc', hcall, -⟩ :=
    himage.anon.turns_some (n := 0x800) hinit.physical hsites (by omega)
  have hrun : anonMachine.exec ⟨st, ⟨0x1000, 0x1000000, 0x800000⟩, []⟩ [.call 0x800000] =
      some ⟨st', proc', [(0x800000, 0x800000)]⟩ := by
    rw [Machine.exec, anonMachine_call, anonPages_eq (by decide), hcall, Option.map_some,
      Option.bind_some, Machine.exec]
  have hpage : 0xfff000 ∈ (topElf 0).loadedPages (topElf 0).phnum := by
    refine ⟨0, by rw [hphnum]; decide, by rw [hprogram], 0, ?_, ?_⟩
    · rw [hprogram]
      decide
    · rw [hprogram]
      decide
  refine ⟨sites, st, _, _, hloaded, hbounded, hrun, fun hmeets => ?_⟩
  exact hmeets.1 0xfff000 (by decide) (by decide : 0x800000 ≤ 0xfff000)
    (by decide : 0xfff000 < 0x800000 + 0x800000) (himage.image _ hpage)

end BayosKernel
