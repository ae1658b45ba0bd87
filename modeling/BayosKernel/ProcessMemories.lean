import BayosKernel.PrivateSpaces
import BayosKernel.SyscallRanges

/-!
The memories of the processes over the runs of the system calls. A system call is a series
of calls on the address space of its caller, so that no process sees another one.
-/

namespace BayosKernel

open Foundation

/-- A call on the address space `cr3` after which `kept` holds what it held. -/
def SpaceAction.On (roots : List Nat) (cr3 : Nat) (kept : Set Nat) (a : SpaceAction) : Prop :=
  a.Valid roots ∧ a.memory.space = cr3 ∧ ∀ va ∈ kept, ¬a.memory.Changes cr3 va

def SpaceCalls (fuel : Nat) (roots : List Nat) (cr3 : Nat) (kept : Set Nat) :
    PageState → PageState → Prop :=
  Relation.ReflTransGen fun st st' =>
    ∃ a : SpaceAction, a.On roots cr3 kept ∧ spaceStep fuel st a = some st'

namespace SpaceCalls

variable {st st₁ st' : PageState} {sites : List Site} {roots : List Nat} {fuel cr3 : Nat}
  {kept : Set Nat}

theorem map {va : Nat} (hroot : cr3 ∈ roots) (hva : va < 0x800000000000)
    (hrun : st.mapMemoryPage cr3 va 7 = some st') : SpaceCalls fuel roots cr3 kept st st' :=
  .single ⟨.map cr3 va 7, ⟨⟨hroot, hva, Or.inr rfl⟩, rfl, fun _ _ => id⟩, hrun⟩

theorem allocate {start stop flags : Nat} (hroot : cr3 ∈ roots) (hstop : stop ≤ 0x800000000000)
    (hflags : flags = 3 ∨ flags = 7)
    (hrun : st.allocateRegion fuel cr3 start stop flags = some st') :
    SpaceCalls fuel roots cr3 kept st st' :=
  .single ⟨.allocateRegion cr3 start stop flags, ⟨⟨hroot, hstop, hflags⟩, rfl, fun _ _ => id⟩, hrun⟩

theorem free {start stop : Nat} (hroot : cr3 ∈ roots) (hstop : stop ≤ 0x800000000000)
    (hkept : ∀ va ∈ kept, va ∉ regionBytes (pageRoundDown start) stop)
    (hrun : st.freeRegion fuel cr3 start stop = some st') : SpaceCalls fuel roots cr3 kept st st' :=
  .single ⟨.freeRegion cr3 start stop,
    ⟨⟨hroot, hstop⟩, rfl, fun va hva hchanges => hkept va hva hchanges.2⟩, hrun⟩

theorem write {va : Nat} {v : UInt8} (hroot : cr3 ∈ roots) (hva : va < 0x800000000000)
    (hkept : va ∉ kept) (hrun : st.write cr3 va v = some st') :
    SpaceCalls fuel roots cr3 kept st st' := by
  refine .single ⟨.write cr3 va v, ⟨⟨hroot, hva⟩, rfl, fun va' hva' hchanges => hkept ?_⟩, hrun⟩
  rw [hchanges.2]
  exact hva'

theorem copy {va n : Nat} {bytes : Nat → UInt8} (hroot : cr3 ∈ roots)
    (hend : va + n ≤ 0x800000000000) (hkept : ∀ k < n, va + k ∉ kept)
    (hrun : st.copyToUser cr3 va bytes n = some st') : SpaceCalls fuel roots cr3 kept st st' := by
  induction n generalizing st' with
  | zero =>
      cases hrun
      exact .refl
  | succ n ih =>
      obtain ⟨st₁, hfirst, hlast⟩ := Option.bind_eq_some_iff.mp hrun
      rw [add64_eq (by omega)] at hlast
      exact (ih (Nat.le_of_succ_le hend) (fun k hk => hkept k (Nat.lt_succ_of_lt hk)) hfirst).trans
        (write hroot (by omega) (hkept n (Nat.lt_succ_self n)) hlast)

theorem segment {vaddr pages : Nat} (hroot : cr3 ∈ roots) (hcount : pages ≤ 0x80000)
    (hend : vaddr + pages * 0x1000 ≤ 0x800000000000)
    (hrun : mapSegment st cr3 vaddr pages = some st') : SpaceCalls fuel roots cr3 kept st st' := by
  induction pages generalizing st' with
  | zero =>
      cases hrun
      exact .refl
  | succ pages ih =>
      obtain ⟨st₁, hfirst, hlast⟩ := Option.bind_eq_some_iff.mp hrun
      rw [Nat.succ_mul, ← Nat.add_assoc] at hend
      rw [segmentPage_eq hcount (by omega)] at hlast
      exact (ih (by omega) (by omega) hfirst).trans (map hroot (by omega) hlast)

/-- The segments of an ELF file inside lie above the stack. -/
theorem loadSegment {elf : ElfImage} {ph : ElfProgram} (hroot : cr3 ∈ roots)
    (hkept : ∀ va ∈ kept, va < 0x400000)
    (hin : 0x400000 ≤ ph.vaddr ∧ ph.vaddr + ph.memsz ≤ 0x800000 ∧ ph.vaddr + ph.filesz ≤ 0x800000)
    (hrun : BayosKernel.loadSegment elf cr3 st ph = some st') :
    SpaceCalls fuel roots cr3 kept st st' := by
  obtain ⟨hvaddr, hmemsz, hfilesz⟩ := hin
  have habove : ∀ va, 0x400000 ≤ va → va ∉ kept := fun va hle hva =>
    absurd (hkept va hva) (Nat.not_lt.mpr hle)
  rw [loadSegment_eq elf cr3 st (by omega) (by omega)] at hrun
  obtain ⟨st₁, hmap, hrun⟩ := Option.bind_eq_some_iff.mp hrun
  obtain ⟨st₂, hcopy, hzero⟩ := Option.bind_eq_some_iff.mp hrun
  have hmapped : SpaceCalls fuel roots cr3 kept st st₁ :=
    segment hroot (by omega) (by omega) hmap
  have hcopied : SpaceCalls fuel roots cr3 kept st₁ st₂ :=
    copy hroot (by omega) (fun k _ => habove _ (by omega)) hcopy
  exact (hmapped.trans hcopied).trans
    (copy hroot (by omega) (fun k _ => habove _ (by omega)) hzero)

theorem programs {elf : ElfImage} {highest : UInt32} {n : Nat} (hroot : cr3 ∈ roots)
    (hkept : ∀ va ∈ kept, va < 0x400000) (hin : ∀ i < n, (elf.program i).Inside)
    (hrun : mapPrograms elf cr3 st n = some (st', highest)) :
    SpaceCalls fuel roots cr3 kept st st' := by
  induction n generalizing st' highest with
  | zero =>
      cases hrun
      exact .refl
  | succ n ih =>
      obtain ⟨⟨st₁, highest₁⟩, hfirst, hlast⟩ := Option.bind_eq_some_iff.mp hrun
      have hbefore : SpaceCalls fuel roots cr3 kept st st₁ :=
        ih (fun i hi => hin i (Nat.lt_succ_of_lt hi)) hfirst
      by_cases hload : (elf.program n).type = 1
      · simp only [if_pos hload] at hlast
        obtain ⟨st₂, hsegment, heq⟩ := Option.map_eq_some_iff.mp hlast
        obtain ⟨rfl, -⟩ := Prod.mk.inj heq
        exact hbefore.trans (loadSegment hroot hkept (hin n (Nat.lt_succ_self n) hload) hsegment)
      · simp only [if_neg hload] at hlast
        cases hlast
        exact hbefore

theorem exit {proc : UserProcess} (hroot : proc.cr3 ∈ roots)
    (hanon : proc.anonAllocateEnd ≤ 0x800000000000)
    (hrun : exitSyscall fuel st proc = some st') : SpaceCalls fuel roots proc.cr3 ∅ st st' := by
  have helf := proc.elfEnd.toNat_lt
  obtain ⟨st₁, hstack, hrun⟩ := Option.bind_eq_some_iff.mp hrun
  obtain ⟨st₂, helf, hanonymous⟩ := Option.bind_eq_some_iff.mp hrun
  have hfirst : SpaceCalls fuel roots proc.cr3 ∅ st st₁ := free hroot (by decide) nofun hstack
  have hsecond : SpaceCalls fuel roots proc.cr3 ∅ st₁ st₂ := free hroot (by omega) nofun helf
  exact (hfirst.trans hsecond).trans (free hroot hanon nofun hanonymous)

theorem below_region {start stop va : Nat} (hstart : pageRoundDown start = start)
    (hva : va < start) : va ∉ regionBytes (pageRoundDown start) stop := by
  rintro ⟨-, hle, -⟩
  omega

/-- A new program is loaded above the stack. -/
theorem execve {proc proc' : UserProcess} {filesz : Nat} {elf : ElfImage}
    (hroot : proc.cr3 ∈ roots) (hkept : ∀ va ∈ kept, va < 0x400000)
    (hanon : proc.anonAllocateEnd ≤ 0x800000000000)
    (hend : 0x800000 + filesz ≤ 0x800000000000) (hin : elf.Inside)
    (hrun : execveSyscall fuel st proc filesz elf = some (st', proc')) :
    SpaceCalls fuel roots proc.cr3 kept st st' := by
  have helf := proc.elfEnd.toNat_lt
  have hround : pageRoundDown 0x400000 = 0x400000 ∧ pageRoundDown 0x800000 = 0x800000 := by decide
  have hbelow : ∀ va ∈ kept, va < 0x800000 := fun va hva => by
    have := hkept va hva
    omega
  simp only [execveSyscall, add64_eq (show 0x800000 + filesz < 0x10000000000000000 by omega)]
    at hrun
  obtain ⟨st₁, hfree₁, hrun⟩ := Option.bind_eq_some_iff.mp hrun
  obtain ⟨st₂, hfree₂, hrun⟩ := Option.bind_eq_some_iff.mp hrun
  obtain ⟨st₃, halloc, hrun⟩ := Option.bind_eq_some_iff.mp hrun
  obtain ⟨st₄, hcopy, hrun⟩ := Option.bind_eq_some_iff.mp hrun
  obtain ⟨⟨st₅, elfEnd⟩, hload, hrun⟩ := Option.bind_eq_some_iff.mp hrun
  obtain ⟨st₆, hfree₆, heq⟩ := Option.map_eq_some_iff.mp hrun
  obtain ⟨rfl, -⟩ := Prod.mk.inj heq
  have hgone : SpaceCalls fuel roots proc.cr3 kept st st₂ :=
    (free hroot (by omega) (fun va hva => below_region hround.1 (hkept va hva)) hfree₁).trans
      (free hroot hanon (fun va hva => below_region hround.2 (hbelow va hva)) hfree₂)
  have hscratch : SpaceCalls fuel roots proc.cr3 kept st₂ st₄ :=
    (allocate hroot hend (Or.inl rfl) halloc).trans (copy hroot hend (fun k _ hva => by
      have := hbelow _ hva
      omega) hcopy)
  have hloaded : SpaceCalls fuel roots proc.cr3 kept st₄ st₅ := programs hroot hkept hin hload
  exact ((hgone.trans hscratch).trans hloaded).trans
    (free hroot hend (fun va hva => below_region hround.2 (hbelow va hva)) hfree₆)

theorem anonymous {own : Nat → Option Role} {proc proc' : UserProcess} {pages : Nat}
    (h : TableInv sites st roots own) (hpages : PageInv st sites) (hphys : Physical sites)
    (hsites : sites.length ≤ 0x100) (hroot : proc.cr3 ∈ roots)
    (hproc : ProcInv (mappedPages own proc.cr3) proc)
    (hrun : anonAllocatePages st proc pages = some (st', proc')) :
    SpaceCalls fuel roots proc.cr3 kept st st' := by
  induction pages generalizing st' proc' with
  | zero =>
      cases hrun
      exact .refl
  | succ pages ih =>
      obtain ⟨⟨st₁, proc₁⟩, hfirst, hlast⟩ := Option.bind_eq_some_iff.mp hrun
      obtain ⟨hcr3, own₁, hremaps, hproc₁⟩ :=
        anonAllocatePages_inv h hpages hphys hsites hroot hproc hfirst
      obtain ⟨st₂, hmap, heq⟩ := Option.map_eq_some_iff.mp hlast
      obtain ⟨rfl, -⟩ := Prod.mk.inj heq
      simp only [hcr3] at hmap
      rw [← hcr3] at hproc₁ hremaps
      have hbound := hproc₁.anon_le hremaps.tables hremaps.pages hsites
      exact (ih hfirst).trans (map hroot (by omega) hmap)

/-- What a series of calls on one address space leaves as it is. -/
theorem kept_views (h : SpaceInv sites roots st) (hphys : Physical sites)
    (hcalls : SpaceCalls fuel roots cr3 kept st st') :
    SpaceInv sites roots st' ∧
      (∀ t ≠ cr3, userView roots st'.mem t = userView roots st.mem t) ∧
      ∀ va ∈ kept, ∀ b, userView roots st.mem cr3 va = some b →
        userView roots st'.mem cr3 va = some b := by
  induction hcalls with
  | refl => exact ⟨h, fun _ _ => rfl, fun _ _ _ => id⟩
  | tail _ hcall ih =>
      obtain ⟨a, ⟨hvalid, hspace, hchanges⟩, hstep⟩ := hcall
      obtain ⟨hinv, hothers, hcells⟩ := ih
      have hmemory := hinv.memoryStep hphys hvalid hstep
      refine ⟨hinv.step hphys hvalid hstep, fun t ht => ?_, fun va hva b hb => ?_⟩
      · rw [hmemory.space_kept (by rw [hspace]; exact ht.symm), hothers t ht]
      · exact hmemory.cell_kept (hcells va hva b hb) (hchanges va hva)

end SpaceCalls

namespace SyscallState

/-- The action is one of the process with the address space `cr3`. -/
def Calls (s : SyscallState) (cr3 : Nat) : SyscallAction → Prop
  | .fork i | .execve i _ _ | .anonAllocate i _ | .exit i | .store i _ _ =>
      ∃ proc, s.procs[i]? = some proc ∧ proc.cr3 = cr3

/-- The process stores there, or gives the byte up for another program or with its end. -/
def Changes (s : SyscallState) (cr3 va : Nat) : SyscallAction → Prop
  | .fork _ | .anonAllocate _ _ => False
  | .execve i filesz elf => s.Calls cr3 (.execve i filesz elf) ∧ 0x400000 ≤ va
  | .exit i => s.Calls cr3 (.exit i)
  | .store i va' v => s.Calls cr3 (.store i va' v) ∧ va' = va

end SyscallState

section Steps

variable {s s' : SyscallState} {st st' : PageState} {sites : List Site} {roots : List Nat}
  {own own' : Nat → Option Role} {fuel cr3 t va : Nat}

/-- What is not the fork of a process is a series of calls on its address space. -/
theorem SyscallState.Inv.spaceCalls {a : SyscallAction} (hphys : Physical sites)
    (hsites : sites.length ≤ 0x100) (h : s.Inv sites roots own) (hallows : s.Allows a)
    (hfork : ∀ i, a ≠ .fork i) (hstep : s.step fuel a = some s') :
    ∃ cr3, s.Calls cr3 a ∧
      SpaceCalls fuel roots cr3 {va | ¬s.Changes cr3 va a} s.pages s'.pages := by
  cases a with
  | fork i => exact absurd rfl (hfork i)
  | execve i filesz elf =>
      obtain ⟨proc, hi, hstep⟩ := Option.bind_eq_some_iff.mp hstep
      obtain ⟨⟨st', proc'⟩, hexec, heq⟩ := Option.map_eq_some_iff.mp hstep
      cases heq
      obtain ⟨hroot, hproc⟩ := h.procs proc (List.mem_of_getElem? hi)
      have hcalls : s.Calls proc.cr3 (.execve i filesz elf) := ⟨proc, hi, rfl⟩
      have hwhole := hexec
      rw [execveSyscall_eq] at hwhole
      obtain ⟨st₄, hscratch, -⟩ := Option.bind_eq_some_iff.mp hwhole
      obtain ⟨hend, -⟩ :=
        execveScratch_mapped h.tables h.pages hphys hsites hroot hproc.below hscratch
      refine ⟨proc.cr3, hcalls, .execve hroot (fun va hva => ?_) hproc.below hend hallows hexec⟩
      by_contra hle
      exact hva ⟨hcalls, Nat.le_of_not_lt hle⟩
  | anonAllocate i size =>
      obtain ⟨proc, hi, hstep⟩ := Option.bind_eq_some_iff.mp hstep
      obtain ⟨⟨st', proc'⟩, hanon, heq⟩ := Option.map_eq_some_iff.mp hstep
      cases heq
      obtain ⟨hroot, hproc⟩ := h.procs proc (List.mem_of_getElem? hi)
      exact ⟨proc.cr3, ⟨proc, hi, rfl⟩,
        .anonymous h.tables h.pages hphys hsites hroot hproc hanon⟩
  | exit i =>
      obtain ⟨proc, hi, hstep⟩ := Option.bind_eq_some_iff.mp hstep
      obtain ⟨st', hexit, heq⟩ := Option.map_eq_some_iff.mp hstep
      cases heq
      obtain ⟨hroot, hproc⟩ := h.procs proc (List.mem_of_getElem? hi)
      have hcalls : s.Calls proc.cr3 (.exit i) := ⟨proc, hi, rfl⟩
      have hnone : {va | ¬s.Changes proc.cr3 va (.exit i)} = ∅ :=
        Set.eq_empty_of_forall_notMem fun _ hva => hva hcalls
      refine ⟨proc.cr3, hcalls, ?_⟩
      rw [hnone]
      exact .exit hroot hproc.below hexit
  | store i va v =>
      obtain ⟨proc, hi, hstep⟩ := Option.bind_eq_some_iff.mp hstep
      obtain ⟨st', hwrite, heq⟩ := Option.map_eq_some_iff.mp hstep
      cases heq
      obtain ⟨hroot, hproc⟩ := h.procs proc (List.mem_of_getElem? hi)
      have hcalls : s.Calls proc.cr3 (.store i va v) := ⟨proc, hi, rfl⟩
      exact ⟨proc.cr3, hcalls, .write hroot hallows (fun hkept => hkept ⟨hcalls, rfl⟩) hwrite⟩

/-- `fork_syscall` is not seen in the address spaces that there were. -/
theorem Forks.userByte_kept {proc : UserProcess} {newCr3 : Nat}
    (hforks : Forks sites st st' own own' proc newCr3) (h : TableInv sites st roots own)
    (hpages : PageInv st sites) (h' : TableInv sites st' (newCr3 :: roots) own')
    (hpages' : PageInv st' sites) (hphys : Physical sites) (ht : t ∈ roots)
    (hva : va < 0x800000000000) : userByte st'.mem t va = userByte st.mem t va := by
  have hne : t ≠ newCr3 := by
    rintro rfl
    obtain ⟨r, hr, -⟩ := h.roots t ht
    rw [hforks.unowned] at hr
    cases hr
  have ht' : t ∈ newCr3 :: roots := List.mem_cons_of_mem _ ht
  rcases h.userByte_cases hpages hphys ht hva with ⟨c, hmaps, hbyte⟩ | ⟨hnone, hbyte⟩
  · rw [hbyte, h'.userByte_maps hpages' hphys ht' hva ((hforks.others t hne va hva c).mpr hmaps),
      hforks.data t hne va hva c hmaps _ (Nat.mod_lt _ (by decide))]
  · rw [hbyte]
    exact (h'.userByte_none_iff hpages' hphys ht' hva).mpr fun c hmaps =>
      hnone c ((hforks.others t hne va hva c).mp hmaps)

/-- The child of a program with a segment reads what its parent reads. -/
theorem Forks.userByte_child {proc : UserProcess} {newCr3 : Nat} {b : UInt8}
    (hforks : Forks sites st st' own own' proc newCr3) (h : TableInv sites st roots own)
    (hpages : PageInv st sites) (h' : TableInv sites st' (newCr3 :: roots) own')
    (hpages' : PageInv st' sites) (hphys : Physical sites) (hroot : proc.cr3 ∈ roots)
    (hproc : ProcInv (mappedPages own proc.cr3) proc) (hloaded : 0x400000 ≤ proc.elfEnd.toNat)
    (hva : va < 0x800000000000) (hb : userByte st.mem proc.cr3 va = some b) :
    userByte st'.mem newCr3 va = some b := by
  rcases h.userByte_cases hpages hphys hroot hva with ⟨p, hp, hbyte⟩ | ⟨-, hbyte⟩
  · have hin : proc.InRanges (va / 0x1000 * 0x1000) := by
      have hrecorded := hproc.recorded _ (mem_mappedPages hp hva)
      simp only [UserProcess.Recorded, UserProcess.InRanges, InRegion] at hrecorded ⊢
      omega
    obtain ⟨q, hq⟩ := hforks.mapped _ hin
    rw [hbyte] at hb
    rw [h'.userByte_maps hpages' hphys List.mem_cons_self hva (Maps.page.mp hq),
      hforks.bytes _ hin p q (Maps.page.mpr hp) hq _ (Nat.mod_lt _ (by decide)), hb]
  · rw [hbyte] at hb
    cases hb

end Steps

namespace SyscallState

variable {s s' : SyscallState} {sites : List Site} {roots : List Nat} {own : Nat → Option Role}
  {fuel t va : Nat} {a : SyscallAction}

def Live (s : SyscallState) (cr3 : Nat) : Prop := ∃ proc ∈ s.procs, proc.cr3 = cr3

theorem Live.set {i : Nat} {proc proc' : UserProcess} {st : PageState} (hlive : s.Live t)
    (hi : s.procs[i]? = some proc) (hcr3 : proc'.cr3 = proc.cr3) :
    Live ⟨st, s.procs.set i proc'⟩ t := by
  obtain ⟨other, hother, rfl⟩ := hlive
  obtain ⟨j, hj⟩ := List.mem_iff_getElem?.mp hother
  by_cases hij : i = j
  · subst hij
    cases hi.symm.trans hj
    refine ⟨proc', List.mem_iff_getElem?.mpr ⟨i, ?_⟩, hcr3⟩
    rw [List.getElem?_set_self (List.getElem?_eq_some_iff.mp hi).1]
  · refine ⟨other, List.mem_iff_getElem?.mpr ⟨j, ?_⟩, rfl⟩
    rw [List.getElem?_set_ne hij, hj]

/-- Only its own `exit_syscall` ends a process. -/
theorem Inv.live_step (hphys : Physical sites) (hsites : sites.length ≤ 0x100)
    (h : s.Inv sites roots own) (hlive : s.Live t)
    (hexit : ∀ i, a = .exit i → ¬s.Calls t (.exit i)) (hstep : s.step fuel a = some s') :
    s'.Live t := by
  cases a with
  | fork i =>
      obtain ⟨proc, hi, hstep⟩ := Option.bind_eq_some_iff.mp hstep
      obtain ⟨⟨st', child⟩, -, heq⟩ := Option.map_eq_some_iff.mp hstep
      cases heq
      obtain ⟨other, hother, hcr3⟩ := hlive
      exact ⟨other, List.mem_append_left _ hother, hcr3⟩
  | execve i filesz elf =>
      obtain ⟨proc, hi, hstep⟩ := Option.bind_eq_some_iff.mp hstep
      obtain ⟨⟨st', proc'⟩, hexec, heq⟩ := Option.map_eq_some_iff.mp hstep
      cases heq
      rw [execveSyscall_eq] at hexec
      obtain ⟨st₄, -, hexec⟩ := Option.bind_eq_some_iff.mp hexec
      obtain ⟨⟨st₅, elfEnd⟩, -, hexec⟩ := Option.bind_eq_some_iff.mp hexec
      obtain ⟨st₆, -, heq⟩ := Option.map_eq_some_iff.mp hexec
      cases heq
      exact hlive.set hi rfl
  | anonAllocate i size =>
      obtain ⟨proc, hi, hstep⟩ := Option.bind_eq_some_iff.mp hstep
      obtain ⟨⟨st', proc'⟩, hanon, heq⟩ := Option.map_eq_some_iff.mp hstep
      cases heq
      obtain ⟨hroot, hproc⟩ := h.procs proc (List.mem_of_getElem? hi)
      obtain ⟨hcr3, -⟩ := anonAllocatePages_inv h.tables h.pages hphys hsites hroot hproc hanon
      exact hlive.set hi hcr3
  | exit i =>
      obtain ⟨proc, hi, hstep⟩ := Option.bind_eq_some_iff.mp hstep
      obtain ⟨st', -, heq⟩ := Option.map_eq_some_iff.mp hstep
      cases heq
      obtain ⟨other, hother, hcr3⟩ := hlive
      obtain ⟨j, hj⟩ := List.mem_iff_getElem?.mp hother
      refine ⟨other, List.mem_eraseIdx_iff_getElem?.mpr ⟨j, ?_, hj⟩, hcr3⟩
      rintro rfl
      exact hexit j rfl ⟨other, hj, hcr3⟩
  | store i va v =>
      obtain ⟨proc, hi, hstep⟩ := Option.bind_eq_some_iff.mp hstep
      obtain ⟨st', -, heq⟩ := Option.map_eq_some_iff.mp hstep
      cases heq
      exact hlive

theorem Live.root (h : s.Inv sites roots own) (hlive : s.Live t) : t ∈ roots := by
  obtain ⟨proc, hproc, rfl⟩ := hlive
  exact (h.procs proc hproc).1

/-- A system call or a store, seen in the memory of one process. -/
theorem Inv.step_views (hphys : Physical sites) (hsites : sites.length ≤ 0x100)
    (h : s.Inv sites roots own) (hlive : s.Live t) (hallows : s.Allows a)
    (hstep : s.step fuel a = some s') (hva : va < 0x800000000000) :
    (¬s.Calls t a → userByte s'.pages.mem t va = userByte s.pages.mem t va) ∧
      (¬s.Changes t va a → ∀ b, userByte s.pages.mem t va = some b →
        userByte s'.pages.mem t va = some b) := by
  have hroot := hlive.root h
  by_cases hfork : ∃ i, a = .fork i
  · obtain ⟨i, rfl⟩ := hfork
    obtain ⟨proc, hi, hstep⟩ := Option.bind_eq_some_iff.mp hstep
    obtain ⟨⟨st', child⟩, hfork, heq⟩ := Option.map_eq_some_iff.mp hstep
    cases heq
    have hne : child.cr3 ≠ NULL := forkSyscall_ne_null hallows hfork
    obtain ⟨-, own', hpages', htables', hforks⟩ := h.tables.forkSyscall h.pages hphys hsites
      (h.procs proc (List.mem_of_getElem? hi)).1 hfork hne
    have hkept := hforks.userByte_kept h.tables h.pages htables' hpages' hphys hroot hva
    exact ⟨fun _ => hkept, fun _ b hb => hkept.trans hb⟩
  · obtain ⟨cr3, hcaller, hcalls⟩ :=
      h.spaceCalls hphys hsites hallows (fun i hi => hfork ⟨i, hi⟩) hstep
    obtain ⟨-, hothers, hcells⟩ := hcalls.kept_views ⟨h.pages, own, h.tables⟩ hphys
    by_cases ht : t = cr3
    · subst ht
      refine ⟨fun hnot => absurd hcaller hnot, fun hchanges b hb => ?_⟩
      rw [← userView_eq s.pages.mem hroot hva] at hb
      rw [← userView_eq s'.pages.mem hroot hva]
      exact hcells va hchanges b hb
    · have hkept := congrFun (hothers t ht) va
      rw [userView_eq s'.pages.mem hroot hva, userView_eq s.pages.mem hroot hva] at hkept
      exact ⟨fun _ => hkept, fun _ b hb => hkept.trans hb⟩

end SyscallState

/-- From here on every process has a memory of its own. The actions of the others do not
change it, what is stored in it stays until the process gives it up, and a child begins
with the memory of its parent. -/
structure PrivateMemories (fuel : Nat) (s : SyscallState) : Prop where
  others : ∀ proc ∈ s.procs, ∀ run s', (syscallMachine fuel).Meets
      (fun s a => s.Allows a ∧ ¬s.Calls proc.cr3 a) s run →
    (syscallMachine fuel).exec s run = some s' → ∀ va < 0x800000000000,
      userByte s'.pages.mem proc.cr3 va = userByte s.pages.mem proc.cr3 va
  kept : ∀ proc ∈ s.procs, ∀ va < 0x800000000000, ∀ b,
    userByte s.pages.mem proc.cr3 va = some b → ∀ run s', (syscallMachine fuel).Meets
      (fun s a => s.Allows a ∧ ¬s.Changes proc.cr3 va a) s run →
    (syscallMachine fuel).exec s run = some s' → userByte s'.pages.mem proc.cr3 va = some b
  stored : ∀ i proc va v s', s.procs[i]? = some proc → va < 0x800000000000 →
    s.step fuel (.store i va v) = some s' → userByte s'.pages.mem proc.cr3 va = some v
  forked : ∀ i proc s', s.procs[i]? = some proc → s.Allows (.fork i) →
    s.step fuel (.fork i) = some s' → ∃ child, s'.procs = s.procs ++ [child] ∧
      (∀ other ∈ s.procs, other.cr3 ≠ child.cr3) ∧
      (0x400000 ≤ proc.elfEnd.toNat → ∀ va < 0x800000000000, ∀ b,
        userByte s.pages.mem proc.cr3 va = some b → userByte s'.pages.mem child.cr3 va = some b)

namespace SyscallState

variable {s s' : SyscallState} {sites : List Site} {roots : List Nat} {own : Nat → Option Role}
  {fuel t : Nat} {run : List SyscallAction}

theorem Inv.run_others (hphys : Physical sites) (hsites : sites.length ≤ 0x100)
    (h : s.Inv sites roots own) (hlive : s.Live t)
    (hrun : (syscallMachine fuel).exec s run = some s')
    (hmeets : (syscallMachine fuel).Meets (fun s a => s.Allows a ∧ ¬s.Calls t a) s run) :
    ∀ va < 0x800000000000, userByte s'.pages.mem t va = userByte s.pages.mem t va := by
  let I : SyscallState → Prop := fun s₁ => (∃ roots own, s₁.Inv sites roots own) ∧ s₁.Live t ∧
    ∀ va < 0x800000000000, userByte s₁.pages.mem t va = userByte s.pages.mem t va
  have hstep : ∀ s₁ a s₂, I s₁ → s₁.Allows a ∧ ¬s₁.Calls t a →
      (syscallMachine fuel).step s₁ a = some s₂ → I s₂ := by
    rintro s₁ a s₂ ⟨⟨roots₁, own₁, h₁⟩, hlive₁, hview⟩ ⟨hallows, hcalls⟩ hstep
    refine ⟨h₁.step fuel hphys hsites hallows hstep, ?_, fun va hva => ?_⟩
    · exact h₁.live_step hphys hsites hlive₁ (fun i hi => hi ▸ hcalls) hstep
    · rw [← hview va hva]
      exact (h₁.step_views hphys hsites hlive₁ hallows hstep hva).1 hcalls
  exact ((syscallMachine fuel).exec_invariant hstep ⟨⟨roots, own, h⟩, hlive, fun _ _ => rfl⟩
    hmeets hrun).2.2

theorem Inv.run_kept {va : Nat} {b : UInt8} (hphys : Physical sites)
    (hsites : sites.length ≤ 0x100) (h : s.Inv sites roots own) (hlive : s.Live t)
    (hva : va < 0x800000000000) (hb : userByte s.pages.mem t va = some b)
    (hrun : (syscallMachine fuel).exec s run = some s')
    (hmeets : (syscallMachine fuel).Meets (fun s a => s.Allows a ∧ ¬s.Changes t va a) s run) :
    userByte s'.pages.mem t va = some b := by
  let I : SyscallState → Prop := fun s₁ => (∃ roots own, s₁.Inv sites roots own) ∧ s₁.Live t ∧
    userByte s₁.pages.mem t va = some b
  have hstep : ∀ s₁ a s₂, I s₁ → s₁.Allows a ∧ ¬s₁.Changes t va a →
      (syscallMachine fuel).step s₁ a = some s₂ → I s₂ := by
    rintro s₁ a s₂ ⟨⟨roots₁, own₁, h₁⟩, hlive₁, hbyte⟩ ⟨hallows, hchanges⟩ hstep
    refine ⟨h₁.step fuel hphys hsites hallows hstep, ?_, ?_⟩
    · refine h₁.live_step hphys hsites hlive₁ ?_ hstep
      rintro i rfl
      exact hchanges
    · exact (h₁.step_views hphys hsites hlive₁ hallows hstep hva).2 hchanges b hbyte
  exact ((syscallMachine fuel).exec_invariant hstep ⟨⟨roots, own, h⟩, hlive, hb⟩ hmeets hrun).2.2

theorem Inv.privateMemories (hphys : Physical sites) (hsites : sites.length ≤ 0x100)
    (h : s.Inv sites roots own) : PrivateMemories fuel s where
  others proc hproc run s' hmeets hrun :=
    h.run_others hphys hsites ⟨proc, hproc, rfl⟩ hrun hmeets
  kept proc hproc va hva b hb run s' hmeets hrun :=
    h.run_kept hphys hsites ⟨proc, hproc, rfl⟩ hva hb hrun hmeets
  stored i proc va v s' hi hva hstep := by
    simp only [SyscallState.step, hi, Option.bind_some] at hstep
    obtain ⟨st', hwrite, heq⟩ := Option.map_eq_some_iff.mp hstep
    cases heq
    have hroot := (h.procs proc (List.mem_of_getElem? hi)).1
    obtain ⟨c, hmaps, rfl, hpages', htables'⟩ := h.tables.write h.pages hphys hroot hva hwrite
    rw [htables'.userByte_maps hpages' hphys hroot hva hmaps]
    exact congrArg some (Function.update_self _ _ _)
  forked i proc s' hi hallows hstep := by
    simp only [SyscallState.step, hi, Option.bind_some] at hstep
    obtain ⟨⟨st', child⟩, hfork, heq⟩ := Option.map_eq_some_iff.mp hstep
    cases heq
    obtain ⟨hroot, hproc⟩ := h.procs proc (List.mem_of_getElem? hi)
    have hne : child.cr3 ≠ NULL := forkSyscall_ne_null hallows hfork
    obtain ⟨hchild, own', hpages', htables', hforks⟩ :=
      h.tables.forkSyscall h.pages hphys hsites hroot hfork hne
    refine ⟨child, rfl, fun other hother heq => ?_, fun hloaded va hva b hb => ?_⟩
    · obtain ⟨r, hr, -⟩ := h.tables.roots _ (h.procs other hother).1
      rw [heq, hforks.unowned] at hr
      cases hr
    · exact hforks.userByte_child h.tables h.pages htables' hpages' hphys hroot hproc hloaded hva hb

end SyscallState

/-- After every run from the first process, every process has a memory of its own. -/
theorem syscallMachine_private {st st₁ : PageState} {sites : List Site} {fuel cr3 : Nat}
    {elf : ElfImage} {init : UserProcess} {run : List SyscallAction} {s : SyscallState}
    (hinit : SpaceInit sites [cr3] st) (hsites : sites.length ≤ 0x100) (hin : elf.Inside)
    (hstart : enterRing3Init fuel st ⟨cr3, 0, 0x800000⟩ elf = some (st₁, init))
    (hallows : (syscallMachine fuel).Meets SyscallState.Allows ⟨st₁, [init]⟩ run)
    (hrun : (syscallMachine fuel).exec ⟨st₁, [init]⟩ run = some s) : PrivateMemories fuel s := by
  let I : SyscallState → Prop := fun s => ∃ roots own, s.Inv sites roots own
  have hstep : ∀ s a s', I s → s.Allows a → (syscallMachine fuel).step s a = some s' → I s' := by
    rintro s a s' ⟨roots, own, h⟩ ha hstep
    exact h.step fuel hinit.physical hsites ha hstep
  obtain ⟨own₁, h₁⟩ := enterRing3Init_inv hinit hin hstart
  obtain ⟨roots, own, h⟩ : I s :=
    (syscallMachine fuel).exec_invariant hstep ⟨[cr3], own₁, h₁⟩ hallows hrun
  exact h.privateMemories hinit.physical hsites

/-- The child of the first process stores into its copy of a page, which its parent does
not see. -/
theorem syscallMachine_private_forkAndStore : ∃ st₁ s s' parent child,
    (syscallMachine 0x10000001).exec ⟨st₁, [⟨0x1000, 0x401800, 0x800000⟩]⟩ allocateAndFork =
        some s ∧
      s.procs = [parent, child] ∧ PrivateMemories 0x10000001 s ∧
      s.step 0x10000001 (.store 1 0x800010 7) = some s' ∧
      userByte s'.pages.mem child.cr3 0x800010 = some 7 ∧
      ∀ va < 0x800000000000, userByte s'.pages.mem parent.cr3 va =
        userByte s.pages.mem parent.cr3 va := by
  obtain ⟨sites, st, st₁, st₃, child, hinit, hsites, hstart, hallows, hrun, hend, hne⟩ :=
    bootProcess_forks
  let parent : UserProcess := ⟨0x1000, 0x401800, 0x802000⟩
  have hmemories : PrivateMemories 0x10000001 ⟨st₃, [parent, child]⟩ :=
    syscallMachine_private hinit hsites bootElf_inside hstart hallows hrun
  -- the page of the child that the store goes to
  obtain ⟨own₁, h₁⟩ := enterRing3Init_inv hinit bootElf_inside hstart
  let I : SyscallState → Prop := fun s => ∃ roots own, s.Inv sites roots own
  have hstep : ∀ s a s', I s → s.Allows a → s.step 0x10000001 a = some s' → I s' := by
    rintro s a s' ⟨roots, own, h⟩ ha hstep
    exact h.step 0x10000001 hinit.physical hsites ha hstep
  obtain ⟨roots, own, h⟩ : I ⟨st₃, [parent, child]⟩ :=
    (syscallMachine 0x10000001).exec_invariant hstep ⟨[0x1000], own₁, h₁⟩ hallows hrun
  obtain ⟨hroot, hproc⟩ := h.procs child (by simp)
  obtain ⟨-, c, hmaps⟩ : 0x800000 ∈ mappedPages own child.cr3 := hproc.anonymous
    ⟨Nat.le_refl _, by rw [hend]; decide, by decide⟩
  have hbyte : Maps own child.cr3 0x800010 c := Maps.page.mp hmaps
  have hwrite := h.tables.write_some h.pages hinit.physical hroot (by decide) hbyte 7
  have hstore : ∃ s', SyscallState.step 0x10000001 ⟨st₃, [parent, child]⟩ (.store 1 0x800010 7) =
      some s' := by
    simp only [SyscallState.step, List.getElem?_cons_succ, List.getElem?_cons_zero,
      Option.bind_some, hwrite, Option.map_some]
    exact ⟨_, rfl⟩
  obtain ⟨s', hstore⟩ := hstore
  refine ⟨st₁, _, s', parent, child, hrun, rfl, hmemories, hstore,
    hmemories.stored 1 child 0x800010 7 s' rfl (by decide) hstore, ?_⟩
  have hexec : (syscallMachine 0x10000001).exec ⟨st₃, [parent, child]⟩ [.store 1 0x800010 7] =
      some s' := by
    simp only [Machine.exec, syscallMachine, hstore, Option.bind_some]
  refine hmemories.others parent (by simp) [.store 1 0x800010 7] s'
    ⟨⟨show 0x800010 < 0x800000000000 by decide, ?_⟩, fun _ _ => trivial⟩ hexec
  rintro ⟨proc, hproc, hcr3⟩
  cases hproc
  exact hne hcr3

end BayosKernel
