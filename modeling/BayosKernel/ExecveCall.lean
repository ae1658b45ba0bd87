import BayosKernel.ElfLoading
import BayosKernel.SyscallRanges
import BayosKernel.VfsOwnership

/-!
`execve_syscall` from the path on: what it answers, and for which files. It comes
back for a path alone; what a file holds is looked at by `map_elf`, when the old
program is gone.

The stack frames of the call, which lie below the stack of the caller, are left out.
-/

namespace BayosKernel

open Foundation

/-- A return with -1, or the jump to `e_entry` in user mode. -/
inductive ExecveOutcome where
  | returned (st : PageState) (proc : UserProcess)
  | entered (st : PageState) (proc : UserProcess) (entry : Nat)

/-- The bytes at `elf_copy` after `vfs_read`; behind them lies what was there. -/
def elfCopy (bytes : List UInt8) (behind : ElfImage) : ElfImage :=
  fun k => bytes[k]?.getD (behind k)

section

variable (fs : Nat → FsOperations) (mounts : List Mountpoint)

/-- `execve_syscall`. -/
def execveCall (fuel : Nat) (st : PageState) (proc : UserProcess) (path : Path)
    (behind : ElfImage) : Option ExecveOutcome :=
  match vfsOpen fs mounts path 0 with
  | none => some (.returned st proc)
  | some (file, _) =>
      if path.length + 1 > 0x2000 then some (.returned st proc)
      else
        let elf := elfCopy (vfsRead fs mounts file file.filesz).2.2 behind
        (execveSyscall fuel st proc file.filesz elf).map fun (st, proc) =>
          .entered st proc (ByteMemory.load elf 8 24)

/-- `execve_syscall` comes back only for a path without a file or one that is too long,
and has changed nothing then; what the file holds does not matter. -/
theorem execveCall_returned (fuel : Nat) (st : PageState) (proc : UserProcess) (path : Path)
    (behind : ElfImage) :
    (∀ st' proc', execveCall fs mounts fuel st proc path behind = some (.returned st' proc') →
        st' = st ∧ proc' = proc) ∧
      ((∃ st' proc', execveCall fs mounts fuel st proc path behind =
          some (.returned st' proc')) ↔
        vfsOpen fs mounts path 0 = none ∨ 0x2000 < path.length + 1) := by
  cases hopen : vfsOpen fs mounts path 0 with
  | none =>
      have hcall : execveCall fs mounts fuel st proc path behind = some (.returned st proc) := by
        simp only [execveCall, hopen]
      refine ⟨fun st' proc' hret => ?_, fun _ => Or.inl rfl, fun _ => ⟨st, proc, hcall⟩⟩
      rw [hcall] at hret
      cases hret
      exact ⟨rfl, rfl⟩
  | some found =>
      by_cases hlong : path.length + 1 > 0x2000
      · have hcall : execveCall fs mounts fuel st proc path behind = some (.returned st proc) := by
          simp only [execveCall, hopen, if_pos hlong]
        refine ⟨fun st' proc' hret => ?_, fun _ => Or.inr hlong, fun _ => ⟨st, proc, hcall⟩⟩
        rw [hcall] at hret
        cases hret
        exact ⟨rfl, rfl⟩
      · have hgone : ∀ st' proc', execveCall fs mounts fuel st proc path behind ≠
            some (.returned st' proc') := by
          intro st' proc' hret
          simp only [execveCall, hopen, if_neg hlong, Option.map_eq_some_iff] at hret
          obtain ⟨loaded, -, heq⟩ := hret
          cases heq
        refine ⟨fun st' proc' hret => absurd hret (hgone st' proc'), ?_, ?_⟩
        · rintro ⟨st', proc', hret⟩
          exact absurd hret (hgone st' proc')
        · rintro (hnone | hlong')
          · cases hnone
          · exact absurd hlong' hlong

end

namespace ElfImage

/-- An ELF64 image of `size` bytes, with its program headers and segments inside and
its PT_LOAD segments in the user half. -/
structure WellFormed (elf : ElfImage) (size : Nat) : Prop where
  header : 64 ≤ size
  magic : ByteMemory.load elf 4 0 = 0x464c457f
  class64 : elf 4 = 2
  programs : ByteMemory.load elf 8 32 + 56 * elf.phnum ≤ size
  contents : ∀ i < elf.phnum, (elf.program i).offset + (elf.program i).filesz ≤ size
  userHalf : ∀ i < elf.phnum, (elf.program i).type = 1 →
    (elf.program i).vaddr + (elf.program i).memsz ≤ 0x800000000000

end ElfImage

section Loading

variable {st st' : PageState} {sites : List Site} {roots : List Nat} {own own' : Nat → Option Role}
  {proc : UserProcess} {elf : ElfImage}

theorem Frees.length_le {cr3 start stop : Nat}
    (hfrees : Frees sites st st' own own' cr3 start stop) (hpages' : PageInv st' sites) :
    st'.allocated.length ≤ st.allocated.length :=
  (hpages'.nodup.subperm fun p hp => ((hfrees.allocated p).mp hp).1).length_le

/-- A file whose segments have all their pages counted is loaded, with `n` pages for the
copy of the file. -/
theorem TableInv.execveSyscall_some {fuel filesz n : Nat} (h : TableInv sites st roots own)
    (hpages : PageInv st sites) (hphys : Physical sites) (hsites : sites.length ≤ 0x100)
    (hroot : proc.cr3 ∈ roots) (hproc : ProcInv (mappedPages own proc.cr3) proc)
    (hfile : elf.Loadable filesz)
    (hcounted : ∀ i < elf.phnum, (elf.program i).type = 1 → 0 < (elf.program i).memsz →
      ((elf.program i).vaddr + ((elf.program i).memsz - 1)) / 0x1000 * 0x1000 ∈
        elf.loadedPages (i + 1))
    (hsize : filesz ≤ n * 0x1000)
    (hfree : st.allocated.length + 4 * n + 4 * elf.pageCount elf.phnum ≤ managedPages sites)
    (hfuel : 0x10000001 ≤ fuel) :
    ∃ st' proc', execveSyscall fuel st proc filesz elf = some (st', proc') := by
  obtain ⟨m, rfl⟩ : ∃ m, fuel = m + 1 := ⟨fuel - 1, by omega⟩
  have helf := hproc.elf
  have hanon := hproc.anon_le h hpages hsites
  have hmanaged := count_sum_le sites
  rw [← managedPages] at hmanaged
  have hn : n ≤ 64000000 := by omega
  have hround : pageRoundDown 0x400000 = 0x400000 ∧ pageRoundDown 0x800000 = 0x800000 := by decide
  have hscratch : add64 0x800000 filesz = 0x800000 + filesz := add64_eq (by omega)
  have hfree₁ : ∃ st₁, st.freeRegion (m + 1) proc.cr3 0x400000 proc.elfEnd.toNat = some st₁ :=
    PageState.freeRegion_some (by omega) (by rw [hround.1]; omega)
  obtain ⟨st₁, hfree₁⟩ := hfree₁
  obtain ⟨own₁, hpages₁, h₁, hfrees₁⟩ := h.freeRegion hpages hphys hroot (by omega) hfree₁
  have hanon' : proc.anonAllocateEnd ≤ pageRoundDown 0x800000 + m * 0x1000 := by
    rw [hround.2]
    exact Nat.le_trans hanon (Nat.add_le_add_left (Nat.mul_le_mul_right _ (by omega)) _)
  have hfree₂ : ∃ st₂, st₁.freeRegion (m + 1) proc.cr3 0x800000 proc.anonAllocateEnd = some st₂ :=
    PageState.freeRegion_some hproc.below hanon'
  obtain ⟨st₂, hfree₂⟩ := hfree₂
  obtain ⟨own₂, hpages₂, h₂, hfrees₂⟩ := h₁.freeRegion hpages₁ hphys hroot (by omega) hfree₂
  have hlength₁ := hfrees₁.length_le hpages₁
  have hlength₂ := hfrees₂.length_le hpages₂
  obtain ⟨st₃, hallocate, hlength₃⟩ := h₂.allocateRegion_some hpages₂ hphys hroot
    (show 0x800000 + filesz ≤ 0x800000000000 by omega) (show PageFlags 3 by decide)
    (show _ ≤ pageRoundDown 0x800000 + n * 0x1000 by rw [hround.2]; omega)
    (show n ≤ m by omega) (by omega)
  obtain ⟨own₃, hpages₃, h₃, hall⟩ :=
    h₂.allocateRegion hpages₂ hphys hroot (by omega) (by decide) hallocate
  rw [hround.2] at hall
  obtain ⟨st₄, hcopy⟩ := copyToUser_some h₃ hpages₃ hphys hroot elf
    (show 0x800000 + filesz ≤ _ by omega) fun k hk =>
      ⟨⟨by omega, by omega⟩, hall.mapped _ ⟨by omega, by omega, by omega⟩⟩
  obtain ⟨hremaps₄, hallocated₄, -⟩ :=
    h₃.copyToUser hpages₃ hphys hroot (show 0x800000 + filesz ≤ _ by omega) hcopy
  obtain ⟨st₅, elfEnd, hload, -⟩ := mapPrograms_some hremaps₄.tables hremaps₄.pages hphys hroot
    hfile (fun i hi hload hpos => Or.inr (hcounted i hi hload hpos)) (Nat.le_refl _)
    (by rw [hallocated₄]; omega)
  have hfree₃ : ∃ st₆, st₅.freeRegion (m + 1) proc.cr3 0x800000 (0x800000 + filesz) = some st₆ :=
    PageState.freeRegion_some (by omega) (by rw [hround.2]; omega)
  obtain ⟨st₆, hfree₃⟩ := hfree₃
  refine ⟨st₆, { proc with elfEnd := elfEnd, anonAllocateEnd := 0x800000 }, ?_⟩
  simp only [execveSyscall, hfree₁, hfree₂, hscratch, hallocate, hcopy, mapElf, hload, hfree₃,
    Option.bind_some, Option.map_some]

end Loading

/-- Every path is a file of 64 zeros. -/
def zeroFiles : Nat → FsOperations := fun _ => readOnlyFiles fun _ => 64

def rootMount : List Mountpoint := [⟨0x1000, 0, rootPath, 1⟩]

theorem zeroFiles_open : vfsOpen zeroFiles rootMount fileAB 0 = some (⟨fileAB, 0, 64⟩, 1) := by
  decide

def zeroElf : ElfImage := fun _ => 0

theorem zeroFiles_copy :
    elfCopy (vfsRead zeroFiles rootMount ⟨fileAB, 0, 64⟩ 64).2.2 zeroElf = zeroElf := by
  have hread : (vfsRead zeroFiles rootMount ⟨fileAB, 0, 64⟩ 64).2.2 = List.replicate 64 0 := by
    decide
  funext k
  rw [hread, elfCopy, List.getElem?_replicate]
  split <;> rfl

theorem zeroElf_empty (i : Nat) : ¬i < zeroElf.phnum := Nat.not_lt_zero i

theorem zeroElf_loadable : zeroElf.Loadable 64 := by
  exact ⟨by decide, by decide, fun i hi => absurd hi (zeroElf_empty i),
    fun i hi => absurd hi (zeroElf_empty i), fun i hi => absurd hi (zeroElf_empty i),
    fun i hi => absurd hi (zeroElf_empty i)⟩

theorem zeroElf_not_wellFormed : ¬zeroElf.WellFormed 64 := by
  intro hfile
  have hmagic := hfile.magic
  revert hmagic
  decide

/-- A file without program headers leaves a process without a program. -/
theorem execveSyscall_zeroElf {fuel filesz : Nat} {st st' : PageState} {proc proc' : UserProcess}
    (hcall : execveSyscall fuel st proc filesz zeroElf = some (st', proc')) : proc'.elfEnd = 0 := by
  obtain ⟨st₁, -, hcall⟩ := Option.bind_eq_some_iff.mp hcall
  obtain ⟨st₂, -, hcall⟩ := Option.bind_eq_some_iff.mp hcall
  obtain ⟨st₃, -, hcall⟩ := Option.bind_eq_some_iff.mp hcall
  obtain ⟨st₄, -, hcall⟩ := Option.bind_eq_some_iff.mp hcall
  obtain ⟨⟨st₅, elfEnd⟩, hload, hcall⟩ := Option.bind_eq_some_iff.mp hcall
  obtain ⟨st₆, -, heq⟩ := Option.map_eq_some_iff.mp hcall
  obtain ⟨-, rfl⟩ := Prod.mk.inj heq
  have hnone : mapElf st₄ proc.cr3 zeroElf = some (st₄, 0) := rfl
  rw [hnone] at hload
  exact (Prod.mk.inj (Option.some.inj hload)).2.symm

theorem bootElf_loadable : bootElf.Loadable 120 := by
  obtain ⟨hphnum, hprogram⟩ := bootElf_program
  have honly : ∀ i < bootElf.phnum, i = 0 := fun i hi => by omega
  refine ⟨by decide, by decide, fun i hi _ => ?_, fun i hi _ => ?_, fun i hi _ => ?_,
    fun i hi j hj hne => absurd ((honly i hi).trans (honly j hj).symm) hne⟩
  · rw [honly i hi, hprogram]
    decide
  · rw [honly i hi, hprogram]
    decide
  · rw [honly i hi, hprogram]
    decide

/-- The program of the first process is mapped. -/
theorem enterRing3Init_page {fuel cr3 : Nat} {sites : List Site} {st st' : PageState}
    {init : UserProcess} (hinit : SpaceInit sites [cr3] st)
    (hstart : enterRing3Init fuel st ⟨cr3, 0, 0x800000⟩ bootElf = some (st', init)) :
    ∃ p, PageAt st'.mem cr3 0x400000 p := by
  obtain ⟨own, h⟩ := hinit.inv.tables
  have hroot : cr3 ∈ [cr3] := List.mem_singleton.mpr rfl
  obtain ⟨st₁, hstack, hstart⟩ := Option.bind_eq_some_iff.mp hstart
  obtain ⟨⟨st₂, elfEnd⟩, hload, heq⟩ := Option.map_eq_some_iff.mp hstart
  obtain ⟨rfl, -⟩ := Prod.mk.inj heq
  obtain ⟨own₁, hpages₁, h₁, -⟩ :=
    h.allocateRegion hinit.pages hinit.physical hroot (by decide) (by decide) hstack
  obtain ⟨own₂, hremaps, -, hholds, -⟩ :=
    mapPrograms_holds h₁ hpages₁ hinit.physical hroot bootElf_loadable (Nat.le_refl _) hload
  have hfirst := hholds 0 (by rw [bootElf_program.1]; decide)
  rw [bootElf_program.2] at hfirst
  obtain ⟨c, hmaps, -⟩ := hfirst rfl 0 (by decide)
  exact ⟨c, (hremaps.tables.pageAt_iff hremaps.pages hinit.physical hroot (by decide)).mpr hmaps⟩

/-- The first process can execute a file of 64 zeros. -/
theorem bootProcess_zeroElf : ∃ sites st st₁ st' proc', SpaceInit sites [0x1000] st ∧
    sites.length ≤ 0x100 ∧
    enterRing3Init 0x10000001 st ⟨0x1000, 0, 0x800000⟩ bootElf =
      some (st₁, ⟨0x1000, 0x401800, 0x800000⟩) ∧
    execveSyscall 0x10000001 st₁ ⟨0x1000, 0x401800, 0x800000⟩ 64 zeroElf =
      some (st', proc') := by
  obtain ⟨sites, st, st₁, hinit, hsites, hstart, hlength₁⟩ := bootProcess
  have hphys := hinit.physical
  obtain ⟨own₁, h₁⟩ := enterRing3Init_inv hinit bootElf_inside hstart
  obtain ⟨hroot, hproc⟩ := h₁.procs _ List.mem_cons_self
  have hfree : st₁.allocated.length + 4 * 1 + 4 * zeroElf.pageCount zeroElf.phnum ≤
      managedPages sites := by
    show st₁.allocated.length + 4 ≤ managedPages sites
    omega
  obtain ⟨st', proc', hcall⟩ := h₁.tables.execveSyscall_some h₁.pages hphys hsites hroot hproc
    zeroElf_loadable (fun i hi => absurd hi (zeroElf_empty i)) (show 64 ≤ 1 * 0x1000 by decide)
    hfree (show 0x10000001 ≤ 0x10000001 from Nat.le_refl _)
  exact ⟨sites, st, st₁, st', proc', hinit, hsites, hstart, hcall⟩

/-- `execve_syscall` on a file of zeros by the first process: the program that called it is
gone, and the jump goes to the address 0. -/
theorem zeroFiles_entered : ∃ sites st st₁ proc st' proc', SpaceInit sites [0x1000] st ∧
    enterRing3Init 0x10000001 st ⟨0x1000, 0, 0x800000⟩ bootElf = some (st₁, proc) ∧
    vfsOpen zeroFiles rootMount fileAB 0 = some (⟨fileAB, 0, 64⟩, 1) ∧
    ¬(elfCopy (vfsRead zeroFiles rootMount ⟨fileAB, 0, 64⟩ 64).2.2 zeroElf).WellFormed 64 ∧
    execveCall zeroFiles rootMount 0x10000001 st₁ proc fileAB zeroElf =
      some (.entered st' proc' 0) ∧
    (∃ p, PageAt st₁.mem 0x1000 0x400000 p) ∧ ∀ p, ¬PageAt st'.mem 0x1000 0x400000 p := by
  obtain ⟨sites, st, st₁, st', proc', hinit, hsites, hstart, hcall⟩ := bootProcess_zeroElf
  have hphys := hinit.physical
  obtain ⟨own₁, h₁⟩ := enterRing3Init_inv hinit bootElf_inside hstart
  obtain ⟨hroot, hproc⟩ := h₁.procs _ List.mem_cons_self
  refine ⟨sites, st, st₁, _, st', proc', hinit, hstart, zeroFiles_open, ?_, ?_,
    enterRing3Init_page hinit hstart, fun p hp => ?_⟩
  · rw [zeroFiles_copy]
    exact zeroElf_not_wellFormed
  · have hpath : ¬fileAB.length + 1 > 0x2000 := by decide
    simp only [execveCall, zeroFiles_open, if_neg hpath, zeroFiles_copy, hcall, Option.map_some]
    rfl
  · obtain ⟨hcr3, own', hremaps, hproc'⟩ := execveSyscall_inv h₁.tables h₁.pages hphys hsites hroot
      hproc (fun i hi => absurd hi (zeroElf_empty i)) hcall
    have hmaps := (hremaps.tables.pageAt_iff hremaps.pages hphys hroot (by decide)).mp hp
    have hend := execveSyscall_zeroElf hcall
    rcases hproc'.recorded _ (mem_mappedPages hmaps (by decide)) with hin | hin | hin
    · exact absurd hin.2.1 (by decide)
    · rw [hend] at hin
      exact absurd hin.2.1 (by decide)
    · exact absurd hin.1 (by decide)

end BayosKernel
