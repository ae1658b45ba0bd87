import BayosKernel.ElfLoading
import BayosKernel.Preemption

/-!
The value that `map_elf` returns. It is kept in 32 bits, and so is `elf_end`, from which
`exit_syscall`, `execve_syscall` and `fork_syscall` take the extent of the image.
-/

namespace BayosKernel

open Foundation

/-- The turns of the inner loop of `map_elf` for a segment. -/
def ElfProgram.turns (ph : ElfProgram) : Nat :=
  (int32 ((pageRoundDown (sub64 (add64 ph.memsz 0x1000) 1) / 0x1000 : Nat) : Int)).toNat

/-- Every segment ends at or below `elf_end`, and every page that the loader maps at or above
0x400000 lies below it. -/
structure ElfImage.EndsBelow (elf : ElfImage) (elfEnd : Nat) : Prop where
  segments : ∀ i < elf.phnum, (elf.program i).type = 1 →
    (elf.program i).vaddr + (elf.program i).memsz ≤ elfEnd
  pages : ∀ i < elf.phnum, (elf.program i).type = 1 → ∀ j < (elf.program i).turns,
    0x400000 ≤ segmentPage (elf.program i).vaddr j →
      pageRoundDown (segmentPage (elf.program i).vaddr j) < elfEnd

section

variable {st st' : PageState} {elf : ElfImage} {cr3 n : Nat} {highest : UInt32}

/-- The value depends on the program headers alone. -/
theorem mapPrograms_highest (hrun : mapPrograms elf cr3 st n = some (st', highest)) :
    highest = highestAddress elf n := by
  induction n generalizing st' highest with
  | zero =>
      cases hrun
      rfl
  | succ n ih =>
      obtain ⟨⟨st₁, highest₁⟩, hfirst, hlast⟩ := Option.bind_eq_some_iff.mp hrun
      obtain rfl := ih hfirst
      simp only at hlast
      by_cases hload : (elf.program n).type = 1
      · rw [if_pos hload] at hlast
        obtain ⟨st₂, -, heq⟩ := Option.map_eq_some_iff.mp hlast
        obtain ⟨-, rfl⟩ := Prod.mk.inj heq
        simp only [highestAddress, hload, true_and]
      · rw [if_neg hload] at hlast
        cases hlast
        simp only [highestAddress, hload, false_and, if_false]

theorem highestAddress_succ (hload : (elf.program n).type = 1)
    (hsum : (elf.program n).vaddr + (elf.program n).memsz < 0x100000000) :
    (highestAddress elf (n + 1)).toNat =
      max (highestAddress elf n).toNat ((elf.program n).vaddr + (elf.program n).memsz) := by
  have hlast : add64 (elf.program n).vaddr (elf.program n).memsz =
      (elf.program n).vaddr + (elf.program n).memsz := add64_eq (by omega)
  simp only [highestAddress, hload, true_and, hlast]
  exact highest_max hsum

/-- The maximum is right as long as no sum needs more than 32 bits. -/
theorem le_highestAddress (hsmall : ∀ i < n, (elf.program i).type = 1 →
      (elf.program i).vaddr + (elf.program i).memsz < 0x100000000) {i : Nat} (hi : i < n)
    (hload : (elf.program i).type = 1) :
    (elf.program i).vaddr + (elf.program i).memsz ≤ (highestAddress elf n).toNat := by
  induction n with
  | zero => omega
  | succ n ih =>
      have hbefore : i < n → (elf.program i).vaddr + (elf.program i).memsz ≤
          (highestAddress elf n).toNat := fun hi => ih (fun k hk => hsmall k (by omega)) hi
      by_cases hlast : (elf.program n).type = 1
      · rw [highestAddress_succ hlast (hsmall n (Nat.lt_succ_self n) hlast)]
        rcases Nat.lt_succ_iff_lt_or_eq.mp hi with hi | rfl
        · exact Nat.le_trans (hbefore hi) (Nat.le_max_left _ _)
        · exact Nat.le_max_right _ _
      · have hne : i ≠ n := fun heq => hlast (heq ▸ hload)
        simp only [highestAddress, hlast, false_and, if_false]
        exact hbefore (by omega)

end

/-- The pages of a segment of at most 2 GiB begin below its end. -/
theorem segmentPage_lt {ph : ElfProgram} {j : Nat} (hmemsz : ph.memsz ≤ 0x80000000)
    (hend : ph.vaddr + ph.memsz < 0x800000000000) (hj : j < ph.turns) :
    segmentPage ph.vaddr j < ph.vaddr + ph.memsz := by
  rw [ElfProgram.turns, segment_count hmemsz, Int.toNat_natCast] at hj
  rw [segmentPage_eq (by omega) (by omega)]
  omega

/-- With more than 2 GiB the product in the address becomes negative, and the page lies in
the kernel half. -/
theorem segmentPage_far {ph : ElfProgram} (hmemsz : 0x80000000 < ph.memsz)
    (hend : ph.vaddr + ph.memsz < 0x100000000) :
    0x80000 < ph.turns ∧ 0x8000000000000000 ≤ segmentPage ph.vaddr 0x80000 := by
  constructor
  · rw [ElfProgram.turns, add64_eq (by omega), sub64_eq (by omega) (by omega),
      pageRoundDown_eq (by omega), int32_of_range (by omega) (by omega)]
    omega
  · have hproduct : sizeT (int32 ((0x80000 * 0x1000 : Nat) : Int)) = 0xffffffff80000000 := by decide
    rw [segmentPage, hproduct, add64_eq (by omega)]
    omega

/-- `elf_end` covers the image if and only if every segment ends below 4 GiB and is not larger
than 2 GiB. -/
theorem mapElf_endsBelow_iff {st st' : PageState} {elf : ElfImage} {cr3 : Nat} {elfEnd : UInt32}
    (hends : ∀ i < elf.phnum, (elf.program i).type = 1 →
      (elf.program i).vaddr + (elf.program i).memsz < 0x800000000000)
    (hrun : mapElf st cr3 elf = some (st', elfEnd)) :
    elf.EndsBelow elfEnd.toNat ↔ ∀ i < elf.phnum, (elf.program i).type = 1 →
      (elf.program i).vaddr + (elf.program i).memsz < 0x100000000 ∧
        (elf.program i).memsz ≤ 0x80000000 := by
  have hlt := elfEnd.toNat_lt
  constructor
  · rintro ⟨hsegments, hpages⟩ i hi hload
    have hsum : (elf.program i).vaddr + (elf.program i).memsz < 0x100000000 :=
      Nat.lt_of_le_of_lt (hsegments i hi hload) hlt
    refine ⟨hsum, ?_⟩
    by_contra hlarge
    obtain ⟨hturns, hfar⟩ := segmentPage_far (by omega) hsum
    have hwrap : segmentPage (elf.program i).vaddr 0x80000 < 0x10000000000000000 :=
      Nat.mod_lt _ (by decide)
    have hbelow := hpages i hi hload 0x80000 hturns (by omega)
    rw [pageRoundDown_eq hwrap] at hbelow
    omega
  · intro hsmall
    rw [mapPrograms_highest hrun]
    have hsegments : ∀ i < elf.phnum, (elf.program i).type = 1 →
        (elf.program i).vaddr + (elf.program i).memsz ≤ (highestAddress elf elf.phnum).toNat :=
      fun i hi hload => le_highestAddress (fun k hk hk' => (hsmall k hk hk').1) hi hload
    refine ⟨hsegments, fun i hi hload j hj _ => ?_⟩
    have hpage := segmentPage_lt (hsmall i hi hload).2 (hends i hi hload) hj
    have hend := hends i hi hload
    have hbelow := hsegments i hi hload
    rw [pageRoundDown_eq (by omega)]
    omega

/-- One segment of a page that ends at a multiple of 2^24, the first four bytes of it from
the file. -/
def topElf (top : UInt8) : ElfImage := fun k =>
  ([(0, 0x7f), (1, 0x45), (2, 0x4c), (3, 0x46), (4, 2), (32, 64), (56, 1), (64, 1), (81, 0xf0),
    (82, 0xff), (83, top), (96, 4), (105, 0x10)].lookup k).getD 0

theorem topElf_program (top : UInt8) : (topElf top).phnum = 1 ∧
    (topElf top).program 0 = ⟨1, 0, 0x1000000 * top.toNat + 0xfff000, 4, 0x1000⟩ := by
  refine ⟨rfl, ?_⟩
  have hphoff : ByteMemory.load (topElf top) 8 32 = 64 := by
    simp [ByteMemory.load, topElf, List.lookup_cons]
  simp only [ElfImage.program, hphoff]
  simp [add64, ByteMemory.load, topElf, List.lookup_cons]
  omega

theorem topElf_loads (top : UInt8) : ∃ sites st st', SpaceInit sites [0x1000] st ∧
    mapElf st 0x1000 (topElf top) =
      some (st', UInt32.ofNat (0x1000000 * top.toNat + 0x1000000)) := by
  obtain ⟨st, sites, hinit, -, hcount, hallocated⟩ := bootSpace
  obtain ⟨hphnum, hprogram⟩ := topElf_program top
  obtain ⟨own, h⟩ := hinit.inv.tables
  have htop := top.toNat_lt
  have hload : ∃ st', loadSegment (topElf top) 0x1000 st
      ⟨1, 0, 0x1000000 * top.toNat + 0xfff000, 4, 0x1000⟩ = some st' ∧
        st'.allocated.length ≤ st.allocated.length + 4 * ((0x1000 + 0xfff) / 0x1000) :=
    loadSegment_some (topElf top) h hinit.pages hinit.physical (List.mem_singleton.mpr rfl)
      (show 0x1000 ≤ 0x80000000 by decide) (by simp only; omega) (show 4 ≤ 0x1000 by decide)
      (fun k hk => Or.inr (mem_segmentPages (by simp only; omega) hk))
      (by simp only [hallocated, hcount, List.length_nil]; omega)
  obtain ⟨st', hload, -⟩ := hload
  refine ⟨sites, st, st', hinit, ?_⟩
  rw [mapElf_single hphnum hprogram rfl (by simp only; omega) (by simp only; omega), hload]
  rfl

/-- A segment that ends at 16 MiB. -/
theorem mapElf_endsBelow_iff_low : ∃ sites st st', SpaceInit sites [0x1000] st ∧
    mapElf st 0x1000 (topElf 0) = some (st', 0x1000000) ∧ (topElf 0).EndsBelow 0x1000000 := by
  obtain ⟨sites, st, st', hinit, hrun⟩ := topElf_loads 0
  obtain ⟨hphnum, hprogram⟩ := topElf_program 0
  have honly : ∀ i < (topElf 0).phnum, i = 0 := fun i hi => by omega
  refine ⟨sites, st, st', hinit, hrun, (mapElf_endsBelow_iff ?_ hrun).mpr ?_⟩
  · intro i hi _
    rw [honly i hi, hprogram]
    decide
  · intro i hi _
    rw [honly i hi, hprogram]
    decide

/-- For a segment that ends at 4 GiB `map_elf` returns 0. -/
theorem highSegment_notBelow : ∃ sites st st', SpaceInit sites [0x1000] st ∧
    mapElf st 0x1000 (topElf 0xff) = some (st', 0) ∧
    (∀ i < (topElf 0xff).phnum, (topElf 0xff).program i =
      ⟨1, 0, 0xfffff000, 4, 0x1000⟩) ∧ ¬(topElf 0xff).EndsBelow 0 := by
  obtain ⟨sites, st, st', hinit, hrun⟩ := topElf_loads 0xff
  obtain ⟨hphnum, hprogram⟩ := topElf_program 0xff
  refine ⟨sites, st, st', hinit, hrun, fun i hi => ?_, fun hbelow => ?_⟩
  · rw [hphnum, Nat.lt_one_iff] at hi
    rw [hi]
    exact hprogram
  · have hfirst := hbelow.segments 0 (by rw [hphnum]; decide)
    rw [hprogram] at hfirst
    exact absurd (hfirst rfl) (by decide)

end BayosKernel
