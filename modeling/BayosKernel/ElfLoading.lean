import BayosKernel.MapMemoryPage

/-!
`map_elf` on the segments of a program: which bytes it leaves where they belong.
The pages of a segment are counted from its size, and its bytes are stored from
its first address on, so that the last page may be missing.
-/

namespace BayosKernel

open Foundation

/-- The byte of a user half at `va`. -/
def ByteAt (m : ByteMemory) (own : Nat → Option Role) (cr3 va : Nat) (b : UInt8) : Prop :=
  ∃ c, Maps own cr3 va c ∧ m (c + va % 0x1000) = b

section Bytes

variable {st st' : PageState} {sites : List Site} {roots : List Nat} {own own' : Nat → Option Role}
  {cr3 va : Nat}

/-- Mapping more pages changes no byte. -/
theorem Grows.byteAt {b : UInt8} (hgrows : Grows sites st st' own own')
    (hpages' : PageInv st' sites) (h' : TableInv sites st' roots own')
    (hbyte : ByteAt st.mem own cr3 va b) : ByteAt st'.mem own' cr3 va b := by
  obtain ⟨c, hmaps, rfl⟩ := hbyte
  have hmaps' : Maps own' cr3 va c := hmaps.mono hgrows.keeps
  obtain ⟨pt, i, hc⟩ := hmaps'.owned
  have hdata : ∀ r, own' c = some r → r.height = 0 := by
    intro r hr
    rw [hc] at hr
    cases hr
    rfl
  have hlt : va % 0x1000 < 0x1000 := Nat.mod_lt _ (by decide)
  exact ⟨c, hmaps', hgrows.data c (h'.frame hpages' hc) hdata _ (Nat.le_add_right _ _)
    (Nat.add_lt_add_left hlt c)⟩

namespace TableInv

/-- A store changes one byte. -/
theorem write_byteAt (h : TableInv sites st roots own) (hpages : PageInv st sites)
    (hphys : Physical sites) (hroot : cr3 ∈ roots) (hva : va < 0x800000000000) {v : UInt8}
    (hwrite : st.write cr3 va v = some st') :
    ByteAt st'.mem own cr3 va v ∧ ∀ va' < 0x800000000000, va' ≠ va →
      ∀ b, ByteAt st.mem own cr3 va' b → ByteAt st'.mem own cr3 va' b := by
  obtain ⟨c, hmaps, rfl, -⟩ := h.write hpages hphys hroot hva hwrite
  refine ⟨⟨c, hmaps, Function.update_self ..⟩, ?_⟩
  rintro va' hva' hne b ⟨c', hmaps', rfl⟩
  refine ⟨c', hmaps', Function.update_of_ne (fun hsame => hne ?_) ..⟩
  obtain ⟨pt, i, hc⟩ := hmaps.owned
  obtain ⟨pt', i', hc'⟩ := hmaps'.owned
  have hcalign := (h.frame hpages hc).aligned
  have hcalign' := (h.frame hpages hc').aligned
  have hpage : c' = c := by omega
  rw [hpage] at hmaps'
  have hindex := (hmaps.injective hmaps' (by omega) (by omega)).2
  omega

/-- A copy to user memory changes its own bytes only. -/
theorem copyToUser_byteAt (h : TableInv sites st roots own) (hpages : PageInv st sites)
    (hphys : Physical sites) (hroot : cr3 ∈ roots) {n : Nat} {bytes : Nat → UInt8}
    (hva : va + n ≤ 0x800000000000) (hrun : st.copyToUser cr3 va bytes n = some st') :
    (∀ k < n, ByteAt st'.mem own cr3 (va + k) (bytes k)) ∧
      ∀ va' < 0x800000000000, (va' < va ∨ va + n ≤ va') →
        ∀ b, ByteAt st.mem own cr3 va' b → ByteAt st'.mem own cr3 va' b := by
  induction n generalizing st' with
  | zero =>
      cases hrun
      exact ⟨by simp, fun va' hva' hout b hb => hb⟩
  | succ n ih =>
      obtain ⟨st₁, hcopy, hwrite⟩ := Option.bind_eq_some_iff.mp hrun
      obtain ⟨hremaps, -⟩ := h.copyToUser hpages hphys hroot (by omega) hcopy
      obtain ⟨hbytes, hothers⟩ := ih (by omega) hcopy
      rw [add64_eq (by omega)] at hwrite
      obtain ⟨hlast, hkeep⟩ :=
        hremaps.tables.write_byteAt hremaps.pages hphys hroot (by omega) hwrite
      refine ⟨fun k hk => ?_, fun va' hva' hout b hb => ?_⟩
      · rcases Nat.lt_succ_iff_lt_or_eq.mp hk with hk | rfl
        · exact hkeep _ (by omega) (by omega) _ (hbytes k hk)
        · exact hlast
      · exact hkeep va' hva' (by omega) b (hothers va' hva' (by omega) b hb)

end TableInv

end Bytes

namespace ElfImage

/-- The byte of the segment at `p_vaddr + k`: of the file, and zero behind `p_filesz`. -/
def segmentByte (elf : ElfImage) (ph : ElfProgram) (k : Nat) : UInt8 :=
  if k < ph.filesz then elf (add64 ph.offset k) else 0

/-- The pages that the first `n` turns of the loop of `map_elf` map. -/
def loadedPages (elf : ElfImage) (n : Nat) : Set Nat :=
  {va | ∃ i < n, (elf.program i).type = 1 ∧
    va ∈ segmentPages (elf.program i).vaddr (((elf.program i).memsz + 0xfff) / 0x1000)}

/-- How many they are, with those that are mapped twice. -/
def pageCount (elf : ElfImage) : Nat → Nat
  | 0 => 0
  | n + 1 =>
      elf.pageCount n +
        if (elf.program n).type = 1 then ((elf.program n).memsz + 0xfff) / 0x1000 else 0

/-- An image of `size` bytes with its program headers and segments inside, whose
segments lie apart between the stack and the anonymous memory. -/
structure Loadable (elf : ElfImage) (size : Nat) : Prop where
  size_le : size ≤ 0x10000000000000000
  headers : ByteMemory.load elf 8 32 + 56 * elf.phnum ≤ size
  contents : ∀ i < elf.phnum, (elf.program i).type = 1 →
    (elf.program i).offset + (elf.program i).filesz ≤ size
  filesz_le : ∀ i < elf.phnum, (elf.program i).type = 1 →
    (elf.program i).filesz ≤ (elf.program i).memsz
  inside : ∀ i < elf.phnum, (elf.program i).type = 1 →
    0x400000 ≤ (elf.program i).vaddr ∧ (elf.program i).vaddr + (elf.program i).memsz ≤ 0x800000
  disjoint : ∀ i < elf.phnum, ∀ j < elf.phnum, i ≠ j →
    (elf.program i).type = 1 → (elf.program j).type = 1 →
    ∀ k < (elf.program i).memsz, ∀ l < (elf.program j).memsz,
      (elf.program i).vaddr + k ≠ (elf.program j).vaddr + l

/-- The memory holds the bytes of the first `n` segments. -/
def Holds (elf : ElfImage) (m : ByteMemory) (own : Nat → Option Role) (cr3 n : Nat) : Prop :=
  ∀ i < n, (elf.program i).type = 1 → ∀ k < (elf.program i).memsz,
    ByteAt m own cr3 ((elf.program i).vaddr + k) (elf.segmentByte (elf.program i) k)

/-- The page of the last byte of every segment is mapped before, or by the turns of the
loop up to its own. -/
def Covered (elf : ElfImage) (m : ByteMemory) (cr3 : Nat) : Prop :=
  ∀ i < elf.phnum, (elf.program i).type = 1 → 0 < (elf.program i).memsz →
    (∃ p, PageAt m cr3 ((elf.program i).vaddr + ((elf.program i).memsz - 1)) p) ∨
      ((elf.program i).vaddr + ((elf.program i).memsz - 1)) / 0x1000 * 0x1000 ∈
        elf.loadedPages (i + 1)

/-- `map_elf` comes back, and the memory holds every segment: its bytes of the file, and
zeros behind them. -/
def Loads (elf : ElfImage) (st : PageState) (cr3 : Nat) : Prop :=
  ∃ st' highest, mapElf st cr3 elf = some (st', highest) ∧
    ∀ i < elf.phnum, (elf.program i).type = 1 → ∀ k < (elf.program i).memsz,
      ∃ p, PageAt st'.mem cr3 ((elf.program i).vaddr + k) p ∧
        st'.mem (p + ((elf.program i).vaddr + k) % 0x1000) =
          if k < (elf.program i).filesz then elf ((elf.program i).offset + k) else 0

theorem loadedPages_succ (elf : ElfImage) (n : Nat) : elf.loadedPages (n + 1) =
    elf.loadedPages n ∪ if (elf.program n).type = 1 then
      segmentPages (elf.program n).vaddr (((elf.program n).memsz + 0xfff) / 0x1000) else ∅ := by
  ext va
  simp only [loadedPages, Set.mem_ofPred_eq, Set.mem_union, Nat.lt_succ_iff_lt_or_eq]
  constructor
  · rintro ⟨i, hi | rfl, hload, hva⟩
    · exact Or.inl ⟨i, hi, hload, hva⟩
    · exact Or.inr (by rwa [if_pos hload])
  · rintro (⟨i, hi, hload, hva⟩ | hva)
    · exact ⟨i, Or.inl hi, hload, hva⟩
    · by_cases hload : (elf.program n).type = 1
      · rw [if_pos hload] at hva
        exact ⟨n, Or.inr rfl, hload, hva⟩
      · rw [if_neg hload] at hva
        exact hva.elim

end ElfImage

/-- Only the last page of a segment can be missing. -/
theorem segmentPages_or_last (vaddr : Nat) {memsz k : Nat} (hk : k < memsz) :
    (vaddr + k) / 0x1000 * 0x1000 ∈ segmentPages vaddr ((memsz + 0xfff) / 0x1000) ∨
      (vaddr + k) / 0x1000 * 0x1000 = (vaddr + (memsz - 1)) / 0x1000 * 0x1000 := by
  by_cases hin : (vaddr % 0x1000 + k) / 0x1000 < (memsz + 0xfff) / 0x1000
  · exact Or.inl ⟨(vaddr % 0x1000 + k) / 0x1000, hin, by omega⟩
  · right
    omega

section Segments

variable {st st' : PageState} {sites : List Site} {roots : List Nat} {own : Nat → Option Role}
  {elf : ElfImage} {cr3 : Nat}

/-- A segment that is loaded has its bytes; those of other addresses stay. -/
theorem loadSegment_byteAt {ph : ElfProgram} (h : TableInv sites st roots own)
    (hpages : PageInv st sites) (hphys : Physical sites) (hroot : cr3 ∈ roots)
    (hin : ph.vaddr + ph.memsz ≤ 0x800000) (hfilesz : ph.filesz ≤ ph.memsz)
    (hrun : loadSegment elf cr3 st ph = some st') :
    ∃ own', Remaps sites roots st' own own' cr3 ∧
      mappedPages own' cr3 =
        mappedPages own cr3 ∪ segmentPages ph.vaddr ((ph.memsz + 0xfff) / 0x1000) ∧
      (∀ k < ph.memsz, ByteAt st'.mem own' cr3 (ph.vaddr + k) (elf.segmentByte ph k)) ∧
      ∀ va < 0x800000000000, (va < ph.vaddr ∨ ph.vaddr + ph.memsz ≤ va) →
        ∀ b, ByteAt st.mem own cr3 va b → ByteAt st'.mem own' cr3 va b := by
  rw [loadSegment_eq elf cr3 st (by omega) (by omega)] at hrun
  obtain ⟨st₁, hmap, hrun⟩ := Option.bind_eq_some_iff.mp hrun
  obtain ⟨st₂, hcopy, hzero⟩ := Option.bind_eq_some_iff.mp hrun
  obtain ⟨own₁, hremaps₁, hgrows, hmapped⟩ :=
    mapSegment_remaps h hpages hphys hroot (by omega) (by omega) hmap
  have hfile : ph.vaddr + ph.filesz ≤ 0x800000000000 := by omega
  have hend : ph.vaddr + ph.filesz + (ph.memsz - ph.filesz) ≤ 0x800000000000 := by omega
  obtain ⟨hremaps₂, -⟩ := hremaps₁.tables.copyToUser hremaps₁.pages hphys hroot hfile hcopy
  obtain ⟨hcopied, hkeep₂⟩ :=
    hremaps₁.tables.copyToUser_byteAt hremaps₁.pages hphys hroot hfile hcopy
  obtain ⟨hremaps₃, -⟩ := hremaps₂.tables.copyToUser hremaps₂.pages hphys hroot hend hzero
  obtain ⟨hzeroed, hkeep₃⟩ :=
    hremaps₂.tables.copyToUser_byteAt hremaps₂.pages hphys hroot hend hzero
  refine ⟨own₁, hremaps₁.trans hremaps₃, hmapped, fun k hk => ?_, fun va hva hout b hb => ?_⟩
  · rw [ElfImage.segmentByte]
    by_cases hk' : k < ph.filesz
    · rw [if_pos hk']
      exact hkeep₃ _ (by omega) (by omega) _ (hcopied k hk')
    · have hback := hzeroed (k - ph.filesz) (by omega)
      rw [show ph.vaddr + ph.filesz + (k - ph.filesz) = ph.vaddr + k by omega] at hback
      rwa [if_neg hk']
  · have hb₁ := hgrows.byteAt hremaps₁.pages hremaps₁.tables hb
    exact hkeep₃ va hva (by omega) b (hkeep₂ va hva (by omega) b hb₁)

/-- After `n` turns of the loop of `map_elf`. -/
theorem mapPrograms_holds {size : Nat} {highest : UInt32} (h : TableInv sites st roots own)
    (hpages : PageInv st sites) (hphys : Physical sites) (hroot : cr3 ∈ roots)
    (hfile : elf.Loadable size) {n : Nat} (hn : n ≤ elf.phnum)
    (hrun : mapPrograms elf cr3 st n = some (st', highest)) :
    ∃ own', Remaps sites roots st' own own' cr3 ∧
      mappedPages own' cr3 = mappedPages own cr3 ∪ elf.loadedPages n ∧
      elf.Holds st'.mem own' cr3 n ∧
      ∀ i < n, (elf.program i).type = 1 → ∀ k < (elf.program i).memsz,
        ((elf.program i).vaddr + k) / 0x1000 * 0x1000 ∈
          mappedPages own cr3 ∪ elf.loadedPages (i + 1) := by
  induction n generalizing st' highest with
  | zero =>
      cases hrun
      have hempty : elf.loadedPages 0 = ∅ := by simp [ElfImage.loadedPages]
      exact ⟨own, Remaps.refl hpages h cr3, by rw [hempty, Set.union_empty], by
        simp [ElfImage.Holds], by simp⟩
  | succ n ih =>
      obtain ⟨⟨st₁, highest₁⟩, hfirst, hlast⟩ := Option.bind_eq_some_iff.mp hrun
      obtain ⟨own₁, hremaps₁, hmapped₁, hholds₁, hcovered₁⟩ := ih (by omega) hfirst
      simp only at hlast
      by_cases hload : (elf.program n).type = 1
      · obtain ⟨hvaddr, hend⟩ := hfile.inside n hn hload
        rw [if_pos hload] at hlast
        obtain ⟨st₂, hsegment, heq⟩ := Option.map_eq_some_iff.mp hlast
        obtain ⟨rfl, -⟩ := Prod.mk.inj heq
        obtain ⟨own₂, hremaps₂, hmapped₂, hbytes, hkeep⟩ := loadSegment_byteAt hremaps₁.tables
          hremaps₁.pages hphys hroot hend (hfile.filesz_le n hn hload) hsegment
        have hmapped : mappedPages own₂ cr3 = mappedPages own cr3 ∪ elf.loadedPages (n + 1) := by
          rw [hmapped₂, hmapped₁, elf.loadedPages_succ, if_pos hload, Set.union_assoc]
        refine ⟨own₂, hremaps₁.trans hremaps₂, hmapped, fun i hi hi' k hk => ?_,
          fun i hi hi' k hk => ?_⟩
        · rcases Nat.lt_succ_iff_lt_or_eq.mp hi with hi | rfl
          · have hlow := (hfile.inside i (by omega) hi').2
            -- the segments lie apart: byte `k` of segment `i` is none of segment `n`
            refine hkeep _ (by omega) ?_ _ (hholds₁ i hi hi' k hk)
            by_contra hin
            exact hfile.disjoint i (by omega) n hn (by omega) hi' hload k hk
              ((elf.program i).vaddr + k - (elf.program n).vaddr) (by omega) (by omega)
          · exact hbytes k hk
        · rcases Nat.lt_succ_iff_lt_or_eq.mp hi with hi | rfl
          · exact hcovered₁ i hi hi' k hk
          · obtain ⟨c, hmaps, -⟩ := hbytes k hk
            rw [← hmapped]
            exact mem_mappedPages hmaps (by omega)
      · rw [if_neg hload] at hlast
        cases hlast
        refine ⟨own₁, hremaps₁, ?_, fun i hi hi' => ?_, fun i hi hi' => ?_⟩
        · rw [hmapped₁, elf.loadedPages_succ, if_neg hload, Set.union_empty]
        · have hne : i ≠ n := fun heq => hload (heq ▸ hi')
          exact hholds₁ i (by omega) hi'
        · have hne : i ≠ n := fun heq => hload (heq ▸ hi')
          exact hcovered₁ i (by omega) hi'

/-- The loop of `map_elf` comes to its end where the last pages are there. -/
theorem mapPrograms_some {size : Nat} (h : TableInv sites st roots own)
    (hpages : PageInv st sites) (hphys : Physical sites) (hroot : cr3 ∈ roots)
    (hfile : elf.Loadable size) (hcovered : elf.Covered st.mem cr3) {n : Nat}
    (hn : n ≤ elf.phnum)
    (hfree : st.allocated.length + 4 * elf.pageCount n ≤ managedPages sites) :
    ∃ st' highest, mapPrograms elf cr3 st n = some (st', highest) ∧
      st'.allocated.length ≤ st.allocated.length + 4 * elf.pageCount n := by
  induction n with
  | zero => exact ⟨st, 0, rfl, Nat.le_refl _⟩
  | succ n ih =>
      rw [ElfImage.pageCount] at hfree ⊢
      obtain ⟨st₁, highest₁, hfirst, hlength⟩ := ih (by omega) (by omega)
      obtain ⟨own₁, hremaps₁, hmapped₁, -⟩ :=
        mapPrograms_holds h hpages hphys hroot hfile (by omega) hfirst
      by_cases hload : (elf.program n).type = 1
      · obtain ⟨-, hend⟩ := hfile.inside n hn hload
        rw [if_pos hload] at hfree ⊢
        have hpagesOf : ∀ k < (elf.program n).memsz,
            ((elf.program n).vaddr + k) / 0x1000 * 0x1000 ∈ mappedPages own₁ cr3 ∪
              segmentPages (elf.program n).vaddr (((elf.program n).memsz + 0xfff) / 0x1000) := by
          intro k hk
          rcases segmentPages_or_last (elf.program n).vaddr hk with hin | hlast
          · exact Or.inr hin
          · rw [hlast]
            rcases hcovered n hn hload (by omega) with ⟨p, hp⟩ | hin
            · have hva : (elf.program n).vaddr + ((elf.program n).memsz - 1) < 0x800000000000 := by
                omega
              have hmaps := (h.pageAt_iff hpages hphys hroot hva).mp hp
              rw [hmapped₁]
              exact Or.inl (Or.inl (mem_mappedPages hmaps hva))
            · rw [elf.loadedPages_succ, if_pos hload] at hin
              rw [hmapped₁]
              exact hin.imp_left Or.inr
        obtain ⟨st₂, hsegment, hlength'⟩ := loadSegment_some elf hremaps₁.tables hremaps₁.pages
          hphys hroot (by omega) (by omega) (hfile.filesz_le n hn hload) hpagesOf (by omega)
        have hlast : ∃ highest, mapPrograms elf cr3 st (n + 1) = some (st₂, highest) := by
          rw [mapPrograms, hfirst, Option.bind_some]
          simp only [if_pos hload, hsegment, Option.map_some]
          exact ⟨_, rfl⟩
        obtain ⟨highest, hlast⟩ := hlast
        exact ⟨st₂, highest, hlast, by omega⟩
      · rw [if_neg hload]
        refine ⟨st₁, highest₁, ?_, hlength⟩
        rw [mapPrograms, hfirst, Option.bind_some]
        simp only [if_neg hload]

/-- Without the last page of a segment `map_elf` stores to a page that is not there. -/
theorem ElfImage.Loads.covered {size : Nat} (hphys : Physical sites)
    (hinv : SpaceInv sites roots st) (hroot : cr3 ∈ roots) (hfile : elf.Loadable size)
    (hloads : elf.Loads st cr3) : elf.Covered st.mem cr3 := by
  obtain ⟨own, h⟩ := hinv.tables
  obtain ⟨st', highest, hrun, -⟩ := hloads
  obtain ⟨own', -, -, -, hcovered⟩ :=
    mapPrograms_holds h hinv.pages hphys hroot hfile (Nat.le_refl _) hrun
  intro i hi hload hpos
  obtain ⟨-, hend⟩ := hfile.inside i hi hload
  have hva : (elf.program i).vaddr + ((elf.program i).memsz - 1) < 0x800000000000 := by omega
  refine (hcovered i hi hload _ (Nat.sub_lt hpos Nat.one_pos)).imp_left ?_
  rintro ⟨-, c, hmaps⟩
  exact ⟨c, (h.pageAt_iff hinv.pages hphys hroot hva).mpr (Maps.page.mp hmaps)⟩

end Segments

/-- With frames for its pages, a program is loaded if and only if the page of the last byte
of each segment is mapped before, or counted for it or for an earlier segment. -/
theorem mapElf_loads_iff {sites : List Site} {roots : List Nat} {st : PageState}
    {elf : ElfImage} {cr3 size : Nat} (hphys : Physical sites) (hinv : SpaceInv sites roots st)
    (hroot : cr3 ∈ roots) (hfile : elf.Loadable size)
    (hfree : st.allocated.length + 4 * elf.pageCount elf.phnum ≤ managedPages sites) :
    elf.Loads st cr3 ↔ elf.Covered st.mem cr3 := by
  refine ⟨fun hloads => hloads.covered hphys hinv hroot hfile, fun hcovered => ?_⟩
  obtain ⟨own, h⟩ := hinv.tables
  obtain ⟨st', highest, hrun, -⟩ :=
    mapPrograms_some h hinv.pages hphys hroot hfile hcovered (Nat.le_refl _) hfree
  obtain ⟨own', hremaps, -, hholds, -⟩ :=
    mapPrograms_holds h hinv.pages hphys hroot hfile (Nat.le_refl _) hrun
  refine ⟨st', highest, hrun, fun i hi hload k hk => ?_⟩
  obtain ⟨-, hend⟩ := hfile.inside i hi hload
  obtain ⟨c, hmaps, hbyte⟩ := hholds i hi hload k hk
  refine ⟨c, (hremaps.tables.pageAt_iff hremaps.pages hphys hroot (by omega)).mpr hmaps, ?_⟩
  rw [hbyte, ElfImage.segmentByte]
  by_cases hk' : k < (elf.program i).filesz
  · have hcontents := hfile.contents i hi hload
    have := hfile.size_le
    rw [if_pos hk', if_pos hk', add64_eq (by omega)]
  · rw [if_neg hk', if_neg hk']

/-- One segment of `0x100 * n` bytes at 0x400800, the first four of them from the file. -/
def unalignedElf (n : UInt8) : ElfImage := fun k =>
  ([(0, 0x7f), (1, 0x45), (2, 0x4c), (3, 0x46), (4, 2), (32, 64), (56, 1), (64, 1), (81, 8),
    (82, 0x40), (96, 4), (105, n)].lookup k).getD 0

theorem unalignedElf_program (n : UInt8) : (unalignedElf n).phnum = 1 ∧
    ByteMemory.load (unalignedElf n) 8 32 = 64 ∧
    (unalignedElf n).program 0 = ⟨1, 0, 0x400800, 4, 0x100 * n.toNat⟩ := by
  have hphoff : ByteMemory.load (unalignedElf n) 8 32 = 64 := by
    simp [ByteMemory.load, unalignedElf, List.lookup_cons]
  refine ⟨rfl, hphoff, ?_⟩
  simp [ElfImage.program, add64, ByteMemory.load, unalignedElf, List.lookup_cons]

theorem unalignedElf_loadable {n : UInt8} (hn : 0 < n.toNat) : (unalignedElf n).Loadable 120 := by
  obtain ⟨hphnum, hphoff, hprogram⟩ := unalignedElf_program n
  have hlt := n.toNat_lt
  have honly : ∀ i < (unalignedElf n).phnum, i = 0 := fun i hi => by omega
  refine ⟨by decide, by rw [hphnum, hphoff], fun i hi _ => ?_, fun i hi _ => ?_, fun i hi _ => ?_,
    fun i hi j hj hne => ?_⟩
  · rw [honly i hi, hprogram]
    simp only
    omega
  · rw [honly i hi, hprogram]
    simp only
    omega
  · rw [honly i hi, hprogram]
    simp only
    omega
  · exact absurd ((honly i hi).trans (honly j hj).symm) hne

/-- Two pages for 0x1800 bytes that begin in the middle of the first. -/
theorem mapElf_loads_iff_unaligned : ∃ sites st, SpaceInit sites [0x1000] st ∧
    (unalignedElf 0x18).Loads st 0x1000 := by
  obtain ⟨st, sites, hinit, -, hcount, hallocated⟩ := bootSpace
  have hfile : (unalignedElf 0x18).Loadable 120 := unalignedElf_loadable (by decide)
  have hfree : st.allocated.length + 4 * (unalignedElf 0x18).pageCount (unalignedElf 0x18).phnum ≤
      managedPages sites := by
    rw [hallocated, hcount]
    decide
  refine ⟨sites, st, hinit, (mapElf_loads_iff hinit.physical hinit.inv
    (List.mem_singleton.mpr rfl) hfile hfree).mpr fun i hi _ _ => Or.inr ?_⟩
  obtain ⟨hphnum, -, hprogram⟩ := unalignedElf_program 0x18
  rw [hphnum, Nat.lt_one_iff] at hi
  subst hi
  refine ⟨0, Nat.one_pos, ?_, 1, ?_, ?_⟩
  · rw [hprogram]
  · rw [hprogram]
    decide
  · rw [hprogram]
    decide

/-- One page for 0x1000 bytes that begin in the middle of it. -/
theorem unalignedElf_notLoaded : ∃ sites st, SpaceInit sites [0x1000] st ∧
    (unalignedElf 0x10).Loadable 120 ∧
    st.allocated.length + 4 * (unalignedElf 0x10).pageCount (unalignedElf 0x10).phnum ≤
      managedPages sites ∧ ¬(unalignedElf 0x10).Loads st 0x1000 := by
  obtain ⟨st, sites, hinit, -, hcount, hallocated⟩ := bootSpace
  have hfile : (unalignedElf 0x10).Loadable 120 := unalignedElf_loadable (by decide)
  have hroot : 0x1000 ∈ [0x1000] := List.mem_singleton.mpr rfl
  refine ⟨sites, st, hinit, hfile, by rw [hallocated, hcount]; decide, fun hloads => ?_⟩
  obtain ⟨hphnum, -, hprogram⟩ := unalignedElf_program 0x10
  have hcovered := hloads.covered hinit.physical hinit.inv hroot hfile 0 (by rw [hphnum]; decide)
  rw [hprogram] at hcovered
  rcases hcovered rfl (by decide) with ⟨p, hp⟩ | ⟨i, hi, -, hin⟩
  · obtain ⟨own, h⟩ := hinit.inv.tables
    have hmaps := (h.pageAt_iff hinit.pages hinit.physical hroot (by decide)).mp hp
    exact hinit.not_maps h hroot (by decide) hmaps
  · rw [Nat.lt_one_iff.mp hi, hprogram] at hin
    obtain ⟨j, hj, hpage⟩ := hin
    have hj' : j = 0 := Nat.lt_one_iff.mp hj
    rw [hj'] at hpage
    revert hpage
    decide

end BayosKernel
