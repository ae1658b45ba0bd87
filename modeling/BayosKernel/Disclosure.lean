import BayosKernel.ForkSyscall

/-!
Two runs of `anon_allocate_syscall` and `fork_syscall` from states that differ in
the frames that no bitmap marks. `map_memory_page` clears a frame that becomes a
table, and leaves one that becomes a page as it finds it.
-/

namespace BayosKernel

open Foundation Area

/-- What a load of a program reads. -/
def PageState.read (st : PageState) (cr3 va : Nat) : Option UInt8 :=
  match walk st.mem cr3 va with
  | none => none
  | some pte =>
      if st.mem.load 8 pte &&& 1 = 0 then none
      else some (st.mem (pteAddr (st.mem.load 8 pte) + va % 0x1000))

/-- A page of an area whose bit is clear. -/
def PageState.Unmarked (st : PageState) (p : Nat) : Prop :=
  ∃ a ∈ st.areas, ∃ k < (Area.read st.mem a).pagesCount,
    p = (Area.read st.mem a).firstPage + k * 0x1000 ∧ Bitmap.bit st.mem (data a) k = false

/-- The pages that `anon_allocate_syscall` asks for. -/
def anonPages (size : Nat) : Nat := (int32 ((add64 size 0xfff >>> 12 : Nat) : Int)).toNat

theorem anonAllocateSyscall_eq (st : PageState) (proc : UserProcess) (size : Nat) :
    anonAllocateSyscall st proc size = anonAllocatePages st proc (anonPages size) := rfl

namespace SyscallState

/-- The states differ in the contents of unmarked pages only. -/
structure DifferInFree (s twin : SyscallState) : Prop where
  procs : twin.procs = s.procs
  areas : twin.pages.areas = s.pages.areas
  allocated : twin.pages.allocated = s.pages.allocated
  mem : ∀ x, twin.pages.mem x ≠ s.pages.mem x →
    ∃ p, s.pages.Unmarked p ∧ p ≤ x ∧ x < p + 0x1000

/-- Every process reads the same bytes. -/
structure ReadSame (s twin : SyscallState) : Prop where
  procs : twin.procs = s.procs
  reads : ∀ proc ∈ s.procs, ∀ va < 0x800000000000,
    twin.pages.read proc.cr3 va = s.pages.read proc.cr3 va

/-- The pages that the call asks for, or copies, are all mapped in the process.
The stores are those of the programs, and of `*ptr = ret`. -/
def Covered (s : SyscallState) : SyscallAction → Prop
  | .anonAllocate i size => ∀ proc, s.procs[i]? = some proc →
      ∀ k < anonPages size, proc.anonAllocateEnd + k * 0x1000 < 0x800000000000 ∧
        ∃ p, PageAt s.pages.mem proc.cr3 (proc.anonAllocateEnd + k * 0x1000) p
  | .fork i => ∀ proc, s.procs[i]? = some proc →
      ∀ va, proc.InRanges va → ∃ p, PageAt s.pages.mem proc.cr3 va p
  | .store _ va _ => va < 0x800000000000
  | .execve _ _ _ => False
  | .exit _ => False

end SyscallState

namespace TableInv

variable {st : PageState} {sites : List Site} {roots : List Nat} {own : Nat → Option Role}
  {cr3 va : Nat}

theorem read_cases (h : TableInv sites st roots own) (hpages : PageInv st sites)
    (hphys : Physical sites) (hroot : cr3 ∈ roots) (hva : va < 0x800000000000) :
    (∃ p, Maps own cr3 va p ∧ st.read cr3 va = some (st.mem (p + va % 0x1000))) ∨
      st.read cr3 va = none ∧ ∀ p, ¬Maps own cr3 va p := by
  rcases h.leaf_cases hpages hphys hroot hva with
    ⟨p, pte, hmaps, hwalk, hone, haddr⟩ | ⟨habsent, hnone⟩
  · refine Or.inl ⟨p, hmaps, ?_⟩
    simp only [PageState.read, hwalk, hone, haddr]
    rfl
  · refine Or.inr ⟨?_, hnone⟩
    rw [PageState.read]
    cases hwalk : walk st.mem cr3 va with
    | none => rfl
    | some pte => exact if_pos (habsent pte hwalk)

/-- Pages that are there cost nothing. -/
theorem anonAllocatePages_present {proc : UserProcess} {n : Nat}
    (h : TableInv sites st roots own) (hpages : PageInv st sites) (hphys : Physical sites)
    (hmapped : ∀ k < n, proc.anonAllocateEnd + k * 0x1000 < 0x800000000000 ∧
      ∃ p, Maps own proc.cr3 (proc.anonAllocateEnd + k * 0x1000) p) :
    anonAllocatePages st proc n =
      some (st, { proc with anonAllocateEnd := proc.anonAllocateEnd + n * 0x1000 }) := by
  induction n with
  | zero => rfl
  | succ n ih =>
      obtain ⟨hbound, p, hmaps⟩ := hmapped n (Nat.lt_succ_self n)
      rw [anonAllocatePages, ih fun k hk => hmapped k (Nat.lt_succ_of_lt hk), Option.bind_some]
      simp only [h.mapMemoryPage_present hpages hphys hmaps, Option.map_some]
      rw [add64_eq (by omega), Nat.succ_mul, Nat.add_assoc]

end TableInv

namespace Alike

variable {st st' twin twin' : PageState} {sites : List Site} {roots before : List Nat}
  {own : Nat → Option Role} {cr3 va : Nat}

theorem read_eq (hlike : Alike sites st.allocated own st twin) (h : TableInv sites st roots own)
    (hpages : PageInv st sites) (hphys : Physical sites) (hroot : cr3 ∈ roots)
    (hva : va < 0x800000000000) : twin.read cr3 va = st.read cr3 va := by
  have htwin := hlike.tableInv h hpages
  have hpages' := hlike.pageInv hpages
  rcases h.read_cases hpages hphys hroot hva with ⟨p, hp, hread⟩ | ⟨hread, hnone⟩
  · rcases htwin.read_cases hpages' hphys hroot hva with ⟨q, hq, hread'⟩ | ⟨-, hnone'⟩
    · obtain ⟨pt, i, hrole⟩ := hp.owned
      rw [hread, hread', Maps.unique h hpages hq hp,
        hlike.page_eq hpages (h.allocated hrole (by simp)) (h.frame hpages hrole).aligned
          (Nat.mod_lt va (by decide))]
    · exact absurd hp (hnone' p)
  · rcases htwin.read_cases hpages' hphys hroot hva with ⟨q, hq, -⟩ | ⟨hread', -⟩
    · exact absurd hq (hnone q)
    · rw [hread, hread']

/-- The pages handed out since then are equal too. -/
theorem of_pages (hlike : Alike sites before own st twin)
    (hnew : ∀ p ∈ st.allocated, p ∉ before → (∀ r, own p = some r → r.height = 0) →
      ∀ i < 0x1000, twin.mem (p + i) = st.mem (p + i)) :
    Alike sites st.allocated own st twin := by
  refine ⟨hlike.areas, hlike.allocated, fun x hx => ?_⟩
  by_cases hout : x ∈ outsidePages (hiddenPages sites before own)
  · exact hlike.mem hout
  · obtain ⟨p, hp, hin⟩ : ∃ p ∈ hiddenPages sites before own, ¬(x < p ∨ p + 0x1000 ≤ x) := by
      by_contra hnone
      exact hout fun p hp => by
        by_contra hin
        exact hnone ⟨p, hp, hin⟩
    obtain ⟨i, rfl⟩ := Nat.exists_eq_add_of_le (show p ≤ x by omega)
    have hmem : p ∈ st.allocated := by
      by_contra hfree
      exact hin (hx p ⟨hp.1, hfree, hp.2.2⟩)
    exact (hnew p hmem hp.2.1 hp.2.2 i (by omega)).symm

/-- A store of the program goes to one address in both states. -/
theorem write (hlike : Alike sites st.allocated own st twin) (h : TableInv sites st roots own)
    (hpages : PageInv st sites) (hphys : Physical sites) (hroot : cr3 ∈ roots)
    (hva : va < 0x800000000000) {v : UInt8} (hwrite : st.write cr3 va v = some st') :
    ∃ twin', twin.write cr3 va v = some twin' ∧ PageInv st' sites ∧
      TableInv sites st' roots own ∧ Alike sites st'.allocated own st' twin' := by
  obtain ⟨c, hmaps, rfl, hpages', h'⟩ := h.write hpages hphys hroot hva hwrite
  exact ⟨_, (hlike.tableInv h hpages).write_some (hlike.pageInv hpages) hphys hroot hva hmaps v,
    hpages', h', hlike.areas, hlike.allocated, ByteMemory.update_agree hlike.mem v⟩

end Alike

/-- `allocate_page` answers NULL when no page is free, and then no page is hidden. -/
theorem Alike.eq_of_full {st twin : PageState} {sites : List Site} {own : Nat → Option Role}
    {m : ByteMemory} (hlike : Alike sites st.allocated own st twin) (hpages : PageInv st sites)
    (hfull : BayosKernel.allocatePage st.mem st.areas = some (m, NULL)) : twin = st := by
  rw [hpages.places] at hfull
  rcases allocatePage_cases hpages.kept with ⟨-, hall⟩ | ⟨s, hs, k, hk, -, hsome⟩
  · have hmem : twin.mem = st.mem := by
      funext x
      refine (hlike.mem fun p hp => ?_).symm
      obtain ⟨⟨s, hs, k, hk, rfl⟩, hfree, -⟩ := hp
      exact absurd ((hpages.marked s hs k hk).mp (hall s hs k hk)) hfree
    obtain ⟨areas, m, allocated⟩ := twin
    obtain ⟨rfl, rfl, -⟩ := hlike
    simp only at hmem
    rw [hmem]
  · rw [hsome] at hfull
    exact absurd (congrArg Prod.snd (Option.some.inj hfull)) (s.page_ne_null k)

/-- What the two runs keep as long as there are pages for the PML4s. -/
structure SyscallState.Twins (sites : List Site) (roots : List Nat) (own : Nat → Option Role)
    (s twin : SyscallState) : Prop where
  pages : PageInv s.pages sites
  tables : TableInv sites s.pages roots own
  roots : ∀ proc ∈ s.procs, proc.cr3 ∈ roots
  procs : twin.procs = s.procs
  alike : Alike sites s.pages.allocated own s.pages twin.pages

namespace SyscallState.Twins

variable {s s' twin : SyscallState} {sites : List Site} {roots : List Nat}
  {own : Nat → Option Role}

/-- An unmarked page is neither handed out nor a table. -/
theorem of_differ (hpages : PageInv s.pages sites) (h : TableInv sites s.pages roots own)
    (hroots : ∀ proc ∈ s.procs, proc.cr3 ∈ roots) (hdiffer : s.DifferInFree twin) :
    Twins sites roots own s twin := by
  refine ⟨hpages, h, hroots, hdiffer.procs, hdiffer.areas, hdiffer.allocated, fun x hx => ?_⟩
  by_contra hne
  obtain ⟨p, ⟨a, ha, k, hk, rfl, hclear⟩, hle, hlt⟩ := hdiffer.mem x (Ne.symm hne)
  rw [hpages.places] at ha
  obtain ⟨t, ht, rfl⟩ := List.mem_map.mp ha
  rw [hpages.kept t ht] at hk hle hlt
  simp only at hk hle hlt
  have hfree : t.page k ∉ s.pages.allocated := fun hmem => by
    have hbit := (hpages.marked t ht k hk).mpr hmem
    rw [Site.Marked, hclear] at hbit
    cases hbit
  have hhidden : t.page k ∈ hiddenPages sites s.pages.allocated own := by
    refine ⟨⟨t, ht, k, hk, rfl⟩, hfree, fun r hr => ?_⟩
    rcases h.owned _ r hr with hmem | ⟨-, hboot⟩
    · exact absurd hmem hfree
    · have hbounds := t.page_bounds hk
      have hroom := t.room
      have hapart := hboot.apart t ht
      omega
  have hout := hx _ hhidden
  simp only [Site.page] at hout
  omega

theorem readSame (h : Twins sites roots own s twin) (hphys : Physical sites) : s.ReadSame twin :=
  ⟨h.procs, fun proc hmem _ hva =>
    h.alike.read_eq h.tables h.pages hphys (h.roots proc hmem) hva⟩

theorem pageAt_maps (h : Twins sites roots own s twin) (hphys : Physical sites)
    {proc : UserProcess} (hmem : proc ∈ s.procs) {va p : Nat} (hva : va < 0x800000000000)
    (hat : PageAt s.pages.mem proc.cr3 va p) : Maps own proc.cr3 va p :=
  (h.tables.pageAt_iff h.pages hphys (h.roots proc hmem) hva).mp hat

theorem anonAllocate (fuel : Nat) (h : Twins sites roots own s twin) (hphys : Physical sites)
    {i size : Nat}
    (hcovered : s.Covered (.anonAllocate i size))
    (hstep : s.step fuel (.anonAllocate i size) = some s') :
    ∃ twin', twin.step fuel (.anonAllocate i size) = some twin' ∧ Twins sites roots own s' twin' := by
  obtain ⟨proc, hi, hstep⟩ := Option.bind_eq_some_iff.mp hstep
  obtain ⟨⟨st', proc'⟩, hanon, heq⟩ := Option.map_eq_some_iff.mp hstep
  cases heq
  have hmem := List.mem_of_getElem? hi
  have hmapped : ∀ k < anonPages size, proc.anonAllocateEnd + k * 0x1000 < 0x800000000000 ∧
      ∃ p, Maps own proc.cr3 (proc.anonAllocateEnd + k * 0x1000) p := by
    intro k hk
    obtain ⟨hva, p, hp⟩ := hcovered proc hi k hk
    exact ⟨hva, p, h.pageAt_maps hphys hmem hva hp⟩
  rw [anonAllocateSyscall_eq, h.tables.anonAllocatePages_present h.pages hphys hmapped] at hanon
  obtain ⟨rfl, rfl⟩ := Prod.mk.inj (Option.some.inj hanon)
  have htwin := (h.alike.tableInv h.tables h.pages).anonAllocatePages_present
    (h.alike.pageInv h.pages) hphys hmapped
  rw [SyscallState.step, h.procs, hi, Option.bind_some, anonAllocateSyscall_eq, htwin]
  refine ⟨⟨twin.pages, _⟩, rfl, h.pages, h.tables, fun other hother => ?_, rfl, h.alike⟩
  rcases List.mem_or_eq_of_mem_set hother with hother | rfl
  · exact h.roots other hother
  · exact h.roots proc hmem

/-- The child has a copy of a page of its parent at every address of the ranges. -/
theorem fork (fuel : Nat) (h : Twins sites roots own s twin) (hphys : Physical sites)
    (hsites : sites.length ≤ 0x100) {i : Nat} (hcovered : s.Covered (.fork i))
    (hstep : s.step fuel (.fork i) = some s') : twin = s ∨
      ∃ twin', twin.step fuel (.fork i) = some twin' ∧
        ∃ roots' own', Twins sites roots' own' s' twin' := by
  obtain ⟨proc, hi, hstep⟩ := Option.bind_eq_some_iff.mp hstep
  obtain ⟨⟨st', child⟩, hfork, heq⟩ := Option.map_eq_some_iff.mp hstep
  cases heq
  have hmem := List.mem_of_getElem? hi
  by_cases hfull : ∃ m, allocatePage s.pages.mem s.pages.areas = some (m, NULL)
  · left
    obtain ⟨m, hfull⟩ := hfull
    obtain ⟨pages, procs⟩ := s
    obtain ⟨pages', procs'⟩ := twin
    obtain rfl : pages' = pages := h.alike.eq_of_full h.pages hfull
    obtain rfl : procs' = procs := h.procs
    rfl
  · right
    have hne := forkSyscall_ne_null (fun m hm => hfull ⟨m, hm⟩) hfork
    obtain ⟨hchild, own', twin', htwin, hpages', h', hforks, hlike', hcopies⟩ :=
      h.tables.forkSyscall_lockstep h.alike (fun _ hp => hp) h.pages hphys hsites
        (h.roots proc hmem) hfork hne
    refine ⟨⟨twin', s.procs ++ [child]⟩, ?_, child.cr3 :: roots, own', hpages', h',
      fun other hother => ?_, rfl, hlike'.of_pages fun q hq hnew hdata => ?_⟩
    · simp only [SyscallState.step, h.procs, hi, Option.bind_some, htwin, Option.map_some]
    · rcases List.mem_append.mp hother with hother | hother
      · exact List.mem_cons_of_mem _ (h.roots other hother)
      · rw [List.mem_singleton.mp hother]
        exact List.mem_cons_self
    · obtain ⟨r, hr⟩ := (hforks.accounted q hq).resolve_left hnew
      rcases hforks.leaves q r hr (hdata r hr) with hold | ⟨va, hin, hmaps⟩
      · refine absurd (h.tables.allocated hold ?_) hnew
        rw [hdata r hr]
        decide
      · obtain ⟨p, hp⟩ := hcovered proc hi va hin
        have hbound := hforks.bound
        have helf := proc.elfEnd.toNat_lt
        have hva : va < 0x800000000000 := by
          simp only [UserProcess.InRanges, InRegion] at hin
          omega
        have hp := h.pageAt_maps hphys hmem hva hp
        obtain ⟨pt, j, hrole⟩ := hp.owned
        exact hcopies va hin p q (h.tables.allocated hrole (by simp)) hp hmaps

theorem store (fuel : Nat) (h : Twins sites roots own s twin) (hphys : Physical sites) {i va : Nat}
    {v : UInt8} (hva : va < 0x800000000000) (hstep : s.step fuel (.store i va v) = some s') :
    ∃ twin', twin.step fuel (.store i va v) = some twin' ∧ Twins sites roots own s' twin' := by
  obtain ⟨proc, hi, hstep⟩ := Option.bind_eq_some_iff.mp hstep
  obtain ⟨st', hwrite, heq⟩ := Option.map_eq_some_iff.mp hstep
  cases heq
  obtain ⟨twin', htwin, hpages', h', hlike'⟩ := h.alike.write h.tables h.pages hphys
    (h.roots proc (List.mem_of_getElem? hi)) hva hwrite
  refine ⟨⟨twin', twin.procs⟩, ?_, hpages', h', h.roots, h.procs, hlike'⟩
  simp only [SyscallState.step, h.procs, hi, Option.bind_some, htwin, Option.map_some]

end SyscallState.Twins

/-- From two states that differ in unmarked frames, every run whose steps show no
new page as its frame was left reads the same in both. -/
theorem syscallMachine_readSame {sites : List Site} {roots : List Nat} {fuel : Nat}
    {s twin s' : SyscallState} {run : List SyscallAction} (hphys : Physical sites)
    (hsites : sites.length ≤ 0x100) (hinv : SpaceInv sites roots s.pages)
    (hroots : ∀ proc ∈ s.procs, proc.cr3 ∈ roots) (hdiffer : s.DifferInFree twin)
    (hcovered : (syscallMachine fuel).Meets SyscallState.Covered s run)
    (hrun : (syscallMachine fuel).exec s run = some s') :
    ∃ twin', (syscallMachine fuel).exec twin run = some twin' ∧ s'.ReadSame twin' := by
  let R : SyscallState → SyscallState → Prop := fun s twin =>
    twin = s ∨ ∃ roots own, SyscallState.Twins sites roots own s twin
  have hstep : ∀ s a s' twin, R s twin → s.Covered a → (syscallMachine fuel).step s a = some s' →
      ∃ twin', (syscallMachine fuel).step twin a = some twin' ∧ R s' twin' := by
    rintro s a s' twin (rfl | ⟨roots, own, h⟩) hcovered hstep
    · exact ⟨s', hstep, Or.inl rfl⟩
    · cases a with
      | anonAllocate i size =>
          obtain ⟨twin', htwin, h'⟩ := h.anonAllocate fuel hphys hcovered hstep
          exact ⟨twin', htwin, Or.inr ⟨roots, own, h'⟩⟩
      | fork i =>
          rcases h.fork fuel hphys hsites hcovered hstep with rfl | ⟨twin', htwin, h'⟩
          · exact ⟨s', hstep, Or.inl rfl⟩
          · exact ⟨twin', htwin, Or.inr h'⟩
      | store i va v =>
          obtain ⟨twin', htwin, h'⟩ := h.store fuel hphys hcovered hstep
          exact ⟨twin', htwin, Or.inr ⟨roots, own, h'⟩⟩
      | execve i filesz elf => exact hcovered.elim
      | exit i => exact hcovered.elim
  obtain ⟨own, htables⟩ := hinv.tables
  have hstart : R s twin :=
    Or.inr ⟨roots, own, SyscallState.Twins.of_differ hinv.pages htables hroots hdiffer⟩
  obtain ⟨twin', htwin, hend⟩ := (syscallMachine fuel).exec_lockstep hstep hstart hcovered hrun
  refine ⟨twin', htwin, ?_⟩
  rcases hend with rfl | ⟨roots', own', h'⟩
  · exact ⟨rfl, fun _ _ _ _ => rfl⟩
  · exact h'.readSame hphys

theorem PageInv.exists_unmarked {st : PageState} {sites : List Site} (h : PageInv st sites)
    (hfree : st.allocated.length < managedPages sites) : ∃ p, st.Unmarked p := by
  obtain ⟨m, page, hpage, hne⟩ := h.allocatePage_some hfree
  rw [h.places] at hpage
  rcases allocatePage_cases h.kept with ⟨hnull, -⟩ | ⟨s, hs, k, hk, hclear, -⟩
  · rw [hnull] at hpage
    exact absurd (congrArg Prod.snd (Option.some.inj hpage)).symm hne
  · refine ⟨s.page k, s.base, by rw [h.places]; exact List.mem_map_of_mem hs, k, ?_⟩
    rw [h.kept s hs]
    exact ⟨hk, rfl, by simpa [Site.Marked] using hclear⟩

/-- One byte of a page differs. -/
def dirtied (st : PageState) (p : Nat) : PageState :=
  { st with mem := Function.update st.mem p (st.mem p + 1) }

theorem dirtied_differInFree {st : PageState} {p : Nat} (hp : st.Unmarked p)
    (procs : List UserProcess) : SyscallState.DifferInFree ⟨st, procs⟩ ⟨dirtied st p, procs⟩ := by
  refine ⟨rfl, rfl, rfl, fun x hne => ⟨p, hp, ?_⟩⟩
  obtain rfl : x = p := by
    by_contra hxp
    exact hne (Function.update_of_ne hxp _ _)
  omega

/-- One page at 0x200000, and no gap. -/
def onePageProcess : UserProcess := ⟨0x1000, 0x201000, 0x800000⟩

theorem syscallMachine_readSame_fork : ∃ s twin s' twin',
    s.DifferInFree twin ∧ (∃ x, twin.pages.mem x ≠ s.pages.mem x) ∧
      (syscallMachine 0x10000001).exec s [.fork 0] = some s' ∧ s'.procs.length = 2 ∧
      (syscallMachine 0x10000001).exec twin [.fork 0] = some twin' ∧ s'.ReadSame twin' := by
  obtain ⟨sites, st, own, hpages, h, hphys, hsites, hlength, ⟨q, hq⟩, -⟩ := onePageSpace
  have hfree : st.allocated.length + 1 + 4 * (1 + 0) ≤ managedPages sites := by omega
  have hproc : onePageProcess.cr3 ∈ [0x1000] := List.mem_singleton.mpr rfl
  obtain ⟨st', child, hfork, -⟩ := h.forkSyscall_some hpages hphys hproc
    (show _ ≤ 0x200000 + 1 * 0x1000 by decide) (show _ ≤ 0x800000 + 0 * 0x1000 by decide)
    (by decide) (by decide) (Nat.le_refl 0x10000000) (by decide) hfree
  obtain ⟨p, hp⟩ := hpages.exists_unmarked (by omega)
  have hdiffer := dirtied_differInFree hp [onePageProcess]
  have hstep : (syscallMachine 0x10000001).exec ⟨st, [onePageProcess]⟩ [.fork 0] =
      some ⟨st', [onePageProcess, child]⟩ := by
    simp only [Machine.exec, syscallMachine, SyscallState.step, List.getElem?_cons_zero,
      Option.bind_some, hfork, Option.map_some, List.cons_append, List.nil_append]
  have hcovered : (syscallMachine 0x10000001).Meets SyscallState.Covered ⟨st, [onePageProcess]⟩
      [.fork 0] := by
    refine ⟨fun proc hi va hin => ?_, fun _ _ => trivial⟩
    cases hi
    obtain rfl : va = 0x200000 := by
      simp only [UserProcess.InRanges, onePageProcess, InRegion] at hin
      have : UInt32.toNat 0x201000 = 0x201000 := rfl
      omega
    exact ⟨q, (h.pageAt_iff hpages hphys hproc (by decide)).mpr hq⟩
  obtain ⟨twin', htwin, hsame⟩ := syscallMachine_readSame hphys hsites ⟨hpages, own, h⟩
    (fun proc hmem => List.mem_singleton.mp hmem ▸ hproc) hdiffer hcovered hstep
  refine ⟨_, _, _, twin', hdiffer, ⟨p, ?_⟩, hstep, rfl, htwin, hsame⟩
  simp only [dirtied, Function.update_self]
  intro heq
  have hbyte := congrArg UInt8.toNat heq
  rw [UInt8.toNat_add] at hbyte
  have hlt := (st.mem p).toNat_lt
  have hone : UInt8.toNat 1 = 1 := rfl
  omega

def emptyProcess : UserProcess := ⟨0x101000, 0, 0x800000⟩

/-- The fifth page of the area becomes a page of the process, with the byte that
was left there. -/
theorem anonAllocateSyscall_discloses : ∃ sites st s' twin',
    SpaceInv sites [0x101000] st ∧
      SyscallState.DifferInFree ⟨st, [emptyProcess]⟩ ⟨dirtied st 0x105000, [emptyProcess]⟩ ∧
      (syscallMachine 0).exec ⟨st, [emptyProcess]⟩ [.anonAllocate 0 1] = some s' ∧
      (syscallMachine 0).exec ⟨dirtied st 0x105000, [emptyProcess]⟩ [.anonAllocate 0 1] =
        some twin' ∧
      s'.pages.read 0x101000 0x800000 = some 0 ∧ twin'.pages.read 0x101000 0x800000 = some 1 ∧
      ¬s'.ReadSame twin' := by
  have hrun : ((startSpaces 1).bind fun st =>
      ((syscallMachine 0).exec ⟨st, [emptyProcess]⟩ [.anonAllocate 0 1]).bind fun s' =>
        ((syscallMachine 0).exec ⟨dirtied st 0x105000, [emptyProcess]⟩ [.anonAllocate 0 1]).map
          fun twin' => ([st.areas, st.allocated, s'.procs.map UserProcess.cr3,
            [(Area.read st.mem 0x100000).firstPage, (Area.read st.mem 0x100000).pagesCount]],
            Bitmap.bit st.mem (data 0x100000) 4, s'.pages.read 0x101000 0x800000,
            twin'.pages.read 0x101000 0x800000)) =
      some ([[0x100000], [0x101000], [0x101000], [0x101000, 15]], false, some 0, some 1) := by
    decide +kernel
  obtain ⟨st, hstart, hrun⟩ := Option.bind_eq_some_iff.mp hrun
  obtain ⟨s', hs', hrun⟩ := Option.bind_eq_some_iff.mp hrun
  obtain ⟨twin', htwin', heq⟩ := Option.map_eq_some_iff.mp hrun
  simp only [Prod.mk.injEq, List.cons.injEq, and_true] at heq
  obtain ⟨⟨hareas, hallocated, hprocs, hfirst, hcount⟩, hclear, hread, hread'⟩ := heq
  obtain ⟨sites, hinit⟩ := startSpaces_init hstart
  have hunmarked : st.Unmarked 0x105000 := by
    refine ⟨0x100000, by rw [hareas]; decide, 4, by rw [hcount]; decide, ?_, hclear⟩
    rw [hfirst]
  refine ⟨sites, st, s', twin', hallocated ▸ hinit.inv, dirtied_differInFree hunmarked _, hs',
    htwin', hread, hread', fun hsame => ?_⟩
  have hmem : 0x101000 ∈ s'.procs.map UserProcess.cr3 := by
    rw [hprocs]
    decide
  obtain ⟨proc, hproc, hcr3⟩ := List.mem_map.mp hmem
  have hreads := hsame.reads proc hproc 0x800000 (by decide)
  rw [hcr3, hread, hread'] at hreads
  exact absurd hreads (by decide)

end BayosKernel
