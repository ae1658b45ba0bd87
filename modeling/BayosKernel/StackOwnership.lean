import BayosKernel.Preemption

/-!
The stacks of the processes over the runs of the preemptive machine: a process
that is not DEAD and not in `exit_syscall` has all pages of its stack, wherever
the ticks fall. `exit_syscall` gives its own stack back while it runs on it.
-/

namespace BayosKernel

open Foundation

def stackPages : Set Nat := regionPages 0x200000 0x400000

/-- The PML4 that the statement is about to give to a child. -/
def KernelCall.child : KernelCall → Option Nat
  | .insertProcess newCr3 => some newCr3
  | _ => none

def children (calls : List KernelCall) : List Nat := calls.filterMap KernelCall.child

/-- The pages that the region loops to come map in the address space. -/
def pendingPages (calls : List KernelCall) (cr3 : Nat) : Set Nat :=
  {page | ∃ va stop flags, .allocateRegion cr3 va stop flags ∈ calls ∧ InRegion va stop page}

/-- Only a region loop that has not ended has pages to come. -/
theorem pendingPages_cons {calls left rest : List KernelCall} {c : KernelCall}
    (hcalls : calls = c :: rest)
    (hc : ∀ cr3 va stop flags, c = .allocateRegion cr3 va stop flags → stop ≤ va) (cr3 : Nat) :
    pendingPages calls cr3 ⊆ pendingPages (left ++ rest) cr3 := by
  rintro page ⟨va, stop, flags, hmem, hin⟩
  rw [hcalls] at hmem
  refine ⟨va, stop, flags, List.mem_append_right _ (List.mem_of_ne_of_mem ?_ hmem), hin⟩
  rintro rfl
  have := hc cr3 va stop flags rfl
  have := hin.1
  have := hin.2.1
  omega

namespace UserThread

/-- The address spaces of the process: its own, and that of a child to be inserted. -/
def spaces (t : UserThread) : List Nat := t.proc.cr3 :: children t.calls

end UserThread

/-- The arguments of a statement of the process. Outside of `exit_syscall` no
region is freed below 0x400000, and none before `anon_allocate_end` is reset. -/
def KernelCall.Ok (t : UserThread) : KernelCall → Prop
  | .allocateRegion cr3 va stop flags =>
      cr3 ∈ t.spaces ∧ va % 0x1000 = 0 ∧ stop ≤ 0x800000000000 ∧ PageFlags flags
  | .freeRegion cr3 va stop =>
      cr3 = t.proc.cr3 ∧ va % 0x1000 = 0 ∧ stop ≤ 0x800000000000 ∧
        (.markDead ∈ t.calls ∨
          0x400000 ≤ va ∧ (.resetAnon ∈ t.calls ∨ t.proc.anonAllocateEnd = 0x800000))
  | .copyPages dst src _ stop => dst ∈ t.spaces ∧ src ∈ t.spaces ∧ stop ≤ 0x800000000000
  | .insertProcess newCr3 => t.calls.getLast? = some (.insertProcess newCr3)
  | .anonAllocate _ => t.calls.length = 1
  | .mapSegment vaddr _ pages => ∀ j < pages, segmentPage vaddr j < 0x800000000000
  | .copyIn va _ _ n => va + n ≤ 0x800000000000
  | .resetAnon => True
  | .setElfEnd _ => True
  | .markDead => True

/-- A process that is not DEAD, when the address spaces have the pages `P`. -/
structure UserThread.Alive (P : Nat → Set Nat) (t : UserThread) : Prop where
  stack : .markDead ∉ t.calls → stackPages ⊆ P t.proc.cr3
  anon : .markDead ∈ t.calls ∨ .resetAnon ∈ t.calls ∨
    regionPages 0x800000 t.proc.anonAllocateEnd ⊆ P t.proc.cr3
  aligned : t.proc.anonAllocateEnd % 0x1000 = 0
  above : 0x800000 ≤ t.proc.anonAllocateEnd
  below : t.proc.anonAllocateEnd ≤ 0x800000000000
  child : ∀ cr3 ∈ children t.calls,
    stackPages ∪ regionPages 0x800000 t.proc.anonAllocateEnd ⊆ P cr3 ∪ pendingPages t.calls cr3
  calls : ∀ c ∈ t.calls, c.Ok t

namespace UserThread.Alive

variable {P P' : Nat → Set Nat} {t t' : UserThread} {c : KernelCall} {left rest : List KernelCall}

theorem congr (h : t.Alive P) (hsame : ∀ cr3 ∈ t.spaces, P' cr3 = P cr3) : t.Alive P' := by
  have hown : P' t.proc.cr3 = P t.proc.cr3 := hsame _ List.mem_cons_self
  refine ⟨?_, ?_, h.aligned, h.above, h.below, fun cr3 hcr3 => ?_, h.calls⟩
  · rw [hown]
    exact h.stack
  · rw [hown]
    exact h.anon
  · rw [hsame cr3 (List.mem_cons_of_mem _ hcr3)]
    exact h.child cr3 hcr3

/-- Only `exit_syscall` and `execve_syscall` free the anonymous memory. -/
theorem anonPages (h : t.Alive P) (hmark : .markDead ∉ t.calls) (hreset : .resetAnon ∉ t.calls) :
    regionPages 0x800000 t.proc.anonAllocateEnd ⊆ P t.proc.cr3 :=
  (h.anon.resolve_left hmark).resolve_left hreset

/-- A statement that is neither `insert_process` nor the last of `exit_syscall` has
made a step. -/
theorem next (h : t.Alive P) (ht : t.calls = c :: rest) (ht' : t'.calls = left ++ rest)
    (hc : c ≠ .markDead ∧ c.child = none) (hleft : children left = [])
    (hcr3 : t'.proc.cr3 = t.proc.cr3)
    (hend : t'.proc.anonAllocateEnd = t.proc.anonAllocateEnd ∧ c ≠ .resetAnon ∨
      t'.proc.anonAllocateEnd = 0x800000)
    (hstack : .markDead ∉ t.calls → stackPages ⊆ P' t.proc.cr3)
    (hanon : .markDead ∈ t.calls ∨ .resetAnon ∈ t.calls ∨
      regionPages 0x800000 t.proc.anonAllocateEnd ⊆ P' t.proc.cr3)
    (hchild : ∀ cr3 ∈ children t.calls,
      P cr3 ∪ pendingPages t.calls cr3 ⊆ P' cr3 ∪ pendingPages t'.calls cr3)
    (hok : ∀ d ∈ left, d.Ok t') : t'.Alive P' := by
  have hchildren : children t'.calls = children t.calls := by
    rw [ht, ht', children, List.filterMap_append, ← children, hleft, children,
      List.filterMap_cons_none hc.2, List.nil_append]
  have hspaces : t'.spaces = t.spaces := by
    rw [UserThread.spaces, UserThread.spaces, hcr3, hchildren]
  have hmark : .markDead ∈ t.calls → .markDead ∈ t'.calls := by
    intro hmem
    rw [ht] at hmem
    rw [ht']
    exact List.mem_append_right _ (List.mem_of_ne_of_mem hc.1.symm hmem)
  have hreset : .resetAnon ∈ t.calls → .resetAnon ∈ t'.calls ∨
      t'.proc.anonAllocateEnd = 0x800000 := by
    intro hmem
    refine hend.imp_left fun hsame => ?_
    rw [ht] at hmem
    rw [ht']
    exact List.mem_append_right _ (List.mem_of_ne_of_mem hsame.2.symm hmem)
  have hle : t'.proc.anonAllocateEnd ≤ t.proc.anonAllocateEnd := by
    have := h.above
    omega
  refine ⟨fun hnot => ?_, ?_, ?_, ?_, Nat.le_trans hle h.below, fun cr3 hmem => ?_, fun d hd => ?_⟩
  · rw [hcr3]
    exact hstack fun hmem => hnot (hmark hmem)
  · rw [hcr3]
    have hempty : t'.proc.anonAllocateEnd = 0x800000 →
        regionPages 0x800000 t'.proc.anonAllocateEnd ⊆ P' t.proc.cr3 := by
      intro heq va hva
      have := hva.1
      have := hva.2.1
      omega
    rcases hanon with hmem | hmem | hsubset
    · exact Or.inl (hmark hmem)
    · exact Or.inr ((hreset hmem).imp_right hempty)
    · exact Or.inr (Or.inr ((regionPages_mono hle).trans hsubset))
  · have := h.aligned
    omega
  · have := h.above
    omega
  · rw [hchildren] at hmem
    have hold := (h.child cr3 hmem).trans (hchild cr3 hmem)
    exact (Set.union_subset_union_right _ (regionPages_mono hle)).trans hold
  · rw [ht'] at hd
    rcases List.mem_append.mp hd with hd | hd
    · exact hok d hd
    · have hold := h.calls d (ht ▸ List.mem_cons_of_mem _ hd)
      cases d with
      | allocateRegion cr3 va stop flags => exact ⟨hspaces ▸ hold.1, hold.2⟩
      | freeRegion cr3 va stop =>
          refine ⟨hcr3 ▸ hold.1, hold.2.1, hold.2.2.1, hold.2.2.2.imp hmark fun hlow => ?_⟩
          refine ⟨hlow.1, hlow.2.elim hreset fun heq => Or.inr ?_⟩
          have := h.above
          omega
      | copyPages dst src va stop => exact ⟨hspaces ▸ hold.1, hspaces ▸ hold.2.1, hold.2.2⟩
      | insertProcess newCr3 =>
          have hlast : t.calls.getLast? = some (.insertProcess newCr3) := hold
          rw [KernelCall.Ok, ht']
          obtain ⟨d, rest', rfl⟩ := List.exists_cons_of_ne_nil (List.ne_nil_of_mem hd)
          rw [ht, List.getLast?_cons_cons] at hlast
          rw [List.getLast?_append, hlast]
          rfl
      | anonAllocate pages =>
          have hlength : t.calls.length = 1 := hold
          rw [ht, List.length_cons] at hlength
          have := List.length_pos_of_mem hd
          omega
      | mapSegment vaddr j pages => exact hold
      | copyIn va bytes k n => exact hold
      | resetAnon => trivial
      | setElfEnd elfEnd => trivial
      | markDead => trivial

/-- The case in which no page is unmapped. -/
theorem grows (h : t.Alive P) (ht : t.calls = c :: rest) (ht' : t'.calls = left ++ rest)
    (hc : c ≠ .markDead ∧ c.child = none) (hleft : children left = [])
    (hcr3 : t'.proc.cr3 = t.proc.cr3)
    (hend : t'.proc.anonAllocateEnd = t.proc.anonAllocateEnd ∧ c ≠ .resetAnon ∨
      t'.proc.anonAllocateEnd = 0x800000)
    (hgrows : ∀ cr3 ∈ t.spaces, P cr3 ⊆ P' cr3)
    (hpending : ∀ cr3 ∈ children t.calls,
      pendingPages t.calls cr3 ⊆ P' cr3 ∪ pendingPages t'.calls cr3)
    (hok : ∀ d ∈ left, d.Ok t') : t'.Alive P' := by
  have hown := hgrows _ List.mem_cons_self
  refine h.next ht ht' hc hleft hcr3 hend (fun hmark => (h.stack hmark).trans hown)
    (h.anon.imp_right fun hanon => hanon.imp_right fun hsub => hsub.trans hown)
    (fun cr3 hmem => Set.union_subset ?_ (hpending cr3 hmem)) hok
  exact (hgrows cr3 (List.mem_cons_of_mem _ hmem)).trans Set.subset_union_left

end UserThread.Alive

section Run

variable {st st' : PageState} {sites : List Site} {roots : List Nat} {own : Nat → Option Role}
  {t : UserThread} {proc' : UserProcess} {left rest : List KernelCall}

/-- What a step inside of a process keeps. -/
def RunKeeps (sites : List Site) (roots : List Nat) (st' : PageState) (own : Nat → Option Role)
    (t t' : UserThread) : Prop :=
  t'.spaces = t.spaces ∧ ∃ own', ∃ cr3 ∈ t.spaces, Remaps sites roots st' own own' cr3 ∧
    t'.Alive (mappedPages own')

theorem spaces_eq {c : KernelCall} (ht : t.calls = c :: rest) (hc : c.child = none)
    (hleft : children left = []) (hcr3 : proc'.cr3 = t.proc.cr3) :
    UserThread.spaces ⟨proc', t.dead, left ++ rest⟩ = t.spaces := by
  rw [UserThread.spaces, UserThread.spaces, hcr3, ht]
  simp only [children] at hleft ⊢
  rw [List.filterMap_append, hleft, List.filterMap_cons_none hc, List.nil_append]

/-- A step that maps no page and unmaps none. -/
theorem RunKeeps.same {c : KernelCall} (halive : t.Alive (mappedPages own))
    (hremaps : Remaps sites roots st' own own t.proc.cr3) (ht : t.calls = c :: rest)
    (hc : c ≠ .markDead ∧ c.child = none)
    (hregion : ∀ cr3 va stop flags, c = .allocateRegion cr3 va stop flags → stop ≤ va)
    (hleft : children left = []) (hcr3 : proc'.cr3 = t.proc.cr3)
    (hend : proc'.anonAllocateEnd = t.proc.anonAllocateEnd ∧ c ≠ .resetAnon ∨
      proc'.anonAllocateEnd = 0x800000)
    (hok : ∀ d ∈ left, d.Ok ⟨proc', t.dead, left ++ rest⟩) :
    RunKeeps sites roots st' own t ⟨proc', t.dead, left ++ rest⟩ := by
  refine ⟨spaces_eq ht hc.2 hleft hcr3, own, t.proc.cr3, List.mem_cons_self, hremaps,
    halive.grows ht rfl hc hleft hcr3 hend (fun _ _ => Set.Subset.refl _) (fun cr3 _ => ?_) hok⟩
  exact (pendingPages_cons ht hregion cr3).trans Set.subset_union_right

/-- A step that maps one page in an address space of the process. -/
theorem RunKeeps.maps {c : KernelCall} {own' : Nat → Option Role} {cr3 va : Nat}
    (halive : t.Alive (mappedPages own)) (hspace : cr3 ∈ t.spaces)
    (hremaps : Remaps sites roots st' own own' cr3)
    (hmapped : mappedPages own' cr3 = mappedPages own cr3 ∪ {va}) (ht : t.calls = c :: rest)
    (hc : c ≠ .markDead ∧ c.child = none ∧ c ≠ .resetAnon) (hleft : children left = [])
    (hregion : ∀ cr3' va' stop flags, c = .allocateRegion cr3' va' stop flags →
      cr3' = cr3 ∧ va' = va ∧ .allocateRegion cr3' (va' + 0x1000) stop flags ∈ left)
    (hcr3 : proc'.cr3 = t.proc.cr3) (hend : proc'.anonAllocateEnd = t.proc.anonAllocateEnd)
    (hok : ∀ d ∈ left, d.Ok ⟨proc', t.dead, left ++ rest⟩) :
    RunKeeps sites roots st' own t ⟨proc', t.dead, left ++ rest⟩ := by
  refine ⟨spaces_eq ht hc.2.1 hleft hcr3, own', cr3, hspace, hremaps,
    halive.grows ht rfl ⟨hc.1, hc.2.1⟩ hleft hcr3 (Or.inl ⟨hend, hc.2.2⟩) (fun x _ => ?_)
      (fun x _ => ?_) hok⟩
  · by_cases hx : x = cr3
    · rw [hx, hmapped]
      exact Set.subset_union_left
    · rw [hremaps.mappedPages_eq hx]
  · rintro page ⟨va', stop, flags, hmem, hin⟩
    rw [ht] at hmem
    by_cases hhead : .allocateRegion x va' stop flags = c
    · obtain ⟨rfl, rfl, hnext⟩ := hregion x va' stop flags hhead.symm
      by_cases hpage : page = va'
      · left
        rw [hmapped]
        exact Or.inr hpage
      · have hc := halive.calls c (ht ▸ List.mem_cons_self)
        rw [← hhead] at hc
        have halign := hc.2.1
        obtain ⟨hle, hlt, hpa⟩ := hin
        exact Or.inr ⟨va' + 0x1000, stop, flags, List.mem_append_left _ hnext, by omega, hlt, hpa⟩
    · exact Or.inr ⟨va', stop, flags,
        List.mem_append_right _ (List.mem_of_ne_of_mem hhead hmem), hin⟩

/-- The step behind the last turn of a loop. -/
theorem RunKeeps.done {c : KernelCall} (h : TableInv sites st roots own)
    (hpages : PageInv st sites) (halive : t.Alive (mappedPages own)) (ht : t.calls = c :: rest)
    (hc : c ≠ .markDead ∧ c.child = none ∧ c ≠ .resetAnon)
    (hregion : ∀ cr3 va stop flags, c = .allocateRegion cr3 va stop flags → stop ≤ va) :
    RunKeeps sites roots st own t ⟨t.proc, t.dead, [] ++ rest⟩ :=
  RunKeeps.same halive (Remaps.refl hpages h _) ht ⟨hc.1, hc.2.1⟩ hregion rfl rfl
    (Or.inl ⟨rfl, hc.2.2⟩) (by simp)

/-- One turn of `free_region`. Only `exit_syscall` frees the stack. -/
theorem RunKeeps.frees {va stop : Nat} (h : TableInv sites st roots own)
    (hpages : PageInv st sites) (hphys : Physical sites) (hroot : t.proc.cr3 ∈ roots)
    (hnodup : t.spaces.Nodup) (halive : t.Alive (mappedPages own))
    (ht : t.calls = .freeRegion t.proc.cr3 va stop :: rest) (hlt : va < stop)
    (hok : KernelCall.Ok t (.freeRegion t.proc.cr3 va stop)) :
    RunKeeps sites roots (st.freeRegionPage t.proc.cr3 va) own t
      ⟨t.proc, t.dead, [.freeRegion t.proc.cr3 (add64 va 0x1000) stop] ++ rest⟩ := by
  obtain ⟨-, halign, hstop, hcase⟩ := hok
  obtain ⟨own', hremaps, hmapped⟩ := h.freeRegionPage_remaps hpages hphys hroot halign
    (Nat.lt_of_lt_of_le hlt hstop)
  have hspaces : UserThread.spaces ⟨t.proc, t.dead,
      [.freeRegion t.proc.cr3 (add64 va 0x1000) stop] ++ rest⟩ = t.spaces :=
    spaces_eq ht rfl rfl rfl
  have hcalls : ∀ c, c ∈ t.calls → c ≠ .freeRegion t.proc.cr3 va stop →
      c ∈ [.freeRegion t.proc.cr3 (add64 va 0x1000) stop] ++ rest := by
    intro c hmem hne
    rw [ht] at hmem
    exact List.mem_append_right _ (List.mem_of_ne_of_mem hne hmem)
  refine ⟨hspaces, own', t.proc.cr3, List.mem_cons_self, hremaps,
    halive.next ht rfl ⟨by simp, rfl⟩ rfl rfl (Or.inl ⟨rfl, by simp⟩) (fun hmark page hpage => ?_)
      ?_ (fun cr3 hmem => ?_) fun d hd => ?_⟩
  · obtain ⟨hlow, -⟩ := hcase.resolve_left hmark
    rw [hmapped]
    refine ⟨halive.stack hmark hpage, fun heq => ?_⟩
    have hlt' := hpage.2.1
    rw [Set.mem_singleton_iff] at heq
    omega
  · rcases hcase with hmark | ⟨-, hreset | hend⟩
    · exact Or.inl hmark
    · exact Or.inr (Or.inl hreset)
    · refine Or.inr (Or.inr fun page hpage => ?_)
      have := hpage.1
      have := hpage.2.1
      omega
  · have hne : cr3 ≠ t.proc.cr3 := by
      rintro rfl
      exact (List.nodup_cons.mp hnodup).1 hmem
    rw [hremaps.mappedPages_eq hne]
    exact Set.union_subset_union_right _ (pendingPages_cons ht (by simp) cr3)
  · rw [List.mem_singleton.mp hd]
    refine ⟨rfl, ?_, hstop, hcase.imp (fun hmark => hcalls _ hmark (by simp)) fun hlow =>
      ⟨?_, hlow.2.imp_left fun hreset => hcalls _ hreset (by simp)⟩⟩
    · rw [add64_eq (by omega)]
      omega
    · rw [add64_eq (by omega)]
      omega

/-- One turn of the loop of `anon_allocate_syscall`. -/
theorem RunKeeps.anon {pages : Nat} (h : TableInv sites st roots own)
    (hpages : PageInv st sites) (hphys : Physical sites) (hsites : sites.length ≤ 0x100)
    (hroot : t.proc.cr3 ∈ roots) (halive : t.Alive (mappedPages own))
    (ht : t.calls = [.anonAllocate (pages + 1)])
    (hmap : st.mapMemoryPage t.proc.cr3 t.proc.anonAllocateEnd 7 = some st') :
    RunKeeps sites roots st' own t
      ⟨{ t.proc with anonAllocateEnd := add64 t.proc.anonAllocateEnd 0x1000 }, t.dead,
        [.anonAllocate pages]⟩ := by
  have hbelow := halive.below
  have halign := halive.aligned
  have habove := halive.above
  have hanon := halive.anonPages (by simp [ht]) (by simp [ht])
  have hbound := h.region_le hpages hsites (by decide) hbelow fun _ hin => (hanon hin).2
  obtain ⟨own', hremaps, -, hmapped⟩ :=
    h.mapMemoryPage_remaps hpages hphys hroot (by omega) (by decide) hmap
  have hbase : t.proc.anonAllocateEnd / 0x1000 * 0x1000 = t.proc.anonAllocateEnd := by omega
  rw [hbase] at hmapped
  have hend : add64 t.proc.anonAllocateEnd 0x1000 = t.proc.anonAllocateEnd + 0x1000 :=
    add64_eq (by omega)
  have hspaces : UserThread.spaces
      ⟨{ t.proc with anonAllocateEnd := add64 t.proc.anonAllocateEnd 0x1000 }, t.dead,
        [.anonAllocate pages] ++ []⟩ = t.spaces := spaces_eq ht rfl rfl rfl
  refine ⟨hspaces, own', t.proc.cr3, List.mem_cons_self, hremaps, ⟨fun _ => ?_, Or.inr (Or.inr ?_),
    ?_, ?_, ?_, by simp [children, KernelCall.child], ?_⟩⟩
  · rw [hmapped]
    exact (halive.stack (by rw [ht]; simp)).trans Set.subset_union_left
  · simp only [hend, hmapped]
    intro page hpage
    have hlt := hpage.2.1
    by_cases hlast : page = t.proc.anonAllocateEnd
    · exact Or.inr hlast
    · have hpa := hpage.2.2
      exact Or.inl (hanon ⟨hpage.1, by omega, hpa⟩)
  · simp only [hend]
    omega
  · simp only [hend]
    omega
  · simp only [hend]
    omega
  · intro d hd
    rw [List.mem_singleton.mp hd]
    rfl

/-- One turn of the loop of `allocate_region`. -/
theorem RunKeeps.allocates {cr3 va stop flags : Nat} (h : TableInv sites st roots own)
    (hpages : PageInv st sites) (hphys : Physical sites) (hroots : ∀ cr3 ∈ t.spaces, cr3 ∈ roots)
    (halive : t.Alive (mappedPages own)) (ht : t.calls = .allocateRegion cr3 va stop flags :: rest)
    (hlt : va < stop) (hok : KernelCall.Ok t (.allocateRegion cr3 va stop flags))
    (hmap : st.mapMemoryPage cr3 va flags = some st') :
    RunKeeps sites roots st' own t
      ⟨t.proc, t.dead, [.allocateRegion cr3 (add64 va 0x1000) stop flags] ++ rest⟩ := by
  obtain ⟨hspace, halign, hstop, hflags⟩ := hok
  obtain ⟨own', hremaps, -, hmapped⟩ := h.mapMemoryPage_remaps hpages hphys
    (hroots cr3 hspace) (Nat.lt_of_lt_of_le hlt hstop) hflags hmap
  have hbase : va / 0x1000 * 0x1000 = va := by omega
  have hnext : add64 va 0x1000 = va + 0x1000 := add64_eq (by omega)
  rw [hbase] at hmapped
  rw [hnext]
  have hspaces : UserThread.spaces ⟨t.proc, t.dead,
      [.allocateRegion cr3 (va + 0x1000) stop flags] ++ rest⟩ = t.spaces :=
    spaces_eq ht rfl rfl rfl
  refine RunKeeps.maps halive hspace hremaps hmapped ht ⟨by simp, rfl, by simp⟩ rfl ?_ rfl rfl
    fun d hd => ?_
  · intro cr3' va' stop' flags' heq
    cases heq
    exact ⟨rfl, rfl, List.mem_cons_self⟩
  · rw [List.mem_singleton.mp hd]
    exact ⟨hspaces ▸ hspace, by omega, hstop, hflags⟩

/-- One turn of the loop of `copy_pages_between_pagetables`. -/
theorem RunKeeps.copies {dst src va stop : Nat} (h : TableInv sites st roots own)
    (hpages : PageInv st sites) (hphys : Physical sites) (hroots : ∀ cr3 ∈ t.spaces, cr3 ∈ roots)
    (halive : t.Alive (mappedPages own)) (ht : t.calls = .copyPages dst src va stop :: rest)
    (hlt : va < stop) (hok : KernelCall.Ok t (.copyPages dst src va stop)) :
    RunKeeps sites roots (copyPage dst src va (st, 0)).1 own t
      ⟨t.proc, t.dead, [.copyPages dst src (add64 va 0x1000) stop] ++ rest⟩ := by
  obtain ⟨hdst, hsrc, hstop⟩ := hok
  have hremaps := h.copyPage_remaps hpages hphys (hroots dst hdst) (hroots src hsrc)
    (Nat.lt_of_lt_of_le hlt hstop)
  have hspaces : UserThread.spaces ⟨t.proc, t.dead,
      [.copyPages dst src (add64 va 0x1000) stop] ++ rest⟩ = t.spaces := spaces_eq ht rfl rfl rfl
  refine RunKeeps.same halive ⟨hremaps.pages, hremaps.tables, fun _ _ _ _ _ => Iff.rfl⟩ ht
    ⟨by simp, rfl⟩ (by simp) rfl rfl (Or.inl ⟨rfl, by simp⟩) fun d hd => ?_
  rw [List.mem_singleton.mp hd]
  exact ⟨hspaces ▸ hdst, hspaces ▸ hsrc, hstop⟩

/-- One turn of the loop of `map_elf` over the pages of a segment. -/
theorem RunKeeps.segment {vaddr j pages : Nat} (h : TableInv sites st roots own)
    (hpages : PageInv st sites) (hphys : Physical sites) (hroot : t.proc.cr3 ∈ roots)
    (halive : t.Alive (mappedPages own)) (ht : t.calls = .mapSegment vaddr j pages :: rest)
    (hlt : j < pages) (hok : KernelCall.Ok t (.mapSegment vaddr j pages))
    (hmap : st.mapMemoryPage t.proc.cr3 (segmentPage vaddr j) 7 = some st') :
    RunKeeps sites roots st' own t
      ⟨t.proc, t.dead, [.mapSegment vaddr (j + 1) pages] ++ rest⟩ := by
  have hbound : ∀ j < pages, segmentPage vaddr j < 0x800000000000 := hok
  obtain ⟨own', hremaps, -, hmapped⟩ :=
    h.mapMemoryPage_remaps hpages hphys hroot (hbound j hlt) (by decide) hmap
  refine RunKeeps.maps halive List.mem_cons_self hremaps hmapped ht ⟨by simp, rfl, by simp⟩ rfl
    (by simp) rfl rfl fun d hd => ?_
  rw [List.mem_singleton.mp hd]
  exact hbound

/-- A byte that `copy_to_user` writes. -/
theorem RunKeeps.writes {va k n : Nat} {bytes : Nat → UInt8} (h : TableInv sites st roots own)
    (hpages : PageInv st sites) (hphys : Physical sites) (hroot : t.proc.cr3 ∈ roots)
    (halive : t.Alive (mappedPages own)) (ht : t.calls = .copyIn va bytes k n :: rest)
    (hlt : k < n) (hok : KernelCall.Ok t (.copyIn va bytes k n))
    (hwrite : st.write t.proc.cr3 (add64 va k) (bytes k) = some st') :
    RunKeeps sites roots st' own t ⟨t.proc, t.dead, [.copyIn va bytes (k + 1) n] ++ rest⟩ := by
  have hbound : va + n ≤ 0x800000000000 := hok
  rw [add64_eq (by omega)] at hwrite
  obtain ⟨-, -, -, hpages', h'⟩ := h.write hpages hphys hroot (by omega) hwrite
  refine RunKeeps.same halive (Remaps.refl hpages' h' _) ht ⟨by simp, rfl⟩ (by simp) rfl rfl
    (Or.inl ⟨rfl, by simp⟩) fun d hd => ?_
  rw [List.mem_singleton.mp hd]
  exact hbound

/-- One step of a statement, by its kind. -/
theorem KernelCall.run_keeps {c : KernelCall} (h : TableInv sites st roots own)
    (hpages : PageInv st sites) (hphys : Physical sites) (hsites : sites.length ≤ 0x100)
    (hroots : ∀ cr3 ∈ t.spaces, cr3 ∈ roots) (hnodup : t.spaces.Nodup)
    (halive : t.Alive (mappedPages own)) (ht : t.calls = c :: rest)
    (hrun : c.run st t.proc = some (st', proc', left)) :
    RunKeeps sites roots st' own t ⟨proc', t.dead, left ++ rest⟩ := by
  have hok : c.Ok t := halive.calls c (ht ▸ List.mem_cons_self)
  have hroot : t.proc.cr3 ∈ roots := hroots _ List.mem_cons_self
  cases c with
  | allocateRegion cr3 va stop flags =>
      rw [KernelCall.run] at hrun
      by_cases hlt : va < stop
      · rw [if_pos hlt] at hrun
        obtain ⟨st₁, hmap, heq⟩ := Option.map_eq_some_iff.mp hrun
        cases heq
        exact RunKeeps.allocates h hpages hphys hroots halive ht hlt hok hmap
      · rw [if_neg hlt] at hrun
        cases hrun
        refine RunKeeps.done h hpages halive ht ⟨by simp, rfl, by simp⟩ fun _ _ _ _ heq => ?_
        cases heq
        exact Nat.le_of_not_lt hlt
  | freeRegion cr3 va stop =>
      obtain rfl : cr3 = t.proc.cr3 := hok.1
      rw [KernelCall.run] at hrun
      by_cases hlt : va < stop
      · rw [if_pos hlt] at hrun
        cases hrun
        exact RunKeeps.frees h hpages hphys hroot hnodup halive ht hlt hok
      · rw [if_neg hlt] at hrun
        cases hrun
        exact RunKeeps.done h hpages halive ht ⟨by simp, rfl, by simp⟩ (by simp)
  | copyPages dst src va stop =>
      rw [KernelCall.run] at hrun
      by_cases hlt : va < stop
      · rw [if_pos hlt] at hrun
        cases hrun
        exact RunKeeps.copies h hpages hphys hroots halive ht hlt hok
      · rw [if_neg hlt] at hrun
        cases hrun
        exact RunKeeps.done h hpages halive ht ⟨by simp, rfl, by simp⟩ (by simp)
  | anonAllocate pages =>
      have hlength : t.calls.length = 1 := hok
      rw [ht, List.length_cons] at hlength
      obtain rfl : rest = [] := List.eq_nil_of_length_eq_zero (by omega)
      cases pages with
      | zero =>
          cases hrun
          exact RunKeeps.done h hpages halive ht ⟨by simp, rfl, by simp⟩ (by simp)
      | succ pages =>
          obtain ⟨st₁, hmap, heq⟩ := Option.map_eq_some_iff.mp hrun
          cases heq
          exact RunKeeps.anon h hpages hphys hsites hroot halive ht hmap
  | resetAnon =>
      cases hrun
      exact RunKeeps.same halive (Remaps.refl hpages h _) ht ⟨by simp, rfl⟩ (by simp) rfl rfl
        (Or.inr rfl) (by simp)
  | mapSegment vaddr j pages =>
      rw [KernelCall.run] at hrun
      by_cases hlt : j < pages
      · rw [if_pos hlt] at hrun
        obtain ⟨st₁, hmap, heq⟩ := Option.map_eq_some_iff.mp hrun
        cases heq
        exact RunKeeps.segment h hpages hphys hroot halive ht hlt hok hmap
      · rw [if_neg hlt] at hrun
        cases hrun
        exact RunKeeps.done h hpages halive ht ⟨by simp, rfl, by simp⟩ (by simp)
  | copyIn va bytes k n =>
      rw [KernelCall.run] at hrun
      by_cases hlt : k < n
      · rw [if_pos hlt] at hrun
        obtain ⟨st₁, hwrite, heq⟩ := Option.map_eq_some_iff.mp hrun
        cases heq
        exact RunKeeps.writes h hpages hphys hroot halive ht hlt hok hwrite
      · rw [if_neg hlt] at hrun
        cases hrun
        exact RunKeeps.done h hpages halive ht ⟨by simp, rfl, by simp⟩ (by simp)
  | setElfEnd elfEnd =>
      cases hrun
      exact RunKeeps.same halive (Remaps.refl hpages h _) ht ⟨by simp, rfl⟩ (by simp) rfl rfl
        (Or.inl ⟨rfl, by simp⟩) (by simp)
  | insertProcess newCr3 => cases hrun
  | markDead => cases hrun

end Run

end BayosKernel
