import BayosKernel.PageOwnership
import BayosKernel.SpaceCopies

/-!
`fork_syscall` up to `insert_process`: the child has a page of its own, with the
same bytes, for every user page of the parent.
-/

namespace BayosKernel

open Foundation

/-- The pages that `elf_end` and `anon_allocate_end` stand for, by their first addresses. -/
def UserProcess.InRanges (proc : UserProcess) (va : Nat) : Prop :=
  InRegion 0x200000 proc.elfEnd.toNat va ∨ InRegion 0x800000 proc.anonAllocateEnd va

/-- What `fork_syscall` does, in terms of `Maps`. -/
structure Forks (sites : List Site) (st st' : PageState) (own own' : Nat → Option Role)
    (proc : UserProcess) (newCr3 : Nat) : Prop where
  bound : proc.anonAllocateEnd ≤ 0x800000 + 256000001 * 0x1000
  fresh : newCr3 ∉ st.allocated
  unowned : own newCr3 = none
  accounted : ∀ p ∈ st'.allocated, p ∈ st.allocated ∨ ∃ r, own' p = some r
  leaves : ∀ d q, own' d = some q → q.height = 0 →
    own d = some q ∨ ∃ va, proc.InRanges va ∧ Maps own' newCr3 va d
  keeps : ∀ d r, own d = some r → own' d = some r
  child : ∀ va < 0x800000000000, ∀ q, Maps own' newCr3 va q →
    q ∉ st.allocated ∧ proc.InRanges (va / 0x1000 * 0x1000)
  mapped : ∀ va, proc.InRanges va → ∃ q, Maps own' newCr3 va q
  others : ∀ t ≠ newCr3, ∀ va < 0x800000000000, ∀ c, Maps own' t va c ↔ Maps own t va c
  bytes : ∀ va, proc.InRanges va → ∀ p q, Maps own proc.cr3 va p → Maps own' newCr3 va q →
    ∀ i < 0x1000, st'.mem (q + i) = st.mem (p + i)
  data : ∀ t ≠ newCr3, ∀ va < 0x800000000000, ∀ p, Maps own t va p →
    ∀ i < 0x1000, st'.mem (p + i) = st.mem (p + i)
  upper : ∀ i, 256 ≤ i → i < 512 → entry st'.mem newCr3 i = entry st.mem proc.cr3 i ∧
    entry st'.mem proc.cr3 i = entry st.mem proc.cr3 i

/-- The two calls of `allocate_region` on an address space without mappings. -/
structure Regions (sites : List Site) (st st' : PageState) (own own' : Nat → Option Role)
    (proc : UserProcess) (newCr3 : Nat) : Prop where
  bound : proc.anonAllocateEnd ≤ 0x800000 + 256000001 * 0x1000
  grows : Grows sites st st' own own'
  child : ∀ va < 0x800000000000, ∀ q, Maps own' newCr3 va q →
    q ∉ st.allocated ∧ proc.InRanges (va / 0x1000 * 0x1000)
  mapped : ∀ va, proc.InRanges va → ∃ q, Maps own' newCr3 va q
  leaves : ∀ d q, own' d = some q → q.height = 0 →
    own d = some q ∨ ∃ va, proc.InRanges va ∧ Maps own' newCr3 va d
  others : ∀ t ≠ newCr3, ∀ va < 0x800000000000, ∀ c, Maps own' t va c ↔ Maps own t va c

/-- The two calls of `copy_pages_between_pagetables`. -/
structure CopiedRanges (sites : List Site) (st st' : PageState) (own : Nat → Option Role)
    (proc : UserProcess) (newCr3 : Nat) : Prop where
  allocated : st'.allocated = st.allocated
  bytes : ∀ va, proc.InRanges va → ∀ p q, Maps own proc.cr3 va p → Maps own newCr3 va q →
    ∀ i < 0x1000, st'.mem (q + i) = st.mem (p + i)
  kept : ∀ p, Frame sites p → (∀ va < 0x800000000000, ¬Maps own newCr3 va p) →
    ∀ i < 0x1000, st'.mem (p + i) = st.mem (p + i)

section Ranges

variable {st st₁ st' twin : PageState} {sites : List Site} {roots before : List Nat}
  {own : Nat → Option Role} {fuel n n' newCr3 : Nat} {proc : UserProcess}

theorem TableInv.allocateRegions_lockstep (hlike : Alike sites before own st twin)
    (h : TableInv sites st roots own) (hpages : PageInv st sites) (hphys : Physical sites)
    (hsites : sites.length ≤ 0x100) (hroot : newCr3 ∈ roots)
    (hempty : ∀ va c, ¬Maps own newCr3 va c)
    (helf : st.allocateRegion fuel newCr3 0x200000 proc.elfEnd.toNat 7 = some st₁)
    (hanon : st₁.allocateRegion fuel newCr3 0x800000 proc.anonAllocateEnd 7 = some st') :
    ∃ twin₁ twin', twin.allocateRegion fuel newCr3 0x200000 proc.elfEnd.toNat 7 = some twin₁ ∧
      twin₁.allocateRegion fuel newCr3 0x800000 proc.anonAllocateEnd 7 = some twin' ∧
      ∃ own', PageInv st' sites ∧ TableInv sites st' roots own' ∧
        Regions sites st st' own own' proc newCr3 ∧ Alike sites before own' st' twin' := by
  have hflags : PageFlags 7 := by decide
  have helfEnd : proc.elfEnd.toNat ≤ 0x800000000000 :=
    Nat.le_trans (Nat.le_of_lt proc.elfEnd.toNat_lt) (by decide)
  obtain ⟨twin₁, htwin₁, own₁, hpages₁, h₁, hall₁, hlike₁⟩ :=
    h.allocateRegion_lockstep hlike hpages hphys hroot helfEnd hflags helf
  have hbound := h₁.allocateRegion_le hpages₁ hphys hsites hroot hflags (by decide) (by decide) hanon
  have hanonEnd : proc.anonAllocateEnd ≤ 0x800000000000 := Nat.le_trans hbound (by decide)
  obtain ⟨twin', htwin', own₂, hpages₂, h₂, hall₂, hlike₂⟩ :=
    h₁.allocateRegion_lockstep hlike₁ hpages₁ hphys hroot hanonEnd hflags hanon
  have hstart : pageRoundDown 0x200000 = 0x200000 ∧ pageRoundDown 0x800000 = 0x800000 := by decide
  rw [hstart.1] at hall₁
  rw [hstart.2] at hall₂
  refine ⟨twin₁, twin', htwin₁, htwin', own₂, hpages₂, h₂, ⟨hbound, hall₁.grows.trans hall₂.grows,
    fun va hva q hq => ?_, fun va hin => ?_, fun d q hd hq => ?_, fun t ht va hva c => ?_⟩, hlike₂⟩
  · rcases hall₂.maps_cases h₁ hq hva hanonEnd with hq | ⟨-, hfresh, hin⟩
    · rcases hall₁.maps_cases h hq hva helfEnd with hq | ⟨-, hfresh, hin⟩
      · exact absurd hq (hempty va q)
      · exact ⟨hfresh, Or.inl hin⟩
    · exact ⟨fun hmem => hfresh (hall₁.grows.allocated q hmem), Or.inr hin⟩
  · rcases hin with hin | hin
    · obtain ⟨q, hq⟩ := hall₁.mapped va hin
      exact ⟨q, hq.mono hall₂.grows.keeps⟩
    · exact hall₂.mapped va hin
  · rcases hall₂.leaves d q hd hq with hd | ⟨-, va, hin, hmaps⟩
    · rcases hall₁.leaves d q hd hq with hd | ⟨-, va, hin, hmaps⟩
      · exact Or.inl hd
      · exact Or.inr ⟨va, Or.inl hin, hmaps.mono hall₂.grows.keeps⟩
    · exact Or.inr ⟨va, Or.inr hin, hmaps⟩
  · rw [hall₂.maps_other h₁ ht hva hanonEnd, hall₁.maps_other h ht hva helfEnd]

theorem TableInv.copyRanges (h : TableInv sites st roots own) (hpages : PageInv st sites)
    (hphys : Physical sites) (hnew : newCr3 ∈ roots) (hroot : proc.cr3 ∈ roots)
    (hne : proc.cr3 ≠ newCr3) (hbound : proc.anonAllocateEnd ≤ 0x800000 + 256000001 * 0x1000)
    (hcopy : copyPagesBetweenPagetables fuel st newCr3 proc.cr3 0x200000 proc.elfEnd.toNat =
      some (st₁, n))
    (hcopy' : copyPagesBetweenPagetables fuel st₁ newCr3 proc.cr3 0x800000 proc.anonAllocateEnd =
      some (st', n')) :
    PageInv st' sites ∧ TableInv sites st' roots own ∧
      CopiedRanges sites st st' own proc newCr3 := by
  have helfEnd := proc.elfEnd.toNat_lt
  obtain ⟨hpages₁, h₁, hcopied⟩ :=
    h.copyPages hpages hphys hnew hroot hne.symm (by decide) (by omega) hcopy
  obtain ⟨hpages₂, h₂, hcopied'⟩ :=
    h₁.copyPages hpages₁ hphys hnew hroot hne.symm (by decide) (by omega) hcopy'
  refine ⟨hpages₂, h₂, hcopied'.allocated.trans hcopied.allocated,
    fun va hin p q hp hq i hi => ?_, fun p hp hleaf i hi => ?_⟩
  · have hin' : InRegion 0x200000 (0x200000 + proc.elfEnd.toNat) va ∨
        InRegion 0x800000 (0x800000 + proc.anonAllocateEnd) va := by
      simp only [UserProcess.InRanges, InRegion] at hin ⊢
      omega
    exact hcopied.bytes_seq hcopied' h hpages h₁ hpages₁ hne (by omega) (by omega) hin' hp hq hi
  · rw [hcopied'.page_kept h₁ hpages₁ hp (fun va _ => hleaf va (by omega)) hi,
      hcopied.page_kept h hpages hp (fun va _ => hleaf va (by omega)) hi]

theorem Alike.copyRanges (hlike : Alike sites before own st twin) (h : TableInv sites st roots own)
    (hpages : PageInv st sites) (hphys : Physical sites) (hnew : newCr3 ∈ roots)
    (hroot : proc.cr3 ∈ roots) (hne : proc.cr3 ≠ newCr3)
    (hbound : proc.anonAllocateEnd ≤ 0x800000 + 256000001 * 0x1000)
    (hfresh : ∀ va < 0x800000000000, ∀ q, Maps own newCr3 va q → q ∉ before)
    (hcopy : copyPagesBetweenPagetables fuel st newCr3 proc.cr3 0x200000 proc.elfEnd.toNat =
      some (st₁, n))
    (hcopy' : copyPagesBetweenPagetables fuel st₁ newCr3 proc.cr3 0x800000 proc.anonAllocateEnd =
      some (st', n')) :
    ∃ twin₁ twin' k k', copyPagesBetweenPagetables fuel twin newCr3 proc.cr3 0x200000
        proc.elfEnd.toNat = some (twin₁, k) ∧
      copyPagesBetweenPagetables fuel twin₁ newCr3 proc.cr3 0x800000 proc.anonAllocateEnd =
        some (twin', k') ∧
      Alike sites before own st' twin' ∧ CopiedRanges sites twin twin' own proc newCr3 := by
  have helfEnd := proc.elfEnd.toNat_lt
  obtain ⟨twin₁, k, htwin₁, hlike₁⟩ := hlike.copyPages h hpages hphys hnew hroot hne.symm
    (by decide) (by omega) hfresh hcopy
  obtain ⟨hpages₁, h₁, -⟩ :=
    h.copyPages hpages hphys hnew hroot hne.symm (by decide) (by omega) hcopy
  obtain ⟨twin', k', htwin', hlike'⟩ := hlike₁.copyPages h₁ hpages₁ hphys hnew hroot hne.symm
    (by decide) (by omega) hfresh hcopy'
  obtain ⟨-, -, hcopied⟩ := (hlike.tableInv h hpages).copyRanges (hlike.pageInv hpages) hphys hnew
    hroot hne hbound htwin₁ htwin'
  exact ⟨twin₁, twin', k, k', htwin₁, htwin', hlike', hcopied⟩

namespace CopiedRanges

/-- A page of another address space keeps its contents. -/
theorem other_kept (hcopied : CopiedRanges sites st st' own proc newCr3)
    (h : TableInv sites st roots own) (hpages : PageInv st sites) {t va p i : Nat}
    (ht : t ≠ newCr3) (hva : va < 0x800000000000) (hp : Maps own t va p) (hi : i < 0x1000) :
    st'.mem (p + i) = st.mem (p + i) := by
  obtain ⟨pt, j, hrole⟩ := hp.owned
  exact hcopied.kept p (h.frame hpages hrole)
    (fun va' hva' hq => ht (hp.injective hq (by omega) (by omega)).1) i hi

/-- So does a table. -/
theorem table_kept (hcopied : CopiedRanges sites st st' own proc newCr3)
    (h : TableInv sites st roots own) (hpages : PageInv st sites) {t i : Nat} {r : Role}
    (ht : own t = some r) (hr : 0 < r.height) (hi : i < 512) :
    entry st'.mem t i = entry st.mem t i := by
  refine entry_congr hi fun x hle hlt => ?_
  obtain ⟨k, rfl⟩ := Nat.exists_eq_add_of_le hle
  refine hcopied.kept t (h.frame hpages ht) (fun va _ hq => ?_) k (by omega)
  obtain ⟨pt, j, hrole⟩ := hq.owned
  rw [ht] at hrole
  cases hrole
  simp at hr

end CopiedRanges

end Ranges

namespace TableInv

variable {st st' twin : PageState} {sites : List Site} {roots before : List Nat}
  {own : Nat → Option Role} {fuel : Nat} {proc child : UserProcess}

/-- `fork_syscall` on a state and its twin: where the parent has a page that was
handed out before, the copies agree. -/
theorem forkSyscall_lockstep (hlike : Alike sites before own st twin)
    (hbefore : ∀ p ∈ before, p ∈ st.allocated) (h : TableInv sites st roots own)
    (hpages : PageInv st sites) (hphys : Physical sites) (hsites : sites.length ≤ 0x100)
    (hroot : proc.cr3 ∈ roots) (hrun : forkSyscall fuel st proc = some (st', child))
    (hne : child.cr3 ≠ NULL) :
    child = { proc with cr3 := child.cr3 } ∧ ∃ own' twin',
      BayosKernel.forkSyscall fuel twin proc = some (twin', child) ∧ PageInv st' sites ∧
      TableInv sites st' (child.cr3 :: roots) own' ∧ Forks sites st st' own own' proc child.cr3 ∧
      Alike sites before own' st' twin' ∧
      ∀ va, proc.InRanges va → ∀ p q, p ∈ before → Maps own proc.cr3 va p →
        Maps own' child.cr3 va q → ∀ i < 0x1000, twin'.mem (q + i) = st'.mem (q + i) := by
  obtain ⟨⟨st₁, newCr3⟩, hnew, hrun⟩ := Option.bind_eq_some_iff.mp hrun
  obtain ⟨st₂, helf, hrun⟩ := Option.bind_eq_some_iff.mp hrun
  obtain ⟨st₃, hanon, hrun⟩ := Option.bind_eq_some_iff.mp hrun
  obtain ⟨⟨st₄, n⟩, hcopy, hrun⟩ := Option.bind_eq_some_iff.mp hrun
  obtain ⟨⟨st₅, n'⟩, hcopy', heq⟩ := Option.map_eq_some_iff.mp hrun
  obtain ⟨hst, hchild⟩ := Prod.mk.inj heq
  subst hst hchild
  refine ⟨rfl, ?_⟩
  simp only at hne ⊢
  obtain ⟨hpages₁, h₁, hspace⟩ := h.newSpace hpages hroot hnew hne
  obtain ⟨twin₁, htwin₁, hlike₁⟩ := hlike.newSpace h hpages hroot hnew
  have hcr3 : proc.cr3 ∈ newCr3 :: roots := List.mem_cons_of_mem _ hroot
  have hother : proc.cr3 ≠ newCr3 := by
    rintro heq
    obtain ⟨r, hr, -⟩ := h.roots _ hroot
    rw [heq, hspace.unowned] at hr
    cases hr
  have hempty : ∀ va c, ¬Maps (withRoot own newCr3) newCr3 va c := fun va c hmaps =>
    h.not_maps hspace.unowned ((maps_withRoot hspace.unowned).mp hmaps)
  obtain ⟨twin₂, twin₃, htwin₂, htwin₃, own', hpages₃, h₃, hregions, hlike₃⟩ :=
    h₁.allocateRegions_lockstep hlike₁ hpages₁ hphys hsites List.mem_cons_self hempty helf hanon
  have hchild : ∀ va < 0x800000000000, ∀ q, Maps own' newCr3 va q →
      q ∉ st.allocated ∧ proc.InRanges (va / 0x1000 * 0x1000) := by
    intro va hva q hq
    obtain ⟨hfresh, hin⟩ := hregions.child va hva q hq
    refine ⟨fun hmem => hfresh ?_, hin⟩
    rw [hspace.allocated]
    exact List.mem_cons_of_mem _ hmem
  obtain ⟨hpages₅, h₅, hcopied⟩ := h₃.copyRanges hpages₃ hphys List.mem_cons_self hcr3 hother
    hregions.bound hcopy hcopy'
  obtain ⟨twin₄, twin₅, k, k', htwin₄, htwin₅, hlike₅, hcopied'⟩ :=
    hlike₃.copyRanges h₃ hpages₃ hphys List.mem_cons_self hcr3 hother hregions.bound
      (fun va hva q hq hmem => (hchild va hva q hq).1 (hbefore q hmem)) hcopy hcopy'
  have hkeeps : ∀ d r, own d = some r → own' d = some r := fun d r hd =>
    hregions.grows.keeps d r (withRoot_keeps hspace.unowned hd)
  have hinner : ∀ t va p, Maps own t va p → ∀ i < 0x1000, st₃.mem (p + i) = st.mem (p + i) := by
    intro t va p hp i hi
    obtain ⟨pt, j, hrole⟩ := hp.owned
    have hframe := h.frame hpages hrole
    have hpn : p ≠ newCr3 := by
      rintro rfl
      rw [hspace.unowned] at hrole
      cases hrole
    rw [hregions.grows.data p hframe (fun q hq => ?_) _ (by omega) (by omega),
      hspace.data p hframe hpn _ (by omega) (by omega)]
    rw [hkeeps p _ hrole] at hq
    cases hq
    rfl
  have hupper : ∀ t r, withRoot own newCr3 t = some r → r.height = 4 → ∀ i, 256 ≤ i → i < 512 →
      entry st₅.mem t i = entry st₁.mem t i := by
    intro t r ht hr i hle hlt
    rw [hcopied.table_kept h₃ hpages₃ (hregions.grows.keeps t r ht) (by omega) hlt,
      hregions.grows.upper t r ht hr i hle hlt]
  refine ⟨own', twin₅, ?_, hpages₅, h₅, ⟨hregions.bound, hspace.fresh, hspace.unowned,
    fun p hp => ?_, fun d q hd hq => ?_, hkeeps, hchild, hregions.mapped, fun t ht va hva c => ?_,
    fun va hin p q hp hq i hi => ?_, fun t ht va hva p hp i hi => ?_, fun i hle hlt => ⟨?_, ?_⟩⟩,
    hlike₅, fun va hin p q hmem hp hq i hi => ?_⟩
  · simp only [BayosKernel.forkSyscall, htwin₁, htwin₂, htwin₃, htwin₄, htwin₅, Option.bind_some,
      Option.map_some]
  · rw [hcopied.allocated] at hp
    refine (hregions.grows.accounted p hp).elim (fun hp => ?_) Or.inr
    rw [hspace.allocated] at hp
    rcases List.mem_cons.mp hp with rfl | hp
    · exact Or.inr ⟨_, hregions.grows.keeps p _ (Function.update_self ..)⟩
    · exact Or.inl hp
  · refine (hregions.leaves d q hd hq).imp_left fun hd => ?_
    rcases withRoot_cases hd with ⟨hd, -⟩ | ⟨-, rfl⟩
    · exact hd
    · simp at hq
  · rw [hregions.others t ht va hva c, maps_withRoot hspace.unowned]
  · rw [hcopied.bytes va hin p q (hp.mono hkeeps) hq i hi, hinner _ va p hp i hi]
  · rw [hcopied.other_kept h₃ hpages₃ ht hva (hp.mono hkeeps) hi, hinner t va p hp i hi]
  · rw [hupper newCr3 _ (Function.update_self ..) rfl i hle hlt, hspace.upper i hle hlt]
  · obtain ⟨r, hr, hheight⟩ := h.roots _ hroot
    rw [hupper _ r (withRoot_keeps hspace.unowned hr) hheight i hle hlt]
    exact entry_congr hlt (hspace.data _ (h.frame hpages hr) hother)
  · -- The page of the parent is not hidden, so that both copies have one source.
    have hsource : twin₃.mem (p + i) = st₃.mem (p + i) :=
      hlike₃.page_eq hpages₃ hmem (h.frame hpages hp.owned.choose_spec.choose_spec).aligned hi
    rw [hcopied'.bytes va hin p q (hp.mono hkeeps) hq i hi, hsource,
      hcopied.bytes va hin p q (hp.mono hkeeps) hq i hi]

theorem forkSyscall (h : TableInv sites st roots own) (hpages : PageInv st sites)
    (hphys : Physical sites) (hsites : sites.length ≤ 0x100) (hroot : proc.cr3 ∈ roots)
    (hrun : forkSyscall fuel st proc = some (st', child)) (hne : child.cr3 ≠ NULL) :
    child = { proc with cr3 := child.cr3 } ∧ ∃ own', PageInv st' sites ∧
      TableInv sites st' (child.cr3 :: roots) own' ∧ Forks sites st st' own own' proc child.cr3 := by
  obtain ⟨hchild, own', -, -, hpages', h', hforks, -⟩ := h.forkSyscall_lockstep
    (Alike.refl sites [] own st) (fun p hp => absurd hp List.not_mem_nil) hpages hphys hsites hroot
    hrun hne
  exact ⟨hchild, own', hpages', h', hforks⟩

end TableInv

/-- A call that finds a page for the PML4 does not go on with NULL. -/
theorem newSpace_ne_null {st st' : PageState} {cr3 newCr3 : Nat}
    (hfree : ∀ m, allocatePage st.mem st.areas ≠ some (m, NULL))
    (hnew : st.newSpace cr3 = some (st', newCr3)) : newCr3 ≠ NULL := by
  obtain ⟨⟨st₀, page⟩, halloc, hnew⟩ := Option.map_eq_some_iff.mp hnew
  obtain ⟨⟨m, page'⟩, hpage, halloc⟩ := Option.map_eq_some_iff.mp halloc
  obtain ⟨-, rfl⟩ := Prod.mk.inj hnew
  obtain ⟨-, rfl⟩ := Prod.mk.inj halloc
  rintro rfl
  exact hfree m hpage

theorem forkSyscall_ne_null {fuel : Nat} {st st' : PageState} {proc child : UserProcess}
    (hfree : ∀ m, allocatePage st.mem st.areas ≠ some (m, NULL))
    (hrun : forkSyscall fuel st proc = some (st', child)) : child.cr3 ≠ NULL := by
  obtain ⟨⟨st₁, newCr3⟩, hnew, hrun⟩ := Option.bind_eq_some_iff.mp hrun
  obtain ⟨st₂, -, hrun⟩ := Option.bind_eq_some_iff.mp hrun
  obtain ⟨st₃, -, hrun⟩ := Option.bind_eq_some_iff.mp hrun
  obtain ⟨s₄, -, hrun⟩ := Option.bind_eq_some_iff.mp hrun
  obtain ⟨s₅, -, heq⟩ := Option.map_eq_some_iff.mp hrun
  obtain ⟨-, rfl⟩ := Prod.mk.inj heq
  exact newSpace_ne_null hfree hnew

/-- With a page for the PML4 and four for each page of the ranges `fork_syscall`
comes to `insert_process`. -/
theorem TableInv.forkSyscall_some {st : PageState} {sites : List Site} {roots : List Nat}
    {own : Nat → Option Role} {proc : UserProcess} {n k fuel : Nat}
    (h : TableInv sites st roots own) (hpages : PageInv st sites) (hphys : Physical sites)
    (hroot : proc.cr3 ∈ roots) (helfEnd : proc.elfEnd.toNat ≤ 0x200000 + n * 0x1000)
    (hanonEnd : proc.anonAllocateEnd ≤ 0x800000 + k * 0x1000) (hn : n ≤ fuel) (hk : k ≤ fuel)
    (hfuel : 0x10000000 ≤ fuel) (hbound : proc.anonAllocateEnd ≤ 0x10000000000)
    (hfree : st.allocated.length + 1 + 4 * (n + k) ≤ managedPages sites) :
    ∃ st' child, BayosKernel.forkSyscall (fuel + 1) st proc = some (st', child) ∧
      child.cr3 ≠ NULL := by
  have hflags : PageFlags 7 := by decide
  have hword := proc.elfEnd.toNat_lt
  obtain ⟨st₁, newCr3, hnew, hne, hlength₁⟩ := hpages.newSpace_some (by omega) proc.cr3
  obtain ⟨hpages₁, h₁, -⟩ := h.newSpace hpages hroot hnew hne
  have hroot₁ : newCr3 ∈ newCr3 :: roots := List.mem_cons_self
  have hregion : ∃ st₂, st₁.allocateRegion (fuel + 1) newCr3 0x200000 proc.elfEnd.toNat 7 = some st₂ ∧
      st₂.allocated.length ≤ st₁.allocated.length + 4 * n :=
    h₁.allocateRegion_some hpages₁ hphys hroot₁ (by omega) hflags helfEnd hn (by omega)
  obtain ⟨st₂, helf, hlength₂⟩ := hregion
  obtain ⟨own₂, hpages₂, h₂, -⟩ :=
    h₁.allocateRegion hpages₁ hphys hroot₁ (by omega) hflags helf
  have hregion : ∃ st₃, st₂.allocateRegion (fuel + 1) newCr3 0x800000 proc.anonAllocateEnd 7 =
      some st₃ ∧ st₃.allocated.length ≤ st₂.allocated.length + 4 * k :=
    h₂.allocateRegion_some hpages₂ hphys hroot₁ (by omega) hflags hanonEnd hk (by omega)
  obtain ⟨st₃, hanon, -⟩ := hregion
  obtain ⟨st₄, c, hcopy⟩ := copyPages_some fuel st₃ newCr3 proc.cr3 0x200000 proc.elfEnd.toNat
    (by omega) (by omega)
  obtain ⟨st₅, c', hcopy'⟩ := copyPages_some fuel st₄ newCr3 proc.cr3 0x800000 proc.anonAllocateEnd
    (by omega) (by omega)
  refine ⟨st₅, { proc with cr3 := newCr3 }, ?_, hne⟩
  simp only [BayosKernel.forkSyscall, hnew, helf, hanon, hcopy, hcopy', Option.bind_some,
    Option.map_some]

/-- The child has a page of its own with the same bytes for every user page of
the parent, the user half of the parent is as before, and the two upper halves agree. -/
structure Forked (st st' : PageState) (proc child : UserProcess) : Prop where
  copied : ∀ va < 0x800000000000, ∀ p, PageAt st.mem proc.cr3 va p → ∃ q,
    PageAt st'.mem child.cr3 va q ∧ ¬st.Marked q ∧ q ≠ proc.cr3 ∧
      (∀ level t i, UserEntry st.mem proc.cr3 level t i → pteAddr (entry st.mem t i) ≠ q) ∧
      ∀ i < 0x1000, st'.mem (q + i) = st.mem (p + i)
  parent : ∀ va < 0x800000000000, ∀ p,
    PageAt st'.mem proc.cr3 va p ↔ PageAt st.mem proc.cr3 va p
  contents : ∀ va < 0x800000000000, ∀ p, PageAt st.mem proc.cr3 va p → ∀ i < 0x1000,
    st'.mem (p + i) = st.mem (p + i)
  upper : ∀ i, 256 ≤ i → i < 512 → entry st'.mem child.cr3 i = entry st.mem proc.cr3 i ∧
    entry st'.mem proc.cr3 i = entry st.mem proc.cr3 i

/-- `fork_syscall` of a process whose mappings lie in the ranges that it records. -/
theorem forkSyscall_forked {sites : List Site} {roots : List Nat} {fuel : Nat}
    {st st' : PageState} {proc child : UserProcess} (hphys : Physical sites)
    (hsites : sites.length ≤ 0x100) (hinv : SpaceInv sites roots st) (hroot : proc.cr3 ∈ roots)
    (hranges : ∀ va < 0x800000000000, ∀ p, PageAt st.mem proc.cr3 va p →
      proc.InRanges (va / 0x1000 * 0x1000))
    (hrun : forkSyscall fuel st proc = some (st', child)) (hne : child.cr3 ≠ NULL) :
    Forked st st' proc child := by
  obtain ⟨own, h⟩ := hinv.tables
  have hpages := hinv.pages
  obtain ⟨-, own', hpages', h', hforks⟩ := h.forkSyscall hpages hphys hsites hroot hrun hne
  have hbefore : ∀ va < 0x800000000000, ∀ p, PageAt st.mem proc.cr3 va p ↔ Maps own proc.cr3 va p :=
    fun va hva p => h.pageAt_iff hpages hphys hroot hva
  have hafter : ∀ t ∈ child.cr3 :: roots, ∀ va < 0x800000000000, ∀ p,
      PageAt st'.mem t va p ↔ Maps own' t va p :=
    fun t ht va hva p => h'.pageAt_iff hpages' hphys ht hva
  have hother : proc.cr3 ≠ child.cr3 := by
    intro heq
    obtain ⟨r, hr, -⟩ := h.roots _ hroot
    rw [heq, hforks.unowned] at hr
    cases hr
  refine ⟨fun va hva p hp => ?_, fun va hva p => ?_, fun va hva p hp i hi => ?_, hforks.upper⟩
  · obtain ⟨q, hq⟩ := hforks.mapped _ (hranges va hva p hp)
    have hp' := (hbefore va hva p).mp hp
    have hq' := Maps.page.mp hq
    have hfresh := (hforks.child va hva q hq').1
    obtain ⟨pt, j, hrole⟩ := hq'.owned
    have hmem : q ∈ st'.allocated := h'.allocated hrole (by simp)
    refine ⟨q, (hafter _ List.mem_cons_self va hva q).mpr hq',
      fun hmarked => hfresh (hpages.mem_of_marked hmarked), ?_, fun level t i hentry => ?_,
      hforks.bytes _ (hranges va hva p hp) p q (Maps.page.mpr hp') hq⟩
    · obtain ⟨r, hr, -⟩ := h.roots _ hroot
      exact (h.ne_fresh hpages' hmem hfresh hr).symm
    · exact h.ne_fresh hpages' hmem hfresh (hentry.owned h hpages hphys hroot)
  · rw [hafter _ (List.mem_cons_of_mem _ hroot) va hva p, hbefore va hva p,
      hforks.others _ hother va hva p]
  · exact hforks.data _ hother va hva p ((hbefore va hva p).mp hp) i hi

/-- An address space with one page, at 0x200000. -/
theorem onePageSpace : ∃ sites st own, PageInv st sites ∧ TableInv sites st [0x1000] own ∧
    Physical sites ∧ sites.length ≤ 0x100 ∧ st.allocated.length + 0x3000 ≤ managedPages sites ∧
    (∃ p, Maps own 0x1000 0x200000 p) ∧
    ∀ va < 0x800000000000, ∀ p, Maps own 0x1000 va p →
      InRegion 0x200000 0x201000 (va / 0x1000 * 0x1000) := by
  obtain ⟨st₀, sites, hinit, hsites, hcount, hallocated⟩ := bootSpace
  obtain ⟨own₀, h₀⟩ := hinit.inv.tables
  have hphys := hinit.physical
  have hroot : 0x1000 ∈ [0x1000] := List.mem_singleton.mpr rfl
  have hflags : PageFlags 7 := by decide
  have hregion : ∃ st, st₀.allocateRegion 2 0x1000 0x200000 0x201000 7 = some st ∧
      st.allocated.length ≤ st₀.allocated.length + 4 * 1 :=
    h₀.allocateRegion_some hinit.pages hphys hroot (by decide) hflags (by decide) (by decide)
      (by rw [hallocated, hcount]; decide)
  obtain ⟨st, hrun, hlength⟩ := hregion
  obtain ⟨own, hpages, h, hall⟩ :=
    h₀.allocateRegion hinit.pages hphys hroot (by decide) hflags hrun
  rw [show pageRoundDown 0x200000 = 0x200000 by decide] at hall
  rw [hallocated, List.length_nil] at hlength
  refine ⟨sites, st, own, hpages, h, hphys, hsites, by omega, hall.mapped _ (by simp [InRegion]),
    fun va hva p hmaps => ?_⟩
  rcases hall.maps_cases h₀ hmaps hva (by decide) with hmaps | ⟨-, -, hin⟩
  · exact absurd hmaps (hinit.not_maps h₀ hroot hva)
  · exact hin

def gapProcess : UserProcess := ⟨0x1000, 0x202000, 0x800000⟩

/-- A process with a gap: one page at 0x200000, and none at 0x201000. -/
theorem forkSyscall_forked_gap : ∃ st st' child p, PageAt st.mem 0x1000 0x200000 p ∧
    (∀ q, ¬PageAt st.mem 0x1000 0x201000 q) ∧
      forkSyscall 0x10000001 st gapProcess = some (st', child) ∧
      Forked st st' gapProcess child := by
  obtain ⟨sites, st, own, hpages, h, hphys, hsites, hlength, ⟨p, hp⟩, honly⟩ := onePageSpace
  have hroot : 0x1000 ∈ [0x1000] := List.mem_singleton.mpr rfl
  have hin : ∀ va < 0x800000000000, ∀ p, PageAt st.mem 0x1000 va p →
      InRegion 0x200000 0x201000 (va / 0x1000 * 0x1000) := fun va hva p hp =>
    honly va hva p ((h.pageAt_iff hpages hphys hroot hva).mp hp)
  have hfree : st.allocated.length + 1 + 4 * (2 + 0) ≤ managedPages sites := by omega
  have hgap : gapProcess.cr3 ∈ [0x1000] := hroot
  obtain ⟨st', child, hfork, hne⟩ := h.forkSyscall_some hpages hphys hgap
    (show _ ≤ 0x200000 + 2 * 0x1000 by decide) (show _ ≤ 0x800000 + 0 * 0x1000 by decide)
    (by decide) (by decide) (Nat.le_refl 0x10000000) (by decide) hfree
  refine ⟨st, st', child, p, (h.pageAt_iff hpages hphys hroot (by decide)).mpr hp, fun q hq => ?_,
    hfork, forkSyscall_forked hphys hsites ⟨hpages, own, h⟩ hgap (fun va hva q hq => ?_) hfork hne⟩
  · have := (hin 0x201000 (by decide) q hq).2.1
    omega
  · have := hin va hva q hq
    refine Or.inl ⟨this.1, Nat.lt_trans this.2.1 (by decide), this.2.2⟩

end BayosKernel
