import BayosKernel.PageProgress
import BayosKernel.Syscalls

/-!
The steps of `fork_syscall`: a PML4 with the upper half of another one, and
`copy_pages_between_pagetables`; also on two states that differ in hidden pages.
-/

namespace BayosKernel

open Foundation

theorem PageState.allocPage_eq {st st' : PageState} {page : Nat}
    (halloc : st.allocPage = some (st', page)) (hne : page ≠ NULL) :
    st.allocPageOrHalt = some (st', page) := by
  obtain ⟨⟨m, p⟩, hpage, heq⟩ := Option.map_eq_some_iff.mp halloc
  obtain ⟨rfl, rfl⟩ := Prod.mk.inj heq
  simp only [PageState.allocPageOrHalt, hpage, if_neg hne]

section UpperHalf

variable {m : ByteMemory} {newCr3 cr3 n : Nat}

theorem copyUpperHalf_outside {x : Nat} (hn : n ≤ 256)
    (hx : x < newCr3 + 0x800 ∨ newCr3 + 0x1000 ≤ x) : copyUpperHalf m newCr3 cr3 n x = m x := by
  induction n with
  | zero => rfl
  | succ n ih =>
      rw [copyUpperHalf, setEntry_outside (by simp only [entryAddr]; omega)]
      exact ih (by omega)

theorem copyUpperHalf_entry {k : Nat} (hn : n ≤ 256) (hk : k < n) (hnew : newCr3 % 0x1000 = 0)
    (hcr3 : cr3 % 0x1000 = 0) (hne : cr3 ≠ newCr3) :
    entry (copyUpperHalf m newCr3 cr3 n) newCr3 (256 + k) = entry m cr3 (256 + k) := by
  induction n with
  | zero => omega
  | succ n ih =>
      rw [copyUpperHalf]
      by_cases hlast : k = n
      · have hold : entry (copyUpperHalf m newCr3 cr3 n) cr3 (256 + n) = entry m cr3 (256 + n) :=
          entry_congr (by omega) fun x _ _ => copyUpperHalf_outside (by omega) (by omega)
        have hlt : entry m cr3 (256 + n) < 0x10000000000000000 := m.load_lt 8 _
        rw [hlast, entry_setEntry (by rw [hold]; exact hlt), hold]
      · rw [entry_apart (fun x hx => setEntry_outside hx) hnew hnew (by omega) (by omega)
          (by omega)]
        exact ih (by omega) (by omega)

end UpperHalf

/-- What `fork_syscall` has made of the address spaces after its first loop. -/
structure NewSpace (sites : List Site) (st st' : PageState) (own : Nat → Option Role)
    (newCr3 cr3 : Nat) : Prop where
  fresh : newCr3 ∉ st.allocated
  unowned : own newCr3 = none
  areas : st'.areas = st.areas
  allocated : st'.allocated = newCr3 :: st.allocated
  data : ∀ p, Frame sites p → p ≠ newCr3 → ∀ x, p ≤ x → x < p + 0x1000 → st'.mem x = st.mem x
  upper : ∀ i, 256 ≤ i → i < 512 → entry st'.mem newCr3 i = entry st.mem cr3 i

/-- The roles of the pages, with one more PML4. -/
def withRoot (own : Nat → Option Role) (newCr3 : Nat) : Nat → Option Role :=
  Function.update own newCr3 (some ⟨4, 0, 0⟩)

section WithRoot

variable {own : Nat → Option Role} {newCr3 : Nat}

theorem withRoot_cases {d : Nat} {q : Role} (hd : withRoot own newCr3 d = some q) :
    own d = some q ∧ d ≠ newCr3 ∨ d = newCr3 ∧ q = ⟨4, 0, 0⟩ := by
  by_cases hdn : d = newCr3
  · rw [hdn, withRoot, Function.update_self] at hd
    exact Or.inr ⟨hdn, (Option.some.inj hd).symm⟩
  · rw [withRoot, Function.update_of_ne hdn] at hd
    exact Or.inl ⟨hd, hdn⟩

theorem withRoot_keeps (hnew : own newCr3 = none) {d : Nat} {q : Role} (hd : own d = some q) :
    withRoot own newCr3 d = some q := by
  have hne : d ≠ newCr3 := by
    rintro rfl
    rw [hnew] at hd
    cases hd
  rw [withRoot, Function.update_of_ne hne, hd]

/-- A new PML4 adds no path. -/
theorem reaches_withRoot (hnew : own newCr3 = none) {indices : List Nat} {t c : Nat}
    (hlength : indices.length ≤ 4) :
    Reaches (withRoot own newCr3) t indices c ↔ Reaches own t indices c := by
  induction indices generalizing t with
  | nil => rfl
  | cons i rest ih =>
      simp only [List.length_cons] at hlength
      simp only [Reaches, ih (Nat.le_of_succ_le hlength)]
      constructor
      · rintro ⟨d, hd, hrest⟩
        rcases withRoot_cases hd with ⟨hd, -⟩ | ⟨-, hrole⟩
        · exact ⟨d, hd, hrest⟩
        · have := congrArg Role.height hrole
          simp only at this
          omega
      · rintro ⟨d, hd, hrest⟩
        exact ⟨d, withRoot_keeps hnew hd, hrest⟩

theorem maps_withRoot (hnew : own newCr3 = none) {t va c : Nat} :
    Maps (withRoot own newCr3) t va c ↔ Maps own t va c :=
  reaches_withRoot hnew (by rw [pathIndices_length])

end WithRoot

namespace TableInv

variable {st st' : PageState} {sites : List Site} {roots : List Nat} {own : Nat → Option Role}
  {cr3 newCr3 : Nat}

/-- A page that no table refers to maps nothing. -/
theorem not_maps (h : TableInv sites st roots own) (hnew : own newCr3 = none) {va c : Nat} :
    ¬Maps own newCr3 va c := by
  rintro ⟨d, hd, -⟩
  obtain ⟨q, -, hparent, -⟩ := h.linked d _ hd (by simp [pathIndices_length])
  rw [hnew] at hparent
  cases hparent

theorem newSpace (h : TableInv sites st roots own) (hpages : PageInv st sites)
    (hroot : cr3 ∈ roots) (hstep : st.newSpace cr3 = some (st', newCr3)) (hne : newCr3 ≠ NULL) :
    PageInv st' sites ∧ TableInv sites st' (newCr3 :: roots) (withRoot own newCr3) ∧
      NewSpace sites st st' own newCr3 cr3 := by
  obtain ⟨⟨st₁, page⟩, halloc, heq⟩ := Option.map_eq_some_iff.mp hstep
  obtain ⟨hst', rfl⟩ := Prod.mk.inj heq
  have hmem' : st'.mem = copyUpperHalf (st₁.mem.memset page 0 0x1000) page cr3 256 := by
    rw [← hst']
  obtain ⟨hpages₁, hareas, hallocated, hfresh, hkeep⟩ :=
    hpages.allocPageOrHalt (PageState.allocPage_eq halloc hne)
  have hmem : page ∈ st₁.allocated := by simp [hallocated]
  have hpframe := hpages₁.frame hmem
  have hpa := hpframe.aligned
  have hunowned : own page = none := by
    cases hrole : own page with
    | none => rfl
    | some r => exact absurd rfl (h.ne_fresh hpages₁ hmem hfresh hrole)
  have hdata : ∀ p, Frame sites p → p ≠ page → ∀ x, p ≤ x → x < p + 0x1000 →
      st'.mem x = st.mem x := by
    intro p hp hpp x hle hlt
    have := hp.aligned
    rw [hmem', copyUpperHalf_outside (Nat.le_refl _) (by omega),
      ByteMemory.memset_outside _ (by omega), hkeep p hp x hle hlt]
  have hold : ∀ t r, own t = some r → ∀ j < 512, entry st'.mem t j = entry st.mem t j :=
    fun t r ht j hj => entry_congr hj
      (hdata t (h.frame hpages ht) (h.ne_fresh hpages₁ hmem hfresh ht))
  have hlower : ∀ j < 256, entry st'.mem page j = 0 := by
    intro j hj
    refine ByteMemory.load_zero fun x hle hlt => ?_
    simp only [entryAddr] at hle hlt
    rw [hmem', copyUpperHalf_outside (Nat.le_refl _) (by omega),
      ByteMemory.memset_inside _ (by omega)]
  obtain ⟨r, hr, -⟩ := h.roots cr3 hroot
  have hcr3 := h.frame hpages hr
  have hcr3ne : cr3 ≠ page := h.ne_fresh hpages₁ hmem hfresh hr
  refine ⟨?_, ⟨fun t ht => ?_, fun t q ht => ?_, fun t q ht hq j hj => ?_, fun d q hd hq => ?_⟩,
    ⟨hfresh, hunowned, ?_, ?_, hdata, fun i hle hlt => ?_⟩⟩
  · rw [← hst']
    refine hpages₁.of_pages fun x hx => ?_
    have := hx page hpframe
    rw [copyUpperHalf_outside (Nat.le_refl _) (by omega), ByteMemory.memset_outside _ (by omega)]
  · rcases List.mem_cons.mp ht with rfl | ht
    · exact ⟨_, Function.update_self .., rfl⟩
    · obtain ⟨q, hq, hheight⟩ := h.roots t ht
      exact ⟨q, withRoot_keeps hunowned hq, hheight⟩
  · rw [← hst']
    simp only [hallocated]
    rcases withRoot_cases ht with ⟨ht, -⟩ | ⟨rfl, -⟩
    · exact (h.owned t q ht).imp_left (List.mem_cons_of_mem _)
    · exact Or.inl List.mem_cons_self
  · rcases withRoot_cases ht with ⟨ht, -⟩ | ⟨rfl, rfl⟩
    · rw [hold t q ht j (Nat.lt_of_lt_of_le hj q.width_le)]
      refine (h.entries t q ht hq j hj).imp_right ?_
      rintro ⟨c, f, hf, he, hc⟩
      exact ⟨c, f, hf, he, withRoot_keeps hunowned hc⟩
    · exact Or.inl (hlower j hj)
  · rcases withRoot_cases hd with ⟨hd, -⟩ | ⟨-, rfl⟩
    · obtain ⟨s, f, hparent, hheight, hindex, hf, he⟩ := h.linked d q hd hq
      refine ⟨s, f, withRoot_keeps hunowned hparent, hheight, hindex, hf, ?_⟩
      rw [hold _ s hparent _ (Nat.lt_of_lt_of_le hindex s.width_le), he]
    · simp at hq
  · rw [← hst']
    exact hareas
  · rw [← hst']
    exact hallocated
  · obtain ⟨k, rfl⟩ : ∃ k, i = 256 + k := ⟨i - 256, by omega⟩
    have hbefore : entry (st₁.mem.memset page 0 0x1000) cr3 (256 + k) =
        entry st.mem cr3 (256 + k) :=
      entry_congr hlt fun x hle' hlt' => by
        have := hcr3.aligned
        rw [ByteMemory.memset_outside _ (by omega), hkeep cr3 hcr3 x hle' hlt']
    rw [hmem', copyUpperHalf_entry (Nat.le_refl _) (by omega) hpa hcr3.aligned hcr3ne, hbefore]

end TableInv

/-- What `copy_pages_between_pagetables` does: the pages of the region that both
address spaces have hold the same bytes, and nothing else changes. -/
structure Copied (st st' : PageState) (own : Nat → Option Role) (dst src start stop : Nat) :
    Prop where
  areas : st'.areas = st.areas
  allocated : st'.allocated = st.allocated
  bytes : ∀ va, InRegion start stop va → ∀ p q, Maps own src va p → Maps own dst va q →
    ∀ i < 0x1000, st'.mem (q + i) = st.mem (p + i)
  kept : ∀ x, (∀ q, MappedIn own dst start stop q → x < q ∨ q + 0x1000 ≤ x) →
    st'.mem x = st.mem x

namespace TableInv

variable {st st' : PageState} {sites : List Site} {roots : List Nat} {own : Nat → Option Role}
  {dst src : Nat}

theorem copyPage (h : TableInv sites st roots own) (hpages : PageInv st sites)
    (hphys : Physical sites) (hdst : dst ∈ roots) (hsrc : src ∈ roots) (va : Nat)
    (hva : va < 0x800000000000) (copied : Nat) :
    (∃ p q, Maps own src va p ∧ Maps own dst va q ∧ BayosKernel.copyPage dst src va (st, copied) =
        ({ st with mem := st.mem.memcpy q p 0x1000 }, copied + 1)) ∨
      (BayosKernel.copyPage dst src va (st, copied) = (st, copied) ∧
        ∀ p q, Maps own src va p → ¬Maps own dst va q) := by
  rcases h.leaf_cases hpages hphys hsrc hva with
    ⟨p, pte, hmaps, hwalk, hone, haddr⟩ | ⟨habsent, hnone⟩
  · rcases h.leaf_cases hpages hphys hdst hva with
      ⟨q, pte', hmaps', hwalk', hone', haddr'⟩ | ⟨habsent', hnone'⟩
    · refine Or.inl ⟨p, q, hmaps, hmaps', ?_⟩
      simp only [BayosKernel.copyPage, hwalk, hone, haddr, hwalk', hone', haddr']
      rfl
    · refine Or.inr ⟨?_, fun _ q _ => hnone' q⟩
      rw [BayosKernel.copyPage]
      cases hwalk' : walk st.mem dst va with
      | none => simp [hwalk]
      | some pte' => simp [hwalk, habsent' pte' hwalk']
  · refine Or.inr ⟨?_, fun p _ hmaps => absurd hmaps (hnone p)⟩
    rw [BayosKernel.copyPage]
    cases hwalk : walk st.mem src va with
    | none => simp
    | some pte => simp [habsent pte hwalk]

/-- After a page has been copied, the region that is done is one page longer. -/
theorem copied_step (h : TableInv sites st roots own) (hpages : PageInv st sites)
    (hne : dst ≠ src) {start va p q : Nat} {base : PageState}
    (hva : start ≤ va ∧ va % 0x1000 = 0 ∧ va < 0x800000000000)
    (hcopied : Copied base st own dst src start va) (hp : Maps own src va p)
    (hq : Maps own dst va q) :
    Copied base { st with mem := st.mem.memcpy q p 0x1000 } own dst src start (va + 0x1000) := by
  obtain ⟨pt, i, hqrole⟩ := hq.owned
  have hqa := (h.frame hpages hqrole).aligned
  have hregion : ∀ va', InRegion start (va + 0x1000) va' → InRegion start va va' ∨ va' = va := by
    intro va' hin
    simp only [InRegion] at hin ⊢
    omega
  have hsource : ∀ va' p', va' < 0x800000000000 → Maps own src va' p' → p' ≠ q := by
    rintro va' p' hva' hmaps rfl
    exact hne (hq.injective hmaps (by omega) (by omega)).1
  have holdbytes : ∀ x, (∀ q', MappedIn own dst start (va + 0x1000) q' → x < q' ∨ q' + 0x1000 ≤ x) →
      st.mem x = base.mem x := by
    intro x hx
    refine hcopied.kept x ?_
    rintro q' ⟨va', hin, hmaps⟩
    refine hx q' ⟨va', ?_, hmaps⟩
    simp only [InRegion] at hin ⊢
    omega
  refine ⟨hcopied.areas, hcopied.allocated, fun va' hin p' q' hp' hq' k hk => ?_, fun x hx => ?_⟩
  · have hp'role := hp'.owned
    obtain ⟨pt', i', hp'role⟩ := hp'role
    have hp'a := (h.frame hpages hp'role).aligned
    have hlt := hin.2.1
    have hsame : st.mem (p' + k) = base.mem (p' + k) := by
      refine hcopied.kept _ ?_
      rintro q'' ⟨va'', hin'', hq''⟩
      obtain ⟨pt'', i'', hq''role⟩ := hq''.owned
      have hq''a := (h.frame hpages hq''role).aligned
      have hlt'' := hin''.2.1
      have hother : p' ≠ q'' := by
        rintro rfl
        exact hne (hq''.injective hp' (by omega) (by omega)).1
      omega
    rcases hregion va' hin with hin | rfl
    · have hqq : q' ≠ q := by
        rintro rfl
        have := (hq'.injective hq (by omega) (by omega)).2
        have := hin.2.1
        have := hin.2.2
        omega
      obtain ⟨pt'', i'', hq'role⟩ := hq'.owned
      have hq'a := (h.frame hpages hq'role).aligned
      simp only
      rw [ByteMemory.memcpy_outside _ (by omega)]
      exact hcopied.bytes va' hin p' q' hp' hq' k hk
    · have hqq := Maps.unique h hpages hq' hq
      have hpp := Maps.unique h hpages hp' hp
      subst hqq hpp
      simp only
      rw [ByteMemory.memcpy_inside _ hk, hsame]
  · have hout := hx q ⟨va, by simp only [InRegion]; omega, hq⟩
    simp only
    rw [ByteMemory.memcpy_outside _ hout, holdbytes x hx]

theorem copyPages (h : TableInv sites st roots own) (hpages : PageInv st sites)
    (hphys : Physical sites) (hdst : dst ∈ roots) (hsrc : src ∈ roots) (hne : dst ≠ src)
    {fuel start len n : Nat} (halign : start % 0x1000 = 0) (hstop : start + len ≤ 0x800000000000)
    (hrun : copyPagesBetweenPagetables fuel st dst src start len = some (st', n)) :
    PageInv st' sites ∧ TableInv sites st' roots own ∧
      Copied st st' own dst src start (start + len) := by
  rw [copyPagesBetweenPagetables, add64_eq (by omega)] at hrun
  let I : Nat → PageState × Nat → Prop := fun va s =>
    (va % 0x1000 = 0 ∧ start ≤ va ∧ (va = start ∨ va < start + len + 0x1000)) ∧
      PageInv s.1 sites ∧ TableInv sites s.1 roots own ∧ Copied st s.1 own dst src start va
  have hbody : ∀ va s s', I va s → va < start + len →
      some (BayosKernel.copyPage dst src va s) = some s' → I (va + 0x1000) s' := by
    rintro va ⟨s, copied⟩ s' ⟨hva, hpages₁, h₁, hcopied⟩ hlt hstep
    cases hstep
    refine ⟨by omega, ?_⟩
    rcases h₁.copyPage hpages₁ hphys hdst hsrc va (by omega) copied with
      ⟨p, q, hp, hq, hstep⟩ | ⟨hstep, hnone⟩
    · rw [hstep]
      obtain ⟨pt, i, hqrole⟩ := hq.owned
      obtain ⟨hpages₂, h₂⟩ := h₁.of_data hpages₁ hqrole rfl (s.mem.memcpy q p 0x1000)
        fun x hx => ByteMemory.memcpy_outside _ hx
      exact ⟨hpages₂, h₂, h₁.copied_step hpages₁ hne ⟨hva.2.1, hva.1, by omega⟩ hcopied hp hq⟩
    · rw [hstep]
      have hregion : ∀ va', InRegion start (va + 0x1000) va' → InRegion start va va' ∨ va' = va := by
        intro va' hin
        simp only [InRegion] at hin ⊢
        omega
      refine ⟨hpages₁, h₁, hcopied.areas, hcopied.allocated, fun va' hin p q hp hq => ?_,
        fun x hx => hcopied.kept x ?_⟩
      · rcases hregion va' hin with hin | rfl
        · exact hcopied.bytes va' hin p q hp hq
        · exact absurd hq (hnone p q hp)
      · rintro q ⟨va', hin, hmaps⟩
        refine hx q ⟨va', ?_, hmaps⟩
        simp only [InRegion] at hin ⊢
        omega
  have hstart : I start (st, 0) := by
    refine ⟨⟨halign, Nat.le_refl _, Or.inl rfl⟩, hpages, h, rfl, rfl, fun va hin => ?_,
      fun _ _ => rfl⟩
    have := hin.1
    have := hin.2.1
    omega
  obtain ⟨va, hle, hva, hpages', h', hcopied⟩ := forPages_invariant hstop hbody hstart hrun
  have hregion : InRegion start va = InRegion start (start + len) := by
    funext va'
    simp only [InRegion, eq_iff_iff]
    omega
  refine ⟨hpages', h', hcopied.areas, hcopied.allocated, ?_, ?_⟩
  · simpa only [hregion] using hcopied.bytes
  · simpa only [MappedIn, hregion] using hcopied.kept

end TableInv

namespace Copied

variable {st st₁ st' : PageState} {sites : List Site} {roots : List Nat}
  {own : Nat → Option Role} {dst src start stop start' stop' : Nat}

/-- A page that is not mapped in the destination keeps its contents. -/
theorem page_kept (hcopied : Copied st st' own dst src start stop)
    (h : TableInv sites st roots own) (hpages : PageInv st sites) {p i : Nat} (hp : Frame sites p)
    (hne : ∀ va < stop, ¬Maps own dst va p) (hi : i < 0x1000) :
    st'.mem (p + i) = st.mem (p + i) := by
  refine hcopied.kept _ fun q ⟨va, hin, hq⟩ => ?_
  obtain ⟨pt, j, hrole⟩ := hq.owned
  have hqa := (h.frame hpages hrole).aligned
  have hpa := hp.aligned
  have hpq : p ≠ q := by
    rintro rfl
    exact hne va hin.2.1 hq
  omega

/-- A page of another address space keeps its contents. -/
theorem other_kept (hcopied : Copied st st' own dst src start stop)
    (h : TableInv sites st roots own) (hpages : PageInv st sites) {t va p i : Nat} (ht : t ≠ dst)
    (hva : va < 0x800000000000) (hstop : stop ≤ 0x800000000000) (hp : Maps own t va p)
    (hi : i < 0x1000) : st'.mem (p + i) = st.mem (p + i) := by
  obtain ⟨pt, j, hrole⟩ := hp.owned
  refine hcopied.page_kept h hpages (h.frame hpages hrole) (fun va' hva' hq => ht ?_) hi
  exact (hp.injective hq (by omega) (by omega)).1

/-- Copying a second region leaves the copies of the first one. -/
theorem bytes_seq (hfirst : Copied st st₁ own dst src start stop)
    (hsecond : Copied st₁ st' own dst src start' stop') (h : TableInv sites st roots own)
    (hpages : PageInv st sites) (h₁ : TableInv sites st₁ roots own) (hpages₁ : PageInv st₁ sites)
    (hne : src ≠ dst) (hstop : stop ≤ 0x800000000000) (hstop' : stop' ≤ 0x800000000000)
    {va : Nat} (hin : InRegion start stop va ∨ InRegion start' stop' va) {p q i : Nat}
    (hp : Maps own src va p) (hq : Maps own dst va q) (hi : i < 0x1000) :
    st'.mem (q + i) = st.mem (p + i) := by
  have hva : va < 0x800000000000 := by
    rcases hin with hin | hin
    · exact Nat.lt_of_lt_of_le hin.2.1 hstop
    · exact Nat.lt_of_lt_of_le hin.2.1 hstop'
  have hsource := hfirst.other_kept h hpages hne hva hstop hp hi
  by_cases hagain : InRegion start' stop' va
  · rw [hsecond.bytes va hagain p q hp hq i hi, hsource]
  · obtain ⟨pt, j, hrole⟩ := hq.owned
    have hqf := h₁.frame hpages₁ hrole
    have hout : st'.mem (q + i) = st₁.mem (q + i) := by
      refine hsecond.kept _ fun q' ⟨va', hin', hq'⟩ => ?_
      obtain ⟨pt', j', hrole'⟩ := hq'.owned
      have hqa := hqf.aligned
      have hqa' := (h₁.frame hpages₁ hrole').aligned
      have hqq : q ≠ q' := by
        rintro rfl
        have hpage := (hq.injective hq' (by omega) (by have := hin'.2.1; omega)).2
        have hsame : va = va' := by
          have := hin'.2.2
          have := (hin.resolve_right hagain).2.2
          omega
        exact hagain (hsame ▸ hin')
      omega
    rw [hout, hfirst.bytes va (hin.resolve_right hagain) p q hp hq i hi]

end Copied

/-- `copy_pages_between_pagetables` comes to its end. -/
theorem copyPages_some (fuel : Nat) (st : PageState) (dst src start len : Nat)
    (hstop : start + len ≤ 0x800000000000) (hfuel : len ≤ fuel * 0x1000) :
    ∃ st' n, copyPagesBetweenPagetables (fuel + 1) st dst src start len = some (st', n) := by
  rw [copyPagesBetweenPagetables, add64_eq (by omega)]
  let I : Nat → PageState × Nat → Prop := fun _ _ => True
  have hbody : ∀ va s, I va s → va < start + len →
      ∃ s', some (copyPage dst src va s) = some s' ∧ I (va + 0x1000) s' :=
    fun va s _ _ => ⟨copyPage dst src va s, rfl, trivial⟩
  obtain ⟨-, s', hrun, -⟩ :=
    forPages_some (s := (st, 0)) hstop hbody trivial (Nat.add_le_add_left hfuel start)
  exact ⟨s'.1, s'.2, hrun⟩

theorem PageInv.newSpace_some {st : PageState} {sites : List Site} (h : PageInv st sites)
    (hfree : st.allocated.length < managedPages sites) (cr3 : Nat) :
    ∃ st' newCr3, st.newSpace cr3 = some (st', newCr3) ∧ newCr3 ≠ NULL ∧
      st'.allocated.length = st.allocated.length + 1 := by
  obtain ⟨m, page, hpage, hne⟩ := h.allocatePage_some hfree
  refine ⟨⟨st.areas, copyUpperHalf (m.memset page 0 0x1000) page cr3 256, page :: st.allocated⟩,
    page, ?_, hne, rfl⟩
  rw [PageState.newSpace, PageState.allocPage, hpage]
  simp only [Option.map_some, if_neg hne]

section Twins

variable {st st' twin : PageState} {sites : List Site} {roots before : List Nat}
  {own : Nat → Option Role} {dst src cr3 newCr3 : Nat}

theorem copyUpperHalf_agree {S : Set Nat} {m m' : ByteMemory} {n : Nat} (hn : n ≤ 256)
    (h : Set.EqOn m m' S) (hcr3 : ∀ x, cr3 ≤ x → x < cr3 + 0x1000 → x ∈ S) :
    Set.EqOn (copyUpperHalf m newCr3 cr3 n) (copyUpperHalf m' newCr3 cr3 n) S := by
  induction n with
  | zero => exact h
  | succ n ih =>
      have hprev := ih (Nat.le_of_succ_le hn)
      have hentry : entry (copyUpperHalf m' newCr3 cr3 n) cr3 (256 + n) =
          entry (copyUpperHalf m newCr3 cr3 n) cr3 (256 + n) :=
        ByteMemory.load_agree hprev fun x hle hlt => by
          simp only [entryAddr] at hle hlt
          exact hcr3 x (by omega) (by omega)
      simp only [copyUpperHalf, hentry]
      exact ByteMemory.store_agree hprev

/-- A new PML4 is not hidden. -/
theorem Alike.newSpace (hlike : Alike sites before own st twin) (h : TableInv sites st roots own)
    (hpages : PageInv st sites) (hroot : cr3 ∈ roots)
    (hstep : st.newSpace cr3 = some (st', newCr3)) :
    ∃ twin', twin.newSpace cr3 = some (twin', newCr3) ∧
      Alike sites before (withRoot own newCr3) st' twin' := by
  obtain ⟨⟨st₁, page⟩, halloc, heq⟩ := Option.map_eq_some_iff.mp hstep
  obtain ⟨⟨m, page'⟩, hpage, halloc⟩ := Option.map_eq_some_iff.mp halloc
  obtain ⟨rfl, rfl⟩ := Prod.mk.inj halloc
  obtain ⟨rfl, rfl⟩ := Prod.mk.inj heq
  obtain ⟨m', hpage', hmem⟩ := hlike.allocatePage hpages hpage
  have hnew : ∀ d q, withRoot own page' d = some q → own d = some q ∨ d = page' :=
    fun d q hd => (withRoot_cases hd).imp And.left And.left
  have hsubset : outsidePages (hiddenPages sites before own) ⊆
      outsidePages (hiddenPages sites before (withRoot own page')) := by
    intro x hx p hp
    refine hx p ⟨hp.1, hp.2.1, fun r hr => ?_⟩
    by_cases hpp : p = page'
    · have hrole : withRoot own page' p = some ⟨4, 0, 0⟩ := by
        rw [hpp, withRoot, Function.update_self]
      exact absurd (hp.2.2 _ hrole) (by simp)
    · exact hp.2.2 r (by rw [withRoot, Function.update_of_ne hpp, hr])
  obtain ⟨r, hr, hheight⟩ := h.roots cr3 hroot
  have hrun' : twin.newSpace cr3 = some (⟨twin.areas,
      copyUpperHalf (m'.memset page' 0 0x1000) page' cr3 256,
      if page' = NULL then twin.allocated else page' :: twin.allocated⟩, page') := by
    rw [PageState.newSpace, PageState.allocPage, hpage']
    rfl
  refine ⟨_, hrun', hlike.areas, ?_, ?_⟩
  · simp only [hlike.allocated]
  · refine copyUpperHalf_agree (Nat.le_refl 256)
      (ByteMemory.memset_agree hmem fun x hx => outside_grows hnew hx) fun x hle hlt => ?_
    exact hsubset (table_outside h hpages hr (by omega) hle hlt)

/-- Copying into pages that were not handed out before. -/
theorem Alike.copyPages (hlike : Alike sites before own st twin) (h : TableInv sites st roots own)
    (hpages : PageInv st sites) (hphys : Physical sites) (hdst : dst ∈ roots) (hsrc : src ∈ roots)
    (hne : dst ≠ src) {fuel start len n : Nat} (halign : start % 0x1000 = 0)
    (hstop : start + len ≤ 0x800000000000)
    (hfresh : ∀ va < 0x800000000000, ∀ q, Maps own dst va q → q ∉ before)
    (hrun : copyPagesBetweenPagetables fuel st dst src start len = some (st', n)) :
    ∃ twin' n', copyPagesBetweenPagetables fuel twin dst src start len = some (twin', n') ∧
      Alike sites before own st' twin' := by
  have htwin : ∃ s', copyPagesBetweenPagetables fuel twin dst src start len = some s' := by
    rw [copyPagesBetweenPagetables, add64_eq (by omega)] at hrun ⊢
    obtain ⟨-, s', -, hrun', -⟩ := forPages_lockstep (R := fun _ _ _ => True) (t := (twin, 0))
      hstop (fun va s s' t _ _ _ => ⟨BayosKernel.copyPage dst src va t, rfl, trivial⟩) trivial hrun
    exact ⟨s', hrun'⟩
  obtain ⟨⟨twin', n'⟩, hrun'⟩ := htwin
  obtain ⟨-, -, hcopied⟩ := h.copyPages hpages hphys hdst hsrc hne halign hstop hrun
  obtain ⟨-, -, hcopied'⟩ := (hlike.tableInv h hpages).copyPages (hlike.pageInv hpages) hphys hdst
    hsrc hne halign hstop hrun'
  refine ⟨twin', n', hrun', ?_, ?_, fun x hx => ?_⟩
  · rw [hcopied'.areas, hcopied.areas, hlike.areas]
  · rw [hcopied'.allocated, hcopied.allocated, hlike.allocated]
  · have hout : ∀ q, MappedIn own dst start (start + len) q → x < q ∨ q + 0x1000 ≤ x := by
      rintro q ⟨va, hin, hq⟩
      have hva := Nat.lt_of_lt_of_le hin.2.1 hstop
      obtain ⟨pt, i, hrole⟩ := hq.owned
      refine hx q ⟨hpages.pages q (h.allocated hrole (by simp)), hfresh va hva q hq, fun r hr => ?_⟩
      rw [hrole] at hr
      cases hr
      rfl
    rw [hcopied.kept x hout, hcopied'.kept x hout, hlike.mem hx]

end Twins

end BayosKernel
