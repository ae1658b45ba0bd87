import BayosKernel.SpaceCopies

/-!
The calls that end in `alloc_page_or_halt`, with the state in which they halt:
`.error` holds what memory and the allocator are when `cli; hlt` is executed.

Between two halts the calls take frames that were free, and write to these only.
-/

namespace BayosKernel

open Foundation

namespace Halting

def allocPageOrHalt (st : PageState) : Except PageState (PageState × Nat) :=
  match allocatePage st.mem st.areas with
  | none => .error st
  | some (m, frame) =>
      if frame = 0 then .error { st with mem := m }
      else .ok ({ st with mem := m, allocated := frame :: st.allocated }, frame)

def ensureTable (st : PageState) (table index flags : Nat) : Except PageState (PageState × Nat) :=
  if entry st.mem table index &&& 1 = 0 then
    (allocPageOrHalt st).map fun (st, frame) =>
      let m := st.mem.memset frame 0 0x1000
      let m := setEntry m table index (frame ||| flags)
      ({ st with mem := m }, entry m table index &&& 0xfffffffffffff000)
  else .ok (st, entry st.mem table index &&& 0xfffffffffffff000)

def ensurePage (st : PageState) (table index flags : Nat) : Except PageState PageState :=
  if entry st.mem table index &&& 1 = 0 then
    (allocPageOrHalt st).map fun (st, frame) =>
      { st with mem := setEntry st.mem table index (frame ||| flags) }
  else .ok st

def mapMemoryPage (st : PageState) (cr3 virt flags : Nat) : Except PageState PageState :=
  let pml4Index := (virt >>> 39) &&& 0x1ff
  let pdpIndex := (virt >>> 30) &&& 0x1ff
  let pdIndex := (virt >>> 21) &&& 0x1ff
  let ptIndex := (virt >>> 12) &&& 0x1ff
  (ensureTable st cr3 pml4Index flags).bind fun (st, pdp) =>
    (ensureTable st pdp pdpIndex flags).bind fun (st, pd) =>
      (ensureTable st pd pdIndex flags).bind fun (st, pt) =>
        ensurePage st pt ptIndex flags

/-- The loop over pages; `none` stands for one that has not ended. -/
def forPages {σ ε : Type} (body : Nat → σ → Except ε σ) (stop : Nat) :
    Nat → Nat → σ → Option (Except ε σ)
  | 0, _, _ => none
  | fuel + 1, va, s =>
      if va < stop then
        match body va s with
        | .error e => some (.error e)
        | .ok s => forPages body stop fuel (add64 va 0x1000) s
      else some (.ok s)

def allocateRegion (fuel : Nat) (st : PageState) (cr3 start stop flags : Nat) :
    Option (Except PageState PageState) :=
  forPages (fun va st => mapMemoryPage st cr3 va flags) stop fuel (pageRoundDown start) st

section Forgetting

/-! Without the state of the halt these are the calls of `PageState`. -/

theorem toOption_map {ε α β : Type} (r : Except ε α) (f : α → β) :
    (r.map f).toOption = r.toOption.map f := by
  cases r <;> rfl

theorem toOption_bind {ε α β : Type} (r : Except ε α) (f : α → Except ε β) :
    (r.bind f).toOption = r.toOption.bind fun a => (f a).toOption := by
  cases r <;> rfl

variable (st : PageState)

theorem allocPageOrHalt_toOption : (allocPageOrHalt st).toOption = st.allocPageOrHalt := by
  rw [allocPageOrHalt, PageState.allocPageOrHalt]
  cases allocatePage st.mem st.areas with
  | none => rfl
  | some r =>
      by_cases hzero : r.2 = 0
      · simp only [if_pos hzero]
        rfl
      · simp only [if_neg hzero]
        rfl

theorem ensureTable_toOption (table index flags : Nat) :
    (ensureTable st table index flags).toOption = st.ensureTable table index flags := by
  rw [ensureTable, PageState.ensureTable, ← allocPageOrHalt_toOption]
  by_cases habsent : entry st.mem table index &&& 1 = 0
  · rw [if_pos habsent, if_pos habsent, toOption_map]
  · rw [if_neg habsent, if_neg habsent]
    rfl

theorem ensurePage_toOption (table index flags : Nat) :
    (ensurePage st table index flags).toOption = st.ensurePage table index flags := by
  rw [ensurePage, PageState.ensurePage, ← allocPageOrHalt_toOption]
  by_cases habsent : entry st.mem table index &&& 1 = 0
  · rw [if_pos habsent, if_pos habsent, toOption_map]
  · rw [if_neg habsent, if_neg habsent]
    rfl

theorem mapMemoryPage_toOption (cr3 virt flags : Nat) :
    (mapMemoryPage st cr3 virt flags).toOption = st.mapMemoryPage cr3 virt flags := by
  simp only [mapMemoryPage, PageState.mapMemoryPage, toOption_bind, ensureTable_toOption,
    ensurePage_toOption]

theorem forPages_toOption {σ ε : Type} (body : Nat → σ → Except ε σ) (stop fuel va : Nat)
    (s : σ) : (forPages body stop fuel va s).bind Except.toOption =
      BayosKernel.forPages (fun va s => (body va s).toOption) stop fuel va s := by
  induction fuel generalizing va s with
  | zero => rfl
  | succ fuel ih =>
      rw [forPages, BayosKernel.forPages]
      by_cases hlt : va < stop
      · rw [if_pos hlt, if_pos hlt]
        cases body va s with
        | error e => rfl
        | ok s => exact ih (add64 va 0x1000) s
      · rw [if_neg hlt, if_neg hlt]
        rfl

theorem allocateRegion_toOption (fuel cr3 start stop flags : Nat) :
    (allocateRegion fuel st cr3 start stop flags).bind Except.toOption =
      st.allocateRegion fuel cr3 start stop flags := by
  simp only [allocateRegion, PageState.allocateRegion, forPages_toOption, mapMemoryPage_toOption]

end Forgetting

/-- A loop that halts also halts on a longer range. -/
theorem forPages_halts {σ ε : Type} {body : Nat → σ → Except ε σ} {stop stop' fuel va : Nat}
    {s : σ} {e : ε} (hle : stop ≤ stop') (hrun : forPages body stop fuel va s = some (.error e)) :
    forPages body stop' fuel va s = some (.error e) := by
  induction fuel generalizing va s with
  | zero => cases hrun
  | succ fuel ih =>
      rw [forPages] at hrun ⊢
      by_cases hlt : va < stop
      · rw [if_pos hlt] at hrun
        rw [if_pos (Nat.lt_of_lt_of_le hlt hle)]
        cases hbody : body va s with
        | error e' =>
            rw [hbody] at hrun
            exact hrun
        | ok s' =>
            rw [hbody] at hrun
            exact ih hrun
      · rw [if_neg hlt] at hrun
        cases hrun

/-- `map_memory_page` as a recursion over the indices of the path. -/
def mapPath (st : PageState) (table flags : Nat) : List Nat → Except PageState PageState
  | [] => .ok st
  | [i] => ensurePage st table i flags
  | i :: j :: rest =>
      (ensureTable st table i flags).bind fun (st, child) => mapPath st child flags (j :: rest)

theorem mapMemoryPage_eq (st : PageState) (cr3 virt flags : Nat) :
    mapMemoryPage st cr3 virt flags = mapPath st cr3 flags (pathIndices virt 3) := rfl

section Halts

variable {st st' : PageState} {sites : List Site} {t i flags : Nat}

/-- No frame is left. -/
def Exhausted (st : PageState) : Prop := allocatePage st.mem st.areas = some (st.mem, NULL)

/-- A call comes back with the state, or halts in it because no frame is left. -/
def EndsIn (r : Except PageState PageState) (st : PageState) : Prop :=
  r = .ok st ∨ r = .error st ∧ Exhausted st

/-- The allocator has changed nothing when it finds no frame. -/
theorem allocPageOrHalt_error (hpages : PageInv st sites)
    (hhalt : allocPageOrHalt st = .error st') : st' = st ∧ Exhausted st := by
  have hcases := allocatePage_cases hpages.kept
  rw [← hpages.places] at hcases
  rw [allocPageOrHalt] at hhalt
  rcases hcases with ⟨hnull, -⟩ | ⟨s, -, k, -, -, hsome⟩
  · rw [hnull] at hhalt
    cases hhalt
    exact ⟨rfl, hnull⟩
  · have hne : ¬s.page k = 0 := s.page_ne_null k
    simp only [hsome, if_neg hne] at hhalt
    cases hhalt

theorem map_eq_error {ε α β : Type} {r : Except ε α} {f : α → β} {e : ε}
    (h : r.map f = .error e) : r = .error e := by
  cases r with
  | error e' =>
      cases h
      rfl
  | ok a => cases h

theorem ensureTable_error (hpages : PageInv st sites)
    (hhalt : ensureTable st t i flags = .error st') : st' = st ∧ Exhausted st := by
  rw [ensureTable] at hhalt
  by_cases habsent : entry st.mem t i &&& 1 = 0
  · rw [if_pos habsent] at hhalt
    exact allocPageOrHalt_error hpages (map_eq_error hhalt)
  · rw [if_neg habsent] at hhalt
    cases hhalt

theorem ensurePage_error (hpages : PageInv st sites)
    (hhalt : ensurePage st t i flags = .error st') : st' = st ∧ Exhausted st := by
  rw [ensurePage] at hhalt
  by_cases habsent : entry st.mem t i &&& 1 = 0
  · rw [if_pos habsent] at hhalt
    exact allocPageOrHalt_error hpages (map_eq_error hhalt)
  · rw [if_neg habsent] at hhalt
    cases hhalt

end Halts

end Halting

/-- Only frames that were free have been handed out since, and only these have been written. -/
structure Takes (sites : List Site) (st₀ st : PageState) : Prop where
  pages : PageInv st sites
  allocated : ∀ p ∈ st₀.allocated, p ∈ st.allocated
  frames : ∀ p, Frame sites p → p ∈ st₀.allocated ∨ p ∉ st.allocated →
    ∀ x, p ≤ x → x < p + 0x1000 → st.mem x = st₀.mem x

/-- A store to a frame that has been taken, after a further one was. -/
theorem Takes.fill {sites : List Site} {st₀ st st' : PageState} {t : Nat}
    (h : Takes sites st₀ st) (hpages : PageInv st' sites)
    (hallocated : ∀ p ∈ st.allocated, p ∈ st'.allocated) (ht : t ∈ st.allocated)
    (hnew : t ∉ st₀.allocated)
    (hframes : ∀ p, Frame sites p → p ≠ t → p ∈ st.allocated ∨ p ∉ st'.allocated →
      ∀ x, p ≤ x → x < p + 0x1000 → st'.mem x = st.mem x) : Takes sites st₀ st' := by
  refine ⟨hpages, fun p hp => hallocated p (h.allocated p hp), fun p hp hold x hle hlt => ?_⟩
  have hnot : p ∉ st'.allocated → p ∉ st.allocated := fun hfree hmem => hfree (hallocated p hmem)
  have hpt : p ≠ t := by
    rintro rfl
    rcases hold with hold | hfree
    · exact hnew hold
    · exact hnot hfree ht
  rw [hframes p hp hpt (hold.imp_left (h.allocated p)) x hle hlt]
  exact h.frames p hp (hold.imp_right hnot) x hle hlt

section Frames

variable {st st' : PageState} {sites : List Site} {t i flags c p x : Nat}

/-- `ensureTable` writes to the table and to a frame that was free. -/
theorem ensureTable_frames (hpages : PageInv st sites) (hta : t % 0x1000 = 0) (hi : i < 512)
    (hstep : st.ensureTable t i flags = some (st', c)) (hp : Frame sites p) (hpt : p ≠ t)
    (hold : p ∈ st.allocated ∨ p ∉ st'.allocated) (hle : p ≤ x) (hlt : x < p + 0x1000) :
    st'.mem x = st.mem x := by
  rw [PageState.ensureTable] at hstep
  by_cases habsent : entry st.mem t i &&& 1 = 0
  · rw [if_pos habsent] at hstep
    obtain ⟨⟨st₁, frame⟩, halloc, heq⟩ := Option.map_eq_some_iff.mp hstep
    obtain ⟨hpages₁, -, hallocated, hfresh, hkeep⟩ := hpages.allocPageOrHalt halloc
    obtain ⟨rfl, -⟩ := Prod.mk.inj heq
    have hmem : frame ∈ st₁.allocated := by simp [hallocated]
    have hpf : p ≠ frame := by
      rintro rfl
      exact hold.elim hfresh fun hfree => hfree hmem
    have hpa := hp.aligned
    have hfa := hpages₁.page_aligned hmem
    simp only
    rw [setEntry_outside (by simp only [entryAddr]; omega),
      ByteMemory.memset_outside _ (by omega), hkeep p hp x hle hlt]
  · rw [if_neg habsent] at hstep
    cases hstep
    rfl

theorem ensurePage_frames (hpages : PageInv st sites) (hta : t % 0x1000 = 0) (hi : i < 512)
    (hstep : st.ensurePage t i flags = some st') (hp : Frame sites p) (hpt : p ≠ t)
    (hle : p ≤ x) (hlt : x < p + 0x1000) : st'.mem x = st.mem x := by
  rw [PageState.ensurePage] at hstep
  by_cases habsent : entry st.mem t i &&& 1 = 0
  · rw [if_pos habsent] at hstep
    obtain ⟨⟨st₁, frame⟩, halloc, rfl⟩ := Option.map_eq_some_iff.mp hstep
    obtain ⟨-, -, -, -, hkeep⟩ := hpages.allocPageOrHalt halloc
    have hpa := hp.aligned
    simp only
    rw [setEntry_outside (by simp only [entryAddr]; omega), hkeep p hp x hle hlt]
  · rw [if_neg habsent] at hstep
    cases hstep
    rfl

end Frames

/-- A frame that was neither handed out nor part of an address space. -/
def Spare (st : PageState) (own : Nat → Option Role) (p : Nat) : Prop :=
  own p = none ∧ p ∉ st.allocated

/-- An address space is being built in spare frames, beside those of `st₀`. -/
structure Builds (sites : List Site) (roots : List Nat) (st₀ : PageState)
    (own₀ : Nat → Option Role) (st : PageState) (own : Nat → Option Role) : Prop where
  takes : Takes sites st₀ st
  tables : TableInv sites st roots own
  keeps : ∀ c r, own₀ c = some r → own c = some r
  children : ∀ c r, own c = some r → r.height < 4 → Spare st₀ own₀ r.parent → Spare st₀ own₀ c

namespace Builds

variable {sites : List Site} {roots : List Nat} {st₀ st st' : PageState}
  {own₀ own own' : Nat → Option Role} {t : Nat}

theorem grow (h : Builds sites roots st₀ own₀ st own) (htakes : Takes sites st₀ st')
    (htables : TableInv sites st' roots own') (hgrows : Grows sites st st' own own') :
    Builds sites roots st₀ own₀ st' own' := by
  refine ⟨htakes, htables, fun c r hc => hgrows.keeps c r (h.keeps c r hc),
    fun c r hc hr hparent => ?_⟩
  rcases hgrows.fresh c r hc with hold | hfresh
  · exact h.children c r hold hr hparent
  · refine ⟨?_, fun hmem => hfresh (h.takes.allocated c hmem)⟩
    cases hrole : own₀ c with
    | none => rfl
    | some q =>
        -- a page that had a role keeps it, and with it a parent that is not spare
        have hold := h.keeps c q hrole
        have hsame := hgrows.keeps c q hold
        rw [hc] at hsame
        cases hsame
        have hspare := h.children c r hold hr hparent
        rw [hspare.1] at hrole
        cases hrole

theorem mapPath {indices : List Nat} {flags : Nat} {r : Role}
    (h : Builds sites roots st₀ own₀ st own) (hphys : Physical sites) (ht : own t = some r)
    (hmem : t ∈ st.allocated) (hspare : Spare st₀ own₀ t) (hheight : r.height = indices.length)
    (hle : r.height ≤ 4) (hfirst : ∀ i ∈ indices.head?, i < r.width)
    (hindices : ∀ i ∈ indices, i < 512) (hflags : PageFlags flags) :
    ∃ st' own', Builds sites roots st₀ own₀ st' own' ∧
      Halting.EndsIn (Halting.mapPath st t flags indices) st' := by
  have hta := h.takes.pages.page_aligned hmem
  induction indices generalizing st own t r with
  | nil => exact ⟨st, own, h, Or.inl rfl⟩
  | cons i rest ih =>
      have hpages := h.takes.pages
      have hi := hindices i (by simp)
      cases rest with
      | nil =>
          cases hstep : Halting.ensurePage st t i flags with
          | error st' =>
              obtain ⟨rfl, hnone⟩ := Halting.ensurePage_error hpages hstep
              exact ⟨st', own, h, Or.inr ⟨hstep, hnone⟩⟩
          | ok st' =>
              have hsome := Halting.ensurePage_toOption st t i flags
              rw [hstep] at hsome
              obtain ⟨own', -, hpages', h', hgrows, -⟩ := h.tables.ensurePage hpages hphys ht
                hheight (hfirst i (by simp)) hflags hsome.symm
              have htakes := h.takes.fill hpages' hgrows.allocated hmem hspare.2
                fun p hp hpt _ x => ensurePage_frames hpages hta hi hsome.symm hp hpt
              exact ⟨st', own', h.grow htakes h' hgrows, Or.inl hstep⟩
      | cons j rest =>
          simp only [List.length_cons] at hheight ih
          cases hstep : Halting.ensureTable st t i flags with
          | error st' =>
              obtain ⟨rfl, hnone⟩ := Halting.ensureTable_error hpages hstep
              refine ⟨st', own, h, Or.inr ⟨?_, hnone⟩⟩
              rw [Halting.mapPath, hstep]
              rfl
          | ok s =>
              obtain ⟨st₁, c⟩ := s
              have hsome := Halting.ensureTable_toOption st t i flags
              rw [hstep] at hsome
              obtain ⟨own₁, hpages₁, h₁, hgrows, hc, -⟩ := h.tables.ensureTable hpages hphys ht
                (by omega) (hfirst i (by simp)) hflags hsome.symm
              have htakes := h.takes.fill hpages₁ hgrows.allocated hmem hspare.2
                fun p hp hpt hold x => ensureTable_frames hpages hta hi hsome.symm hp hpt hold
              have hbuilds := h.grow htakes h₁ hgrows
              have hclt : (⟨r.height - 1, t, i⟩ : Role).height < 4 := by
                simp only
                omega
              have hcmem := h₁.allocated hc hclt
              have hrest : ∀ k ∈ j :: rest, k < 512 := fun k hk => hindices k (by simp [hk])
              obtain ⟨st', own', h', hrun⟩ := ih hbuilds hc hcmem
                (hbuilds.children c _ hc hclt hspare) (by simp only; omega) (by simp only; omega)
                (Role.head_lt_width hclt hrest) hrest (hpages₁.page_aligned hcmem)
              refine ⟨st', own', h', ?_⟩
              rw [Halting.mapPath, hstep]
              exact hrun

theorem mapMemoryPage {va flags : Nat} (h : Builds sites roots st₀ own₀ st own)
    (hphys : Physical sites) (hroot : t ∈ roots) (hmem : t ∈ st.allocated)
    (hspare : Spare st₀ own₀ t) (hva : va < 0x800000000000) (hflags : PageFlags flags) :
    ∃ st' own', Builds sites roots st₀ own₀ st' own' ∧
      Halting.EndsIn (Halting.mapMemoryPage st t va flags) st' := by
  obtain ⟨r, hr, hheight, hfour, hfirst⟩ := h.tables.root_width hroot hva
  simp only [Halting.mapMemoryPage_eq]
  exact h.mapPath hphys hr hmem hspare hheight (Nat.le_of_eq hfour) hfirst
    (fun i hi => pathIndices_lt hi) hflags

/-- A loop with fuel for its range comes to its end, or it halts. -/
theorem forPages {flags fuel stop va : Nat} (h : Builds sites roots st₀ own₀ st own)
    (hphys : Physical sites) (hroot : t ∈ roots) (hmem : t ∈ st.allocated)
    (hspare : Spare st₀ own₀ t) (hflags : PageFlags flags) (hstop : stop ≤ 0x800000000000)
    (hfuel : stop ≤ va + fuel * 0x1000) :
    ∃ r st' own', Halting.forPages (fun va st => Halting.mapMemoryPage st t va flags) stop
        (fuel + 1) va st = some r ∧
      Halting.EndsIn r st' ∧ Builds sites roots st₀ own₀ st' own' ∧ t ∈ st'.allocated := by
  induction fuel generalizing va st own with
  | zero => exact ⟨_, st, own, if_neg (by omega), Or.inl rfl, h, hmem⟩
  | succ fuel ih =>
      rw [Halting.forPages]
      by_cases hlt : va < stop
      · obtain ⟨st₁, own₁, h₁, hrun⟩ := h.mapMemoryPage hphys hroot hmem hspare
          (Nat.lt_of_lt_of_le hlt hstop) hflags
        have hmem₁ : t ∈ st₁.allocated := by
          obtain ⟨r, hr, -⟩ := h₁.tables.roots t hroot
          by_contra hfresh
          exact h₁.tables.ne_fresh h.takes.pages hmem hfresh hr rfl
        have hadd : add64 va 0x1000 = va + 0x1000 := add64_eq (by omega)
        rcases hrun with hrun | ⟨hrun, hnone⟩
        · rw [if_pos hlt, hrun, hadd]
          exact ih h₁ hmem₁ (by omega)
        · refine ⟨.error st₁, st₁, own₁, ?_, Or.inr ⟨rfl, hnone⟩, h₁, hmem₁⟩
          rw [if_pos hlt, hrun]
      · exact ⟨_, st, own, if_neg hlt, Or.inl rfl, h, hmem⟩

/-- The areas have too few pages for a region that reaches the end of the user half. -/
theorem allocateRegion {flags fuel start : Nat} (h : Builds sites roots st₀ own₀ st own)
    (hphys : Physical sites) (hsites : sites.length ≤ 0x100) (hroot : t ∈ roots)
    (hmem : t ∈ st.allocated) (hspare : Spare st₀ own₀ t) (hflags : PageFlags flags)
    (halign : start % 0x1000 = 0) (hstart : start ≤ 0x400000000000) (hfuel : 0x10000000 ≤ fuel)
    (stop : Nat) :
    ∃ r st' own', Halting.allocateRegion (fuel + 1) st t start stop flags = some r ∧
      Halting.EndsIn r st' ∧ Builds sites roots st₀ own₀ st' own' ∧ t ∈ st'.allocated := by
  have hround : pageRoundDown start = start := by
    rw [pageRoundDown_eq (by omega)]
    omega
  have hpart : ∀ stop ≤ start + 256000001 * 0x1000 + 1, ∃ r st' own',
      Halting.allocateRegion (fuel + 1) st t start stop flags = some r ∧
        Halting.EndsIn r st' ∧ Builds sites roots st₀ own₀ st' own' ∧ t ∈ st'.allocated := by
    intro stop hstop
    rw [Halting.allocateRegion, hround]
    exact h.forPages hphys hroot hmem hspare hflags (by omega) (by omega)
  by_cases hfar : stop ≤ start + 256000001 * 0x1000 + 1
  · exact hpart stop hfar
  · obtain ⟨r, st', own', hrun, hends, h', hmem'⟩ := hpart _ (Nat.le_refl _)
    refine ⟨r, st', own', ?_, hends, h', hmem'⟩
    rcases hends with rfl | ⟨rfl, -⟩
    · have hsome := Halting.allocateRegion_toOption st (fuel + 1) t start
        (start + 256000001 * 0x1000 + 1) flags
      rw [hrun] at hsome
      have := h.tables.allocateRegion_le h.takes.pages hphys hsites hroot hflags halign hstart
        hsome.symm
      omega
    · rw [Halting.allocateRegion] at hrun ⊢
      exact Halting.forPages_halts (by omega) hrun

end Builds

end BayosKernel
