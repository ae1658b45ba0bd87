import BayosKernel.HeapRuns

/-!
Live blocks: they lie apart in the heap, away from every header, and no call on
another block changes their bytes.
-/

namespace BayosKernel

open Foundation BlockList HeapNode

namespace HeapState

/-- `alloc`, with the book-keeping of the clients. -/
def take (fuel : Nat) (st : HeapState) (n : Nat) : Option (HeapState × Nat) :=
  (st.al.alloc fuel st.mem n).map fun (m, p) =>
    ({ st with mem := m, live := if p = NULL then st.live else (p, n) :: st.live }, p)

/-- `free`, with the book-keeping of the clients. -/
def give (st : HeapState) (p : Nat) : HeapState :=
  { st with mem := st.al.free st.mem p, live := st.live.eraseP fun g => g.1 == p }

end HeapState

/-- The bytes of a live block. -/
def InBlock (g : Nat × Nat) (x : Nat) : Prop := g.1 ≤ x ∧ x < g.1 + (granted g).2

structure LiveBlocks (st : HeapState) (bs : List Block) : Prop where
  tiled : Tiled st.al st.mem bs
  inside : ∀ g ∈ st.live, st.al.addr ≤ g.1 ∧ g.1 + (granted g).2 ≤ st.al.addr + st.al.size
  apart : st.live.Pairwise fun g g' =>
    g.1 + (granted g).2 ≤ g'.1 ∨ g'.1 + (granted g').2 ≤ g.1
  headers : ∀ g ∈ st.live, ∀ x, InBlock g x → ¬Header 0x20 st.al.addr bs x

theorem LiveBlocks.apart_of_ne {st : HeapState} {bs : List Block} (h : LiveBlocks st bs)
    {g g' : Nat × Nat} (hg : g ∈ st.live) (hg' : g' ∈ st.live) (hne : g ≠ g') :
    g.1 + (granted g).2 ≤ g'.1 ∨ g'.1 + (granted g').2 ≤ g.1 := by
  have : Std.Symm fun g g' : Nat × Nat =>
      g.1 + (granted g).2 ≤ g'.1 ∨ g'.1 + (granted g').2 ≤ g.1 := ⟨fun _ _ => Or.symm⟩
  exact h.apart.forall hg hg' hne

namespace HeapInv

variable {st st' : HeapState} {bs : List Block}

theorem liveBlocks (h : HeapInv st bs) : LiveBlocks st bs := by
  have hextent := h.tiled.extent
  refine ⟨h.tiled, fun g hg => ?_, ?_, fun g hg x ⟨hle, hlt⟩ hheader => ?_⟩
  · obtain ⟨pre, b, post, rfl, -, hptr, hsize⟩ := h.live_block hg
    simp only [extent_append, extent] at hextent
    simp only [granted]
    omega
  · have hpairs : (st.live.map granted).Pairwise fun g g' => g.1 + g.2 ≤ g'.1 ∨ g'.1 + g'.2 ≤ g.1 :=
      (h.live.pairwise_iff fun hapart => hapart.symm).mpr (payloads_apart st.al.addr bs)
    exact List.pairwise_map.mp hpairs
  · obtain ⟨pre, b, post, rfl, hb, hptr, hsize⟩ := h.live_block hg
    simp only [granted] at hlt
    exact not_managed_payload hb (by omega) (by omega) hheader.managed

/-- No step but the release of the block itself and a store to the byte changes
a byte of a live block. -/
theorem step_keeps (h : HeapInv st bs) {fuel x : Nat} {a : HeapAction} {g : Nat × Nat}
    (hfuel : st.al.size ≤ fuel) (hfits : a.Fits st) (hstep : st.step fuel a = some st')
    (hg : g ∈ st.live) (hx : InBlock g x) (hfree : a ≠ .free g.1)
    (hstore : ∀ v, a ≠ .store x v) : g ∈ st'.live ∧ st'.mem x = st.mem x := by
  obtain ⟨hle, hlt⟩ := hx
  have hmanaged : ¬Managed 0x20 st.al.addr bs x := by
    obtain ⟨pre, b, post, rfl, hb, hptr, hsize⟩ := h.live_block hg
    simp only [granted] at hlt
    exact not_managed_payload hb (by omega) (by omega)
  cases a with
  | alloc n =>
      simp only [HeapState.step] at hstep
      rcases h.alloc_cases hfuel hfits.2 with hnull | ⟨m', o, bs', hsome, hfit, -, -, hframe⟩
      · rw [hnull] at hstep
        cases hstep
        exact ⟨by simpa using hg, rfl⟩
      · rw [hsome] at hstep
        cases hstep
        refine ⟨?_, hframe x fun hheader => hmanaged (managed_of_firstFit hfit hheader)⟩
        simp only
        split
        · exact hg
        · exact List.mem_cons_of_mem _ hg
  | free p =>
      simp only [HeapState.step] at hstep
      split at hstep
      · rename_i hmem
        cases hstep
        have hne : g.1 ≠ p := fun heq => hfree (by rw [heq])
        refine ⟨(List.mem_eraseP_of_neg (by simpa using hne)).mpr hg, ?_⟩
        obtain ⟨g', hg', rfl⟩ := List.mem_map.mp hmem
        obtain ⟨pre, b, post, rfl, hb, hptr, hsize⟩ := h.live_block hg'
        have hpos : 0 < st.al.addr :=
          Nat.pos_of_ne_zero fun hzero => by simp [h.nowhere hzero] at hg
        obtain ⟨-, hframe⟩ := Allocator.free_segment h.tiled.segment hpos hb (by omega)
          h.tiled.extent h.bound
        rw [hptr]
        exact hframe x fun hheader => hmanaged hheader.managed
      · cases hstep
  | store y v =>
      simp only [HeapState.step] at hstep
      split at hstep
      · cases hstep
        have hne : x ≠ y := by
          rintro rfl
          exact hstore v rfl
        exact ⟨hg, Function.update_of_ne hne ..⟩
      · cases hstep

/-- Bytes that the heap does not use for itself may change. -/
theorem of_frame (h : HeapInv st bs) {m' : ByteMemory}
    (hframe : ∀ x, Managed 0x20 st.al.addr bs x → m' x = st.mem x) :
    HeapInv { st with mem := m' } bs :=
  ⟨⟨h.tiled.first, h.tiled.segment.congr hframe, h.tiled.extent, h.tiled.coalesced⟩, h.bound,
    h.large, h.live, h.nowhere⟩

/-- Writes into a live block keep the invariant. -/
theorem of_block (h : HeapInv st bs) {m' : ByteMemory} {g : Nat × Nat} (hg : g ∈ st.live)
    (hframe : ∀ x, x < g.1 ∨ g.1 + g.2 ≤ x → m' x = st.mem x) :
    HeapInv { st with mem := m' } bs :=
  h.of_frame fun x hx => hframe x (by
    by_contra hin
    exact h.not_managed (Or.inr ⟨g, hg, by omega, by omega⟩) hx)

/-- The two outcomes of `alloc`: no block, or one apart from all live ones, which
keep their bytes. -/
theorem take_cases (h : HeapInv st bs) {fuel n p : Nat} (hfuel : st.al.size ≤ fuel)
    (hn : n + 0x40 < 0x10000000000000000) (htake : st.take fuel n = some (st', p)) :
    (p = NULL ∧ st' = st) ∨
      (p ≠ NULL ∧ p + n ≤ st.al.addr + st.al.size ∧ (∃ bs', HeapInv st' bs') ∧ st'.al = st.al ∧
        st'.live = (p, n) :: st.live ∧ ∀ g ∈ st.live, (p + n ≤ g.1 ∨ g.1 + g.2 ≤ p) ∧
          ∀ x, g.1 ≤ x → x < g.1 + g.2 → st'.mem x = st.mem x) := by
  obtain ⟨⟨m, p'⟩, halloc, heq⟩ := Option.map_eq_some_iff.mp htake
  have hstep : st.step fuel (.alloc n) = some st' := by
    simp only [HeapState.step, halloc, Option.map_some]
    exact congrArg some (Prod.mk.inj heq).1
  obtain ⟨rfl, rfl⟩ := Prod.mk.inj heq
  rcases h.alloc_cases hfuel hn with hnull | ⟨m', o, bs₁, hsome, hfit, -, -, hframe⟩
  · rw [hnull] at halloc
    cases halloc
    exact Or.inl ⟨rfl, rfl⟩
  · rw [hsome] at halloc
    cases halloc
    have hne : ¬st.al.addr + o + 0x20 = NULL := by
      simp only [NULL]
      omega
    obtain ⟨bs', hinv'⟩ := h.alloc_step hfuel hn hstep
    have hblocks := hinv'.liveBlocks
    simp only [if_neg hne] at hblocks hinv' ⊢
    have hinside := hblocks.inside (_, n) List.mem_cons_self
    simp only [granted] at hinside
    refine Or.inr ⟨hne, by omega, ⟨bs', hinv'⟩, trivial, trivial, fun g hg =>
      ⟨?_, fun x hle hlt => hframe x fun hheader =>
        h.not_managed (Or.inr ⟨g, hg, hle, hlt⟩) (managed_of_firstFit hfit hheader)⟩⟩
    have hapart := (List.pairwise_cons.mp hblocks.apart).1 g hg
    simp only [granted] at hapart
    omega

/-- `free` of a live block leaves the other live blocks as they are. -/
theorem give_block (h : HeapInv st bs) {g : Nat × Nat} (hg : g ∈ st.live) :
    (∃ bs', HeapInv (st.give g.1) bs') ∧
      ∀ g' ∈ st.live, g'.1 ≠ g.1 → g' ∈ (st.give g.1).live ∧
        ∀ x, g'.1 ≤ x → x < g'.1 + g'.2 → (st.give g.1).mem x = st.mem x := by
  have hstep : st.step st.al.size (.free g.1) = some (st.give g.1) := by
    simp only [HeapState.step, if_pos (List.mem_map_of_mem hg), HeapState.give]
  refine ⟨h.free_step hstep, fun g' hg' hne => ?_⟩
  have hfits : (HeapAction.free g.1).Fits st := trivial
  have hkeeps : ∀ x, InBlock g' x →
      g' ∈ (st.give g.1).live ∧ (st.give g.1).mem x = st.mem x := fun x hx =>
    h.step_keeps (Nat.le_refl _) hfits hstep hg' hx (by simpa using hne.symm) (by simp)
  refine ⟨(hkeeps g'.1 ⟨Nat.le_refl _, by simp only [granted]; omega⟩).1, fun x hle hlt =>
    (hkeeps x ⟨hle, by simp only [granted]; omega⟩).2⟩

theorem exec_keeps {fuel x : Nat} {run : List HeapAction} {g : Nat × Nat}
    (h : HeapInv st bs) (hfuel : st.al.size ≤ fuel)
    (hfits : (heapMachine fuel).Meets (fun st a => a.Fits st) st run)
    (hrun : (heapMachine fuel).exec st run = some st') (hg : g ∈ st.live) (hx : InBlock g x)
    (hothers : ∀ a ∈ run, a ≠ .free g.1 ∧ ∀ v, a ≠ .store x v) :
    g ∈ st'.live ∧ st'.mem x = st.mem x := by
  induction run generalizing st bs with
  | nil =>
      cases hrun
      exact ⟨hg, rfl⟩
  | cons a rest ih =>
      obtain ⟨st₁, hstep, hrest⟩ := (heapMachine fuel).exec_cons_some hrun
      obtain ⟨hfree, hstore⟩ := hothers a (by simp)
      obtain ⟨hg₁, hsame⟩ := h.step_keeps hfuel hfits.1 hstep hg hx hfree hstore
      obtain ⟨bs₁, h₁⟩ := h.step hfuel hfits.1 hstep
      have hal := HeapState.step_al hstep
      obtain ⟨hg', hmem⟩ := ih h₁ (by rw [hal]; exact hfuel) (hfits.2 st₁ hstep) hrest hg₁
        fun b hb => hothers b (by simp [hb])
      exact ⟨hg', hmem.trans hsame⟩

end HeapInv

/-- After every run the live blocks lie apart from each other and from all
headers, also with the block that a further call hands out, and a later run
keeps the bytes of those that it neither frees nor writes. -/
theorem heapMachine_liveBlocks {fuel addr size : Nat} {m : ByteMemory} {run : List HeapAction}
    {st : HeapState} (hsize : 0x20 < size) (hend : addr + size < 0x10000000000000000)
    (hfuel : size ≤ fuel)
    (hfits : (heapMachine fuel).Meets (fun st a => a.Fits st) (newHeap m addr size) run)
    (hrun : (heapMachine fuel).exec (newHeap m addr size) run = some st) :
    (∃ bs, LiveBlocks st bs) ∧
      (∀ n m' p, n ≤ size → n + 0x40 < 0x10000000000000000 →
        st.al.alloc fuel st.mem n = some (m', p) → p ≠ NULL →
          ∃ bs, LiveBlocks ⟨st.al, m', (p, n) :: st.live⟩ bs) ∧
      ∀ later st', (heapMachine fuel).Meets (fun st a => a.Fits st) st later →
        (heapMachine fuel).exec st later = some st' → ∀ g ∈ st.live, ∀ x, InBlock g x →
          (∀ a ∈ later, a ≠ .free g.1 ∧ ∀ v, a ≠ .store x v) →
            g ∈ st'.live ∧ st'.mem x = st.mem x := by
  obtain ⟨hal, bs, hinv⟩ := heapMachine_inv hsize hend hfuel hfits hrun
  have hfuel' : st.al.size ≤ fuel := by
    rw [hal]
    exact hfuel
  refine ⟨⟨bs, hinv.liveBlocks⟩, fun n m' p _ hn halloc hp => ?_,
    fun later st' hfits' hrun' g hg x hx hothers =>
      hinv.exec_keeps hfuel' hfits' hrun' hg hx hothers⟩
  have hstep : st.step fuel (.alloc n) = some ⟨st.al, m', (p, n) :: st.live⟩ := by
    simp only [HeapState.step, halloc, Option.map_some, if_neg hp]
  obtain ⟨bs', hinv'⟩ := hinv.alloc_step hfuel' hn hstep
  exact ⟨bs', hinv'.liveBlocks⟩

theorem heapMachine_liveBlocks_allocAndFree : ∃ st st',
    (heapMachine 0x1000).exec (newHeap (fun _ => 0xff) 0x1000 0x1000) allocAndFree = some st ∧
      (heapMachine 0x1000).exec st [.alloc 0x40, .store 0x1078 9, .free 0x1070] = some st' ∧
      (∃ bs, LiveBlocks st bs) ∧ (0x1020, 0x30) ∈ st'.live ∧ st'.mem 0x1021 = st.mem 0x1021 := by
  have hrun : (((heapMachine 0x1000).exec (newHeap (fun _ => 0xff) 0x1000 0x1000)
      allocAndFree).bind fun st => ((heapMachine 0x1000).exec st
        [.alloc 0x40, .store 0x1078 9, .free 0x1070]).map fun _ =>
          (st.live, decide ((heapMachine 0x1000).Meets (fun st a => HeapAction.Fits st a) st
            [.alloc 0x40, .store 0x1078 9, .free 0x1070]))) = some ([(0x1020, 0x30)], true) := by
    decide +kernel
  obtain ⟨st, hst, hmap⟩ := Option.bind_eq_some_iff.mp hrun
  obtain ⟨st', hst', heq⟩ := Option.map_eq_some_iff.mp hmap
  obtain ⟨hlive, hfits⟩ := Prod.mk.inj heq
  obtain ⟨hblocks, -, hkeeps⟩ := heapMachine_liveBlocks (by decide) (by decide)
    (Nat.le_refl 0x1000) (by decide) hst
  obtain ⟨hg, hsame⟩ := hkeeps _ st' (of_decide_eq_true hfits) hst' (0x1020, 0x30) (by simp [hlive])
    0x1021 (by simp [InBlock, granted]) (by simp)
  exact ⟨st, st', hst, hst', hblocks, hg, hsame⟩

/-- When the sums of `alloc` wrap, the block that it hands out does not end in
the heap. -/
theorem wholeMemory_blockOutside : ∃ st,
    (heapMachine 2).exec (newHeap (fun _ => 0) 0x30 0xffffffffffffffcf)
        [.alloc 0xffffffffffffffc0] = some st ∧
      st.live = [(0x50, 0xffffffffffffffc0)] ∧
        ¬∀ g ∈ st.live, g.1 + g.2 ≤ st.al.addr + st.al.size := by
  have hrun : ((heapMachine 2).exec (newHeap (fun _ => 0) 0x30 0xffffffffffffffcf)
      [.alloc 0xffffffffffffffc0]).map (fun st => (st.al, st.live)) =
        some (⟨0x30, 0x30, 0xffffffffffffffcf⟩, [(0x50, 0xffffffffffffffc0)]) := by decide
  obtain ⟨st, hst, heq⟩ := Option.map_eq_some_iff.mp hrun
  obtain ⟨hal, hlive⟩ := Prod.mk.inj heq
  refine ⟨st, hst, hlive, ?_⟩
  rw [hal, hlive]
  decide

end BayosKernel
