import BayosKernel.HeapRuns

/-!
When `alloc` answers NULL: its two tests, what they refuse, and what they let through
when their sums wrap. A heap whose blocks are all freed is the new heap again.
-/

namespace BayosKernel

open Foundation BlockList HeapNode

/-- A list of nodes of a known extent is the only one in its memory. -/
theorem Segment.unique {m : ByteMemory} {next prev prev' a : Nat} {bs bs' : List Block}
    (hseg : Segment m next prev a bs) (hseg' : Segment m next prev' a bs')
    (hextent : extent 0x20 bs = extent 0x20 bs') : bs = bs' := by
  induction bs generalizing prev prev' a bs' with
  | nil =>
      cases bs' with
      | nil => rfl
      | cons b' rest' =>
          simp only [extent] at hextent
          omega
  | cons b rest ih =>
      cases bs' with
      | nil =>
          simp only [extent] at hextent
          omega
      | cons b' rest' =>
          obtain ⟨hread, hrest⟩ := hseg
          obtain ⟨hread', hrest'⟩ := hseg'
          rw [hread] at hread'
          injection hread' with hsize hstatus
          have hfree : b.free = b'.free := by
            rw [Bool.eq_iff_iff, ← blockStatus_free_iff, ← blockStatus_free_iff, hstatus]
          have hb : b = b' := by
            cases b
            cases b'
            exact congrArg₂ Block.mk hsize hfree
          subst hb
          simp only [extent] at hextent
          rw [ih hrest hrest' (by omega)]

theorem Tiled.unique {al : Allocator} {m : ByteMemory} {bs bs' : List Block}
    (h : Tiled al m bs) (h' : Tiled al m bs') : bs = bs' :=
  h.segment.unique h'.segment (h.extent.trans h'.extent.symm)

/-- A request with which the sums of `alloc` do not wrap, or for which every free block is
smaller than what is left of them. -/
def HeapAction.Sound (st : HeapState) : HeapAction → Prop
  | .alloc size => size < 0x10000000000000000 ∧
      (st.al.addr = 0 ∨ size + 0x40 < 0x10000000000000000 ∨
        ∀ bs, Tiled st.al st.mem bs →
          ∀ b ∈ bs, b.free = true → b.size < size + 0x40 - 0x10000000000000000)
  | _ => True

theorem HeapAction.Fits.sound {st : HeapState} {a : HeapAction} (h : a.Fits st) :
    a.Sound st := by
  cases a with
  | alloc size => exact ⟨by have := h.2; omega, Or.inr (Or.inl h.2)⟩
  | free p => trivial
  | store x v => trivial

/-- Where the sums of `alloc` wrap, what is left of them decides. -/
theorem Allocator.accepts_wrap {n : Nat} {b : Block} (hn : n < 0x10000000000000000)
    (hwrap : ¬n + 0x40 < 0x10000000000000000) : Accepts (max n 0x20) b ↔
      b.free = true ∧ n + 0x40 - 0x10000000000000000 ≤ b.size := by
  have hmax : max n 0x20 = n := by omega
  have hsum : add64 (add64 n sizeofHeapNode) 0x20 = n + 0x40 - 0x10000000000000000 := by
    simp only [add64, sizeofHeapNode]
    omega
  rw [hmax, Accepts, hsum]
  refine and_congr_right fun _ => ⟨fun hcase => ?_, Or.inr⟩
  rcases hcase with hexact | hsplit
  · omega
  · exact hsplit

namespace HeapInv

variable {st : HeapState} {bs : List Block} {fuel n : Nat}

theorem ne_nil (h : HeapInv st bs) : bs ≠ [] := by
  rintro rfl
  have hextent := h.tiled.extent
  have hlarge := h.large
  simp only [extent] at hextent
  omega

theorem alloc_eq (h : HeapInv st bs) (n : Nat) : st.al.alloc fuel st.mem n =
    Allocator.allocLoop (max n 0x20) fuel st.mem st.al.addr := by
  have hmax : (if n < 0x20 then 0x20 else n) = max n 0x20 := by
    split <;> omega
  rw [Allocator.alloc, hmax, h.tiled.first]

theorem enter_eq (h : HeapInv st bs) : enter st.al.addr 0 bs = st.al.addr := by
  obtain ⟨b, rest, rfl⟩ := List.exists_cons_of_ne_nil h.ne_nil
  exact enter_cons ..

/-- A heap that starts at NULL is searched as an empty one. -/
theorem alloc_null (h : HeapInv st bs) (hfuel : st.al.size ≤ fuel)
    (hall : st.al.addr = 0 ∨ ∀ b ∈ bs, ¬Allocator.Accepts (max n 0x20) b) :
    st.al.alloc fuel st.mem n = some (st.mem, NULL) := by
  have hfuel' := h.length_lt hfuel
  rw [h.alloc_eq]
  rcases Nat.eq_zero_or_pos st.al.addr with hzero | hpos
  · obtain ⟨k, rfl⟩ : ∃ k, fuel = k + 1 := ⟨fuel - 1, by omega⟩
    simp [Allocator.allocLoop, hzero]
  · have hloop := Allocator.allocLoop_refused h.tiled.segment hpos hfuel'
      (hall.resolve_left (Nat.ne_of_gt hpos))
    rwa [h.enter_eq] at hloop

theorem alloc_block (h : HeapInv st bs) (hfuel : st.al.size ≤ fuel) (hpos : 0 < st.al.addr)
    (hsome : ∃ b ∈ bs, Allocator.Accepts (max n 0x20) b) :
    ∃ m' p, st.al.alloc fuel st.mem n = some (m', p) ∧ p ≠ NULL := by
  have hend : st.al.addr + extent 0x20 bs < 0x10000000000000000 := by
    rw [h.tiled.extent]
    exact h.bound
  have hloop := Allocator.allocLoop_accepted h.tiled.segment hpos hend (h.length_lt hfuel) hsome
  rwa [h.enter_eq, ← h.alloc_eq] at hloop

theorem size_le (h : HeapInv st bs) {b : Block} (hb : b ∈ bs) : b.size + 0x20 ≤ st.al.size := by
  obtain ⟨pre, post, rfl⟩ := List.append_of_mem hb
  have hextent := h.tiled.extent
  simp only [extent_append, extent] at hextent
  omega

/-- A refused request leaves the state as it is. -/
theorem sound_step (h : HeapInv st bs) {st' : HeapState} {a : HeapAction}
    (hfuel : st.al.size ≤ fuel) (hsound : a.Sound st) (hstep : st.step fuel a = some st') :
    ∃ bs', HeapInv st' bs' := by
  cases a with
  | alloc n =>
      obtain ⟨hn, hsound⟩ := hsound
      by_cases hwrap : n + 0x40 < 0x10000000000000000
      · exact h.alloc_step hfuel hwrap hstep
      · have hnull := h.alloc_null (n := n) hfuel <| hsound.imp_right fun hall b hb haccepts => by
          obtain ⟨hfree, hle⟩ := (Allocator.accepts_wrap hn hwrap).mp haccepts
          have := hall.resolve_left hwrap bs h.tiled b hb hfree
          omega
        simp only [HeapState.step, hnull] at hstep
        cases hstep
        exact ⟨bs, by simpa using h⟩
  | free p => exact h.free_step hstep
  | store x v => exact h.store_step hstep

/-- A request larger than the heap is refused just when it is a sound one. -/
theorem alloc_null_iff (h : HeapInv st bs) (hfuel : st.al.size ≤ fuel) (hlarge : st.al.size < n)
    (hn : n < 0x10000000000000000) :
    st.al.alloc fuel st.mem n = some (st.mem, NULL) ↔ (HeapAction.alloc n).Sound st := by
  constructor
  · intro hnull
    refine ⟨hn, ?_⟩
    by_contra hnot
    simp only [not_or, not_forall, Nat.not_lt] at hnot
    obtain ⟨hpos, hwrap, bs', htiled', b, hb, hfree, hle⟩ := hnot
    rw [← h.tiled.unique htiled'] at hb
    obtain ⟨m', p, hsome, hne⟩ := h.alloc_block hfuel (Nat.pos_of_ne_zero hpos)
      ⟨b, hb, (Allocator.accepts_wrap hn (by omega)).mpr ⟨hfree, hle⟩⟩
    rw [hsome] at hnull
    exact hne (congrArg Prod.snd (Option.some.inj hnull))
  · rintro ⟨-, hsound⟩
    refine h.alloc_null hfuel (hsound.imp_right fun hall b hb haccepts => ?_)
    have hbound := h.size_le hb
    rcases hall with hwrap | hall
    · obtain ⟨-, hexact | hsplit⟩ := haccepts
      · omega
      · simp (disch := omega) only [add64_eq, sizeofHeapNode] at hsplit
        omega
    · by_cases hwrap : n + 0x40 < 0x10000000000000000
      · obtain ⟨-, hexact | hsplit⟩ := haccepts
        · omega
        · simp (disch := omega) only [add64_eq, sizeofHeapNode] at hsplit
          omega
      · obtain ⟨hfree, hle⟩ := (Allocator.accepts_wrap hn hwrap).mp haccepts
        have := hall bs h.tiled b hb hfree
        omega

/-- When no client holds a block, the nodes are the one node of the new heap. -/
theorem of_freed (h : HeapInv st bs) (hfreed : st.live = []) :
    bs = [⟨st.al.size - 0x20, true⟩] := by
  have hpayloads : payloads 0x20 st.al.addr bs = [] := by
    have hperm := h.live
    rw [hfreed, List.map_nil] at hperm
    exact hperm.symm.eq_nil
  obtain ⟨b, rfl, hb⟩ :=
    h.tiled.coalesced.eq_singleton (payloads_eq_nil_iff.mp hpayloads) h.ne_nil
  have hextent := h.tiled.extent
  simp only [extent] at hextent
  rw [show st.al.size - 0x20 = b.size by omega, ← hb]

end HeapInv

section Runs

variable {fuel addr size : Nat} {m : ByteMemory} {run : List HeapAction} {st : HeapState}

/-- After a run that frees all that it allocated, the heap is the new one. -/
theorem heapMachine_restored (hsize : 0x20 < size) (hend : addr + size < 0x10000000000000000)
    (hfuel : size ≤ fuel)
    (hfits : (heapMachine fuel).Meets (fun st a => a.Fits st) (newHeap m addr size) run)
    (hrun : (heapMachine fuel).exec (newHeap m addr size) run = some st)
    (hfreed : st.live = []) :
    st.al = (newHeap m addr size).al ∧ read st.mem addr = ⟨size - 0x20, FREE, NULL, NULL⟩ := by
  obtain ⟨hal, bs, hinv⟩ := heapMachine_inv hsize hend hfuel hfits hrun
  have hseg := hinv.tiled.segment
  rw [hinv.of_freed hfreed, hal] at hseg
  exact ⟨hal, hseg.1⟩

/-- Three blocks, freed from the outside in, with another one allocated between. -/
def freeAll : List HeapAction :=
  [.alloc 0x100, .alloc 0x80, .alloc 1, .free 0x1020, .free 0x11e0, .alloc 0x40, .free 0x1140,
    .free 0x1020]

theorem heapMachine_restored_freeAll : ∃ st,
    (heapMachine 0x1000).exec (newHeap (fun _ => 0xff) 0x1000 0x1000) freeAll = some st ∧
      read st.mem 0x1000 = ⟨0xfe0, FREE, NULL, NULL⟩ := by
  have hrun : ((heapMachine 0x1000).exec (newHeap (fun _ => 0xff) 0x1000 0x1000)
      freeAll).map HeapState.live = some [] := by decide +kernel
  obtain ⟨st, hst, hlive⟩ := Option.map_eq_some_iff.mp hrun
  exact ⟨st, hst, (heapMachine_restored (by decide) (by decide) (Nat.le_refl 0x1000)
    (by decide +kernel) hst hlive).2⟩

/-- In a heap of nearly all addresses, the only block is freed and the node of the new heap
does not come back. -/
theorem wholeMemory_not_restored : ∃ st,
    (heapMachine 4).exec (newHeap (fun _ => 0) 0x10 0xffffffffffffffef)
        [.alloc 0xffffffffffffffd8, .free 0x30] = some st ∧ st.live = [] ∧
      read st.mem 0x10 ≠ ⟨0xffffffffffffffcf, FREE, NULL, NULL⟩ := by
  have hrun : ((heapMachine 4).exec (newHeap (fun _ => 0) 0x10 0xffffffffffffffef)
      [.alloc 0xffffffffffffffd8, .free 0x30]).map
        (fun st => (st.live, decide (read st.mem 0x10 ≠ ⟨0xffffffffffffffcf, FREE, NULL, NULL⟩))) =
      some ([], true) := by decide
  obtain ⟨st, hst, heq⟩ := Option.map_eq_some_iff.mp hrun
  obtain ⟨hlive, hne⟩ := Prod.mk.inj heq
  exact ⟨st, hst, hlive, of_decide_eq_true hne⟩

theorem heapMachine_sound_inv (hsize : 0x20 < size) (hend : addr + size < 0x10000000000000000)
    (hfuel : size ≤ fuel)
    (hsound : (heapMachine fuel).Meets (fun st a => a.Sound st) (newHeap m addr size) run)
    (hrun : (heapMachine fuel).exec (newHeap m addr size) run = some st) :
    st.al = ⟨addr, addr, size⟩ ∧ ∃ bs, HeapInv st bs := by
  refine (heapMachine fuel).exec_invariant
    (I := fun st => st.al = ⟨addr, addr, size⟩ ∧ ∃ bs, HeapInv st bs)
    ?_ ⟨rfl, _, newHeap_inv m hsize hend⟩ hsound hrun
  intro s a s' ⟨hal, bs, hinv⟩ hsound hstep
  exact ⟨(HeapState.step_al hstep).trans hal,
    hinv.sound_step (by rw [hal]; exact hfuel) hsound hstep⟩

/-- Which requests `alloc` serves: a free block has the size, or is larger by a header and
0x20 bytes. From the sizes between, a free block is not handed out. -/
theorem heapMachine_alloc_serves (hsize : 0x20 < size)
    (hend : addr + size < 0x10000000000000000) (hpos : 0 < addr) (hfuel : size ≤ fuel)
    (hsound : (heapMachine fuel).Meets (fun st a => a.Sound st) (newHeap m addr size) run)
    (hrun : (heapMachine fuel).exec (newHeap m addr size) run = some st) :
    ∃ bs, Tiled st.al st.mem bs ∧ ∀ n, n ≤ size →
      ((∃ b ∈ bs, b.free = true ∧ (b.size = max n 0x20 ∨ max n 0x20 + 0x40 ≤ b.size)) →
        ∃ m' p, st.al.alloc fuel st.mem n = some (m', p) ∧ p ≠ NULL) ∧
      (n + 0x40 < 0x10000000000000000 →
        (∀ b ∈ bs, b.free = true → b.size ≠ max n 0x20 ∧ b.size < max n 0x20 + 0x40) →
          st.al.alloc fuel st.mem n = some (st.mem, NULL)) := by
  obtain ⟨hal, bs, hinv⟩ := heapMachine_sound_inv hsize hend hfuel hsound hrun
  have hheap : st.al.size = size := by rw [hal]
  have hfuel' : st.al.size ≤ fuel := by omega
  have hsum : ∀ k, k + 0x40 < 0x10000000000000000 → add64 (add64 k 0x20) 0x20 = k + 0x40 := by
    intro k hk
    simp (disch := omega) only [add64_eq, Nat.add_assoc]
  refine ⟨bs, hinv.tiled, fun n hn => ⟨?_, fun hwrap hall => ?_⟩⟩
  · rintro ⟨b, hb, hfree, hb'⟩
    refine hinv.alloc_block hfuel' (by rw [hal]; exact hpos)
      ⟨b, hb, hfree, hb'.imp_right fun hle => ?_⟩
    have hbound := hinv.size_le hb
    rw [sizeofHeapNode, hsum _ (by omega)]
    exact hle
  · refine hinv.alloc_null hfuel' (Or.inr ?_)
    rintro b hb ⟨hfree, hsize' | hsize'⟩
    · exact (hall b hb hfree).1 hsize'
    · rw [sizeofHeapNode, hsum _ (by omega)] at hsize'
      have := (hall b hb hfree).2
      omega

theorem sound_allocAndFree : (heapMachine 0x1000).Meets (fun st a => a.Sound st)
    (newHeap (fun _ => 0xff) 0x1000 0x1000) allocAndFree :=
  (heapMachine 0x1000).meets_mono (C := fun st a => HeapAction.Fits st a)
    (fun _ _ => HeapAction.Fits.sound) (by decide)

theorem heapMachine_alloc_serves_allocAndFree : ∃ st bs,
    (heapMachine 0x1000).exec (newHeap (fun _ => 0xff) 0x1000 0x1000) allocAndFree = some st ∧
      Tiled st.al st.mem bs ∧ ∀ n, n ≤ 0x1000 →
        (∃ b ∈ bs, b.free = true ∧ (b.size = max n 0x20 ∨ max n 0x20 + 0x40 ≤ b.size)) →
          ∃ m' p, st.al.alloc 0x1000 st.mem n = some (m', p) ∧ p ≠ NULL := by
  have hrun : ((heapMachine 0x1000).exec (newHeap (fun _ => 0xff) 0x1000 0x1000)
      allocAndFree).isSome = true := by decide
  obtain ⟨st, hst⟩ := Option.isSome_iff_exists.mp hrun
  obtain ⟨bs, htiled, hserves⟩ := heapMachine_alloc_serves (by decide) (by decide) (by decide)
    (Nat.le_refl 0x1000) sound_allocAndFree hst
  exact ⟨st, bs, hst, htiled, fun n hn => (hserves n hn).1⟩

/-- A free block of 0x30 bytes is not handed out for a request of 0x20 bytes. -/
theorem freeBlock_refused : ∃ st, (heapMachine 0x50).exec (newHeap (fun _ => 0) 0x1000 0x50) [] =
      some st ∧ st.al.first = 0x1000 ∧ read st.mem 0x1000 = ⟨0x30, FREE, NULL, NULL⟩ ∧
        ∃ m', st.al.alloc 0x50 st.mem 0x20 = some (m', NULL) := by
  have hrun : ((heapMachine 0x50).exec (newHeap (fun _ => 0) 0x1000 0x50) []).map
      (fun st => (st.al.first, read st.mem 0x1000,
        (st.al.alloc 0x50 st.mem 0x20).map Prod.snd)) =
      some (0x1000, ⟨0x30, FREE, NULL, NULL⟩, some NULL) := by decide
  obtain ⟨st, hst, heq⟩ := Option.map_eq_some_iff.mp hrun
  obtain ⟨hfirst, heq⟩ := Prod.mk.inj heq
  obtain ⟨hread, halloc⟩ := Prod.mk.inj heq
  obtain ⟨⟨m', p⟩, hsome, rfl⟩ := Option.map_eq_some_iff.mp halloc
  exact ⟨st, hst, hfirst, hread, m', hsome⟩

/-- A request larger than the heap is refused unless the sums of `alloc` wrap and a free
block is as large as what is left of them. -/
theorem heapMachine_refuses_iff (hsize : 0x20 < size)
    (hend : addr + size < 0x10000000000000000) (hfuel : size ≤ fuel)
    (hsound : (heapMachine fuel).Meets (fun st a => a.Sound st) (newHeap m addr size) run)
    (hrun : (heapMachine fuel).exec (newHeap m addr size) run = some st) :
    ∃ bs, Tiled st.al st.mem bs ∧ ∀ n, size < n → n < 0x10000000000000000 →
      (st.al.alloc fuel st.mem n = some (st.mem, NULL) ↔
        addr = 0 ∨ n + 0x40 < 0x10000000000000000 ∨
          ∀ b ∈ bs, b.free = true → b.size < n + 0x40 - 0x10000000000000000) := by
  obtain ⟨hal, bs, hinv⟩ := heapMachine_sound_inv hsize hend hfuel hsound hrun
  have hheap : st.al.size = size := by rw [hal]
  have haddr : st.al.addr = addr := by rw [hal]
  refine ⟨bs, hinv.tiled, fun n hlarge hn => ?_⟩
  rw [hinv.alloc_null_iff (by omega) (by omega) hn, HeapAction.Sound, haddr, and_iff_right hn]
  refine or_congr_right (or_congr_right ⟨fun hall => hall bs hinv.tiled, ?_⟩)
  intro hall bs' htiled'
  rw [← hinv.tiled.unique htiled']
  exact hall

theorem heapMachine_refuses_iff_allocAndFree : ∃ st,
    (heapMachine 0x1000).exec (newHeap (fun _ => 0xff) 0x1000 0x1000) allocAndFree = some st ∧
      st.al.alloc 0x1000 st.mem 0xffffffffffffffbf = some (st.mem, NULL) := by
  have hrun : ((heapMachine 0x1000).exec (newHeap (fun _ => 0xff) 0x1000 0x1000)
      allocAndFree).isSome = true := by decide
  obtain ⟨st, hst⟩ := Option.isSome_iff_exists.mp hrun
  obtain ⟨bs, -, hrefuses⟩ := heapMachine_refuses_iff (by decide) (by decide)
    (Nat.le_refl 0x1000) sound_allocAndFree hst
  exact ⟨st, hst, (hrefuses 0xffffffffffffffbf (by decide) (by decide)).mpr
    (Or.inr (Or.inl (by decide)))⟩

/-- A request of 2^64 - 0x40 bytes gets the first free block. -/
theorem hugeRequest_served : ∃ st st',
    (heapMachine 0x1000).exec (newHeap (fun _ => 0) 0x1000 0x1000) [.alloc 0x20] = some st ∧
      st.al.size < 0xffffffffffffffc0 ∧
      st.step 0x1000 (.alloc 0xffffffffffffffc0) = some st' ∧
      st'.live = [(0x1060, 0xffffffffffffffc0), (0x1020, 0x20)] ∧
        read st'.mem 0x1040 ≠ read st.mem 0x1040 := by
  have hrun : ((heapMachine 0x1000).exec (newHeap (fun _ => 0) 0x1000 0x1000) [.alloc 0x20]).bind
      (fun st => (st.step 0x1000 (.alloc 0xffffffffffffffc0)).map fun st' =>
        (st.al.size, st'.live, decide (read st'.mem 0x1040 ≠ read st.mem 0x1040))) =
      some (0x1000, [(0x1060, 0xffffffffffffffc0), (0x1020, 0x20)], true) := by decide
  obtain ⟨st, hst, hmap⟩ := Option.bind_eq_some_iff.mp hrun
  obtain ⟨st', hst', heq⟩ := Option.map_eq_some_iff.mp hmap
  obtain ⟨hal, heq⟩ := Prod.mk.inj heq
  obtain ⟨hlive, hne⟩ := Prod.mk.inj heq
  exact ⟨st, st', hst, by rw [hal]; decide, hst', hlive, of_decide_eq_true hne⟩

end Runs

end BayosKernel
