import BayosKernel.HeapTiling

/-!
Runs of `alloc` and `free` on one heap, with the stores of its clients between
the calls.
-/

namespace BayosKernel

open Foundation BlockList HeapNode

/-- The nodes from `al->first` on tile the heap exactly and are coalesced. -/
structure Tiled (al : Allocator) (m : ByteMemory) (bs : List Block) : Prop where
  first : al.first = al.addr
  segment : Segment m 0 0 al.addr bs
  extent : extent 0x20 bs = al.size
  coalesced : Coalesced bs

/-- A block is at least as large as the request it was given for, and no
smaller than 0x20 bytes. -/
def granted (g : Nat × Nat) : Nat × Nat := (g.1, max g.2 0x20)

structure HeapInv (st : HeapState) (bs : List Block) : Prop where
  tiled : Tiled st.al st.mem bs
  bound : st.al.addr + st.al.size < 0x10000000000000000
  large : 0x20 < st.al.size
  live : (st.live.map granted).Perm (payloads 0x20 st.al.addr bs)
  nowhere : st.al.addr = 0 → st.live = []

/-- A request that does not exceed the heap and with which the sums of `alloc`
do not wrap. -/
def HeapAction.Fits (st : HeapState) : HeapAction → Prop
  | .alloc size => size ≤ st.al.size ∧ size + 0x40 < 0x10000000000000000
  | _ => True

instance (st : HeapState) (a : HeapAction) : Decidable (a.Fits st) := by
  cases a <;> simp only [HeapAction.Fits] <;> infer_instance

theorem newHeap_inv (m : ByteMemory) {addr size : Nat} (hsize : 0x20 < size)
    (hend : addr + size < 0x10000000000000000) :
    HeapInv (newHeap m addr size) [⟨size - 0x20, true⟩] := by
  have hsub : sub64 size sizeofHeapNode = size - 0x20 :=
    sub64_eq (Nat.le_of_lt hsize) (by omega)
  refine ⟨⟨rfl, ⟨?_, trivial⟩, ?_, by simp [Coalesced]⟩, hend, hsize, by rfl, fun _ => rfl⟩
  · simp (disch := omega) only [newHeap, newAllocator, hsub, NULL, FREE, read_setSize,
      read_setStatus, read_setNext, read_setPrev]
    rfl
  · simp only [extent, newHeap, newAllocator]
    omega

namespace HeapInv

variable {st st' : HeapState} {bs : List Block}

theorem length_lt (h : HeapInv st bs) {fuel : Nat} (hfuel : st.al.size ≤ fuel) :
    bs.length < fuel := by
  have hlength := length_le_extent (h := 0x20) bs
  have := h.tiled.extent
  have := h.large
  omega

/-- The three outcomes of `alloc`. -/
theorem alloc_cases (h : HeapInv st bs) {fuel n : Nat} (hfuel : st.al.size ≤ fuel)
    (hn : n + 0x40 < 0x10000000000000000) :
    st.al.alloc fuel st.mem n = some (st.mem, NULL) ∨
      ∃ m' o bs', st.al.alloc fuel st.mem n = some (m', st.al.addr + o + 0x20) ∧
        firstFit 0x20 0x20 (max n 0x20) bs = some (o, bs') ∧ 0 < st.al.addr ∧
        Segment m' 0 0 st.al.addr bs' ∧
        ∀ x, ¬Header 0x20 st.al.addr bs' x → m' x = st.mem x := by
  have hmax : (if n < 0x20 then 0x20 else n) = max n 0x20 := by
    split <;> omega
  have hfuel' := h.length_lt hfuel
  have hextent := h.tiled.extent
  have hbound := h.bound
  simp only [Allocator.alloc, hmax, h.tiled.first]
  rcases Nat.eq_zero_or_pos st.al.addr with hzero | hpos
  · obtain ⟨k, rfl⟩ : ∃ k, fuel = k + 1 := ⟨fuel - 1, by omega⟩
    exact Or.inl (by simp [Allocator.allocLoop, hzero])
  · have hentry : enter st.al.addr 0 bs = st.al.addr := by
      cases bs with
      | nil =>
          have := h.large
          simp only [extent] at hextent
          omega
      | cons b rest => rfl
    cases hfit : firstFit 0x20 0x20 (max n 0x20) bs with
    | none =>
        have hloop := Allocator.allocLoop_none h.tiled.segment hpos (by omega) hfuel' hfit
        rw [hentry] at hloop
        exact Or.inl hloop
    | some found =>
        obtain ⟨o, bs'⟩ := found
        obtain ⟨m', hloop, hseg, hframe⟩ := Allocator.allocLoop_some h.tiled.segment hpos
          (by omega) (by omega) hfuel' hfit
        rw [hentry] at hloop
        exact Or.inr ⟨m', o, bs', hloop, rfl, hpos, hseg, hframe⟩

/-- A live pointer is the payload of a used block that is large enough. -/
theorem live_block (h : HeapInv st bs) {g : Nat × Nat} (hg : g ∈ st.live) :
    ∃ pre b post, bs = pre ++ b :: post ∧ b.free = false ∧
      g.1 = st.al.addr + extent 0x20 pre + 0x20 ∧ b.size = max g.2 0x20 := by
  have hmem : granted g ∈ payloads 0x20 st.al.addr bs :=
    h.live.subset (List.mem_map_of_mem hg)
  obtain ⟨pre, b, post, hbs, hb, hgrant⟩ := mem_payloads hmem
  obtain ⟨hptr, hsize⟩ := Prod.mk.inj hgrant
  exact ⟨pre, b, post, hbs, hb, hptr, hsize.symm⟩

theorem alloc_step (h : HeapInv st bs) {fuel n : Nat} (hfuel : st.al.size ≤ fuel)
    (hn : n + 0x40 < 0x10000000000000000)
    (hstep : st.step fuel (.alloc n) = some st') : ∃ bs', HeapInv st' bs' := by
  simp only [HeapState.step] at hstep
  rcases h.alloc_cases hfuel hn with hnull | ⟨m', o, bs', hsome, hfit, hpos, hseg, -⟩
  · rw [hnull] at hstep
    cases hstep
    exact ⟨bs, by simpa using h⟩
  · rw [hsome] at hstep
    cases hstep
    have hne : ¬st.al.addr + o + 0x20 = NULL := by
      simp only [NULL]
      omega
    refine ⟨bs', ⟨h.tiled.first, hseg, ?_, coalesced_firstFit hfit h.tiled.coalesced⟩, h.bound,
      h.large, ?_, fun hzero => absurd hzero (by simp only; omega)⟩
    · rw [extent_firstFit hfit]
      exact h.tiled.extent
    · simp only [if_neg hne, List.map_cons]
      exact (h.live.cons _).trans (payloads_firstFit st.al.addr hfit).symm

/-- Removing the entry of a freed pointer removes its payload. -/
theorem live_erase (h : HeapInv st bs) {pre post : List Block} {b : Block} {g : Nat × Nat}
    (hbs : bs = pre ++ b :: post) (hb : b.free = false) (hg : g ∈ st.live)
    (hptr : g.1 = st.al.addr + extent 0x20 pre + 0x20) :
    ((st.live.eraseP fun e => e.1 == g.1).map granted).Perm
      (payloads 0x20 st.al.addr pre ++
        payloads 0x20 (st.al.addr + extent 0x20 pre + 0x20 + b.size) post) := by
  obtain ⟨e, l₁, l₂, -, he, hlive, herase⟩ :=
    List.exists_of_eraseP (p := fun e => e.1 == g.1) hg (by simp)
  have hperm := h.live
  rw [hlive, hbs, payloads_of_split st.al.addr pre post hb, List.map_append,
    List.map_cons] at hperm
  have heq : granted e = (st.al.addr + extent 0x20 pre + 0x20, b.size) := by
    have hhere : (st.al.addr + extent 0x20 pre + 0x20, b.size) ∈ payloads 0x20 st.al.addr bs := by
      rw [hbs, payloads_of_split st.al.addr pre post hb]
      simp
    have hthere : granted e ∈ payloads 0x20 st.al.addr bs :=
      h.live.subset (List.mem_map_of_mem (by simp [hlive]))
    refine payloads_unique (by omega) hthere hhere ?_
    rw [← hptr]
    exact eq_of_beq he
  rw [heq] at hperm
  rw [herase, List.map_append]
  exact (List.perm_middle.symm.trans (hperm.trans List.perm_middle)).cons_inv

/-- `free` of a live pointer releases its block in the list. -/
theorem free_block (h : HeapInv st bs) {pre post : List Block} {b : Block} {g : Nat × Nat}
    (hbs : bs = pre ++ b :: post) (hb : b.free = false) (hsize : 0 < b.size) (hg : g ∈ st.live)
    (hptr : g.1 = st.al.addr + extent 0x20 pre + 0x20) :
    HeapInv ⟨st.al, st.al.free st.mem g.1, st.live.eraseP fun e => e.1 == g.1⟩
      (release 0x20 pre b.size post) := by
  have hlive := h.live_erase hbs hb hg hptr
  subst hbs
  have hpos : 0 < st.al.addr :=
    Nat.pos_of_ne_zero fun hzero => by simp [h.nowhere hzero] at hg
  obtain ⟨hseg, -⟩ := Allocator.free_segment h.tiled.segment hpos hb hsize
    h.tiled.extent h.bound
  obtain ⟨hpre, hpost⟩ := (coalesced_used_iff hb pre post).mp h.tiled.coalesced
  refine ⟨⟨h.tiled.first, ?_, ?_, coalesced_release _ hpre hpost⟩,
    h.bound, h.large, ?_, fun hzero => absurd hzero (Nat.ne_of_gt hpos)⟩
  · simp only [hptr]
    exact hseg
  · have hextent := h.tiled.extent
    simp only [extent_append, extent] at hextent
    rw [extent_release]
    simp only
    omega
  · rw [payloads_release]
    exact hlive

theorem free_step (h : HeapInv st bs) {fuel p : Nat}
    (hstep : st.step fuel (.free p) = some st') : ∃ bs', HeapInv st' bs' := by
  simp only [HeapState.step] at hstep
  split at hstep
  · rename_i hmem
    cases hstep
    obtain ⟨g, hg, rfl⟩ := List.mem_map.mp hmem
    obtain ⟨pre, b, post, hbs, hb, hptr, hsize⟩ := h.live_block hg
    exact ⟨_, h.free_block hbs hb (by omega) hg hptr⟩
  · cases hstep

/-- What clients may write belongs to no header and to no free block. -/
theorem not_managed (h : HeapInv st bs) {x : Nat} (hx : st.Writable x) :
    ¬Managed 0x20 st.al.addr bs x := by
  rcases hx with hx | ⟨g, hg, hle, hlt⟩
  · intro hm
    have := hm.bounds
    have := h.tiled.extent
    omega
  · obtain ⟨pre, b, post, rfl, hb, hptr, hsize⟩ := h.live_block hg
    exact not_managed_payload hb (by omega) (by omega)

theorem store_step (h : HeapInv st bs) {fuel x : Nat} {v : UInt8}
    (hstep : st.step fuel (.store x v) = some st') : ∃ bs', HeapInv st' bs' := by
  simp only [HeapState.step] at hstep
  split at hstep
  · rename_i hx
    cases hstep
    refine ⟨bs, ⟨h.tiled.first, h.tiled.segment.congr fun y hy => ?_, h.tiled.extent,
      h.tiled.coalesced⟩, h.bound, h.large, h.live, h.nowhere⟩
    have hne : y ≠ x := fun heq => h.not_managed hx (heq ▸ hy)
    simp [Function.update, hne]
  · cases hstep

theorem step (h : HeapInv st bs) {fuel : Nat} {a : HeapAction} (hfuel : st.al.size ≤ fuel)
    (hfits : a.Fits st) (hstep : st.step fuel a = some st') : ∃ bs', HeapInv st' bs' := by
  cases a with
  | alloc n => exact h.alloc_step hfuel hfits.2 hstep
  | free p => exact h.free_step hstep
  | store x v => exact h.store_step hstep

end HeapInv

/-- No step changes the allocator struct. -/
theorem HeapState.step_al {fuel : Nat} {st st' : HeapState} {a : HeapAction}
    (hstep : st.step fuel a = some st') : st'.al = st.al := by
  cases a with
  | alloc n =>
      obtain ⟨r, -, rfl⟩ := Option.map_eq_some_iff.mp hstep
      rfl
  | free p =>
      simp only [HeapState.step] at hstep
      split at hstep <;> cases hstep
      rfl
  | store x v =>
      simp only [HeapState.step] at hstep
      split at hstep <;> cases hstep
      rfl

theorem heapMachine_inv {fuel addr size : Nat} {m : ByteMemory} {run : List HeapAction}
    {st : HeapState} (hsize : 0x20 < size) (hend : addr + size < 0x10000000000000000)
    (hfuel : size ≤ fuel)
    (hfits : (heapMachine fuel).Meets (fun st a => a.Fits st) (newHeap m addr size) run)
    (hrun : (heapMachine fuel).exec (newHeap m addr size) run = some st) :
    st.al = ⟨addr, addr, size⟩ ∧ ∃ bs, HeapInv st bs := by
  refine (heapMachine fuel).exec_invariant
    (I := fun st => st.al = ⟨addr, addr, size⟩ ∧ ∃ bs, HeapInv st bs)
    ?_ ⟨rfl, _, newHeap_inv m hsize hend⟩ hfits hrun
  intro s a s' ⟨hal, bs, hinv⟩ hfit hstep
  exact ⟨(HeapState.step_al hstep).trans hal, hinv.step (by rw [hal]; exact hfuel) hfit hstep⟩

/-- After every run of requests that do not wrap, the nodes tile the heap, and
the next such request comes back. -/
theorem heapMachine_tiled {fuel addr size : Nat} {m : ByteMemory} {run : List HeapAction}
    {st : HeapState} (hsize : 0x20 < size) (hend : addr + size < 0x10000000000000000)
    (hfuel : size ≤ fuel)
    (hfits : (heapMachine fuel).Meets (fun st a => a.Fits st) (newHeap m addr size) run)
    (hrun : (heapMachine fuel).exec (newHeap m addr size) run = some st) :
    st.al.addr = addr ∧ st.al.size = size ∧ (∃ bs, Tiled st.al st.mem bs) ∧
      ∀ n, n ≤ size → n + 0x40 < 0x10000000000000000 →
        (st.al.alloc fuel st.mem n).isSome = true := by
  obtain ⟨hal, bs, hinv⟩ := heapMachine_inv hsize hend hfuel hfits hrun
  refine ⟨by rw [hal], by rw [hal], ⟨bs, hinv.tiled⟩, fun n _ hn => ?_⟩
  have hfuel' : st.al.size ≤ fuel := by
    rw [hal]
    exact hfuel
  rcases hinv.alloc_cases hfuel' hn with h | ⟨m', o, bs', h, -⟩ <;> rw [h] <;> rfl

/-- Two blocks are handed out, the first is written and freed, and a smaller
block is carved out of it. -/
def allocAndFree : List HeapAction :=
  [.alloc 0x100, .alloc 0x80, .store 0x1050 7, .free 0x1020, .alloc 0x30, .free 0x1140]

theorem heapMachine_tiled_allocAndFree : ∃ st,
    (heapMachine 0x1000).exec (newHeap (fun _ => 0xff) 0x1000 0x1000) allocAndFree = some st ∧
      st.live = [(0x1020, 0x30)] ∧ ∃ bs, Tiled st.al st.mem bs := by
  have hrun : ((heapMachine 0x1000).exec (newHeap (fun _ => 0xff) 0x1000 0x1000)
      allocAndFree).map HeapState.live = some [(0x1020, 0x30)] := by decide
  obtain ⟨st, hst, hlive⟩ := Option.map_eq_some_iff.mp hrun
  obtain ⟨-, -, htiled, -⟩ := heapMachine_tiled (by decide) (by decide) (Nat.le_refl 0x1000)
    (by decide) hst
  exact ⟨st, hst, hlive, htiled⟩

/-- In a heap of nearly all addresses, the sums of `alloc` wrap for a request within the
heap's size: the only block gets a size with which it exceeds the heap. -/
theorem wholeMemory_not_tiled : ∃ st,
    (heapMachine 2).exec (newHeap (fun _ => 0) 0x30 0xffffffffffffffcf)
        [.alloc 0xffffffffffffffc0] = some st ∧
      ¬∃ bs, Tiled st.al st.mem bs := by
  have hrun : ((heapMachine 2).exec (newHeap (fun _ => 0) 0x30 0xffffffffffffffcf)
      [.alloc 0xffffffffffffffc0]).map (fun st => (st.al, (read st.mem 0x30).size)) =
        some (⟨0x30, 0x30, 0xffffffffffffffcf⟩, 0xffffffffffffffc0) := by decide
  obtain ⟨st, hst, heq⟩ := Option.map_eq_some_iff.mp hrun
  obtain ⟨hal, hsize⟩ := Prod.mk.inj heq
  refine ⟨st, hst, fun ⟨bs, htiled⟩ => ?_⟩
  have hseg := htiled.segment
  have hextent := htiled.extent
  rw [hal] at hseg hextent
  cases bs with
  | nil => simp [extent] at hextent
  | cons b rest =>
      rw [hseg.1] at hsize
      simp only [extent] at hextent hsize
      omega

end BayosKernel
