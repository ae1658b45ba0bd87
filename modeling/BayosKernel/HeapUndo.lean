import BayosKernel.HeapExhaustion
import BayosKernel.HeapPayloads
import BayosKernel.StringFunctions

/-!
One `alloc` and one `free`, exactly. A block that is freed while the nodes are as
`alloc` left them leaves the nodes as `alloc` found them.
-/

namespace BayosKernel

open Foundation BlockList

/-- What an `alloc` that hands out a block leaves: only headers are written. -/
structure Taken (st st' : HeapState) (n p : Nat) (bs bs' : List Block) : Prop where
  fit : ∃ o, firstFit 0x20 0x20 (max n 0x20) bs = some (o, bs') ∧ p = st.al.addr + o + 0x20
  inv : HeapInv st' bs'
  al : st'.al = st.al
  live : st'.live = (p, n) :: st.live
  frame : ∀ x, ¬Header 0x20 st.al.addr bs' x → st'.mem x = st.mem x

/-- What clients may write keeps its bytes, and they may still write it. -/
def HeapState.Keeps (st st' : HeapState) : Prop :=
  ∀ x, st.Writable x → st'.mem x = st.mem x ∧ st'.Writable x

/-- The nodes, the live blocks and what clients may write are those before. -/
structure Untouched (st st' : HeapState) (bs : List Block) : Prop where
  inv : HeapInv st' bs
  al : st'.al = st.al
  live : st'.live = st.live
  keeps : st.Keeps st'

namespace HeapInv

variable {st st' : HeapState} {bs bs' : List Block} {fuel n p x : Nat} {g g' : Nat × Nat}

/-- `alloc` answers NULL and changes nothing, or hands out the first block that fits. -/
theorem take_taken (h : HeapInv st bs) (hfuel : st.al.size ≤ fuel)
    (hn : n + 0x40 < 0x10000000000000000) (htake : st.take fuel n = some (st', p)) :
    (p = NULL ∧ st' = st) ∨ ∃ bs', Taken st st' n p bs bs' := by
  obtain ⟨⟨m, q⟩, halloc, heq⟩ := Option.map_eq_some_iff.mp htake
  have hstep : st.step fuel (.alloc n) = some st' := by
    simp only [HeapState.step, halloc, Option.map_some]
    exact congrArg some (Prod.mk.inj heq).1
  obtain ⟨rfl, rfl⟩ := Prod.mk.inj heq
  rcases h.alloc_cases hfuel hn with hnull | ⟨m', o, bs', hsome, hfit, hpos, hseg, hframe⟩
  · rw [hnull] at halloc
    cases halloc
    exact Or.inl ⟨rfl, rfl⟩
  · rw [hsome] at halloc
    cases halloc
    have hne : ¬st.al.addr + o + 0x20 = NULL := by
      simp only [NULL]
      omega
    obtain ⟨bs'', hinv'⟩ := h.alloc_step hfuel hn hstep
    simp only [if_neg hne] at hinv' ⊢
    have hextent : extent 0x20 bs'' = extent 0x20 bs' := by
      rw [extent_firstFit hfit, hinv'.tiled.extent, h.tiled.extent]
    rw [hinv'.tiled.segment.unique hseg hextent] at hinv'
    exact Or.inr ⟨bs', ⟨o, hfit, rfl⟩, hinv', rfl, rfl, hframe⟩

/-- `alloc` comes back. -/
theorem take_some (h : HeapInv st bs) (hfuel : st.al.size ≤ fuel)
    (hn : n + 0x40 < 0x10000000000000000) : ∃ st' p, st.take fuel n = some (st', p) := by
  rcases h.alloc_cases hfuel hn with hnull | ⟨m', o, bs', hsome, -⟩
  · exact ⟨_, _, by rw [HeapState.take, hnull, Option.map_some]⟩
  · exact ⟨_, _, by rw [HeapState.take, hsome, Option.map_some]⟩

/-- A heap that does not start at NULL answers NULL only when no block fits. -/
theorem take_firstFit (h : HeapInv st bs) (hpos : 0 < st.al.addr) (hfuel : st.al.size ≤ fuel)
    (hn : n + 0x40 < 0x10000000000000000) (htake : st.take fuel n = some (st', p)) :
    (firstFit 0x20 0x20 (max n 0x20) bs = none ∧ p = NULL ∧ st' = st) ∨
      ∃ bs', Taken st st' n p bs bs' := by
  refine (h.take_taken hfuel hn htake).imp_left ?_
  rintro ⟨rfl, rfl⟩
  refine ⟨firstFit_eq_none_iff.mpr fun b hb haccepts => ?_, rfl, rfl⟩
  obtain ⟨m', p', hblock, hne⟩ := h.alloc_block (n := n) hfuel hpos ⟨b, hb, by
    have hsum : add64 (add64 (max n 0x20) sizeofHeapNode) 0x20 = max n 0x20 + 0x20 + 0x20 := by
      simp (disch := omega) only [add64_eq, sizeofHeapNode]
    rw [Allocator.Accepts, hsum]
    exact haccepts⟩
  rw [HeapState.take, hblock, Option.map_some, Option.some.injEq] at htake
  exact hne (Prod.mk.inj htake).2

/-- Live blocks start at different addresses. -/
theorem live_unique (h : HeapInv st bs) (hg : g ∈ st.live) (hg' : g' ∈ st.live)
    (heq : g.1 = g'.1) : g = g' := by
  by_contra hne
  have hapart := h.liveBlocks.apart_of_ne hg hg' hne
  simp only [granted] at hapart
  omega

theorem live_ne_null (h : HeapInv st bs) (hg : g ∈ st.live) : g.1 ≠ NULL := by
  obtain ⟨pre, b, post, -, -, hptr, -⟩ := h.live_block hg
  simp only [NULL]
  omega

/-- The blocks of two live pointers do not overlap. -/
theorem live_apart (h : HeapInv st bs) (hg : g ∈ st.live) (hg' : g' ∈ st.live)
    (hne : g.1 ≠ g'.1) : g.1 + g.2 ≤ g'.1 ∨ g'.1 + g'.2 ≤ g.1 := by
  have hapart := h.liveBlocks.apart_of_ne hg hg' fun heq => hne (congrArg Prod.fst heq)
  simp only [granted] at hapart
  omega

theorem live_end (h : HeapInv st bs) (hg : g ∈ st.live) : g.1 + g.2 < 0x10000000000000000 := by
  have hinside := h.liveBlocks.inside g hg
  have hbound := h.bound
  simp only [granted] at hinside
  omega

/-- Bytes that clients may write may change. -/
theorem of_clients (h : HeapInv st bs) {m' : ByteMemory}
    (hframe : ∀ x, ¬st.Writable x → m' x = st.mem x) : HeapInv { st with mem := m' } bs :=
  h.of_frame fun x hx => hframe x fun hwritable => h.not_managed hwritable hx

/-- `free` of a live pointer takes its block, and no other, from the live ones. -/
theorem give_live (h : HeapInv st bs) (hg : g ∈ st.live) :
    st.live.Perm (g :: (st.give g.1).live) := by
  obtain ⟨e, l₁, l₂, -, he, hlive, herase⟩ :=
    List.exists_of_eraseP (p := fun e => e.1 == g.1) hg (by simp)
  have hmem : e ∈ st.live := by
    rw [hlive]
    simp
  have heq : e = g := h.live_unique hmem hg (eq_of_beq he)
  rw [HeapState.give, herase, hlive, heq]
  exact List.perm_middle

theorem mem_give (h : HeapInv st bs) (hg : g ∈ st.live) :
    g' ∈ (st.give g.1).live ↔ g' ∈ st.live ∧ g'.1 ≠ g.1 := by
  constructor
  · intro hmem
    have hold : g' ∈ st.live := (h.give_live hg).mem_iff.mpr (List.mem_cons_of_mem _ hmem)
    refine ⟨hold, fun heq => ?_⟩
    -- the block would be live twice
    have hapart := h.liveBlocks.apart
    rw [(h.give_live hg).pairwise_iff fun hor => hor.symm] at hapart
    have hself := (List.pairwise_cons.mp hapart).1 g' hmem
    simp only [granted] at hself
    omega
  · rintro ⟨hold, hne⟩
    exact (List.mem_eraseP_of_neg (by simpa using hne)).mpr hold

/-- `free` writes to no byte that a client may write, the freed block included. -/
theorem give_frame (h : HeapInv st bs) (hg : g ∈ st.live) (hx : st.Writable x) :
    (st.give g.1).mem x = st.mem x := by
  have hmanaged := h.not_managed hx
  obtain ⟨pre, b, post, rfl, hb, hptr, hsize⟩ := h.live_block hg
  have hpos : 0 < st.al.addr :=
    Nat.pos_of_ne_zero fun hzero => by simp [h.nowhere hzero] at hg
  obtain ⟨-, hframe⟩ := Allocator.free_segment h.tiled.segment hpos hb (by omega)
    h.tiled.extent h.bound
  rw [HeapState.give, hptr]
  exact hframe x fun hheader => hmanaged hheader.managed

/-- What clients may write apart from the freed block, they still may. -/
theorem give_writable (h : HeapInv st bs) (hg : g ∈ st.live) (hx : st.Writable x)
    (hout : x < g.1 ∨ g.1 + g.2 ≤ x) : (st.give g.1).Writable x := by
  rcases hx with hx | ⟨g', hg', hle, hlt⟩
  · exact Or.inl hx
  · refine Or.inr ⟨g', (h.mem_give hg).mpr ⟨hg', fun heq => ?_⟩, hle, hlt⟩
    rw [h.live_unique hg' hg heq] at hle hlt
    omega

end HeapInv

namespace Taken

variable {st st' st'' : HeapState} {bs bs' : List Block} {n p x : Nat}

theorem mem (ht : Taken st st' n p bs bs') : (p, n) ∈ st'.live := by
  rw [ht.live]
  exact List.mem_cons_self

theorem ne_null (ht : Taken st st' n p bs bs') : p ≠ NULL := ht.inv.live_ne_null ht.mem

theorem old (ht : Taken st st' n p bs bs') {g : Nat × Nat} (hg : g ∈ st.live) : g ∈ st'.live := by
  rw [ht.live]
  exact List.mem_cons_of_mem _ hg

/-- What clients may write keeps its bytes, and clients may still write it. -/
theorem kept (ht : Taken st st' n p bs bs') (h : HeapInv st bs) (hx : st.Writable x) :
    st'.mem x = st.mem x ∧ st'.Writable x := by
  obtain ⟨o, hfit, -⟩ := ht.fit
  refine ⟨ht.frame x fun hheader => h.not_managed hx (managed_of_firstFit hfit hheader), ?_⟩
  rcases hx with hx | ⟨g, hg, hin⟩
  · rw [← ht.al] at hx
    exact Or.inl hx
  · exact Or.inr ⟨g, ht.old hg, hin⟩

/-- The block that is handed out lies apart from those that were live before. -/
theorem block_apart (ht : Taken st st' n p bs bs') {g : Nat × Nat} (hg : g ∈ st.live) :
    g.1 + g.2 ≤ p ∨ p + n ≤ g.1 := by
  have hpairs := ht.inv.liveBlocks.apart
  rw [ht.live] at hpairs
  have hapart := (List.pairwise_cons.mp hpairs).1 g hg
  simp only [granted] at hapart
  omega

/-- It lies apart from what clients could write before. -/
theorem apart (ht : Taken st st' n p bs bs') (hx : st.Writable x) :
    x < p ∨ p + n ≤ x := by
  rcases hx with hx | ⟨g, hg, hle, hlt⟩
  · have hinside := ht.inv.liveBlocks.inside _ ht.mem
    rw [ht.al] at hinside
    simp only [granted] at hinside
    omega
  · have := ht.block_apart hg
    omega

/-- The bytes of the block are those that lay there. -/
theorem bytes (ht : Taken st st' n p bs bs') (hle : p ≤ x) (hlt : x < p + max n 0x20) :
    st'.mem x = st.mem x := by
  refine ht.frame x fun hheader => ?_
  have hinv := ht.inv
  obtain ⟨pre, b, post, hbs, hb, hptr, hsize⟩ := hinv.live_block ht.mem
  rw [ht.al] at hptr
  simp only at hptr hsize
  rw [hbs] at hheader
  exact not_managed_payload hb (by omega) (by omega) hheader.managed

/-- `free` undoes `alloc` when the nodes are as `alloc` left them. -/
theorem undo (ht : Taken st st' n p bs bs') (h : HeapInv st bs) (h'' : HeapInv st'' bs')
    (hal : st''.al = st.al) (hlive : st''.live = (p, n) :: st.live) :
    HeapInv (st''.give p) bs ∧ (st''.give p).live = st.live := by
  obtain ⟨o, hfit, hptr⟩ := ht.fit
  obtain ⟨pre, post, rfl, rfl, hrelease⟩ := release_firstFit hfit h.tiled.coalesced
  refine ⟨?_, by simp [HeapState.give, hlive]⟩
  have hfreed := h''.free_block (g := (p, n)) rfl rfl (by simp only; omega)
    (by rw [hlive]; exact List.mem_cons_self) (by rw [hal]; exact hptr)
  rw [hrelease] at hfreed
  exact hfreed

end Taken

namespace HeapState.Keeps

variable {st st' st'' : HeapState} {bs bs' : List Block} {n p : Nat}

theorem refl (st : HeapState) : st.Keeps st := fun _ hx => ⟨rfl, hx⟩

theorem trans (h : st.Keeps st') (h' : st'.Keeps st'') : st.Keeps st'' := fun x hx =>
  have hx' := h x hx
  have hx'' := h' x hx'.2
  ⟨hx''.1.trans hx'.1, hx''.2⟩

theorem take (h : st.Keeps st') (hinv : HeapInv st' bs) (ht : Taken st' st'' n p bs bs') :
    st.Keeps st'' :=
  h.trans fun _ hx => ht.kept hinv hx

/-- Writes to a block that is no memory of the clients of `st`. -/
theorem write (h : st.Keeps st') (hout : ∀ x, st.Writable x → x < p ∨ p + n ≤ x)
    {m : ByteMemory} (hframe : ∀ x, x < p ∨ p + n ≤ x → m x = st'.mem x) :
    st.Keeps { st' with mem := m } := fun x hx =>
  ⟨(hframe x (hout x hx)).trans (h x hx).1, (h x hx).2⟩

theorem give (h : st.Keeps st') (hinv : HeapInv st' bs) (hg : (p, n) ∈ st'.live)
    (hout : ∀ x, st.Writable x → x < p ∨ p + n ≤ x) : st.Keeps (st'.give p) := fun x hx =>
  have hx' := h x hx
  ⟨(hinv.give_frame hg hx'.2).trans hx'.1, hinv.give_writable hg hx'.2 (hout x hx)⟩

theorem cstring (h : st.Keeps st') {cs : List UInt8} (hcs : CString (bytesFrom st.mem p) cs)
    (hp : ∀ i ≤ cs.length, st.Writable (p + i)) : CString (bytesFrom st'.mem p) cs :=
  hcs.congr fun i hi => (h _ (hp i hi)).1

end HeapState.Keeps

section Undo

variable {st st' st'' : HeapState} {bs bs' : List Block} {n p : Nat}

theorem Untouched.refl (h : HeapInv st bs) : Untouched st st bs :=
  ⟨h, rfl, rfl, HeapState.Keeps.refl st⟩

theorem Taken.untouched (ht : Taken st st' n p bs bs') (h : HeapInv st bs) (h'' : HeapInv st'' bs')
    (hal : st''.al = st.al) (hlive : st''.live = (p, n) :: st.live) (hkeeps : st.Keeps st'') :
    Untouched st (st''.give p) bs := by
  obtain ⟨hinv, hlive'⟩ := ht.undo h h'' hal hlive
  have hmem : (p, n) ∈ st''.live := by
    rw [hlive]
    exact List.mem_cons_self
  exact ⟨hinv, hal, hlive', hkeeps.give h'' hmem fun x hx => ht.apart hx⟩

end Undo

end BayosKernel
