import BayosKernel.HeapUndo

/-!
A block that is freed twice. The node of a block that went into the block before
it stays behind in the payload, and nothing writes to it any more.
-/

namespace BayosKernel

open Foundation BlockList HeapNode

namespace Allocator

theorem mergePrev_outside (m : ByteMemory) {prev node next x : Nat}
    (hx : x < prev ∨ prev + 0x20 ≤ x) (hx' : next = NULL ∨ x < next ∨ next + 0x20 ≤ x) :
    mergePrev m prev node next x = m x := by
  rw [mergePrev]
  by_cases hnext : next = NULL
  · simp only [hnext, ne_eq, not_true_eq_false, ite_false]
    rw [setNext_outside _ hx, setSize_outside _ hx]
  · simp only [ne_eq, hnext, not_false_eq_true, ite_true]
    rw [setPrev_outside _ (hx'.resolve_left hnext), setNext_outside _ hx, setSize_outside _ hx]

/-- The first join writes to no byte of the freed block. -/
theorem joinPrev_block (m : ByteMemory) {addr s x : Nat} (pre post : List Block)
    (hle : addr + extent 0x20 pre ≤ x) (hlt : x < addr + extent 0x20 pre + 0x20 + s) :
    (joinPrev m (leave 0 addr pre) (addr + extent 0x20 pre)
      (enter (addr + extent 0x20 pre + 0x20 + s) 0 post)).1 x = m x := by
  have hnext := enter_cases (addr + extent 0x20 pre + 0x20 + s) post
  rw [joinPrev]
  split
  · refine mergePrev_outside m (Or.inr ?_) (hnext.imp And.right fun h => Or.inl (by omega))
    rcases List.eq_nil_or_concat pre with rfl | ⟨init, c, hpre⟩
    · exact absurd rfl ‹leave 0 addr [] ≠ NULL ∧ _›.1
    · rw [List.concat_eq_append] at hpre
      subst hpre
      rw [leave_append]
      simp only [extent_append, extent] at hle
      omega
  · rfl

theorem mergeFront_free (s : Nat) (post : List Block) :
    ∃ s' rest, mergeFront 0x20 s post = ⟨s', true⟩ :: rest := by
  cases post with
  | nil => exact ⟨_, _, rfl⟩
  | cons c rest =>
      rw [mergeFront]
      split <;> exact ⟨_, _, rfl⟩

section Free

variable {al : Allocator} {m : ByteMemory} {pre post : List Block} {b : Block}

/-- The node of a block that went into the block before it keeps its mark. -/
theorem free_stale {init : List Block} {c : Block}
    (hseg : Segment m 0 0 al.addr (init ++ [c] ++ b :: post)) (hpos : 0 < al.addr)
    (hb : b.free = false) (hsize : 0 < b.size)
    (hextent : extent 0x20 (init ++ [c] ++ b :: post) = al.size)
    (hend : al.addr + al.size < 0x10000000000000000)
    (hback : mergeBack 0x20 (init ++ [c]) b.size = (init, c.size + 0x20 + b.size)) :
    read (al.free m (al.addr + extent 0x20 (init ++ [c]) + 0x20))
        (al.addr + extent 0x20 (init ++ [c])) =
      read (setStatus m (al.addr + extent 0x20 (init ++ [c])) FREE)
        (al.addr + extent 0x20 (init ++ [c])) := by
  have hmarked := segment_mark hseg
  have hlength : al.addr + extent 0x20 (init ++ [c] ++ ⟨b.size, true⟩ :: post) <
      0x10000000000000000 := by
    simp only [extent_append, extent] at hextent ⊢
    omega
  obtain ⟨m', hjoin, hseg', -⟩ := joinPrev_segment hmarked hpos hlength
  simp only [hback] at hjoin hseg'
  have hplace : al.addr + extent 0x20 (init ++ [c]) + 0x20 + b.size =
      al.addr + extent 0x20 init + 0x20 + (c.size + 0x20 + b.size) := by
    simp only [extent_append, extent]
    omega
  obtain ⟨-, hframe⟩ := joinNext_segment hseg' hpos (by
    simp only [extent_append, extent] at hlength ⊢
    omega)
  refine read_congr fun x hle hlt => ?_
  have hkept := @joinPrev_block (setStatus m (al.addr + extent 0x20 (init ++ [c])) FREE) al.addr
    b.size x (init ++ [c]) post hle (by omega)
  rw [hjoin] at hkept
  rw [free_eq hseg hpos hb hsize hextent hend, hjoin, hplace, hframe x ?_]
  · exact hkept
  · -- the node lies in the payload of the joined block
    simp only [extent_append, extent] at hle hlt
    rw [header_append]
    rintro (hheader | hhere | hheader)
    · have := hheader.managed.bounds
      omega
    · omega
    · have hbound := hheader.managed.bounds
      simp only at hbound
      omega

/-- The node of a freed block says that it is free, in the list or left behind. -/
theorem free_status (hseg : Segment m 0 0 al.addr (pre ++ b :: post)) (hpos : 0 < al.addr)
    (hb : b.free = false) (hsize : 0 < b.size)
    (hextent : extent 0x20 (pre ++ b :: post) = al.size)
    (hend : al.addr + al.size < 0x10000000000000000) :
    (read (al.free m (al.addr + extent 0x20 pre + 0x20)) (al.addr + extent 0x20 pre)).status =
      FREE := by
  rcases mergeBack_cases (h := 0x20) pre b.size with ⟨init, c, rfl, -, hback⟩ | ⟨-, hback⟩
  · rw [free_stale hseg hpos hb hsize hextent hend hback, read_setStatus m (by decide)]
  · obtain ⟨hsegment, -⟩ := free_segment hseg hpos hb hsize hextent hend
    obtain ⟨s', rest, hfront⟩ := mergeFront_free b.size post
    rw [release, hback, hfront] at hsegment
    rw [((segment_append _ 0 0 al.addr pre _).mp hsegment).2.1]
    rfl

end Free

/-- A node that says that it is free is left alone. -/
theorem free_refused {al : Allocator} {m : ByteMemory} {ptr : Nat}
    (h : (read m (sub64 ptr sizeofHeapNode)).status = FREE) : al.free m ptr = m := by
  rw [free]
  split
  · rfl
  split
  · rfl
  · exact if_pos h

end Allocator

section Twice

variable {st : HeapState} {bs : List Block} {g : Nat × Nat}

/-- Freeing a live pointer a second time changes nothing, whatever the first time
joined its block with. -/
theorem free_twice (h : HeapInv st bs) (hg : g ∈ st.live) :
    st.al.free (st.al.free st.mem g.1) g.1 = st.al.free st.mem g.1 ∧
      (st.give g.1).give g.1 = st.give g.1 := by
  obtain ⟨pre, b, post, rfl, hb, hptr, hsize⟩ := h.live_block hg
  have hpos : 0 < st.al.addr :=
    Nat.pos_of_ne_zero fun hzero => by simp [h.nowhere hzero] at hg
  have hstatus := Allocator.free_status h.tiled.segment hpos hb (by omega) h.tiled.extent h.bound
  have hbound := h.bound
  have hextent := h.tiled.extent
  simp only [extent_append, extent] at hextent
  have hnode : sub64 (st.al.addr + extent 0x20 pre + 0x20) sizeofHeapNode =
      st.al.addr + extent 0x20 pre := by
    simp only [sizeofHeapNode]
    rw [sub64_eq (by omega) (by omega)]
    omega
  have hmem : st.al.free (st.al.free st.mem g.1) g.1 = st.al.free st.mem g.1 := by
    rw [hptr]
    exact Allocator.free_refused (by rw [hnode, hstatus])
  have hlive : (st.give g.1).live.eraseP (fun e => e.1 == g.1) = (st.give g.1).live := by
    refine List.eraseP_of_forall_not fun e he => ?_
    simpa using ((h.mem_give hg).mp he).2
  refine ⟨hmem, ?_⟩
  rw [HeapState.give, hlive]
  simp only [HeapState.give, hmem]

end Twice

/-- Of three blocks the outer ones are freed, so that the one between joins on both sides. -/
def freeAround : List HeapAction :=
  [.alloc 0x20, .alloc 0x20, .alloc 0x20, .free 0x1020, .free 0x10a0]

theorem free_twice_freeAround : ∃ st,
    (heapMachine 0x200).exec (newHeap (fun _ => 0xff) 0x1000 0x200) freeAround = some st ∧
      st.al.free (st.al.free st.mem 0x1060) 0x1060 = st.al.free st.mem 0x1060 := by
  have hrun : ((heapMachine 0x200).exec (newHeap (fun _ => 0xff) 0x1000 0x200) freeAround).map
      HeapState.live = some [(0x1060, 0x20)] := by decide +kernel
  obtain ⟨st, hst, hlive⟩ := Option.map_eq_some_iff.mp hrun
  obtain ⟨-, bs, hinv⟩ := heapMachine_inv (by decide) (by decide) (Nat.le_refl 0x200)
    (by decide +kernel) hst
  exact ⟨st, hst, (@free_twice st bs (0x1060, 0x20) hinv (by simp [hlive])).1⟩

end BayosKernel
