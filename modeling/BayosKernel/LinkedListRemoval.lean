import BayosKernel.HeapUndo
import BayosKernel.LinkedListInsertion

/-!
The removals of `ll.c`. `ll_remove` unlinks and frees the node at an index; the loop
of `ll_remove_pointer` looks at the first node at every turn.
-/

namespace BayosKernel

open Foundation BlockList LlNode Ll

/-- The walk along `node->next` to the node at an index, which is then read. -/
def llNodeFrom (m : ByteMemory) : Nat → Nat → Option Nat
  | 0, node => if node = NULL then none else some node
  | i + 1, node => if node = NULL then none else llNodeFrom m i (next m node)

/-- The link forward from a node, or from the list where there is no node before. -/
def linkNext (m : ByteMemory) (ll node v : Nat) : ByteMemory :=
  if node ≠ NULL then LlNode.setNext m node v else setFirst m ll v

def linkPrev (m : ByteMemory) (ll node v : Nat) : ByteMemory :=
  if node ≠ NULL then LlNode.setPrev m node v else setLast m ll v

/-- What both removals write before they free the node. -/
def unlinkNode (m : ByteMemory) (ll node : Nat) : ByteMemory :=
  let m := linkNext m ll (prev m node) (next m node)
  let m := linkPrev m ll (next m node) (prev m node)
  Ll.setSize m ll (sub64 (Ll.size m ll) 1)

def removeNode (heap : HeapState) (ll node : Nat) : HeapState :=
  { heap with mem := unlinkNode heap.mem ll node }.give node

def llRemove (heap : HeapState) (ll index : Nat) : Option HeapState :=
  if ll = NULL ∨ index ≥ llSize heap.mem ll then some heap
  else (llNodeFrom heap.mem index (first heap.mem ll)).map (removeNode heap ll)

/-- The loop of `ll_remove_pointer`, with `left` turns to go; `node` stays the same. -/
def removePointerLoop (m : ByteMemory) (node c : Nat) : Nat → Option Bool
  | 0 => some false
  | left + 1 =>
      if node = NULL then none
      else if content m node = c then some true
      else removePointerLoop m node c left

def llRemovePointer (heap : HeapState) (ll c : Nat) : Option HeapState :=
  if ll = NULL then some heap
  else
    (removePointerLoop heap.mem (first heap.mem ll) c (llSize heap.mem ll)).map fun found =>
      if found then removeNode heap ll (first heap.mem ll) else heap

/-- The nodes of a doubly linked list, from front to back. -/
structure WellLinked (m : ByteMemory) (ll : Nat) (nodes : List Nat) : Prop where
  size : Ll.size m ll = nodes.length
  forward : Chain (next m) NULL (first m ll) nodes
  backward : Chain (prev m) NULL (last m ll) nodes.reverse

/-- A doubly linked list in a heap: its nodes are live blocks, and the `ll_t` lies in memory
of the clients, in a block or outside the heap. -/
structure ListIn (heap : HeapState) (ll : Nat) (nodes contents : List Nat) : Prop where
  ne_null : ll ≠ NULL
  linked : WellLinked heap.mem ll nodes
  contents : nodes.map (content heap.mem) = contents
  owned : ∀ p ∈ nodes, (p, sizeofLlNode) ∈ heap.live
  header : ∀ x, ll ≤ x → x < ll + sizeofLl → heap.Writable x
  apart : ∀ p ∈ nodes, p + sizeofLlNode ≤ ll ∨ ll + sizeofLl ≤ p

/-- The node at the index, and no other, was unlinked and freed. -/
structure NodeRemoved (heap heap' : HeapState) (ll index : Nat) (nodes contents : List Nat) :
    Prop where
  valid : ∃ bs, HeapInv heap' bs
  list : ListIn heap' ll (nodes.eraseIdx index) (contents.eraseIdx index)
  freed : ∃ node, nodes[index]? = some node ∧
    heap.live.Perm ((node, sizeofLlNode) :: heap'.live)
  others : ∀ x, heap.Writable x → (x < ll ∨ ll + sizeofLl ≤ x) →
    (∀ p ∈ nodes, x < p ∨ p + sizeofLlNode ≤ x) → heap'.mem x = heap.mem x

/-- All fields of a list as functions of those before. -/
structure Relinked (m m' : ByteMemory) (ll : Nat) (nodes : List Nat) (first' last' size' : Nat)
    (next' prev' : Nat → Nat) : Prop where
  first : first m' ll = first'
  last : last m' ll = last'
  size : Ll.size m' ll = size'
  content : ∀ p ∈ nodes, content m' p = content m p
  next : ∀ p ∈ nodes, next m' p = next' p
  prev : ∀ p ∈ nodes, prev m' p = prev' p
  frame : ∀ x, (x < ll ∨ ll + 24 ≤ x) → (∀ p ∈ nodes, x < p ∨ p + 24 ≤ x) → m' x = m x

section Unlink

variable {m m' : ByteMemory} {ll node v : Nat} {nodes : List Nat}

/-- A store to one word of the `ll_t`, or to a link of a node. -/
theorem store_fields (hspread : ByteMemory.Spread 3 (ll :: nodes)) (hll : ll ∉ nodes) {q j : Nat}
    (hq : q ∈ ll :: nodes) (hj : j < 3) (hlink : q = ll ∨ j ≠ 0) (hv : v < 0x10000000000000000) :
    Relinked m (m.store 8 (q + 8 * j) v) ll nodes
      (if ll = q ∧ 0 = j then v else first m ll) (if ll = q ∧ 1 = j then v else last m ll)
      (if ll = q ∧ 2 = j then v else Ll.size m ll)
      (fun p => if p = q ∧ 1 = j then v else next m p)
      (fun p => if p = q ∧ 2 = j then v else prev m p) := by
  have hmem : ∀ p ∈ nodes, p ∈ ll :: nodes := fun p hp => List.mem_cons_of_mem _ hp
  have hhead : ll ∈ ll :: nodes := List.mem_cons_self
  have hword : ∀ p ∈ ll :: nodes, ∀ i < 3, (m.store 8 (q + 8 * j) v).load 8 (p + 8 * i) =
      if p = q ∧ i = j then v else m.load 8 (p + 8 * i) :=
    fun p hp i hi => ByteMemory.load_store_field m hspread hp hq hi hj hv
  have hword₀ : ∀ p ∈ ll :: nodes, (m.store 8 (q + 8 * j) v).load 8 p =
      if p = q ∧ 0 = j then v else m.load 8 p := fun p hp => by
    simpa only [Nat.mul_zero, Nat.add_zero] using hword p hp 0 (by decide)
  refine ⟨hword₀ ll hhead, hword ll hhead 1 (by decide), hword ll hhead 2 (by decide),
    fun p hp => ?_, fun p hp => hword p (hmem p hp) 1 (by decide),
    fun p hp => hword p (hmem p hp) 2 (by decide), fun x hx hout => ?_⟩
  · have hcontent : ¬(p = q ∧ 0 = j) := fun hand =>
      hlink.elim (fun heq => hll (heq ▸ hand.1 ▸ hp)) fun hne => hne hand.2.symm
    exact (hword₀ p (hmem p hp)).trans (if_neg hcontent)
  · rcases List.mem_cons.mp hq with rfl | hnode
    · exact ByteMemory.store_outside m (by omega)
    · have := hout q hnode
      exact ByteMemory.store_outside m (by omega)

theorem linkNext_fields (hspread : ByteMemory.Spread 3 (ll :: nodes)) (hll : ll ∉ nodes)
    (hnull : NULL ∉ nodes) (hnode : node = NULL ∨ node ∈ nodes) (hv : v < 0x10000000000000000) :
    Relinked m (linkNext m ll node v) ll nodes (if node = NULL then v else first m ll) (last m ll)
      (Ll.size m ll) (Function.update (next m) node v) (prev m) := by
  by_cases hzero : node = NULL
  · have h := @store_fields m ll v nodes hspread hll ll 0 (by simp) (by decide) (by simp) hv
    rw [linkNext, if_neg (not_not.mpr hzero), if_pos hzero]
    simp only [Nat.reduceMul, Nat.add_zero, and_true, if_true, Nat.reduceEqDiff, and_false,
      if_false] at h
    refine ⟨h.first, h.last, h.size, h.content, fun p hp => (h.next p hp).trans ?_, h.prev, h.frame⟩
    have hne : p ≠ node := fun heq => hnull (hzero ▸ heq ▸ hp)
    rw [Function.update_of_ne hne]
  · have hmem := hnode.resolve_left hzero
    have hne : ll ≠ node := fun heq => hll (heq ▸ hmem)
    have h := @store_fields m ll v nodes hspread hll node 1 (List.mem_cons_of_mem _ hmem)
      (by decide) (by simp) hv
    rw [linkNext, if_pos hzero, if_neg hzero]
    simp only [Nat.reduceMul, hne, and_true, if_false, Nat.reduceEqDiff, and_false] at h
    exact ⟨h.first, h.last, h.size, h.content,
      fun p hp => (h.next p hp).trans (Function.update_apply ..).symm, h.prev, h.frame⟩

theorem linkPrev_fields (hspread : ByteMemory.Spread 3 (ll :: nodes)) (hll : ll ∉ nodes)
    (hnull : NULL ∉ nodes) (hnode : node = NULL ∨ node ∈ nodes) (hv : v < 0x10000000000000000) :
    Relinked m (linkPrev m ll node v) ll nodes (first m ll) (if node = NULL then v else last m ll)
      (Ll.size m ll) (next m) (Function.update (prev m) node v) := by
  by_cases hzero : node = NULL
  · have h := @store_fields m ll v nodes hspread hll ll 1 (by simp) (by decide) (by simp) hv
    rw [linkPrev, if_neg (not_not.mpr hzero), if_pos hzero]
    simp only [Nat.reduceMul, and_true, if_true, Nat.reduceEqDiff, and_false, if_false] at h
    refine ⟨h.first, h.last, h.size, h.content, fun p hp => (h.next p hp).trans ?_,
      fun p hp => (h.prev p hp).trans ?_, h.frame⟩
    · have hne : p ≠ ll := fun heq => hll (heq ▸ hp)
      rw [if_neg hne]
    · have hne : p ≠ node := fun heq => hnull (hzero ▸ heq ▸ hp)
      rw [Function.update_of_ne hne]
  · have hmem := hnode.resolve_left hzero
    have hne : ll ≠ node := fun heq => hll (heq ▸ hmem)
    have h := @store_fields m ll v nodes hspread hll node 2 (List.mem_cons_of_mem _ hmem)
      (by decide) (by simp) hv
    rw [linkPrev, if_pos hzero, if_neg hzero]
    simp only [Nat.reduceMul, hne, and_true, if_false, Nat.reduceEqDiff, and_false] at h
    exact ⟨h.first, h.last, h.size, h.content, h.next,
      fun p hp => (h.prev p hp).trans (Function.update_apply ..).symm, h.frame⟩

theorem setSize_fields (hspread : ByteMemory.Spread 3 (ll :: nodes)) (hll : ll ∉ nodes)
    (hv : v < 0x10000000000000000) :
    Relinked m (Ll.setSize m ll v) ll nodes (first m ll) (last m ll) v (next m) (prev m) := by
  have h := @store_fields m ll v nodes hspread hll ll 2 (by simp) (by decide) (by simp) hv
  simp only [Nat.reduceMul, and_true, if_true, Nat.reduceEqDiff, and_false, if_false] at h
  refine ⟨h.first, h.last, h.size, h.content, h.next, fun p hp => (h.prev p hp).trans ?_, h.frame⟩
  have hne : p ≠ ll := fun heq => hll (heq ▸ hp)
  rw [if_neg hne]

/-- The fields after a removal, in the terms of those before. -/
theorem unlinkNode_fields (hspread : ByteMemory.Spread 3 (ll :: nodes)) (hll : ll ∉ nodes)
    (hnull : NULL ∉ nodes) (hnode : node ∈ nodes)
    (hprev : prev m node = NULL ∨ prev m node ∈ nodes)
    (hnext : next m node = NULL ∨ next m node ∈ nodes) (hself : prev m node ≠ node) :
    Relinked m (unlinkNode m ll node) ll nodes
      (if prev m node = NULL then next m node else first m ll)
      (if next m node = NULL then prev m node else last m ll) (sub64 (Ll.size m ll) 1)
      (Function.update (next m) (prev m node) (next m node))
      (Function.update (prev m) (next m node) (prev m node)) := by
  have hlt : ∀ {p o : Nat}, m.load 8 (p + o) < 0x10000000000000000 :=
    fun {p o} => ByteMemory.load_lt m 8 (p + o)
  have h₁ := @linkNext_fields m ll (prev m node) (next m node) nodes hspread hll hnull hprev hlt
  obtain ⟨m₁, hm₁⟩ : ∃ m₁, linkNext m ll (prev m node) (next m node) = m₁ := ⟨_, rfl⟩
  rw [hm₁] at h₁
  -- the node's own links are still those before
  have hnext₁ : next m₁ node = next m node := by
    rw [h₁.next node hnode, Function.update_of_ne hself.symm]
  have hprev₁ : prev m₁ node = prev m node := h₁.prev node hnode
  have h₂ := @linkPrev_fields m₁ ll (next m node) (prev m node) nodes hspread hll hnull hnext hlt
  obtain ⟨m₂, hm₂⟩ : ∃ m₂, linkPrev m₁ ll (next m node) (prev m node) = m₂ := ⟨_, rfl⟩
  rw [hm₂] at h₂
  have hsize : sub64 (Ll.size m₂ ll) 1 = sub64 (Ll.size m ll) 1 := by rw [h₂.size, h₁.size]
  have h₃ := @setSize_fields m₂ ll (sub64 (Ll.size m ll) 1) nodes hspread hll
    (Nat.mod_lt _ (by decide))
  have hmem : unlinkNode m ll node = Ll.setSize m₂ ll (sub64 (Ll.size m ll) 1) := by
    simp only [unlinkNode, hm₁, hnext₁, hprev₁, hm₂, hsize]
  rw [hmem]
  constructor
  · rw [h₃.first, h₂.first, h₁.first]
  · rw [h₃.last, h₂.last, h₁.last]
  · exact h₃.size
  · intro p hp
    rw [h₃.content p hp, h₂.content p hp, h₁.content p hp]
  · intro p hp
    rw [h₃.next p hp, h₂.next p hp, h₁.next p hp]
  · intro p hp
    rw [h₃.prev p hp, h₂.prev p hp, Function.update_apply, Function.update_apply, h₁.prev p hp]
  · intro x hx hout
    rw [h₃.frame x hx hout, h₂.frame x hx hout, h₁.frame x hx hout]

/-- Without the node the list is linked again. -/
theorem WellLinked.unlink {xs ys : List Nat} (h : WellLinked m ll (xs ++ node :: ys))
    (hspread : ByteMemory.Spread 3 (ll :: (xs ++ node :: ys))) (hll : ll ∉ xs ++ node :: ys) :
    WellLinked (unlinkNode m ll node) ll (xs ++ ys) ∧
      (∀ p ∈ xs ++ node :: ys, content (unlinkNode m ll node) p = content m p) ∧
      ∀ x, (x < ll ∨ ll + 24 ≤ x) → (∀ p ∈ xs ++ node :: ys, x < p ∨ p + 24 ≤ x) →
        unlinkNode m ll node x = m x := by
  have hnull : NULL ∉ xs ++ node :: ys := fun hmem => h.forward.ne_null hmem rfl
  have hback := h.backward
  rw [List.reverse_append, List.reverse_cons, List.append_assoc, List.singleton_append] at hback
  have hnext := h.forward.next_head
  have hprev := hback.next_head
  rw [List.head?_reverse] at hprev
  rw [← List.getLast?_reverse] at hnext
  have hprev' : prev m node = NULL ∨ prev m node ∈ xs ++ node :: ys :=
    or_iff_not_imp_left.mpr fun hne => List.mem_reverse.mp (h.backward.next_mem (by simp) hne)
  have hnext' : next m node = NULL ∨ next m node ∈ xs ++ node :: ys :=
    or_iff_not_imp_left.mpr fun hne => h.forward.next_mem (by simp) hne
  have hf := unlinkNode_fields hspread hll hnull (by simp) hprev' hnext' hback.next_ne
  have hrest : ∀ p ∈ xs ++ ys, p ∈ xs ++ node :: ys := by
    intro p hp
    rcases List.mem_append.mp hp with hp | hp <;> simp [hp]
  refine ⟨⟨?_, ?_, ?_⟩, hf.content, hf.frame⟩
  · have hbound : Ll.size m ll < 0x10000000000000000 := ByteMemory.load_lt m 8 (ll + 16)
    have hsize := h.size
    rw [List.length_append, List.length_cons] at hsize
    rw [hf.size, sub64_eq (by omega) hbound, List.length_append]
    omega
  · exact h.forward.remove hprev hf.first fun p hp => hf.next p (hrest p hp)
  · rw [List.reverse_append]
    refine hback.remove hnext hf.last fun p hp => hf.prev p (hrest p ?_)
    rw [← List.reverse_append, List.mem_reverse] at hp
    exact hp

theorem WellLinked.congr (h : WellLinked m ll nodes)
    (hsame : ∀ p ∈ ll :: nodes, ∀ x, p ≤ x → x < p + 24 → m' x = m x) :
    WellLinked m' ll nodes := by
  obtain ⟨hfirst, hlast, hsize⟩ := Ll.congr (hsame ll (by simp))
  have hnode : ∀ p ∈ nodes, content m' p = content m p ∧ next m' p = next m p ∧
      prev m' p = prev m p := fun p hp => LlNode.congr (hsame p (by simp [hp]))
  refine ⟨hsize.trans h.size, ?_, ?_⟩
  · rw [hfirst]
    exact h.forward.congr fun p hp => (hnode p hp).2.1
  · rw [hlast]
    exact h.backward.congr fun p hp => (hnode p (List.mem_reverse.mp hp)).2.2

end Unlink

namespace ListIn

variable {heap : HeapState} {bs : List Block} {ll index node : Nat} {nodes contents : List Nat}

theorem llSize (h : ListIn heap ll nodes contents) :
    BayosKernel.llSize heap.mem ll = nodes.length := by
  rw [BayosKernel.llSize, if_neg h.ne_null, h.linked.size]

theorem notMem (h : ListIn heap ll nodes contents) : ll ∉ nodes := fun hmem => by
  have := h.apart ll hmem
  simp only [sizeofLlNode, sizeofLl] at this
  omega

theorem spread (h : ListIn heap ll nodes contents) (hinv : HeapInv heap bs) :
    ByteMemory.Spread 3 (ll :: nodes) := by
  have hhead : ∀ p ∈ nodes, p + 24 ≤ ll ∨ ll + 24 ≤ p := h.apart
  intro p hp q hq hne
  rcases List.mem_cons.mp hp with hpl | hpn <;> rcases List.mem_cons.mp hq with hql | hqn
  · exact absurd (hpl.trans hql.symm) hne
  · rw [hpl]
    exact (hhead q hqn).symm
  · rw [hql]
    exact hhead p hpn
  · exact hinv.live_apart (h.owned p hpn) (h.owned q hqn) hne

/-- The list lies in memory of the clients. -/
theorem writable (h : ListIn heap ll nodes contents) {p x : Nat} (hp : p ∈ ll :: nodes)
    (hle : p ≤ x) (hlt : x < p + 24) : heap.Writable x := by
  rcases List.mem_cons.mp hp with rfl | hp
  · exact h.header x hle hlt
  · exact Or.inr ⟨_, h.owned p hp, hle, hlt⟩

/-- Only fields of the list are written when a node is unlinked. -/
theorem unlink_inv {xs ys : List Nat} (h : ListIn heap ll (xs ++ node :: ys) contents)
    (hinv : HeapInv heap bs) : HeapInv { heap with mem := unlinkNode heap.mem ll node } bs := by
  obtain ⟨-, -, hframe⟩ := h.linked.unlink (h.spread hinv) h.notMem
  refine hinv.of_clients fun x hx => hframe x ?_ fun p hp => ?_
  · by_contra hin
    exact hx (h.writable List.mem_cons_self (by omega) (by omega))
  · by_contra hin
    exact hx (h.writable (List.mem_cons_of_mem _ hp) (by omega) (by omega))

/-- What the removals do with a node of the list. -/
theorem removeNode (h : ListIn heap ll nodes contents) (hinv : HeapInv heap bs)
    (hnode : nodes[index]? = some node) :
    NodeRemoved heap (removeNode heap ll node) ll index nodes contents := by
  obtain ⟨xs, ys, rfl, rfl⟩ : ∃ xs ys, nodes = xs ++ node :: ys ∧ index = xs.length := by
    obtain ⟨hi, rfl⟩ := List.getElem?_eq_some_iff.mp hnode
    refine ⟨nodes.take index, nodes.drop (index + 1), ?_, ?_⟩
    · rw [List.getElem_cons_drop, List.take_append_drop]
    · rw [List.length_take]
      omega
  obtain ⟨hlinked, hcontent, hframe⟩ := h.linked.unlink (h.spread hinv) h.notMem
  have hmem : node ∈ xs ++ node :: ys := by simp
  have hlive := h.owned node hmem
  have hnodup := h.linked.forward.nodup
  -- the node is unlinked and freed
  have h₁ := h.unlink_inv hinv
  have hkept : ∀ x, heap.Writable x →
      (BayosKernel.removeNode heap ll node).mem x = unlinkNode heap.mem ll node x :=
    fun x hx => h₁.give_frame hlive hx
  have hrest : ∀ p ∈ xs ++ ys, p ∈ xs ++ node :: ys ∧ p ≠ node := by
    intro p hp
    have hne := (List.nodup_middle.mp hnodup)
    refine ⟨?_, fun heq => (List.nodup_cons.mp hne).1 (heq ▸ hp)⟩
    rcases List.mem_append.mp hp with hp | hp <;> simp [hp]
  refine ⟨(h₁.give_block hlive).1, ?_, ⟨node, hnode, h₁.give_live hlive⟩, ?_⟩
  · have hfields : ∀ p ∈ ll :: (xs ++ ys), ∀ x, p ≤ x → x < p + 24 →
        (BayosKernel.removeNode heap ll node).mem x = unlinkNode heap.mem ll node x := by
      intro p hp x hle hlt
      refine hkept x (h.writable (p := p) ?_ hle hlt)
      rcases List.mem_cons.mp hp with rfl | hp
      · exact List.mem_cons_self
      · exact List.mem_cons_of_mem _ (hrest p hp).1
    have herase : (xs ++ node :: ys).eraseIdx xs.length = xs ++ ys := by
      rw [List.eraseIdx_append_of_length_le (Nat.le_refl _), Nat.sub_self, List.eraseIdx_cons_zero]
    rw [herase]
    refine ⟨h.ne_null, hlinked.congr hfields, ?_, fun p hp => ?_, fun x hle hlt => ?_, fun p hp =>
      h.apart p (hrest p hp).1⟩
    · have hvalues : (xs ++ ys).map (content (BayosKernel.removeNode heap ll node).mem) =
          (xs ++ ys).map (content heap.mem) :=
        List.map_congr_left fun p hp => by
          rw [(LlNode.congr (hfields p (by simp [hp]))).1, hcontent p (hrest p hp).1]
      rw [hvalues, ← h.contents, List.map_append, List.map_append, List.map_cons,
        List.eraseIdx_append_of_length_le (by simp)]
      simp
    · exact (h₁.mem_give hlive).mpr ⟨h.owned p (hrest p hp).1, (hrest p hp).2⟩
    · have hapart := h.apart node hmem
      simp only [sizeofLlNode, sizeofLl] at hapart hlt
      exact h₁.give_writable hlive (h.header x hle hlt) (by simp only [sizeofLlNode]; omega)
  · intro x hx hll hnodes
    rw [hkept x hx, hframe x hll hnodes]

end ListIn

theorem llNodeFrom_chain {m : ByteMemory} {a node i : Nat} {nodes : List Nat}
    (h : Chain (next m) NULL a nodes) (hnode : nodes[i]? = some node) :
    llNodeFrom m i a = some node := by
  induction nodes generalizing a i with
  | nil => cases hnode
  | cons x rest ih =>
      obtain ⟨rfl, hne, hrest⟩ := h
      cases i with
      | zero =>
          cases hnode
          rw [llNodeFrom, if_neg hne]
      | succ i =>
          rw [llNodeFrom, if_neg hne]
          exact ih hrest hnode

theorem removePointerLoop_eq {m : ByteMemory} {node c left : Nat} (hnode : node ≠ NULL)
    (hleft : 0 < left) : removePointerLoop m node c left = some (decide (content m node = c)) := by
  induction left with
  | zero => omega
  | succ left ih =>
      rw [removePointerLoop, if_neg hnode]
      by_cases hc : content m node = c
      · rw [if_pos hc, decide_eq_true hc]
      · rw [if_neg hc]
        rcases Nat.eq_zero_or_pos left with rfl | hpos
        · rw [removePointerLoop, decide_eq_false hc]
        · exact ih hpos

section Removals

variable {heap : HeapState} {bs : List Block} {ll : Nat} {nodes contents : List Nat}

/-- `ll_remove` removes the node at the index, and nothing where there is none. -/
theorem llRemove_removed (hheap : HeapInv heap bs) (hlist : ListIn heap ll nodes contents)
    (index : Nat) : ∃ heap', llRemove heap ll index = some heap' ∧
      (index < nodes.length → NodeRemoved heap heap' ll index nodes contents) ∧
      (nodes.length ≤ index → heap' = heap) := by
  rw [llRemove, hlist.llSize]
  by_cases hindex : index < nodes.length
  · rw [if_neg (not_or.mpr ⟨hlist.ne_null, Nat.not_le_of_lt hindex⟩)]
    have hnode : nodes[index]? = some nodes[index] := List.getElem?_eq_getElem hindex
    rw [llNodeFrom_chain hlist.linked.forward hnode]
    exact ⟨_, rfl, fun _ => hlist.removeNode hheap hnode, fun hle => absurd hindex (by omega)⟩
  · rw [if_pos (Or.inr (Nat.le_of_not_lt hindex))]
    exact ⟨heap, rfl, fun hlt => absurd hlt hindex, fun _ => rfl⟩

/-- `ll_remove_pointer` tests the first node only. -/
theorem llRemovePointer_eq (hlist : ListIn heap ll nodes contents) (c : Nat) :
    llRemovePointer heap ll c = some (if contents.head? = some c then
      removeNode heap ll (first heap.mem ll) else heap) := by
  rw [llRemovePointer, if_neg hlist.ne_null, hlist.llSize, ← hlist.contents]
  cases nodes with
  | nil => rfl
  | cons node rest =>
      obtain ⟨hfirst, hne, -⟩ := hlist.linked.forward
      rw [hfirst, removePointerLoop_eq hne (by simp)]
      simp

/-- The first node with the content, and no other, was unlinked and freed; without such a
node nothing changed. -/
def RemovesFirst (heap heap' : HeapState) (ll c : Nat) (nodes contents : List Nat) : Prop :=
  (c ∈ contents → NodeRemoved heap heap' ll (contents.idxOf c) nodes contents) ∧
    (c ∉ contents → heap' = heap)

theorem not_removesFirst_self {c : Nat} (hc : c ∈ contents) :
    ¬RemovesFirst heap heap ll c nodes contents := by
  intro hremoves
  obtain ⟨node, -, hperm⟩ := (hremoves.1 hc).freed
  have hlength := hperm.length_eq
  simp at hlength

/-- `ll_remove_pointer` comes back, and does what it should just when the content is that of
the first node or of none. -/
theorem llRemovePointer_removesFirst_iff (hheap : HeapInv heap bs)
    (hlist : ListIn heap ll nodes contents) (c : Nat) :
    ∃ heap', llRemovePointer heap ll c = some heap' ∧
      (RemovesFirst heap heap' ll c nodes contents ↔ contents.head? = some c ∨ c ∉ contents) := by
  refine ⟨_, llRemovePointer_eq hlist c, ?_⟩
  by_cases hhead : contents.head? = some c
  · rw [if_pos hhead]
    refine iff_of_true ⟨fun _ => ?_, fun hnot => absurd (List.mem_of_mem_head? hhead) hnot⟩
      (Or.inl hhead)
    have hmap := hlist.contents
    cases hnodes : nodes with
    | nil =>
        rw [hnodes] at hmap
        rw [← hmap] at hhead
        cases hhead
    | cons node rest =>
        have hforward := hlist.linked.forward
        rw [hnodes] at hforward
        have hzero : contents.idxOf c = 0 := by
          obtain ⟨cs, rfl⟩ : ∃ cs, contents = c :: cs := by
            cases contents with
            | nil => cases hhead
            | cons d cs => exact ⟨cs, by rw [Option.some.inj hhead]⟩
          exact List.idxOf_cons_self
        rw [hzero, hforward.1, ← hnodes]
        exact hlist.removeNode hheap (by rw [hnodes]; rfl)
  · rw [if_neg hhead]
    by_cases hmem : c ∈ contents
    · exact iff_of_false (not_removesFirst_self hmem) (by tauto)
    · exact iff_of_true ⟨fun h => absurd h hmem, fun _ => rfl⟩ (Or.inr hmem)

end Removals

/-- An `ll_t` at 0x1020 with two nodes, which hold 0x500 and 0x600. -/
def twoNodes : Option HeapState :=
  (heapMachine 0x1000).exec (newHeap (fun _ => 0) 0x1000 0x1000)
    ([.alloc sizeofLl, .alloc sizeofLlNode, .alloc sizeofLlNode] ++
      ([(0x1020, 0x60), (0x1021, 0x10), (0x1028, 0xa0), (0x1029, 0x10), (0x1030, 2), (0x1061, 5),
        (0x1068, 0xa0), (0x1069, 0x10), (0x10a1, 6), (0x10b0, 0x60), (0x10b1, 0x10)].map
        fun byte : Nat × UInt8 => .store byte.1 byte.2))

theorem twoNodes_list {heap : HeapState} (hheap : twoNodes = some heap) :
    (∃ bs, HeapInv heap bs) ∧ ListIn heap 0x1020 [0x1060, 0x10a0] [0x500, 0x600] := by
  have hfields : twoNodes.map (fun heap => (heap.live,
      (first heap.mem 0x1020, last heap.mem 0x1020, Ll.size heap.mem 0x1020),
      ([0x1060, 0x10a0].map fun p => (content heap.mem p, next heap.mem p, prev heap.mem p)))) =
    some ([(0x10a0, 24), (0x1060, 24), (0x1020, 24)], (0x1060, 0x10a0, 2),
      [(0x500, 0x10a0, 0), (0x600, 0, 0x1060)]) := by decide +kernel
  rw [hheap, Option.map_some, Option.some.injEq] at hfields
  simp only [Prod.mk.injEq, List.map_cons, List.map_nil, List.cons.injEq, and_true] at hfields
  obtain ⟨hlive, ⟨hfirst, hlast, hsize⟩, ⟨hc₁, hn₁, hp₁⟩, hc₂, hn₂, hp₂⟩ := hfields
  obtain ⟨-, hinv⟩ := heapMachine_inv (by decide) (by decide) (Nat.le_refl 0x1000)
    (by decide +kernel) hheap
  refine ⟨hinv, by decide, ⟨hsize, ?_, ?_⟩, ?_, ?_,
    fun x hle hlt => Or.inr ⟨(0x1020, 24), ?_, hle, hlt⟩, by decide⟩
  · exact ⟨hfirst, by decide, hn₁, by decide, hn₂⟩
  · exact ⟨hlast, by decide, hp₂, by decide, hp₁⟩
  · simp only [List.map_cons, List.map_nil, hc₁, hc₂]
  · simp [hlive]
  · simp [hlive]

theorem llRemove_removed_second : ∃ heap heap', twoNodes = some heap ∧
    llRemove heap 0x1020 1 = some heap' ∧
      NodeRemoved heap heap' 0x1020 1 [0x1060, 0x10a0] [0x500, 0x600] := by
  have hsome : twoNodes.isSome := by decide +kernel
  obtain ⟨heap, hheap⟩ := Option.isSome_iff_exists.mp hsome
  obtain ⟨⟨bs, hinv⟩, hlist⟩ := twoNodes_list hheap
  obtain ⟨heap', hremove, hremoved, -⟩ := llRemove_removed hinv hlist 1
  exact ⟨heap, heap', hheap, hremove, hremoved (by decide)⟩

theorem llRemovePointer_removesFirst_iff_head : ∃ heap heap', twoNodes = some heap ∧
    llRemovePointer heap 0x1020 0x500 = some heap' ∧
      RemovesFirst heap heap' 0x1020 0x500 [0x1060, 0x10a0] [0x500, 0x600] := by
  have hsome : twoNodes.isSome := by decide +kernel
  obtain ⟨heap, hheap⟩ := Option.isSome_iff_exists.mp hsome
  obtain ⟨⟨bs, hinv⟩, hlist⟩ := twoNodes_list hheap
  obtain ⟨heap', hremove, hiff⟩ := llRemovePointer_removesFirst_iff hinv hlist 0x500
  exact ⟨heap, heap', hheap, hremove, hiff.mpr (Or.inl rfl)⟩

/-- The second node holds the content, and nothing is removed. -/
theorem secondNode_notRemoved : ∃ heap, twoNodes = some heap ∧
    ListIn heap 0x1020 [0x1060, 0x10a0] [0x500, 0x600] ∧
      llRemovePointer heap 0x1020 0x600 = some heap ∧
      ¬RemovesFirst heap heap 0x1020 0x600 [0x1060, 0x10a0] [0x500, 0x600] := by
  have hsome : twoNodes.isSome := by decide +kernel
  obtain ⟨heap, hheap⟩ := Option.isSome_iff_exists.mp hsome
  obtain ⟨-, hlist⟩ := twoNodes_list hheap
  refine ⟨heap, hheap, hlist, ?_, not_removesFirst_self (by decide)⟩
  rw [llRemovePointer_eq hlist]
  rfl

end BayosKernel
