import BayosKernel.LinkedList

/-!
The insertions of `ll.c` write the new node and the `ll_t` only, never the
neighbour of the new node: the list is right as long as it has one node.
-/

namespace BayosKernel

open Foundation BlockList LlNode Ll

section Fields

variable {m m' : ByteMemory} {p : Nat}

theorem LlNode.congr (h : ∀ x, p ≤ x → x < p + 24 → m' x = m x) :
    content m' p = content m p ∧ next m' p = next m p ∧ prev m' p = prev m p :=
  ⟨ByteMemory.load_congr fun x _ _ => h x (by omega) (by omega),
    ByteMemory.load_congr fun x _ _ => h x (by omega) (by omega),
    ByteMemory.load_congr fun x _ _ => h x (by omega) (by omega)⟩

theorem Ll.congr (h : ∀ x, p ≤ x → x < p + 24 → m' x = m x) :
    first m' p = first m p ∧ last m' p = last m p ∧ size m' p = size m p :=
  LlNode.congr h

end Fields

/-- The writes of an insertion stay in the node and in the `ll_t`. -/
theorem linkBack_outside (m : ByteMemory) {ll content node x : Nat}
    (hnode : x < node ∨ node + 24 ≤ x) (hll : x < ll ∨ ll + 24 ≤ x) :
    linkBack m ll content node x = m x := by
  unfold linkBack
  split <;> simp only [Ll.setSize, setFirst, setLast, setPrev, LlNode.setNext, setContent] <;>
    repeat rw [ByteMemory.store_outside _ (by omega)]

theorem linkFront_outside (m : ByteMemory) {ll content node x : Nat}
    (hnode : x < node ∨ node + 24 ≤ x) (hll : x < ll ∨ ll + 24 ≤ x) :
    linkFront m ll content node x = m x := by
  unfold linkFront
  split <;> simp only [Ll.setSize, setFirst, setLast, setPrev, LlNode.setNext, setContent] <;>
    repeat rw [ByteMemory.store_outside _ (by omega)]

/-- A list of one node whose fields are all right. -/
structure SoleNode (m : ByteMemory) (ll node c : Nat) : Prop where
  first : first m ll = node
  last : last m ll = node
  size : size m ll = 1
  content : content m node = c
  next : next m node = NULL
  prev : prev m node = NULL

theorem linkBack_sole {m : ByteMemory} {ll c node : Nat}
    (hapart : node + 24 ≤ ll ∨ ll + 24 ≤ node) (hc : c < 0x10000000000000000)
    (hnode : node < 0x10000000000000000) (hfirst : first m ll = NULL) (hlast : last m ll = NULL)
    (hsize : size m ll = 0) : SoleNode (linkBack m ll c node) ll node c := by
  have hone : add64 0 1 = 1 := rfl
  have hempty : first (setLast (setPrev (LlNode.setNext (setContent m node c) node NULL) node
      (last (LlNode.setNext (setContent m node c) node NULL) ll)) ll node) ll = NULL := by
    simp (disch := omega) only [first, setLast, setPrev, LlNode.setNext, setContent,
      ByteMemory.load_store_apart]
    exact hfirst
  simp only [linkBack, if_pos hempty]
  unfold last at hlast
  unfold Ll.size at hsize
  constructor <;>
    simp (disch := omega) only [first, last, Ll.size, content, next, prev, setContent,
      LlNode.setNext, setPrev, setFirst, setLast, Ll.setSize, ByteMemory.load_store_apart,
      ByteMemory.load_store_word, hlast, hsize, hone, NULL]

theorem linkFront_sole {m : ByteMemory} {ll c node : Nat}
    (hapart : node + 24 ≤ ll ∨ ll + 24 ≤ node) (hc : c < 0x10000000000000000)
    (hnode : node < 0x10000000000000000) (hfirst : first m ll = NULL) (hlast : last m ll = NULL)
    (hsize : size m ll = 0) : SoleNode (linkFront m ll c node) ll node c := by
  have hone : add64 0 1 = 1 := rfl
  have hempty : last (setFirst (LlNode.setNext (setPrev (setContent m node c) node NULL) node
      (first (setPrev (setContent m node c) node NULL) ll)) ll node) ll = NULL := by
    simp (disch := omega) only [last, setFirst, setPrev, LlNode.setNext, setContent,
      ByteMemory.load_store_apart]
    exact hlast
  simp only [linkFront, if_pos hempty]
  unfold first at hfirst
  unfold Ll.size at hsize
  constructor <;>
    simp (disch := omega) only [first, last, Ll.size, content, next, prev, setContent,
      LlNode.setNext, setPrev, setFirst, setLast, Ll.setSize, ByteMemory.load_store_apart,
      ByteMemory.load_store_word, hfirst, hsize, hone, NULL]

/-- No insertion writes to an older node: the oldest keeps the links it was
given, to nothing. -/
structure LlInv (fuel : Nat) (s : LlState) : Prop where
  fuel : s.heap.al.size ≤ fuel
  heap : ∃ bs, HeapInv s.heap bs
  owned : ∀ p ∈ s.ll :: s.nodes, (p, 24) ∈ s.heap.live
  apart : s.ll ∉ s.nodes
  lengths : s.contents.length = s.nodes.length
  empty : s.nodes = [] →
    first s.heap.mem s.ll = NULL ∧ last s.heap.mem s.ll = NULL ∧ size s.heap.mem s.ll = 0
  sole : ∀ p, s.nodes = [p] → ∃ c, s.contents = [c] ∧ SoleNode s.heap.mem s.ll p c
  oldest : s.nodes ≠ [] →
    ∃ p ∈ s.nodes, next s.heap.mem p = NULL ∧ prev s.heap.mem p = NULL

namespace LlInv

variable {fuel : Nat} {s s' : LlState}

theorem ne_null (h : LlInv fuel s) {p : Nat} (hp : p ∈ s.ll :: s.nodes) : p ≠ NULL := by
  obtain ⟨bs, hinv⟩ := h.heap
  obtain ⟨pre, b, post, -, -, hptr, -⟩ := hinv.live_block (h.owned p hp)
  simp only at hptr
  simp only [NULL]
  omega

theorem represents_iff (h : LlInv fuel s) : s.Represents ↔ s.nodes.length ≤ 1 := by
  have hll : ¬s.ll = NULL := h.ne_null (by simp)
  constructor
  · intro hrep
    by_contra hlong
    obtain ⟨p, hp, hnext, hprev⟩ := h.oldest (by rintro hnil; simp [hnil] at hlong)
    obtain ⟨front, back, hsplit⟩ := List.append_of_mem hp
    cases back with
    | cons q rest =>
        have hforward := hrep.forward
        rw [hsplit] at hforward
        exact hforward.ne_null (by simp) (hforward.next_eq.symm.trans hnext)
    | nil =>
        -- the oldest node is the last one and should lead back to another
        rcases List.eq_nil_or_concat front with rfl | ⟨init, q, rfl⟩
        · simp [hsplit] at hlong
        · have hback := hrep.backward
          have hrev : s.nodes.reverse = [] ++ p :: q :: init.reverse := by simp [hsplit]
          rw [hrev] at hback
          exact hback.ne_null (by simp) (hback.next_eq.symm.trans hprev)
  · intro hshort
    rcases hnodes : s.nodes with _ | ⟨p, rest⟩
    · obtain ⟨hfirst, hlast, hsize⟩ := h.empty hnodes
      have hcontents : s.contents = [] :=
        List.eq_nil_of_length_eq_zero (by rw [h.lengths, hnodes]; rfl)
      refine ⟨?_, fun i c hi => ?_, ?_, ?_⟩
      · simp [llSize, hll, hsize, hcontents]
      · simp [hcontents] at hi
      · rw [hnodes]
        exact hfirst
      · rw [hnodes]
        exact hlast
    · have hrest : rest = [] := by
        rw [hnodes, List.length_cons] at hshort
        exact List.eq_nil_of_length_eq_zero (by omega)
      subst hrest
      obtain ⟨c, hcontents, hsole⟩ := h.sole p hnodes
      have hp : p ≠ NULL := h.ne_null (by simp [hnodes])
      refine ⟨?_, fun i c' hi => ?_, ?_, ?_⟩
      · simp [llSize, hll, hsole.size, hcontents]
      · cases i with
        | zero =>
            simp only [hcontents, List.getElem?_cons_zero, Option.some.injEq] at hi
            simp [llGet, llSize, hll, hsole.size, hsole.first, llGetFrom, hp, hsole.content, hi]
        | succ i => simp [hcontents] at hi
      · rw [hnodes]
        exact ⟨hsole.first, hp, hsole.next⟩
      · rw [hnodes]
        exact ⟨hsole.last, hp, hsole.prev⟩

/-- A node and the `ll_t` do not overlap. -/
theorem node_apart (h : LlInv fuel s) {p : Nat} (hp : p ∈ s.nodes) :
    p + 24 ≤ s.ll ∨ s.ll + 24 ≤ p := by
  obtain ⟨bs, hinv⟩ := h.heap
  have hne : ((p, 24) : Nat × Nat) ≠ (s.ll, 24) := by
    intro heq
    exact h.apart ((Prod.mk.inj heq).1 ▸ hp)
  have hapart := hinv.liveBlocks.apart_of_ne (h.owned p (by simp [hp]))
    (h.owned s.ll (by simp)) hne
  simp only [granted] at hapart
  omega

/-- The heap before the node is linked in. -/
theorem newNode (h : LlInv fuel s) {heap : HeapState} {node : Nat}
    (hnew : s.heap.take fuel sizeofLlNode = some (heap, node)) :
    (node = NULL ∧ heap = s.heap) ∨
      (node ≠ NULL ∧ node < 0x10000000000000000 ∧ (∃ bs, HeapInv heap bs) ∧
        heap.al = s.heap.al ∧ heap.live = (node, 24) :: s.heap.live ∧
        ∀ p, (p, 24) ∈ s.heap.live → (node + 24 ≤ p ∨ p + 24 ≤ node) ∧
          ∀ x, p ≤ x → x < p + 24 → heap.mem x = s.heap.mem x) := by
  obtain ⟨bs, hinv⟩ := h.heap
  have := hinv.bound
  refine (hinv.take_cases h.fuel (by decide) hnew).imp_right ?_
  rintro ⟨hne, hend, hinv', hal, hlive, hothers⟩
  exact ⟨hne, by omega, hinv', hal, hlive, fun p hp => hothers (p, 24) hp⟩

/-- The state after an insertion whose writes stay in the node and in the `ll_t`. -/
theorem insert (h : LlInv fuel s) {heap : HeapState} {node : Nat} {m : ByteMemory}
    {nodes contents : List Nat} (hnew : s.heap.take fuel sizeofLlNode = some (heap, node)) (hne : node ≠ NULL)
    (hframe : ∀ x, (x < node ∨ node + 24 ≤ x) → (x < s.ll ∨ s.ll + 24 ≤ x) → m x = heap.mem x)
    (hnodes : nodes.Perm (node :: s.nodes)) (hcontents : contents.length = s.contents.length + 1)
    (hsole : s.nodes = [] → ∃ c, contents = [c] ∧ SoleNode m s.ll node c) :
    LlInv fuel ⟨{ heap with mem := m }, s.ll, nodes, contents⟩ := by
  obtain ⟨-, -, ⟨bs, hinv⟩, hal, hlive, hothers⟩ :=
    (h.newNode hnew).resolve_left fun hnull => hne hnull.1
  have hmem : ∀ p, p ∈ nodes ↔ p = node ∨ p ∈ s.nodes := by
    intro p
    rw [hnodes.mem_iff, List.mem_cons]
  have hll : (s.ll, 24) ∈ heap.live := by
    rw [hlive]
    exact List.mem_cons_of_mem _ (h.owned s.ll (by simp))
  have hnode : (node, 24) ∈ heap.live := by
    rw [hlive]
    exact List.mem_cons_self
  have hlength := hnodes.length_eq
  refine ⟨by rw [hal]; exact h.fuel, ⟨bs, hinv.of_frame fun x hx => hframe x ?_ ?_⟩,
    fun p hp => ?_, ?_, ?_, fun hnil => ?_, fun p hone => ?_, fun _ => ?_⟩
  · by_contra hin
    exact hinv.not_managed (Or.inr ⟨_, hnode, by simp only; omega, by simp only; omega⟩) hx
  · by_contra hin
    exact hinv.not_managed (Or.inr ⟨_, hll, by simp only; omega, by simp only; omega⟩) hx
  · rcases List.mem_cons.mp hp with rfl | hp
    · exact hll
    · rcases (hmem p).mp hp with rfl | hp
      · exact hnode
      · rw [hlive]
        exact List.mem_cons_of_mem _ (h.owned p (by simp [hp]))
  · intro hin
    rcases (hmem s.ll).mp hin with heq | hin
    · have := (hothers s.ll (h.owned s.ll (by simp))).1
      omega
    · exact h.apart hin
  · rw [hcontents, h.lengths, hlength, List.length_cons]
  · simp only at hnil
    simp [hnil] at hlength
  · simp only at hone
    rw [hone] at hlength
    have hnil : s.nodes = [] := List.eq_nil_of_length_eq_zero (by simpa using hlength.symm)
    have hp : p = node := by simpa [hone, hnil] using hmem p
    rw [hp]
    exact hsole hnil
  · rcases hold : s.nodes with _ | ⟨q, rest⟩
    · obtain ⟨c, -, hfields⟩ := hsole hold
      exact ⟨node, (hmem node).mpr (Or.inl rfl), hfields.next, hfields.prev⟩
    · obtain ⟨p, hp, hnext, hprev⟩ := h.oldest (by simp [hold])
      obtain ⟨hapart, hsame⟩ := hothers p (h.owned p (by simp [hp]))
      have hll := h.node_apart hp
      have hbytes : ∀ x, p ≤ x → x < p + 24 → m x = s.heap.mem x :=
        fun x hle hlt => (hframe x (by omega) (by omega)).trans (hsame x hle hlt)
      obtain ⟨-, hnext', hprev'⟩ := LlNode.congr hbytes
      exact ⟨p, (hmem p).mpr (Or.inr hp), hnext'.trans hnext, hprev'.trans hprev⟩

/-- The `ll_t` as the new node finds it. -/
theorem newNode_empty (h : LlInv fuel s) {heap : HeapState} {node : Nat}
    (hnew : s.heap.take fuel sizeofLlNode = some (heap, node)) (hne : node ≠ NULL) :
    (node + 24 ≤ s.ll ∨ s.ll + 24 ≤ node) ∧ node < 0x10000000000000000 ∧
      (s.nodes = [] → first heap.mem s.ll = NULL ∧ last heap.mem s.ll = NULL ∧
        size heap.mem s.ll = 0) := by
  obtain ⟨-, hlt, -, -, -, hothers⟩ :=
    (h.newNode hnew).resolve_left fun hnull => hne hnull.1
  obtain ⟨hapart, hsame⟩ := hothers s.ll (h.owned s.ll (by simp))
  obtain ⟨hfirst, hlast, hsize⟩ := Ll.congr hsame
  refine ⟨hapart, hlt, fun hnil => ?_⟩
  obtain ⟨hf, hl, hs⟩ := h.empty hnil
  exact ⟨hfirst.trans hf, hlast.trans hl, hsize.trans hs⟩

/-- Both insertions: without a node nothing happens, and else it is linked in at an end. -/
theorem insertion (h : LlInv fuel s) {c : Nat} (link : ByteMemory → Nat → ByteMemory)
    (put : Nat → List Nat → List Nat) (hput : ∀ x xs, (put x xs).Perm (x :: xs))
    (hframe : ∀ m node x, (x < node ∨ node + 24 ≤ x) → (x < s.ll ∨ s.ll + 24 ≤ x) →
      link m node x = m x)
    (hsole : ∀ m node, (node + 24 ≤ s.ll ∨ s.ll + 24 ≤ node) → node < 0x10000000000000000 →
      first m s.ll = NULL → last m s.ll = NULL → size m s.ll = 0 →
        SoleNode (link m node) s.ll node c)
    (hstep : ((s.heap.take fuel sizeofLlNode).map fun (heap, node) =>
      if node = NULL then { s with heap := heap }
      else (⟨{ heap with mem := link heap.mem node }, s.ll, put node s.nodes, put c s.contents⟩ :
        LlState)) = some s') : LlInv fuel s' := by
  obtain ⟨⟨heap, node⟩, hnew, heq⟩ := Option.map_eq_some_iff.mp hstep
  by_cases hne : node = NULL
  · simp only [if_pos hne] at heq
    obtain ⟨-, rfl⟩ := (h.newNode hnew).resolve_right fun hsome => hsome.1 hne
    rw [← heq]
    exact h
  · simp only [if_neg hne] at heq
    obtain ⟨hapart, hlt, hempty⟩ := h.newNode_empty hnew hne
    rw [← heq]
    refine h.insert hnew hne (fun x => hframe heap.mem node x) (hput node s.nodes)
      (hput c s.contents).length_eq fun hnil => ?_
    obtain ⟨hfirst, hlast, hsize⟩ := hempty hnil
    have hcontents : s.contents = [] :=
      List.eq_nil_of_length_eq_zero (by rw [h.lengths, hnil]; rfl)
    have hone : put c s.contents = [c] := List.perm_singleton.mp (hcontents ▸ hput c s.contents)
    exact ⟨c, hone, hsole heap.mem node hapart hlt hfirst hlast hsize⟩

theorem addBack (h : LlInv fuel s) {c : Nat} (hc : c < 0x10000000000000000)
    (hstep : s.addBack fuel c = some s') : LlInv fuel s' := by
  rw [LlState.addBack, if_neg (h.ne_null List.mem_cons_self)] at hstep
  exact h.insertion (fun m node => linkBack m s.ll c node) (fun x xs => xs ++ [x])
    (fun x xs => List.perm_append_singleton x xs) (fun m _ _ => linkBack_outside m)
    (fun _ _ hapart hlt => linkBack_sole hapart hc hlt) hstep

theorem addFront (h : LlInv fuel s) {c : Nat} (hc : c < 0x10000000000000000)
    (hstep : s.addFront fuel c = some s') : LlInv fuel s' := by
  rw [LlState.addFront, if_neg (h.ne_null List.mem_cons_self)] at hstep
  exact h.insertion (fun m node => linkFront m s.ll c node) List.cons
    (fun _ _ => List.Perm.refl _) (fun m _ _ => linkFront_outside m)
    (fun _ _ hapart hlt => linkFront_sole hapart hc hlt) hstep

/-- Other clients of the heap leave the list alone. -/
theorem heap_step (h : LlInv fuel s) {a : HeapAction} {heap : HeapState}
    (hfits : a.Fits s.heap) (hforeign : s.Foreign a) (hstep : s.heap.step fuel a = some heap) :
    LlInv fuel { s with heap := heap } := by
  obtain ⟨bs, hinv⟩ := h.heap
  have hkeeps : ∀ p ∈ s.ll :: s.nodes, (p, 24) ∈ heap.live ∧
      ∀ x, p ≤ x → x < p + 24 → heap.mem x = s.heap.mem x := by
    intro p hp
    have hfree : a ≠ .free p := by
      rintro rfl
      exact hforeign (List.mem_cons.mp hp)
    have hstore : ∀ x v, p ≤ x → x < p + 24 → a ≠ .store x v := by
      rintro x v hle hlt rfl
      have := hforeign p hp
      omega
    have hbyte : ∀ x, p ≤ x → x < p + 24 → (p, 24) ∈ heap.live ∧ heap.mem x = s.heap.mem x :=
      fun x hle hlt => hinv.step_keeps h.fuel hfits hstep (h.owned p hp)
        ⟨hle, by simp only [granted]; omega⟩ hfree fun v => hstore x v hle hlt
    exact ⟨(hbyte p (by omega) (by omega)).1, fun x hle hlt => (hbyte x hle hlt).2⟩
  have hal := HeapState.step_al hstep
  obtain ⟨hfirst, hlast, hsize⟩ := Ll.congr (hkeeps s.ll (by simp)).2
  have hnode : ∀ p ∈ s.nodes, content heap.mem p = content s.heap.mem p ∧
      next heap.mem p = next s.heap.mem p ∧ prev heap.mem p = prev s.heap.mem p :=
    fun p hp => LlNode.congr (hkeeps p (by simp [hp])).2
  refine ⟨by rw [hal]; exact h.fuel, hinv.step h.fuel hfits hstep, fun p hp => (hkeeps p hp).1,
    h.apart, h.lengths, fun hnil => ?_, fun p hone => ?_, fun hne => ?_⟩
  · simp only [hfirst, hlast, hsize]
    exact h.empty hnil
  · simp only at hone
    obtain ⟨c, hcontents, hsole⟩ := h.sole p hone
    obtain ⟨hcontent, hnext, hprev⟩ := hnode p (by simp [hone])
    exact ⟨c, hcontents, hfirst.trans hsole.first, hlast.trans hsole.last,
      hsize.trans hsole.size, hcontent.trans hsole.content, hnext.trans hsole.next,
      hprev.trans hsole.prev⟩
  · obtain ⟨p, hp, hnext, hprev⟩ := h.oldest hne
    obtain ⟨-, hnext', hprev'⟩ := hnode p hp
    exact ⟨p, hp, hnext'.trans hnext, hprev'.trans hprev⟩

end LlInv

/-- Contents are pointers, and other clients of the heap ask for what fits. -/
def LlAction.Valid (s : LlState) : LlAction → Prop
  | .addBack content => content < 0x10000000000000000
  | .addFront content => content < 0x10000000000000000
  | .heap a => a.Fits s.heap

instance (s : LlState) : DecidablePred (LlAction.Valid s)
  | .addBack _ => inferInstanceAs (Decidable (_ < _))
  | .addFront _ => inferInstanceAs (Decidable (_ < _))
  | .heap a => inferInstanceAs (Decidable (a.Fits s.heap))

/-- An empty list in a heap: `ll` is a block of its size with all fields zero. -/
structure EmptyLl (fuel : Nat) (heap : HeapState) (ll : Nat) : Prop where
  fuel : heap.al.size ≤ fuel
  inv : ∃ bs, HeapInv heap bs
  owned : (ll, sizeofLl) ∈ heap.live
  first : first heap.mem ll = NULL
  last : last heap.mem ll = NULL
  size : size heap.mem ll = 0

/-- After every run of insertions, with other clients of the heap between them,
the list represents its sequence if and only if it has at most one element. -/
theorem llMachine_represents {fuel ll : Nat} {heap : HeapState} {run : List LlAction}
    {s : LlState} (hempty : EmptyLl fuel heap ll)
    (hvalid : (llMachine fuel).Meets (fun s a => a.Valid s) ⟨heap, ll, [], []⟩ run)
    (hrun : (llMachine fuel).exec ⟨heap, ll, [], []⟩ run = some s) :
    s.Represents ↔ s.contents.length ≤ 1 := by
  have hstart : LlInv fuel ⟨heap, ll, [], []⟩ := by
    refine ⟨hempty.fuel, hempty.inv, fun p hp => ?_, by simp, rfl, fun _ =>
      ⟨hempty.first, hempty.last, hempty.size⟩, by simp, by simp⟩
    rw [List.mem_singleton.mp hp]
    exact hempty.owned
  have hstep : ∀ s a s', LlInv fuel s → a.Valid s → (llMachine fuel).step s a = some s' →
      LlInv fuel s' := by
    intro s a s' h ha hstep
    cases a with
    | addBack c => exact h.addBack ha hstep
    | addFront c => exact h.addFront ha hstep
    | heap a =>
        simp only [llMachine, LlState.step] at hstep
        split at hstep
        · rename_i hforeign
          obtain ⟨heap', hheap, rfl⟩ := Option.map_eq_some_iff.mp hstep
          exact h.heap_step ha hforeign hheap
        · cases hstep
  have hinv := (llMachine fuel).exec_invariant hstep hstart hvalid hrun
  rw [hinv.lengths]
  exact hinv.represents_iff

/-- The heap in which an `ll_t` was the first block handed out. -/
def startLl : Option HeapState :=
  (heapMachine 0x1000).exec (newHeap (fun _ => 0) 0x1000 0x1000) [.alloc sizeofLl]

theorem startLl_empty {heap : HeapState} (hstart : startLl = some heap) :
    EmptyLl 0x1000 heap 0x1020 := by
  have hfields : startLl.map (fun heap => (heap.live, first heap.mem 0x1020, last heap.mem 0x1020,
      Ll.size heap.mem 0x1020)) = some ([(0x1020, sizeofLl)], 0, 0, 0) := by decide +kernel
  rw [hstart, Option.map_some, Option.some.injEq] at hfields
  simp only [Prod.mk.injEq] at hfields
  obtain ⟨hlive, hfirst, hlast, hsize⟩ := hfields
  obtain ⟨hal, hinv⟩ := heapMachine_inv (by decide) (by decide) (Nat.le_refl 0x1000)
    (by decide +kernel) hstart
  exact ⟨by rw [hal], hinv, by simp [hlive], hfirst, hlast, hsize⟩

theorem llMachine_represents_one : ∃ heap s, startLl = some heap ∧
    (llMachine 0x1000).exec ⟨heap, 0x1020, [], []⟩
        [.heap (.alloc 0x30), .addFront 0x500, .heap (.store 0x1060 7)] = some s ∧
      s.contents = [0x500] ∧ s.Represents := by
  have hrun : (startLl.bind fun heap => ((llMachine 0x1000).exec ⟨heap, 0x1020, [], []⟩
      [.heap (.alloc 0x30), .addFront 0x500, .heap (.store 0x1060 7)]).map fun s =>
        (s.contents, decide ((llMachine 0x1000).Meets (fun s a => LlAction.Valid s a)
          ⟨heap, 0x1020, [], []⟩
          [.heap (.alloc 0x30), .addFront 0x500, .heap (.store 0x1060 7)]))) =
      some ([0x500], true) := by decide +kernel
  obtain ⟨heap, hstart, hmap⟩ := Option.bind_eq_some_iff.mp hrun
  obtain ⟨s, hexec, heq⟩ := Option.map_eq_some_iff.mp hmap
  obtain ⟨hcontents, hvalid⟩ := Prod.mk.inj heq
  refine ⟨heap, s, hstart, hexec, hcontents,
    (llMachine_represents (startLl_empty hstart) (of_decide_eq_true hvalid) hexec).mpr ?_⟩
  rw [hcontents]
  decide

/-- After two calls of `ll_add_back` the second element cannot be reached: the
list still ends at its first node, and `ll_get` reads through NULL. -/
theorem twoAddBack_lost : ∃ heap s, startLl = some heap ∧
    (llMachine 0x1000).exec ⟨heap, 0x1020, [], []⟩ [.addBack 0x500, .addBack 0x600] = some s ∧
      s.contents = [0x500, 0x600] ∧ llSize s.heap.mem s.ll = 2 ∧
      llGet s.heap.mem s.ll 1 = none ∧ ¬s.Represents := by
  have hrun : (startLl.bind fun heap => ((llMachine 0x1000).exec ⟨heap, 0x1020, [], []⟩
      [.addBack 0x500, .addBack 0x600]).map fun s =>
        (s.contents, llSize s.heap.mem s.ll, llGet s.heap.mem s.ll 1)) =
      some ([0x500, 0x600], 2, none) := by decide +kernel
  obtain ⟨heap, hstart, hmap⟩ := Option.bind_eq_some_iff.mp hrun
  obtain ⟨s, hexec, heq⟩ := Option.map_eq_some_iff.mp hmap
  obtain ⟨hcontents, heq⟩ := Prod.mk.inj heq
  obtain ⟨hsize, hget⟩ := Prod.mk.inj heq
  refine ⟨heap, s, hstart, hexec, hcontents, hsize, hget, fun hrep => ?_⟩
  have hsecond := hrep.get 1 0x600 (by rw [hcontents]; rfl)
  rw [hget] at hsecond
  cases hsecond

end BayosKernel
