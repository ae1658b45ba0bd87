import BayosKernel.LinkedListRemoval
import BayosKernel.MountLookup

/-!
`ll_create` and `ll_destroy`. The first clears only as many bytes as a pointer has; the
second reads nodes that it has just freed, which `free` does not touch.
-/

namespace BayosKernel

open Foundation BlockList LlNode Ll

/-- `sizeof(ll)`, where `ll` is a pointer. -/
abbrev sizeofPointer : Nat := 8

def llCreate (fuel : Nat) (heap : HeapState) : Option (HeapState × Nat) :=
  (heap.take fuel sizeofLl).map fun (heap, ll) =>
    if ll = NULL then (heap, NULL)
    else ({ heap with mem := heap.mem.memset ll 0 sizeofPointer }, ll)

def llAddBack (fuel : Nat) (heap : HeapState) (ll c : Nat) : Option (HeapState × Int) :=
  if ll = NULL then some (heap, -1)
  else
    (heap.take fuel sizeofLlNode).map fun (heap, node) =>
      if node = NULL then (heap, -1)
      else ({ heap with mem := linkBack heap.mem ll c node }, 0)

/-- The loop of `ll_destroy`; reading the next node through NULL is `none`. -/
def llDestroyLoop : Nat → HeapState → Nat → Option HeapState
  | 0, heap, _ => some heap
  | left + 1, heap, node =>
      let heap := heap.give node
      if node = NULL then none else llDestroyLoop left heap (next heap.mem node)

def llDestroy (heap : HeapState) (ll : Nat) : Option HeapState :=
  if ll = NULL then some heap
  else
    (llDestroyLoop (llSize heap.mem ll) heap (first heap.mem ll)).map fun heap => heap.give ll

/-- An empty list, and what the other functions make of it. -/
structure ActsEmpty (fuel : Nat) (heap : HeapState) (ll : Nat) : Prop where
  list : ListIn heap ll [] []
  size : llSize heap.mem ll = 0
  get : ∀ index, llGet heap.mem ll index = some NULL
  lookup : ∀ limit path, vfsGetMountpointAt limit fuel heap.mem ll path = some NULL
  addBack : ∀ c heap' res, c < 0x10000000000000000 → llAddBack fuel heap ll c = some (heap', res) →
    (res = -1 ∧ heap' = heap) ∨ (res = 0 ∧ ∃ node, ListIn heap' ll [node] [c])

/-- The 16 bytes behind the first word of the block that the next `ll_t` gets are zero. -/
def HeapState.NextLlClear (heap : HeapState) : Prop :=
  ∀ bs o bs', Tiled heap.al heap.mem bs → firstFit 0x20 0x20 0x20 bs = some (o, bs') →
    ∀ x, heap.al.addr + o + 0x28 ≤ x → x < heap.al.addr + o + 0x38 → heap.mem x = 0

section Create

variable {fuel : Nat} {heap heap' : HeapState} {bs : List Block} {ll node c : Nat}

theorem SoleNode.listIn {m : ByteMemory} (h : SoleNode m ll node c) (hll : ll ≠ NULL)
    (hnode : node ≠ NULL) (hmem : heap.mem = m) (howned : (node, sizeofLlNode) ∈ heap.live)
    (hheader : ∀ x, ll ≤ x → x < ll + sizeofLl → heap.Writable x)
    (hapart : node + sizeofLlNode ≤ ll ∨ ll + sizeofLl ≤ node) : ListIn heap ll [node] [c] := by
  subst hmem
  refine ⟨hll, ⟨h.size, ⟨h.first, hnode, h.next⟩, h.last, hnode, h.prev⟩, ?_, ?_, hheader, ?_⟩
  · rw [List.map_cons, List.map_nil, h.content]
  · simpa using howned
  · simpa using hapart

theorem emptyList_actsEmpty (h : ListIn heap ll [] []) (hinv : HeapInv heap bs)
    (hfuel : heap.al.size ≤ fuel) : ActsEmpty fuel heap ll := by
  have hsize : llSize heap.mem ll = 0 := h.llSize
  refine ⟨h, hsize, fun index => ?_, fun limit path => ?_, fun c heap' res hc hadd => ?_⟩
  · rw [llGet, if_pos (Or.inr (by omega))]
  · rw [vfsGetMountpointAt, hsize]
    split <;> rfl
  · rw [llAddBack, if_neg h.ne_null] at hadd
    obtain ⟨⟨heap₁, node⟩, htake, heq⟩ := Option.map_eq_some_iff.mp hadd
    rcases hinv.take_taken hfuel (by decide) htake with ⟨rfl, rfl⟩ | ⟨bs₁, ht⟩
    · simp only [if_true] at heq
      cases heq
      exact Or.inl ⟨rfl, rfl⟩
    · simp only [if_neg ht.ne_null] at heq
      cases heq
      have hend := ht.inv.live_end ht.mem
      -- the new node lies apart from the `ll_t`, which `alloc` leaves as it is
      have hkept : ∀ x, ll ≤ x → x < ll + 24 →
          (x < node ∨ node + 24 ≤ x) ∧ heap₁.mem x = heap.mem x ∧ heap₁.Writable x :=
        fun x hle hlt =>
          have hx := h.header x hle hlt
          ⟨ht.apart hx, ht.kept hinv hx⟩
      have hapart : node + 24 ≤ ll ∨ ll + 24 ≤ node := by
        by_contra hover
        have hfirst := (hkept ll (by omega) (by omega)).1
        have hlast := (hkept node (by omega) (by omega)).1
        omega
      obtain ⟨hfirst, hlast, hsize'⟩ := Ll.congr fun x hle hlt => (hkept x hle hlt).2.1
      have hsole := linkBack_sole (m := heap₁.mem) hapart hc (by simp only at hend; omega)
        (hfirst.trans h.linked.forward) (hlast.trans h.linked.backward)
        (hsize'.trans h.linked.size)
      exact Or.inr ⟨rfl, node, hsole.listIn h.ne_null ht.ne_null rfl ht.mem
        (fun x hle hlt => (hkept x hle hlt).2.2) hapart⟩

/-- The three words of a fresh `ll_t` are clear when the last two were so in its block. -/
theorem llCreate_listIn_iff (hinv : HeapInv heap bs)
    (hfuel : heap.al.size ≤ fuel) (hcreate : llCreate fuel heap = some (heap', ll))
    (hne : ll ≠ NULL) : (∃ bs', HeapInv heap' bs') ∧ heap'.al = heap.al ∧
      (ListIn heap' ll [] [] ↔ heap.NextLlClear) := by
  obtain ⟨⟨heap₁, p⟩, htake, heq⟩ := Option.map_eq_some_iff.mp hcreate
  rcases hinv.take_taken hfuel (by decide) htake with ⟨rfl, rfl⟩ | ⟨bs₁, ht⟩
  · simp only [if_true, Prod.mk.injEq] at heq
    exact absurd heq.2.symm hne
  · simp only [if_neg ht.ne_null] at heq
    obtain ⟨rfl, rfl⟩ := Prod.mk.inj heq
    obtain ⟨o, hfit, hptr⟩ := ht.fit
    have hmax : max sizeofLl 0x20 = 0x20 := rfl
    rw [hmax] at hfit
    have hbytes : ∀ x, p + 8 ≤ x → x < p + 24 →
        heap₁.mem.memset p 0 sizeofPointer x = heap.mem x := by
      intro x hle hlt
      rw [ByteMemory.memset_outside _ (by simp only [sizeofPointer]; omega),
        ht.bytes (by omega) (by rw [hmax]; omega)]
    have hword : ∀ q, p + 8 ≤ q → q + 8 ≤ p + 24 →
        ((heap₁.mem.memset p 0 sizeofPointer).load 8 q = 0 ↔
          ∀ x, q ≤ x → x < q + 8 → heap.mem x = 0) := by
      intro q hlow hhigh
      refine ByteMemory.load_eq_zero_iff.trans ⟨fun h x hle hlt => ?_, fun h x hle hlt => ?_⟩
      · rw [← hbytes x (by omega) (by omega)]
        exact h x hle hlt
      · rw [hbytes x (by omega) (by omega)]
        exact h x hle hlt
    have hlast := hword (p + 8) (Nat.le_refl _) (by omega)
    have hsize := hword (p + 16) (by omega) (Nat.le_refl _)
    have hfirst : first (heap₁.mem.memset p 0 sizeofPointer) p = 0 :=
      ByteMemory.load_zero fun x hle hlt => ByteMemory.memset_inside _ ⟨hle, hlt⟩
    have hclear : heap.NextLlClear ↔ ∀ x, p + 8 ≤ x → x < p + 24 → heap.mem x = 0 := by
      constructor
      · intro h x hle hlt
        exact h bs o bs₁ hinv.tiled hfit x (by omega) (by omega)
      · intro h bs₀ o₀ bs₀' htiled hfit₀ x hle hlt
        rw [htiled.unique hinv.tiled, hfit] at hfit₀
        cases hfit₀
        exact h x (by omega) (by omega)
    refine ⟨⟨bs₁, ht.inv.of_block ht.mem fun x hx => ByteMemory.memset_outside _
      (by simp only [sizeofPointer, sizeofLl] at hx ⊢; omega)⟩, ht.al, ?_⟩
    rw [hclear]
    constructor
    · intro hlist x hle hlt
      by_cases hx : x < p + 16
      · exact hlast.mp hlist.linked.backward x hle (by omega)
      · exact hsize.mp hlist.linked.size x (by omega) (by omega)
    · intro h
      refine ⟨ht.ne_null, ⟨hsize.mpr fun x hle hlt => h x (by omega) (by omega), hfirst,
        hlast.mpr fun x hle hlt => h x hle (by omega)⟩, rfl, by simp, fun x hle hlt => ?_, by simp⟩
      exact Or.inr ⟨_, ht.mem, hle, hlt⟩

end Create

/-- Whatever happened to the heap before: `ll_create` comes back, and what it hands out acts as
an empty list just when the bytes that it does not clear were clear. -/
theorem llCreate_actsEmpty_iff {fuel addr size : Nat} {m : ByteMemory} {run : List HeapAction}
    {heap : HeapState} (hsize : 0x20 < size) (hend : addr + size < 0x10000000000000000)
    (hfuel : size ≤ fuel)
    (hfits : (heapMachine fuel).Meets (fun st a => a.Fits st) (newHeap m addr size) run)
    (hrun : (heapMachine fuel).exec (newHeap m addr size) run = some heap) :
    ∃ heap' ll, llCreate fuel heap = some (heap', ll) ∧
      (ll ≠ NULL → (ActsEmpty fuel heap' ll ↔ heap.NextLlClear)) := by
  obtain ⟨hal, bs, hinv⟩ := heapMachine_inv hsize hend hfuel hfits hrun
  have hfuel' : heap.al.size ≤ fuel := by
    rw [hal]
    exact hfuel
  obtain ⟨heap₁, p, htake⟩ := hinv.take_some (n := sizeofLl) hfuel' (by decide)
  obtain ⟨⟨heap', ll⟩, hcreate⟩ : ∃ r, llCreate fuel heap = some r :=
    ⟨_, by rw [llCreate, htake, Option.map_some]⟩
  refine ⟨heap', ll, hcreate, fun hne => ?_⟩
  obtain ⟨⟨bs', hinv'⟩, hal', hiff⟩ := llCreate_listIn_iff hinv hfuel' hcreate hne
  rw [← hiff]
  exact ⟨ActsEmpty.list, fun hlist => emptyList_actsEmpty hlist hinv' (by rw [hal']; exact hfuel')⟩

/-- The first word of a block and its last bytes are written, and the block is freed. -/
def useAndRecycle : List HeapAction :=
  [.alloc 0x20, .store 0x1021 7, .store 0x103a 9, .free 0x1020]

theorem llCreate_actsEmpty_iff_useAndRecycle : ∃ heap heap' ll,
    (heapMachine 0x1000).exec (newHeap (fun _ => 0) 0x1000 0x1000) useAndRecycle = some heap ∧
      heap.mem 0x1021 = 7 ∧ llCreate 0x1000 heap = some (heap', ll) ∧ ll = 0x1020 ∧
      ActsEmpty 0x1000 heap' ll := by
  have hrun : ((heapMachine 0x1000).exec (newHeap (fun _ => 0) 0x1000 0x1000) useAndRecycle).map
      (fun heap => (heap.live, heap.mem 0x1021, (llCreate 0x1000 heap).map Prod.snd,
        decide (∀ i ∈ List.range 0x10, heap.mem (0x1028 + i) = 0))) =
      some ([], 7, some 0x1020, true) := by decide +kernel
  obtain ⟨heap, hheap, heq⟩ := Option.map_eq_some_iff.mp hrun
  simp only [Prod.mk.injEq, decide_eq_true_eq] at heq
  obtain ⟨hlive, hused, haddr, hclear⟩ := heq
  have hfits : (heapMachine 0x1000).Meets (fun st a => HeapAction.Fits st a)
      (newHeap (fun _ => 0) 0x1000 0x1000) useAndRecycle := by decide +kernel
  obtain ⟨heap', ll, hcreate, hiff⟩ := llCreate_actsEmpty_iff (by decide) (by decide)
    (Nat.le_refl 0x1000) hfits hheap
  rw [hcreate, Option.map_some, Option.some.injEq] at haddr
  refine ⟨heap, heap', ll, hheap, hused, hcreate, haddr,
    (hiff (by rw [show ll = 0x1020 from haddr]; decide)).mpr ?_⟩
  -- all was freed: the next `ll_t` gets the first bytes of the heap
  obtain ⟨hal, bs, hinv⟩ := heapMachine_inv (by decide) (by decide) (Nat.le_refl 0x1000) hfits hheap
  intro bs' o rest htiled hfit x hle hlt
  rw [htiled.unique hinv.tiled, hinv.of_freed hlive, hal] at hfit
  cases hfit
  simp only [hal] at hle hlt
  have hx := hclear (x - 0x1028) (List.mem_range.mpr (by omega))
  rwa [Nat.add_sub_cancel' (by omega)] at hx

/-- A byte of a block that was freed becomes the size of the next list. -/
theorem recycledBlock_notEmpty : ∃ heap heap',
    (heapMachine 0x1000).exec (newHeap (fun _ => 0) 0x1000 0x1000)
        [.alloc 24, .store 0x1030 5, .free 0x1020] = some heap ∧
      llCreate 0x1000 heap = some (heap', 0x1020) ∧ llSize heap'.mem 0x1020 = 5 ∧
      llGet heap'.mem 0x1020 0 = none ∧ ¬ActsEmpty 0x1000 heap' 0x1020 := by
  have hrun : (((heapMachine 0x1000).exec (newHeap (fun _ => 0) 0x1000 0x1000)
      [.alloc 24, .store 0x1030 5, .free 0x1020]).bind (llCreate 0x1000)).map
        (fun r => (r.2, llSize r.1.mem r.2, llGet r.1.mem r.2 0)) =
      some (0x1020, 5, none) := by decide +kernel
  obtain ⟨r, hbind, heq⟩ := Option.map_eq_some_iff.mp hrun
  obtain ⟨heap, hheap, hcreate⟩ := Option.bind_eq_some_iff.mp hbind
  obtain ⟨heap', ll⟩ := r
  simp only [Prod.mk.injEq] at heq
  obtain ⟨rfl, hsize, hget⟩ := heq
  refine ⟨heap, heap', hheap, hcreate, hsize, hget, fun hempty => ?_⟩
  have := hempty.size
  omega

section Destroy

variable {heap : HeapState} {bs : List Block} {ll node a n : Nat} {nodes contents : List Nat}

theorem exec_free {fuel : Nat} {g : Nat × Nat} {rest : List HeapAction} (hg : g ∈ heap.live) :
    (heapMachine fuel).exec heap (.free g.1 :: rest) =
      (heapMachine fuel).exec (heap.give g.1) rest := by
  have hstep : (heapMachine fuel).step heap (.free g.1) = some (heap.give g.1) :=
    if_pos (List.mem_map_of_mem hg)
  rw [Machine.exec, hstep, Option.bind_some]

/-- Each turn reads the link of the node that it has freed. -/
theorem llDestroyLoop_frees (fuel : Nat) (hheap : HeapInv heap bs)
    (hchain : Chain (next heap.mem) NULL a nodes)
    (howned : ∀ p ∈ nodes, (p, sizeofLlNode) ∈ heap.live) :
    ∃ heap', llDestroyLoop nodes.length heap a = some heap' ∧
      (∀ rest, (heapMachine fuel).exec heap (nodes.map .free ++ rest) =
        (heapMachine fuel).exec heap' rest) ∧
      (∃ bs', HeapInv heap' bs') ∧
      heap.live.Perm (nodes.map (·, sizeofLlNode) ++ heap'.live) ∧
      ∀ x, heap'.Writable x → heap.Writable x ∧ heap'.mem x = heap.mem x := by
  induction nodes generalizing heap bs a with
  | nil => exact ⟨heap, rfl, fun rest => rfl, ⟨bs, hheap⟩, List.Perm.refl _, fun x hx => ⟨hx, rfl⟩⟩
  | cons node rest ih =>
      have hnodup := hchain.nodup
      obtain ⟨rfl, hne, hrest⟩ := hchain
      have hlive := howned a List.mem_cons_self
      obtain ⟨bs₁, h₁⟩ := (hheap.give_block hlive).1
      have hnext : ∀ p ∈ a :: rest, next (heap.give a).mem p = next heap.mem p := by
        intro p hp
        refine ByteMemory.load_congr fun x hle hlt => ?_
        exact hheap.give_frame hlive (Or.inr ⟨_, howned p hp, by simp only; omega, by
          simp only [sizeofLlNode]; omega⟩)
      rw [List.length_cons, llDestroyLoop]
      simp only [if_neg hne, hnext a List.mem_cons_self]
      obtain ⟨heap', hloop, hexec, hinv, hperm, hframe⟩ := ih h₁
        (hrest.congr fun p hp => hnext p (List.mem_cons_of_mem _ hp)) fun p hp =>
          (hheap.mem_give hlive).mpr ⟨howned p (List.mem_cons_of_mem _ hp),
            fun heq : p = a => (List.nodup_cons.mp hnodup).1 (heq ▸ hp)⟩
      refine ⟨heap', hloop, fun tail => ?_, hinv, ?_, fun x hx => ?_⟩
      · rw [List.map_cons, List.cons_append, exec_free hlive]
        exact hexec tail
      · exact (hheap.give_live hlive).trans (hperm.cons _)
      · obtain ⟨hx₁, hsame⟩ := hframe x hx
        have hx₀ : heap.Writable x := hx₁.imp_right fun ⟨g, hg, hin⟩ =>
          ⟨g, ((hheap.mem_give hlive).mp hg).1, hin⟩
        exact ⟨hx₀, hsame.trans (hheap.give_frame hlive hx₀)⟩

/-- `ll_destroy` comes back and frees each node and then the `ll_t`, once each. -/
theorem llDestroy_frees (fuel : Nat) (hheap : HeapInv heap bs)
    (hlist : ListIn heap ll nodes contents) (howned : (ll, n) ∈ heap.live) :
    ∃ heap', llDestroy heap ll = some heap' ∧
      (heapMachine fuel).exec heap (nodes.map .free ++ [.free ll]) = some heap' ∧
      (∃ bs', HeapInv heap' bs') ∧
      heap.live.Perm (nodes.map (·, sizeofLlNode) ++ (ll, n) :: heap'.live) ∧
      ∀ x, heap'.Writable x → heap'.mem x = heap.mem x := by
  obtain ⟨heap₁, hloop, hexec, ⟨bs₁, h₁⟩, hperm, hframe⟩ :=
    llDestroyLoop_frees fuel hheap hlist.linked.forward hlist.owned
  have hlive : (ll, n) ∈ heap₁.live := by
    rcases List.mem_append.mp (hperm.mem_iff.mp howned) with hnode | hlive
    · obtain ⟨p, hp, heq⟩ := List.mem_map.mp hnode
      exact absurd ((Prod.mk.inj heq).1 ▸ hp) hlist.notMem
    · exact hlive
  have hgive := h₁.give_live hlive
  refine ⟨heap₁.give ll, ?_, ?_, (h₁.give_block hlive).1, hperm.trans (hgive.append_left _),
    fun x hx => ?_⟩
  · rw [llDestroy, if_neg hlist.ne_null, hlist.llSize, hloop, Option.map_some]
  · rw [hexec, exec_free hlive]
    rfl
  · have hx₁ : heap₁.Writable x := hx.imp_right fun ⟨g, hg, hin⟩ =>
      ⟨g, hgive.mem_iff.mpr (List.mem_cons_of_mem _ hg), hin⟩
    rw [h₁.give_frame hlive hx₁, (hframe x hx₁).2]

end Destroy

theorem llDestroy_frees_twoNodes : ∃ heap heap', twoNodes = some heap ∧
    llDestroy heap 0x1020 = some heap' ∧
      (heapMachine 0x1000).exec heap [.free 0x1060, .free 0x10a0, .free 0x1020] = some heap' ∧
      heap'.live = [] := by
  have hsome : twoNodes.isSome := by decide +kernel
  obtain ⟨heap, hheap⟩ := Option.isSome_iff_exists.mp hsome
  obtain ⟨⟨bs, hinv⟩, hlist⟩ := twoNodes_list hheap
  have hlive : twoNodes.map HeapState.live = some [(0x10a0, 24), (0x1060, 24), (0x1020, 24)] := by
    decide +kernel
  rw [hheap, Option.map_some, Option.some.injEq] at hlive
  obtain ⟨heap', hdestroy, hexec, -, hperm, -⟩ :=
    llDestroy_frees 0x1000 hinv hlist (n := 24) (by simp [hlive])
  have hlength := hperm.length_eq
  rw [hlive] at hlength
  simp only [List.length_append, List.length_map, List.length_cons, List.length_nil] at hlength
  exact ⟨heap, heap', hheap, hdestroy, hexec, List.eq_nil_of_length_eq_zero (by omega)⟩

end BayosKernel
