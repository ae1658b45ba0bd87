import BayosKernel.Heap

/-!
Lists of blocks laid out in memory, and `alloc` and `free` as the operations
on such lists.
-/

namespace BayosKernel

open Foundation BlockList HeapNode

namespace HeapNode

variable (m : ByteMemory) {p q v x : Nat}

theorem read_congr {m m' : ByteMemory} {p : Nat}
    (h : ∀ x, p ≤ x → x < p + 0x20 → m' x = m x) : read m' p = read m p := by
  have hload : ∀ w o, o + w ≤ 0x20 → m'.load w (p + o) = m.load w (p + o) :=
    fun w o ho => ByteMemory.load_congr fun x _ _ => h x (by omega) (by omega)
  have hsize : m'.load 8 p = m.load 8 p := hload 8 0 (by omega)
  simp only [read, hsize, hload 4 8 (by omega), hload 8 16 (by omega), hload 8 24 (by omega)]

theorem setSize_outside (h : x < p ∨ p + 0x20 ≤ x) : setSize m p v x = m x :=
  ByteMemory.store_outside m (by omega)

theorem setStatus_outside (h : x < p ∨ p + 0x20 ≤ x) : setStatus m p v x = m x :=
  ByteMemory.store_outside m (by omega)

theorem setPrev_outside (h : x < p ∨ p + 0x20 ≤ x) : setPrev m p v x = m x :=
  ByteMemory.store_outside m (by omega)

theorem setNext_outside (h : x < p ∨ p + 0x20 ≤ x) : setNext m p v x = m x :=
  ByteMemory.store_outside m (by omega)

theorem read_setSize (hv : v < 0x10000000000000000) :
    read (setSize m p v) p = { read m p with size := v } := by
  simp only [read, setSize, ByteMemory.load_store m (show v < ByteMemory.capacity 8 from hv)]
  repeat rw [ByteMemory.load_store_apart m (by omega)]

theorem read_setStatus (hv : v < 0x100000000) :
    read (setStatus m p v) p = { read m p with status := v } := by
  simp only [read, setStatus, ByteMemory.load_store m (show v < ByteMemory.capacity 4 from hv)]
  repeat rw [ByteMemory.load_store_apart m (by omega)]

theorem read_setPrev (hv : v < 0x10000000000000000) :
    read (setPrev m p v) p = { read m p with prev := v } := by
  simp only [read, setPrev, ByteMemory.load_store m (show v < ByteMemory.capacity 8 from hv)]
  repeat rw [ByteMemory.load_store_apart m (by omega)]

theorem read_setNext (hv : v < 0x10000000000000000) :
    read (setNext m p v) p = { read m p with next := v } := by
  simp only [read, setNext, ByteMemory.load_store m (show v < ByteMemory.capacity 8 from hv)]
  repeat rw [ByteMemory.load_store_apart m (by omega)]

theorem read_setSize_apart (h : q + 0x20 ≤ p ∨ p + 0x20 ≤ q) :
    read (setSize m p v) q = read m q :=
  read_congr fun _ _ _ => setSize_outside m (by omega)

theorem read_setStatus_apart (h : q + 0x20 ≤ p ∨ p + 0x20 ≤ q) :
    read (setStatus m p v) q = read m q :=
  read_congr fun _ _ _ => setStatus_outside m (by omega)

theorem read_setPrev_apart (h : q + 0x20 ≤ p ∨ p + 0x20 ≤ q) :
    read (setPrev m p v) q = read m q :=
  read_congr fun _ _ _ => setPrev_outside m (by omega)

theorem read_setNext_apart (h : q + 0x20 ≤ p ∨ p + 0x20 ≤ q) :
    read (setNext m p v) q = read m q :=
  read_congr fun _ _ _ => setNext_outside m (by omega)

end HeapNode

/-- The status field of a block. -/
def blockStatus (b : Block) : Nat := if b.free then FREE else USED

theorem blockStatus_free_iff (b : Block) : blockStatus b = FREE ↔ b.free = true := by
  cases h : b.free <;> simp [blockStatus, h]

/-- The address of the first block of a list laid out from `a`, or `next`
when the list is empty. -/
def enter (a next : Nat) : List Block → Nat
  | [] => next
  | _ :: _ => a

/-- The address of the last block of a list laid out from `a`, or `prev`. -/
def leave (prev a : Nat) : List Block → Nat
  | [] => prev
  | b :: rest => leave a (a + 0x20 + b.size) rest

/-- The nodes of the blocks stand one behind the other from `a` on; `prev` and
`next` are the links out of the list. -/
def Segment (m : ByteMemory) (next : Nat) : Nat → Nat → List Block → Prop
  | _, _, [] => True
  | prev, a, b :: rest =>
      read m a =
        ⟨b.size, blockStatus b, prev, enter (a + 0x20 + b.size) next rest⟩ ∧
      Segment m next a (a + 0x20 + b.size) rest

theorem enter_cons (a next : Nat) (b : Block) (rest : List Block) :
    enter a next (b :: rest) = a := rfl

theorem enter_append (a next : Nat) (xs ys : List Block) :
    enter a next (xs ++ ys) = enter a (enter (a + extent 0x20 xs) next ys) xs := by
  cases xs <;> simp [enter, extent]

theorem segment_append (m : ByteMemory) (next prev a : Nat) (xs ys : List Block) :
    Segment m next prev a (xs ++ ys) ↔
      Segment m (enter (a + extent 0x20 xs) next ys) prev a xs ∧
        Segment m next (leave prev a xs) (a + extent 0x20 xs) ys := by
  induction xs generalizing prev a with
  | nil => simp [Segment, leave, extent]
  | cons b rest ih =>
      have hend : a + extent 0x20 (b :: rest) =
          a + 0x20 + b.size + extent 0x20 rest := by
        simp only [extent]
        omega
      simp only [List.cons_append, Segment, leave, ih, enter_append, hend, and_assoc]

theorem leave_append (prev a : Nat) (xs : List Block) (b : Block) :
    leave prev a (xs ++ [b]) = a + extent 0x20 xs := by
  induction xs generalizing prev a with
  | nil => simp [leave, extent]
  | cons c rest ih =>
      simp only [List.cons_append, leave, ih, extent]
      omega

theorem Segment.congr {m m' : ByteMemory} {next prev a : Nat} {bs : List Block}
    (hseg : Segment m next prev a bs)
    (h : ∀ x, Managed 0x20 a bs x → m' x = m x) : Segment m' next prev a bs := by
  induction bs generalizing prev a with
  | nil => trivial
  | cons b rest ih =>
      refine ⟨?_, ih hseg.2 fun x hx => h x (Or.inr hx)⟩
      rw [← hseg.1]
      exact read_congr fun x hle hlt => h x (Or.inl ⟨hle, by split <;> omega⟩)

theorem Segment.congr_range {m m' : ByteMemory} {next prev a : Nat} {bs : List Block}
    (hseg : Segment m next prev a bs)
    (h : ∀ x, a ≤ x → x < a + extent 0x20 bs → m' x = m x) :
    Segment m' next prev a bs :=
  hseg.congr fun x hx => h x hx.bounds.1 hx.bounds.2

/-- The blocks from one block on are replaced by other blocks at the same place. -/
theorem Segment.replace {m m' : ByteMemory} {prev a : Nat} {pre xs ys : List Block}
    (hseg : Segment m 0 prev a (pre ++ xs)) (hxs : xs ≠ []) (hys : ys ≠ [])
    (hnew : Segment m' 0 (leave prev a pre) (a + extent 0x20 pre) ys)
    (hframe : ∀ x, x < a + extent 0x20 pre → m' x = m x) :
    Segment m' 0 prev a (pre ++ ys) := by
  have hentry : enter (a + extent 0x20 pre) 0 ys = enter (a + extent 0x20 pre) 0 xs := by
    cases xs with
    | nil => exact absurd rfl hxs
    | cons _ _ =>
        cases ys with
        | nil => exact absurd rfl hys
        | cons _ _ => rfl
  refine (segment_append m' 0 prev a pre ys).mpr ⟨?_, hnew⟩
  rw [hentry]
  exact ((segment_append m 0 prev a pre xs).mp hseg).1.congr_range fun x _ hlt => hframe x hlt

/-- A list keeps its layout when the link before its first node is renewed. -/
theorem Segment.relink {m m' : ByteMemory} {next prev prev' a : Nat} {bs : List Block}
    (hseg : Segment m next prev a bs)
    (hhead : bs ≠ [] → read m' a = { read m a with prev := prev' })
    (hrest : ∀ x, a + 0x20 ≤ x → x < a + extent 0x20 bs → m' x = m x) :
    Segment m' next prev' a bs := by
  cases bs with
  | nil => trivial
  | cons b rest =>
      refine ⟨by rw [hhead (by simp), hseg.1], hseg.2.congr_range fun x hle hlt => ?_⟩
      exact hrest x (by omega) (by simp only [extent]; omega)

namespace Allocator

/-- What `split` leaves in the two nodes and in the node behind them. -/
theorem read_split {m : ByteMemory} {a n s st pv nx : Nat} (hread : read m a = ⟨s, st, pv, nx⟩)
    (hfit : n + 0x40 ≤ s) (hend : a + 0x20 + s < 0x10000000000000000)
    (hnx : nx = 0 ∨ a + 0x20 + s ≤ nx ∧ nx < 0x10000000000000000) :
    read (split m a n) a = ⟨n, USED, pv, a + 0x20 + n⟩ ∧
      read (split m a n) (a + 0x20 + n) = ⟨s - n - 0x20, FREE, a, nx⟩ ∧
      (nx ≠ 0 → read (split m a n) nx = { read m nx with prev := a + 0x20 + n }) ∧
      ∀ x, x < a ∨ a + 0x20 ≤ x → x < a + 0x20 + n ∨ a + 0x20 + n + 0x20 ≤ x →
        nx = 0 ∨ x < nx ∨ nx + 0x20 ≤ x → split m a n x = m x := by
  have hnew : add64 (add64 a n) 0x20 = a + 0x20 + n := by
    simp (disch := omega) only [add64_eq]
    omega
  have hsize : sub64 (sub64 s n) 0x20 = s - n - 0x20 := by
    simp (disch := omega) only [sub64_eq]
  rcases hnx with rfl | ⟨hle, hlt⟩
  · simp (disch := omega) only [split, hnew, hread, hsize, NULL, USED, FREE, ne_eq,
      not_true_eq_false, ite_false, read_setSize, read_setStatus, read_setPrev, read_setNext,
      read_setSize_apart, read_setStatus_apart, read_setPrev_apart, read_setNext_apart]
    refine ⟨trivial, trivial, False.elim, fun x hx hnode _ => ?_⟩
    simp (disch := omega) only [setSize_outside, setStatus_outside, setPrev_outside,
      setNext_outside]
  · have hne : nx ≠ 0 := by omega
    simp (disch := omega) only [split, hnew, hread, hsize, NULL, USED, FREE, ne_eq, hne,
      not_false_eq_true, ite_true, read_setSize, read_setStatus, read_setPrev, read_setNext,
      read_setSize_apart, read_setStatus_apart, read_setPrev_apart, read_setNext_apart]
    refine ⟨trivial, trivial, fun _ => trivial, fun x hx hnode hx' => ?_⟩
    have hbehind : x < nx ∨ nx + 0x20 ≤ x := hx'.resolve_left id
    simp (disch := omega) only [setSize_outside, setStatus_outside, setPrev_outside,
      setNext_outside]

theorem enter_cases (a : Nat) (rest : List Block) :
    (rest = [] ∧ enter a 0 rest = 0) ∨ (rest ≠ [] ∧ enter a 0 rest = a) := by
  cases rest with
  | nil => exact Or.inl ⟨rfl, rfl⟩
  | cons b rest => exact Or.inr ⟨by simp, rfl⟩

/-- The exact fit: the free block at the head of the list is taken. -/
theorem segment_take {m : ByteMemory} {next prev a : Nat} {b : Block} {rest : List Block}
    (hseg : Segment m next prev a (b :: rest)) :
    Segment (setStatus m a USED) next prev a (⟨b.size, false⟩ :: rest) := by
  refine ⟨?_, hseg.2.congr_range fun x hx _ => setStatus_outside m (by omega)⟩
  rw [read_setStatus m (by decide), hseg.1]
  rfl

/-- The free block at the head of the list is split. -/
theorem segment_split {m : ByteMemory} {prev a n : Nat} {b : Block} {rest : List Block}
    (hseg : Segment m 0 prev a (b :: rest)) (ha : 0 < a) (hfit : n + 0x40 ≤ b.size)
    (hend : a + extent 0x20 (b :: rest) < 0x10000000000000000) :
    Segment (split m a n) 0 prev a (⟨n, false⟩ :: ⟨b.size - n - 0x20, true⟩ :: rest) ∧
      ∀ x, ¬Header 0x20 a (⟨n, false⟩ :: ⟨b.size - n - 0x20, true⟩ :: rest) x →
        split m a n x = m x := by
  simp only [extent] at hend
  have hnx := enter_cases (a + 0x20 + b.size) rest
  obtain ⟨hnode, hnew, hbehind, hframe⟩ :=
    read_split hseg.1 hfit (by omega) (by rcases hnx with ⟨-, h⟩ | ⟨-, h⟩ <;> omega)
  have hsame : a + 0x20 + n + 0x20 + (b.size - n - 0x20) = a + 0x20 + b.size := by omega
  refine ⟨⟨?_, ?_, ?_⟩, fun x hx => ?_⟩
  · rw [hnode]
    rfl
  · rw [hnew]
    simp only [blockStatus, hsame, ite_true]
  · rw [hsame]
    refine hseg.2.relink (fun hrest => ?_) fun x hle hlt =>
      hframe x (Or.inr (by omega)) (Or.inr (by omega)) ?_
    · rcases hnx with ⟨h, -⟩ | ⟨-, h⟩
      · exact absurd h hrest
      · rw [h] at hbehind
        exact hbehind (by omega)
    · rcases hnx with ⟨-, h⟩ | ⟨-, h⟩ <;> omega
  · simp only [Header, hsame] at hx
    refine hframe x (by omega) (by omega) ?_
    cases rest with
    | nil => exact Or.inl rfl
    | cons c rest =>
        simp only [Header] at hx
        simp only [enter]
        omega

/-- The two tests of the loop of `alloc`, whose sums may wrap. -/
def Accepts (n : Nat) (b : Block) : Prop :=
  b.free = true ∧ (b.size = n ∨ add64 (add64 n sizeofHeapNode) 0x20 ≤ b.size)

/-- The loop comes back with NULL from a list of blocks that it refuses, and stores nothing. -/
theorem allocLoop_refused {m : ByteMemory} {n prev a fuel : Nat} {bs : List Block}
    (hseg : Segment m 0 prev a bs) (ha : 0 < a) (hfuel : bs.length < fuel)
    (hall : ∀ b ∈ bs, ¬Accepts n b) : allocLoop n fuel m (enter a 0 bs) = some (m, NULL) := by
  induction bs generalizing prev a fuel with
  | nil =>
      obtain ⟨k, rfl⟩ := Nat.exists_eq_add_of_lt hfuel
      simp [allocLoop, enter]
  | cons b rest ih =>
      obtain ⟨k, rfl⟩ : ∃ k, fuel = k + 1 := ⟨fuel - 1, by omega⟩
      obtain ⟨hb, hall⟩ := List.forall_mem_cons.mp hall
      have hexact : ¬(b.size = n ∧ b.free = true) := fun h => hb ⟨h.2, Or.inl h.1⟩
      have hsplit : ¬(add64 (add64 n sizeofHeapNode) 0x20 ≤ b.size ∧ b.free = true) :=
        fun h => hb ⟨h.2, Or.inr h.1⟩
      have hrest := ih hseg.2 (by omega) (show rest.length < k by simpa using hfuel) hall
      simp only [allocLoop, enter_cons, NULL, hseg.1, blockStatus_free_iff, ge_iff_le,
        if_neg hexact, if_neg hsplit, if_neg (Nat.ne_of_gt ha), hrest]

/-- The loop comes back with a block from a list that has one it accepts. -/
theorem allocLoop_accepted {m : ByteMemory} {n prev a fuel : Nat} {bs : List Block}
    (hseg : Segment m 0 prev a bs) (ha : 0 < a)
    (hend : a + extent 0x20 bs < 0x10000000000000000) (hfuel : bs.length < fuel)
    (hsome : ∃ b ∈ bs, Accepts n b) :
    ∃ m' p, allocLoop n fuel m (enter a 0 bs) = some (m', p) ∧ p ≠ NULL := by
  induction bs generalizing prev a fuel with
  | nil => simp at hsome
  | cons b rest ih =>
      obtain ⟨k, rfl⟩ : ∃ k, fuel = k + 1 := ⟨fuel - 1, by omega⟩
      have hbound := hend
      simp only [extent] at hbound
      have hpayload : add64 a sizeofHeapNode ≠ NULL := by
        rw [add64_eq (by simp only [sizeofHeapNode]; omega), NULL]
        omega
      simp only [allocLoop, enter_cons, NULL, hseg.1, blockStatus_free_iff, ge_iff_le,
        if_neg (Nat.ne_of_gt ha)]
      by_cases hexact : b.size = n ∧ b.free = true
      · exact ⟨_, _, if_pos hexact, hpayload⟩
      · rw [if_neg hexact]
        by_cases hsplit : add64 (add64 n sizeofHeapNode) 0x20 ≤ b.size ∧ b.free = true
        · exact ⟨_, _, if_pos hsplit, hpayload⟩
        · rw [if_neg hsplit]
          refine ih hseg.2 (by omega) (by omega) (show rest.length < k by simpa using hfuel) ?_
          obtain ⟨c, hc, haccepts⟩ := hsome
          rcases List.mem_cons.mp hc with rfl | hc
          · rcases haccepts with ⟨hfree, hsize | hsize⟩
            · exact absurd ⟨hsize, hfree⟩ hexact
            · exact absurd ⟨hsize, hfree⟩ hsplit
          · exact ⟨c, hc, haccepts⟩

/-- No block of the list fits: the loop comes back with NULL and stores nothing. -/
theorem allocLoop_none {m : ByteMemory} {n prev a fuel : Nat} {bs : List Block}
    (hseg : Segment m 0 prev a bs) (ha : 0 < a) (hn : n + 0x40 < 0x10000000000000000)
    (hfuel : bs.length < fuel) (hfit : firstFit 0x20 0x20 n bs = none) :
    allocLoop n fuel m (enter a 0 bs) = some (m, NULL) := by
  have hsum : add64 (add64 n 0x20) 0x20 = n + 0x20 + 0x20 := by
    simp (disch := omega) only [add64_eq]
  refine allocLoop_refused hseg ha hfuel fun b hb haccepts => ?_
  rw [Accepts, hsum] at haccepts
  exact firstFit_eq_none_iff.mp hfit b hb haccepts

/-- The loop hands out the first block that fits. -/
theorem allocLoop_some {m : ByteMemory} {n prev a fuel o : Nat} {bs bs' : List Block}
    (hseg : Segment m 0 prev a bs) (ha : 0 < a) (hn : n + 0x40 < 0x10000000000000000)
    (hend : a + extent 0x20 bs < 0x10000000000000000) (hfuel : bs.length < fuel)
    (hfit : firstFit 0x20 0x20 n bs = some (o, bs')) :
    ∃ m', allocLoop n fuel m (enter a 0 bs) = some (m', a + o + 0x20) ∧
      Segment m' 0 prev a bs' ∧ ∀ x, ¬Header 0x20 a bs' x → m' x = m x := by
  induction bs generalizing prev a fuel o bs' with
  | nil => simp [firstFit] at hfit
  | cons b rest ih =>
      obtain ⟨k, rfl⟩ : ∃ k, fuel = k + 1 := ⟨fuel - 1, by omega⟩
      have hsum : add64 (add64 n 0x20) 0x20 = n + 0x20 + 0x20 := by
        simp (disch := omega) only [add64_eq]
      have hbound := hend
      simp only [extent] at hbound
      have hpayload : add64 a 0x20 = a + 0 + 0x20 := add64_eq (by omega)
      simp only [firstFit] at hfit
      split at hfit
      · rename_i hexact
        cases hfit
        refine ⟨setStatus m a USED, ?_, ?_, fun x hx => setStatus_outside m ?_⟩
        · simp only [allocLoop, enter_cons, NULL, hseg.1, blockStatus_free_iff, if_pos hexact,
            if_neg (Nat.ne_of_gt ha), hpayload]
        · rw [← hexact.1]
          exact segment_take hseg
        · simp only [Header] at hx
          omega
      · rename_i hexact
        split at hfit
        · rename_i hsplit
          cases hfit
          obtain ⟨hnew, hframe⟩ := segment_split hseg ha (n := n) (by omega) hend
          refine ⟨split m a n, ?_, hnew, hframe⟩
          simp only [allocLoop, enter_cons, NULL, hseg.1, hsum, blockStatus_free_iff, ge_iff_le,
            if_neg hexact, if_pos hsplit, if_neg (Nat.ne_of_gt ha), hpayload]
        · rename_i hsplit
          obtain ⟨⟨o', rest'⟩, hrest, heq⟩ := Option.map_eq_some_iff.mp hfit
          cases heq
          obtain ⟨m', hloop, hseg', hframe⟩ := ih hseg.2 (by omega) (by omega)
            (show rest.length < k by simpa using hfuel) hrest
          refine ⟨m', ?_, ⟨?_, hseg'⟩, fun x hx => hframe x fun h => hx (Or.inr h)⟩
          · simp only [allocLoop, enter_cons, NULL, hseg.1, hsum, blockStatus_free_iff, ge_iff_le,
              if_neg hexact, if_neg hsplit, if_neg (Nat.ne_of_gt ha), hloop,
              Option.some.injEq, Prod.mk.injEq, true_and]
            omega
          · have hbefore : read m' a = read m a :=
              read_congr fun x _ hlt => hframe x fun h => by
                have := h.managed.bounds
                omega
            have hentry : enter (a + 0x20 + b.size) 0 rest' =
                enter (a + 0x20 + b.size) 0 rest := by
              obtain ⟨pre, c, post, rfl, -, -, hnew⟩ := firstFit_cases hrest
              rcases hnew with ⟨-, rfl⟩ | ⟨-, rfl⟩ <;> cases pre <;> rfl
            rw [hbefore, hseg.1, hentry]

/-- The node at `a` has joined with the one behind it: it has size `s` now and
is followed by the node at `nx`. -/
structure Absorbed (m m' : ByteMemory) (a s nx : Nat) : Prop where
  node : read m' a = { read m a with size := s, next := nx }
  behind : nx ≠ 0 → read m' nx = { read m nx with prev := a }
  frame : ∀ x, x < a ∨ a + 0x20 ≤ x → nx = 0 ∨ x < nx ∨ nx + 0x20 ≤ x → m' x = m x

theorem mergePrev_absorbed {m : ByteMemory} {a node nx s t : Nat}
    (hs : (read m a).size = s) (ht : (read m node).size = t)
    (hsum : s + t + 0x20 < 0x10000000000000000)
    (hnx : nx = 0 ∨ a + 0x20 ≤ nx ∧ nx < 0x10000000000000000)
    (ha : a < 0x10000000000000000) :
    Absorbed m (mergePrev m a node nx) a (s + 0x20 + t) nx := by
  have hsize : add64 (add64 s t) 0x20 = s + 0x20 + t := by
    simp (disch := omega) only [add64_eq]
    omega
  rcases hnx with rfl | ⟨hle, hlt⟩
  · constructor
    · simp (disch := omega) only [mergePrev, hs, ht, hsize, NULL, ne_eq, not_true_eq_false,
        ite_false, read_setNext, read_setSize]
    · exact fun h => absurd rfl h
    · intro x hx _
      simp (disch := omega) only [mergePrev, NULL, ne_eq, not_true_eq_false, ite_false,
        setSize_outside, setNext_outside]
  · have hne : nx ≠ 0 := by omega
    constructor
    · simp (disch := omega) only [mergePrev, hs, ht, hsize, NULL, ne_eq, hne, not_false_eq_true,
        ite_true, read_setNext, read_setSize, read_setPrev_apart]
    · intro _
      simp (disch := omega) only [mergePrev, NULL, ne_eq, hne, not_false_eq_true, ite_true,
        read_setPrev, read_setNext_apart, read_setSize_apart]
    · intro x hx hx'
      have hbehind : x < nx ∨ nx + 0x20 ≤ x := hx'.resolve_left hne
      simp (disch := omega) only [mergePrev, NULL, ne_eq, hne, not_false_eq_true, ite_true,
        setSize_outside, setNext_outside, setPrev_outside]

theorem mergeNext_absorbed {m : ByteMemory} {a next nx s t : Nat}
    (hs : (read m a).size = s) (ht : (read m next).size = t) (hn : (read m next).next = nx)
    (hsum : s + t + 0x20 < 0x10000000000000000) (hnext : a + 0x20 ≤ next)
    (hnx : nx = 0 ∨ a + 0x20 ≤ nx ∧ nx < 0x10000000000000000)
    (ha : a < 0x10000000000000000) :
    Absorbed m (mergeNext m a next) a (s + 0x20 + t) nx := by
  have hsize : add64 (add64 t s) 0x20 = s + 0x20 + t := by
    simp (disch := omega) only [add64_eq]
    omega
  rcases hnx with rfl | ⟨hle, hlt⟩
  · constructor
    · simp (disch := omega) only [mergeNext, hs, ht, hn, hsize, NULL, ne_eq, not_true_eq_false,
        ite_false, read_setNext, read_setSize, read_setSize_apart]
    · exact fun h => absurd rfl h
    · intro x hx _
      simp (disch := omega) only [mergeNext, hn, NULL, ne_eq, not_true_eq_false, ite_false,
        read_setNext, read_setSize_apart, setSize_outside, setNext_outside]
  · have hne : nx ≠ 0 := by omega
    constructor
    · simp (disch := omega) only [mergeNext, hs, ht, hn, hsize, NULL, ne_eq, hne,
        not_false_eq_true, ite_true, read_setNext, read_setSize, read_setSize_apart,
        read_setPrev_apart]
    · intro _
      simp (disch := omega) only [mergeNext, hn, NULL, ne_eq, hne, not_false_eq_true, ite_true,
        read_setNext, read_setPrev, read_setNext_apart, read_setSize_apart]
    · intro x hx hx'
      have hbehind : x < nx ∨ nx + 0x20 ≤ x := hx'.resolve_left hne
      simp (disch := omega) only [mergeNext, hn, NULL, ne_eq, hne, not_false_eq_true, ite_true,
        read_setNext, read_setSize_apart, setSize_outside, setNext_outside, setPrev_outside]

/-- Two neighbouring blocks have become one free block. -/
theorem Absorbed.segment {m m' : ByteMemory} {prev a : Nat} {x y : Block} {post : List Block}
    (hseg : Segment m 0 prev a (x :: y :: post)) (hx : x.free = true)
    (ha : 0 < a)
    (h : Absorbed m m' a (x.size + 0x20 + y.size)
      (enter (a + 0x20 + x.size + 0x20 + y.size) 0 post)) :
    Segment m' 0 prev a (⟨x.size + 0x20 + y.size, true⟩ :: post) ∧
      ∀ z, ¬Header 0x20 a (x :: y :: post) z → m' z = m z := by
  have hnx := enter_cases (a + 0x20 + x.size + 0x20 + y.size) post
  have hsame : a + 0x20 + (x.size + 0x20 + y.size) = a + 0x20 + x.size + 0x20 + y.size := by
    omega
  refine ⟨⟨?_, ?_⟩, fun z hz => h.frame z ?_ ?_⟩
  · simp only [h.node, hseg.1, hsame, blockStatus, hx]
  · rw [hsame]
    refine hseg.2.2.relink (fun hpost => ?_) fun z hle hlt => h.frame z (Or.inr (by omega)) ?_
    · have hbehind := h.behind
      rcases hnx with ⟨hnil, -⟩ | ⟨-, hhead⟩
      · exact absurd hnil hpost
      · rw [hhead] at hbehind
        exact hbehind (by omega)
    · rcases hnx with ⟨-, hhead⟩ | ⟨-, hhead⟩ <;> omega
  · simp only [Header] at hz
    omega
  · cases post with
    | nil => exact Or.inl rfl
    | cons c rest =>
        simp only [Header] at hz
        simp only [enter_cons]
        omega

/-- The first join of `free`: the marked block goes into a free block before it. -/
theorem joinPrev_segment {m : ByteMemory} {addr s : Nat} {pre post : List Block}
    (hseg : Segment m 0 0 addr (pre ++ ⟨s, true⟩ :: post)) (hpos : 0 < addr)
    (hend : addr + extent 0x20 (pre ++ ⟨s, true⟩ :: post) < 0x10000000000000000) :
    ∃ m', joinPrev m (leave 0 addr pre) (addr + extent 0x20 pre)
          (enter (addr + extent 0x20 pre + 0x20 + s) 0 post) =
        (m', addr + extent 0x20 (mergeBack 0x20 pre s).1) ∧
      Segment m' 0 0 addr
        ((mergeBack 0x20 pre s).1 ++ ⟨(mergeBack 0x20 pre s).2, true⟩ :: post) ∧
      ∀ z, ¬Header 0x20 addr (pre ++ ⟨s, true⟩ :: post) z → m' z = m z := by
  rcases mergeBack_cases (h := 0x20) pre s with ⟨init, c, rfl, hc, hback⟩ | ⟨hlast, hback⟩
  · rw [List.append_assoc, List.singleton_append] at hseg hend ⊢
    have htail := ((segment_append m 0 0 addr init _).mp hseg).2
    have hplace : addr + extent 0x20 (init ++ [c]) = addr + extent 0x20 init + 0x20 + c.size := by
      simp only [extent_append, extent]
      omega
    simp only [extent_append, extent] at hend
    have hcond : leave 0 addr (init ++ [c]) ≠ NULL ∧
        (read m (leave 0 addr (init ++ [c]))).status = FREE := by
      rw [leave_append, htail.1]
      exact ⟨by simp only [NULL]; omega, (blockStatus_free_iff c).mpr hc⟩
    have hnx := enter_cases (addr + extent 0x20 init + 0x20 + c.size + 0x20 + s) post
    rw [joinPrev, if_pos hcond, leave_append, hplace, hback]
    have habs : Absorbed m
        (mergePrev m (addr + extent 0x20 init) (addr + extent 0x20 init + 0x20 + c.size)
          (enter (addr + extent 0x20 init + 0x20 + c.size + 0x20 + s) 0 post))
        (addr + extent 0x20 init) (c.size + 0x20 + s)
        (enter (addr + extent 0x20 init + 0x20 + c.size + 0x20 + s) 0 post) :=
      mergePrev_absorbed (by rw [htail.1]) (by rw [htail.2.1]) (by omega)
        (by rcases hnx with ⟨-, h⟩ | ⟨-, h⟩ <;> omega) (by omega)
    obtain ⟨hseg', hframe⟩ := habs.segment htail hc (by omega)
    refine ⟨_, rfl, hseg.replace (by simp) (by simp) hseg' fun x hx => hframe x fun h => ?_,
      fun z hz => hframe z fun h => hz ((header_append addr z init _).mpr (Or.inr h))⟩
    have := h.managed.bounds
    omega
  · refine ⟨m, ?_, by rw [hback]; exact hseg, fun _ _ => rfl⟩
    have hnot : ¬(leave 0 addr pre ≠ NULL ∧ (read m (leave 0 addr pre)).status = FREE) := by
      rintro ⟨hne, hfree⟩
      rcases List.eq_nil_or_concat pre with rfl | ⟨init, c, hpre⟩
      · exact hne rfl
      · rw [List.concat_eq_append] at hpre
        subst hpre
        rw [List.append_assoc, List.singleton_append] at hseg
        rw [leave_append, ((segment_append m 0 0 addr init _).mp hseg).2.1,
          blockStatus_free_iff, hlast c (by simp)] at hfree
        cases hfree
    rw [joinPrev, if_neg hnot, hback]

/-- The second join of `free`: a free block behind goes into the freed block. -/
theorem joinNext_segment {m : ByteMemory} {addr s : Nat} {pre post : List Block}
    (hseg : Segment m 0 0 addr (pre ++ ⟨s, true⟩ :: post)) (hpos : 0 < addr)
    (hend : addr + extent 0x20 (pre ++ ⟨s, true⟩ :: post) < 0x10000000000000000) :
    Segment (joinNext m (addr + extent 0x20 pre) (enter (addr + extent 0x20 pre + 0x20 + s) 0 post))
        0 0 addr (pre ++ mergeFront 0x20 s post) ∧
      ∀ z, ¬Header 0x20 addr (pre ++ ⟨s, true⟩ :: post) z →
        joinNext m (addr + extent 0x20 pre) (enter (addr + extent 0x20 pre + 0x20 + s) 0 post) z =
          m z := by
  cases post with
  | nil => exact ⟨hseg, fun _ _ => rfl⟩
  | cons c rest =>
      have htail := ((segment_append m 0 0 addr pre _).mp hseg).2
      simp only [extent_append, extent] at hend
      rw [enter_cons]
      cases hc : c.free with
      | false =>
          have hnot : ¬(addr + extent 0x20 pre + 0x20 + s ≠ NULL ∧
              (read m (addr + extent 0x20 pre + 0x20 + s)).status = FREE) := by
            rw [htail.2.1, blockStatus_free_iff, hc]
            simp
          simp only [joinNext, if_neg hnot, mergeFront, hc, Bool.false_eq_true, ite_false]
          exact ⟨hseg, fun _ _ => trivial⟩
      | true =>
          have hcond : addr + extent 0x20 pre + 0x20 + s ≠ NULL ∧
              (read m (addr + extent 0x20 pre + 0x20 + s)).status = FREE := by
            rw [htail.2.1, blockStatus_free_iff, hc]
            exact ⟨by simp only [NULL]; omega, rfl⟩
          have hnx := enter_cases (addr + extent 0x20 pre + 0x20 + s + 0x20 + c.size) rest
          have habs : Absorbed m
              (mergeNext m (addr + extent 0x20 pre) (addr + extent 0x20 pre + 0x20 + s))
              (addr + extent 0x20 pre) (s + 0x20 + c.size)
              (enter (addr + extent 0x20 pre + 0x20 + s + 0x20 + c.size) 0 rest) :=
            mergeNext_absorbed (by rw [htail.1]) (by rw [htail.2.1]) (by rw [htail.2.1])
              (by omega) (by omega) (by rcases hnx with ⟨-, h⟩ | ⟨-, h⟩ <;> omega) (by omega)
          obtain ⟨hseg', hframe⟩ := habs.segment htail rfl (by omega)
          simp only [joinNext, if_pos hcond, mergeFront, hc, ite_true]
          refine ⟨hseg.replace (by simp) (by simp) hseg' fun x hx => hframe x fun h => ?_,
            fun z hz => hframe z fun h => hz ((header_append addr z pre _).mpr (Or.inr h))⟩
          have := h.managed.bounds
          omega

/-- Marking a block as free is one store into its node. -/
theorem segment_mark {m : ByteMemory} {addr : Nat} {pre post : List Block} {b : Block}
    (hseg : Segment m 0 0 addr (pre ++ b :: post)) :
    Segment (setStatus m (addr + extent 0x20 pre) FREE) 0 0 addr
      (pre ++ ⟨b.size, true⟩ :: post) := by
  have htail := ((segment_append m 0 0 addr pre _).mp hseg).2
  refine hseg.replace (by simp) (by simp) ⟨?_, ?_⟩ fun x hx => setStatus_outside m (by omega)
  · rw [read_setStatus m (by decide), htail.1]
    rfl
  · exact htail.2.congr_range fun x hx _ => setStatus_outside m (by omega)

/-- `free` of a used block marks it and then joins it on both sides. -/
theorem free_eq {al : Allocator} {m : ByteMemory} {pre post : List Block} {b : Block}
    (hseg : Segment m 0 0 al.addr (pre ++ b :: post)) (hpos : 0 < al.addr)
    (hb : b.free = false) (hsize : 0 < b.size)
    (hextent : extent 0x20 (pre ++ b :: post) = al.size)
    (hend : al.addr + al.size < 0x10000000000000000) :
    al.free m (al.addr + extent 0x20 pre + 0x20) =
      joinNext
        (joinPrev (setStatus m (al.addr + extent 0x20 pre) FREE) (leave 0 al.addr pre)
          (al.addr + extent 0x20 pre) (enter (al.addr + extent 0x20 pre + 0x20 + b.size) 0 post)).1
        (joinPrev (setStatus m (al.addr + extent 0x20 pre) FREE) (leave 0 al.addr pre)
          (al.addr + extent 0x20 pre) (enter (al.addr + extent 0x20 pre + 0x20 + b.size) 0 post)).2
        (enter (al.addr + extent 0x20 pre + 0x20 + b.size) 0 post) := by
  have htail := ((segment_append m 0 0 al.addr pre _).mp hseg).2
  simp only [extent_append, extent] at hextent
  have hnode : sub64 (al.addr + extent 0x20 pre + 0x20) 0x20 = al.addr + extent 0x20 pre := by
    rw [sub64_eq (by omega) (by omega)]
    omega
  have hguard : ¬(al.addr + extent 0x20 pre + 0x20 < al.addr ∨
      al.addr + extent 0x20 pre + 0x20 ≥ add64 al.addr al.size) := by
    rw [add64_eq hend]
    omega
  have hused : ¬blockStatus b = FREE := by
    rw [blockStatus_free_iff, hb]
    simp
  have hne : ¬al.addr + extent 0x20 pre + 0x20 = NULL := by
    simp only [NULL]
    omega
  simp only [free, if_neg hne, if_neg hguard, hnode, htail.1, if_neg hused,
    read_setStatus m (show FREE < 0x100000000 by decide)]

/-- Freeing a used block releases it in the list, and only headers are written. -/
theorem free_segment {al : Allocator} {m : ByteMemory} {pre post : List Block} {b : Block}
    (hseg : Segment m 0 0 al.addr (pre ++ b :: post)) (hpos : 0 < al.addr)
    (hb : b.free = false) (hsize : 0 < b.size)
    (hextent : extent 0x20 (pre ++ b :: post) = al.size)
    (hend : al.addr + al.size < 0x10000000000000000) :
    Segment (al.free m (al.addr + extent 0x20 pre + 0x20)) 0 0 al.addr
        (release 0x20 pre b.size post) ∧
      ∀ z, ¬Header 0x20 al.addr (pre ++ b :: post) z →
        al.free m (al.addr + extent 0x20 pre + 0x20) z = m z := by
  rw [free_eq hseg hpos hb hsize hextent hend]
  have hmarked := segment_mark hseg
  simp only [extent_append, extent] at hextent
  have hlength : al.addr + extent 0x20 (pre ++ ⟨b.size, true⟩ :: post) < 0x10000000000000000 := by
    simp only [extent_append, extent]
    omega
  obtain ⟨m', hjoin, hseg', hframe'⟩ := joinPrev_segment hmarked hpos hlength
  have hplace := extent_mergeBack (h := 0x20) pre b.size
  have hplace' : al.addr + extent 0x20 pre + 0x20 + b.size =
      al.addr + extent 0x20 (mergeBack 0x20 pre b.size).1 + 0x20 +
        (mergeBack 0x20 pre b.size).2 := by omega
  obtain ⟨hseg'', hframe''⟩ := joinNext_segment hseg' hpos (by
    simp only [extent_append, extent]
    omega)
  rw [hjoin, hplace']
  refine ⟨hseg'', fun z hz => ?_⟩
  have hmark : Header 0x20 al.addr (pre ++ ⟨b.size, true⟩ :: post) z ↔
      Header 0x20 al.addr (pre ++ b :: post) z := by
    simp only [header_append, Header]
  rw [hframe'' z fun h => hz (hmark.mp (header_mergeBack h)),
    hframe' z fun h => hz (hmark.mp h)]
  refine setStatus_outside m ?_
  simp only [header_append, Header] at hz
  omega

end Allocator

end BayosKernel
