import BayosKernel.Foundation.BlockList
import BayosKernel.Foundation.ByteMemory
import BayosKernel.Foundation.Machine
import BayosKernel.Process

/-!
The kernel heap of `alloc.c` over byte memory.

Every block starts with a `heap_node`: size at 0, status at 8, prev at 16 and
next at 24, 32 bytes in all. The loop of `alloc` runs on fuel; `none` stands
for a loop that has not ended. The messages of `printk` are left out.
-/

namespace BayosKernel

open Foundation

/-- `heap_node_status`; memory may hold any other value as well. -/
abbrev USED : Nat := 0

abbrev FREE : Nat := 1

structure HeapNode where
  size : Nat
  status : Nat
  prev : Nat
  next : Nat
  deriving DecidableEq, Repr

/-- `sizeof(heap_node)`. -/
abbrev sizeofHeapNode : Nat := 0x20

namespace HeapNode

/-- The struct at `p`. -/
def read (m : ByteMemory) (p : Nat) : HeapNode :=
  ⟨m.load 8 p, m.load 4 (p + 8), m.load 8 (p + 16), m.load 8 (p + 24)⟩

def setSize (m : ByteMemory) (p : Nat) (v : Nat) : ByteMemory := m.store 8 p v

def setStatus (m : ByteMemory) (p : Nat) (v : Nat) : ByteMemory := m.store 4 (p + 8) v

def setPrev (m : ByteMemory) (p v : Nat) : ByteMemory := m.store 8 (p + 16) v

def setNext (m : ByteMemory) (p v : Nat) : ByteMemory := m.store 8 (p + 24) v

end HeapNode

structure Allocator where
  first : Nat
  addr : Nat
  size : Nat
  deriving DecidableEq, Repr

open HeapNode

def newAllocator (m : ByteMemory) (addr size : Nat) : ByteMemory × Allocator :=
  let node := addr
  let m := setPrev m node NULL
  let m := setNext m node NULL
  let m := setStatus m node FREE
  let m := setSize m node (sub64 size sizeofHeapNode)
  (m, { first := node, addr := addr, size := size })

namespace Allocator

/-- `alloc` carves the request out of `curNode` and leaves the rest as a new
free node behind it. -/
def split (m : ByteMemory) (curNode : Nat) (size : Nat) : ByteMemory :=
  let newNode := add64 (add64 curNode size) sizeofHeapNode
  let m := setSize m newNode (sub64 (sub64 (read m curNode).size size) sizeofHeapNode)
  let m := setStatus m newNode FREE
  let m := setPrev m newNode curNode
  let m := setNext m newNode (read m curNode).next
  let m := if (read m curNode).next ≠ NULL then setPrev m (read m curNode).next newNode else m
  let m := setNext m curNode newNode
  let m := setStatus m curNode USED
  setSize m curNode size

def allocLoop (size : Nat) : Nat → ByteMemory → Nat → Option (ByteMemory × Nat)
  | 0, _, _ => none
  | fuel + 1, m, curNode =>
      if curNode = NULL then some (m, NULL)
      else if (read m curNode).size = size ∧ (read m curNode).status = FREE then
        some (setStatus m curNode USED, add64 curNode sizeofHeapNode)
      else if (read m curNode).size ≥ add64 (add64 size sizeofHeapNode) 0x20 ∧
          (read m curNode).status = FREE then
        some (split m curNode size, add64 curNode sizeofHeapNode)
      else allocLoop size fuel m (read m curNode).next

def alloc (fuel : Nat) (al : Allocator) (m : ByteMemory) (size : Nat) :
    Option (ByteMemory × Nat) :=
  let size := if size < 0x20 then 0x20 else size
  allocLoop size fuel m al.first

/-- `free` joins the freed node to the free node before it. -/
def mergePrev (m : ByteMemory) (prev node next : Nat) : ByteMemory :=
  let m := setSize m prev (add64 (add64 (read m prev).size (read m node).size) sizeofHeapNode)
  let m := setNext m prev next
  if next ≠ NULL then setPrev m next prev else m

/-- `free` joins the free node behind to the freed one. -/
def mergeNext (m : ByteMemory) (node next : Nat) : ByteMemory :=
  let m := setSize m node (add64 (add64 (read m next).size (read m node).size) sizeofHeapNode)
  let m := setNext m node (read m next).next
  if (read m node).next ≠ NULL then setPrev m (read m node).next node else m

def joinPrev (m : ByteMemory) (prev node next : Nat) : ByteMemory × Nat :=
  if prev ≠ NULL ∧ (read m prev).status = FREE then (mergePrev m prev node next, prev)
  else (m, node)

def joinNext (m : ByteMemory) (node next : Nat) : ByteMemory :=
  if next ≠ NULL ∧ (read m next).status = FREE then mergeNext m node next else m

def free (al : Allocator) (m : ByteMemory) (ptr : Nat) : ByteMemory :=
  if ptr = NULL then m
  else if ptr < al.addr ∨ ptr ≥ add64 al.addr al.size then m
  else
    let node := sub64 ptr sizeofHeapNode
    if (read m node).status = FREE then m
    else
      let m := setStatus m node FREE
      let prev := (read m node).prev
      let next := (read m node).next
      let joined := joinPrev m prev node next
      joinNext joined.1 joined.2 next

end Allocator

/-- A heap with the pointers that its clients hold and the sizes they asked for. -/
structure HeapState where
  al : Allocator
  mem : ByteMemory
  live : List (Nat × Nat)

inductive HeapAction where
  | alloc (size : Nat)
  | free (ptr : Nat)
  | store (x : Nat) (v : UInt8)
  deriving DecidableEq, Repr

namespace HeapState

/-- Clients store into the blocks they hold and anywhere outside the heap. -/
def Writable (st : HeapState) (x : Nat) : Prop :=
  (x < st.al.addr ∨ st.al.addr + st.al.size ≤ x) ∨
    ∃ g ∈ st.live, g.1 ≤ x ∧ x < g.1 + g.2

instance (st : HeapState) (x : Nat) : Decidable (st.Writable x) := by
  unfold Writable
  infer_instance

def step (fuel : Nat) (st : HeapState) : HeapAction → Option HeapState
  | .alloc size =>
      (st.al.alloc fuel st.mem size).map fun r =>
        { st with mem := r.1, live := if r.2 = NULL then st.live else (r.2, size) :: st.live }
  | .free ptr =>
      if ptr ∈ st.live.map Prod.fst then
        some { st with mem := st.al.free st.mem ptr,
                       live := st.live.eraseP fun g => g.1 == ptr }
      else none
  | .store x v =>
      if st.Writable x then some { st with mem := Function.update st.mem x v } else none

end HeapState

def heapMachine (fuel : Nat) : Machine HeapState HeapAction := ⟨HeapState.step fuel⟩

/-- A new heap in memory with any content. -/
def newHeap (m : ByteMemory) (addr size : Nat) : HeapState :=
  let r := newAllocator m addr size
  { al := r.2, mem := r.1, live := [] }

end BayosKernel
