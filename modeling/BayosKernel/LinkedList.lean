import BayosKernel.Foundation.PointerChain
import BayosKernel.HeapPayloads

/-!
The list of `ll.c`: an `ll_t` and its nodes are blocks of the kernel heap.

Reading through NULL is `none` in `llGet`. The insertions answer `none` only
where the loop of `alloc` has not ended.
-/

namespace BayosKernel

open Foundation

/-- `sizeof(ll_t)` and `sizeof(ll_node_t)`. -/
abbrev sizeofLl : Nat := 24

abbrev sizeofLlNode : Nat := 24

namespace LlNode

def content (m : ByteMemory) (node : Nat) : Nat := m.load 8 node

def next (m : ByteMemory) (node : Nat) : Nat := m.load 8 (node + 8)

def prev (m : ByteMemory) (node : Nat) : Nat := m.load 8 (node + 16)

def setContent (m : ByteMemory) (node v : Nat) : ByteMemory := m.store 8 node v

def setNext (m : ByteMemory) (node v : Nat) : ByteMemory := m.store 8 (node + 8) v

def setPrev (m : ByteMemory) (node v : Nat) : ByteMemory := m.store 8 (node + 16) v

end LlNode

namespace Ll

def first (m : ByteMemory) (ll : Nat) : Nat := m.load 8 ll

def last (m : ByteMemory) (ll : Nat) : Nat := m.load 8 (ll + 8)

def size (m : ByteMemory) (ll : Nat) : Nat := m.load 8 (ll + 16)

def setFirst (m : ByteMemory) (ll v : Nat) : ByteMemory := m.store 8 ll v

def setLast (m : ByteMemory) (ll v : Nat) : ByteMemory := m.store 8 (ll + 8) v

def setSize (m : ByteMemory) (ll v : Nat) : ByteMemory := m.store 8 (ll + 16) v

end Ll

open LlNode Ll

def llSize (m : ByteMemory) (ll : Nat) : Nat := if ll = NULL then 0 else size m ll

/-- The loop of `ll_get` and the read behind it. -/
def llGetFrom (m : ByteMemory) : Nat → Nat → Option Nat
  | 0, node => if node = NULL then none else some (content m node)
  | i + 1, node => if node = NULL then none else llGetFrom m i (next m node)

def llGet (m : ByteMemory) (ll index : Nat) : Option Nat :=
  if ll = NULL ∨ index ≥ llSize m ll then some NULL else llGetFrom m index (first m ll)

/-- What `ll_add_back` writes for a node it was given. -/
def linkBack (m : ByteMemory) (ll content node : Nat) : ByteMemory :=
  let m := setContent m node content
  let m := setNext m node NULL
  let m := setPrev m node (last m ll)
  let m := setLast m ll node
  let m := if first m ll = NULL then setFirst m ll node else m
  setSize m ll (add64 (size m ll) 1)

/-- What `ll_add_front` writes for a node it was given. -/
def linkFront (m : ByteMemory) (ll content node : Nat) : ByteMemory :=
  let m := setContent m node content
  let m := setPrev m node NULL
  let m := setNext m node (first m ll)
  let m := setFirst m ll node
  let m := if last m ll = NULL then setLast m ll node else m
  setSize m ll (add64 (size m ll) 1)

/-- A list in a heap, with its nodes and contents from front to back. -/
structure LlState where
  heap : HeapState
  ll : Nat
  nodes : List Nat
  contents : List Nat

inductive LlAction where
  | addBack (content : Nat)
  | addFront (content : Nat)
  | heap (a : HeapAction)
  deriving DecidableEq, Repr

namespace LlState

/-- `ll_add_back`; a failed `alloc` leaves the list as it is. -/
def addBack (fuel : Nat) (s : LlState) (content : Nat) : Option LlState :=
  if s.ll = NULL then some s
  else
    (s.heap.take fuel sizeofLlNode).map fun (heap, node) =>
      if node = NULL then { s with heap := heap }
      else { s with heap := { heap with mem := linkBack heap.mem s.ll content node },
                    nodes := s.nodes ++ [node], contents := s.contents ++ [content] }

def addFront (fuel : Nat) (s : LlState) (content : Nat) : Option LlState :=
  if s.ll = NULL then some s
  else
    (s.heap.take fuel sizeofLlNode).map fun (heap, node) =>
      if node = NULL then { s with heap := heap }
      else { s with heap := { heap with mem := linkFront heap.mem s.ll content node },
                    nodes := node :: s.nodes, contents := content :: s.contents }

/-- The list and its nodes, which other clients of the heap leave alone. -/
def Holds (s : LlState) (p : Nat) : Prop := p = s.ll ∨ p ∈ s.nodes

instance (s : LlState) : DecidablePred s.Holds := fun p =>
  inferInstanceAs (Decidable (p = s.ll ∨ p ∈ s.nodes))

def Foreign (s : LlState) : HeapAction → Prop
  | .alloc _ => True
  | .free ptr => ¬s.Holds ptr
  | .store x _ => ∀ p ∈ s.ll :: s.nodes, x < p ∨ p + 24 ≤ x

instance (s : LlState) : DecidablePred s.Foreign
  | .alloc _ => isTrue trivial
  | .free ptr => inferInstanceAs (Decidable (¬s.Holds ptr))
  | .store x _ => inferInstanceAs (Decidable (∀ p ∈ s.ll :: s.nodes, x < p ∨ p + 24 ≤ x))

def step (fuel : Nat) (s : LlState) : LlAction → Option LlState
  | .addBack content => s.addBack fuel content
  | .addFront content => s.addFront fuel content
  | .heap a =>
      if s.Foreign a then (s.heap.step fuel a).map fun heap => { s with heap := heap } else none

end LlState

def llMachine (fuel : Nat) : Machine LlState LlAction := ⟨LlState.step fuel⟩

/-- The list represents its sequence. -/
structure LlState.Represents (s : LlState) : Prop where
  size : llSize s.heap.mem s.ll = s.contents.length
  get : ∀ i content, s.contents[i]? = some content → llGet s.heap.mem s.ll i = some content
  forward : Chain (next s.heap.mem) NULL (first s.heap.mem s.ll) s.nodes
  backward : Chain (prev s.heap.mem) NULL (last s.heap.mem s.ll) s.nodes.reverse

end BayosKernel
