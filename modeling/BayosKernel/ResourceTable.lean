import BayosKernel.HeapPayloads

/-!
The resource table of a process, from `sched.c`, in a block of the kernel heap,
and the finite map that it stands for.

A `resource` is its type at 0 and its pointer at 8, 16 bytes in all. One call of
the process runs at a time, so no other growth falls into a growth; the retry
loop of `resource_add` runs on fuel.
-/

namespace BayosKernel

open Foundation

/-- `resource_type`; memory may hold any other value as well. -/
abbrev EMPTY : Nat := 0

abbrev PIPE : Nat := 1

abbrev FILE : Nat := 2

structure Resource where
  type : Nat
  res : Nat
  deriving DecidableEq, Repr

abbrev sizeofResource : Nat := 16

/-- `RESOURCES_INITIAL_CAP`. -/
abbrev resourcesInitialCap : Nat := 128

/-- What a call hands back: a descriptor, a pointer, or the pipe or file that a
read or a write goes to. -/
inductive TableResult where
  | fd (n : Int)
  | res (p : Nat)
  | invalid
  | pipe (p : Nat)
  | file (p : Nat)
  deriving DecidableEq, Repr

namespace Resource

def slot (table i : Nat) : Nat := table + sizeofResource * i

def read (m : ByteMemory) (p : Nat) : Resource := ⟨m.load 4 p, m.load 8 (p + 8)⟩

def write (m : ByteMemory) (p : Nat) (r : Resource) : ByteMemory :=
  (m.store 4 p r.type).store 8 (p + 8) r.res

/-- The `switch` of `resource_read` and of `resource_write`. -/
def dispatch (r : Resource) : TableResult :=
  if r.type = PIPE then .pipe r.res
  else if r.type = FILE then .file r.res
  else .invalid

/-- `for (i = 0; i < cap; i++) new_tbl[i] = old_tbl[i]`. -/
def copyTable (m : ByteMemory) (oldTbl newTbl : Nat) : Nat → ByteMemory
  | 0 => m
  | cap + 1 =>
      let m := copyTable m oldTbl newTbl cap
      write m (slot newTbl cap) (read m (slot oldTbl cap))

/-- The first slot from `i` on, of `left` slots, that reads EMPTY. -/
def findEmpty (m : ByteMemory) (table : Nat) : Nat → Nat → Option Nat
  | _, 0 => none
  | i, left + 1 =>
      if (read m (slot table i)).type = EMPTY then some i else findEmpty m table (i + 1) left

end Resource

def resourceTableAlloc (fuel : Nat) (heap : HeapState) (cap : Nat) : Option (HeapState × Nat) :=
  heap.take fuel (mul64 cap sizeofResource)

inductive TableAction where
  | add (r : Resource)
  | remove (fd : Int)
  | read (fd : Int)
  | write (fd : Int)
  | heap (a : HeapAction)
  deriving DecidableEq, Repr

/-- A process's table, in the heap, and the calls it has made, the last one first. -/
structure TableState where
  heap : HeapState
  resources : Nat
  resourcesCap : Int
  log : List (TableAction × TableResult)

namespace TableState

open Resource

/-- `proc->resources[i]`. -/
def slotAt (s : TableState) (i : Nat) : Resource := read s.heap.mem (slot s.resources i)

def setSlot (s : TableState) (i : Nat) (r : Resource) : TableState :=
  { s with heap := { s.heap with mem := write s.heap.mem (slot s.resources i) r } }

/-- `heap` is the heap after `newTbl` was allocated; the old table is copied and freed. -/
def grow (s : TableState) (heap : HeapState) (newTbl : Nat) : TableState :=
  let oldCap := sizeT s.resourcesCap
  let heap := { heap with mem := copyTable heap.mem s.resources newTbl oldCap }
  { s with heap := heap.give s.resources, resources := newTbl,
           resourcesCap := int32 (mul64 oldCap 2) }

def resourceAdd (fuel : Nat) (r : Resource) : Nat → TableState → Option (TableState × Int)
  | 0, _ => none
  | retries + 1, s =>
      match findEmpty s.heap.mem s.resources 0 (sizeT s.resourcesCap) with
      | some i => some (s.setSlot i r, int32 i)
      | none =>
          (resourceTableAlloc fuel s.heap (mul64 (sizeT s.resourcesCap) 2)).bind
            fun (heap, newTbl) =>
              if newTbl = NULL then some ({ s with heap := heap }, -1)
              else resourceAdd fuel r retries (s.grow heap newTbl)

def resourceRemove (s : TableState) (fd : Int) : TableState × Nat :=
  if 0 ≤ fd ∧ sizeT fd < sizeT s.resourcesCap then
    let ret := if (s.slotAt fd.toNat).type ≠ EMPTY then (s.slotAt fd.toNat).res else NULL
    (s.setSlot fd.toNat ⟨EMPTY, NULL⟩, ret)
  else (s, NULL)

/-- `none` where the descriptor is out of range. -/
def resourceGet (s : TableState) (fd : Int) : Option Resource :=
  if fd < 0 ∨ sizeT fd ≥ sizeT s.resourcesCap then none else some (s.slotAt fd.toNat)

def resourceRead (s : TableState) (fd : Int) : TableResult :=
  match s.resourceGet fd with
  | none => .invalid
  | some r => r.dispatch

def resourceWrite (s : TableState) (fd : Int) : TableResult :=
  match s.resourceGet fd with
  | none => .invalid
  | some r => r.dispatch

def note (s : TableState) (a : TableAction) (out : TableResult) : TableState :=
  { s with log := (a, out) :: s.log }

/-- Other clients of the heap leave the table alone. -/
def Foreign (s : TableState) : HeapAction → Prop
  | .alloc _ => True
  | .free ptr => ptr ≠ s.resources
  | .store x _ => x < s.resources ∨ s.resources + sizeofResource * sizeT s.resourcesCap ≤ x

instance (s : TableState) : DecidablePred s.Foreign
  | .alloc _ => isTrue trivial
  | .free ptr => inferInstanceAs (Decidable (ptr ≠ s.resources))
  | .store x _ => inferInstanceAs (Decidable (x < s.resources ∨ _ ≤ x))

def step (fuel retries : Nat) (s : TableState) : TableAction → Option TableState
  | .add r => (s.resourceAdd fuel r retries).map fun (s, n) => s.note (.add r) (.fd n)
  | .remove fd =>
      let (s, p) := s.resourceRemove fd
      some (s.note (.remove fd) (.res p))
  | .read fd => some (s.note (.read fd) (s.resourceRead fd))
  | .write fd => some (s.note (.write fd) (s.resourceWrite fd))
  | .heap a =>
      if s.Foreign a then (s.heap.step fuel a).map fun heap => { s with heap := heap } else none

end TableState

def tableMachine (fuel retries : Nat) : Machine TableState TableAction :=
  ⟨TableState.step fuel retries⟩

/-- The finite map from descriptors to resources. -/
abbrev Bindings := Nat → Option Resource

def Bindings.lookup (M : Bindings) (fd : Int) : Option Resource :=
  if 0 ≤ fd then M fd.toNat else none

/-- What each call does to the map, and what it hands back. -/
def MapCall (M M' : Bindings) : TableAction → TableResult → Prop
  | .add r, out => ∃ n, M n = none ∧ (∀ k < n, M k ≠ none) ∧ out = .fd n ∧
      M' = Function.update M n (some r)
  | .remove fd, out => out = .res ((M.lookup fd).elim NULL Resource.res) ∧
      M' = if 0 ≤ fd then Function.update M fd.toNat none else M
  | .read fd, out => out = (M.lookup fd).elim .invalid Resource.dispatch ∧ M' = M
  | .write fd, out => out = (M.lookup fd).elim .invalid Resource.dispatch ∧ M' = M
  | .heap _, _ => False

/-- The calls are those of a map that was empty at first and is now `M`. -/
def Explains : List (TableAction × TableResult) → Bindings → Prop
  | [], M => M = fun _ => none
  | (a, out) :: earlier, M' => ∃ M, Explains earlier M ∧ MapCall M M' a out

/-- The map that is read off the table: the slots whose type is not EMPTY. -/
def TableState.view (s : TableState) : Bindings := fun n =>
  if n < sizeT s.resourcesCap ∧ (s.slotAt n).type ≠ EMPTY then some (s.slotAt n) else none

end BayosKernel
