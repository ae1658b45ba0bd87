import BayosKernel.PageRuns

/-!
The four-level page tables of `memory.c`, held in pages of the allocator and in
the same physical memory: `map_memory_page`, `walk`, `free_region` and
`allocate_region`.

`none` stands for the `cli; hlt` of `alloc_page_or_halt` and for a region loop
that has not ended. The translation cache is left out, and with it `invlpg`.
-/

namespace BayosKernel

open Foundation

/-- `pt_index`. -/
def ptIndex (va level : Nat) : Nat := (va >>> (12 + 9 * level)) &&& 0x1ff

/-- `PTE_ADDR`. -/
def pteAddr (pte : Nat) : Nat := pte &&& 0x000FFFFFFFFFF000

def entryAddr (table index : Nat) : Nat := table + 8 * index

def entry (m : ByteMemory) (table index : Nat) : Nat := m.load 8 (entryAddr table index)

def setEntry (m : ByteMemory) (table index v : Nat) : ByteMemory :=
  m.store 8 (entryAddr table index) v

namespace PageState

/-- `free_page` with the book-keeping of the pages handed out. -/
def freePage (st : PageState) (page : Nat) : PageState :=
  { st with mem := BayosKernel.freePage st.mem page st.areas,
            allocated := st.allocated.erase page }

def allocPageOrHalt (st : PageState) : Option (PageState × Nat) :=
  match allocatePage st.mem st.areas with
  | none => none
  | some (m, frame) =>
      if frame = 0 then none
      else some ({ st with mem := m, allocated := frame :: st.allocated }, frame)

/-- One of the three blocks of `map_memory_page` that make sure that a table
entry refers to a table; returns that table. -/
def ensureTable (st : PageState) (table index flags : Nat) : Option (PageState × Nat) :=
  if entry st.mem table index &&& 1 = 0 then
    st.allocPageOrHalt.map fun (st, frame) =>
      let m := st.mem.memset frame 0 0x1000
      let m := setEntry m table index (frame ||| flags)
      ({ st with mem := m }, entry m table index &&& 0xfffffffffffff000)
  else some (st, entry st.mem table index &&& 0xfffffffffffff000)

/-- The last block of `map_memory_page`. -/
def ensurePage (st : PageState) (table index flags : Nat) : Option PageState :=
  if entry st.mem table index &&& 1 = 0 then
    st.allocPageOrHalt.map fun (st, frame) =>
      { st with mem := setEntry st.mem table index (frame ||| flags) }
  else some st

def mapMemoryPage (st : PageState) (cr3 virt flags : Nat) : Option PageState :=
  let pml4Index := (virt >>> 39) &&& 0x1ff
  let pdpIndex := (virt >>> 30) &&& 0x1ff
  let pdIndex := (virt >>> 21) &&& 0x1ff
  let ptIndex := (virt >>> 12) &&& 0x1ff
  (st.ensureTable cr3 pml4Index flags).bind fun (st, pdp) =>
    (st.ensureTable pdp pdpIndex flags).bind fun (st, pd) =>
      (st.ensureTable pd pdIndex flags).bind fun (st, pt) =>
        st.ensurePage pt ptIndex flags

end PageState

/-- The loop of `walk` from the table of `level` on. -/
def walkFrom (m : ByteMemory) (va : Nat) : Nat → Nat → Option Nat
  | 0, table => some (entryAddr table (ptIndex va 0))
  | level + 1, table =>
      let e := entry m table (ptIndex va (level + 1))
      if e &&& 1 = 0 then none
      else if e &&& 0x80 ≠ 0 then none
      else walkFrom m va level (pteAddr e)

def walk (m : ByteMemory) (pml4 va : Nat) : Option Nat := walkFrom m va 3 pml4

def pageRoundDown (a : Nat) : Nat := a &&& 0xfffffffffffff000

/-- The loop `for (va = ..; va < stop; va += PAGE_SIZE)`. -/
def forPages {σ : Type} (body : Nat → σ → Option σ) (stop : Nat) : Nat → Nat → σ → Option σ
  | 0, _, _ => none
  | fuel + 1, va, s =>
      if va < stop then (body va s).bind (forPages body stop fuel (add64 va 0x1000))
      else some s

namespace PageState

/-- The body of the loop of `free_region`. -/
def freeRegionPage (pml4 va : Nat) (st : PageState) : PageState :=
  match walk st.mem pml4 va with
  | none => st
  | some pte =>
      if st.mem.load 8 pte &&& 1 = 0 then st
      else
        let physAddr := pteAddr (st.mem.load 8 pte)
        let st := st.freePage physAddr
        { st with mem := st.mem.store 8 pte 0 }

def freeRegion (fuel : Nat) (st : PageState) (pml4 start stop : Nat) : Option PageState :=
  forPages (fun va st => some (st.freeRegionPage pml4 va)) stop fuel (pageRoundDown start) st

def allocateRegion (fuel : Nat) (st : PageState) (cr3 start stop flags : Nat) :
    Option PageState :=
  forPages (fun va st => st.mapMemoryPage cr3 va flags) stop fuel (pageRoundDown start) st

/-- A store of a program to a virtual address. -/
def write (st : PageState) (cr3 va : Nat) (v : UInt8) : Option PageState :=
  match walk st.mem cr3 va with
  | none => none
  | some pte =>
      if st.mem.load 8 pte &&& 1 = 0 then none
      else
        let x := pteAddr (st.mem.load 8 pte) + va % 0x1000
        some { st with mem := Function.update st.mem x v }

end PageState

/-- The entries that the processor reads on the path of `indices` from `table`
on; it stops at one that is not present. -/
def pathFrom (m : ByteMemory) : Nat → List Nat → List Nat
  | _, [] => []
  | table, i :: rest =>
      let e := entry m table i
      e :: if e &&& 1 = 0 then [] else pathFrom m (pteAddr e) rest

def pathEntries (m : ByteMemory) (cr3 virt : Nat) : List Nat :=
  pathFrom m cr3 [ptIndex virt 3, ptIndex virt 2, ptIndex virt 1, ptIndex virt 0]

/-- Every entry on the path is present. -/
def Mapped (m : ByteMemory) (cr3 virt : Nat) : Prop :=
  ∀ e ∈ pathEntries m cr3 virt, e &&& 1 = 1

/-- The bits W and U of `flags` are among those of `rights`. -/
def Grants (rights flags : Nat) : Prop := rights &&& (flags &&& 6) = flags &&& 6

instance (rights flags : Nat) : Decidable (Grants rights flags) := by
  unfold Grants
  infer_instance

/-- The effective rights of a page: the conjunction over its path. -/
def effectiveRights (m : ByteMemory) (cr3 virt : Nat) : Nat :=
  (pathEntries m cr3 virt).foldr (fun e rights => e &&& rights) 6

/-- The calls on some address spaces that share one page allocator. -/
inductive SpaceAction where
  | map (cr3 virt flags : Nat)
  | allocateRegion (cr3 start stop flags : Nat)
  | freeRegion (cr3 start stop : Nat)
  | write (cr3 va : Nat) (v : UInt8)
  deriving DecidableEq, Repr

def spaceStep (fuel : Nat) (st : PageState) : SpaceAction → Option PageState
  | .map cr3 virt flags => st.mapMemoryPage cr3 virt flags
  | .allocateRegion cr3 start stop flags => st.allocateRegion fuel cr3 start stop flags
  | .freeRegion cr3 start stop => st.freeRegion fuel cr3 start stop
  | .write cr3 va v => st.write cr3 va v

def spaceMachine (fuel : Nat) : Machine PageState SpaceAction := ⟨spaceStep fuel⟩

end BayosKernel
