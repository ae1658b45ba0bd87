import BayosKernel.Foundation.Bitmap
import BayosKernel.Foundation.Machine
import BayosKernel.Process

/-!
The allocator of physical pages in `memory.c`.

Memory is addressed physically: the HHDM offset is taken off the pointers in
`ba->areas`. An area lies at the start of its memory map entry, with
`first_page` at 0, `pages_count` at 8, `used` at 16 and the bitmap `data` at 24.
`none` stands for a branch that executes `cli; hlt` and, in
`calc_header_pages`, for a loop that has not ended.
-/

namespace BayosKernel

open Foundation

/-- `LIMINE_MEMMAP_USABLE`. -/
def limineMemmapUsable : Nat := 0

/-- An entry of the memory map; its end is an address as well. -/
structure MemmapEntry where
  base : Nat
  length : Nat
  type : Nat
  bound : base + length < 0x10000000000000000

def offsetOfDataInArea : Nat := 24

structure Area where
  firstPage : Nat
  pagesCount : Nat
  used : Nat
  deriving DecidableEq, Repr

namespace Area

/-- The fields of the area at `p` in front of its bitmap. -/
def read (m : ByteMemory) (p : Nat) : Area := ⟨m.load 8 p, m.load 8 (p + 8), m.load 8 (p + 16)⟩

def setFirstPage (m : ByteMemory) (p v : Nat) : ByteMemory := m.store 8 p v

def setPagesCount (m : ByteMemory) (p v : Nat) : ByteMemory := m.store 8 (p + 8) v

def setUsed (m : ByteMemory) (p v : Nat) : ByteMemory := m.store 8 (p + 16) v

/-- The end of the pages of an area. -/
def stop (a : Area) : Nat := a.firstPage + a.pagesCount * 0x1000

/-- `area->data`. -/
def data (p : Nat) : Nat := p + offsetOfDataInArea

end Area

open Area

def bitmapBytesFor (pageCount : Nat) : Nat := add64 pageCount 7 / 8

/-- One turn of the loop of `calc_header_pages`. -/
def headerPagesStep (pageCount prev : Nat) : Nat :=
  let usablePages := sub64 pageCount prev
  let neededBytes := add64 offsetOfDataInArea (bitmapBytesFor usablePages)
  let headerPages := sub64 (add64 neededBytes 0x1000) 1 / 0x1000
  if headerPages = 0 then 1 else headerPages

def calcHeaderPagesLoop (pageCount : Nat) : Nat → Nat → Option Nat
  | 0, _ => none
  | fuel + 1, prev =>
      let headerPages := headerPagesStep pageCount prev
      if headerPages ≠ prev then calcHeaderPagesLoop pageCount fuel headerPages
      else some headerPages

def calcHeaderPages (fuel pageCount : Nat) : Option Nat := calcHeaderPagesLoop pageCount fuel 1

/-- The header pages and the usable pages of the area an entry gives. -/
def MemmapEntry.split (fuel : Nat) (entry : MemmapEntry) : Option (Nat × Nat) :=
  let totalPages := entry.length / 0x1000
  (calcHeaderPages fuel totalPages).map fun headerPages =>
    (headerPages, sub64 totalPages headerPages)

def MemmapEntry.Usable (entry : MemmapEntry) : Prop := entry.type = limineMemmapUsable

instance (entry : MemmapEntry) : Decidable entry.Usable := by
  unfold MemmapEntry.Usable
  infer_instance

/-- The entries that give an area. -/
def MemmapEntry.Gives (entry : MemmapEntry) : Prop :=
  entry.Usable ∧ entry.length ≥ 0x2000

instance (entry : MemmapEntry) : Decidable entry.Gives := by
  unfold MemmapEntry.Gives
  infer_instance

/-- The area of one entry is set up in memory. -/
def initArea (m : ByteMemory) (entry : MemmapEntry) (headerPages usablePages : Nat) :
    ByteMemory :=
  let area := entry.base
  let m := m.memset area 0 (mul64 headerPages 0x1000)
  let m := setFirstPage m area (add64 entry.base (mul64 headerPages 0x1000))
  let m := setPagesCount m area usablePages
  setUsed m area 0

/-- The loop of `bitmap_allocator_init`; the list is `ba->areas`. -/
def initAreas (fuel : Nat) : List MemmapEntry → ByteMemory → Option (ByteMemory × List Nat)
  | [], m => some (m, [])
  | entry :: rest, m =>
      if entry.Gives then
        (entry.split fuel).bind fun pages =>
          (initAreas fuel rest (initArea m entry pages.1 pages.2)).map fun r =>
            (r.1, entry.base :: r.2)
      else initAreas fuel rest m

/-- `bitmap_allocator_init` counts its entries in an `int`. -/
def bitmapAllocatorInit (fuel : Nat) (memmap : List MemmapEntry) (m : ByteMemory) :
    Option (ByteMemory × List Nat) :=
  initAreas fuel (memmap.take (int32 memmap.length).toNat) m

/-- The inner loop of `find_unused_page` over the bits of byte `i`; `none` when
it comes to its end. -/
def scanBits (m : ByteMemory) (bitmap pageCount i : Nat) : List Nat → Option (ByteMemory × Int)
  | [] => none
  | j :: rest =>
      let page := i * 8 + j
      if page ≥ pageCount then some (m, -1)
      else if m (bitmap + i) &&& Bitmap.mask j = 0 then
        some (Function.update m (bitmap + i) (m (bitmap + i) ||| Bitmap.mask j), page)
      else scanBits m bitmap pageCount i rest

def scanBytes (m : ByteMemory) (bitmap pageCount : Nat) : List Nat → ByteMemory × Int
  | [] => (m, -1)
  | i :: rest =>
      match scanBits m bitmap pageCount i (List.range 8) with
      | some r => r
      | none => scanBytes m bitmap pageCount rest

def findUnusedPage (m : ByteMemory) (bitmap pageCount : Nat) : Option (ByteMemory × Int) :=
  if bitmap = NULL ∨ pageCount = 0 ∨ pageCount > 1000000 then none
  else some (scanBytes m bitmap pageCount (List.range ((pageCount + 7) / 8)))

/-- `allocate_page` over the areas from some index on. -/
def allocatePage (m : ByteMemory) : List Nat → Option (ByteMemory × Nat)
  | [] => some (m, NULL)
  | area :: rest =>
      if (read m area).used ≥ (read m area).pagesCount then allocatePage m rest
      else
        match findUnusedPage m (data area) (read m area).pagesCount with
        | none => none
        | some (m, index) =>
            if index < 0 ∨ index ≥ (read m area).pagesCount then none
            else
              let m := setUsed m area (add64 (read m area).used 1)
              some (m, add64 (read m area).firstPage (mul64 index.toNat 0x1000))

/-- `free_page` over the areas from some index on. -/
def freePage (m : ByteMemory) (page : Nat) : List Nat → ByteMemory
  | [] => m
  | area :: rest =>
      if page ≥ (read m area).firstPage ∧
          page < add64 (read m area).firstPage (mul64 (read m area).pagesCount 0x1000) then
        let m := setUsed m area (sub64 (read m area).used 1)
        let index := (page - (read m area).firstPage) / 0x1000
        let arrayIndex := index / 8
        let arrayIndexOffset := index % 8
        Function.update m (data area + arrayIndex)
          (m (data area + arrayIndex) &&& ~~~Bitmap.mask arrayIndexOffset)
      else freePage m page rest

/-- The allocator with the pages its clients hold. -/
structure PageState where
  areas : List Nat
  mem : ByteMemory
  allocated : List Nat

inductive PageAction where
  | allocate
  | free (page : Nat)
  | store (x : Nat) (v : UInt8)
  deriving DecidableEq, Repr

namespace PageState

/-- Clients store into the pages they hold and anywhere outside the areas. -/
def Writable (st : PageState) (x : Nat) : Prop :=
  (∃ p ∈ st.allocated, p ≤ x ∧ x < p + 0x1000) ∨
    ∀ a ∈ st.areas, x < a ∨ (read st.mem a).stop ≤ x

instance (st : PageState) (x : Nat) : Decidable (st.Writable x) := by
  unfold Writable
  infer_instance

def step (st : PageState) : PageAction → Option PageState
  | .allocate =>
      (allocatePage st.mem st.areas).map fun r =>
        { st with mem := r.1,
                  allocated := if r.2 = NULL then st.allocated else r.2 :: st.allocated }
  | .free page =>
      if page ∈ st.allocated then
        some { st with mem := freePage st.mem page st.areas,
                       allocated := st.allocated.erase page }
      else none
  | .store x v =>
      if st.Writable x then some { st with mem := Function.update st.mem x v } else none

end PageState

def pageMachine : Machine PageState PageAction := ⟨PageState.step⟩

end BayosKernel
