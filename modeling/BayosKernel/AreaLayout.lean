import Mathlib.Order.Interval.Set.Disjoint
import Mathlib.Data.List.Pairwise
import Mathlib.Order.CompletePartialOrder
import BayosKernel.HeaderPages

/-!
Where `bitmap_allocator_init` puts the areas: for every entry of the memory map
that gives one, header and bitmap fill the first pages of the entry and describe
exactly the pages behind them.
-/

namespace BayosKernel

open Foundation Area

/-- The entries that `bitmap_allocator_init` comes to; it counts in an `int`. -/
def scannedEntries (memmap : List MemmapEntry) : List MemmapEntry :=
  memmap.take (int32 memmap.length).toNat

theorem scannedEntries_sublist (memmap : List MemmapEntry) :
    (scannedEntries memmap).Sublist memmap :=
  List.take_sublist _ _

theorem bitmapAllocatorInit_eq (fuel : Nat) (memmap : List MemmapEntry) (m : ByteMemory) :
    bitmapAllocatorInit fuel memmap m = initAreas fuel (scannedEntries memmap) m := rfl

/-- The areas fit into `ba->areas`, and the usable entries are made of pages and
do not overlap. -/
structure MemmapValid (memmap : List MemmapEntry) : Prop where
  few : memmap.countP (fun e => decide e.Gives) ≤ 0x100
  aligned : ∀ e ∈ memmap, e.Usable → e.base % 0x1000 = 0 ∧ e.length % 0x1000 = 0
  apart : memmap.Pairwise fun e f => e.Usable → f.Usable →
    e.base + e.length ≤ f.base ∨ f.base + f.length ≤ e.base

/-- The header of an area and one bit for each page behind `h` header pages fit
into these. -/
def HeaderFits (pageCount h : Nat) : Prop :=
  offsetOfDataInArea * 8 + (pageCount - h) ≤ h * 0x1000 * 8

/-- The bitmap of the remaining pages fits behind the header. -/
theorem headerRoom {p : Nat} (hlow : 2 ≤ p) (hrem : (p + 191) % 32769 ≠ 0) :
    1 ≤ (p + 32959) / 32769 ∧
      24 + (p - (p + 32959) / 32769 + 7) / 8 ≤ (p + 32959) / 32769 * 0x1000 := by
  omega

namespace MemmapEntry

def pageCount (e : MemmapEntry) : Nat := e.length / 0x1000

/-- What `calc_header_pages` returns for the entry. -/
def headerPages (e : MemmapEntry) : Nat := (e.pageCount + 32959) / 32769

def range (e : MemmapEntry) : Set Nat := Set.Ico e.base (e.base + e.length)

theorem pageCount_bounds {e : MemmapEntry} (hgives : e.Gives) :
    2 ≤ e.pageCount ∧ e.pageCount < 0x10000000000000 := by
  have hbound := e.bound
  have hlength := hgives.2
  unfold pageCount
  omega

/-- What the header pages of an entry have to hold. -/
structure Split (e : MemmapEntry) : Prop where
  pos : 1 ≤ e.headerPages
  lt : e.headerPages < e.pageCount
  room : 24 + (e.pageCount - e.headerPages + 7) / 8 ≤ e.headerPages * 0x1000
  stop : e.headerPages * 0x1000 + (e.pageCount - e.headerPages) * 0x1000 ≤ e.length

theorem split_eq_some {e : MemmapEntry} {fuel : Nat} {pages : Nat × Nat} (hgives : e.Gives)
    (hsplit : e.split fuel = some pages) :
    pages = (e.headerPages, e.pageCount - e.headerPages) ∧ e.Split := by
  obtain ⟨hlow, hp⟩ := pageCount_bounds hgives
  obtain ⟨h, hcalc, rfl⟩ := Option.map_eq_some_iff.mp hsplit
  obtain ⟨hlt, hh, hrem⟩ := calcHeaderPages_some hlow hp hcalc
  have hpages : e.pageCount * 0x1000 ≤ e.length := Nat.div_mul_le_self _ _
  have husable : sub64 (e.length / 0x1000) h = e.pageCount - h :=
    sub64_eq (Nat.le_of_lt hlt) (Nat.lt_trans hp (by decide))
  change h = e.headerPages at hh
  rw [husable, hh]
  rw [hh] at hlt
  refine ⟨rfl, ?_, hlt, (headerRoom hlow hrem).2, ?_⟩
  · exact (headerRoom hlow hrem).1
  · rw [← Nat.add_mul, Nat.add_sub_cancel' (Nat.le_of_lt hlt)]
    exact hpages

end MemmapEntry

/-- The returned number of header pages is the smallest that does. -/
theorem headerFits_iff {p h : Nat} (hlow : 2 ≤ p) (hrem : (p + 191) % 32769 ≠ 0)
    (hh : h ≤ (p + 32959) / 32769) : HeaderFits p h ↔ h = (p + 32959) / 32769 := by
  unfold HeaderFits offsetOfDataInArea
  omega

theorem read_fields (m : ByteMemory) {p a b c : Nat} (ha : a < 0x10000000000000000)
    (hb : b < 0x10000000000000000) (hc : c < 0x10000000000000000) :
    Area.read (setUsed (setPagesCount (setFirstPage m p a) p b) p c) p = ⟨a, b, c⟩ := by
  have happart : ∀ (m : ByteMemory) {o v : Nat}, 8 ≤ o → (m.store 8 (p + o) v).load 8 p = m.load 8 p :=
    fun m _ _ ho => ByteMemory.load_store_apart m (by omega)
  simp only [Area.read, setUsed, setPagesCount, setFirstPage, happart _ (show 8 ≤ 16 by omega),
    happart _ (show 8 ≤ 8 by omega), ByteMemory.load_store _ (show a < ByteMemory.capacity 8 from ha),
    ByteMemory.load_store _ (show c < ByteMemory.capacity 8 from hc)]
  rw [ByteMemory.load_store_apart _ (by omega),
    ByteMemory.load_store _ (show b < ByteMemory.capacity 8 from hb)]

theorem Area.read_congr {m m' : ByteMemory} {p : Nat}
    (h : ∀ x, p ≤ x → x < p + 24 → m' x = m x) : Area.read m' p = Area.read m p := by
  have hload : ∀ o, o + 8 ≤ 24 → m'.load 8 (p + o) = m.load 8 (p + o) :=
    fun o ho => ByteMemory.load_congr fun x _ _ => h x (by omega) (by omega)
  have hfirst : m'.load 8 p = m.load 8 p := hload 0 (by omega)
  simp only [read, hfirst, hload 8 (by omega), hload 16 (by omega)]

/-- A memory with the area of an entry as `bitmap_allocator_init` leaves it. -/
structure EntryArea (m : ByteMemory) (e : MemmapEntry) : Prop where
  split : e.Split
  fields : Area.read m e.base =
    ⟨e.base + e.headerPages * 0x1000, e.pageCount - e.headerPages, 0⟩
  clear : ∀ x, data e.base ≤ x → x < e.base + e.headerPages * 0x1000 → m x = 0

theorem EntryArea.congr {m m' : ByteMemory} {e : MemmapEntry} (h : EntryArea m e)
    (hsame : ∀ x, e.base ≤ x → x < e.base + e.headerPages * 0x1000 → m' x = m x) :
    EntryArea m' e := by
  have hpos := h.split.pos
  refine ⟨h.split, ?_, fun x hle hlt => ?_⟩
  · rw [Area.read_congr fun x hle hlt => hsame x hle (by omega), h.fields]
  · rw [hsame x (by simp only [data] at hle; omega) hlt]
    exact h.clear x hle hlt

theorem initArea_entry {fuel : Nat} {e : MemmapEntry} {pages : Nat × Nat} (m : ByteMemory)
    (hgives : e.Gives) (hsplit : e.split fuel = some pages) :
    EntryArea (initArea m e pages.1 pages.2) e ∧
      ∀ x, x < e.base ∨ e.base + e.headerPages * 0x1000 ≤ x →
        initArea m e pages.1 pages.2 x = m x := by
  have hbound := e.bound
  obtain ⟨rfl, hroom⟩ := MemmapEntry.split_eq_some hgives hsplit
  have hpos := hroom.pos
  have hstop := hroom.stop
  have hmul : mul64 e.headerPages 0x1000 = e.headerPages * 0x1000 := mul64_eq (by omega)
  have hfirst : add64 e.base (e.headerPages * 0x1000) = e.base + e.headerPages * 0x1000 :=
    add64_eq (by omega)
  simp only [initArea, hmul, hfirst]
  have houtside : ∀ x, (x < e.base ∨ data e.base ≤ x) →
      setUsed (setPagesCount (setFirstPage (m.memset e.base 0 (e.headerPages * 0x1000)) e.base
        (e.base + e.headerPages * 0x1000)) e.base (e.pageCount - e.headerPages)) e.base 0 x =
          m.memset e.base 0 (e.headerPages * 0x1000) x := by
    intro x hx
    simp only [data, offsetOfDataInArea] at hx
    simp only [setUsed, setPagesCount, setFirstPage]
    rw [ByteMemory.store_outside _ (by omega), ByteMemory.store_outside _ (by omega),
      ByteMemory.store_outside _ (by omega)]
  refine ⟨⟨hroom, ?_, fun x hle hlt => ?_⟩, fun x hx => ?_⟩
  · exact read_fields _ (by omega) (by omega) (by omega)
  · rw [houtside x (Or.inr hle), ByteMemory.memset_inside m]
    exact ⟨by simp only [data] at hle; omega, hlt⟩
  · rw [houtside x (by simp only [data, offsetOfDataInArea]; omega), ByteMemory.memset_outside m hx]

/-- The loop sets up the areas of the entries that give one and touches nothing else. -/
theorem initAreas_entries {fuel : Nat} {entries : List MemmapEntry} {m m' : ByteMemory}
    {areas : List Nat}
    (hapart : entries.Pairwise fun e f => e.Usable → f.Usable →
      e.base + e.length ≤ f.base ∨ f.base + f.length ≤ e.base)
    (hinit : initAreas fuel entries m = some (m', areas)) :
    areas = (entries.filter fun e => decide e.Gives).map MemmapEntry.base ∧
      (∀ e ∈ entries, e.Gives → EntryArea m' e) ∧
      ∀ x, (∀ e ∈ entries, e.Gives → x < e.base ∨ e.base + e.headerPages * 0x1000 ≤ x) →
        m' x = m x := by
  induction entries generalizing m m' areas with
  | nil =>
      cases hinit
      exact ⟨rfl, by simp, fun _ _ => rfl⟩
  | cons e rest ih =>
      obtain ⟨hfirst, hrest⟩ := List.pairwise_cons.mp hapart
      rw [initAreas] at hinit
      by_cases hgives : e.Gives
      · rw [if_pos hgives] at hinit
        obtain ⟨pages, hsplit, hinit⟩ := Option.bind_eq_some_iff.mp hinit
        obtain ⟨⟨m₁, areas₁⟩, hinit', heq⟩ := Option.map_eq_some_iff.mp hinit
        cases heq
        obtain ⟨harea, hframe⟩ := initArea_entry m hgives hsplit
        obtain ⟨hareas, hentries, hframe'⟩ := ih hrest hinit'
        have hstop := harea.split.stop
        have hhead : ∀ x, e.base ≤ x → x < e.base + e.headerPages * 0x1000 →
            m₁ x = initArea m e pages.1 pages.2 x := by
          intro x hle hlt
          refine hframe' x fun f hf hgivesf => ?_
          have hstopf := (hentries f hf hgivesf).split.stop
          have := hfirst f hf hgives.1 hgivesf.1
          omega
        refine ⟨?_, fun f hf hgivesf => ?_, fun x hx => ?_⟩
        · rw [List.filter_cons_of_pos (by simpa using hgives), List.map_cons, hareas]
        · rcases List.mem_cons.mp hf with rfl | hf
          · exact harea.congr hhead
          · exact hentries f hf hgivesf
        · have hrest' := hframe' x fun f hf => hx f (List.mem_cons_of_mem _ hf)
          exact hrest'.trans (hframe x (hx e List.mem_cons_self hgives))
      · rw [if_neg hgives] at hinit
        obtain ⟨hareas, hentries, hframe⟩ := ih hrest hinit
        refine ⟨?_, fun f hf hgivesf => ?_, fun x hx => ?_⟩
        · rw [List.filter_cons_of_neg (by simpa using hgives), hareas]
        · rcases List.mem_cons.mp hf with rfl | hf
          · exact absurd hgivesf hgives
          · exact hentries f hf hgivesf
        · exact hframe x fun f hf => hx f (List.mem_cons_of_mem _ hf)

theorem initAreas_isSome {fuel : Nat} (entries : List MemmapEntry) (m : ByteMemory) :
    (initAreas fuel entries m).isSome ↔ ∀ e ∈ entries, e.Gives → (e.split fuel).isSome := by
  induction entries generalizing m with
  | nil => simp [initAreas]
  | cons e rest ih =>
      rw [initAreas, List.forall_mem_cons]
      by_cases hgives : e.Gives
      · rw [if_pos hgives]
        cases hsplit : e.split fuel with
        | none => simp [hgives]
        | some pages =>
            rw [Option.bind_some, Option.isSome_map, ih]
            simp
      · rw [if_neg hgives, ih]
        simp [hgives]

instance : Std.Symm fun e f : MemmapEntry => e.Usable → f.Usable →
    e.base + e.length ≤ f.base ∨ f.base + f.length ≤ e.base :=
  ⟨fun _ _ h hf he => Or.symm (h he hf)⟩

/-- The entries that give an area, of which no two overlap. -/
theorem apart_gives {entries : List MemmapEntry}
    (hapart : entries.Pairwise fun e f => e.Usable → f.Usable →
      e.base + e.length ≤ f.base ∨ f.base + f.length ≤ e.base) :
    (entries.filter fun e => decide e.Gives).Pairwise fun e f =>
      e.base + e.length ≤ f.base ∨ f.base + f.length ≤ e.base := by
  refine (hapart.sublist List.filter_sublist).imp_of_mem fun he hf hef => ?_
  have hgives := of_decide_eq_true (List.mem_filter.mp he).2
  have hgives' := of_decide_eq_true (List.mem_filter.mp hf).2
  exact hef hgives.1 hgives'.1

namespace Area

/-- The addresses of the header of the area at `a` and of its bitmap. -/
def header (m : ByteMemory) (a : Nat) : Set Nat :=
  Set.Ico a (data a + ((read m a).pagesCount + 7) / 8)

/-- The addresses of the pages of the area at `a`. -/
def managed (m : ByteMemory) (a : Nat) : Set Nat := Set.Ico (read m a).firstPage (read m a).stop

end Area

namespace EntryArea

variable {m : ByteMemory} {e f : MemmapEntry}

theorem header_subset (h : EntryArea m e) :
    header m e.base ⊆ Set.Ico e.base (e.base + e.headerPages * 0x1000) := by
  have hroom := h.split.room
  simp only [header, h.fields, data, offsetOfDataInArea]
  exact Set.Ico_subset_Ico_right (by omega)

theorem managed_subset (h : EntryArea m e) :
    managed m e.base ⊆ Set.Ico (e.base + e.headerPages * 0x1000) (e.base + e.length) := by
  have hstop := h.split.stop
  simp only [managed, Area.stop, h.fields]
  exact Set.Ico_subset_Ico_right (by omega)

theorem header_range (h : EntryArea m e) : header m e.base ⊆ e.range := by
  have hstop := h.split.stop
  exact h.header_subset.trans (Set.Ico_subset_Ico_right (by omega))

theorem managed_range (h : EntryArea m e) : managed m e.base ⊆ e.range :=
  h.managed_subset.trans (Set.Ico_subset_Ico_left (Nat.le_add_right _ _))

theorem managed_header (h : EntryArea m e) : Disjoint (managed m e.base) (header m e.base) :=
  (Set.Ico_disjoint_Ico_same.symm).mono h.managed_subset h.header_subset

end EntryArea

theorem MemmapEntry.range_disjoint {e f : MemmapEntry}
    (h : e.base + e.length ≤ f.base ∨ f.base + f.length ≤ e.base) : Disjoint e.range f.range := by
  rw [range, range, Set.Ico_disjoint_Ico]
  omega

/-- The areas lie inside their entries, apart from each other. -/
structure LaidOut (memmap : List MemmapEntry) (m : ByteMemory) (areas : List Nat) : Prop where
  inside : ∀ a ∈ areas, ∃ e ∈ memmap, e.Gives ∧ a = e.base ∧ header m a ⊆ e.range ∧
    managed m a ⊆ e.range
  pages : areas.Pairwise fun a b => Disjoint (managed m a) (managed m b)
  headers : ∀ a ∈ areas, ∀ b ∈ areas, Disjoint (managed m a) (header m b)

theorem initAreas_laidOut {fuel : Nat} {memmap : List MemmapEntry} {m m' : ByteMemory}
    {areas : List Nat} (hmap : MemmapValid memmap)
    (hinit : bitmapAllocatorInit fuel memmap m = some (m', areas)) : LaidOut memmap m' areas := by
  have hmem : ∀ e ∈ scannedEntries memmap, e ∈ memmap := fun _ he =>
    (scannedEntries_sublist memmap).subset he
  have hapart := hmap.apart.sublist (scannedEntries_sublist memmap)
  rw [bitmapAllocatorInit_eq] at hinit
  obtain ⟨hareas, hentries, -⟩ := initAreas_entries hapart hinit
  have harea : ∀ a ∈ areas, ∃ e ∈ scannedEntries memmap, e.Gives ∧ a = e.base := by
    intro a ha
    rw [hareas] at ha
    obtain ⟨e, he, rfl⟩ := List.mem_map.mp ha
    exact ⟨e, (List.mem_filter.mp he).1, of_decide_eq_true (List.mem_filter.mp he).2, rfl⟩
  refine ⟨fun a ha => ?_, ?_, fun a ha b hb => ?_⟩
  · obtain ⟨e, he, hgives, rfl⟩ := harea a ha
    have h := hentries e he hgives
    exact ⟨e, hmem e he, hgives, rfl, h.header_range, h.managed_range⟩
  · rw [hareas]
    refine List.pairwise_map.mpr ((apart_gives hapart).imp_of_mem fun he hf hef => ?_)
    have h := hentries _ (List.mem_filter.mp he).1 (of_decide_eq_true (List.mem_filter.mp he).2)
    have h' := hentries _ (List.mem_filter.mp hf).1 (of_decide_eq_true (List.mem_filter.mp hf).2)
    exact (MemmapEntry.range_disjoint hef).mono h.managed_range h'.managed_range
  · obtain ⟨e, he, hgives, rfl⟩ := harea a ha
    obtain ⟨f, hf, hgivesf, rfl⟩ := harea b hb
    have h := hentries e he hgives
    have h' := hentries f hf hgivesf
    by_cases hef : e = f
    · subst hef
      exact h.managed_header
    · have hapart' : e.base + e.length ≤ f.base ∨ f.base + f.length ≤ e.base :=
        hapart.forall he hf hef hgives.1 hgivesf.1
      exact (MemmapEntry.range_disjoint hapart').mono h.managed_range h'.header_range

/-- `calc_header_pages` returns the smallest number of header pages that describes
the rest, and so every area fits into its entry. -/
theorem bitmapAllocatorInit_laidOut :
    (∀ fuel p h, 2 ≤ p → p < 0x10000000000000 → calcHeaderPages fuel p = some h →
      h < p ∧ HeaderFits p h ∧ ∀ h' < h, ¬HeaderFits p h') ∧
    ∀ fuel memmap m m' areas, MemmapValid memmap →
      bitmapAllocatorInit fuel memmap m = some (m', areas) → LaidOut memmap m' areas := by
  refine ⟨fun fuel p h hlow hp hcalc => ?_, fun _ _ _ _ _ hmap hinit => initAreas_laidOut hmap hinit⟩
  obtain ⟨hlt, hh, hrem⟩ := calcHeaderPages_some hlow hp hcalc
  refine ⟨hlt, (headerFits_iff hlow hrem (Nat.le_of_eq hh)).mpr hh, fun h' hh' hfits => ?_⟩
  rw [headerFits_iff hlow hrem (Nat.le_of_lt (hh ▸ hh')), ← hh] at hfits
  exact Nat.ne_of_lt hh' hfits

/-- Two usable entries behind each other, the first of the size at which a second
header page is needed. -/
def adjacentEntries : List MemmapEntry :=
  [⟨0x100000, 0x7f43000, 0, by decide⟩, ⟨0x8043000, 0x2000, 0, by decide⟩]

theorem adjacentEntries_valid : MemmapValid adjacentEntries :=
  ⟨by decide, by decide, by decide⟩

theorem adjacentEntries_areas : ∃ m' areas,
    bitmapAllocatorInit 3 adjacentEntries (fun _ => 0xff) = some (m', areas) ∧
      areas = [0x100000, 0x8043000] := by
  have hsome : ((bitmapAllocatorInit 3 adjacentEntries fun _ => 0xff).map Prod.snd) =
      some [0x100000, 0x8043000] := by decide +kernel
  obtain ⟨⟨m', areas⟩, hinit, hareas⟩ := Option.map_eq_some_iff.mp hsome
  exact ⟨m', areas, hinit, hareas⟩

theorem bitmapAllocatorInit_laidOut_adjacent :
    (2 < 0x7f43 ∧ HeaderFits 0x7f43 2 ∧ ∀ h' < 2, ¬HeaderFits 0x7f43 h') ∧
      ∃ m' areas, bitmapAllocatorInit 3 adjacentEntries (fun _ => 0xff) = some (m', areas) ∧
        areas = [0x100000, 0x8043000] ∧ LaidOut adjacentEntries m' areas := by
  refine ⟨bitmapAllocatorInit_laidOut.1 3 0x7f43 2 (by decide) (by decide) (by decide +kernel), ?_⟩
  obtain ⟨m', areas, hinit, hareas⟩ := adjacentEntries_areas
  exact ⟨m', areas, hinit, hareas,
    bitmapAllocatorInit_laidOut.2 3 _ _ m' areas adjacentEntries_valid hinit⟩

namespace MemmapEntry

variable {e : MemmapEntry} {fuel : Nat}

theorem split_rem (hgives : e.Gives) (hsplit : (e.split fuel).isSome) :
    (e.pageCount + 191) % 32769 ≠ 0 := by
  obtain ⟨hlow, hp⟩ := pageCount_bounds hgives
  rw [split, Option.isSome_map] at hsplit
  obtain ⟨h, hcalc⟩ := Option.isSome_iff_exists.mp hsplit
  exact (calcHeaderPages_some hlow hp hcalc).2.2

theorem split_isSome (hgives : e.Gives) (hrem : (e.pageCount + 191) % 32769 ≠ 0) :
    (e.split 6).isSome := by
  obtain ⟨hlow, hp⟩ := pageCount_bounds hgives
  have hcalc : calcHeaderPages 6 (e.length / 0x1000) = some e.headerPages :=
    calcHeaderPages_of_rem hlow hp hrem (Nat.le_refl 6)
  rw [split, hcalc]
  rfl

end MemmapEntry

/-- `calc_header_pages` comes back unless the number of pages is 191 short of a
multiple of 32769, and `bitmap_allocator_init` when no entry has such a number. -/
theorem bitmapAllocatorInit_returns_iff (memmap : List MemmapEntry) (m : ByteMemory) :
    (∀ p, 2 ≤ p → p < 0x10000000000000 →
      ((∃ fuel, (calcHeaderPages fuel p).isSome) ↔ (p + 191) % 32769 ≠ 0)) ∧
    ((∃ fuel, (bitmapAllocatorInit fuel memmap m).isSome) ↔
      ∀ e ∈ scannedEntries memmap, e.Gives → (e.pageCount + 191) % 32769 ≠ 0) := by
  refine ⟨fun p hlow hp => ⟨?_, fun hrem => ⟨6, ?_⟩⟩, ⟨?_, fun hall => ⟨6, ?_⟩⟩⟩
  · rintro ⟨fuel, hsome⟩
    obtain ⟨h, hcalc⟩ := Option.isSome_iff_exists.mp hsome
    exact (calcHeaderPages_some hlow hp hcalc).2.2
  · rw [calcHeaderPages_of_rem hlow hp hrem (Nat.le_refl 6)]
    rfl
  · rintro ⟨fuel, hsome⟩ e he hgives
    exact MemmapEntry.split_rem hgives ((initAreas_isSome _ m).mp hsome e he hgives)
  · exact (initAreas_isSome _ m).mpr fun e he hgives =>
      MemmapEntry.split_isSome hgives (hall e he hgives)

theorem bitmapAllocatorInit_returns_iff_adjacent :
    (∃ fuel, (calcHeaderPages fuel 0x7f43).isSome) ∧
      ∀ m, ∃ fuel, (bitmapAllocatorInit fuel adjacentEntries m).isSome :=
  ⟨((bitmapAllocatorInit_returns_iff [] fun _ => 0).1 0x7f43 (by decide) (by decide)).mpr
    (by decide), fun m => (bitmapAllocatorInit_returns_iff adjacentEntries m).2.mpr (by decide)⟩

/-- 127 MiB and 264 KiB, for which one header page is too few and two are too many. -/
def oscillatingEntry : MemmapEntry := ⟨0x100000, 0x7f42000, 0, by decide⟩

theorem calcHeaderPages_oscillates :
    (∀ fuel, calcHeaderPages fuel 0x7f42 = none) ∧
      ∀ fuel m, bitmapAllocatorInit fuel [oscillatingEntry] m = none := by
  have hnone : ∀ fuel, calcHeaderPages fuel 0x7f42 = none :=
    calcHeaderPages_none (by decide) (by decide) (by decide)
  refine ⟨hnone, fun fuel m => ?_⟩
  have hsplit : oscillatingEntry.split fuel = none := by
    rw [MemmapEntry.split, show oscillatingEntry.length / 0x1000 = 0x7f42 by decide, hnone]
    rfl
  have hscan : (int32 ([oscillatingEntry] : List MemmapEntry).length).toNat = 1 := by decide
  rw [bitmapAllocatorInit, hscan, List.take_one, List.head?_cons, Option.toList_some, initAreas,
    if_pos (by decide), hsplit]
  rfl

end BayosKernel
