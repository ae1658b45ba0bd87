import Mathlib.Algebra.Order.BigOperators.Group.List
import Mathlib.Algebra.Order.Ring.Nat
import BayosKernel.PageRuns

/-!
The branches of `allocate_page` that execute `cli; hlt`. `find_unused_page` halts
on more than 1000000 pages, but `bitmap_allocator_init` gives an area all pages of
its entry: the kernel halts when the areas before a larger one are used up.
-/

namespace BayosKernel

open Foundation Area

/-- `allocate_page` comes back, with an unused page of an area or, when there is
none, with NULL. -/
def PageState.Serves (st : PageState) : Prop :=
  ∃ m' page, allocatePage st.mem st.areas = some (m', page) ∧
    (page = NULL ↔ ∀ a ∈ st.areas, ∀ k < (Area.read st.mem a).pagesCount,
      (Area.read st.mem a).firstPage + k * 0x1000 ∈ st.allocated) ∧
    (page ≠ NULL → page ∉ st.allocated ∧ ∃ a ∈ st.areas,
      (Area.read st.mem a).firstPage ≤ page ∧ page + 0x1000 ≤ (Area.read st.mem a).stop)

theorem PageState.Sound.serves {st : PageState} (h : st.Sound) : st.Serves := by
  obtain ⟨m', page, hsome, hnull, hpage⟩ := h.returns
  refine ⟨m', page, hsome, hnull, fun hne => ?_⟩
  obtain ⟨-, hnew, hmanaged, -⟩ := hpage hne
  exact ⟨hnew, hmanaged⟩

section Exhaust

variable {m : ByteMemory} {sites : List Site} {rest : List Nat} {big : Nat}

def unusedPages (m : ByteMemory) (s : Site) : Nat := s.count - Bitmap.count m (data s.base) s.count

/-- Areas of at most 1000000 pages, and behind them a larger one of which no page
is used. -/
structure BeforeBig (m : ByteMemory) (sites : List Site) (big : Nat) : Prop where
  kept : ∀ s ∈ sites, s.Kept m
  apart : sites.Pairwise Site.Apart
  outside : ∀ s ∈ sites, s.first ≤ big ∨ big + 24 ≤ s.base
  count : 1000000 < (Area.read m big).pagesCount
  used : (Area.read m big).used = 0

theorem allocatePage_big (hcount : 1000000 < (Area.read m big).pagesCount)
    (hused : (Area.read m big).used = 0) : allocatePage m (big :: rest) = none := by
  have hfind : findUnusedPage m (data big) (Area.read m big).pagesCount = none := by
    rw [findUnusedPage, if_pos (Or.inr (Or.inr hcount))]
  rw [allocatePage, if_neg (by omega), hfind]

/-- One more page of the areas in front is used. -/
theorem BeforeBig.take (h : BeforeBig m sites big) {s : Site} {k : Nat} (hs : s ∈ sites)
    (hk : k < s.count) (hclear : ¬s.Marked m k) :
    BeforeBig (s.take m k) sites big ∧
      (sites.map (unusedPages (s.take m k))).sum < (sites.map (unusedPages m)).sum := by
  have hframe : ∀ x, x < s.base ∨ s.first ≤ x → s.take m k x = m x := fun x hx =>
    Site.take_outside hk hx
  have hother : ∀ t ∈ sites, t ≠ s →
      t.Kept (s.take m k) ∧ ∀ i < t.count, t.Marked (s.take m k) i ↔ t.Marked m i := fun t ht hne =>
    (h.kept t ht).of_apart (h.apart.forall ht hs hne) hframe
  have hself : s.Kept (s.take m k) := (h.kept s hs).take hk hclear
  have hbig : Area.read (s.take m k) big = Area.read m big := by
    refine Area.read_congr fun x hle hlt => hframe x ?_
    have := h.outside s hs
    omega
  have hless : unusedPages (s.take m k) s < unusedPages m s := by
    have hbit : Bitmap.bit m (data s.base) k = false := by simpa [Site.Marked] using hclear
    have hcount : Bitmap.count (s.take m k) (data s.base) s.count =
        Bitmap.count m (data s.base) s.count + 1 := by
      rw [Site.take, Bitmap.count_congr fun i _ => s.bit_setUsed _ _ i, Bitmap.count_set hk hbit]
    have hle := Bitmap.count_le (s.take m k) (data s.base) s.count
    unfold unusedPages
    omega
  refine ⟨⟨fun t ht => ?_, h.apart, h.outside, ?_, ?_⟩,
    List.sum_lt_sum _ _ (fun t ht => ?_) ⟨s, hs, hless⟩⟩
  · by_cases hne : t = s
    · rw [hne]
      exact hself
    · exact (hother t ht hne).1
  · rw [hbig]
    exact h.count
  · rw [hbig]
    exact h.used
  · by_cases hne : t = s
    · rw [hne]
      exact Nat.le_of_lt hless
    · have hcount : Bitmap.count (s.take m k) (data t.base) t.count =
          Bitmap.count m (data t.base) t.count :=
        Bitmap.count_congr fun i hi => by
          rw [Bool.eq_iff_iff]
          exact (hother t ht hne).2 i hi
      exact Nat.le_of_eq (by rw [unusedPages, hcount, unusedPages])

/-- Calls of `allocate_page` use up the areas in front, and the next one halts. -/
theorem BeforeBig.halts (h : BeforeBig m sites big) (rest allocated : List Nat) :
    ∃ n st, pageMachine.exec ⟨sites.map Site.base ++ big :: rest, m, allocated⟩
        (List.replicate n .allocate) = some st ∧ allocatePage st.mem st.areas = none := by
  generalize hunused : (sites.map (unusedPages m)).sum = unused
  -- every call takes one of the pages that are counted here
  induction unused using Nat.strong_induction_on generalizing m allocated with
  | _ unused ih =>
      rcases allocatePage_append_cases (big :: rest) h.kept with
        ⟨hfull, -⟩ | ⟨s, hs, k, hk, hclear, hsome⟩
      · exact ⟨0, _, rfl, hfull.trans (allocatePage_big h.count h.used)⟩
      · obtain ⟨htake, hless⟩ := h.take hs hk hclear
        obtain ⟨n, st, hrun, hhalt⟩ :=
          ih _ (hunused ▸ hless) htake (s.page k :: allocated) rfl
        refine ⟨n + 1, st, ?_, hhalt⟩
        have hstep : pageMachine.step ⟨sites.map Site.base ++ big :: rest, m, allocated⟩
            .allocate =
              some ⟨sites.map Site.base ++ big :: rest, s.take m k, s.page k :: allocated⟩ := by
          simp only [pageMachine, PageState.step, hsome, Option.map_some, if_neg (s.page_ne_null k)]
        rw [List.replicate_succ, Machine.exec, hstep]
        exact hrun

end Exhaust

/-- The first entry with more than 1000000 pages, and the areas of those before. -/
theorem bitmapAllocatorInit_beforeBig {fuel : Nat} {memmap : List MemmapEntry}
    {m m' : ByteMemory} {areas : List Nat} (hmap : MemmapValid memmap)
    (hinit : bitmapAllocatorInit fuel memmap m = some (m', areas))
    (hbig : ∃ e ∈ scannedEntries memmap, e.Gives ∧ 1000000 < e.pageCount - e.headerPages) :
    ∃ sites big rest, areas = sites.map Site.base ++ big :: rest ∧ BeforeBig m' sites big := by
  have hgives : ∀ e ∈ (scannedEntries memmap).filter fun e => decide e.Gives,
      e ∈ scannedEntries memmap ∧ e.Gives := fun e he =>
    ⟨(List.mem_filter.mp he).1, of_decide_eq_true (List.mem_filter.mp he).2⟩
  have hapart := hmap.apart.sublist (scannedEntries_sublist memmap)
  rw [bitmapAllocatorInit_eq] at hinit
  obtain ⟨hareas, hentries, -⟩ := initAreas_entries hapart hinit
  obtain ⟨e₀, he₀, hgives₀, hcount₀⟩ := hbig
  obtain ⟨e, hfind⟩ : ∃ e, ((scannedEntries memmap).filter fun e => decide e.Gives).find?
      (fun e => decide (1000000 < e.pageCount - e.headerPages)) = some e := by
    rw [← Option.isSome_iff_exists, List.find?_isSome]
    exact ⟨e₀, List.mem_filter.mpr ⟨he₀, decide_eq_true hgives₀⟩, decide_eq_true hcount₀⟩
  obtain ⟨hcount, before, behind, hsplit, hbefore⟩ := List.find?_eq_some_iff_append.mp hfind
  have hpairs := apart_gives hapart
  rw [hsplit] at hareas hgives hpairs
  have hmem : ∀ f ∈ before, f ∈ before ++ e :: behind := fun f hf => List.mem_append_left _ hf
  obtain ⟨-, -, hcross⟩ := List.pairwise_append.mp hpairs
  obtain ⟨sites, hfresh, hplace, -⟩ := entries_fresh
    (fun f hf => hentries f (hgives f (hmem f hf)).1 (hgives f (hmem f hf)).2)
    (fun f hf => (hmap.aligned f ((scannedEntries_sublist memmap).subset (hgives f (hmem f hf)).1)
      (hgives f (hmem f hf)).2.1).1)
    (hpairs.sublist (List.sublist_append_left _ _))
    (fun f hf => by simpa using hbefore f hf)
  obtain ⟨he, hgivese⟩ := hgives e (List.mem_append_right _ List.mem_cons_self)
  have harea := hentries e he hgivese
  refine ⟨sites, e.base, behind.map MemmapEntry.base, ?_, hfresh.kept, hfresh.apart,
    fun s hs => ?_, ?_, ?_⟩
  · rw [hareas, List.map_append, hfresh.places, List.map_cons]
  · obtain ⟨f, hf, hbase, hstop⟩ := hplace s hs
    have hef := hcross f hf e List.mem_cons_self
    have hlength := hgivese.2
    simp only [Site.stop] at hstop
    omega
  · rw [harea.fields]
    exact of_decide_eq_true hcount
  · rw [harea.fields]

/-- 1000031 pages are 1000000 pages and the 31 that describe them. -/
theorem pageCount_le_iff {e : MemmapEntry} :
    e.pageCount ≤ 1000031 ↔ e.pageCount - e.headerPages ≤ 1000000 := by
  unfold MemmapEntry.headerPages
  omega

/-- No run of the allocator comes to a `hlt` exactly when all entries are small
enough for `find_unused_page`. -/
theorem pageMachine_serves_iff {fuel : Nat} {memmap : List MemmapEntry} {m m₀ : ByteMemory}
    {areas : List Nat} (hmap : MemmapValid memmap)
    (hinit : bitmapAllocatorInit fuel memmap m = some (m₀, areas)) :
    (∀ run st, pageMachine.exec ⟨areas, m₀, []⟩ run = some st → st.Serves) ↔
      ∀ e ∈ scannedEntries memmap, e.Gives → e.pageCount ≤ 1000031 := by
  simp only [pageCount_le_iff]
  constructor
  · intro hserves e he hgives
    by_contra hlarge
    obtain ⟨sites, big, rest, rfl, hbig⟩ := bitmapAllocatorInit_beforeBig hmap hinit
      ⟨e, he, hgives, Nat.lt_of_not_le hlarge⟩
    obtain ⟨n, st, hrun, hhalt⟩ := hbig.halts rest []
    obtain ⟨m', page, hsome, -⟩ := hserves _ st hrun
    rw [hhalt] at hsome
    cases hsome
  · intro hsmall run st hrun
    obtain ⟨sites, hfresh, -, -⟩ := bitmapAllocatorInit_sites hmap hsmall hinit
    have hinv : PageInv st sites := pageMachine.exec_invariant_always
      (I := fun st => PageInv st sites) (fun _ _ _ hinv hstep => hinv.step hstep)
      (PageInv.of_fresh hfresh) hrun
    exact hinv.sound.serves

theorem pageMachine_serves_adjacent : ∃ m₀ areas,
    bitmapAllocatorInit 3 adjacentEntries (fun _ => 0xff) = some (m₀, areas) ∧
      ∀ run st, pageMachine.exec ⟨areas, m₀, []⟩ run = some st → st.Serves := by
  obtain ⟨m₀, areas, hinit, -⟩ := adjacentEntries_areas
  exact ⟨m₀, areas, hinit,
    (pageMachine_serves_iff adjacentEntries_valid hinit).mpr (by decide)⟩

/-- One usable entry of 4 GiB. -/
def largeEntry : List MemmapEntry := [⟨0x100000000, 0x100000000, 0, by decide⟩]

theorem largeEntry_halts : MemmapValid largeEntry ∧ ∃ m₀ areas,
    bitmapAllocatorInit 6 largeEntry (fun _ => 0) = some (m₀, areas) ∧
      pageMachine.exec ⟨areas, m₀, []⟩ [] = some ⟨areas, m₀, []⟩ ∧
      allocatePage m₀ areas = none := by
  refine ⟨⟨by decide, by decide, by decide⟩, ?_⟩
  have hnone : (bitmapAllocatorInit 6 largeEntry fun _ => 0).map
      (fun r => (allocatePage r.1 r.2).isSome) = some false := by decide +kernel
  obtain ⟨⟨m₀, areas⟩, hinit, hhalt⟩ := Option.map_eq_some_iff.mp hnone
  exact ⟨m₀, areas, hinit, rfl, Option.isSome_eq_false_iff.mp hhalt |> Option.isNone_iff_eq_none.mp⟩

end BayosKernel
