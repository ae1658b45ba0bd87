import BayosKernel.PageAllocation

/-!
`bitmap_allocator_init` and the runs of `allocate_page` and `free_page` after it.
-/

namespace BayosKernel

open Foundation Area

/-- The usable entries are aligned and disjoint, there are no more of them than
`ba->areas` has places, and none gives more pages than `find_unused_page` takes. -/
structure MemmapOk (fuel : Nat) (memmap : List MemmapEntry) : Prop where
  few : memmap.countP (fun e => decide e.Gives) ≤ 0x100
  aligned : ∀ e ∈ memmap, e.Usable → e.base % 0x1000 = 0 ∧ e.length % 0x1000 = 0
  apart : memmap.Pairwise fun e f => e.Usable → f.Usable →
    e.base + e.length ≤ f.base ∨ f.base + f.length ≤ e.base
  small : ∀ e ∈ memmap, e.Gives → ∀ pages, e.split fuel = some pages → pages.2 ≤ 1000000

/-- The area of an entry that gives few enough pages. -/
theorem EntryArea.site {m : ByteMemory} {e : MemmapEntry} (harea : EntryArea m e)
    (halign : e.base % 0x1000 = 0) (hsmall : e.pageCount - e.headerPages ≤ 1000000) :
    ∃ s : Site, s.base = e.base ∧ s.first = e.base + e.headerPages * 0x1000 ∧
      s.stop ≤ e.base + e.length ∧ s.Kept m ∧ ∀ k < s.count, ¬s.Marked m k := by
  have hbound := e.bound
  have hroom := harea.split.room
  have hstop := harea.split.stop
  have hbits : ∀ k < e.pageCount - e.headerPages, Bitmap.bit m (data e.base) k = false := by
    intro k hk
    have hzero : m (data e.base + k / 8) = 0 :=
      harea.clear _ (Nat.le_add_right _ _) (by simp only [data, offsetOfDataInArea]; omega)
    rw [Bitmap.bit, hzero]
    exact Nat.zero_testBit _
  refine ⟨⟨e.base, e.base + e.headerPages * 0x1000, e.pageCount - e.headerPages, by omega,
    by omega, hsmall, by omega⟩, rfl, rfl, by simp only [Site.stop]; omega, ?_,
    fun k hk => by simp [Site.Marked, hbits k hk]⟩
  have hcount : Bitmap.count m (data e.base) (e.pageCount - e.headerPages) = 0 :=
    Nat.count_iff_forall_not.mpr fun k hk => by rw [hbits k hk]; simp
  unfold Site.Kept
  simp only [harea.fields, hcount]

/-- The areas of a memory in which they are all kept, apart and without marks. -/
structure FreshAreas (m : ByteMemory) (areas : List Nat) (sites : List Site) : Prop where
  places : areas = sites.map Site.base
  apart : sites.Pairwise Site.Apart
  kept : ∀ s ∈ sites, s.Kept m
  clear : ∀ s ∈ sites, ∀ k < s.count, ¬s.Marked m k

/-- The sites of a list of entries that all give few enough pages. -/
theorem entries_fresh {m : ByteMemory} {entries : List MemmapEntry}
    (hareas : ∀ e ∈ entries, EntryArea m e) (halign : ∀ e ∈ entries, e.base % 0x1000 = 0)
    (hapart : entries.Pairwise fun e f =>
      e.base + e.length ≤ f.base ∨ f.base + f.length ≤ e.base)
    (hsmall : ∀ e ∈ entries, e.pageCount - e.headerPages ≤ 1000000) :
    ∃ sites, FreshAreas m (entries.map MemmapEntry.base) sites ∧
      (∀ s ∈ sites, ∃ e ∈ entries, s.base = e.base ∧ s.stop ≤ e.base + e.length) ∧
      ∀ e ∈ entries, ∃ s ∈ sites, s.base = e.base ∧
        s.first = e.base + e.headerPages * 0x1000 := by
  induction entries with
  | nil => exact ⟨[], ⟨rfl, List.Pairwise.nil, by simp, by simp⟩, by simp, by simp⟩
  | cons e rest ih =>
      obtain ⟨harea, hareas⟩ := List.forall_mem_cons.mp hareas
      obtain ⟨hbase, halign⟩ := List.forall_mem_cons.mp halign
      obtain ⟨hfirst, hapart⟩ := List.pairwise_cons.mp hapart
      obtain ⟨hcount, hsmall⟩ := List.forall_mem_cons.mp hsmall
      obtain ⟨s, hs, hpages, hstop, hkept, hclear⟩ := harea.site hbase hcount
      obtain ⟨sites, hfresh, hplace, hall⟩ := ih hareas halign hapart hsmall
      refine ⟨s :: sites, ⟨?_, List.pairwise_cons.mpr ⟨fun t ht => ?_, hfresh.apart⟩,
        List.forall_mem_cons.mpr ⟨hkept, hfresh.kept⟩,
        List.forall_mem_cons.mpr ⟨hclear, hfresh.clear⟩⟩,
        List.forall_mem_cons.mpr ⟨⟨e, List.mem_cons_self, hs, hstop⟩, fun t ht => ?_⟩,
        List.forall_mem_cons.mpr ⟨⟨s, List.mem_cons_self, hs, hpages⟩, fun f hf => ?_⟩⟩
      · rw [List.map_cons, List.map_cons, hs, hfresh.places]
      · obtain ⟨f, hf, htbase, htstop⟩ := hplace t ht
        have := hfirst f hf
        simp only [Site.Apart]
        omega
      · obtain ⟨f, hf, h⟩ := hplace t ht
        exact ⟨f, List.mem_cons_of_mem _ hf, h⟩
      · obtain ⟨t, ht, h⟩ := hall f hf
        exact ⟨t, List.mem_cons_of_mem _ ht, h⟩

/-- Once the areas are set up, every entry that gives one has been split. -/
theorem scanned_split {fuel : Nat} {memmap : List MemmapEntry} {m m' : ByteMemory}
    {areas : List Nat} (hinit : bitmapAllocatorInit fuel memmap m = some (m', areas))
    {e : MemmapEntry} (he : e ∈ scannedEntries memmap) (hgives : e.Gives) :
    e.split fuel = some (e.headerPages, e.pageCount - e.headerPages) := by
  rw [bitmapAllocatorInit_eq] at hinit
  have hsome := (initAreas_isSome (scannedEntries memmap) m).mp
    (Option.isSome_of_eq_some hinit) e he hgives
  obtain ⟨pages, hsplit⟩ := Option.isSome_iff_exists.mp hsome
  rw [hsplit, (MemmapEntry.split_eq_some hgives hsplit).1]

theorem bitmapAllocatorInit_sites {fuel : Nat} {memmap : List MemmapEntry} {m m' : ByteMemory}
    {areas : List Nat} (hmap : MemmapValid memmap)
    (hsmall : ∀ e ∈ scannedEntries memmap, e.Gives → e.pageCount - e.headerPages ≤ 1000000)
    (hinit : bitmapAllocatorInit fuel memmap m = some (m', areas)) :
    ∃ sites, FreshAreas m' areas sites ∧
      (∀ s ∈ sites, ∃ e ∈ memmap, e.Gives ∧ s.stop ≤ e.base + e.length) ∧
      ∀ x, (∀ s ∈ sites, x < s.base ∨ s.first ≤ x) → m' x = m x := by
  have hmem : ∀ e ∈ scannedEntries memmap, e ∈ memmap := fun _ he =>
    (scannedEntries_sublist memmap).subset he
  have hgives : ∀ e ∈ (scannedEntries memmap).filter fun e => decide e.Gives,
      e ∈ scannedEntries memmap ∧ e.Gives := fun e he =>
    ⟨(List.mem_filter.mp he).1, of_decide_eq_true (List.mem_filter.mp he).2⟩
  rw [bitmapAllocatorInit_eq] at hinit
  have hapart := hmap.apart.sublist (scannedEntries_sublist memmap)
  obtain ⟨hareas, hentries, hframe⟩ := initAreas_entries hapart hinit
  obtain ⟨sites, hfresh, hplace, hall⟩ := entries_fresh
    (fun e he => hentries e (hgives e he).1 (hgives e he).2)
    (fun e he => (hmap.aligned e (hmem e (hgives e he).1) (hgives e he).2.1).1)
    (apart_gives hapart) (fun e he => hsmall e (hgives e he).1 (hgives e he).2)
  refine ⟨sites, hareas ▸ hfresh, fun s hs => ?_, fun x hx => hframe x fun e he hg => ?_⟩
  · obtain ⟨e, he, -, hstop⟩ := hplace s hs
    exact ⟨e, hmem e (hgives e he).1, (hgives e he).2, hstop⟩
  · obtain ⟨s, hs, hbase, hfirst⟩ := hall e (List.mem_filter.mpr ⟨he, decide_eq_true hg⟩)
    rw [← hfirst, ← hbase]
    exact hx s hs

theorem bitmapAllocatorInit_fresh {fuel : Nat} {memmap : List MemmapEntry} {m m' : ByteMemory}
    {areas : List Nat} (hmap : MemmapOk fuel memmap)
    (hinit : bitmapAllocatorInit fuel memmap m = some (m', areas)) :
    ∃ sites, FreshAreas m' areas sites ∧
      (∀ s ∈ sites, ∃ e ∈ memmap, e.Gives ∧ s.stop ≤ e.base + e.length) ∧
      ∀ x, (∀ s ∈ sites, x < s.base ∨ s.first ≤ x) → m' x = m x :=
  bitmapAllocatorInit_sites ⟨hmap.few, hmap.aligned, hmap.apart⟩
    (fun e he hgives => hmap.small e ((scannedEntries_sublist memmap).subset he) hgives _
      (scanned_split hinit he hgives)) hinit

/-- The page frames that meet no header, whether an area manages them or not. -/
structure Frame (sites : List Site) (p : Nat) : Prop where
  aligned : p % 0x1000 = 0
  apart : ∀ s ∈ sites, p + 0x1000 ≤ s.base ∨ s.first ≤ p

theorem Frame.outside {sites : List Site} {p x : Nat} (hp : Frame sites p) (hle : p ≤ x)
    (hlt : x < p + 0x1000) {s : Site} (hs : s ∈ sites) : x < s.base ∨ s.first ≤ x := by
  have := hp.apart s hs
  omega

/-- The counters and bitmaps of the areas agree with each other and with the
pages that are handed out. -/
structure PageInv (st : PageState) (sites : List Site) : Prop where
  places : st.areas = sites.map Site.base
  apart : sites.Pairwise Site.Apart
  kept : ∀ s ∈ sites, s.Kept st.mem
  marked : ∀ s ∈ sites, ∀ k < s.count, s.Marked st.mem k ↔ s.page k ∈ st.allocated
  pages : ∀ p ∈ st.allocated, ∃ s ∈ sites, ∃ k < s.count, p = s.page k
  nodup : st.allocated.Nodup

instance : Std.Symm Site.Apart := ⟨fun _ _ h => Or.symm h⟩

/-- Pages of different sites or with different numbers are different. -/
theorem Site.page_ne {s t : Site} (h : s.Apart t) {k i : Nat} (hk : k < s.count)
    (hi : i < t.count) : s.page k ≠ t.page i := by
  have hs := s.page_bounds hk
  have ht := t.page_bounds hi
  have := s.room
  have := t.room
  rcases h with h | h <;> omega

namespace PageInv

variable {st st' : PageState} {sites : List Site}

theorem of_fresh {areas : List Nat} {m : ByteMemory} (h : FreshAreas m areas sites) :
    PageInv ⟨areas, m, []⟩ sites :=
  ⟨h.places, h.apart, h.kept, fun s hs k hk => ⟨fun hm => absurd hm (h.clear s hs k hk), by simp⟩,
    by simp, List.nodup_nil⟩

theorem apart_of_ne (h : PageInv st sites) {s t : Site} (hs : s ∈ sites) (ht : t ∈ sites)
    (hne : s ≠ t) : s.Apart t :=
  h.apart.forall hs ht hne

/-- A change inside one header leaves the other areas as they are. -/
theorem other_kept (h : PageInv st sites) {s t : Site} (hs : s ∈ sites) (ht : t ∈ sites)
    (hne : t ≠ s) {m' : ByteMemory}
    (hframe : ∀ x, x < s.base ∨ s.first ≤ x → m' x = st.mem x) :
    t.Kept m' ∧ ∀ k < t.count, t.Marked m' k ↔ t.Marked st.mem k :=
  (h.kept t ht).of_apart (h.apart_of_ne ht hs hne) hframe

theorem allocate_step (h : PageInv st sites) (hstep : st.step .allocate = some st') :
    PageInv st' sites ∧
      ∀ x, (∀ s ∈ sites, x < s.base ∨ s.first ≤ x) → st'.mem x = st.mem x := by
  simp only [PageState.step, h.places] at hstep
  rcases allocatePage_cases h.kept with ⟨hnull, -⟩ | ⟨s, hs, k, hk, hclear, hsome⟩
  · rw [hnull] at hstep
    cases hstep
    exact ⟨⟨rfl, h.apart, h.kept, h.marked, h.pages, h.nodup⟩, fun _ _ => rfl⟩
  · rw [hsome, Option.map_some, if_neg (s.page_ne_null k)] at hstep
    cases hstep
    have hframe : ∀ x, x < s.base ∨ s.first ≤ x → s.take st.mem k x = st.mem x :=
      fun x hx => Site.take_outside hk hx
    have hnew : s.page k ∉ st.allocated := fun hmem => hclear ((h.marked s hs k hk).mpr hmem)
    refine ⟨⟨rfl, h.apart, fun t ht => ?_, fun t ht i hi => ?_, fun p hp => ?_,
      List.nodup_cons.mpr ⟨hnew, h.nodup⟩⟩, fun x hx => hframe x (hx s hs)⟩
    · by_cases hts : t = s
      · subst hts
        exact (h.kept t ht).take hk hclear
      · exact (h.other_kept hs ht hts hframe).1
    · by_cases hts : t = s
      · subst hts
        rw [Site.Marked, Site.bit_take, Bool.or_eq_true, decide_eq_true_iff, List.mem_cons,
          ← h.marked t ht i hi, Site.Marked, or_comm]
        exact or_congr ⟨fun heq => by rw [heq], fun heq => t.page_inj heq⟩ Iff.rfl
      · rw [(h.other_kept hs ht hts hframe).2 i hi, h.marked t ht i hi, List.mem_cons]
        exact ⟨Or.inr, fun hmem => hmem.resolve_left
          (Site.page_ne (h.apart_of_ne ht hs hts) hi hk)⟩
    · rcases List.mem_cons.mp hp with rfl | hp
      · exact ⟨s, hs, k, hk, rfl⟩
      · exact h.pages p hp

theorem free_step (h : PageInv st sites) {page : Nat}
    (hstep : st.step (.free page) = some st') : PageInv st' sites := by
  simp only [PageState.step, h.places] at hstep
  split at hstep
  · rename_i hmem
    cases hstep
    obtain ⟨s, hs, k, hk, rfl⟩ := h.pages page hmem
    have hmarked := (h.marked s hs k hk).mpr hmem
    rw [freePage_page h.kept h.apart hs hk hmarked]
    have hframe : ∀ x, x < s.base ∨ s.first ≤ x → s.drop st.mem k x = st.mem x :=
      fun x hx => Site.drop_outside hk hx
    refine ⟨rfl, h.apart, fun t ht => ?_, fun t ht i hi => ?_, fun p hp => ?_,
      h.nodup.erase _⟩
    · by_cases hts : t = s
      · subst hts
        exact (h.kept t ht).drop hk hmarked
      · exact (h.other_kept hs ht hts hframe).1
    · rw [h.nodup.mem_erase_iff]
      by_cases hts : t = s
      · subst hts
        rw [Site.Marked, Site.bit_drop, Bool.and_eq_true, decide_eq_true_iff,
          ← h.marked t ht i hi, Site.Marked, and_comm]
        exact and_congr ⟨fun hne heq => hne (t.page_inj heq), fun hne heq => hne (by rw [heq])⟩
          Iff.rfl
      · rw [(h.other_kept hs ht hts hframe).2 i hi, h.marked t ht i hi]
        exact ⟨fun hmem' => ⟨Site.page_ne (h.apart_of_ne ht hs hts) hi hk, hmem'⟩, And.right⟩
    · exact h.pages p (List.mem_of_mem_erase hp)
  · cases hstep

/-- A change that touches no header keeps the invariant. -/
theorem of_frame (h : PageInv st sites) {m' : ByteMemory}
    (hframe : ∀ s ∈ sites, ∀ x, s.base ≤ x → x < s.first → m' x = st.mem x) :
    PageInv { st with mem := m' } sites := by
  refine ⟨h.places, h.apart, fun s hs => (h.kept s hs).congr (hframe s hs),
    fun s hs k hk => ?_, h.pages, h.nodup⟩
  rw [Site.Marked, Site.marked_congr (hframe s hs) hk]
  exact h.marked s hs k hk

/-- A page of one area meets no header. -/
theorem frame_page (h : PageInv st sites) {t : Site} (ht : t ∈ sites) {k : Nat}
    (hk : k < t.count) : Frame sites (t.page k) := by
  have hbounds := t.page_bounds hk
  have halign := t.aligned
  refine ⟨by simp only [Site.page]; omega, fun s hs => ?_⟩
  have hroom := s.room
  have htroom := t.room
  by_cases hts : t = s
  · subst hts
    omega
  · rcases h.apart_of_ne ht hs hts with hapart | hapart
    · omega
    · simp only [Site.stop] at *
      omega

theorem frame (h : PageInv st sites) {p : Nat} (hp : p ∈ st.allocated) : Frame sites p := by
  obtain ⟨s, hs, k, hk, rfl⟩ := h.pages p hp
  exact h.frame_page hs hk

theorem page_outside (h : PageInv st sites) {p x : Nat} (hp : p ∈ st.allocated) (hle : p ≤ x)
    (hlt : x < p + 0x1000) {s : Site} (hs : s ∈ sites) : x < s.base ∨ s.first ≤ x :=
  (h.frame hp).outside hle hlt hs

/-- What clients may write lies in no header. -/
theorem not_header (h : PageInv st sites) {x : Nat} (hx : st.Writable x) {s : Site}
    (hs : s ∈ sites) : x < s.base ∨ s.first ≤ x := by
  rcases hx with ⟨p, hp, hle, hlt⟩ | hout
  · exact h.page_outside hp hle hlt hs
  · have hout' := hout s.base (by rw [h.places]; exact List.mem_map_of_mem hs)
    rw [h.kept s hs] at hout'
    simp only [Area.stop] at hout'
    omega

theorem store_step (h : PageInv st sites) {x : Nat} {v : UInt8}
    (hstep : st.step (.store x v) = some st') : PageInv st' sites := by
  simp only [PageState.step] at hstep
  split at hstep
  · rename_i hx
    cases hstep
    refine h.of_frame fun s hs y hle hlt => ?_
    have hne : y ≠ x := by
      have := h.not_header hx hs
      omega
    simp [Function.update, hne]
  · cases hstep

theorem step (h : PageInv st sites) {a : PageAction} (hstep : st.step a = some st') :
    PageInv st' sites := by
  cases a with
  | allocate => exact (h.allocate_step hstep).1
  | free page => exact h.free_step hstep
  | store x v => exact h.store_step hstep

end PageInv

/-- What holds of the allocator between two calls. -/
structure PageState.Sound (st : PageState) : Prop where
  used : ∀ a ∈ st.areas, (Area.read st.mem a).used =
    Bitmap.count st.mem (data a) (Area.read st.mem a).pagesCount
  returns : ∃ m' page, allocatePage st.mem st.areas = some (m', page) ∧
    (page = NULL ↔ ∀ a ∈ st.areas, ∀ k < (Area.read st.mem a).pagesCount,
      (Area.read st.mem a).firstPage + k * 0x1000 ∈ st.allocated) ∧
    (page ≠ NULL → page % 0x1000 = 0 ∧ page ∉ st.allocated ∧
      (∃ a ∈ st.areas, (Area.read st.mem a).firstPage ≤ page ∧
        page + 0x1000 ≤ (Area.read st.mem a).stop) ∧
      ∀ a ∈ st.areas, page + 0x1000 ≤ a ∨ (Area.read st.mem a).firstPage ≤ page)

theorem PageInv.sound {st : PageState} {sites : List Site} (h : PageInv st sites) : st.Sound := by
  have harea : ∀ a ∈ st.areas, ∃ s ∈ sites, a = s.base ∧
      Area.read st.mem a = ⟨s.first, s.count, Bitmap.count st.mem (data s.base) s.count⟩ := by
    intro a ha
    rw [h.places] at ha
    obtain ⟨s, hs, rfl⟩ := List.mem_map.mp ha
    exact ⟨s, hs, rfl, h.kept s hs⟩
  constructor
  · intro a ha
    obtain ⟨s, hs, rfl, hread⟩ := harea a ha
    rw [hread]
  · rw [h.places]
    rcases allocatePage_cases h.kept with ⟨hnull, hall⟩ | ⟨s, hs, k, hk, hclear, hsome⟩
    · refine ⟨st.mem, NULL, hnull, ⟨fun _ a ha k hk => ?_, fun _ => rfl⟩, fun hne => absurd rfl hne⟩
      rw [← h.places] at ha
      obtain ⟨s, hs, rfl, hread⟩ := harea a ha
      rw [hread] at hk ⊢
      exact (h.marked s hs k hk).mp (hall s hs k hk)
    · have hnew : s.page k ∉ st.allocated := fun hmem => hclear ((h.marked s hs k hk).mpr hmem)
      have hbounds := s.page_bounds hk
      have hroom := s.room
      have halign := s.aligned
      refine ⟨_, s.page k, hsome, ⟨fun hnull => absurd hnull (s.page_ne_null k), fun hall => ?_⟩,
        fun _ => ⟨by simp only [Site.page]; omega, hnew, ⟨s.base, List.mem_map_of_mem hs, ?_⟩,
          fun a ha => ?_⟩⟩
      · have hmem := hall s.base (List.mem_map_of_mem hs) k (by rw [h.kept s hs]; exact hk)
        rw [h.kept s hs] at hmem
        exact absurd hmem hnew
      · rw [h.kept s hs]
        exact hbounds
      · rw [← h.places] at ha
        obtain ⟨t, ht, rfl, hread⟩ := harea a ha
        rw [hread]
        by_cases hts : t = s
        · subst hts
          exact Or.inr hbounds.1
        · rcases h.apart_of_ne ht hs hts with hapart | hapart
          · simp only [Site.stop] at hapart
            simp only
            omega
          · omega

/-- After every run on a memory map as in `MemmapOk`, counters and bitmaps
agree, and the next `allocate_page` comes back with an unused managed page, or
with NULL when there is none. -/
theorem pageMachine_sound {fuel : Nat} {memmap : List MemmapEntry} {m m₀ : ByteMemory}
    {areas : List Nat} {run : List PageAction} {st : PageState} (hmap : MemmapOk fuel memmap)
    (hinit : bitmapAllocatorInit fuel memmap m = some (m₀, areas))
    (hrun : pageMachine.exec ⟨areas, m₀, []⟩ run = some st) : st.Sound := by
  obtain ⟨sites, hfresh, -, -⟩ := bitmapAllocatorInit_fresh hmap hinit
  have hinv : PageInv st sites := pageMachine.exec_invariant_always (I := fun st => PageInv st sites)
    (fun _ _ _ hinv hstep => hinv.step hstep) (PageInv.of_fresh hfresh) hrun
  exact hinv.sound

/-- Three pages at 0x101000, one page at 0x201000 and an entry that is not usable. -/
def threeEntries : List MemmapEntry :=
  [⟨0x100000, 0x4000, 0, by decide⟩, ⟨0x180000, 0x8000, 1, by decide⟩,
    ⟨0x200000, 0x2000, 0, by decide⟩]

theorem threeEntries_ok : MemmapOk 3 threeEntries := by
  refine ⟨by decide, by decide, by decide, ?_⟩
  intro e he _ pages hpages
  have hsplit : ∀ e ∈ threeEntries, (e.split 3).all fun r => r.2 ≤ 1000000 := by decide
  have hall := hsplit e he
  rw [hpages] at hall
  simpa using hall

/-- All four pages are handed out, one is written and freed, and handed out again. -/
def fillAndReuse : List PageAction :=
  [.allocate, .allocate, .allocate, .allocate, .allocate, .store 0x102008 5, .free 0x102000,
    .allocate]

theorem pageMachine_sound_fillAndReuse : ∃ m₀ areas st,
    bitmapAllocatorInit 3 threeEntries (fun _ => 0xff) = some (m₀, areas) ∧
      pageMachine.exec ⟨areas, m₀, []⟩ fillAndReuse = some st ∧
      st.allocated = [0x102000, 0x201000, 0x103000, 0x101000] ∧ st.Sound := by
  have hrun : ((bitmapAllocatorInit 3 threeEntries (fun _ => 0xff)).bind fun r =>
      pageMachine.exec ⟨r.2, r.1, []⟩ fillAndReuse).map PageState.allocated =
        some [0x102000, 0x201000, 0x103000, 0x101000] := by decide +kernel
  obtain ⟨st, hst, hallocated⟩ := Option.map_eq_some_iff.mp hrun
  obtain ⟨⟨m₀, areas⟩, hinit, hexec⟩ := Option.bind_eq_some_iff.mp hst
  exact ⟨m₀, areas, st, hinit, hexec, hallocated,
    pageMachine_sound threeEntries_ok hinit hexec⟩

end BayosKernel
