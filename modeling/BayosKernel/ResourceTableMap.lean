import BayosKernel.ResourceTable

/-!
The resource table as a finite map, as long as every new slot reads EMPTY in the
memory that `alloc` hands out; nothing clears it.
-/

namespace BayosKernel

open Foundation BlockList

namespace Resource

variable {m m' : ByteMemory} {p q : Nat} {r : Resource}

theorem read_congr (h : ∀ x, p ≤ x → x < p + 16 → m' x = m x) : read m' p = read m p := by
  have htype : m'.load 4 p = m.load 4 p :=
    ByteMemory.load_congr fun x hle hlt => h x hle (by omega)
  have hres : m'.load 8 (p + 8) = m.load 8 (p + 8) :=
    ByteMemory.load_congr fun x hle hlt => h x (by omega) (by omega)
  simp only [read, htype, hres]

theorem write_outside {x : Nat} (h : x < p ∨ p + 16 ≤ x) : write m p r x = m x := by
  rw [write, ByteMemory.store_outside _ (by omega), ByteMemory.store_outside _ (by omega)]

/-- A resource whose fields fit in the struct. -/
def Fits (r : Resource) : Prop := r.type < 0x100000000 ∧ r.res < 0x10000000000000000

theorem read_write (hr : r.Fits) : read (write m p r) p = r := by
  have htype : (write m p r).load 4 p = r.type := by
    rw [write, ByteMemory.load_store_apart _ (by omega)]
    exact ByteMemory.load_store m (show r.type < ByteMemory.capacity 4 from hr.1)
  have hres : (write m p r).load 8 (p + 8) = r.res := ByteMemory.load_store_word _ hr.2
  simp only [read, htype, hres]

theorem read_write_apart (h : q + 16 ≤ p ∨ p + 16 ≤ q) : read (write m p r) q = read m q :=
  read_congr fun _ _ _ => write_outside (by omega)

theorem read_fits (m : ByteMemory) (p : Nat) : (read m p).Fits :=
  ⟨m.load_lt 4 p, m.load_lt 8 (p + 8)⟩

theorem copyTable_outside {oldTbl newTbl cap x : Nat}
    (h : x < newTbl ∨ newTbl + 16 * cap ≤ x) : copyTable m oldTbl newTbl cap x = m x := by
  induction cap with
  | zero => rfl
  | succ cap ih =>
      rw [copyTable, write_outside (by simp only [slot, sizeofResource]; omega)]
      exact ih (by omega)

theorem copyTable_read {oldTbl newTbl cap i : Nat} (hi : i < cap)
    (hapart : newTbl + 16 * cap ≤ oldTbl ∨ oldTbl + 16 * cap ≤ newTbl) :
    read (copyTable m oldTbl newTbl cap) (slot newTbl i) = read m (slot oldTbl i) := by
  induction cap with
  | zero => omega
  | succ cap ih =>
      have hold : read (copyTable m oldTbl newTbl cap) (slot oldTbl cap) =
          read m (slot oldTbl cap) :=
        read_congr fun x hle hlt => copyTable_outside (by
          simp only [slot, sizeofResource] at hle hlt
          omega)
      by_cases hlast : i = cap
      · rw [hlast, copyTable, read_write (read_fits _ _), hold]
      · rw [copyTable, read_write_apart (by simp only [slot, sizeofResource]; omega)]
        exact ih (by omega) (by omega)

theorem findEmpty_some {table i left n : Nat} (h : findEmpty m table i left = some n) :
    i ≤ n ∧ n < i + left ∧ (read m (slot table n)).type = EMPTY ∧
      ∀ k, i ≤ k → k < n → (read m (slot table k)).type ≠ EMPTY := by
  induction left generalizing i with
  | zero => simp [findEmpty] at h
  | succ left ih =>
      rw [findEmpty] at h
      split at h
      · rename_i hempty
        cases h
        exact ⟨Nat.le_refl _, by omega, hempty, fun k _ _ => by omega⟩
      · rename_i hused
        obtain ⟨hle, hlt, hempty, hbefore⟩ := ih h
        refine ⟨by omega, by omega, hempty, fun k hik hkn => ?_⟩
        by_cases hk : k = i
        · rw [hk]
          exact hused
        · exact hbefore k (by omega) hkn

theorem findEmpty_none {table i left : Nat} (h : findEmpty m table i left = none) :
    ∀ k, i ≤ k → k < i + left → (read m (slot table k)).type ≠ EMPTY := by
  induction left generalizing i with
  | zero =>
      intro k _ _
      omega
  | succ left ih =>
      rw [findEmpty] at h
      split at h
      · cases h
      · rename_i hused
        intro k hik hk
        by_cases hki : k = i
        · rw [hki]
          exact hused
        · exact ih h k (by omega) (by omega)

/-- The search finds the first slot that reads EMPTY. -/
theorem findEmpty_eq {table i left n : Nat} (hle : i ≤ n) (hlt : n < i + left)
    (hempty : (read m (slot table n)).type = EMPTY)
    (hbefore : ∀ k, i ≤ k → k < n → (read m (slot table k)).type ≠ EMPTY) :
    findEmpty m table i left = some n := by
  cases hfind : findEmpty m table i left with
  | none => exact absurd hempty (findEmpty_none hfind n hle hlt)
  | some k =>
      obtain ⟨hik, -, hk, hfirst⟩ := findEmpty_some hfind
      rcases Nat.lt_trichotomy k n with h | h | h
      · exact absurd hk (hbefore k hik h)
      · rw [h]
      · exact absurd hempty (hfirst n hle h)

end Resource

open Resource

/-- There is a block for the table, and from slot `i` on it reads EMPTY. -/
def EmptyFrom (i cap : Nat) (new : HeapState × Nat) : Prop :=
  new.2 ≠ NULL ∧ ∀ k < cap, i ≤ k → (read new.1.mem (slot new.2 k)).type = EMPTY

instance (i cap : Nat) : DecidablePred (EmptyFrom i cap) := fun _ =>
  inferInstanceAs (Decidable (_ ∧ _))

/-- The table is a live block of the kernel heap. -/
structure TableOk (fuel c : Nat) (s : TableState) : Prop where
  al : s.heap.al = ⟨kernelHeap, kernelHeap, 0x200000⟩
  fuel : 0x200000 ≤ fuel
  heap : ∃ bs, HeapInv s.heap bs
  pos : 0 < c
  cap : s.resourcesCap = (c : Int)
  owned : (s.resources, 16 * c) ∈ s.heap.live

namespace TableOk

variable {fuel c : Nat} {s : TableState}

theorem le (h : TableOk fuel c s) : c ≤ 0x20000 := by
  obtain ⟨bs, hinv⟩ := h.heap
  have := hinv.liveBlocks.inside _ h.owned
  rw [h.al] at this
  simp only [granted] at this
  omega

theorem sizeT_cap (h : TableOk fuel c s) : sizeT s.resourcesCap = c := by
  have := h.le
  rw [h.cap, sizeT]
  omega

theorem view_eq (h : TableOk fuel c s) (n : Nat) :
    s.view n = if n < c ∧ (s.slotAt n).type ≠ EMPTY then some (s.slotAt n) else none := by
  rw [TableState.view, h.sizeT_cap]

/-- A write to one slot. -/
theorem setSlot (h : TableOk fuel c s) {n : Nat} {r : Resource} (hn : n < c) (hr : r.Fits) :
    TableOk fuel c (s.setSlot n r) ∧
      (s.setSlot n r).view = Function.update s.view n (if r.type ≠ EMPTY then some r else none) := by
  obtain ⟨bs, hinv⟩ := h.heap
  have hok : TableOk fuel c (s.setSlot n r) := by
    refine ⟨h.al, h.fuel, ⟨bs, hinv.of_block h.owned fun x hx => ?_⟩, h.pos, h.cap, h.owned⟩
    exact write_outside (by simp only [slot, sizeofResource]; omega)
  refine ⟨hok, ?_⟩
  funext k
  rw [hok.view_eq]
  by_cases hk : k = n
  · have hhere : (s.setSlot n r).slotAt n = r := read_write hr
    rw [hk, hhere, Function.update_self]
    simp [hn]
  · have hthere : (s.setSlot n r).slotAt k = s.slotAt k := by
      change read (write s.heap.mem _ r) (slot s.resources k) = _
      exact read_write_apart (by simp only [slot, sizeofResource]; omega)
    rw [hthere, Function.update_of_ne hk, h.view_eq]

/-- `resource_add` where the search finds a slot. -/
theorem add_found (h : TableOk fuel c s) {n : Nat} {r : Resource} (hr : r.Fits)
    (htype : r.type ≠ EMPTY)
    (hfind : findEmpty s.heap.mem s.resources 0 (sizeT s.resourcesCap) = some n) :
    TableOk fuel c (s.setSlot n r) ∧ int32 n = n ∧ s.view n = none ∧
      (∀ k < n, s.view k ≠ none) ∧ (s.setSlot n r).view = Function.update s.view n (some r) := by
  obtain ⟨-, hlt, hempty, hbefore⟩ := findEmpty_some hfind
  rw [h.sizeT_cap, Nat.zero_add] at hlt
  have hle := h.le
  obtain ⟨hok, hview⟩ := h.setSlot hlt hr
  rw [if_pos htype] at hview
  refine ⟨hok, int32_of_range (by omega) (by omega), ?_, fun k hk => ?_, hview⟩
  · have hslot : (s.slotAt n).type = EMPTY := hempty
    simp [h.view_eq, hslot]
  · have hslot : (s.slotAt k).type ≠ EMPTY := hbefore k (Nat.zero_le k) hk
    rw [h.view_eq, if_pos ⟨by omega, hslot⟩]
    simp

/-- Growth keeps the map, and the first new slot is the free one. -/
theorem grow (h : TableOk fuel c s) {heap : HeapState} {newTbl : Nat}
    (hfull : findEmpty s.heap.mem s.resources 0 (sizeT s.resourcesCap) = none)
    (htake : resourceTableAlloc fuel s.heap (mul64 (sizeT s.resourcesCap) 2) = some (heap, newTbl))
    (hclean : EmptyFrom c (2 * c) (heap, newTbl)) :
    TableOk fuel (2 * c) (s.grow heap newTbl) ∧ (s.grow heap newTbl).view = s.view ∧
      ∃ n, findEmpty (s.grow heap newTbl).heap.mem (s.grow heap newTbl).resources 0
        (sizeT (s.grow heap newTbl).resourcesCap) = some n := by
  obtain ⟨bs, hinv⟩ := h.heap
  obtain ⟨hne, hempty⟩ := hclean
  have hle := h.le
  have hdouble : mul64 c 2 = 2 * c := by
    rw [mul64_eq (by omega)]
    omega
  have hbytes : mul64 (2 * c) sizeofResource = 16 * (2 * c) := by
    rw [mul64_eq (by simp only [sizeofResource]; omega)]
    simp only [sizeofResource]
    omega
  rw [h.sizeT_cap, hdouble, resourceTableAlloc, hbytes] at htake
  have hfuel : s.heap.al.size ≤ fuel := by
    rw [h.al]
    exact h.fuel
  obtain ⟨-, hend, ⟨bs', hinv'⟩, hal, hlive, hothers⟩ :=
    (hinv.take_cases hfuel (by omega) htake).resolve_left fun hnull => hne hnull.1
  obtain ⟨hapart, hsame⟩ := hothers _ h.owned
  simp only at hapart hsame
  -- the copy stays in the new block
  let copied : HeapState := { heap with mem := copyTable heap.mem s.resources newTbl c }
  have hcopied : ∀ x, x < newTbl ∨ newTbl + 16 * (2 * c) ≤ x → copied.mem x = heap.mem x :=
    fun x hx => copyTable_outside (by omega)
  have hnew : (newTbl, 16 * (2 * c)) ∈ heap.live := by
    rw [hlive]
    exact List.mem_cons_self
  have hold : (s.resources, 16 * c) ∈ copied.live := by
    change _ ∈ heap.live
    rw [hlive]
    exact List.mem_cons_of_mem _ h.owned
  have hinv₁ : HeapInv copied bs' := hinv'.of_block hnew hcopied
  obtain ⟨hinv₂, hkept⟩ := hinv₁.give_block hold
  have hpos := h.pos
  obtain ⟨hnew', hbytes'⟩ := hkept _ hnew (by simp only; omega)
  have hgrow : s.grow heap newTbl =
      ⟨copied.give s.resources, newTbl, int32 ((2 * c : Nat) : Int), s.log⟩ := by
    simp only [TableState.grow, h.sizeT_cap, hdouble]
    rfl
  have hcap : int32 ((2 * c : Nat) : Int) = ((2 * c : Nat) : Int) :=
    int32_of_range (by omega) (by omega)
  rw [hcap] at hgrow
  have hok : TableOk fuel (2 * c) (s.grow heap newTbl) := by
    rw [hgrow]
    exact ⟨hal.trans h.al, h.fuel, hinv₂, by omega, rfl, hnew'⟩
  have hslot : ∀ i < 2 * c, (s.grow heap newTbl).slotAt i =
      if i < c then s.slotAt i else read heap.mem (slot newTbl i) := by
    intro i hi
    have hgiven : (s.grow heap newTbl).slotAt i = read copied.mem (slot newTbl i) := by
      rw [hgrow]
      refine read_congr fun x hle hlt => hbytes' x ?_ ?_ <;>
        simp only [slot, sizeofResource] at hle hlt ⊢ <;> omega
    rw [hgiven]
    by_cases hic : i < c
    · rw [if_pos hic]
      refine (copyTable_read hic (by omega)).trans (read_congr fun x hle hlt => hsame x ?_ ?_) <;>
        simp only [slot, sizeofResource] at hle hlt ⊢ <;> omega
    · rw [if_neg hic]
      refine read_congr fun x hle hlt => copyTable_outside ?_
      simp only [slot, sizeofResource] at hle hlt
      omega
  have hused : ∀ k < c, (s.slotAt k).type ≠ EMPTY := by
    rw [h.sizeT_cap] at hfull
    exact fun k hk => findEmpty_none hfull k (Nat.zero_le k) (by omega)
  have hfirst : ((s.grow heap newTbl).slotAt c).type = EMPTY := by
    rw [hslot c (by omega), if_neg (Nat.lt_irrefl c)]
    exact hempty c (by omega) (Nat.le_refl c)
  refine ⟨hok, ?_, c, ?_⟩
  · funext n
    rw [hok.view_eq, h.view_eq]
    by_cases hn : n < c
    · rw [hslot n (by omega), if_pos hn]
      simp [hn, show n < 2 * c by omega]
    · simp only [hn, false_and, if_false]
      by_cases hn' : n < 2 * c
      · have hclear := hempty n hn' (by omega)
        simp only [hslot n hn', if_neg hn]
        exact if_neg fun hand => hand.2 hclear
      · exact if_neg fun hand => hn' hand.1
  · rw [hok.sizeT_cap]
    refine findEmpty_eq (Nat.zero_le c) (by omega) hfirst fun k _ hk => ?_
    have hk' := hslot k (by omega)
    rw [if_pos hk] at hk'
    have := hused k hk
    rw [← hk'] at this
    exact this

theorem alloc_returns (h : TableOk fuel c s) :
    ∃ new, resourceTableAlloc fuel s.heap (2 * c) = some new := by
  obtain ⟨bs, hinv⟩ := h.heap
  have hle := h.le
  have hfuel : s.heap.al.size ≤ fuel := by
    rw [h.al]
    exact h.fuel
  have hbytes : mul64 (2 * c) sizeofResource = 16 * (2 * c) := by
    rw [mul64_eq (by simp only [sizeofResource]; omega)]
    simp only [sizeofResource]
    omega
  rw [resourceTableAlloc, hbytes, HeapState.take]
  rcases hinv.alloc_cases hfuel (n := 16 * (2 * c)) (by omega) with
    hnull | ⟨m, o, -, hsome, -⟩
  · exact ⟨_, by rw [hnull]; rfl⟩
  · exact ⟨_, by rw [hsome]; rfl⟩

/-- `resource_add` returns the smallest unbound descriptor and binds it. -/
theorem resourceAdd (h : TableOk fuel c s) {r : Resource} {retries : Nat} (hr : r.Fits)
    (htype : r.type ≠ EMPTY) (hretries : 2 ≤ retries)
    (hclean : findEmpty s.heap.mem s.resources 0 (sizeT s.resourcesCap) = none →
      ∀ new, resourceTableAlloc fuel s.heap (mul64 (sizeT s.resourcesCap) 2) = some new →
        EmptyFrom c (2 * c) new) :
    ∃ (s' : TableState) (n c' : Nat), s.resourceAdd fuel r retries = some (s', (n : Int)) ∧ TableOk fuel c' s' ∧
      s'.log = s.log ∧ s.view n = none ∧ (∀ k < n, s.view k ≠ none) ∧
        s'.view = Function.update s.view n (some r) := by
  obtain ⟨retries, rfl⟩ : ∃ k, retries = k + 2 := ⟨retries - 2, by omega⟩
  rw [TableState.resourceAdd]
  cases hfind : findEmpty s.heap.mem s.resources 0 (sizeT s.resourcesCap) with
  | some n =>
      obtain ⟨hok, hint, hfree, hbefore, hview⟩ := h.add_found hr htype hfind
      exact ⟨_, n, c, by simp only [hint], hok, rfl, hfree, hbefore, hview⟩
  | none =>
      have hdouble : mul64 (sizeT s.resourcesCap) 2 = 2 * c := by
        have := h.le
        rw [h.sizeT_cap, mul64_eq (by omega)]
        omega
      obtain ⟨⟨heap, newTbl⟩, htake⟩ := h.alloc_returns
      rw [← hdouble] at htake
      have hempty := hclean hfind _ htake
      obtain ⟨hok, hsame, n, hn⟩ := h.grow hfind htake hempty
      obtain ⟨hok', hint, hfree, hbefore, hview⟩ := hok.add_found hr htype hn
      rw [hsame] at hfree hbefore hview
      refine ⟨_, n, 2 * c, ?_, hok', rfl, hfree, hbefore, hview⟩
      simp only [htake, Option.bind_some, if_neg hempty.1]
      rw [TableState.resourceAdd, hn]
      simp only [hint]

/-- What is outside the table reads as unbound. -/
theorem lookup_view (h : TableOk fuel c s) (fd : Int) :
    s.view.lookup fd =
      if 0 ≤ fd ∧ fd.toNat < c ∧ (s.slotAt fd.toNat).type ≠ EMPTY then some (s.slotAt fd.toNat)
      else none := by
  rw [Bindings.lookup, h.view_eq]
  by_cases hneg : 0 ≤ fd
  · simp [hneg]
  · simp [hneg]

theorem sizeT_int {fd : Int} (hpos : 0 ≤ fd) (hfd : fd < 0x80000000) : sizeT fd = fd.toNat := by
  rw [sizeT]
  omega

theorem resourceRemove (h : TableOk fuel c s) {fd : Int} (hfd : fd < 0x80000000) :
    TableOk fuel c (s.resourceRemove fd).1 ∧ (s.resourceRemove fd).1.log = s.log ∧
      (s.resourceRemove fd).2 = (s.view.lookup fd).elim NULL Resource.res ∧
        (s.resourceRemove fd).1.view =
          if 0 ≤ fd then Function.update s.view fd.toNat none else s.view := by
  rw [h.lookup_view fd, TableState.resourceRemove, h.sizeT_cap]
  by_cases hpos : 0 ≤ fd
  · rw [sizeT_int hpos hfd, if_pos hpos]
    by_cases hlt : fd.toNat < c
    · obtain ⟨hok, hview⟩ := h.setSlot (r := ⟨EMPTY, NULL⟩) hlt ⟨by decide, by decide⟩
      rw [if_pos ⟨hpos, hlt⟩]
      refine ⟨hok, rfl, ?_, hview⟩
      by_cases hused : (s.slotAt fd.toNat).type = EMPTY
      · simp [hused]
      · simp [hpos, hlt, hused]
    · have hunbound : s.view fd.toNat = none := by
        rw [h.view_eq]
        exact if_neg fun hand => hlt hand.1
      rw [if_neg fun hand => hlt hand.2]
      refine ⟨h, rfl, ?_, ?_⟩
      · simp [hlt]
      · rw [← hunbound, Function.update_eq_self]
  · simp [hpos, h]

/-- Both calls dispatch on the binding, or answer -1. -/
theorem dispatch (h : TableOk fuel c s) {fd : Int} (hfd : fd < 0x80000000) :
    s.resourceRead fd = (s.view.lookup fd).elim .invalid Resource.dispatch ∧
      s.resourceWrite fd = (s.view.lookup fd).elim .invalid Resource.dispatch := by
  rw [TableState.resourceRead, TableState.resourceWrite, and_self, h.lookup_view fd,
    TableState.resourceGet, h.sizeT_cap]
  by_cases hpos : 0 ≤ fd
  · rw [sizeT_int hpos hfd]
    by_cases hlt : fd.toNat < c
    · rw [if_neg (by omega)]
      by_cases hused : (s.slotAt fd.toNat).type = EMPTY
      · simp [hused, Resource.dispatch]
      · simp [hpos, hlt, hused]
    · rw [if_pos (by omega)]
      simp [hlt]
  · rw [if_pos (by omega)]
    simp [hpos]

/-- Calls on other blocks of the heap. -/
theorem foreign (h : TableOk fuel c s) {a : HeapAction} {heap : HeapState} (hforeign : s.Foreign a)
    (hfits : a.Fits s.heap) (hstep : s.heap.step fuel a = some heap) :
    TableOk fuel c { s with heap := heap } ∧ ({ s with heap := heap } : TableState).view = s.view := by
  obtain ⟨bs, hinv⟩ := h.heap
  have hpos := h.pos
  have hfuel : s.heap.al.size ≤ fuel := by
    rw [h.al]
    exact h.fuel
  have hkeeps : ∀ x, s.resources ≤ x → x < s.resources + 16 * c →
      (s.resources, 16 * c) ∈ heap.live ∧ heap.mem x = s.heap.mem x := by
    intro x hle hlt
    refine hinv.step_keeps hfuel hfits hstep h.owned ⟨hle, ?_⟩ ?_ fun v => ?_
    · simp only [granted]
      omega
    · rintro rfl
      exact hforeign rfl
    · rintro rfl
      simp only [TableState.Foreign, h.sizeT_cap, sizeofResource] at hforeign
      omega
  have hok : TableOk fuel c { s with heap := heap } :=
    ⟨(HeapState.step_al hstep).trans h.al, h.fuel, hinv.step hfuel hfits hstep, hpos, h.cap,
      (hkeeps s.resources (Nat.le_refl _) (by omega)).1⟩
  refine ⟨hok, ?_⟩
  funext n
  rw [hok.view_eq, h.view_eq]
  by_cases hn : n < c
  · have hslot : ({ s with heap := heap } : TableState).slotAt n = s.slotAt n := by
      refine read_congr fun x hle hlt => (hkeeps x ?_ ?_).2 <;>
        simp only [slot, sizeofResource] at hle hlt <;> omega
    rw [hslot]
  · simp [hn]

end TableOk

namespace TableAction

/-- Calls with a descriptor that is an `int` and a pipe or a file; requests to
the heap that do not wrap. -/
def Valid (s : TableState) : TableAction → Prop
  | .add r => r.Fits ∧ (r.type = PIPE ∨ r.type = FILE)
  | .remove fd => fd < 0x80000000
  | .read fd => fd < 0x80000000
  | .write fd => fd < 0x80000000
  | .heap a => a.Fits s.heap

instance (s : TableState) : DecidablePred (Valid s)
  | .add _ => inferInstanceAs (Decidable ((_ ∧ _) ∧ _))
  | .remove _ => inferInstanceAs (Decidable (_ < _))
  | .read _ => inferInstanceAs (Decidable (_ < _))
  | .write _ => inferInstanceAs (Decidable (_ < _))
  | .heap a => inferInstanceAs (Decidable (a.Fits s.heap))

/-- Where the table has to grow, there is a block for it whose new half reads EMPTY. -/
def Clean (fuel : Nat) (s : TableState) : TableAction → Prop
  | .add _ => findEmpty s.heap.mem s.resources 0 (sizeT s.resourcesCap) = none →
      ∀ new ∈ resourceTableAlloc fuel s.heap (mul64 (sizeT s.resourcesCap) 2),
        EmptyFrom (sizeT s.resourcesCap) (2 * sizeT s.resourcesCap) new
  | _ => True

instance (fuel : Nat) (s : TableState) : DecidablePred (Clean fuel s)
  | .add _ => inferInstanceAs (Decidable (_ → ∀ new ∈ _, EmptyFrom _ _ new))
  | .remove _ => isTrue trivial
  | .read _ => isTrue trivial
  | .write _ => isTrue trivial
  | .heap _ => isTrue trivial

end TableAction

/-- The calls so far are those of the map that the table now holds. -/
def BindingsInv (fuel : Nat) (s : TableState) : Prop :=
  (∃ c, TableOk fuel c s) ∧ Explains s.log s.view

namespace BindingsInv

variable {fuel retries : Nat} {s s' : TableState}

theorem of_call {a : TableAction} {out : TableResult} {c : Nat} (h : BindingsInv fuel s)
    (hok : TableOk fuel c s') (hlog : s'.log = s.log) (hcall : MapCall s.view s'.view a out) :
    BindingsInv fuel (s'.note a out) := by
  refine ⟨⟨c, hok.al, hok.fuel, hok.heap, hok.pos, hok.cap, hok.owned⟩, s.view, ?_, hcall⟩
  rw [hlog]
  exact h.2

theorem add (h : BindingsInv fuel s) {r : Resource} (hretries : 2 ≤ retries)
    (hvalid : (TableAction.add r).Valid s) (hclean : (TableAction.add r).Clean fuel s) :
    ∃ s', s.step fuel retries (.add r) = some s' ∧ BindingsInv fuel s' := by
  obtain ⟨c, hok⟩ := h.1
  have htype : r.type ≠ EMPTY := by
    rcases hvalid.2 with htype | htype <;> rw [htype] <;> decide
  simp only [TableAction.Clean] at hclean
  obtain ⟨s', n, c', hadd, hok', hlog, hfree, hbefore, hview⟩ :=
    hok.resourceAdd hvalid.1 htype hretries fun hfull new hnew => by
      have := hclean hfull new hnew
      rwa [hok.sizeT_cap] at this
  refine ⟨_, by rw [TableState.step, hadd]; rfl, h.of_call hok' hlog ?_⟩
  exact ⟨n, hfree, hbefore, rfl, hview⟩

/-- Every call is one of the map. -/
theorem step (h : BindingsInv fuel s) (hretries : 2 ≤ retries) {a : TableAction}
    (hvalid : a.Valid s) (hclean : a.Clean fuel s) (hstep : s.step fuel retries a = some s') :
    BindingsInv fuel s' := by
  obtain ⟨c, hok⟩ := h.1
  cases a with
  | add r =>
      obtain ⟨s₁, hadd, hinv⟩ := h.add hretries hvalid hclean
      rw [hstep] at hadd
      cases hadd
      exact hinv
  | remove fd =>
      cases hstep
      obtain ⟨hok', hlog, hret, hview⟩ := hok.resourceRemove hvalid
      exact h.of_call hok' hlog ⟨congrArg _ hret, hview⟩
  | read fd =>
      cases hstep
      exact h.of_call hok rfl ⟨(hok.dispatch hvalid).1, rfl⟩
  | write fd =>
      cases hstep
      exact h.of_call hok rfl ⟨(hok.dispatch hvalid).2, rfl⟩
  | heap a =>
      simp only [TableState.step] at hstep
      split at hstep
      · rename_i hforeign
        obtain ⟨heap, hheap, rfl⟩ := Option.map_eq_some_iff.mp hstep
        obtain ⟨hok', hview⟩ := hok.foreign hforeign hvalid hheap
        refine ⟨⟨c, hok'⟩, ?_⟩
        rw [hview]
        exact h.2
      · cases hstep

end BindingsInv

/-- The table that `resource_table_alloc(RESOURCES_INITIAL_CAP)` gave a process. -/
def startTable (new : HeapState × Nat) : TableState := ⟨new.1, new.2, resourcesInitialCap, []⟩

theorem startTable_inv {fuel : Nat} {m : ByteMemory} {history : List HeapAction}
    {heap : HeapState} {new : HeapState × Nat} (hfuel : 0x200000 ≤ fuel)
    (hfits : (heapMachine fuel).Meets (fun st a => a.Fits st) (newHeap m kernelHeap 0x200000) history)
    (hhistory : (heapMachine fuel).exec (newHeap m kernelHeap 0x200000) history = some heap)
    (hnew : resourceTableAlloc fuel heap resourcesInitialCap = some new)
    (hempty : EmptyFrom 0 resourcesInitialCap new) : BindingsInv fuel (startTable new) := by
  obtain ⟨hal, bs, hinv⟩ := heapMachine_inv (by decide) (by decide) hfuel hfits hhistory
  obtain ⟨heap', p⟩ := new
  have hfuel' : heap.al.size ≤ fuel := by
    rw [hal]
    exact hfuel
  have hbytes : mul64 resourcesInitialCap sizeofResource = 16 * 128 := by decide
  rw [resourceTableAlloc, hbytes] at hnew
  obtain ⟨-, -, hinv', hal', hlive, -⟩ :=
    (hinv.take_cases hfuel' (by decide) hnew).resolve_left fun hnull => hempty.1 hnull.1
  have hok : TableOk fuel 128 (startTable (heap', p)) := by
    refine ⟨hal'.trans hal, hfuel, hinv', by decide, rfl, ?_⟩
    simp only [startTable, hlive]
    exact List.mem_cons_self
  refine ⟨⟨128, hok⟩, ?_⟩
  funext n
  rw [hok.view_eq]
  by_cases hn : n < 128
  · have hslot : ((startTable (heap', p)).slotAt n).type = EMPTY := hempty.2 n hn (Nat.zero_le n)
    simp [hslot]
  · simp [hn]

/-- As long as the memory that `alloc` hands out for the table and for its
doublings reads EMPTY, the table is a finite map in every state reached, and
every `resource_add` comes back. -/
theorem tableMachine_explains {fuel retries : Nat} {m : ByteMemory} {history : List HeapAction}
    {heap : HeapState} {new : HeapState × Nat} {run : List TableAction} {s : TableState}
    (hfuel : 0x200000 ≤ fuel) (hretries : 2 ≤ retries)
    (hfits : (heapMachine fuel).Meets (fun st a => a.Fits st) (newHeap m kernelHeap 0x200000) history)
    (hhistory : (heapMachine fuel).exec (newHeap m kernelHeap 0x200000) history = some heap)
    (hnew : resourceTableAlloc fuel heap resourcesInitialCap = some new)
    (hempty : EmptyFrom 0 resourcesInitialCap new)
    (hmeets : (tableMachine fuel retries).Meets (fun s a => a.Valid s ∧ a.Clean fuel s)
      (startTable new) run)
    (hrun : (tableMachine fuel retries).exec (startTable new) run = some s) :
    Explains s.log s.view ∧
      ∀ r, (TableAction.add r).Valid s → (TableAction.add r).Clean fuel s →
        ∃ s', s.step fuel retries (.add r) = some s' ∧ Explains s'.log s'.view := by
  have hinv : BindingsInv fuel s :=
    (tableMachine fuel retries).exec_invariant
      (fun _ _ _ hinv hmeets hstep => hinv.step hretries hmeets.1 hmeets.2 hstep)
      (startTable_inv hfuel hfits hhistory hnew hempty) hmeets hrun
  refine ⟨hinv.2, fun r hvalid hclean => ?_⟩
  obtain ⟨s', hstep, hinv'⟩ := hinv.add hretries hvalid hclean
  exact ⟨s', hstep, hinv'.2⟩

/-- A client leaves a byte in the block that becomes the table, though in no type field, and
another one keeps its block. -/
def usedHeap : List HeapAction :=
  [.alloc 0x800, .store (kernelHeap + 0x28) 7, .alloc 0x40, .free (kernelHeap + 0x20)]

def addAndRemove : List TableAction :=
  [.add ⟨PIPE, kernelHeap + 0x900⟩, .heap (.store (kernelHeap + 0x841) 9),
    .add ⟨FILE, kernelHeap + 0xa00⟩, .heap (.alloc 0x80), .remove 0, .read 1, .write 0,
    .heap (.free (kernelHeap + 0x840)), .add ⟨FILE, kernelHeap + 0xb00⟩, .remove 128]

theorem tableMachine_explains_addAndRemove : ∃ heap new s,
    (heapMachine 0x200000).exec (newHeap (fun _ => 0) kernelHeap 0x200000) usedHeap =
        some heap ∧
      resourceTableAlloc 0x200000 heap resourcesInitialCap = some new ∧
      (tableMachine 0x200000 2).exec (startTable new) addAndRemove = some s ∧
      s.log.map Prod.snd = [.res NULL, .fd 0, .invalid, .file (kernelHeap + 0xa00),
        .res (kernelHeap + 0x900), .fd 1, .fd 0] ∧ Explains s.log s.view := by
  have hruns : ((heapMachine 0x200000).exec (newHeap (fun _ => 0) kernelHeap 0x200000)
      usedHeap).bind (fun heap => (resourceTableAlloc 0x200000 heap resourcesInitialCap).bind
        fun new => ((tableMachine 0x200000 2).exec (startTable new) addAndRemove).map fun s =>
          (decide (EmptyFrom 0 resourcesInitialCap new ∧
            (tableMachine 0x200000 2).Meets (fun s a => a.Valid s ∧ a.Clean 0x200000 s)
              (startTable new) addAndRemove), s.log.map Prod.snd)) =
        some (true, [.res NULL, .fd 0, .invalid, .file (kernelHeap + 0xa00),
          .res (kernelHeap + 0x900), .fd 1, .fd 0]) := by
    decide +kernel
  obtain ⟨heap, hheap, hbind⟩ := Option.bind_eq_some_iff.mp hruns
  obtain ⟨new, hnew, hmap⟩ := Option.bind_eq_some_iff.mp hbind
  obtain ⟨s, hs, heq⟩ := Option.map_eq_some_iff.mp hmap
  obtain ⟨hdecide, hlog⟩ := Prod.mk.inj heq
  obtain ⟨hempty, hmeets⟩ := of_decide_eq_true hdecide
  have hfits : (heapMachine 0x200000).Meets (fun st a => HeapAction.Fits st a)
      (newHeap (fun _ => 0) kernelHeap 0x200000) usedHeap := by decide +kernel
  have hexplains := tableMachine_explains (Nat.le_refl 0x200000) (Nat.le_refl 2) hfits hheap
    hnew hempty hmeets hs
  exact ⟨heap, new, s, hheap, hnew, hs, hlog, hexplains.1⟩

/-- A client of the heap leaves a 1 in a block that then becomes the table. -/
def writeAndFree : List HeapAction :=
  [.alloc 0x800, .store (kernelHeap + 0x20) 1, .free (kernelHeap + 0x20)]

/-- The first slot of the new table reads as a pipe that was never added. -/
theorem writeAndFree_notExplained : ∃ heap new s,
    (heapMachine 0x200000).exec (newHeap (fun _ => 0) kernelHeap 0x200000) writeAndFree =
        some heap ∧
      resourceTableAlloc 0x200000 heap resourcesInitialCap = some new ∧ new.2 ≠ NULL ∧
      (tableMachine 0x200000 2).exec (startTable new) [.read 0, .add ⟨PIPE, kernelHeap + 0x900⟩] =
        some s ∧
      s.log = [(.add ⟨PIPE, kernelHeap + 0x900⟩, .fd 1), (.read 0, .pipe 0)] ∧
        ¬∃ M, Explains s.log M := by
  have hruns : ((heapMachine 0x200000).exec (newHeap (fun _ => 0) kernelHeap 0x200000)
      writeAndFree).bind (fun heap =>
        (resourceTableAlloc 0x200000 heap resourcesInitialCap).bind fun new =>
          ((tableMachine 0x200000 2).exec (startTable new)
            [.read 0, .add ⟨PIPE, kernelHeap + 0x900⟩]).map fun s => (decide (new.2 ≠ NULL), s.log)) =
        some (true, [(.add ⟨PIPE, kernelHeap + 0x900⟩, .fd 1), (.read 0, .pipe 0)]) := by
    decide +kernel
  obtain ⟨heap, hheap, hbind⟩ := Option.bind_eq_some_iff.mp hruns
  obtain ⟨new, hnew, hmap⟩ := Option.bind_eq_some_iff.mp hbind
  obtain ⟨s, hs, heq⟩ := Option.map_eq_some_iff.mp hmap
  obtain ⟨hne, hlog⟩ := Prod.mk.inj heq
  refine ⟨heap, new, s, hheap, hnew, of_decide_eq_true hne, hs, hlog, ?_⟩
  rw [hlog]
  rintro ⟨-, M, ⟨M₀, hempty, hread, -⟩, -⟩
  rw [Explains] at hempty
  rw [hempty] at hread
  exact absurd hread (by decide)

end BayosKernel
