import Mathlib.Data.List.Pairwise
import BayosKernel.AreaLayout

/-!
One call of `allocate_page` and `free_page`: the counter and the bitmap of
every area agree, and no page is handed out twice.
-/

namespace BayosKernel

open Foundation Area

theorem scanBits_cases (m : ByteMemory) (bitmap n i : Nat) {j left : Nat} (hj : j + left = 8) :
    (∃ k : Nat, scanBits m bitmap n i (List.range' j left) = some (Bitmap.set m bitmap k, (k : Int)) ∧
        k < n ∧ Bitmap.bit m bitmap k = false) ∨
      (scanBits m bitmap n i (List.range' j left) = none ∧
        ∀ k, i * 8 + j ≤ k → k < i * 8 + 8 → k < n → Bitmap.bit m bitmap k = true) ∨
      (scanBits m bitmap n i (List.range' j left) = some (m, -1) ∧
        ∀ k, i * 8 + j ≤ k → k < n → Bitmap.bit m bitmap k = true) := by
  induction left generalizing j with
  | zero => exact Or.inr (Or.inl ⟨rfl, fun k _ _ => by omega⟩)
  | succ left ih =>
      have hdiv : (i * 8 + j) / 8 = i := by omega
      have hmod : (i * 8 + j) % 8 = j := by omega
      rw [List.range'_succ, scanBits]
      by_cases hpage : i * 8 + j ≥ n
      · simp only [if_pos hpage]
        exact Or.inr (Or.inr ⟨trivial, fun k _ _ => by omega⟩)
      · by_cases hzero : m (bitmap + i) &&& Bitmap.mask j = 0
        · have hbit : Bitmap.bit m bitmap (i * 8 + j) = false := by
            simp only [Bitmap.bit, hdiv, hmod]
            exact (Bitmap.and_mask_eq_zero (by omega)).mp hzero
          refine Or.inl ⟨i * 8 + j, ?_, by omega, hbit⟩
          simp only [if_neg hpage, if_pos hzero, Bitmap.set, hdiv, hmod]
        · have hbit : Bitmap.bit m bitmap (i * 8 + j) = true := by
            rw [Bitmap.and_mask_eq_zero (by omega)] at hzero
            simp only [Bitmap.bit, hdiv, hmod]
            simpa using hzero
          have hhere : ∀ k, i * 8 + j ≤ k → ¬i * 8 + (j + 1) ≤ k →
              Bitmap.bit m bitmap k = true := by
            intro k hle hlt
            have heq : k = i * 8 + j := by omega
            rw [heq]
            exact hbit
          simp only [if_neg hpage, if_neg hzero]
          rcases ih (j := j + 1) (by omega) with h | ⟨hscan, h⟩ | ⟨hscan, h⟩
          · exact Or.inl h
          · refine Or.inr (Or.inl ⟨hscan, fun k hle hlt hn => ?_⟩)
            by_cases hk : i * 8 + (j + 1) ≤ k
            · exact h k hk hlt hn
            · exact hhere k hle hk
          · refine Or.inr (Or.inr ⟨hscan, fun k hle hn => ?_⟩)
            by_cases hk : i * 8 + (j + 1) ≤ k
            · exact h k hk hn
            · exact hhere k hle hk

theorem scanBytes_cases (m : ByteMemory) (bitmap n : Nat) {i left : Nat}
    (hi : n ≤ (i + left) * 8) :
    (∃ k : Nat, scanBytes m bitmap n (List.range' i left) = (Bitmap.set m bitmap k, (k : Int)) ∧
        k < n ∧ Bitmap.bit m bitmap k = false) ∨
      (scanBytes m bitmap n (List.range' i left) = (m, -1) ∧
        ∀ k, i * 8 ≤ k → k < n → Bitmap.bit m bitmap k = true) := by
  induction left generalizing i with
  | zero => exact Or.inr ⟨rfl, fun k _ _ => by omega⟩
  | succ left ih =>
      have hbits : List.range 8 = List.range' 0 8 := List.range_eq_range'
      rw [List.range'_succ, scanBytes, hbits]
      rcases scanBits_cases m bitmap n i (show 0 + 8 = 8 from rfl) with
        ⟨k, hscan, hk, hbit⟩ | ⟨hscan, hset⟩ | ⟨hscan, hset⟩
      · rw [hscan]
        exact Or.inl ⟨k, rfl, hk, hbit⟩
      · rw [hscan]
        rcases ih (i := i + 1) (by omega) with h | ⟨hrest, h⟩
        · exact Or.inl h
        · refine Or.inr ⟨hrest, fun k hle hn => ?_⟩
          by_cases hk : (i + 1) * 8 ≤ k
          · exact h k hk hn
          · exact hset k (by omega) (by omega) hn
      · rw [hscan]
        exact Or.inr ⟨rfl, fun k hle hn => hset k (by omega) hn⟩

/-- While a bit is clear, the search sets one and returns its page. -/
theorem findUnusedPage_some {m : ByteMemory} {bitmap n : Nat} (hbitmap : bitmap ≠ 0)
    (hn : n ≤ 1000000) (hclear : ∃ k < n, Bitmap.bit m bitmap k = false) :
    ∃ k : Nat, findUnusedPage m bitmap n = some (Bitmap.set m bitmap k, (k : Int)) ∧
      k < n ∧ Bitmap.bit m bitmap k = false := by
  obtain ⟨k₀, hk₀, hbit₀⟩ := hclear
  have hguard : ¬(bitmap = NULL ∨ n = 0 ∨ n > 1000000) := by
    simp only [NULL]
    omega
  rw [findUnusedPage, if_neg hguard, List.range_eq_range']
  rcases scanBytes_cases m bitmap n (show n ≤ (0 + (n + 7) / 8) * 8 by omega) with
    ⟨k, hscan, hk, hbit⟩ | ⟨-, hset⟩
  · exact ⟨k, by rw [hscan], hk, hbit⟩
  · rw [hset k₀ (by omega) hk₀] at hbit₀
    cases hbit₀

namespace Area

theorem read_setUsed (m : ByteMemory) {p v : Nat} (hv : v < 0x10000000000000000) :
    read (setUsed m p v) p = { read m p with used := v } := by
  simp only [read, setUsed, ByteMemory.load_store m (show v < ByteMemory.capacity 8 from hv)]
  repeat rw [ByteMemory.load_store_apart m (by omega)]

theorem setUsed_outside (m : ByteMemory) {p v x : Nat} (h : x < p + 16 ∨ p + 24 ≤ x) :
    setUsed m p v x = m x :=
  ByteMemory.store_outside m (by omega)

end Area

/-- The place of an area: its header and bitmap in front of the pages it manages. -/
structure Site where
  base : Nat
  first : Nat
  count : Nat
  room : base + 24 + (count + 7) / 8 ≤ first
  aligned : first % 0x1000 = 0
  small : count ≤ 1000000
  bound : first + count * 0x1000 < 0x10000000000000000

namespace Site

def page (s : Site) (k : Nat) : Nat := s.first + k * 0x1000

def stop (s : Site) : Nat := s.first + s.count * 0x1000

def Apart (s t : Site) : Prop := s.stop ≤ t.base ∨ t.stop ≤ s.base

/-- Page `k` of the site is marked in the bitmap. -/
def Marked (s : Site) (m : ByteMemory) (k : Nat) : Prop := Bitmap.bit m (data s.base) k = true

/-- The fields of the area are the site's, and `used` counts its bits. -/
def Kept (s : Site) (m : ByteMemory) : Prop :=
  Area.read m s.base = ⟨s.first, s.count, Bitmap.count m (data s.base) s.count⟩

/-- Page `k` is marked and counted. -/
def take (s : Site) (m : ByteMemory) (k : Nat) : ByteMemory :=
  setUsed (Bitmap.set m (data s.base) k) s.base (Bitmap.count m (data s.base) s.count + 1)

/-- Page `k` is no longer marked and counted. -/
def drop (s : Site) (m : ByteMemory) (k : Nat) : ByteMemory :=
  Bitmap.clear (setUsed m s.base (Bitmap.count m (data s.base) s.count - 1)) (data s.base) k

variable {s t : Site} {m m' : ByteMemory} {k : Nat}

theorem page_bounds (s : Site) (hk : k < s.count) :
    s.first ≤ s.page k ∧ s.page k + 0x1000 ≤ s.stop := by
  have := Nat.mul_le_mul_right 0x1000 hk
  simp only [page, stop, Nat.succ_mul] at *
  omega

theorem page_lt (s : Site) (hk : k < s.count) : s.page k < 0x10000000000000000 := by
  have hbounds := s.page_bounds hk
  have hbound := s.bound
  simp only [stop] at hbounds
  omega

theorem page_inj (s : Site) {k k' : Nat} (h : s.page k = s.page k') : k = k' := by
  simp only [page] at h
  omega

theorem page_ne_null (s : Site) (k : Nat) : s.page k ≠ NULL := by
  have := s.room
  simp only [page, NULL]
  omega

theorem bitmap_room (s : Site) (hk : k < s.count) : data s.base + k / 8 < s.first := by
  have := s.room
  simp only [data, offsetOfDataInArea]
  omega

theorem count_lt_capacity (s : Site) (m : ByteMemory) :
    Bitmap.count m (data s.base) s.count ≤ 1000000 :=
  Nat.le_trans (Bitmap.count_le m _ _) s.small

theorem marked_congr (h : ∀ x, s.base ≤ x → x < s.first → m' x = m x) (hk : k < s.count) :
    Bitmap.bit m' (data s.base) k = Bitmap.bit m (data s.base) k :=
  Bitmap.bit_congr (h _ (by simp only [data]; omega) (s.bitmap_room hk))

theorem Kept.congr (hkept : s.Kept m) (h : ∀ x, s.base ≤ x → x < s.first → m' x = m x) :
    s.Kept m' := by
  have hroom := s.room
  unfold Kept
  rw [Area.read_congr fun x hle hlt => h x hle (by omega), hkept,
    Bitmap.count_congr fun k hk => marked_congr h hk]

/-- A change inside the header of one area leaves the other areas as they are. -/
theorem Kept.of_apart (hkept : t.Kept m) (hapart : t.Apart s)
    (hframe : ∀ x, x < s.base ∨ s.first ≤ x → m' x = m x) :
    t.Kept m' ∧ ∀ k < t.count, t.Marked m' k ↔ t.Marked m k := by
  have hrange : ∀ x, t.base ≤ x → x < t.first → m' x = m x := by
    intro x hle hlt
    refine hframe x ?_
    rcases hapart with hapart | hapart <;> simp only [stop] at hapart <;> omega
  refine ⟨hkept.congr hrange, fun k hk => ?_⟩
  rw [Marked, marked_congr hrange hk, Marked]

theorem take_outside (hk : k < s.count) {x : Nat} (hx : x < s.base ∨ s.first ≤ x) :
    s.take m k x = m x := by
  have hroom := s.room
  have hbyte := s.bitmap_room hk
  simp only [data, offsetOfDataInArea] at hbyte
  rw [take, setUsed_outside _ (by omega), Bitmap.set_outside m]
  simp only [data, offsetOfDataInArea]
  omega

theorem drop_outside (hk : k < s.count) {x : Nat} (hx : x < s.base ∨ s.first ≤ x) :
    s.drop m k x = m x := by
  have hroom := s.room
  have hbyte := s.bitmap_room hk
  simp only [data, offsetOfDataInArea] at hbyte
  rw [drop, Bitmap.clear_outside, setUsed_outside m (by omega)]
  simp only [data, offsetOfDataInArea]
  omega

/-- `used` lies in front of the bitmap. -/
theorem bit_setUsed (s : Site) (m : ByteMemory) (v k : Nat) :
    Bitmap.bit (setUsed m s.base v) (data s.base) k = Bitmap.bit m (data s.base) k :=
  Bitmap.bit_congr (setUsed_outside m (by simp only [data, offsetOfDataInArea]; omega))

theorem bit_take (s : Site) (m : ByteMemory) (k i : Nat) :
    Bitmap.bit (s.take m k) (data s.base) i =
      (Bitmap.bit m (data s.base) i || decide (i = k)) := by
  rw [take, bit_setUsed, Bitmap.bit_set]

theorem bit_drop (s : Site) (m : ByteMemory) (k i : Nat) :
    Bitmap.bit (s.drop m k) (data s.base) i =
      (Bitmap.bit m (data s.base) i && decide (i ≠ k)) := by
  rw [drop, Bitmap.bit_clear, bit_setUsed]

theorem Kept.take (hkept : s.Kept m) (hk : k < s.count) (hclear : ¬s.Marked m k) :
    s.Kept (s.take m k) := by
  have hbit : Bitmap.bit m (data s.base) k = false := by simpa [Marked] using hclear
  have hcount := s.count_lt_capacity m
  have hfields : Area.read (Bitmap.set m (data s.base) k) s.base = Area.read m s.base :=
    Area.read_congr fun x _ hlt =>
      Bitmap.set_outside m (by simp only [data, offsetOfDataInArea]; omega)
  unfold Kept
  rw [Site.take, read_setUsed _ (by omega), hfields, hkept,
    Bitmap.count_congr fun i _ => s.bit_setUsed _ _ i, Bitmap.count_set hk hbit]

theorem Kept.drop (hkept : s.Kept m) (hk : k < s.count) (hmarked : s.Marked m k) :
    s.Kept (s.drop m k) := by
  have hcount := s.count_lt_capacity m
  have hsame : Bitmap.count
      (setUsed m s.base (Bitmap.count m (data s.base) s.count - 1)) (data s.base) s.count =
        Bitmap.count m (data s.base) s.count :=
    Bitmap.count_congr fun i _ => s.bit_setUsed _ _ i
  have hclear := Bitmap.count_clear hk
    ((s.bit_setUsed m (Bitmap.count m (data s.base) s.count - 1) k).trans hmarked)
  rw [hsame] at hclear
  have hfields : Area.read (s.drop m k) s.base =
      Area.read (setUsed m s.base (Bitmap.count m (data s.base) s.count - 1)) s.base :=
    Area.read_congr fun x _ hlt =>
      Bitmap.clear_outside _ (by simp only [data, offsetOfDataInArea]; omega)
  unfold Kept
  rw [hfields, read_setUsed _ (by omega), hkept]
  simp only [Area.mk.injEq, true_and]
  simp only [Site.drop]
  omega

end Site

/-- `allocate_page` marks a free page of some area, or finds every page of these
areas marked and goes on with the rest. -/
theorem allocatePage_append_cases {m : ByteMemory} {sites : List Site} (rest : List Nat)
    (hkept : ∀ s ∈ sites, s.Kept m) :
    (allocatePage m (sites.map Site.base ++ rest) = allocatePage m rest ∧
        ∀ s ∈ sites, ∀ k < s.count, s.Marked m k) ∨
      ∃ s ∈ sites, ∃ k < s.count, ¬s.Marked m k ∧
        allocatePage m (sites.map Site.base ++ rest) = some (s.take m k, s.page k) := by
  induction sites with
  | nil => exact Or.inl ⟨rfl, by simp⟩
  | cons s others ih =>
      have hs : Area.read m s.base = ⟨s.first, s.count, _⟩ := hkept s (by simp)
      have hle := Bitmap.count_le m (data s.base) s.count
      rw [List.map_cons, List.cons_append, allocatePage, hs]
      by_cases hfull : Bitmap.count m (data s.base) s.count ≥ s.count
      · rw [if_pos hfull]
        have hall := (Bitmap.count_eq_iff m (data s.base) s.count).mp (by omega)
        rcases ih fun t ht => hkept t (by simp [ht]) with ⟨hnull, hothers⟩ | ⟨t, ht, k, hk, h⟩
        · refine Or.inl ⟨hnull, fun t ht k hk => ?_⟩
          rcases List.mem_cons.mp ht with rfl | ht
          · exact hall k hk
          · exact hothers t ht k hk
        · exact Or.inr ⟨t, by simp [ht], k, hk, h⟩
      · rw [if_neg hfull]
        have hclear : ∃ k < s.count, Bitmap.bit m (data s.base) k = false := by
          by_contra hnone
          refine hfull (Nat.le_of_eq ((Bitmap.count_eq_iff m (data s.base) s.count).mpr ?_).symm)
          intro k hk
          by_contra hbit
          exact hnone ⟨k, hk, by simpa using hbit⟩
        obtain ⟨k, hfind, hk, hbit⟩ := findUnusedPage_some
          (show data s.base ≠ 0 by simp only [data, offsetOfDataInArea]; omega) s.small hclear
        have hcount := s.count_lt_capacity m
        have hsmall := s.small
        have hfields : Area.read (Bitmap.set m (data s.base) k) s.base = Area.read m s.base :=
          Area.read_congr fun x _ hlt =>
            Bitmap.set_outside m (by simp only [data, offsetOfDataInArea]; omega)
        have hindex : ¬((k : Int) < 0 ∨ (k : Int) ≥ s.count) := by omega
        have hpage : add64 s.first (k * 0x1000) = s.page k := add64_eq (s.page_lt hk)
        have hmul : mul64 k 0x1000 = k * 0x1000 := mul64_eq (by omega)
        have hused : add64 (Bitmap.count m (data s.base) s.count) 1 =
            Bitmap.count m (data s.base) s.count + 1 := add64_eq (by omega)
        refine Or.inr ⟨s, by simp, k, hk, by simp [Site.Marked, hbit], ?_⟩
        have hafter := read_setUsed (Bitmap.set m (data s.base) k) (p := s.base)
          (v := Bitmap.count m (data s.base) s.count + 1) (by omega)
        simp only [hfind, hfields, hs, if_neg hindex, hused, hafter, Int.toNat_natCast, hmul, hpage,
          Site.take]

theorem allocatePage_cases {m : ByteMemory} {sites : List Site}
    (hkept : ∀ s ∈ sites, s.Kept m) :
    (allocatePage m (sites.map Site.base) = some (m, NULL) ∧
        ∀ s ∈ sites, ∀ k < s.count, s.Marked m k) ∨
      ∃ s ∈ sites, ∃ k < s.count, ¬s.Marked m k ∧
        allocatePage m (sites.map Site.base) = some (s.take m k, s.page k) := by
  have hcases := allocatePage_append_cases [] hkept
  rw [List.append_nil] at hcases
  exact hcases

/-- `free_page` clears the mark of a page in the area that holds it. -/
theorem freePage_page {m : ByteMemory} {sites : List Site} {s : Site} {k : Nat}
    (hkept : ∀ s ∈ sites, s.Kept m) (hapart : sites.Pairwise Site.Apart) (hs : s ∈ sites)
    (hk : k < s.count) (hmarked : s.Marked m k) :
    freePage m (s.page k) (sites.map Site.base) = s.drop m k := by
  induction sites with
  | nil => simp at hs
  | cons t rest ih =>
      have ht : Area.read m t.base = ⟨t.first, t.count, _⟩ := hkept t (by simp)
      have hbounds := s.page_bounds hk
      have hsbound := s.bound
      have htbound := t.bound
      have hsmall := t.small
      have hmul : mul64 t.count 0x1000 = t.count * 0x1000 := mul64_eq (by omega)
      have hstop : add64 t.first (t.count * 0x1000) = t.stop := add64_eq htbound
      rw [List.map_cons, freePage, ht]
      simp only [hmul, hstop]
      by_cases hst : s = t
      · subst hst
        rw [if_pos ⟨hbounds.1, by omega⟩]
        have hused : sub64 (Bitmap.count m (data s.base) s.count) 1 =
            Bitmap.count m (data s.base) s.count - 1 := by
          have hcount := s.count_lt_capacity m
          have := Bitmap.count_clear hk hmarked
          exact sub64_eq (by omega) (by omega)
        have hcount := s.count_lt_capacity m
        have hafter := read_setUsed m (p := s.base)
          (v := Bitmap.count m (data s.base) s.count - 1) (by omega)
        have hindex : (s.page k - s.first) / 0x1000 = k := by
          simp only [Site.page]
          omega
        simp only [hused, hafter, ht, hindex, Site.drop, Bitmap.clear]
      · have hrest : s ∈ rest := (List.mem_cons.mp hs).resolve_left hst
        have hapart' := List.pairwise_cons.mp hapart
        have hother : ¬(s.page k ≥ t.first ∧ s.page k < t.stop) := by
          have hroom := s.room
          have htroom := t.room
          rcases hapart'.1 s hrest with h | h <;> omega
        rw [if_neg hother]
        exact ih (fun u hu => hkept u (by simp [hu])) hapart'.2 hrest

end BayosKernel
