import Mathlib.Logic.Basic

/-!
NUL-terminated strings, read one byte at a time.
-/

namespace Foundation

/-- The bytes from a pointer on hold the string and its terminator. -/
structure CString (s : Nat → UInt8) (cs : List UInt8) : Prop where
  chars : 0 ∉ cs
  bytes : ∀ i ≤ cs.length, s i = cs.getD i 0

namespace CString

variable {s t : Nat → UInt8} {cs ds : List UInt8}

theorem terminator (h : CString s cs) : s cs.length = 0 := by
  rw [h.bytes _ (Nat.le_refl _)]
  simp

theorem char (h : CString s cs) {i : Nat} (hi : i < cs.length) : s i = cs[i] := by
  rw [h.bytes i (Nat.le_of_lt hi)]
  simp [hi]

theorem char_ne_zero (h : CString s cs) {i : Nat} (hi : i < cs.length) : s i ≠ 0 := by
  rw [h.char hi]
  exact fun hzero => h.chars (hzero ▸ List.getElem_mem hi)

theorem congr (h : CString s cs) (hsame : ∀ i ≤ cs.length, t i = s i) : CString t cs :=
  ⟨h.chars, fun i hi => (hsame i hi).trans (h.bytes i hi)⟩

/-- The string ends at the first NUL. -/
theorem length_le (h : CString s cs) {i : Nat} (hi : s i = 0) : cs.length ≤ i :=
  Nat.le_of_not_lt fun hlt => h.char_ne_zero hlt hi

/-- Strings that agree up to the end of one of them are the same. -/
theorem eq_iff (hs : CString s cs) (ht : CString t ds) :
    (∀ i < ds.length + 1, s i = t i) ↔ cs = ds := by
  constructor
  · intro hagree
    have hle : cs.length ≤ ds.length :=
      hs.length_le ((hagree _ (Nat.lt_succ_self _)).trans ht.terminator)
    have hge : ds.length ≤ cs.length :=
      ht.length_le ((hagree _ (by omega)).symm.trans hs.terminator)
    refine List.ext_getElem (Nat.le_antisymm hle hge) fun i hi hi' => ?_
    rw [← hs.char hi, ← ht.char hi']
    exact hagree i (by omega)
  · rintro rfl i hi
    rw [hs.bytes i (by omega), ht.bytes i (by omega)]

theorem tail (h : CString s cs) (hcs : cs ≠ []) : CString (fun i => s (1 + i)) cs.tail := by
  obtain ⟨c, rest, rfl⟩ := List.exists_cons_of_ne_nil hcs
  refine ⟨fun hmem => h.chars (List.mem_cons_of_mem _ hmem), fun i hi => ?_⟩
  rw [h.bytes (1 + i) (by simp only [List.length_cons, List.tail_cons] at hi ⊢; omega),
    Nat.add_comm 1 i]
  simp

end CString

end Foundation
