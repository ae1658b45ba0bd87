import BayosKernel.Foundation.ByteMemory

/-!
Words on a stack in an address space. All spaces share the upper half of the
addresses, and each has a lower half of its own.
-/

namespace Foundation

/-- Where the byte at an address of a space lies: the lower halves follow one another
behind the addresses that all spaces share. -/
def place (space a : UInt64) : Nat :=
  if a.toNat < 0x800000000000 then
    0x10000000000000000 + space.toNat * 0x800000000000 + a.toNat
  else a.toNat

/-- The `n` bytes from `a` on lie in one half. -/
structure InHalf (a : UInt64) (n : Nat) : Prop where
  noWrap : a.toNat + n ≤ 0x10000000000000000
  sameHalf : a.toNat + n ≤ 0x800000000000 ∨ 0x800000000000 ≤ a.toNat

theorem place_add {space a b : UInt64} {i n : Nat} (h : InHalf a n) (hb : b.toNat = a.toNat + i)
    (hi : i < n) : place space b = place space a + i := by
  rw [place, place, hb]
  rcases h.sameHalf with hlow | hhigh
  · rw [if_pos (by omega), if_pos (by omega)]
    omega
  · rw [if_neg (by omega), if_neg (by omega)]

/-- An address of the lower half. -/
theorem place_lower {a : UInt64} (space : UInt64) (h : a.toNat < 0x800000000000) :
    place space a = place space 0 + a.toNat := by
  have hzero : (0 : UInt64).toNat = 0 := rfl
  rw [place, place, if_pos h, hzero, if_pos (by decide)]
  omega

theorem toNat_add_eq {a d : UInt64} (h : a.toNat + d.toNat < 0x10000000000000000) :
    (a + d).toNat = a.toNat + d.toNat := by
  rw [UInt64.toNat_add, Nat.mod_eq_of_lt h]

theorem toNat_sub_eq {a d : UInt64} (h : d.toNat ≤ a.toNat) :
    (a - d).toNat = a.toNat - d.toNat :=
  UInt64.toNat_sub_of_le a d (UInt64.le_iff_toNat_le.mpr h)

theorem InHalf.part {a b : UInt64} {i k n : Nat} (h : InHalf a n) (hb : b.toNat = a.toNat + i)
    (hle : i + k ≤ n) : InHalf b k := by
  have := h.noWrap
  have := h.sameHalf
  exact ⟨by omega, by omega⟩

/-- The words `ws` lie one behind the other from `a` on. -/
def Words (m : ByteMemory) : Nat → List UInt64 → Prop
  | _, [] => True
  | a, w :: ws => m.load 8 a = w.toNat ∧ Words m (a + 8) ws

namespace Words

variable {m m' : ByteMemory} {a : Nat} {ws vs : List UInt64}

theorem append_iff : Words m a (ws ++ vs) ↔ Words m a ws ∧ Words m (a + 8 * ws.length) vs := by
  induction ws generalizing a with
  | nil => simp [Words]
  | cons w ws ih =>
      have hlength : a + 8 * (w :: ws).length = a + 8 + 8 * ws.length := by
        rw [List.length_cons]
        omega
      rw [List.cons_append, Words, Words, ih, hlength, and_assoc]

theorem congr (h : Words m a ws) (hsame : ∀ x, a ≤ x → x < a + 8 * ws.length → m' x = m x) :
    Words m' a ws := by
  induction ws generalizing a with
  | nil => trivial
  | cons w ws ih =>
      rw [List.length_cons] at hsame
      refine ⟨?_, ih h.2 fun x hle hlt => hsame x (by omega) (by omega)⟩
      rw [← h.1]
      exact ByteMemory.load_congr fun x hle hlt => hsame x hle (by omega)

/-- A copy of the words at another address. -/
theorem copied {b : Nat} (h : Words m a ws)
    (hsame : ∀ i < 8 * ws.length, m' (b + i) = m (a + i)) : Words m' b ws := by
  have hshift : Words (fun x => m (x - b + a)) b ws := by
    clear hsame
    induction ws generalizing a b with
    | nil => trivial
    | cons w ws ih =>
        have hload : ∀ n d, ByteMemory.load (fun x => m (x - b + a)) n (b + d) =
            m.load n (a + d) := by
          intro n
          induction n with
          | zero => exact fun _ => rfl
          | succ n ihn =>
              intro d
              have hnext := ihn (d + 1)
              have hindex : b + d - b + a = a + d := by omega
              simp only [ByteMemory.load, hindex, Nat.add_assoc, hnext]
        refine ⟨(hload 8 0).trans h.1, ?_⟩
        refine (ih (b := b + 8) h.2).congr fun x hle _ => ?_
        have hindex : x - b + a = x - (b + 8) + (a + 8) := by omega
        simp only [hindex]
  refine hshift.congr fun x hle hlt => ?_
  have hx := hsame (x - b) (by omega)
  rw [Nat.add_sub_cancel' hle] at hx
  rw [hx, Nat.add_comm]

theorem unique (h : Words m a ws) (h' : Words m a vs) (hlength : ws.length = vs.length) :
    ws = vs := by
  induction ws generalizing a vs with
  | nil =>
      cases vs with
      | nil => rfl
      | cons v vs => cases hlength
  | cons w ws ih =>
      cases vs with
      | nil => cases hlength
      | cons v vs =>
          have hhead : w = v := UInt64.toNat_inj.mp (h.1.symm.trans h'.1)
          rw [hhead, ih h.2 h'.2 (Nat.succ.inj hlength)]

theorem zeros {n : Nat} (h : ∀ x, a ≤ x → x < a + 8 * n → m x = 0) :
    Words m a (List.replicate n 0) := by
  induction n generalizing a with
  | zero => trivial
  | succ n ih =>
      exact ⟨ByteMemory.load_zero fun x hle hlt => h x hle (by omega),
        ih fun x hle hlt => h x (by omega) (by omega)⟩

end Words

/-- The values are stored one behind the other. -/
def storeWords (m : ByteMemory) : Nat → List UInt64 → ByteMemory
  | _, [] => m
  | a, w :: ws => storeWords (m.store 8 a w.toNat) (a + 8) ws

theorem storeWords_outside {m : ByteMemory} {a : Nat} {ws : List UInt64} {x : Nat}
    (h : x < a ∨ a + 8 * ws.length ≤ x) : storeWords m a ws x = m x := by
  induction ws generalizing m a with
  | nil => rfl
  | cons w ws ih =>
      rw [List.length_cons] at h
      rw [storeWords, ih (by omega)]
      exact ByteMemory.store_outside m (by omega)

theorem storeWords_words (m : ByteMemory) (a : Nat) (ws : List UInt64) :
    Words (storeWords m a ws) a ws := by
  induction ws generalizing m a with
  | nil => trivial
  | cons w ws ih =>
      refine ⟨?_, ih _ _⟩
      rw [storeWords, ByteMemory.load_congr fun x _ hlt => storeWords_outside (Or.inl hlt)]
      exact ByteMemory.load_store_word m w.toNat_lt

/-- The values are pushed one by one: the stack pointer and the memory. -/
def pushWords (space : UInt64) : List UInt64 → UInt64 × ByteMemory → UInt64 × ByteMemory
  | [], s => s
  | v :: vs, s => pushWords space vs (s.1 - 8, s.2.store 8 (place space (s.1 - 8)) v.toNat)

/-- The values lie below the old stack pointer, the last one first. -/
structure Pushed (space b : UInt64) (vs : List UInt64) (m : ByteMemory)
    (s : UInt64 × ByteMemory) : Prop where
  sp : s.1 = b
  words : Words s.2 (place space b) vs.reverse
  outside : ∀ x, (x < place space b ∨ place space b + 8 * vs.length ≤ x) → s.2 x = m x

theorem pushWords_pushed (space : UInt64) (vs : List UInt64) (m : ByteMemory) {b sp : UInt64}
    (hhalf : InHalf b (8 * vs.length)) (hsp : sp.toNat = b.toNat + 8 * vs.length) :
    Pushed space b vs m (pushWords space vs (sp, m)) := by
  induction vs generalizing sp m with
  | nil => exact ⟨UInt64.toNat_inj.mp hsp, trivial, fun _ _ => rfl⟩
  | cons v vs ih =>
      rw [List.length_cons] at hhalf hsp
      have height : (8 : UInt64).toNat = 8 := rfl
      have hnext : (sp - 8).toNat = b.toNat + 8 * vs.length := by
        rw [toNat_sub_eq (by omega)]
        omega
      have hplace : place space (sp - 8) = place space b + 8 * vs.length :=
        place_add hhalf hnext (by omega)
      obtain ⟨hb, hwords, hout⟩ := ih (m.store 8 (place space (sp - 8)) v.toNat)
        (hhalf.part (i := 0) rfl (by omega)) hnext
      refine ⟨hb, ?_, fun x hx => ?_⟩
      · rw [List.reverse_cons, Words.append_iff, List.length_reverse]
        refine ⟨hwords, ?_, trivial⟩
        rw [pushWords, ByteMemory.load_congr fun x hle _ => hout x (Or.inr hle), hplace]
        exact ByteMemory.load_store_word m v.toNat_lt
      · rw [List.length_cons] at hx
        rw [pushWords, hout x (by omega), hplace]
        exact ByteMemory.store_outside m (by omega)

end Foundation
