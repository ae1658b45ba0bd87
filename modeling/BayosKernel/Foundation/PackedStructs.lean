import BayosKernel.Foundation.ByteMemory
import Mathlib.Algebra.GroupWithZero.Nat

/-!
Packed structs: fields of some widths, one behind the other, little-endian.
-/

namespace Foundation

/-- The fields are stored from `a` on; each is a width in bytes and a value. -/
def storeFields (m : ByteMemory) : Nat → List (Nat × Nat) → ByteMemory
  | _, [] => m
  | a, (w, v) :: fs => storeFields (m.store w a v) (a + w) fs

/-- The fields of these widths from `a` on. -/
def loadFields (m : ByteMemory) : Nat → List Nat → List Nat
  | _, [] => []
  | a, w :: ws => m.load w a :: loadFields m (a + w) ws

/-- The size of a packed struct. -/
def packedSize (ws : List Nat) : Nat := ws.sum

variable {m m' : ByteMemory} {a : Nat} {fs : List (Nat × Nat)} {ws : List Nat}

theorem packedSize_cons (w : Nat) (ws : List Nat) : packedSize (w :: ws) = w + packedSize ws := by
  rw [packedSize, packedSize, List.sum_cons]

theorem storeFields_outside {x : Nat} (h : x < a ∨ a + packedSize (fs.map Prod.fst) ≤ x) :
    storeFields m a fs x = m x := by
  induction fs generalizing m a with
  | nil => rfl
  | cons f fs ih =>
      rw [List.map_cons, packedSize_cons] at h
      rw [storeFields, ih (by omega)]
      exact ByteMemory.store_outside m (by omega)

theorem loadFields_congr (h : ∀ x, a ≤ x → x < a + packedSize ws → m' x = m x) :
    loadFields m' a ws = loadFields m a ws := by
  induction ws generalizing a with
  | nil => rfl
  | cons w ws ih =>
      rw [packedSize_cons] at h
      have hhead : m'.load w a = m.load w a :=
        ByteMemory.load_congr fun x hle hlt => h x hle (by omega)
      rw [loadFields, loadFields, hhead, ih fun x hle hlt => h x (by omega) (by omega)]

/-- A struct is read as it was stored. -/
theorem loadFields_store (h : ∀ f ∈ fs, f.2 < ByteMemory.capacity f.1) :
    loadFields (storeFields m a fs) a (fs.map Prod.fst) = fs.map Prod.snd := by
  induction fs generalizing m a with
  | nil => rfl
  | cons f fs ih =>
      have hhead : (storeFields (m.store f.1 a f.2) (a + f.1) fs).load f.1 a = f.2 := by
        rw [ByteMemory.load_congr fun x _ hlt => storeFields_outside (Or.inl hlt)]
        exact ByteMemory.load_store m (h f List.mem_cons_self)
      rw [List.map_cons, List.map_cons, loadFields, storeFields, hhead,
        ih fun g hg => h g (List.mem_cons_of_mem f hg)]

end Foundation
