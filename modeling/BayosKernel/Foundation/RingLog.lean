import Mathlib.Data.List.Basic
import Mathlib.Logic.Function.Basic

/-!
A log kept in a ring of `len` slots: entry `j` of the log stands in slot
`j % len` from the time it is stored until it is read. The log only grows; how
much of it has been read is a number.
-/

namespace Foundation

universe u
variable {α : Type u}

/-- The entries from `read` on are in their slots. -/
def RingLog (buffer : Nat → α) (len : Nat) (log : List α) (read : Nat) : Prop :=
  ∀ j e, read ≤ j → log[j]? = some e → buffer (j % len) = e

/-- Two of `len` consecutive entries never share a slot. -/
theorem slot_ne {len read j w : Nat} (hj : read ≤ j) (hjw : j < w) (hw : w < read + len) :
    j % len ≠ w % len := by
  intro h
  have hd : len ∣ w - j := Nat.dvd_of_mod_eq_zero (Nat.sub_mod_eq_zero_of_mod_eq h.symm)
  have := Nat.le_of_dvd (by omega) hd
  omega

namespace RingLog

variable {buffer : Nat → α} {len : Nat} {log : List α} {read : Nat}

theorem nil (buffer : Nat → α) (len read : Nat) : RingLog buffer len [] read := by
  intro j e _ hj
  simp at hj

/-- Storing into the next slot while there is room. -/
theorem store (h : RingLog buffer len log read) (hroom : log.length < read + len) (e : α) :
    RingLog (Function.update buffer (log.length % len) e) len (log ++ [e]) read := by
  intro j x hj hx
  rcases Nat.lt_or_ge j log.length with hlt | hge
  · rw [List.getElem?_append_left hlt] at hx
    rw [Function.update_of_ne (slot_ne hj hlt hroom)]
    exact h j x hj hx
  · have hjl : j = log.length := by
      have := (List.getElem?_eq_some_iff.mp hx).1
      simp at this
      omega
    subst hjl
    simpa using hx

theorem load (h : RingLog buffer len log read) (hr : read < log.length) :
    log[read]? = some (buffer (read % len)) := by
  have hx : log[read]? = some log[read] := List.getElem?_eq_getElem hr
  rw [h read _ (Nat.le_refl _) hx, hx]

theorem advance (h : RingLog buffer len log read) {read' : Nat} (hr : read ≤ read') :
    RingLog buffer len log read' :=
  fun j e hj hx => h j e (Nat.le_trans hr hj) hx

/-- What was read so far grows by the next entry. -/
theorem take_load (h : RingLog buffer len log read) (hr : read < log.length) :
    log.take read ++ [buffer (read % len)] = log.take (read + 1) := by
  rw [List.take_add_one, h.load hr]
  rfl

end RingLog

end Foundation
