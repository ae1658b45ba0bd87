import Mathlib.Data.List.FinRange
import Mathlib.Logic.Function.Basic

/-!
Two 8259 interrupt controllers, one behind a line of the other.

Of the commands those are described that begin an initialization or end an interrupt;
there is no step for the others. Requests are edges, which stay until they are taken.
-/

namespace Foundation

/-- What the next byte at the data port is: a mask, or a word of the initialization. -/
inductive PicPhase where
  | mask | base | wiring | mode
  deriving DecidableEq, Repr

structure Pic where
  phase : PicPhase
  single : Bool
  announced : Bool
  base : UInt8
  wiring : UInt8
  mode : UInt8
  mask : UInt8
  requested : Fin 8 → Bool
  inService : Fin 8 → Bool

namespace Pic

def masked (p : Pic) (l : Fin 8) : Bool := p.mask.toNat.testBit l

def request (p : Pic) (l : Fin 8) : Pic :=
  { p with requested := Function.update p.requested l true }

/-- The first line that is in service or asks for it, if it asks: the lower lines come first. -/
def pending (p : Pic) : Option (Fin 8) :=
  ((List.finRange 8).find? fun l => p.inService l || (p.requested l && !p.masked l)).filter
    fun l => !p.inService l

/-- The request of a line is taken. -/
def serve (p : Pic) (l : Fin 8) : Pic :=
  { p with
    requested := Function.update p.requested l false
    inService :=
      if p.mode.toNat.testBit 1 then p.inService else Function.update p.inService l true }

def endOfInterrupt (p : Pic) : Pic :=
  match (List.finRange 8).find? p.inService with
  | some l => { p with inService := Function.update p.inService l false }
  | none => p

def command (p : Pic) (v : UInt8) : Option Pic :=
  if v.toNat.testBit 4 then
    some
      { p with
        phase := .base, single := v.toNat.testBit 1, announced := v.toNat.testBit 0, mode := 0
        mask := 0, requested := fun _ => false, inService := fun _ => false }
  else if v = 0x20 then some p.endOfInterrupt
  else none

def data (p : Pic) (v : UInt8) : Pic :=
  let last : PicPhase := if p.announced then .mode else .mask
  match p.phase with
  | .mask => { p with mask := v }
  | .base => { p with base := v &&& 0xf8, phase := if p.single then last else .wiring }
  | .wiring => { p with wiring := v, phase := last }
  | .mode => { p with mode := v, phase := .mask }

/-- Without its requests. -/
def quiet (p : Pic) : Pic := { p with requested := fun _ => false }

/-- What the initialization and the masks are. -/
def setup (p : Pic) : Pic := { p with requested := fun _ => false, inService := fun _ => false }

/-- No interrupt is in service. -/
def Idle (p : Pic) : Prop := ∀ l, p.inService l = false

variable {p q : Pic} {l : Fin 8} {v : UInt8}

theorem pending_some (h : p.pending = some l) :
    p.requested l = true ∧ p.masked l = false ∧ p.inService l = false := by
  obtain ⟨hfind, hidle⟩ := Option.filter_eq_some_iff.mp h
  have hfirst := List.find?_some hfind
  simp only [Bool.not_eq_true'] at hidle
  simp only [hidle, Bool.false_or, Bool.and_eq_true, Bool.not_eq_true'] at hfirst
  exact ⟨hfirst.1, hfirst.2, hidle⟩

theorem request_self : (p.request l).requested l = true := Function.update_self ..

theorem serve_self : (p.serve l).requested l = false := Function.update_self ..

theorem serve_of_ne {k : Fin 8} (h : k ≠ l) : (p.serve l).requested k = p.requested k :=
  Function.update_of_ne h ..

/-- A request is pending when no line before it asks. -/
theorem Idle.pending (h : p.Idle) (hrequest : p.requested l = true) (hmask : p.masked l = false)
    (hfirst : ∀ k < l, p.requested k = false ∨ p.masked k = true) : p.pending = some l := by
  refine Option.filter_eq_some_iff.mpr ⟨List.find?_eq_some_iff_getElem.mpr ?_, by simp [h l]⟩
  refine ⟨by simp [hrequest, hmask], l, by simp, by simp, fun j hj => ?_⟩
  have hlt : j < 8 := by omega
  rcases hfirst ⟨j, hlt⟩ hj with hother | hother <;> simp [h _, hother]

theorem pending_eq_none (hmask : ∀ l, p.masked l = true) : p.pending = none := by
  cases hpending : p.pending with
  | none => rfl
  | some l =>
      have hline := (pending_some hpending).2.1
      rw [hmask l] at hline
      cases hline

theorem Idle.end (h : p.Idle) : p.endOfInterrupt = p := by
  have hnone : (List.finRange 8).find? p.inService = none :=
    List.find?_eq_none.mpr fun l _ => by simp [h l]
  rw [endOfInterrupt, hnone]

/-- The end of an interrupt that is the only one. -/
theorem Idle.serve_end (h : p.Idle) (l : Fin 8) :
    (p.serve l).endOfInterrupt = { p with requested := Function.update p.requested l false } := by
  by_cases hauto : p.mode.toNat.testBit 1 = true
  · have hserve : p.serve l = { p with requested := Function.update p.requested l false } := by
      rw [serve, if_pos hauto]
    rw [hserve]
    exact Idle.end h
  · have hserve : p.serve l = { p with
        requested := Function.update p.requested l false
        inService := Function.update p.inService l true } := by
      rw [serve, if_neg hauto]
    have hfind : (List.finRange 8).find? (Function.update p.inService l true) = some l := by
      refine List.find?_eq_some_iff_getElem.mpr ⟨by simp, l, by simp, by simp, fun j hj => ?_⟩
      have hne : (⟨j, by omega⟩ : Fin 8) ≠ l := fun heq => by simp [← heq] at hj
      simp [Function.update_of_ne hne, h _]
    have hidle : Function.update p.inService l false = p.inService := by
      rw [← h l, Function.update_eq_self]
    rw [hserve, endOfInterrupt]
    simp only [hfind, Function.update_idem, hidle]

theorem endOfInterrupt_setup : p.endOfInterrupt.setup = p.setup := by
  unfold endOfInterrupt
  split <;> rfl

theorem endOfInterrupt_requested : p.endOfInterrupt.requested = p.requested := by
  unfold endOfInterrupt
  split <;> rfl

theorem data_mask (h : p.phase = .mask) : p.data v = { p with mask := v } := by
  obtain ⟨phase, _, _, _, _, _, _, _, _⟩ := p
  cases h
  rfl

theorem data_requested : (p.data v).requested = p.requested := by
  unfold data
  cases p.phase <;> rfl

theorem endOfInterrupt_idle_congr (h : p.endOfInterrupt.Idle) (hsame : q.inService = p.inService) :
    q.endOfInterrupt.Idle := by
  intro l
  have hl := h l
  unfold endOfInterrupt at hl ⊢
  rw [hsame]
  split at hl <;> simpa [hsame] using hl

theorem quiet_command : p.quiet.command v = (p.command v).map quiet := by
  unfold command
  split
  · rfl
  split
  · simp only [endOfInterrupt, Option.map_some, quiet]
    split <;> rfl
  · rfl

theorem quiet_data : p.quiet.data v = (p.data v).quiet := by
  obtain ⟨phase, _, _, _, _, _, _, _, _⟩ := p
  cases phase <;> rfl

end Pic

/-- The second controller stands behind the lines that the first one's wiring names. -/
structure PicPair where
  master : Pic
  slave : Pic

namespace PicPair

def cascaded (c : PicPair) (l : Fin 8) : Bool :=
  !c.master.single && c.master.wiring.toNat.testBit l

/-- The first controller with what the second one asks for. -/
def lines (c : PicPair) : Pic :=
  { c.master with
    requested := fun l => c.master.requested l || (c.cascaded l && c.slave.pending.isSome) }

def quiet (c : PicPair) : PicPair := ⟨c.master.quiet, c.slave.quiet⟩

/-- The processor asks for the vector of an interrupt. -/
def acknowledge (c : PicPair) : Option (UInt8 × PicPair) :=
  c.lines.pending.bind fun l =>
    if c.cascaded l then
      if c.slave.wiring.toNat % 8 = l.val ∧ c.slave.mode.toNat.testBit 0 then
        c.slave.pending.map fun k =>
          (c.slave.base + UInt8.ofNat k.val, ⟨c.master.serve l, c.slave.serve k⟩)
      else none
    else if c.master.mode.toNat.testBit 0 then
      some (c.master.base + UInt8.ofNat l.val, ⟨c.master.serve l, c.slave⟩)
    else none

end PicPair

end Foundation
