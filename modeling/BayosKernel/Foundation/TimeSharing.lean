import Mathlib.Logic.Function.Basic
import BayosKernel.Foundation.Machine

/-!
Processes that take turns, each with a processor of its own, of which one runs.
-/

namespace Foundation

universe u v

variable {P : Type u} {C : Type v}

structure TimeState (P : Type u) (C : Type v) where
  current : P
  cpu : P → C

/-- Nothing happens, or the current process runs on until its processor is in state `c`,
or another one has its turn, or it starts a process with a processor made from its own. -/
inductive TimeAction (P : Type u) (C : Type v) where
  | idle
  | run (c : C)
  | pass (p : P)
  | start (p : P) (f : C → C)

def timeMachine (P : Type u) (C : Type v) [DecidableEq P] :
    Machine (TimeState P C) (TimeAction P C) where
  step t
    | .idle => some t
    | .run c => some { t with cpu := Function.update t.cpu t.current c }
    | .pass p => some { t with current := p }
    | .start p f => some { t with cpu := Function.update t.cpu p (f (t.cpu t.current)) }

/-- The action neither runs nor starts this process. -/
def TimeAction.LeavesAlone (p : P) (t : TimeState P C) : TimeAction P C → Prop
  | .run _ => t.current ≠ p
  | .idle | .pass _ => True
  | .start q _ => q ≠ p

theorem timeMachine_leavesAlone [DecidableEq P] {t t' : TimeState P C} {b : TimeAction P C}
    {p : P} (h : (timeMachine P C).step t b = some t') (halone : b.LeavesAlone p t) :
    t'.cpu p = t.cpu p := by
  cases b with
  | idle =>
      cases h
      rfl
  | run c =>
      cases h
      exact Function.update_of_ne (Ne.symm halone) _ _
  | pass q =>
      cases h
      rfl
  | start q f =>
      cases h
      exact Function.update_of_ne (Ne.symm halone) _ _

end Foundation
