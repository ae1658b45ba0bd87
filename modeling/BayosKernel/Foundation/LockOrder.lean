import Mathlib.Logic.Relation
import Mathlib.Order.Basic

/-!
Control skeletons, and lock orders.

A skeleton is what is left of a function when its data is forgotten: the
operations of interest, and a choice where the code branches or leaves a loop.
`transfer` follows a state through a skeleton; where it succeeds, every path
takes each operation in a state that allows it, and all paths end alike.
-/

namespace Foundation

inductive Skeleton (O : Type*) where
  | skip
  | op (o : O)
  | seq (a b : Skeleton O)
  | alt (a b : Skeleton O)
  | loop (a : Skeleton O)
  deriving DecidableEq

namespace Skeleton

variable {O H : Type*}

instance : AndThen (Skeleton O) := ⟨fun a b => .seq a (b ())⟩

section Transfer

variable [DecidableEq H] (effect : O → H → Option H)

/-- Both branches must end in the same state, and a loop where it began. -/
def transfer : Skeleton O → H → Option H
  | skip, h => some h
  | op o, h => effect o h
  | seq a b, h => (transfer a h).bind (transfer b)
  | alt a b, h => if transfer a h = transfer b h then transfer a h else none
  | loop a, h => if transfer a h = some h then some h else none

/-- A process's code is a list of skeletons, to be run one after the other. -/
def transferAll : List (Skeleton O) → H → Option H
  | [], h => some h
  | a :: rest, h => (transfer effect a h).bind (transferAll rest)

end Transfer

/-- One step of control; `first` chooses the branch, or one more round of a loop. -/
def advance (first : Bool) : List (Skeleton O) → Option (List (Skeleton O))
  | skip :: rest => some rest
  | seq a b :: rest => some (a :: b :: rest)
  | alt a b :: rest => some ((if first then a else b) :: rest)
  | loop a :: rest => some (if first then a :: loop a :: rest else rest)
  | op _ :: _ | [] => none

section Transfer

variable [DecidableEq H] {effect : O → H → Option H}

theorem transfer_andThen (a b : Skeleton O) (h : H) :
    transfer effect (a >> b) h = (transfer effect a h).bind (transfer effect b) := rfl

theorem transferAll_advance {first : Bool} {code code' : List (Skeleton O)} {h h' : H}
    (hstep : advance first code = some code') (ht : transferAll effect code h = some h') :
    transferAll effect code' h = some h' := by
  cases code with
  | nil => cases hstep
  | cons a rest =>
      obtain ⟨h₁, ha, hrest⟩ := Option.bind_eq_some_iff.mp ht
      cases a with
      | skip =>
          cases hstep
          cases ha
          exact hrest
      | op o => cases hstep
      | seq a b =>
          cases hstep
          obtain ⟨h₂, ha, hb⟩ := Option.bind_eq_some_iff.mp ha
          simp [transferAll, ha, hb, hrest]
      | alt a b =>
          cases hstep
          simp only [transfer, Option.ite_none_right_eq_some] at ha
          cases first
          · simp [transferAll, ← ha.1, ha.2, hrest]
          · simp [transferAll, ha.2, hrest]
      | loop a =>
          simp only [transfer, Option.ite_none_right_eq_some, Option.some.injEq] at ha
          obtain ⟨hround, rfl⟩ := ha
          cases hstep
          cases first
          · exact hrest
          · simp [transferAll, transfer, hround, hrest]

theorem transferAll_op {o : O} {rest : List (Skeleton O)} {h h' : H}
    (ht : transferAll effect (op o :: rest) h = some h') :
    ∃ h₁, effect o h = some h₁ ∧ transferAll effect rest h₁ = some h' :=
  Option.bind_eq_some_iff.mp ht

end Transfer

end Skeleton

/-- Where every process waits for a lock above those it holds, and for one lock at a
time, the waiting has no cycle. -/
theorem not_transGen_of_lockOrder {P M R : Type*} [Preorder R] (holds waits : P → M → Prop)
    (rank : M → R) (unique : ∀ p m m', waits p m → waits p m' → m = m')
    (ordered : ∀ p m m', holds p m → waits p m' → rank m < rank m') (p : P) :
    ¬Relation.TransGen (fun p q => ∃ m, waits p m ∧ holds q m) p p := by
  have rises : ∀ q, Relation.TransGen (fun p q => ∃ m, waits p m ∧ holds q m) p q →
      ∀ m m', waits p m → waits q m' → rank m < rank m' := by
    intro q hq
    induction hq with
    | single hstep =>
        intro m m' hm hm'
        obtain ⟨m₁, hwaits, hholds⟩ := hstep
        rw [unique p m m₁ hm hwaits]
        exact ordered _ m₁ m' hholds hm'
    | tail _ hstep ih =>
        intro m m' hm hm'
        obtain ⟨m₁, hwaits, hholds⟩ := hstep
        exact (ih m m₁ hm hwaits).trans (ordered _ m₁ m' hholds hm')
  intro hcycle
  obtain ⟨q, ⟨m, hm, -⟩, -⟩ := Relation.TransGen.head'_iff.mp hcycle
  exact lt_irrefl _ (rises p hcycle m m hm hm)

end Foundation
