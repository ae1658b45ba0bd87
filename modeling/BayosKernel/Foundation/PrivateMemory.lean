import Mathlib.Data.Set.Basic

/-!
Memories that are private: each has cells of its own, which may be reserved and released,
and what is stored in one is seen in this one only.
-/

namespace Foundation

universe u v w

variable {S : Type u} {A : Type v} {B : Type w}

inductive MemoryAction (S : Type u) (A : Type v) (B : Type w) where
  | store (s : S) (a : A) (b : B)
  | reserve (s : S) (region : Set A)
  | release (s : S) (region : Set A)

/-- What each memory holds; `none` where it has no cell. -/
abbrev Memories (S : Type u) (A : Type v) (B : Type w) := S → A → Option B

/-- Of a cell that is reserved nothing is known before a store. -/
inductive MemoryStep : Memories S A B → MemoryAction S A B → Memories S A B → Prop
  | store {V V' : Memories S A B} {s : S} {a : A} {b : B} (cell : V s a ≠ none)
      (stored : V' s a = some b) (kept : ∀ t c, ¬(t = s ∧ c = a) → V' t c = V t c) :
      MemoryStep V (.store s a b) V'
  | reserve {V V' : Memories S A B} {s : S} {region : Set A} (cells : ∀ a ∈ region, V' s a ≠ none)
      (kept : ∀ t c, (V t c ≠ none ∨ ¬(t = s ∧ c ∈ region)) → V' t c = V t c) :
      MemoryStep V (.reserve s region) V'
  | release {V V' : Memories S A B} {s : S} {region : Set A} (gone : ∀ a ∈ region, V' s a = none)
      (kept : ∀ t c, ¬(t = s ∧ c ∈ region) → V' t c = V t c) :
      MemoryStep V (.release s region) V'

inductive MemoryRun : Memories S A B → List (MemoryAction S A B) → Memories S A B → Prop
  | nil (V : Memories S A B) : MemoryRun V [] V
  | cons {V V₁ V' : Memories S A B} {a : MemoryAction S A B} {rest : List (MemoryAction S A B)}
      (first : MemoryStep V a V₁) (others : MemoryRun V₁ rest V') : MemoryRun V (a :: rest) V'

namespace MemoryAction

def space : MemoryAction S A B → S
  | store s _ _ | reserve s _ | release s _ => s

/-- The action may change a cell that there is. -/
def Changes (s : S) (c : A) : MemoryAction S A B → Prop
  | store t a _ => t = s ∧ a = c
  | reserve _ _ => False
  | release t region => t = s ∧ c ∈ region

end MemoryAction

variable {V V' : Memories S A B} {act : MemoryAction S A B} {run rest : List (MemoryAction S A B)}
  {s : S} {c : A} {b : B}

theorem MemoryStep.cell_kept (h : MemoryStep V act V') (hc : V s c = some b)
    (hact : ¬act.Changes s c) : V' s c = some b := by
  cases h with
  | store _ _ kept =>
      rw [kept s c fun heq => hact ⟨heq.1.symm, heq.2.symm⟩]
      exact hc
  | reserve _ kept =>
      rw [kept s c (Or.inl fun hnone => by rw [hnone] at hc; cases hc)]
      exact hc
  | release _ kept =>
      rw [kept s c fun heq => hact ⟨heq.1.symm, heq.2⟩]
      exact hc

/-- A cell holds what was stored until another store to it, or its release. -/
theorem MemoryRun.cell_kept (h : MemoryRun V run V') (hc : V s c = some b)
    (hrun : ∀ act ∈ run, ¬act.Changes s c) : V' s c = some b := by
  induction h with
  | nil => exact hc
  | cons first _ ih =>
      exact ih (first.cell_kept hc (hrun _ List.mem_cons_self))
        fun act hact => hrun act (List.mem_cons_of_mem _ hact)

theorem MemoryStep.space_kept (h : MemoryStep V act V') (hact : act.space ≠ s) : V' s = V s := by
  funext c
  cases h with
  | store _ _ kept => exact kept s c fun heq => hact heq.1.symm
  | reserve _ kept => exact kept s c (Or.inr fun heq => hact heq.1.symm)
  | release _ kept => exact kept s c fun heq => hact heq.1.symm

/-- Actions on the other memories are not seen. -/
theorem MemoryRun.space_kept (h : MemoryRun V run V') (hrun : ∀ act ∈ run, act.space ≠ s) :
    V' s = V s := by
  induction h with
  | nil => rfl
  | cons first _ ih =>
      rw [ih fun act hact => hrun act (List.mem_cons_of_mem _ hact)]
      exact first.space_kept (hrun _ List.mem_cons_self)

theorem MemoryRun.split (h : MemoryRun V (run ++ rest) V') :
    ∃ V₁, MemoryRun V run V₁ ∧ MemoryRun V₁ rest V' := by
  induction run generalizing V with
  | nil => exact ⟨V, .nil V, h⟩
  | cons act run ih =>
      cases h with
      | cons first others =>
          obtain ⟨V₁, hrun, hrest⟩ := ih others
          exact ⟨V₁, .cons first hrun, hrest⟩

/-- What was stored is read back. -/
theorem MemoryRun.read_back (h : MemoryRun V (run ++ .store s c b :: rest) V')
    (hrest : ∀ act ∈ rest, ¬act.Changes s c) : V' s c = some b := by
  obtain ⟨V₁, -, hlast⟩ := h.split
  cases hlast with
  | cons first others =>
      cases first with
      | store _ stored _ => exact others.cell_kept stored hrest

end Foundation
