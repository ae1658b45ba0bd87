import Mathlib.Data.List.Forall2
import BayosKernel.Foundation.Machine

/-!
A machine that follows another one action by action, each by an action of its own.
-/

namespace Foundation

universe u v w x

namespace Machine

variable {σ : Type u} {α : Type v} {τ : Type w} {β : Type x} (M : Machine σ α) {N : Machine τ β}

/-- Steps that are followed make runs that are followed. -/
theorem exec_simulates {C : σ → α → Prop} {R : σ → τ → Prop} {A : α → β → Prop}
    (hstep : ∀ s a s' t, R s t → C s a → M.step s a = some s' →
      ∃ b t', A a b ∧ N.step t b = some t' ∧ R s' t')
    {s s' : σ} {t : τ} {run : List α} (h : R s t) (hC : M.Meets C s run)
    (hrun : M.exec s run = some s') :
    ∃ bs t', List.Forall₂ A run bs ∧ N.exec t bs = some t' ∧ R s' t' := by
  induction run generalizing s t with
  | nil =>
      cases hrun
      exact ⟨[], t, .nil, rfl, h⟩
  | cons a rest ih =>
      obtain ⟨s₁, hs₁, hrest⟩ := M.exec_cons_some hrun
      obtain ⟨b, t₁, hb, ht₁, hnext⟩ := hstep s a s₁ t h hC.1 hs₁
      obtain ⟨bs, t', hbs, ht', hend⟩ := ih hnext (hC.2 s₁ hs₁) hrest
      exact ⟨b :: bs, t', .cons hb hbs, by rw [exec, ht₁, Option.bind_some, ht'], hend⟩

end Machine

end Foundation
