import Mathlib.Logic.Basic

/-!
Labelled machines and the induction over their runs.

A machine answers `none` where an action is not enabled or the code does not
come back from it. Runs are finite lists of actions; since every prefix of a
run is a run, a statement about the last state of every run is a statement
about every state reached.
-/

namespace Foundation

universe u v w

structure Machine (σ : Type u) (α : Type v) where
  step : σ → α → Option σ

namespace Machine

variable {σ : Type u} {α : Type v} (M : Machine σ α)

def exec : σ → List α → Option σ
  | s, [] => some s
  | s, a :: rest => (M.step s a).bind fun s' => exec s' rest

/-- Every step of the run is taken in a state and with an action that meet `C`. -/
def Meets (C : σ → α → Prop) : σ → List α → Prop
  | _, [] => True
  | s, a :: rest => C s a ∧ ∀ s', M.step s a = some s' → Meets C s' rest

instance decidableMeets {C : σ → α → Prop} [∀ s a, Decidable (C s a)] :
    ∀ (s : σ) (run : List α), Decidable (M.Meets C s run)
  | _, [] => isTrue trivial
  | s, a :: rest =>
      match h : M.step s a with
      | none => decidable_of_iff (C s a) (by simp [Meets, h])
      | some s' =>
          have : Decidable (M.Meets C s' rest) := decidableMeets s' rest
          decidable_of_iff (C s a ∧ M.Meets C s' rest) (by simp [Meets, h])

theorem exec_cons_some {s t : σ} {a : α} {rest : List α} (h : M.exec s (a :: rest) = some t) :
    ∃ s', M.step s a = some s' ∧ M.exec s' rest = some t := by
  simpa [exec, Option.bind_eq_some_iff] using h

theorem meets_cons_iff {C : σ → α → Prop} {s s' : σ} {a : α} {rest : List α}
    (hstep : M.step s a = some s') : M.Meets C s (a :: rest) ↔ C s a ∧ M.Meets C s' rest := by
  refine and_congr_right fun _ => ⟨fun hall => hall s' hstep, fun hall s₂ hstep₂ => ?_⟩
  rw [hstep] at hstep₂
  rwa [← Option.some.inj hstep₂]

theorem exec_append {s t : σ} {run : List α} (h : M.exec s run = some t) (rest : List α) :
    M.exec s (run ++ rest) = M.exec t rest := by
  induction run generalizing s with
  | nil =>
      cases h
      rfl
  | cons a run ih =>
      obtain ⟨s', hstep, hrun⟩ := M.exec_cons_some h
      rw [List.cons_append, exec, hstep, Option.bind_some, ih hrun]

theorem meets_append {C : σ → α → Prop} {s t : σ} {run rest : List α}
    (h : M.exec s run = some t) (hC : M.Meets C s run) (hrest : M.Meets C t rest) :
    M.Meets C s (run ++ rest) := by
  induction run generalizing s with
  | nil =>
      cases h
      exact hrest
  | cons a run ih =>
      obtain ⟨s', hstep, hrun⟩ := M.exec_cons_some h
      rw [M.meets_cons_iff hstep] at hC
      exact (M.meets_cons_iff hstep).mpr ⟨hC.1, ih hrun hC.2⟩

theorem meets_of_forall {C : σ → α → Prop} (h : ∀ s a, C s a) (s : σ) (run : List α) :
    M.Meets C s run := by
  induction run generalizing s with
  | nil => trivial
  | cons a rest ih => exact ⟨h s a, fun s' _ => ih s'⟩

theorem meets_mono {C D : σ → α → Prop} (h : ∀ s a, C s a → D s a) {s : σ} {run : List α}
    (hC : M.Meets C s run) : M.Meets D s run := by
  induction run generalizing s with
  | nil => trivial
  | cons a rest ih => exact ⟨h s a hC.1, fun s' hstep => ih (hC.2 s' hstep)⟩

theorem meets_of_mem {C : σ → α → Prop} (s : σ) (run : List α)
    (h : ∀ a ∈ run, ∀ s, C s a) : M.Meets C s run := by
  induction run generalizing s with
  | nil => trivial
  | cons a rest ih =>
      exact ⟨h a (by simp) s, fun s' _ => ih s' fun b hb => h b (by simp [hb])⟩

/-- A property kept by every step that meets `C` holds after every run whose steps meet `C`. -/
theorem exec_invariant {C : σ → α → Prop} {I : σ → Prop}
    (hstep : ∀ s a s', I s → C s a → M.step s a = some s' → I s')
    {s t : σ} {run : List α} (hs : I s) (hC : M.Meets C s run)
    (hrun : M.exec s run = some t) : I t := by
  induction run generalizing s with
  | nil => cases hrun; exact hs
  | cons a rest ih =>
      obtain ⟨s', h1, h2⟩ := M.exec_cons_some hrun
      exact ih (hstep s a s' hs hC.1 h1) (hC.2 s' h1) h2

/-- The case of `exec_invariant` in which no step is ruled out. -/
theorem exec_invariant_always {I : σ → Prop}
    (hstep : ∀ s a s', I s → M.step s a = some s' → I s')
    {s t : σ} {run : List α} (hs : I s) (hrun : M.exec s run = some t) : I t :=
  M.exec_invariant (C := fun _ _ => True) (fun s a s' h _ => hstep s a s' h) hs
    (M.meets_of_forall (fun _ _ => trivial) s run) hrun

/-- Two machines whose steps keep a relation take the same run side by side. -/
theorem exec_lockstep {τ : Type w} {N : Machine τ α} {C : σ → α → Prop} {R : σ → τ → Prop}
    (hstep : ∀ s a s' t, R s t → C s a → M.step s a = some s' →
      ∃ t', N.step t a = some t' ∧ R s' t')
    {s s' : σ} {t : τ} {run : List α} (h : R s t) (hC : M.Meets C s run)
    (hrun : M.exec s run = some s') : ∃ t', N.exec t run = some t' ∧ R s' t' := by
  induction run generalizing s t with
  | nil =>
      cases hrun
      exact ⟨t, rfl, h⟩
  | cons a rest ih =>
      obtain ⟨s₁, hs₁, hrest⟩ := M.exec_cons_some hrun
      obtain ⟨t₁, ht₁, hnext⟩ := hstep s a s₁ t h hC.1 hs₁
      obtain ⟨t', ht', hend⟩ := ih hnext (hC.2 s₁ hs₁) hrest
      exact ⟨t', by rw [exec, ht₁, Option.bind_some, ht'], hend⟩

/-- A condition kept by the invariant may be assumed for the remaining run. -/
theorem meets_of_invariant {C D : σ → α → Prop} {I : σ → Prop}
    (hstep : ∀ s a s', I s → C s a → M.step s a = some s' → I s')
    (hD : ∀ s a, I s → C s a → D s a)
    {s : σ} {run : List α} (hs : I s) (hC : M.Meets C s run) : M.Meets D s run := by
  induction run generalizing s with
  | nil => trivial
  | cons a rest ih =>
      exact ⟨hD s a hs hC.1, fun s' h => ih (hstep s a s' hs hC.1 h) (hC.2 s' h)⟩

end Machine

end Foundation
