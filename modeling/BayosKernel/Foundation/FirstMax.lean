import Mathlib.Logic.Basic

/-!
The first of the largest elements of a list among those that meet a condition.
-/

namespace Foundation

universe u

variable {α : Type u}

/-- Nothing before is as large, nothing behind is larger. -/
def IsFirstMax (p : α → Prop) (f : α → Nat) (l : List α) (a : α) : Prop :=
  ∃ pre post, l = pre ++ a :: post ∧ p a ∧ (∀ b ∈ pre, p b → f b < f a) ∧
    ∀ b ∈ post, p b → f b ≤ f a

variable {p : α → Prop} {f : α → Nat}

theorem IsFirstMax.mem {l : List α} {a : α} (h : IsFirstMax p f l a) : a ∈ l := by
  obtain ⟨pre, post, rfl, -⟩ := h
  simp

theorem IsFirstMax.le {l : List α} {a b : α} (h : IsFirstMax p f l a) (hb : b ∈ l) (hpb : p b) :
    f b ≤ f a := by
  obtain ⟨pre, post, rfl, -, hpre, hpost⟩ := h
  rcases List.mem_append.mp hb with hb | hb
  · exact Nat.le_of_lt (hpre b hb hpb)
  · rcases List.mem_cons.mp hb with rfl | hb
    · exact Nat.le_refl _
    · exact hpost b hb hpb

/-- The removal of another element. -/
theorem IsFirstMax.eraseP {l : List α} {a : α} {q : α → Bool} (h : IsFirstMax p f l a)
    (hq : q a = false) : IsFirstMax p f (l.eraseP q) a := by
  obtain ⟨pre, post, rfl, ha, hpre, hpost⟩ := h
  rw [List.eraseP_append]
  split
  · exact ⟨pre.eraseP q, post, rfl, ha, fun b hb => hpre b (List.mem_of_mem_eraseP hb), hpost⟩
  · rw [List.eraseP_cons_of_neg (by simp [hq])]
    exact ⟨pre, post.eraseP q, rfl, ha, hpre, fun b hb => hpost b (List.mem_of_mem_eraseP hb)⟩

variable [DecidablePred p]

/-- The search over the list, with the best element so far. -/
def firstMaxFrom (p : α → Prop) [DecidablePred p] (f : α → Nat) : List α → Option α → Option α
  | [], best => best
  | a :: rest, best =>
      if p a ∧ ∀ b ∈ best, f b < f a then firstMaxFrom p f rest (some a)
      else firstMaxFrom p f rest best

def firstMax (p : α → Prop) [DecidablePred p] (f : α → Nat) (l : List α) : Option α :=
  firstMaxFrom p f l none

theorem firstMaxFrom_append (l r : List α) (best : Option α) :
    firstMaxFrom p f (l ++ r) best = firstMaxFrom p f r (firstMaxFrom p f l best) := by
  induction l generalizing best with
  | nil => rfl
  | cons a rest ih =>
      simp only [List.cons_append, firstMaxFrom]
      split <;> exact ih _

/-- An element at the end is the first largest one when all others are smaller. -/
theorem firstMax_append_single (l : List α) (b : α) :
    firstMax p f (l ++ [b]) =
      if p b ∧ ∀ a ∈ firstMax p f l, f a < f b then some b else firstMax p f l := by
  rw [firstMax, firstMaxFrom_append]
  rfl

/-- Elements that are not larger leave the best one in place. -/
theorem firstMaxFrom_some {l : List α} {a : α} (h : ∀ b ∈ l, p b → f b ≤ f a) :
    firstMaxFrom p f l (some a) = some a := by
  induction l with
  | nil => rfl
  | cons b rest ih =>
      have hskip : ¬(p b ∧ ∀ c ∈ some a, f c < f b) := by
        intro ⟨hb, hlt⟩
        have hle := h b List.mem_cons_self hb
        have := hlt a rfl
        omega
      rw [firstMaxFrom, if_neg hskip]
      exact ih fun c hc => h c (List.mem_cons_of_mem _ hc)

theorem firstMaxFrom_cases (l : List α) (best : Option α) :
    (firstMaxFrom p f l best = best ∧ ∀ a ∈ l, p a → ∃ b ∈ best, f a ≤ f b) ∨
      ∃ a, firstMaxFrom p f l best = some a ∧ IsFirstMax p f l a ∧ ∀ b ∈ best, f b < f a := by
  induction l generalizing best with
  | nil => exact Or.inl ⟨rfl, by simp⟩
  | cons c rest ih =>
      rw [firstMaxFrom]
      split
      · rename_i hbetter
        obtain ⟨hc, hbest⟩ := hbetter
        rcases ih (some c) with ⟨heq, hle⟩ | ⟨a, heq, ⟨pre, post, rfl, ha, hpre, hpost⟩, hlt⟩
        · refine Or.inr ⟨c, heq, ⟨[], rest, rfl, hc, by simp, fun b hb hpb => ?_⟩, hbest⟩
          obtain ⟨c', hc', hle'⟩ := hle b hb hpb
          cases hc'
          exact hle'
        · have hca : f c < f a := hlt c rfl
          refine Or.inr ⟨a, heq, ⟨c :: pre, post, rfl, ha, fun b hb hpb => ?_, hpost⟩, fun b hb =>
            Nat.lt_trans (hbest b hb) hca⟩
          rcases List.mem_cons.mp hb with rfl | hb
          · exact hca
          · exact hpre b hb hpb
      · rename_i hworse
        have hbound : p c → ∃ b ∈ best, f c ≤ f b := fun hc => by
          refine Classical.byContradiction fun hnone => hworse ⟨hc, fun b hb => ?_⟩
          exact Nat.lt_of_not_le fun hle => hnone ⟨b, hb, hle⟩
        rcases ih best with ⟨heq, hle⟩ | ⟨a, heq, ⟨pre, post, rfl, ha, hpre, hpost⟩, hlt⟩
        · refine Or.inl ⟨heq, fun a ha hpa => ?_⟩
          rcases List.mem_cons.mp ha with rfl | ha
          · exact hbound hpa
          · exact hle a ha hpa
        · refine Or.inr ⟨a, heq, ⟨c :: pre, post, rfl, ha, fun b hb hpb => ?_, hpost⟩, hlt⟩
          rcases List.mem_cons.mp hb with rfl | hb
          · obtain ⟨d, hd, hle⟩ := hbound hpb
            exact Nat.lt_of_le_of_lt hle (hlt d hd)
          · exact hpre b hb hpb

theorem firstMax_eq_some {l : List α} {a : α} : firstMax p f l = some a ↔ IsFirstMax p f l a := by
  constructor
  · intro h
    rcases firstMaxFrom_cases (p := p) (f := f) l none with ⟨hnone, -⟩ | ⟨b, hsome, hmax, -⟩
    · rw [firstMax, hnone] at h
      cases h
    · rw [firstMax, hsome] at h
      cases h
      exact hmax
  · rintro ⟨pre, post, rfl, ha, hpre, hpost⟩
    have hbetter : p a ∧ ∀ b ∈ firstMaxFrom p f pre none, f b < f a := by
      refine ⟨ha, fun b hb => ?_⟩
      rcases firstMaxFrom_cases (p := p) (f := f) pre none with ⟨hnone, -⟩ | ⟨c, hsome, hmax, -⟩
      · rw [hnone] at hb
        cases hb
      · rw [hsome] at hb
        cases hb
        obtain ⟨pre', post', rfl, hc, -, -⟩ := hmax
        exact hpre b (by simp) hc
    rw [firstMax, firstMaxFrom_append, firstMaxFrom, if_pos hbetter]
    exact firstMaxFrom_some hpost

theorem firstMax_eq_none {l : List α} : firstMax p f l = none ↔ ∀ a ∈ l, ¬p a := by
  constructor
  · intro h a ha hpa
    rcases firstMaxFrom_cases (p := p) (f := f) l none with ⟨-, hle⟩ | ⟨b, hsome, -⟩
    · obtain ⟨b, hb, -⟩ := hle a ha hpa
      cases hb
    · rw [firstMax, hsome] at h
      cases h
  · intro h
    cases hfound : firstMax p f l with
    | none => rfl
    | some a =>
        obtain ⟨pre, post, rfl, ha, -⟩ := firstMax_eq_some.mp hfound
        exact absurd ha (h a (by simp))

end Foundation
