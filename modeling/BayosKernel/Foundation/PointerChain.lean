import Mathlib.Data.List.Nodup
import Mathlib.Logic.Function.Basic

/-!
Null-terminated chains of pointers.

`Chain nxt null a xs` says that following `nxt` from `a` visits exactly the
pointers of `xs`, in that order, and then meets `null`. Since `nxt` is a
function, such a chain cannot return to a pointer it has left; acyclicity is a
consequence and not a part of the definition.
-/

namespace Foundation

universe u
variable {P : Type u}

def Chain (nxt : P → P) (null : P) : P → List P → Prop
  | a, [] => a = null
  | a, x :: xs => a = x ∧ x ≠ null ∧ Chain nxt null (nxt x) xs

namespace Chain

variable {nxt nxt' : P → P} {null : P}

@[simp] theorem nil_iff (a : P) : Chain nxt null a [] ↔ a = null := Iff.rfl

@[simp] theorem cons_iff (a x : P) (xs : List P) :
    Chain nxt null a (x :: xs) ↔ a = x ∧ x ≠ null ∧ Chain nxt null (nxt x) xs := Iff.rfl

theorem congr {a : P} {xs : List P} (h : Chain nxt null a xs)
    (agree : ∀ x ∈ xs, nxt' x = nxt x) : Chain nxt' null a xs := by
  induction xs generalizing a with
  | nil => exact h
  | cons x xs ih =>
      obtain ⟨rfl, hne, ht⟩ := h
      refine ⟨rfl, hne, ?_⟩
      rw [agree a (by simp)]
      exact ih ht fun y hy => agree y (by simp [hy])

theorem ne_null {a : P} {xs : List P} (h : Chain nxt null a xs) {x : P} (hx : x ∈ xs) :
    x ≠ null := by
  induction xs generalizing a with
  | nil => simp at hx
  | cons y ys ih =>
      obtain ⟨_, hne, ht⟩ := h
      rcases List.mem_cons.mp hx with rfl | hx
      · exact hne
      · exact ih ht hx

theorem unique {a : P} {xs ys : List P} (h : Chain nxt null a xs) (k : Chain nxt null a ys) :
    xs = ys := by
  induction xs generalizing a ys with
  | nil =>
      cases ys with
      | nil => rfl
      | cons y ys => exact absurd (k.1.symm.trans h) k.2.1
  | cons x xs ih =>
      obtain ⟨rfl, hne, ht⟩ := h
      cases ys with
      | nil => exact absurd k hne
      | cons y ys =>
          obtain ⟨rfl, _, kt⟩ := k
          rw [ih ht kt]

/-- The chain from a pointer that the chain visits. -/
theorem suffix {a x : P} {xs ys : List P} (h : Chain nxt null a (xs ++ x :: ys)) :
    Chain nxt null x (x :: ys) := by
  induction xs generalizing a with
  | nil => obtain ⟨rfl, hne, ht⟩ := h; exact ⟨rfl, hne, ht⟩
  | cons y xs ih => exact ih h.2.2

theorem after {a x : P} {xs ys : List P} (h : Chain nxt null a (xs ++ x :: ys)) :
    Chain nxt null (nxt x) ys := h.suffix.2.2

theorem next_eq {a x y : P} {xs ys : List P} (h : Chain nxt null a (xs ++ x :: y :: ys)) :
    nxt x = y := h.after.1

theorem next_head {a x : P} {xs ys : List P} (h : Chain nxt null a (xs ++ x :: ys)) :
    nxt x = ys.head?.getD null := by
  cases ys with
  | nil => exact h.after
  | cons y ys => exact h.next_eq

theorem last_next {a x : P} {xs : List P} (h : Chain nxt null a (xs ++ [x])) :
    nxt x = null := h.after

theorem nodup {a : P} {xs : List P} (h : Chain nxt null a xs) : xs.Nodup := by
  induction xs generalizing a with
  | nil => exact List.nodup_nil
  | cons x xs ih =>
      refine List.nodup_cons.mpr ⟨fun hx => ?_, ih h.2.2⟩
      -- the chain from a repeated pointer would be its own proper suffix
      obtain ⟨s, t, rfl⟩ := List.append_of_mem hx
      have whole : Chain nxt null x (x :: (s ++ x :: t)) :=
        suffix (show Chain nxt null a ([] ++ x :: (s ++ x :: t)) from h)
      have hlen := congrArg List.length (whole.unique (suffix h.2.2))
      simp only [List.length_cons, List.length_append] at hlen
      omega

theorem head_mem {a : P} {xs : List P} (h : Chain nxt null a xs) (ha : a ≠ null) : a ∈ xs := by
  cases xs with
  | nil => exact absurd h ha
  | cons x xs => simp [h.1]

theorem next_ne {a x : P} {xs ys : List P} (h : Chain nxt null a (xs ++ x :: ys)) : nxt x ≠ x := by
  intro heq
  have hne : x ≠ null := h.ne_null (by simp)
  have hmem : nxt x ∈ ys := h.after.head_mem (by rw [heq]; exact hne)
  rw [heq] at hmem
  exact (List.nodup_cons.mp h.suffix.nodup).1 hmem

theorem head_null_iff {a : P} {xs : List P} (h : Chain nxt null a xs) : a = null ↔ xs = [] := by
  cases xs with
  | nil => simpa using h
  | cons x xs => simp [h.1, h.2.1]

/-- A member's successor is a member or ends the chain. -/
theorem next_mem {a x : P} {xs : List P} (h : Chain nxt null a xs) (hx : x ∈ xs)
    (hn : nxt x ≠ null) : nxt x ∈ xs := by
  obtain ⟨s, t, rfl⟩ := List.append_of_mem hx
  have := h.after.head_mem hn
  simp [this]

/-- Pointers that lead to each other and never to `null` start no chain. -/
theorem not_of_closed {a : P} {xs : List P} (S : P → Prop) (ha : S a)
    (hS : ∀ x, S x → x ≠ null ∧ S (nxt x)) : ¬Chain nxt null a xs := by
  induction xs generalizing a with
  | nil => exact (hS a ha).1
  | cons x xs ih =>
      rintro ⟨rfl, _, hrest⟩
      exact ih (hS a ha).2 hrest

variable [DecidableEq P]

theorem update_notMem {a x y : P} {xs : List P} (h : Chain nxt null a xs) (hx : x ∉ xs) :
    Chain (Function.update nxt x y) null a xs :=
  h.congr fun z hz => Function.update_of_ne (by rintro rfl; exact hx hz) _ _

/-- Linking a pointer that ends in `null` behind the last one. -/
theorem append_last {a x p : P} {xs : List P} (h : Chain nxt null a (xs ++ [x]))
    (hp : p ∉ xs ++ [x]) (hne : p ≠ null) (hnull : nxt p = null) :
    Chain (Function.update nxt x p) null a (xs ++ [x, p]) := by
  induction xs generalizing a with
  | nil =>
      obtain ⟨rfl, hx, _⟩ := h
      have hpa : p ≠ a := by simpa using hp
      refine ⟨rfl, hx, ?_⟩
      simp [Function.update_of_ne hpa, hne, hnull]
  | cons y ys ih =>
      have hnd := h.nodup
      obtain ⟨rfl, hy, ht⟩ := h
      have hax : a ≠ x := by
        rintro rfl
        simp at hnd
      refine ⟨rfl, hy, ?_⟩
      rw [Function.update_of_ne hax]
      exact ih ht (fun hm => hp (by simp_all))

/-- Unlinking the successor of `x`. -/
theorem unlink_next {a x y : P} {xs ys : List P} (h : Chain nxt null a (xs ++ x :: y :: ys)) :
    Chain (Function.update nxt x (nxt y)) null a (xs ++ x :: ys) := by
  induction xs generalizing a with
  | nil =>
      have hnd := h.nodup
      obtain ⟨rfl, hx, hay, hy, ht⟩ := h
      refine ⟨rfl, hx, ?_⟩
      rw [Function.update_self]
      refine ht.update_notMem fun hm => ?_
      simp [hm] at hnd
  | cons z zs ih =>
      have hnd := h.nodup
      obtain ⟨rfl, hz, ht⟩ := h
      have hax : a ≠ x := by
        rintro rfl
        simp at hnd
      refine ⟨rfl, hz, ?_⟩
      rw [Function.update_of_ne hax]
      exact ih ht

/-- The chain without one of its pointers, when the link to it leads past it. -/
theorem remove {a a' x before : P} {xs ys : List P} (h : Chain nxt null a (xs ++ x :: ys))
    (hbefore : before = xs.getLast?.getD null) (hhead : a' = if before = null then nxt x else a)
    (hlinks : ∀ p ∈ xs ++ ys, nxt' p = Function.update nxt before (nxt x) p) :
    Chain nxt' null a' (xs ++ ys) := by
  rcases List.eq_nil_or_concat xs with rfl | ⟨init, p, rfl⟩
  · have hnull : before = null := hbefore
    rw [hhead, if_pos hnull]
    refine h.after.congr fun y hy => ?_
    rw [hlinks y hy, hnull]
    exact Function.update_of_ne (h.after.ne_null hy) _ _
  · have hsplit : init.concat p ++ x :: ys = init ++ p :: x :: ys := by simp
    have hjoin : init.concat p ++ ys = init ++ p :: ys := by simp
    have hp : before = p := by simp [hbefore]
    rw [hsplit] at h
    rw [hjoin] at hlinks ⊢
    rw [hhead, hp, if_neg (h.ne_null (by simp))]
    rw [hp] at hlinks
    exact h.unlink_next.congr hlinks

end Chain

end Foundation
