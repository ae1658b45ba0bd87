import Mathlib.Data.List.Chain
import Mathlib.Data.List.Perm.Basic

/-!
First-fit allocation in a list of adjacent blocks.

Each block carries a header of `h` bytes in front of its payload, and a block
is split only when a payload of at least `r` bytes remains. The blocks cover a
range of `extent` bytes; a list is coalesced when no two neighbours are free.
-/

namespace Foundation

structure Block where
  size : Nat
  free : Bool
  deriving DecidableEq, Repr

namespace BlockList

variable (h r : Nat)

def extent : List Block → Nat
  | [] => 0
  | b :: rest => h + b.size + extent rest

def Coalesced (bs : List Block) : Prop :=
  bs.IsChain fun b c => ¬(b.free = true ∧ c.free = true)

/-- The payloads of the used blocks of a list that starts at `a`, each with its size. -/
def payloads (a : Nat) : List Block → List (Nat × Nat)
  | [] => []
  | b :: rest =>
      if b.free then payloads (a + h + b.size) rest
      else (a + h, b.size) :: payloads (a + h + b.size) rest

/-- The byte at `x` belongs to a header. -/
def Header (a : Nat) : List Block → Nat → Prop
  | [], _ => False
  | b :: rest, x => (a ≤ x ∧ x < a + h) ∨ Header (a + h + b.size) rest x

/-- The byte at `x` belongs to a header or to a free block. -/
def Managed (a : Nat) : List Block → Nat → Prop
  | [], _ => False
  | b :: rest, x =>
      (a ≤ x ∧ x < a + h + if b.free then b.size else 0) ∨ Managed (a + h + b.size) rest x

/-- The offset of the block that a request of `n` bytes gets, and the new list. -/
def firstFit (n : Nat) : List Block → Option (Nat × List Block)
  | [] => none
  | b :: rest =>
      if b.size = n ∧ b.free = true then some (0, ⟨n, false⟩ :: rest)
      else if n + h + r ≤ b.size ∧ b.free = true then
        some (0, ⟨n, false⟩ :: ⟨b.size - n - h, true⟩ :: rest)
      else (firstFit n rest).map fun found => (h + b.size + found.1, b :: found.2)

/-- A freed block of `s` bytes joins a free block before it. -/
def mergeBack (pre : List Block) (s : Nat) : List Block × Nat :=
  match pre.getLast? with
  | some b => if b.free then (pre.dropLast, b.size + h + s) else (pre, s)
  | none => (pre, s)

/-- A freed block of `s` bytes joins a free block behind it. -/
def mergeFront (s : Nat) : List Block → List Block
  | [] => [⟨s, true⟩]
  | c :: post => if c.free then ⟨s + h + c.size, true⟩ :: post else ⟨s, true⟩ :: c :: post

/-- The list after the block of `s` bytes between `pre` and `post` is freed. -/
def release (pre : List Block) (s : Nat) (post : List Block) : List Block :=
  (mergeBack h pre s).1 ++ mergeFront h (mergeBack h pre s).2 post

variable {h r}

theorem extent_append (xs ys : List Block) :
    extent h (xs ++ ys) = extent h xs + extent h ys := by
  induction xs with
  | nil => simp [extent]
  | cons b rest ih =>
      simp only [List.cons_append, extent, ih]
      omega

theorem length_le_extent (bs : List Block) : h * bs.length ≤ extent h bs := by
  induction bs with
  | nil => simp [extent]
  | cons b rest ih =>
      simp only [List.length_cons, extent, Nat.mul_succ]
      omega

theorem payloads_append (a : Nat) (xs ys : List Block) :
    payloads h a (xs ++ ys) = payloads h a xs ++ payloads h (a + extent h xs) ys := by
  induction xs generalizing a with
  | nil => simp [payloads, extent]
  | cons b rest ih =>
      have hend : a + extent h (b :: rest) = a + h + b.size + extent h rest := by
        simp only [extent]
        omega
      simp only [List.cons_append, payloads, ih, hend]
      split <;> simp

theorem mem_payloads {a : Nat} {g : Nat × Nat} {bs : List Block} (hg : g ∈ payloads h a bs) :
    ∃ pre b post, bs = pre ++ b :: post ∧ b.free = false ∧ g = (a + extent h pre + h, b.size) := by
  induction bs generalizing a with
  | nil => simp [payloads] at hg
  | cons b rest ih =>
      by_cases hhere : b.free = false ∧ g = (a + h, b.size)
      · exact ⟨[], b, rest, rfl, hhere.1, hhere.2⟩
      · have hrest : g ∈ payloads h (a + h + b.size) rest := by
          simp only [payloads] at hg
          split at hg
          · exact hg
          · rcases List.mem_cons.mp hg with hg | hg
            · exact absurd ⟨by simpa using ‹¬b.free = true›, hg⟩ hhere
            · exact hg
        obtain ⟨pre, c, post, hbs, hc, rfl⟩ := ih hrest
        refine ⟨b :: pre, c, post, by rw [hbs]; rfl, hc, ?_⟩
        simp only [extent, Prod.mk.injEq, and_true]
        omega

theorem le_payloads {a : Nat} {g : Nat × Nat} {bs : List Block} (hg : g ∈ payloads h a bs) :
    a + h ≤ g.1 := by
  obtain ⟨pre, b, post, -, -, rfl⟩ := mem_payloads hg
  simp only
  omega

/-- Two payloads do not start at one address. -/
theorem payloads_unique {a : Nat} {g g' : Nat × Nat} {bs : List Block} (hh : 0 < h)
    (hg : g ∈ payloads h a bs) (hg' : g' ∈ payloads h a bs) (heq : g.1 = g'.1) : g = g' := by
  induction bs generalizing a with
  | nil => simp [payloads] at hg
  | cons b rest ih =>
      simp only [payloads] at hg hg'
      split at hg
      · rw [if_pos ‹_›] at hg'
        exact ih hg hg'
      · rw [if_neg ‹_›] at hg'
        rcases List.mem_cons.mp hg with rfl | hg <;> rcases List.mem_cons.mp hg' with rfl | hg'
        · rfl
        · have := le_payloads hg'
          simp only at heq
          omega
        · have := le_payloads hg
          simp only at heq
          omega
        · exact ih hg hg'

/-- The payloads lie apart. -/
theorem payloads_apart (a : Nat) (bs : List Block) :
    (payloads h a bs).Pairwise fun g g' => g.1 + g.2 ≤ g'.1 ∨ g'.1 + g'.2 ≤ g.1 := by
  induction bs generalizing a with
  | nil => exact List.Pairwise.nil
  | cons b rest ih =>
      rw [payloads]
      split
      · exact ih _
      · refine List.pairwise_cons.mpr ⟨fun g hg => ?_, ih _⟩
        have := le_payloads hg
        simp only
        omega

/-- Without used blocks there are no payloads. -/
theorem payloads_eq_nil_iff {a : Nat} {bs : List Block} :
    payloads h a bs = [] ↔ ∀ b ∈ bs, b.free = true := by
  induction bs generalizing a with
  | nil => simp [payloads]
  | cons b rest ih =>
      rw [List.forall_mem_cons, payloads]
      split
      · rename_i hb
        rw [ih]
        exact (and_iff_right hb).symm
      · rename_i hb
        simp [hb]

theorem payloads_of_split (a : Nat) (pre post : List Block) {b : Block} (hb : b.free = false) :
    payloads h a (pre ++ b :: post) = payloads h a pre ++
      (a + extent h pre + h, b.size) :: payloads h (a + extent h pre + h + b.size) post := by
  simp [payloads_append, payloads, hb]

theorem Managed.bounds {a x : Nat} {bs : List Block} (hx : Managed h a bs x) :
    a ≤ x ∧ x < a + extent h bs := by
  induction bs generalizing a with
  | nil => exact hx.elim
  | cons b rest ih =>
      simp only [extent]
      rcases hx with ⟨hle, hlt⟩ | hx
      · refine ⟨hle, ?_⟩
        split at hlt <;> omega
      · have := ih hx
        omega

theorem managed_append (a x : Nat) (xs ys : List Block) :
    Managed h a (xs ++ ys) x ↔ Managed h a xs x ∨ Managed h (a + extent h xs) ys x := by
  induction xs generalizing a with
  | nil => simp [Managed, extent]
  | cons b rest ih =>
      have hend : a + extent h (b :: rest) = a + h + b.size + extent h rest := by
        simp only [extent]
        omega
      simp only [List.cons_append, Managed, ih, hend, or_assoc]

theorem header_append (a x : Nat) (xs ys : List Block) :
    Header h a (xs ++ ys) x ↔ Header h a xs x ∨ Header h (a + extent h xs) ys x := by
  induction xs generalizing a with
  | nil => simp [Header, extent]
  | cons b rest ih =>
      have hend : a + extent h (b :: rest) = a + h + b.size + extent h rest := by
        simp only [extent]
        omega
      simp only [List.cons_append, Header, ih, hend, or_assoc]

theorem Header.managed {a x : Nat} {bs : List Block} (hx : Header h a bs x) :
    Managed h a bs x := by
  induction bs generalizing a with
  | nil => exact hx
  | cons b rest ih =>
      rcases hx with ⟨hle, hlt⟩ | hx
      · exact Or.inl ⟨hle, by omega⟩
      · exact Or.inr (ih hx)

/-- The payload of a used block is not managed. -/
theorem not_managed_payload {a x : Nat} {pre post : List Block} {b : Block}
    (hb : b.free = false) (hle : a + extent h pre + h ≤ x)
    (hlt : x < a + extent h pre + h + b.size) : ¬Managed h a (pre ++ b :: post) x := by
  intro hx
  rcases (managed_append a x pre _).mp hx with hx | ⟨-, hx⟩ | hx
  · have := hx.bounds
    omega
  · simp only [hb, Bool.false_eq_true, ite_false] at hx
    omega
  · have := hx.bounds
    omega

/-- What a successful first fit found and left behind. -/
theorem firstFit_cases {n o : Nat} {bs bs' : List Block} (hfit : firstFit h r n bs = some (o, bs')) :
    ∃ pre b post, bs = pre ++ b :: post ∧ b.free = true ∧ o = extent h pre ∧
      ((b.size = n ∧ bs' = pre ++ ⟨n, false⟩ :: post) ∨
        (n + h + r ≤ b.size ∧
          bs' = pre ++ ⟨n, false⟩ :: ⟨b.size - n - h, true⟩ :: post)) := by
  induction bs generalizing o bs' with
  | nil => simp [firstFit] at hfit
  | cons b rest ih =>
      simp only [firstFit] at hfit
      split at hfit
      · rename_i hexact
        cases hfit
        exact ⟨[], b, rest, rfl, hexact.2, rfl, Or.inl ⟨hexact.1, rfl⟩⟩
      · split at hfit
        · rename_i hsplit
          cases hfit
          exact ⟨[], b, rest, rfl, hsplit.2, rfl, Or.inr ⟨hsplit.1, rfl⟩⟩
        · obtain ⟨⟨o', rest'⟩, hrest, heq⟩ := Option.map_eq_some_iff.mp hfit
          cases heq
          obtain ⟨pre, c, post, hbs, hfree, ho, hnew⟩ := ih hrest
          refine ⟨b :: pre, c, post, by rw [hbs]; rfl, hfree, by rw [ho]; rfl, ?_⟩
          rcases hnew with ⟨hsize, hnew⟩ | ⟨hsize, hnew⟩
          · exact Or.inl ⟨hsize, by rw [hnew]; rfl⟩
          · exact Or.inr ⟨hsize, by rw [hnew]; rfl⟩

/-- First fit fails when no free block has the very size or leaves enough for a split. -/
theorem firstFit_eq_none_iff {n : Nat} {bs : List Block} : firstFit h r n bs = none ↔
    ∀ b ∈ bs, ¬(b.free = true ∧ (b.size = n ∨ n + h + r ≤ b.size)) := by
  induction bs with
  | nil => simp [firstFit]
  | cons b rest ih =>
      rw [List.forall_mem_cons, ← ih, firstFit]
      by_cases hexact : b.size = n ∧ b.free = true
      · rw [if_pos hexact]
        simp [hexact.1, hexact.2]
      · rw [if_neg hexact]
        by_cases hsplit : n + h + r ≤ b.size ∧ b.free = true
        · rw [if_pos hsplit]
          simp [hsplit.1, hsplit.2]
        · rw [if_neg hsplit, Option.map_eq_none_iff]
          tauto

theorem extent_firstFit {n o : Nat} {bs bs' : List Block}
    (hfit : firstFit h r n bs = some (o, bs')) : extent h bs' = extent h bs := by
  obtain ⟨pre, b, post, rfl, -, -, ⟨hsize, rfl⟩ | ⟨hsize, rfl⟩⟩ := firstFit_cases hfit
  · simp only [extent_append, extent, hsize]
  · simp only [extent_append, extent]
    omega

theorem payloads_firstFit {n o : Nat} {bs bs' : List Block} (a : Nat)
    (hfit : firstFit h r n bs = some (o, bs')) :
    (payloads h a bs').Perm ((a + o + h, n) :: payloads h a bs) := by
  obtain ⟨pre, b, post, rfl, hfree, rfl, ⟨hsize, rfl⟩ | ⟨hsize, rfl⟩⟩ := firstFit_cases hfit
  · simp only [payloads_append, payloads, hfree, hsize, ite_true, Bool.false_eq_true, ite_false]
    exact List.perm_middle
  · have hend : a + extent h pre + h + n + h + (b.size - n - h) =
        a + extent h pre + h + b.size := by omega
    simp only [payloads_append, payloads, hfree, ite_true, Bool.false_eq_true, ite_false, hend]
    exact List.perm_middle

/-- The headers of the new list were managed before. -/
theorem managed_of_firstFit {n o a x : Nat} {bs bs' : List Block}
    (hfit : firstFit h r n bs = some (o, bs')) (hx : Header h a bs' x) : Managed h a bs x := by
  obtain ⟨pre, b, post, rfl, hfree, -, hnew⟩ := firstFit_cases hfit
  rw [managed_append]
  rcases hnew with ⟨hsize, rfl⟩ | ⟨hsize, rfl⟩
  · rcases (header_append a x pre _).mp hx with hx | ⟨hle, hlt⟩ | hx
    · exact Or.inl hx.managed
    · exact Or.inr (Or.inl ⟨hle, by omega⟩)
    · rw [← hsize] at hx
      exact Or.inr (Or.inr hx.managed)
  · have hend : a + extent h pre + h + n + h + (b.size - n - h) =
        a + extent h pre + h + b.size := by omega
    rcases (header_append a x pre _).mp hx with hx | ⟨hle, hlt⟩ | ⟨hle, hlt⟩ | hx
    · exact Or.inl hx.managed
    · exact Or.inr (Or.inl ⟨hle, by omega⟩)
    · refine Or.inr (Or.inl ⟨by omega, ?_⟩)
      rw [hfree, if_pos rfl]
      simp only at hlt
      omega
    · simp only [hend] at hx
      exact Or.inr (Or.inr hx.managed)

/-- A used block separates the two sides of the list. -/
theorem coalesced_used_iff {b : Block} (hb : b.free = false) (pre post : List Block) :
    Coalesced (pre ++ b :: post) ↔ Coalesced pre ∧ Coalesced post := by
  simp [Coalesced, List.isChain_append, List.isChain_cons, hb]

/-- A free block has no free neighbour. -/
theorem coalesced_free_iff {b : Block} (hb : b.free = true) (pre post : List Block) :
    Coalesced (pre ++ b :: post) ↔ Coalesced pre ∧ Coalesced post ∧
      (∀ a ∈ pre.getLast?, a.free = false) ∧ ∀ c ∈ post.head?, c.free = false := by
  simp only [Coalesced, List.isChain_append, List.isChain_cons, List.head?_cons, Option.mem_def,
    Option.some.injEq, hb, and_true, true_and, Bool.not_eq_true, forall_eq']
  tauto

theorem coalesced_firstFit {n o : Nat} {bs bs' : List Block}
    (hfit : firstFit h r n bs = some (o, bs')) (hbs : Coalesced bs) : Coalesced bs' := by
  obtain ⟨pre, b, post, rfl, hfree, -, hnew⟩ := firstFit_cases hfit
  obtain ⟨hpre, hpost, -, hhead⟩ := (coalesced_free_iff hfree pre post).mp hbs
  rcases hnew with ⟨-, rfl⟩ | ⟨-, rfl⟩
  · exact (coalesced_used_iff rfl pre post).mpr ⟨hpre, hpost⟩
  · have hrest : Coalesced (⟨b.size - n - h, true⟩ :: post) :=
      (coalesced_free_iff (b := ⟨b.size - n - h, true⟩) rfl [] post).mpr
        ⟨by simp [Coalesced], hpost, by simp, hhead⟩
    exact (coalesced_used_iff rfl pre _).mpr ⟨hpre, hrest⟩

/-- Free blocks alone are one block when the list is coalesced. -/
theorem Coalesced.eq_singleton {bs : List Block} (hbs : Coalesced bs)
    (hfree : ∀ b ∈ bs, b.free = true) (hne : bs ≠ []) : ∃ b, bs = [b] ∧ b.free = true := by
  obtain ⟨b, rest, rfl⟩ := List.exists_cons_of_ne_nil hne
  have hb := hfree b List.mem_cons_self
  cases rest with
  | nil => exact ⟨b, rfl, hb⟩
  | cons c post =>
      have hc := hfree c (List.mem_cons_of_mem _ List.mem_cons_self)
      exact absurd ⟨hb, hc⟩ (List.isChain_cons_cons.mp hbs).1

/-- The two outcomes of joining with the block before. -/
theorem mergeBack_cases (pre : List Block) (s : Nat) :
    (∃ init b, pre = init ++ [b] ∧ b.free = true ∧
        mergeBack h pre s = (init, b.size + h + s)) ∨
      ((∀ b ∈ pre.getLast?, b.free = false) ∧ mergeBack h pre s = (pre, s)) := by
  rcases List.eq_nil_or_concat pre with rfl | ⟨init, b, rfl⟩
  · exact Or.inr ⟨by simp, rfl⟩
  · cases hb : b.free with
    | true => exact Or.inl ⟨init, b, by simp, hb, by simp [mergeBack, hb]⟩
    | false => exact Or.inr ⟨by simp [hb], by simp [mergeBack, hb]⟩

theorem extent_mergeBack (pre : List Block) (s : Nat) :
    extent h (mergeBack h pre s).1 + h + (mergeBack h pre s).2 = extent h pre + h + s := by
  rcases mergeBack_cases (h := h) pre s with ⟨init, b, rfl, -, hback⟩ | ⟨-, hback⟩
  · simp only [hback, extent_append, extent]
    omega
  · rw [hback]

theorem header_mergeBack {a x s : Nat} {pre post : List Block}
    (hx : Header h a ((mergeBack h pre s).1 ++ ⟨(mergeBack h pre s).2, true⟩ :: post) x) :
    Header h a (pre ++ ⟨s, true⟩ :: post) x := by
  rcases mergeBack_cases (h := h) pre s with ⟨init, b, rfl, -, hback⟩ | ⟨-, hback⟩
  · have hend : a + extent h init + h + (b.size + h + s) =
        a + (extent h init + (h + b.size)) + h + s := by omega
    simp only [hback, header_append, Header, hend] at hx
    simp only [header_append, Header, extent_append, extent, Nat.add_zero]
    tauto
  · rw [hback] at hx
    exact hx

theorem extent_release (pre post : List Block) (s : Nat) :
    extent h (release h pre s post) = extent h pre + (h + s) + extent h post := by
  have hfront : ∀ t, extent h (mergeFront h t post) = h + t + extent h post := by
    intro t
    cases post with
    | nil => simp [mergeFront, extent]
    | cons c rest =>
        simp only [mergeFront]
        split
        · simp only [extent]
          omega
        · simp only [extent]
  rcases mergeBack_cases (h := h) pre s with ⟨init, b, rfl, -, hback⟩ | ⟨-, hback⟩ <;>
    simp only [release, hback, extent_append, hfront, extent] <;> omega

theorem payloads_release (a : Nat) (pre post : List Block) (s : Nat) :
    payloads h a (release h pre s post) =
      payloads h a pre ++ payloads h (a + extent h pre + h + s) post := by
  have hfront : ∀ a' t, payloads h a' (mergeFront h t post) = payloads h (a' + h + t) post := by
    intro a' t
    cases post with
    | nil => simp [mergeFront, payloads]
    | cons c rest =>
        simp only [mergeFront]
        split
        · rename_i hc
          simp [payloads, hc, Nat.add_assoc]
        · simp [payloads]
  rcases mergeBack_cases (h := h) pre s with ⟨init, b, rfl, hb, hback⟩ | ⟨-, hback⟩
  · have hend : a + extent h init + h + (b.size + h + s) =
        a + (extent h init + (h + b.size)) + h + s := by omega
    simp only [release, hback, payloads_append, hfront, payloads, hb, ite_true, List.append_nil,
      extent_append, extent, Nat.add_zero, hend]
  · simp only [release, hback, payloads_append, hfront]

theorem coalesced_release {pre post : List Block} (s : Nat) (hpre : Coalesced pre)
    (hpost : Coalesced post) : Coalesced (release h pre s post) := by
  have hfront : ∀ (init : List Block) t, Coalesced init → (∀ b ∈ init.getLast?, b.free = false) →
      Coalesced (init ++ mergeFront h t post) := by
    intro init t hinit hlast
    cases post with
    | nil => exact (coalesced_free_iff rfl init []).mpr ⟨hinit, hpost, hlast, by simp⟩
    | cons c rest =>
        simp only [mergeFront]
        split
        · rename_i hc
          obtain ⟨-, hrest, -, hhead⟩ := (coalesced_free_iff hc [] rest).mp hpost
          exact (coalesced_free_iff rfl init rest).mpr ⟨hinit, hrest, hlast, hhead⟩
        · rename_i hc
          exact (coalesced_free_iff rfl init (c :: rest)).mpr
            ⟨hinit, hpost, hlast, by simpa using hc⟩
  rcases mergeBack_cases (h := h) pre s with ⟨init, b, rfl, hb, hback⟩ | ⟨hlast, hback⟩
  · obtain ⟨hinit, -, hlast, -⟩ := (coalesced_free_iff hb init []).mp hpre
    simpa only [release, hback] using hfront init _ hinit hlast
  · simpa only [release, hback] using hfront pre s hpre hlast

/-- Releasing the block that first fit took gives the old list back. -/
theorem release_firstFit {n o : Nat} {bs bs' : List Block}
    (hfit : firstFit h r n bs = some (o, bs')) (hbs : Coalesced bs) :
    ∃ pre post, bs' = pre ++ ⟨n, false⟩ :: post ∧ o = extent h pre ∧ release h pre n post = bs := by
  obtain ⟨pre, b, post, rfl, hfree, rfl, hnew⟩ := firstFit_cases hfit
  obtain ⟨-, -, hlast, hhead⟩ := (coalesced_free_iff hfree pre post).mp hbs
  -- the blocks on both sides are used
  have hback : mergeBack h pre n = (pre, n) := by
    rcases mergeBack_cases (h := h) pre n with ⟨init, c, rfl, hc, -⟩ | ⟨-, hback⟩
    · have := hlast c (by simp)
      rw [hc] at this
      cases this
    · exact hback
  rcases hnew with ⟨hsize, rfl⟩ | ⟨hsize, rfl⟩
  · refine ⟨pre, post, rfl, rfl, ?_⟩
    have hblock : (⟨n, true⟩ : Block) = b := by
      rw [← hsize, ← hfree]
    cases post with
    | nil => simp only [release, hback, mergeFront, hblock]
    | cons c rest =>
        have hc : c.free = false := hhead c (by simp)
        simp only [release, hback, mergeFront, hc, hblock, Bool.false_eq_true, ite_false]
  · refine ⟨pre, ⟨b.size - n - h, true⟩ :: post, rfl, rfl, ?_⟩
    have hblock : (⟨n + h + (b.size - n - h), true⟩ : Block) = b := by
      rw [show n + h + (b.size - n - h) = b.size by omega, ← hfree]
    simp only [release, hback, mergeFront, hblock, ite_true]

end BlockList

end Foundation
