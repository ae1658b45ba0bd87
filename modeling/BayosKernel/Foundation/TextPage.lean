import Mathlib.Data.List.Basic

/-!
A page of text: characters in the cells of a grid, line by line.

A character that does not fit on its line goes to the next one, and one that does not fit
on the page goes to an empty page.
-/

namespace Foundation

universe u

inductive TextItem (α : Type u) where
  | newline
  | carriageReturn
  | char (a : α)
  deriving DecidableEq, Repr

def TextItem.printed {α : Type u} : TextItem α → Option α
  | .char a => some a
  | _ => none

structure TextCell (α : Type u) where
  col : Nat
  row : Nat
  char : α
  deriving DecidableEq, Repr

/-- The cursor, and the cells that are filled, the last one first. -/
structure TextPage (α : Type u) where
  col : Nat
  row : Nat
  cells : List (TextCell α)
  deriving DecidableEq, Repr

namespace TextPage

variable {α : Type u}

def empty : TextPage α := ⟨0, 0, []⟩

def carriageReturn (page : TextPage α) : TextPage α := { page with col := 0 }

def newline (page : TextPage α) : TextPage α := { page with col := 0, row := page.row + 1 }

def draw (page : TextPage α) (a : α) : TextPage α :=
  { page with col := page.col + 1, cells := ⟨page.col, page.row, a⟩ :: page.cells }

def wrap (cols : Nat) (page : TextPage α) : TextPage α :=
  if cols ≤ page.col then page.newline else page

def turn (rows : Nat) (page : TextPage α) : TextPage α := if rows ≤ page.row then empty else page

def put (cols rows : Nat) (page : TextPage α) : TextItem α → TextPage α
  | .newline => page.newline
  | .carriageReturn => page.carriageReturn
  | .char a => ((page.wrap cols).turn rows).draw a

/-- The characters in the order in which they were printed. -/
def chars (page : TextPage α) : List α := (page.cells.map TextCell.char).reverse

/-- The place of a cell comes before another one. -/
def Precedes (cell : TextCell α) (col row : Nat) : Prop :=
  cell.row < row ∨ (cell.row = row ∧ cell.col < col)

/-- The cells are filled in reading order, up to the cursor. -/
structure InOrder (page : TextPage α) : Prop where
  cursor : ∀ cell ∈ page.cells, Precedes cell page.col page.row
  cells : page.cells.Pairwise fun later cell => Precedes cell later.col later.row

/-- The cells lie on the page, which has one cell at least. -/
def Within (cols rows : Nat) (page : TextPage α) : Prop :=
  ∀ cell ∈ page.cells, cell.col < max cols 1 ∧ cell.row < max rows 1

variable {cols rows : Nat} {page : TextPage α} {item : TextItem α} {items : List (TextItem α)}

theorem chars_draw (page : TextPage α) (a : α) : (page.draw a).chars = page.chars ++ [a] := by
  rw [chars, chars, draw, List.map_cons, List.reverse_cons]

theorem chars_turn : (page.turn rows).chars = page.chars ∨ (page.turn rows).chars = [] := by
  rw [turn]
  split
  · exact Or.inr rfl
  · exact Or.inl rfl

theorem chars_wrap : (page.wrap cols).chars = page.chars := by
  rw [wrap]
  split <;> rfl

/-- A page holds the end of what was printed. -/
theorem chars_put {text : List α} (h : page.chars <:+ text) :
    (page.put cols rows item).chars <:+ text ++ item.printed.toList := by
  cases item with
  | newline | carriageReturn =>
      rw [show TextItem.printed _ = (none : Option α) from rfl, Option.toList_none, List.append_nil]
      exact h
  | char a =>
      rw [put, chars_draw]
      refine List.suffix_append_self_iff.mpr ?_
      rcases @chars_turn α rows (page.wrap cols) with hkept | hempty
      · rw [hkept, chars_wrap]
        exact h
      · rw [hempty]
        exact List.nil_suffix

theorem chars_puts {text : List α} (items : List (TextItem α)) (h : page.chars <:+ text) :
    (items.foldl (put cols rows) page).chars <:+ text ++ items.filterMap TextItem.printed := by
  induction items generalizing page text with
  | nil => simpa using h
  | cons item items ih =>
      have hnext := ih (@chars_put α cols rows page item text h)
      rw [List.append_assoc] at hnext
      rw [List.foldl_cons, show (item :: items).filterMap TextItem.printed =
        item.printed.toList ++ items.filterMap TextItem.printed by
          rw [List.filterMap_cons]
          cases item <;> rfl]
      exact hnext

theorem InOrder.newline (h : page.InOrder) : page.newline.InOrder := by
  refine ⟨fun cell hcell => ?_, h.cells⟩
  have hbefore := h.cursor cell hcell
  refine Or.inl ?_
  rw [Precedes] at hbefore
  change cell.row < page.row + 1
  omega

theorem InOrder.draw (h : page.InOrder) (a : α) : (page.draw a).InOrder := by
  constructor
  · intro cell hcell
    rcases List.mem_cons.mp hcell with rfl | hcell
    · exact Or.inr ⟨rfl, Nat.lt_succ_self _⟩
    · have hbefore := h.cursor cell hcell
      rw [Precedes] at hbefore
      change cell.row < page.row ∨ (cell.row = page.row ∧ cell.col < page.col + 1)
      omega
  · exact List.pairwise_cons.mpr ⟨h.cursor, h.cells⟩

theorem InOrder.wrap (h : page.InOrder) : (page.wrap cols).InOrder := by
  rw [TextPage.wrap]
  split
  · exact h.newline
  · exact h

theorem inOrder_empty : (empty : TextPage α).InOrder :=
  ⟨fun _ hcell => absurd hcell List.not_mem_nil, List.Pairwise.nil⟩

theorem InOrder.turn (h : page.InOrder) : (page.turn rows).InOrder := by
  rw [TextPage.turn]
  split
  · exact inOrder_empty
  · exact h

/-- Without a carriage return no cell is drawn over. -/
theorem InOrder.puts (items : List (TextItem α)) (h : page.InOrder)
    (hreturn : .carriageReturn ∉ items) : (items.foldl (put cols rows) page).InOrder := by
  induction items generalizing page with
  | nil => exact h
  | cons item items ih =>
      rw [List.mem_cons, not_or] at hreturn
      refine ih ?_ hreturn.2
      cases item with
      | newline => exact h.newline
      | carriageReturn => exact absurd rfl hreturn.1
      | char a => exact h.wrap.turn.draw a

/-- Two cells at one place are the same. -/
theorem InOrder.unique (h : page.InOrder) {cell cell' : TextCell α} (hcell : cell ∈ page.cells)
    (hcell' : cell' ∈ page.cells) (hcol : cell.col = cell'.col) (hrow : cell.row = cell'.row) :
    cell = cell' := by
  have hapart : page.cells.Pairwise fun c c' => c.col = c'.col → c.row = c'.row → c = c' := by
    refine h.cells.imp fun {c c'} hbefore hc hr => ?_
    rw [Precedes] at hbefore
    omega
  exact hapart.forall_of_forall_of_flip (fun _ _ _ _ => rfl)
    (hapart.imp fun hsame hc hr => (hsame hc.symm hr.symm).symm) hcell hcell' hcol hrow

theorem Within.draw (h : page.Within cols rows) (a : α) (hcol : page.col < max cols 1)
    (hrow : page.row < max rows 1) : (page.draw a).Within cols rows := by
  intro cell hcell
  rcases List.mem_cons.mp hcell with rfl | hcell
  · exact ⟨hcol, hrow⟩
  · exact h cell hcell

/-- The cursor is on the page when a character is drawn. -/
theorem turn_cursor (page : TextPage α) :
    ((page.wrap cols).turn rows).col < max cols 1 ∧
      ((page.wrap cols).turn rows).row < max rows 1 := by
  have hwrap : (page.wrap cols).col < max cols 1 := by
    rw [wrap]
    split
    · change 0 < max cols 1
      omega
    · omega
  rw [turn]
  split
  · change 0 < max cols 1 ∧ 0 < max rows 1
    omega
  · exact ⟨hwrap, by omega⟩

/-- A character moves the cursor by one cell and one line at most. -/
theorem put_cursor (cols rows : Nat) (page : TextPage α) (item : TextItem α) :
    (page.put cols rows item).col ≤ page.col + 1 ∧ (page.put cols rows item).row ≤ page.row + 1 := by
  cases item with
  | newline => exact ⟨Nat.zero_le _, Nat.le_refl _⟩
  | carriageReturn => exact ⟨Nat.zero_le _, Nat.le_succ _⟩
  | char a =>
      have hwrap : (page.wrap cols).col ≤ page.col ∧ (page.wrap cols).row ≤ page.row + 1 := by
        rw [wrap]
        split
        · exact ⟨Nat.zero_le _, Nat.le_refl _⟩
        · exact ⟨Nat.le_refl _, Nat.le_succ _⟩
      have hturn : ((page.wrap cols).turn rows).col ≤ page.col ∧
          ((page.wrap cols).turn rows).row ≤ page.row + 1 := by
        rw [turn]
        split
        · exact ⟨Nat.zero_le _, Nat.zero_le _⟩
        · exact hwrap
      exact ⟨Nat.succ_le_succ hturn.1, hturn.2⟩

theorem Within.turn (h : page.Within cols rows) :
    ((page.wrap cols).turn rows).Within cols rows := by
  rw [TextPage.turn]
  split
  · exact fun _ hcell => absurd hcell List.not_mem_nil
  · rw [TextPage.wrap]
    split <;> exact h

theorem Within.puts (items : List (TextItem α)) (h : page.Within cols rows) :
    (items.foldl (put cols rows) page).Within cols rows := by
  induction items generalizing page with
  | nil => exact h
  | cons item items ih =>
      refine ih ?_
      cases item with
      | newline | carriageReturn => exact h
      | char a => exact h.turn.draw a (turn_cursor page).1 (turn_cursor page).2

end TextPage

end Foundation
