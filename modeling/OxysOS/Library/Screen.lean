import Mathlib.Data.Nat.Notation
import Mathlib.Tactic.Common

/-!
# Screens of cells

A screen is a grid of cells with a cursor.  What is put upon it goes into the cell of the
cursor, which moves along the row and on to the next; from the last row the screen moves
up by one, and its last row is blank.

Two screens of cells of different kinds are alike where their cursors agree and their
cells correspond, and each operation keeps them so.
-/

namespace OxysOS.Library

structure Screen (α : Type) where
  rows : ℕ
  columns : ℕ
  cell : ℕ → ℕ → α
  cursorRow : ℕ
  cursorColumn : ℕ

namespace Screen

variable {α : Type}

def scroll (blank : α) (s : Screen α) : Screen α :=
  { s with cell := fun row column ↦ if row + 1 < s.rows then s.cell (row + 1) column else blank }

def down (blank : α) (s : Screen α) : Screen α :=
  if s.cursorRow + 1 < s.rows then { s with cursorRow := s.cursorRow + 1 } else s.scroll blank

def feed (blank : α) (s : Screen α) : Screen α := { s.down blank with cursorColumn := 0 }

def home (s : Screen α) : Screen α := { s with cursorColumn := 0 }

def set (a : α) (s : Screen α) : Screen α :=
  { s with cell := fun row column ↦
      if row = s.cursorRow ∧ column = s.cursorColumn then a else s.cell row column }

def advance (blank : α) (s : Screen α) : Screen α :=
  if s.cursorColumn + 1 < s.columns then { s with cursorColumn := s.cursorColumn + 1 }
  else s.feed blank

def put (blank a : α) (s : Screen α) : Screen α := (s.set a).advance blank

def clear (blank : α) (s : Screen α) : Screen α :=
  { s with cell := fun _ _ ↦ blank, cursorRow := 0, cursorColumn := 0 }

def move (row column : ℕ) (s : Screen α) : Screen α :=
  { s with cursorRow := row, cursorColumn := column }

variable {α β γ : Type} {R : α → β → Prop} {s : Screen α} {t : Screen β} {blank a : α}
  {blank' b : β}

theorem feed_of_lt (h : s.cursorRow + 1 < s.rows) :
    s.feed blank = s.move (s.cursorRow + 1) 0 := by
  unfold feed down
  rw [if_pos h]
  rfl

theorem feed_of_not (h : ¬s.cursorRow + 1 < s.rows) : s.feed blank = (s.scroll blank).home := by
  unfold feed down
  rw [if_neg h]
  rfl

theorem advance_of_lt (h : s.cursorColumn + 1 < s.columns) :
    s.advance blank = s.move s.cursorRow (s.cursorColumn + 1) := if_pos h

theorem advance_of_not (h : ¬s.cursorColumn + 1 < s.columns) : s.advance blank = s.feed blank :=
  if_neg h

structure Sound (s : Screen α) : Prop where
  row : s.cursorRow < s.rows
  column : s.cursorColumn < s.columns

structure Like (R : α → β → Prop) (s : Screen α) (t : Screen β) : Prop where
  rows : s.rows = t.rows
  columns : s.columns = t.columns
  cursorRow : s.cursorRow = t.cursorRow
  cursorColumn : s.cursorColumn = t.cursorColumn
  cell : ∀ row < s.rows, ∀ column < s.columns, R (s.cell row column) (t.cell row column)

theorem Like.refl (s : Screen α) : Like Eq s s := ⟨rfl, rfl, rfl, rfl, fun _ _ _ _ ↦ rfl⟩

theorem Like.symm {s' : Screen α} (h : Like Eq s s') : Like Eq s' s where
  rows := h.rows.symm
  columns := h.columns.symm
  cursorRow := h.cursorRow.symm
  cursorColumn := h.cursorColumn.symm
  cell := fun row hrow column hcolumn ↦ (h.cell row (lt_of_lt_of_eq hrow h.rows.symm) column
    (lt_of_lt_of_eq hcolumn h.columns.symm)).symm

theorem Like.trans {Q : β → γ → Prop} {u : Screen γ} (h : Like R s t) (h' : Like Q t u) :
    Like (fun a c ↦ ∃ b, R a b ∧ Q b c) s u where
  rows := h.rows.trans h'.rows
  columns := h.columns.trans h'.columns
  cursorRow := h.cursorRow.trans h'.cursorRow
  cursorColumn := h.cursorColumn.trans h'.cursorColumn
  cell := fun row hrow column hcolumn ↦ ⟨t.cell row column, h.cell row hrow column hcolumn,
    h'.cell row (h.rows ▸ hrow) column (h.columns ▸ hcolumn)⟩

theorem Like.mono {R' : α → β → Prop} (h : Like R s t) (himp : ∀ a b, R a b → R' a b) :
    Like R' s t :=
  { h with cell := fun row hrow column hcolumn ↦ himp _ _ (h.cell row hrow column hcolumn) }

theorem Like.of_eq {s' : Screen α} (h : Like Eq s' s) (h' : Like R s t) : Like R s' t :=
  (h.trans h').mono fun _ _ ⟨_, hsame, hrelated⟩ ↦ hsame ▸ hrelated

theorem Like.eq_of {t' : Screen β} (h : Like R s t) (h' : Like Eq t t') : Like R s t' :=
  (h.trans h').mono fun _ _ ⟨_, hrelated, hsame⟩ ↦ hsame ▸ hrelated

theorem Like.scroll (h : Like R s t) (hblank : R blank blank') :
    Like R (s.scroll blank) (t.scroll blank') :=
  { h with
    cell := fun row hrow column hcolumn ↦ by
      unfold Screen.scroll
      dsimp only
      rw [← h.rows]
      split_ifs with hbelow
      · exact h.cell (row + 1) hbelow column hcolumn
      · exact hblank }

theorem Like.move (h : Like R s t) (row column : ℕ) : Like R (s.move row column) (t.move row column) :=
  { h with cursorRow := rfl, cursorColumn := rfl }

theorem Like.home (h : Like R s t) : Like R s.home t.home := { h with cursorColumn := rfl }

theorem Like.down (h : Like R s t) (hblank : R blank blank') :
    Like R (s.down blank) (t.down blank') := by
  have hrows := h.rows
  have hcursor := h.cursorRow
  unfold Screen.down
  by_cases hbelow : s.cursorRow + 1 < s.rows
  · rw [if_pos hbelow, if_pos (by omega)]
    exact { h with cursorRow := congrArg (· + 1) hcursor }
  · rw [if_neg hbelow, if_neg (by omega)]
    exact h.scroll hblank

theorem Like.feed (h : Like R s t) (hblank : R blank blank') :
    Like R (s.feed blank) (t.feed blank') := (h.down hblank).home

theorem Like.set (h : Like R s t) (hput : R a b) : Like R (s.set a) (t.set b) :=
  { h with
    cell := fun row hrow column hcolumn ↦ by
      unfold Screen.set
      dsimp only
      rw [← h.cursorRow, ← h.cursorColumn]
      split_ifs
      · exact hput
      · exact h.cell row hrow column hcolumn }

theorem Like.advance (h : Like R s t) (hblank : R blank blank') :
    Like R (s.advance blank) (t.advance blank') := by
  have hcolumns := h.columns
  have hcursor := h.cursorColumn
  unfold Screen.advance
  by_cases hroom : s.cursorColumn + 1 < s.columns
  · rw [if_pos hroom, if_pos (by omega)]
    exact { h with cursorColumn := congrArg (· + 1) hcursor }
  · rw [if_neg hroom, if_neg (by omega)]
    exact h.feed hblank

theorem Like.put (h : Like R s t) (hblank : R blank blank') (hput : R a b) :
    Like R (s.put blank a) (t.put blank' b) := (h.set hput).advance hblank

theorem Like.clear (h : Like R s t) (hblank : R blank blank') :
    Like R (s.clear blank) (t.clear blank') :=
  { h with cursorRow := rfl, cursorColumn := rfl, cell := fun _ _ _ _ ↦ hblank }

theorem Like.sound (h : Like R s t) (ht : t.Sound) : s.Sound where
  row := by rw [h.cursorRow, h.rows]; exact ht.row
  column := by rw [h.cursorColumn, h.columns]; exact ht.column

theorem Sound.down (h : s.Sound) : (s.down blank).Sound := by
  unfold Screen.down
  split_ifs with hbelow
  · exact ⟨hbelow, h.column⟩
  · exact ⟨h.row, h.column⟩

theorem Sound.home (h : s.Sound) : s.home.Sound := ⟨h.row, Nat.zero_lt_of_lt h.column⟩

theorem Sound.feed (h : s.Sound) : (s.feed blank).Sound := h.down.home

theorem Sound.advance (h : s.Sound) : (s.advance blank).Sound := by
  unfold Screen.advance
  split_ifs with hroom
  · exact ⟨h.row, hroom⟩
  · exact h.feed

theorem Sound.put (h : s.Sound) : (s.put blank a).Sound := Sound.advance ⟨h.row, h.column⟩

theorem Sound.clear (h : s.Sound) : (s.clear blank).Sound :=
  ⟨Nat.zero_lt_of_lt h.row, Nat.zero_lt_of_lt h.column⟩

end Screen

end OxysOS.Library
