import OxysOS.Library.Screen
import Mathlib.Logic.Function.Basic

/-!
# The character grid of a terminal

`libc/term/term.c`: a grid of characters with a cursor, and the rows of it that have been
written to since they were drawn.
-/

namespace OxysOS.Libc

open OxysOS.Library

def termColumnsMaximum : ℕ := 120

def termRowsMaximum : ℕ := 64

structure TermScreen where
  columns : ℕ
  rows : ℕ
  cursorColumn : ℕ
  cursorRow : ℕ
  cell : ℕ → ℕ → UInt8
  changed : ℕ → Bool
  scrolls : UInt64
  written : UInt64

def termTouch (screen : TermScreen) (row : ℕ) : TermScreen :=
  if row < screen.rows then { screen with changed := Function.update screen.changed row true }
  else screen

def termClearRow (screen : TermScreen) (row : ℕ) : TermScreen :=
  termTouch { screen with
    cell := fun row' column ↦
      if row' = row ∧ column < screen.columns then 0x20
      else if row' = row ∧ column = screen.columns then 0
      else screen.cell row' column } row

/-- One turn of the loop of `TermScroll`, which copies a row to the one above it. -/
def termCopyUp (screen : TermScreen) (row : ℕ) : TermScreen :=
  termTouch { screen with
    cell := fun row' column ↦
      if row' = row - 1 ∧ column ≤ screen.columns then screen.cell row column
      else screen.cell row' column } (row - 1)

def termScroll (screen : TermScreen) : TermScreen :=
  let screen := (List.range (screen.rows - 1)).foldl (fun screen row ↦ termCopyUp screen (row + 1))
    screen
  let screen := termClearRow screen (screen.rows - 1)
  { screen with scrolls := screen.scrolls + 1 }

def termDown (screen : TermScreen) : TermScreen :=
  if screen.cursorRow + 1 < screen.rows then { screen with cursorRow := screen.cursorRow + 1 }
  else termScroll screen

/-- `TermInitialise`, of a screen that is somewhere. -/
def termInitialise (screen : TermScreen) (columns rows : ℕ) : Bool × TermScreen :=
  if columns = 0 ∨ rows = 0 ∨ columns > termColumnsMaximum ∨ rows > termRowsMaximum then
    (false, screen)
  else
    (true, (List.range rows).foldl termClearRow
      { screen with columns, rows, cursorColumn := 0, cursorRow := 0, scrolls := 0, written := 0 })

/-- The row below that `TermWriteByte` goes to from the end of a row. -/
def termWrap (screen : TermScreen) : TermScreen :=
  if screen.cursorColumn ≥ screen.columns then
    let screen := termDown { screen with cursorColumn := 0 }
    termTouch screen screen.cursorRow
  else screen

def termTab (screen : TermScreen) : ℕ → TermScreen
  | 0 => screen
  | turns + 1 =>
      let screen := { screen with
        cell := fun row column ↦
          if row = screen.cursorRow ∧ column = screen.cursorColumn then 0x20
          else screen.cell row column
        cursorColumn := screen.cursorColumn + 1 }
      if screen.cursorColumn < screen.columns ∧ screen.cursorColumn % 8 ≠ 0 then
        termTab screen turns
      else screen

/-- The backspace of `TermWriteByte`. -/
def termBackspace (screen : TermScreen) : TermScreen :=
  if screen.cursorColumn > 0 then { screen with cursorColumn := screen.cursorColumn - 1 }
  else if screen.cursorRow > 0 then
    { screen with cursorRow := screen.cursorRow - 1, cursorColumn := screen.columns - 1 }
  else screen

/-- The character that `TermWriteByte` puts upon the grid. -/
def termPut (screen : TermScreen) (byte : UInt8) : TermScreen :=
  let screen := termTouch { screen with
    cell := fun row column ↦
      if row = screen.cursorRow ∧ column = screen.cursorColumn then byte
      else screen.cell row column } screen.cursorRow
  termWrap { screen with cursorColumn := screen.cursorColumn + 1 }

/-- `TermWriteByte`, whose byte is negative as a `char` from 0x80 on. -/
def termWriteByte (screen : TermScreen) (byte : UInt8) : TermScreen :=
  if screen.columns = 0 then screen
  else
    let screen := { screen with written := screen.written + 1 }
    if byte = 0x0D then termTouch { screen with cursorColumn := 0 } screen.cursorRow
    else if byte = 0x0A then
      let screen := termDown { termTouch screen screen.cursorRow with cursorColumn := 0 }
      termTouch screen screen.cursorRow
    else if byte = 0x08 then
      let screen := termBackspace screen
      termTouch screen screen.cursorRow
    else if byte = 0x0C then
      { (List.range screen.rows).foldl termClearRow screen with cursorColumn := 0, cursorRow := 0 }
    else if byte = 0x09 then
      let screen := termTab screen 8
      termWrap (termTouch screen screen.cursorRow)
    else if byte < 0x20 ∨ byte ≥ 0x80 ∨ byte = 0x7F then screen
    else termPut screen byte

def termWrite (screen : TermScreen) (bytes : List UInt8) : TermScreen :=
  bytes.foldl termWriteByte screen

namespace TermScreen

def screen (screen : TermScreen) : Screen UInt8 where
  rows := screen.rows
  columns := screen.columns
  cell := screen.cell
  cursorRow := screen.cursorRow
  cursorColumn := screen.cursorColumn

end TermScreen

variable {screen : TermScreen}

@[simp] theorem screen_termTouch (screen : TermScreen) (row : ℕ) :
    (termTouch screen row).screen = screen.screen := by
  unfold termTouch
  split_ifs <;> rfl

theorem screen_termCopyUp (screen : TermScreen) (row : ℕ) :
    (termCopyUp screen row).screen = { screen.screen with
      cell := fun row' column ↦
        if row' = row - 1 ∧ column ≤ screen.columns then screen.cell row column
        else screen.cell row' column } := by
  unfold termCopyUp
  rw [screen_termTouch]
  rfl

theorem screen_termClearRow (screen : TermScreen) (row : ℕ) :
    (termClearRow screen row).screen = { screen.screen with
      cell := fun row' column ↦
        if row' = row ∧ column < screen.columns then 0x20
        else if row' = row ∧ column = screen.columns then 0
        else screen.cell row' column } := by
  unfold termClearRow
  rw [screen_termTouch]
  rfl

theorem screen_foldl_termCopyUp (screen : TermScreen) (turns : ℕ) :
    ((List.range turns).foldl (fun screen row ↦ termCopyUp screen (row + 1)) screen).screen =
      { screen.screen with
        cell := fun row column ↦
          if row < turns ∧ column ≤ screen.columns then screen.cell (row + 1) column
          else screen.cell row column } := by
  induction turns with
  | zero => rfl
  | succ turns ih =>
      rw [List.range_succ, List.foldl_append, List.foldl_cons, List.foldl_nil, screen_termCopyUp]
      generalize (List.range turns).foldl (fun screen row ↦ termCopyUp screen (row + 1)) screen =
        copied at ih
      have hcolumns : copied.columns = screen.columns := congrArg Screen.columns ih
      have hcell : copied.cell = fun row column ↦
          if row < turns ∧ column ≤ screen.columns then screen.cell (row + 1) column
          else screen.cell row column := congrArg Screen.cell ih
      rw [ih, hcolumns, hcell]
      dsimp only
      congr 1
      funext row column
      grind

theorem termScroll_like (screen : TermScreen) :
    Screen.Like Eq (termScroll screen).screen (screen.screen.scroll 0x20) := by
  have hcopied := screen_foldl_termCopyUp screen (screen.rows - 1)
  unfold termScroll
  dsimp only
  generalize (List.range (screen.rows - 1)).foldl (fun screen row ↦ termCopyUp screen (row + 1))
    screen = copied at hcopied ⊢
  have hrows : copied.rows = screen.rows := congrArg Screen.rows hcopied
  have hcolumns : copied.columns = screen.columns := congrArg Screen.columns hcopied
  have hcell : copied.cell = fun row column ↦
      if row < screen.rows - 1 ∧ column ≤ screen.columns then screen.cell (row + 1) column
      else screen.cell row column := congrArg Screen.cell hcopied
  have hcleared : { termClearRow copied (copied.rows - 1) with
      scrolls := (termClearRow copied (copied.rows - 1)).scrolls + 1 }.screen =
        (termClearRow copied (copied.rows - 1)).screen := rfl
  rw [hcleared, screen_termClearRow, hcopied, hrows, hcolumns, hcell]
  refine ⟨rfl, rfl, rfl, rfl, fun row hrow column hcolumn ↦ ?_⟩
  unfold Screen.scroll TermScreen.screen at *
  dsimp only at *
  by_cases hlast : row = screen.rows - 1
  · rw [if_pos ⟨hlast, hcolumn⟩, if_neg (by omega)]
  · rw [if_neg (by omega), if_neg (by omega), if_pos (by omega), if_pos (by omega)]

theorem termDown_like (screen : TermScreen) (column : ℕ) :
    Screen.Like Eq (termDown { screen with cursorColumn := column }).screen
      { screen.screen.down 0x20 with cursorColumn := column } := by
  unfold termDown Screen.down
  by_cases hbelow : screen.cursorRow + 1 < screen.rows
  · have hdown : screen.screen.cursorRow + 1 < screen.screen.rows := hbelow
    rw [if_pos hdown, if_pos hbelow]
    exact ⟨rfl, rfl, rfl, rfl, fun _ _ _ _ ↦ rfl⟩
  · have hdown : ¬screen.screen.cursorRow + 1 < screen.screen.rows := hbelow
    rw [if_neg hdown, if_neg hbelow]
    exact termScroll_like _

theorem termWriteByte_feed (h : 0 < screen.columns) :
    Screen.Like Eq (termWriteByte screen 0x0A).screen (screen.screen.feed 0x20) := by
  have hdown := termDown_like (termTouch { screen with written := screen.written + 1 }
    screen.cursorRow) 0
  unfold termWriteByte
  rw [if_neg (Nat.ne_of_gt h)]
  dsimp only
  rw [if_neg (by decide), if_pos rfl, screen_termTouch]
  rw [screen_termTouch] at hdown
  exact hdown

theorem termWriteByte_return (h : 0 < screen.columns) :
    (termWriteByte screen 0x0D).screen = screen.screen.home := by
  unfold termWriteByte
  rw [if_neg (Nat.ne_of_gt h)]
  dsimp only
  rw [if_pos rfl, screen_termTouch]
  rfl

theorem termWriteByte_backspace (h : 0 < screen.columns) :
    (termWriteByte screen 0x08).screen = (termBackspace screen).screen := by
  unfold termWriteByte
  rw [if_neg (Nat.ne_of_gt h)]
  dsimp only
  rw [if_neg (by decide), if_neg (by decide), if_pos rfl, screen_termTouch]
  unfold termBackspace
  dsimp only
  split_ifs <;> rfl

theorem screen_foldl_termClearRow (screen : TermScreen) (turns : ℕ) :
    Screen.Like Eq ((List.range turns).foldl termClearRow screen).screen { screen.screen with
      cell := fun row column ↦ if row < turns then 0x20 else screen.cell row column } := by
  induction turns with
  | zero =>
      refine ⟨rfl, rfl, rfl, rfl, fun row _ column _ ↦ ?_⟩
      dsimp only
      rw [if_neg (Nat.not_lt_zero row)]
      rfl
  | succ turns ih =>
      rw [List.range_succ, List.foldl_append, List.foldl_cons, List.foldl_nil, screen_termClearRow]
      generalize (List.range turns).foldl termClearRow screen = cleared at ih
      have hcolumns : cleared.columns = screen.columns := ih.columns
      refine { ih with cell := fun row hrow column hcolumn ↦ ?_ }
      have hcell := ih.cell row hrow column hcolumn
      have hin : column < cleared.columns := hcolumn
      dsimp only at hcell ⊢
      by_cases hlast : row = turns
      · rw [if_pos ⟨hlast, hin⟩, if_pos (by omega)]
      · rw [if_neg (by omega), if_neg (by omega)]
        refine hcell.trans ?_
        by_cases hbefore : row < turns
        · rw [if_pos hbefore, if_pos (by omega)]
        · rw [if_neg hbefore, if_neg (by omega)]

theorem termWriteByte_clear (h : 0 < screen.columns) :
    Screen.Like Eq (termWriteByte screen 0x0C).screen (screen.screen.clear 0x20) := by
  have hcleared := screen_foldl_termClearRow { screen with written := screen.written + 1 }
    screen.rows
  have hrows := hcleared.rows
  unfold termWriteByte
  rw [if_neg (Nat.ne_of_gt h)]
  dsimp only
  rw [if_neg (by decide), if_neg (by decide), if_neg (by decide), if_pos rfl]
  refine ⟨hrows, hcleared.columns, rfl, rfl, fun row hrow column hcolumn ↦ ?_⟩
  refine (hcleared.cell row hrow column hcolumn).trans (if_pos ?_)
  exact lt_of_lt_of_eq hrow hrows

theorem termWrap_like (screen : TermScreen) :
    Screen.Like Eq (termWrap { screen with cursorColumn := screen.cursorColumn + 1 }).screen
      (screen.screen.advance 0x20) := by
  unfold termWrap
  dsimp only
  by_cases hroom : screen.cursorColumn + 1 < screen.columns
  · have hadvance : screen.screen.cursorColumn + 1 < screen.screen.columns := hroom
    rw [if_neg (Nat.not_le.mpr hroom), Screen.advance_of_lt hadvance]
    exact ⟨rfl, rfl, rfl, rfl, fun _ _ _ _ ↦ rfl⟩
  · have hadvance : ¬screen.screen.cursorColumn + 1 < screen.screen.columns := hroom
    rw [if_pos (Nat.not_lt.mp hroom), Screen.advance_of_not hadvance, screen_termTouch]
    exact termDown_like screen 0

theorem termWriteByte_put (h : 0 < screen.columns) {byte : UInt8} (hfirst : 0x20 ≤ byte)
    (hlast : byte ≤ 0x7E) :
    Screen.Like Eq (termWriteByte screen byte).screen (screen.screen.put 0x20 byte) := by
  have hprintable : ∀ code : UInt8, code < 0x20 → byte ≠ code := fun code hcode hsame ↦
    absurd hfirst (UInt8.not_le.mpr (hsame ▸ hcode))
  have hnone : ¬(byte < 0x20 ∨ byte ≥ 0x80 ∨ byte = 0x7F) := by
    rintro (hset | hset | rfl)
    · exact absurd hfirst (UInt8.not_le.mpr hset)
    · exact absurd (UInt8.le_trans hset hlast) (by decide)
    · exact absurd hlast (by decide)
  unfold termWriteByte
  rw [if_neg (Nat.ne_of_gt h)]
  dsimp only
  rw [if_neg (hprintable _ (by decide)), if_neg (hprintable _ (by decide)),
    if_neg (hprintable _ (by decide)), if_neg (hprintable _ (by decide)),
    if_neg (hprintable _ (by decide)), if_neg hnone]
  have hwrap := termWrap_like (termTouch { screen with
    cell := fun row column ↦
      if row = screen.cursorRow ∧ column = screen.cursorColumn then byte
      else screen.cell row column
    written := screen.written + 1 } screen.cursorRow)
  rw [screen_termTouch] at hwrap
  exact hwrap

theorem termInitialise_like {started : TermScreen} {columns rows : ℕ}
    (h : termInitialise screen columns rows = (true, started)) :
    0 < columns ∧ 0 < rows ∧ Screen.Like Eq started.screen ⟨rows, columns, fun _ _ ↦ 0x20, 0, 0⟩ := by
  unfold termInitialise at h
  by_cases hbad : columns = 0 ∨ rows = 0 ∨ columns > termColumnsMaximum ∨ rows > termRowsMaximum
  · rw [if_pos hbad] at h
    cases h
  rw [if_neg hbad] at h
  have hcleared := screen_foldl_termClearRow { screen with
    columns
    rows
    cursorColumn := 0
    cursorRow := 0
    scrolls := 0
    written := 0 } rows
  rw [← (Prod.mk.inj h).2]
  refine ⟨by omega, by omega, { hcleared with cell := fun row hrow column hcolumn ↦ ?_ }⟩
  exact (hcleared.cell row hrow column hcolumn).trans (if_pos (lt_of_lt_of_eq hrow hcleared.rows))

end OxysOS.Libc
