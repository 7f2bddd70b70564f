import OxysOS.Graphics.TwoDisplays
import OxysOS.Library.FoldedText

/-!
# The text after the erase limit

What is written after the limit is set is a text folded at the columns, and the console
shows it: its letters, its cursor, and every other cell as it was, moved up by as many
rows as the console has scrolled.
-/

namespace OxysOS.Graphics

open OxysOS.Library OxysOS.Library.FoldedText

/-- What a byte does to a text: a printable character, a backspace or a line feed, which is
after the last letter of its row. -/
def textWrite (columns start : ℕ) (text : FoldedText UInt8) (byte : UInt8) :
    Option (FoldedText UInt8) :=
  if byte = 0x08 then some text.back
  else if byte = 0x0A then text.feed
  else if 0x20 ≤ byte ∧ byte ≤ 0x7E then some (text.put columns start byte)
  else none

def shownTile (origin : Console) (text : FoldedText UInt8) (row column : ℕ) : Tile :=
  match (if origin.cursorRow ≤ row then text.letters origin.columnCount origin.cursorColumn
      (row - origin.cursorRow) column else none) with
  | some code => origin.glyph code
  | none => if row < origin.rowCount then origin.tile row column else origin.blank

structure TextShown (origin console : Console) (text : FoldedText UInt8) (scrolled : ℕ) : Prop where
  limit : scrolled ≤ origin.cursorRow
  cursorRow : console.cursorRow + scrolled =
    origin.cursorRow + (placeOf origin.columnCount origin.cursorColumn text.before).1
  cursorColumn : console.cursorColumn =
    (placeOf origin.columnCount origin.cursorColumn text.before).2
  cell : ∀ row < origin.rowCount, ∀ column < origin.columnCount,
    console.tile row column = shownTile origin text (row + scrolled) column

def LimitStays (console : Console) : List UInt8 → Prop
  | [] => True
  | byte :: bytes =>
      ((consoleWriteCharacter console byte).scrollCount ≠ console.scrollCount →
        0 < console.limitRow) ∧ LimitStays (consoleWriteCharacter console byte) bytes

structure TextHeld (origin console : Console) (text : FoldedText UInt8) (scrolled : ℕ) : Prop where
  keeps : origin.Keeps console
  sound : console.Sound
  limitRow : console.limitRow + scrolled = origin.cursorRow
  limitColumn : console.limitColumn = origin.cursorColumn
  cursorRow : console.cursorRow = console.limitRow +
    (placeOf origin.columnCount origin.cursorColumn text.before).1
  cursorColumn : console.cursorColumn =
    (placeOf origin.columnCount origin.cursorColumn text.before).2
  ends : Ends origin.columnCount origin.cursorColumn
    (fun row ↦ console.rowEnd (console.limitRow + row)) text.before
  last : origin.cursorRow + lastRow origin.columnCount
    (placeOf origin.columnCount origin.cursorColumn text.before) text.after <
      origin.rowCount + scrolled
  cell : ∀ row < origin.rowCount, ∀ column < origin.columnCount,
    console.tile row column = shownTile origin text (row + scrolled) column

variable {origin console : Console} {text text' : FoldedText UInt8} {scrolled : ℕ}

theorem TextHeld.shown (h : TextHeld origin console text scrolled) :
    TextShown origin console text scrolled := by
  have hlimit := h.limitRow
  have hcursor := h.cursorRow
  exact ⟨by omega, by omega, h.cursorColumn, h.cell⟩

theorem shownTile_congr {row column : ℕ}
    (h : ∀ row column, text.letters origin.columnCount origin.cursorColumn row column =
      text'.letters origin.columnCount origin.cursorColumn row column) :
    shownTile origin text row column = shownTile origin text' row column := by
  unfold shownTile
  rw [h]

theorem shownTile_below {row column : ℕ} (hscreen : origin.rowCount ≤ row)
    (hnone : text.letters origin.columnCount origin.cursorColumn (row - origin.cursorRow) column =
      none) : shownTile origin text row column = origin.blank := by
  unfold shownTile
  rw [hnone, ite_self]
  exact if_neg (Nat.not_lt.mpr hscreen)

structure NewLineMoved (console next : Console) (column moved : ℕ) : Prop where
  limitRow : next.limitRow + moved = console.limitRow
  limitColumn : next.limitColumn = console.limitColumn
  cursorRow : next.cursorRow + moved = console.cursorRow + 1
  cursorColumn : next.cursorColumn = 0
  rowEnd : ∀ row ≤ console.cursorRow, moved ≤ row →
    next.rowEnd (row - moved) = if row = console.cursorRow then column else console.rowEnd row
  cell : ∀ row < console.rowCount, ∀ column < console.columnCount, next.tile row column =
    if row + moved < console.rowCount then console.tile (row + moved) column else console.blank

theorem consoleScroll_scrollCount (console : Console) :
    (consoleScroll console).scrollCount ≠ console.scrollCount := by
  unfold consoleScroll
  dsimp only
  intro hsame
  have hnat := congrArg UInt64.toNat hsame
  rw [UInt64.toNat_add] at hnat
  have hbound := console.scrollCount.toNat_lt
  have hone : (1 : UInt64).toNat = 1 := rfl
  omega

theorem Console.Sound.newLine_moved (h : console.Sound) (column : ℕ)
    (hstays : (consoleNewLine { console with cursorColumn := column }).scrollCount ≠
      console.scrollCount → 0 < console.limitRow) :
    ∃ moved, NewLineMoved console (consoleNewLine { console with cursorColumn := column }) column
      moved := by
  have hcursor : console.cursorRow < console.rowCount := h.cursor.row
  by_cases hbelow : console.cursorRow + 1 < console.rowCount
  · rw [consoleNewLine_of_lt (by exact hbelow)]
    refine ⟨0, rfl, rfl, rfl, rfl, fun row hrow _ ↦ ?_, fun row hrow column hcolumn ↦ ?_⟩
    · exact Function.update_apply _ _ _ _
    · exact (if_pos hrow).symm
  · rw [consoleNewLine_of_not (by exact hbelow)] at hstays ⊢
    have hlimit := hstays (consoleScroll_scrollCount _)
    refine ⟨1, ?_, if_pos hlimit, by change console.cursorRow + 1 = _; rfl, rfl,
      fun row hrow hmoved ↦ ?_, fun row hrow column hcolumn ↦ h.tile_scroll hrow hcolumn⟩
    · unfold consoleScroll
      dsimp only
      rw [if_pos hlimit]
      omega
    · unfold consoleScroll
      dsimp only
      rw [if_pos (by omega), Nat.sub_add_cancel hmoved]
      exact Function.update_apply _ _ _ _

theorem textHeld_newLine (console : Console) (place : ℕ × ℕ) (column : ℕ)
    (hkeeps : origin.Keeps console) (hsound : console.Sound) (hlimitRow : console.limitRow + scrolled = origin.cursorRow)
    (hlimitColumn : console.limitColumn = origin.cursorColumn)
    (hcursorRow : console.cursorRow = console.limitRow + place.1)
    (hplace : placeOf origin.columnCount origin.cursorColumn text.before = (place.1 + 1, 0))
    (hends : Ends origin.columnCount origin.cursorColumn (fun row ↦ if row = place.1 then column
      else console.rowEnd (console.limitRow + row)) text.before)
    (hlast : lastRow origin.columnCount
      (placeOf origin.columnCount origin.cursorColumn text.before) text.after = place.1 + 1 ∨
      origin.cursorRow + lastRow origin.columnCount
        (placeOf origin.columnCount origin.cursorColumn text.before) text.after <
          origin.rowCount + scrolled)
    (hnone : ∀ row column, origin.rowCount + scrolled ≤ origin.cursorRow + row →
      text.letters origin.columnCount origin.cursorColumn row column = none)
    (hcell : ∀ row < origin.rowCount, ∀ column < origin.columnCount,
      console.tile row column = shownTile origin text (row + scrolled) column)
    (hstays : (consoleNewLine { console with cursorColumn := column }).scrollCount ≠
      console.scrollCount → 0 < console.limitRow) :
    ∃ scrolled', TextHeld origin (consoleNewLine { console with cursorColumn := column }) text
      scrolled' := by
  obtain ⟨moved, hmoved⟩ := hsound.newLine_moved column hstays
  have hnextKeeps := consoleNewLine_keeps console column
  have hnextSound := hnextKeeps.sound hsound
    (sound_of_like (hsound.newLine column) hsound.cursor.feed)
  have hnextCursor := hnextSound.cursor.row
  generalize consoleNewLine { console with cursorColumn := column } = next at *
  have hrows : console.rowCount = origin.rowCount := hkeeps.rows
  have hcolumns : console.columnCount = origin.columnCount := hkeeps.columns
  have hnextRows : next.rowCount = console.rowCount := hnextKeeps.rows
  have hnextRow : next.cursorRow < next.rowCount := hnextCursor
  have hmovedLimit := hmoved.limitRow
  have hmovedCursor := hmoved.cursorRow
  have hcursor : console.cursorRow < console.rowCount := hsound.cursor.row
  refine ⟨scrolled + moved, hkeeps.trans hnextKeeps, hnextSound, by omega,
    hmoved.limitColumn.trans hlimitColumn, ?_, ?_, ?_, ?_, ?_⟩
  · rw [hplace]
    omega
  · rw [hplace]
    exact hmoved.cursorColumn
  · refine hends.congr fun row hrow ↦ ?_
    rw [hplace] at hrow
    have hend := hmoved.rowEnd (console.limitRow + row) (by omega) (by omega)
    have hindex : console.limitRow + row - moved = next.limitRow + row := by omega
    rw [hindex] at hend
    dsimp only at hrow ⊢
    rw [hend]
    by_cases hcurrent : row = place.1
    · rw [if_pos hcurrent, if_pos (by omega)]
    · rw [if_neg hcurrent, if_neg (by omega)]
  · omega
  · intro row hrow column hcolumn
    rw [hmoved.cell row (by omega) column (by omega)]
    by_cases hinside : row + moved < console.rowCount
    · have habove : row + moved + scrolled = row + (scrolled + moved) := by omega
      rw [if_pos hinside, hcell _ (by omega) _ hcolumn, habove]
    · rw [if_neg hinside, hkeeps.blank, shownTile_below (by omega)]
      exact hnone _ _ (by omega)

theorem TextHeld.none_below (h : TextHeld origin console text scrolled) {row column : ℕ}
    (hrow : origin.rowCount + scrolled ≤ origin.cursorRow + row) :
    text.letters origin.columnCount origin.cursorColumn row column = none := by
  have hlast := h.last
  exact letters_of_lastRow (by omega)

theorem TextHeld.feed (h : TextHeld origin console text scrolled) (hfeed : text.feed = some text')
    (hstays : (consoleNewLine console).scrollCount ≠ console.scrollCount → 0 < console.limitRow) :
    ∃ scrolled', TextHeld origin (consoleNewLine console) text' scrolled' := by
  have hletters := letters_feed origin.columnCount origin.cursorColumn hfeed
  have hlast := lastRow_feed origin.columnCount origin.cursorColumn hfeed
  have hbound := h.last
  have hbefore := before_feed hfeed
  have hplace : placeOf origin.columnCount origin.cursorColumn text'.before =
      ((placeOf origin.columnCount origin.cursorColumn text.before).1 + 1, 0) := by
    rw [hbefore]
    rfl
  have hrow := le_lastRow origin.columnCount
    (placeOf origin.columnCount origin.cursorColumn text'.before) text'.after
  refine textHeld_newLine console (placeOf origin.columnCount origin.cursorColumn text.before)
    console.cursorColumn h.keeps h.sound h.limitRow h.limitColumn h.cursorRow hplace ?_ ?_
    (fun row column hrow ↦ ?_) (fun row hrow column hcolumn ↦ ?_) hstays
  · rw [hbefore]
    refine ⟨h.ends.congr fun row hrow ↦ (if_neg (Nat.ne_of_lt hrow)).symm, ?_⟩
    exact (if_pos rfl).trans h.cursorColumn
  · rw [hplace] at hrow hlast ⊢
    dsimp only at hrow
    omega
  · rw [hletters]
    exact h.none_below hrow
  · rw [h.cell row hrow column hcolumn]
    exact shownTile_congr fun row column ↦ (hletters row column).symm

theorem TextHeld.cell_put (h : TextHeld origin console text scrolled) (code : UInt8) {row column : ℕ}
    (hrow : row < origin.rowCount) (hcolumn : column < origin.columnCount) :
    (if row = console.cursorRow ∧ column = console.cursorColumn then console.glyph code
      else console.tile row column) =
      shownTile origin (text.put origin.columnCount origin.cursorColumn code) (row + scrolled)
        column := by
  have hlimit := h.limitRow
  have hcursorRow := h.cursorRow
  have hcursorColumn := h.cursorColumn
  by_cases hcursor : row = console.cursorRow ∧ column = console.cursorColumn
  · have hplace : (row + scrolled - origin.cursorRow, column) =
        placeOf origin.columnCount origin.cursorColumn text.before := by
      refine Prod.ext ?_ ?_
      · dsimp only
        omega
      · exact hcursor.2.trans hcursorColumn
    unfold shownTile
    rw [if_pos hcursor, if_pos (by omega), letters_put, if_pos hplace, h.keeps.glyph]
  · rw [if_neg hcursor, h.cell row hrow column hcolumn]
    unfold shownTile
    by_cases hbelow : origin.cursorRow ≤ row + scrolled
    · have hplace : (row + scrolled - origin.cursorRow, column) ≠
          placeOf origin.columnCount origin.cursorColumn text.before := by
        intro hsame
        rw [← hsame] at hcursorRow hcursorColumn
        dsimp only at hcursorRow hcursorColumn
        exact hcursor ⟨by omega, hcursorColumn.symm⟩
      rw [if_pos hbelow, if_pos hbelow, letters_put, if_neg hplace]
    · rw [if_neg hbelow, if_neg hbelow]

theorem TextHeld.put (h : TextHeld origin console text scrolled) (horigin : origin.Sound)
    (code : UInt8)
    (hstays : (consoleDraw console code).scrollCount ≠ console.scrollCount → 0 < console.limitRow) :
    ∃ scrolled', TextHeld origin (consoleDraw console code)
      (text.put origin.columnCount origin.cursorColumn code) scrolled' := by
  have hstart : (placeOf origin.columnCount origin.cursorColumn text.before).2 <
      origin.columnCount := placeOf_column horigin.cursor.column _
  have hbound := h.last
  have hlast := lastRow_put origin.columnCount origin.cursorColumn code text
  have hbefore := before_put origin.columnCount origin.cursorColumn code text
  have hcolumns : console.columnCount = origin.columnCount := h.keeps.columns
  have hrows : console.rowCount = origin.rowCount := h.keeps.rows
  have hlimit := h.limitRow
  have hcursorRow := h.cursorRow
  have hcursorColumn := h.cursorColumn
  have hcursor : console.cursorRow < console.rowCount := h.sound.cursor.row
  let drawn : Console := { console with
    memory := fontDrawGlyphOpaque console.surface console.memory
      (console.cursorColumn * fontWidth : ℕ) (console.cursorRow * fontHeight : ℕ) code
      console.foreground console.background
    charactersWritten := console.charactersWritten + 1 }
  have hkeeps : console.Keeps drawn := ⟨rfl, rfl, rfl, rfl, rfl, rfl, rfl⟩
  have hdrawn : drawn.Sound := hkeeps.sound h.sound ⟨h.sound.cursor.row, h.sound.cursor.column⟩
  have hcell : ∀ row < origin.rowCount, ∀ column < origin.columnCount, drawn.tile row column =
      shownTile origin (text.put origin.columnCount origin.cursorColumn code) (row + scrolled)
        column := fun row hrow column hcolumn ↦
    (h.sound.tile_glyph (by omega) (by omega) code).trans (h.cell_put code hrow hcolumn)
  by_cases hroom : console.cursorColumn + 1 < console.columnCount
  · have hplace : next origin.columnCount
        (placeOf origin.columnCount origin.cursorColumn text.before) (.letter code) = _ :=
      next_of_room (by omega) code
    have hadvance : consoleDraw console code =
        { drawn with cursorColumn := console.cursorColumn + 1 } :=
      consoleAdvance_of_lt (by exact hroom)
    have hmoved : console.Keeps { drawn with cursorColumn := console.cursorColumn + 1 } :=
      ⟨rfl, rfl, rfl, rfl, rfl, rfl, rfl⟩
    rw [hadvance]
    rw [hplace] at hlast
    refine ⟨scrolled, h.keeps.trans hmoved, hmoved.sound h.sound ⟨h.sound.cursor.row, hroom⟩, hlimit,
      h.limitColumn, ?_, ?_, ?_, ?_, hcell⟩
    · rw [hbefore, placeOf_cons, hplace]
      exact hcursorRow
    · rw [hbefore, placeOf_cons, hplace]
      exact congrArg (· + 1) hcursorColumn
    · rw [hbefore]
      refine ⟨h.ends, fun hfold ↦ ?_⟩
      rw [hplace] at hfold
      cases hfold
    · dsimp only at hlast
      omega
  · have hplace : next origin.columnCount
        (placeOf origin.columnCount origin.cursorColumn text.before) (.letter code) = _ :=
      next_of_full (by omega) code
    have hadvance : consoleDraw console code =
        consoleNewLine { drawn with cursorColumn := console.cursorColumn + 1 } :=
      consoleAdvance_of_not (by exact hroom)
    rw [hadvance] at hstays ⊢
    have hafter : placeOf origin.columnCount origin.cursorColumn
        (text.put origin.columnCount origin.cursorColumn code).before =
          ((placeOf origin.columnCount origin.cursorColumn text.before).1 + 1, 0) := by
      rw [hbefore, placeOf_cons, hplace]
    have hrow := le_lastRow origin.columnCount (placeOf origin.columnCount origin.cursorColumn
      (text.put origin.columnCount origin.cursorColumn code).before)
        (text.put origin.columnCount origin.cursorColumn code).after
    refine textHeld_newLine drawn (placeOf origin.columnCount origin.cursorColumn text.before)
      (console.cursorColumn + 1) (h.keeps.trans hkeeps) hdrawn hlimit h.limitColumn hcursorRow hafter
      ?_ ?_ (fun row column hrow ↦ ?_) hcell hstays
    · rw [hbefore]
      refine ⟨h.ends.congr fun row hrow ↦ (if_neg (Nat.ne_of_lt hrow)).symm, fun _ ↦ ?_⟩
      refine (if_pos rfl).trans ?_
      omega
    · rw [hplace] at hlast
      rw [hafter] at hrow
      dsimp only at hlast hrow
      rw [hafter] at hlast ⊢
      omega
    · rw [letters_put, if_neg]
      · exact h.none_below hrow
      · intro hsame
        rw [← hsame] at hcursorRow
        dsimp only at hcursorRow
        omega

theorem consolePosition_lt (console : Console) {p q : ℕ × ℕ} (h : Precedes p q)
    (hcolumn : p.2 < console.columnCount) (base : ℕ) :
    consolePosition console (base + p.1) p.2 < consolePosition console (base + q.1) q.2 := by
  unfold consolePosition
  rcases h with hrow | ⟨hrow, hcolumns⟩
  · have hproduct : (base + p.1 + 1) * console.columnCount ≤
        (base + q.1) * console.columnCount := Nat.mul_le_mul_right _ (by omega)
    rw [Nat.add_mul, Nat.one_mul] at hproduct
    omega
  · rw [hrow]
    omega

theorem TextHeld.back_start (h : TextHeld origin console text scrolled) (hbefore : text.before = []) :
    consoleBackspace console = console := by
  have hcursorRow := h.cursorRow
  have hcursorColumn := h.cursorColumn
  rw [hbefore] at hcursorRow hcursorColumn
  have hrow : console.cursorRow = console.limitRow := hcursorRow
  have hcolumn : console.cursorColumn = console.limitColumn := hcursorColumn.trans h.limitColumn.symm
  unfold consoleBackspace
  dsimp only
  rw [hrow, hcolumn]
  exact if_pos le_rfl

theorem TextHeld.cell_before {before after : List (TextCell UInt8)} {cell : TextCell UInt8}
    (h : TextHeld origin console ⟨cell :: before, after⟩ scrolled) (horigin : origin.Sound) :
    let place := placeOf origin.columnCount origin.cursorColumn before
    let next := placeOf origin.columnCount origin.cursorColumn (cell :: before)
    next = (place.1, place.2 + 1) ∨ next = (place.1 + 1, 0) ∧ place.2 =
      if console.rowEnd (console.limitRow + place.1) < console.columnCount then
        console.rowEnd (console.limitRow + place.1)
      else console.columnCount - 1 := by
  have hcolumn : (placeOf origin.columnCount origin.cursorColumn before).2 < origin.columnCount :=
    placeOf_column horigin.cursor.column before
  have hcolumns : console.columnCount = origin.columnCount := h.keeps.columns
  have hends := h.ends
  dsimp only
  rw [placeOf_cons]
  cases cell with
  | letter code =>
      by_cases hroom : (placeOf origin.columnCount origin.cursorColumn before).2 + 1 <
          origin.columnCount
      · exact Or.inl (next_of_room hroom code)
      · have hfull := next_of_full hroom code
        have hend : console.rowEnd (console.limitRow +
            (placeOf origin.columnCount origin.cursorColumn before).1) = origin.columnCount :=
          hends.2 (congrArg Prod.snd hfull)
        refine Or.inr ⟨hfull, ?_⟩
        rw [hend, if_neg (by omega)]
        omega
  | feed =>
      have hend : console.rowEnd (console.limitRow +
          (placeOf origin.columnCount origin.cursorColumn before).1) =
            (placeOf origin.columnCount origin.cursorColumn before).2 := hends.2
      refine Or.inr ⟨rfl, ?_⟩
      rw [hend, if_pos (by omega)]

theorem TextHeld.back_cell {before after : List (TextCell UInt8)} {cell : TextCell UInt8}
    (h : TextHeld origin console ⟨cell :: before, after⟩ scrolled) (horigin : origin.Sound) :
    consoleBackspace console = { console with
      cursorRow := console.limitRow + (placeOf origin.columnCount origin.cursorColumn before).1
      cursorColumn := (placeOf origin.columnCount origin.cursorColumn before).2 } := by
  have hcursorRow := h.cursorRow
  have hcursorColumn := h.cursorColumn
  have hlimitColumn := h.limitColumn
  have hcolumns : console.columnCount = origin.columnCount := h.keeps.columns
  have hstart : origin.cursorColumn < origin.columnCount := horigin.cursor.column
  have hcell := h.cell_before horigin
  dsimp only at hcursorRow hcursorColumn hcell
  -- the cursor is after the limit, and what is before it is not before the limit
  have hposition : ∀ (cell' : TextCell UInt8) before', consolePosition console (console.limitRow + 0)
      origin.cursorColumn < consolePosition console (console.limitRow +
        (placeOf origin.columnCount origin.cursorColumn (cell' :: before')).1)
        (placeOf origin.columnCount origin.cursorColumn (cell' :: before')).2 :=
    fun cell' before' ↦ consolePosition_lt console (start_precedes origin.columnCount
      origin.cursorColumn cell' before') (by dsimp only; omega) console.limitRow
  have hafter : ¬consolePosition console console.cursorRow console.cursorColumn ≤
      consolePosition console console.limitRow console.limitColumn := by
    rw [hcursorRow, hcursorColumn, hlimitColumn]
    exact Nat.not_le.mpr (hposition cell before)
  have hlimit : ¬consolePosition console (console.limitRow +
      (placeOf origin.columnCount origin.cursorColumn before).1)
        (placeOf origin.columnCount origin.cursorColumn before).2 <
      consolePosition console console.limitRow console.limitColumn := by
    rw [hlimitColumn]
    cases before with
    | nil => exact Nat.lt_irrefl _
    | cons cell' before => exact Nat.not_lt.mpr (hposition cell' before).le
  unfold consoleBackspace
  dsimp only
  rw [if_neg hafter]
  rcases hcell with hroom | ⟨hfold, hend⟩
  · have hrow : console.cursorRow = console.limitRow +
        (placeOf origin.columnCount origin.cursorColumn before).1 := by
      rw [hcursorRow, hroom]
    have hcolumn : console.cursorColumn - 1 =
        (placeOf origin.columnCount origin.cursorColumn before).2 := by
      rw [hcursorColumn, hroom]
      rfl
    have hpositive : console.cursorColumn > 0 := by
      rw [hcursorColumn, hroom]
      exact Nat.succ_pos _
    rw [if_pos hpositive, hcolumn, ← hrow]
    rw [← hrow] at hlimit
    exact if_neg hlimit
  · have hzero : console.cursorColumn = 0 := by
      rw [hcursorColumn, hfold]
    have hrow : console.cursorRow - 1 = console.limitRow +
        (placeOf origin.columnCount origin.cursorColumn before).1 := by
      rw [hcursorRow, hfold]
      rfl
    have hpositive : console.cursorRow > 0 := by
      rw [hcursorRow, hfold]
      exact Nat.succ_pos _
    rw [if_neg (by omega), if_pos hpositive, hrow, ← hend]
    exact if_neg hlimit

theorem TextHeld.back (h : TextHeld origin console text scrolled) (horigin : origin.Sound) :
    TextHeld origin (consoleBackspace console) text.back scrolled := by
  obtain ⟨before, after⟩ := text
  cases before with
  | nil =>
      rw [h.back_start rfl]
      exact h
  | cons cell before =>
      have hcolumn : (placeOf origin.columnCount origin.cursorColumn before).2 <
          origin.columnCount := placeOf_column horigin.cursor.column before
      have hcolumns : console.columnCount = origin.columnCount := h.keeps.columns
      have hcursor : console.cursorRow < console.rowCount := h.sound.cursor.row
      have hcursorRow := h.cursorRow
      have hnext := precedes_next origin.columnCount
        (placeOf origin.columnCount origin.cursorColumn before) cell
      rw [h.back_cell horigin]
      dsimp only at hcursorRow
      rw [placeOf_cons] at hcursorRow
      unfold Precedes at hnext
      have hkeeps : console.Keeps { console with
          cursorRow := console.limitRow + (placeOf origin.columnCount origin.cursorColumn before).1
          cursorColumn := (placeOf origin.columnCount origin.cursorColumn before).2 } :=
        ⟨rfl, rfl, rfl, rfl, rfl, rfl, rfl⟩
      refine ⟨h.keeps.trans hkeeps, hkeeps.sound h.sound ⟨?_, ?_⟩, h.limitRow, h.limitColumn, rfl,
        rfl, ?_, h.last, fun row hrow column hcolumn ↦ ?_⟩
      · change console.limitRow + _ < console.rowCount
        omega
      · change (placeOf origin.columnCount origin.cursorColumn before).2 < console.columnCount
        omega
      · cases cell with
        | letter code => exact h.ends.1
        | feed => exact h.ends.1
      · refine (h.cell row hrow column hcolumn).trans ?_
        exact shownTile_congr fun row column ↦ (letters_back before after cell row column).symm

theorem TextHeld.write {byte : UInt8} (h : TextHeld origin console text scrolled)
    (horigin : origin.Sound)
    (hwritten : textWrite origin.columnCount origin.cursorColumn text byte = some text')
    (hstays : (consoleWriteCharacter console byte).scrollCount ≠ console.scrollCount →
      0 < console.limitRow) :
    ∃ scrolled', TextHeld origin (consoleWriteCharacter console byte) text' scrolled' := by
  unfold textWrite at hwritten
  by_cases hback : byte = 0x08
  · subst hback
    cases hwritten
    have hbyte : consoleWriteCharacter console 0x08 = consoleBackspace console := by
      rw [h.sound.writeCharacter]
      rfl
    rw [hbyte]
    exact ⟨scrolled, h.back horigin⟩
  rw [if_neg hback] at hwritten
  by_cases hfeed : byte = 0x0A
  · subst hfeed
    have hbyte : consoleWriteCharacter console 0x0A = consoleNewLine console := by
      rw [h.sound.writeCharacter]
      rfl
    rw [hbyte] at hstays ⊢
    exact h.feed hwritten hstays
  rw [if_neg hfeed] at hwritten
  by_cases hprintable : 0x20 ≤ byte ∧ byte ≤ 0x7E
  · rw [if_pos hprintable] at hwritten
    cases hwritten
    rw [h.sound.writeCharacter_printable hprintable.1] at hstays ⊢
    exact h.put horigin byte hstays
  · rw [if_neg hprintable] at hwritten
    cases hwritten

theorem TextHeld.run {bytes : List UInt8} (h : TextHeld origin console text scrolled)
    (horigin : origin.Sound)
    (hwritten : bytes.foldlM (textWrite origin.columnCount origin.cursorColumn) text = some text')
    (hstays : LimitStays console bytes) :
    ∃ scrolled', TextHeld origin (consoleWrite console bytes) text' scrolled' := by
  induction bytes generalizing console text scrolled with
  | nil =>
      cases hwritten
      exact ⟨scrolled, h⟩
  | cons byte bytes ih =>
      rw [List.foldlM_cons] at hwritten
      cases hnext : textWrite origin.columnCount origin.cursorColumn text byte with
      | none =>
          rw [hnext] at hwritten
          cases hwritten
      | some next =>
          rw [hnext] at hwritten
          obtain ⟨moved, hheld⟩ := h.write horigin hnext hstays.1
          exact ih hheld hwritten hstays.2

theorem textHeld_start (horigin : origin.Sound) :
    TextHeld origin (consoleSetEraseLimit origin) ⟨[], []⟩ 0 := by
  have hcursor : origin.cursorRow < origin.rowCount := horigin.cursor.row
  refine ⟨⟨rfl, rfl, rfl, rfl, rfl, rfl, rfl⟩,
    ⟨horigin.surface, horigin.clip, horigin.columns, horigin.rows, horigin.cursor, horigin.active,
      horigin.suspended⟩, rfl, rfl, rfl, rfl, trivial, hcursor, fun row hrow column hcolumn ↦ ?_⟩
  unfold shownTile
  rw [show (⟨[], []⟩ : FoldedText UInt8).letters origin.columnCount origin.cursorColumn =
    fun _ _ ↦ none from rfl, ite_self]
  exact (if_pos hrow).symm

theorem TextShown.above (h : TextShown origin console text scrolled) {row column : ℕ}
    (hrow : row < origin.rowCount) (hcolumn : column < origin.columnCount)
    (habove : Precedes (row + scrolled, column) (origin.cursorRow, origin.cursorColumn))
    (hscreen : origin.cursorRow < origin.rowCount) :
    console.tile row column = origin.tile (row + scrolled) column := by
  rw [h.cell row hrow column hcolumn]
  unfold shownTile
  have hnone : (if origin.cursorRow ≤ row + scrolled then
      text.letters origin.columnCount origin.cursorColumn (row + scrolled - origin.cursorRow) column
        else none) = none := by
    split_ifs with hbelow
    · refine letters_of_precedes ?_ text
      unfold Precedes at *
      dsimp only at *
      omega
    · rfl
  unfold Precedes at habove
  dsimp only at habove
  rw [hnone]
  exact if_pos (by omega)

/-- What is written after the limit is set is shown as a text that is folded at the columns, and
what stands before the limit is as it was, wherever the screen is scrolled to. -/
theorem consoleText_shown (origin : Console) (horigin : origin.Sound) (bytes : List UInt8)
    (text : FoldedText UInt8)
    (hwritten : bytes.foldlM (textWrite origin.columnCount origin.cursorColumn) ⟨[], []⟩ =
      some text)
    (hstays : LimitStays (consoleSetEraseLimit origin) bytes) :
    ∃ scrolled, TextShown origin (consoleWrite (consoleSetEraseLimit origin) bytes) text scrolled ∧
      ∀ row < origin.rowCount, ∀ column < origin.columnCount,
        Precedes (row + scrolled, column) (origin.cursorRow, origin.cursorColumn) →
          (consoleWrite (consoleSetEraseLimit origin) bytes).tile row column =
            origin.tile (row + scrolled) column := by
  obtain ⟨scrolled, hheld⟩ := (textHeld_start horigin).run horigin hwritten hstays
  exact ⟨scrolled, hheld.shown, fun row hrow column hcolumn habove ↦
    hheld.shown.above hrow hcolumn habove horigin.cursor.row⟩

theorem smallConsole_sound : smallConsole.Sound ∧ smallConsole.tile 0 1 = smallConsole.blank := by
  have hstarted : consoleInitialise eightBitChannels (some smallSurface) consoleBefore =
      (true, smallConsole) := rfl
  obtain ⟨hsound, -, -, -, -, hblank⟩ :=
    sound_of_consoleInitialise smallSurface_reached rfl rfl hstarted
  exact ⟨hsound, hblank 0 (by decide) 1 (by decide)⟩

/-- A letter is shown. -/
theorem consoleText_shown_letter : ∃ scrolled,
    TextShown smallConsole (consoleWrite (consoleSetEraseLimit smallConsole) [0x41])
        ⟨[.letter 0x41], []⟩ scrolled ∧
      ∀ row < 2, ∀ column < 2, Precedes (row + scrolled, column) (0, 0) →
        (consoleWrite (consoleSetEraseLimit smallConsole) [0x41]).tile row column =
          smallConsole.tile (row + scrolled) column :=
  consoleText_shown smallConsole smallConsole_sound.1 [0x41] ⟨[.letter 0x41], []⟩ rfl
    ⟨fun h ↦ absurd rfl h, trivial⟩

/-- What a byte does to a text where a letter takes the place of any cell, of the end of a line
too. -/
def textOverwrite (text : FoldedText UInt8) (byte : UInt8) : Option (FoldedText UInt8) :=
  if byte = 0x08 then some text.back
  else if byte = 0x0A then text.feed
  else if 0x20 ≤ byte ∧ byte ≤ 0x7E then some ⟨.letter byte :: text.before, text.after.tail⟩
  else none

/-- A letter upon the end of the first line does not bring the second line up to it. -/
theorem consoleText_not_overwritten :
    [0x0A, 0x62, 0x08, 0x08, 0x78].foldlM textOverwrite ⟨[], []⟩ =
        some ⟨[.letter 0x78], [.letter 0x62]⟩ ∧
      LimitStays (consoleSetEraseLimit smallConsole) [0x0A, 0x62, 0x08, 0x08, 0x78] ∧
      ¬∃ scrolled, TextShown smallConsole
        (consoleWrite (consoleSetEraseLimit smallConsole) [0x0A, 0x62, 0x08, 0x08, 0x78])
          ⟨[.letter 0x78], [.letter 0x62]⟩ scrolled := by
  have hstays : LimitStays (consoleSetEraseLimit smallConsole) [0x0A, 0x62, 0x08, 0x08, 0x78] :=
    ⟨fun h ↦ absurd (by decide +kernel) h, fun h ↦ absurd (by decide +kernel) h,
      fun h ↦ absurd (by decide +kernel) h, fun h ↦ absurd (by decide +kernel) h,
      fun h ↦ absurd (by decide +kernel) h, trivial⟩
  refine ⟨rfl, hstays, fun hshown ↦ ?_⟩
  obtain ⟨scrolled, hshown⟩ := hshown
  have hwritten : [0x0A, 0x62, 0x08, 0x08, 0x78].foldlM
      (textWrite smallConsole.columnCount smallConsole.cursorColumn) ⟨[], []⟩ =
        some ⟨[.letter 0x78], [.feed, .letter 0x62]⟩ := rfl
  obtain ⟨scrolled', hheld⟩ :=
    (textHeld_start smallConsole_sound.1).run smallConsole_sound.1 hwritten hstays
  obtain rfl := Nat.le_zero.mp hshown.limit
  obtain rfl := Nat.le_zero.mp hheld.shown.limit
  have hcell := (hheld.shown.cell 0 (by decide) 1 (by decide)).symm.trans
    (hshown.cell 0 (by decide) 1 (by decide))
  have hblank : smallConsole.blank = smallConsole.glyph 0x62 :=
    smallConsole_sound.2.symm.trans hcell
  have hpixel := congrFun (congrFun (congrFun hblank 0) 0) 0
  revert hpixel
  decide

end OxysOS.Graphics
