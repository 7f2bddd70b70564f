import OxysOS.Graphics.Console
import OxysOS.Library.Screen

/-!
# The console as a screen

The pixels of a cell are a tile, and the console is a screen of tiles.  Drawing a
character changes one tile to its glyph, and scrolling moves every tile up by a row.
-/

namespace OxysOS.Graphics

open OxysOS.Library

abbrev Tile := ℕ → ℕ → ℕ → UInt8

def tileOf (size : ℕ) (bytes : ℕ → ℕ → ℕ → UInt8) : Tile := fun x y index ↦
  if x < 8 ∧ y < 8 ∧ index < size then bytes x y index else 0

namespace Console

def tile (console : Console) (row column : ℕ) : Tile :=
  tileOf console.surface.bytesPerPixel fun x y index ↦ console.memory
    (graphicsPixelAddress console.surface (8 * column + x : ℕ) (8 * row + y : ℕ) + index)

def glyph (console : Console) (code : UInt8) : Tile :=
  tileOf console.surface.bytesPerPixel fun x y index ↦ colourByte
    (patternColour ((fontGlyph code).getD y 0) console.foreground console.background x) index

def blank (console : Console) : Tile :=
  tileOf console.surface.bytesPerPixel fun _ _ index ↦ colourByte console.background index

def upon (console : Console) (memory : Bytes) : Console := { console with memory }

def screen (console : Console) : Screen Tile where
  rows := console.rowCount
  columns := console.columnCount
  cell := console.tile
  cursorRow := console.cursorRow
  cursorColumn := console.cursorColumn

structure Sound (console : Console) : Prop where
  surface : console.surface.Sound
  clip : console.surface.clip = graphicsSurfaceBounds console.surface
  columns : console.columnCount * 8 ≤ console.surface.width
  rows : console.rowCount * 8 ≤ console.surface.height
  cursor : console.screen.Sound
  active : console.active = true
  suspended : console.suspended = false

structure Keeps (console console' : Console) : Prop where
  surface : console'.surface = console.surface
  foreground : console'.foreground = console.foreground
  background : console'.background = console.background
  columns : console'.columnCount = console.columnCount
  rows : console'.rowCount = console.rowCount
  active : console'.active = console.active
  suspended : console'.suspended = console.suspended

end Console

variable {console : Console}

theorem tileOf_congr {size : ℕ} {bytes bytes' : ℕ → ℕ → ℕ → UInt8}
    (h : ∀ x y index, x < 8 → y < 8 → index < size → bytes x y index = bytes' x y index) :
    tileOf size bytes = tileOf size bytes' := by
  funext x y index
  unfold tileOf
  split_ifs with hin
  · exact h x y index hin.1 hin.2.1 hin.2.2
  · rfl

theorem Console.glyph_space (console : Console) : console.glyph 0x20 = console.blank := by
  refine tileOf_congr fun x y index hx hy hindex ↦ congrArg (colourByte · index) ?_
  have hzero : (fontGlyph 0x20).getD y 0 = 0 := by
    rw [fontGlyph_space]
    exact List.getD_replicate _ hy
  unfold patternColour
  rw [hzero, UInt8.zero_and]
  exact if_neg (not_not_intro rfl)

theorem Console.Sound.tile_draw (h : console.Sound) {row column : ℕ}
    (hrow : row < console.rowCount) (hcolumn : column < console.columnCount)
    (picture : Picture UInt32) :
    (console.upon (draw console.surface (clipped console.surface picture)
        console.memory)).tile row column =
      tileOf console.surface.bytesPerPixel fun x y index ↦
        ((picture (8 * column + x : ℕ) (8 * row + y : ℕ)).map fun colour ↦
          colourByte colour index).getD (console.memory (graphicsPixelAddress console.surface
            (8 * column + x : ℕ) (8 * row + y : ℕ) + index)) := by
  refine tileOf_congr fun x y index hx hy hindex ↦ ?_
  have hcolumns := h.columns
  have hrows := h.rows
  have hin : graphicsRectangleContains console.surface.clip (8 * column + x : ℕ)
      (8 * row + y : ℕ) := by
    rw [h.clip, contains_iff]
    unfold graphicsSurfaceBounds
    dsimp only
    omega
  refine (draw_address h.surface (by omega) (by omega) hindex _ _).trans ?_
  rw [clipped_of_contains hin]

theorem Console.Sound.tile_glyph (h : console.Sound) {row column : ℕ}
    (hrow : row < console.rowCount) (hcolumn : column < console.columnCount) (code : UInt8) :
    (console.upon (fontDrawGlyphOpaque console.surface console.memory
        (console.cursorColumn * fontWidth : ℕ) (console.cursorRow * fontHeight : ℕ) code
        console.foreground console.background)).tile row column =
      if row = console.cursorRow ∧ column = console.cursorColumn then console.glyph code
      else console.tile row column := by
  have hcolumns := h.columns
  have hrows := h.rows
  have hwidth := h.surface.width
  have hheight := h.surface.height
  have hcursorRow : console.cursorRow < console.rowCount := h.cursor.row
  have hcursorColumn : console.cursorColumn < console.columnCount := h.cursor.column
  unfold graphicsCoordinateLimit at hwidth hheight
  have hsound : PatternSound (console.cursorColumn * fontWidth : ℕ)
      (console.cursorRow * fontHeight : ℕ) fontHeight := by
    unfold PatternSound graphicsCoordinateIsSound graphicsCoordinateLimit fontWidth fontHeight
    simp only [decide_eq_true_eq]
    omega
  have hdrawn := (graphicsPatternBlock_eq h.surface console.memory
    (console.cursorColumn * fontWidth : ℕ) (console.cursorRow * fontHeight : ℕ)
    (fun row ↦ (fontGlyph code).getD row 0) fontHeight console.foreground
    console.background).1 hsound
  unfold fontDrawGlyphOpaque
  rw [hdrawn, h.tile_draw hrow hcolumn]
  unfold fontWidth fontHeight at *
  by_cases hcursor : row = console.cursorRow ∧ column = console.cursorColumn
  · obtain ⟨rfl, rfl⟩ := hcursor
    rw [if_pos ⟨rfl, rfl⟩]
    refine tileOf_congr fun x y index hx hy hindex ↦ ?_
    have hin : graphicsRectangleContains
        ⟨(console.cursorColumn * 8 : ℕ), (console.cursorRow * 8 : ℕ), 8, (8 : ℕ)⟩
        (8 * console.cursorColumn + x : ℕ) (8 * console.cursorRow + y : ℕ) := by
      rw [contains_iff]
      dsimp only
      omega
    have hx' : ((8 * console.cursorColumn + x : ℕ) : ℤ) - (console.cursorColumn * 8 : ℕ) = x := by
      omega
    have hy' : (((8 * console.cursorRow + y : ℕ) : ℤ) - (console.cursorRow * 8 : ℕ)).toNat = y := by
      omega
    unfold patterned
    rw [if_pos hin, hx', hy']
    rfl
  · rw [if_neg hcursor]
    refine tileOf_congr fun x y index hx hy hindex ↦ ?_
    have hout : ¬graphicsRectangleContains
        ⟨(console.cursorColumn * 8 : ℕ), (console.cursorRow * 8 : ℕ), 8, (8 : ℕ)⟩
        (8 * column + x : ℕ) (8 * row + y : ℕ) := by
      rw [contains_iff]
      dsimp only
      omega
    unfold patterned
    rw [if_neg hout]
    rfl

theorem Console.Sound.tile_clear (h : console.Sound) {row column : ℕ}
    (hrow : row < console.rowCount) (hcolumn : column < console.columnCount) :
    (console.upon (graphicsClear console.surface console.memory console.background)).tile row
      column = console.blank := by
  rw [graphicsClear_eq h.surface, h.tile_draw hrow hcolumn]
  rfl

theorem Console.Sound.upon (h : console.Sound) (memory : Bytes) : (console.upon memory).Sound :=
  ⟨h.surface, h.clip, h.columns, h.rows, ⟨h.cursor.row, h.cursor.column⟩, h.active, h.suspended⟩

theorem Console.Sound.body (h : console.Sound) {x y row index : ℕ} (hrow : row + 1 < console.rowCount)
    (hx : x < console.columnCount * 8) (hy : y < 8)
    (hindex : index < console.surface.bytesPerPixel) :
    (graphicsBlit console.surface console.memory 0 0 console.surface
        ⟨0, fontHeight, (console.columnCount * fontWidth : ℕ),
          ((console.rowCount - 1) * fontHeight : ℕ)⟩).2
        (graphicsPixelAddress console.surface x (8 * row + y : ℕ) + index) =
      console.memory (graphicsPixelAddress console.surface x (8 * (row + 1) + y : ℕ) + index) := by
  have hcolumns := h.columns
  have hrows := h.rows
  have hwidth : console.columnCount * fontWidth ≤ console.surface.width := hcolumns
  unfold fontHeight fontWidth at *
  rw [graphicsBlit_up h.surface h.clip (by omega) (by omega) (by omega) hwidth (by omega)]
  dsimp only
  have hin : graphicsRectangleContains ⟨0, 0, (console.columnCount * 8 : ℕ),
      ((console.rowCount - 1) * 8 : ℕ)⟩ x (8 * row + y : ℕ) := by
    rw [contains_iff]
    dsimp only
    omega
  rw [store_address h.surface (by omega) (by omega) hindex, moved_of_contains hin]
  have hbelow : ((8 : ℕ) : ℤ) + ((8 * row + y : ℕ) - 0) = (8 * (row + 1) + y : ℕ) := by omega
  rw [hbelow, sub_zero, zero_add]
  rfl

theorem Console.Sound.tile_scroll (h : console.Sound) {row column : ℕ}
    (hrow : row < console.rowCount) (hcolumn : column < console.columnCount) :
    (consoleScroll console).tile row column =
      if row + 1 < console.rowCount then console.tile (row + 1) column else console.blank := by
  -- the rows above the last are copied, and the last is filled
  have hmemory : (consoleScroll console).memory = draw console.surface
      (clipped console.surface (filled ⟨0, ((console.rowCount - 1) * fontHeight : ℕ),
        (console.columnCount * fontWidth : ℕ), fontHeight⟩ console.background))
      (graphicsBlit console.surface console.memory 0 0 console.surface
        ⟨0, fontHeight, (console.columnCount * fontWidth : ℕ),
          ((console.rowCount - 1) * fontHeight : ℕ)⟩).2 :=
    graphicsFillRectangle_eq h.surface _ _ _
  have htile := (h.upon (graphicsBlit console.surface console.memory 0 0 console.surface
    ⟨0, fontHeight, (console.columnCount * fontWidth : ℕ),
      ((console.rowCount - 1) * fontHeight : ℕ)⟩).2).tile_draw hrow hcolumn
        (filled ⟨0, ((console.rowCount - 1) * fontHeight : ℕ),
          (console.columnCount * fontWidth : ℕ), fontHeight⟩ console.background)
  refine Eq.trans ?_ (htile.trans ?_)
  · refine tileOf_congr fun x y index _ _ _ ↦ ?_
    rw [hmemory]
    rfl
  · by_cases hlast : row + 1 < console.rowCount
    · rw [if_pos hlast]
      refine tileOf_congr fun x y index hx hy hindex ↦ ?_
      have hout : ¬graphicsRectangleContains ⟨0, ((console.rowCount - 1) * fontHeight : ℕ),
          (console.columnCount * fontWidth : ℕ), fontHeight⟩ (8 * column + x : ℕ)
          (8 * row + y : ℕ) := by
        rw [contains_iff]
        unfold fontHeight fontWidth
        dsimp only
        omega
      rw [filled_of_not hout]
      exact h.body hlast (by omega) hy hindex
    · rw [if_neg hlast]
      refine tileOf_congr fun x y index hx hy hindex ↦ ?_
      have hin : graphicsRectangleContains ⟨0, ((console.rowCount - 1) * fontHeight : ℕ),
          (console.columnCount * fontWidth : ℕ), fontHeight⟩ (8 * column + x : ℕ)
          (8 * row + y : ℕ) := by
        rw [contains_iff]
        unfold fontHeight fontWidth
        dsimp only
        omega
      rw [filled_of_contains hin]
      rfl

theorem Console.Keeps.glyph {console' : Console} (h : console.Keeps console') :
    console'.glyph = console.glyph := by
  funext code
  unfold Console.glyph
  rw [h.surface, h.foreground, h.background]

theorem Console.Keeps.blank {console' : Console} (h : console.Keeps console') :
    console'.blank = console.blank := by
  unfold Console.blank
  rw [h.surface, h.background]

theorem Console.Keeps.trans {console' console'' : Console} (h : console.Keeps console')
    (h' : console'.Keeps console'') : console.Keeps console'' :=
  ⟨h'.surface.trans h.surface, h'.foreground.trans h.foreground,
    h'.background.trans h.background, h'.columns.trans h.columns, h'.rows.trans h.rows,
    h'.active.trans h.active, h'.suspended.trans h.suspended⟩

theorem Console.Keeps.sound {console' : Console} (h : console.Keeps console')
    (hsound : console.Sound) (hcursor : console'.screen.Sound) : console'.Sound where
  surface := h.surface ▸ hsound.surface
  clip := h.surface ▸ hsound.clip
  columns := by rw [h.columns, h.surface]; exact hsound.columns
  rows := by rw [h.rows, h.surface]; exact hsound.rows
  cursor := hcursor
  active := h.active.trans hsound.active
  suspended := h.suspended.trans hsound.suspended

theorem sound_of_like {s t : Screen Tile} (h : Screen.Like Eq s t) (ht : t.Sound) : s.Sound := by
  have hrows := h.rows
  have hcolumns := h.columns
  have hcursorRow := h.cursorRow
  have hcursorColumn := h.cursorColumn
  have hrow := ht.row
  have hcolumn := ht.column
  exact ⟨by omega, by omega⟩

theorem consoleNewLine_of_lt (h : console.cursorRow + 1 < console.rowCount) :
    consoleNewLine console = { console with
      rowEnd := Function.update console.rowEnd console.cursorRow console.cursorColumn
      cursorColumn := 0
      cursorRow := console.cursorRow + 1 } := if_pos h

theorem consoleNewLine_of_not (h : ¬console.cursorRow + 1 < console.rowCount) :
    consoleNewLine console = consoleScroll { console with
      rowEnd := Function.update console.rowEnd console.cursorRow console.cursorColumn
      cursorColumn := 0 } := if_neg h

theorem consoleAdvance_of_lt (h : console.cursorColumn + 1 < console.columnCount) :
    consoleAdvance console = { console with cursorColumn := console.cursorColumn + 1 } :=
  if_neg (Nat.not_le.mpr h)

theorem consoleAdvance_of_not (h : ¬console.cursorColumn + 1 < console.columnCount) :
    consoleAdvance console =
      consoleNewLine { console with cursorColumn := console.cursorColumn + 1 } :=
  if_pos (Nat.not_lt.mp h)

theorem consoleNewLine_keeps (console : Console) (column : ℕ) :
    console.Keeps (consoleNewLine { console with cursorColumn := column }) := by
  by_cases hbelow : console.cursorRow + 1 < console.rowCount
  · rw [consoleNewLine_of_lt (by exact hbelow)]
    exact ⟨rfl, rfl, rfl, rfl, rfl, rfl, rfl⟩
  · rw [consoleNewLine_of_not (by exact hbelow)]
    exact ⟨rfl, rfl, rfl, rfl, rfl, rfl, rfl⟩

theorem Console.Sound.newLine (h : console.Sound) (column : ℕ) :
    Screen.Like Eq (consoleNewLine { console with cursorColumn := column }).screen
      (console.screen.feed console.blank) := by
  by_cases hbelow : console.cursorRow + 1 < console.rowCount
  · have hfeed : console.screen.cursorRow + 1 < console.screen.rows := hbelow
    rw [consoleNewLine_of_lt (by exact hbelow), Screen.feed_of_lt hfeed]
    exact ⟨rfl, rfl, rfl, rfl, fun _ _ _ _ ↦ rfl⟩
  · have hfeed : ¬console.screen.cursorRow + 1 < console.screen.rows := hbelow
    rw [consoleNewLine_of_not (by exact hbelow), Screen.feed_of_not hfeed]
    refine ⟨rfl, rfl, rfl, rfl, fun row hrow column hcolumn ↦ ?_⟩
    exact h.tile_scroll hrow hcolumn

theorem consoleAdvance_keeps (console : Console) : console.Keeps (consoleAdvance console) := by
  by_cases hroom : console.cursorColumn + 1 < console.columnCount
  · rw [consoleAdvance_of_lt hroom]
    exact ⟨rfl, rfl, rfl, rfl, rfl, rfl, rfl⟩
  · rw [consoleAdvance_of_not hroom]
    exact consoleNewLine_keeps console _

theorem Console.Sound.advance (h : console.Sound) :
    Screen.Like Eq (consoleAdvance console).screen (console.screen.advance console.blank) := by
  by_cases hroom : console.cursorColumn + 1 < console.columnCount
  · have hadvance : console.screen.cursorColumn + 1 < console.screen.columns := hroom
    rw [consoleAdvance_of_lt hroom, Screen.advance_of_lt hadvance]
    exact ⟨rfl, rfl, rfl, rfl, fun _ _ _ _ ↦ rfl⟩
  · have hadvance : ¬console.screen.cursorColumn + 1 < console.screen.columns := hroom
    rw [consoleAdvance_of_not hroom, Screen.advance_of_not hadvance]
    exact h.newLine _

theorem consoleDraw_keeps (console : Console) (code : UInt8) :
    console.Keeps (consoleDraw console code) := by
  have hkeeps := consoleAdvance_keeps { console with
    memory := fontDrawGlyphOpaque console.surface console.memory
      (console.cursorColumn * fontWidth : ℕ) (console.cursorRow * fontHeight : ℕ) code
      console.foreground console.background
    charactersWritten := console.charactersWritten + 1 }
  exact ⟨hkeeps.surface, hkeeps.foreground, hkeeps.background, hkeeps.columns, hkeeps.rows,
    hkeeps.active, hkeeps.suspended⟩

theorem Console.Sound.draw (h : console.Sound) (code : UInt8) :
    Screen.Like Eq (consoleDraw console code).screen
      (console.screen.put console.blank (console.glyph code)) := by
  let drawn : Console := { console with
    memory := fontDrawGlyphOpaque console.surface console.memory
      (console.cursorColumn * fontWidth : ℕ) (console.cursorRow * fontHeight : ℕ) code
      console.foreground console.background
    charactersWritten := console.charactersWritten + 1 }
  have hset : Screen.Like Eq drawn.screen (console.screen.set (console.glyph code)) :=
    ⟨rfl, rfl, rfl, rfl, fun row hrow column hcolumn ↦ h.tile_glyph hrow hcolumn code⟩
  have hkeeps : console.Keeps drawn := ⟨rfl, rfl, rfl, rfl, rfl, rfl, rfl⟩
  have hdrawn : drawn.Sound := hkeeps.sound h ⟨h.cursor.row, h.cursor.column⟩
  exact hdrawn.advance.of_eq (hset.advance rfl)

theorem consoleClear_keeps (console : Console) : console.Keeps (consoleClear console) := by
  unfold consoleClear
  split_ifs <;> exact ⟨rfl, rfl, rfl, rfl, rfl, rfl, rfl⟩

theorem Console.Sound.clear (h : console.Sound) :
    Screen.Like Eq (consoleClear console).screen (console.screen.clear console.blank) := by
  unfold consoleClear
  rw [if_neg (not_not_intro h.active)]
  exact ⟨rfl, rfl, rfl, rfl, fun row hrow column hcolumn ↦ h.tile_clear hrow hcolumn⟩

theorem Console.Sound.writeCharacter (h : console.Sound) (code : UInt8) :
    consoleWriteCharacter console code =
      if code = 0x0A then consoleNewLine console
      else if code = 0x0D then { console with cursorColumn := 0 }
      else if code = 0x09 then consoleTab console
      else if code = 0x0C then consoleClear console
      else if code = 0x08 then consoleBackspace console
      else consoleDraw console code := by
  have hsuspended : ¬console.suspended = true := by
    rw [h.suspended]
    exact Bool.false_ne_true
  unfold consoleWriteCharacter
  rw [if_neg hsuspended, if_neg (not_not_intro h.active)]

theorem Console.Sound.writeCharacter_printable (h : console.Sound) {code : UInt8}
    (hfirst : 0x20 ≤ code) : consoleWriteCharacter console code = consoleDraw console code := by
  have hprintable : ∀ control : UInt8, control < 0x20 → code ≠ control := fun control hcode hsame ↦
    absurd hfirst (UInt8.not_le.mpr (hsame ▸ hcode))
  rw [h.writeCharacter, if_neg (hprintable _ (by decide)), if_neg (hprintable _ (by decide)),
    if_neg (hprintable _ (by decide)), if_neg (hprintable _ (by decide)),
    if_neg (hprintable _ (by decide))]

end OxysOS.Graphics
