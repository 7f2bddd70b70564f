import OxysOS.Graphics.ConsoleScreen
import OxysOS.Libc.Term

/-!
# The two displays of the line editor

The terminal's grid does what the kernel's console does, but for a backspace at the start
of a row: the terminal goes to the last column of the row above, and the console to where
the text of that row ended.  The two agree after every part of what is written exactly
where no backspace is written below a row that ended before its last column.
-/

namespace OxysOS.Graphics

open OxysOS.Library OxysOS.Libc

def IsDisplayByte (byte : UInt8) : Prop :=
  (0x20 ≤ byte ∧ byte ≤ 0x7E) ∨ byte = 0x08 ∨ byte = 0x0D ∨ byte = 0x0A ∨ byte = 0x0C

def Console.Shows (console : Console) (row column : ℕ) (code : UInt8) : Prop :=
  ∀ x < 8, ∀ y < 8, ∀ index < console.surface.bytesPerPixel,
    console.memory (graphicsPixelAddress console.surface (8 * column + x : ℕ)
        (8 * row + y : ℕ) + index) =
      colourByte (patternColour ((fontGlyph code).getD y 0) console.foreground console.background
        x) index

structure DisplaysAgree (screen : TermScreen) (console : Console) : Prop where
  cursorRow : screen.cursorRow = console.cursorRow
  cursorColumn : screen.cursorColumn = console.cursorColumn
  cell : ∀ row < console.rowCount, ∀ column < console.columnCount,
    console.Shows row column (screen.cell row column)

/-- Where the cursor is at the start of a row below another, the text of that one ended in its
last column. -/
def RowAboveFull (console : Console) : Prop :=
  console.cursorColumn = 0 → 0 < console.cursorRow →
    console.columnCount - 1 ≤ console.rowEnd (console.cursorRow - 1)

structure Displays (screen : TermScreen) (console : Console) : Prop where
  like : Screen.Like (fun code tile ↦ tile = console.glyph code) screen.screen console.screen
  sound : console.Sound
  limitRow : console.limitRow = 0
  limitColumn : console.limitColumn = 0

variable {screen : TermScreen} {console : Console} {byte : UInt8}

theorem Console.shows_of_tile {row column : ℕ} {code : UInt8}
    (h : console.tile row column = console.glyph code) : console.Shows row column code := by
  intro x hx y hy index hindex
  have hbyte := congrFun (congrFun (congrFun h x) y) index
  unfold Console.tile Console.glyph tileOf at hbyte
  rw [if_pos ⟨hx, hy, hindex⟩, if_pos ⟨hx, hy, hindex⟩] at hbyte
  exact hbyte

theorem Displays.agree (h : Displays screen console) : DisplaysAgree screen console where
  cursorRow := h.like.cursorRow
  cursorColumn := h.like.cursorColumn
  cell := fun row hrow column hcolumn ↦ Console.shows_of_tile
    (h.like.cell row (lt_of_lt_of_eq hrow h.like.rows.symm) column
      (lt_of_lt_of_eq hcolumn h.like.columns.symm))

theorem consoleNewLine_limit (console : Console) (column : ℕ) (hrow : console.limitRow = 0)
    (hcolumn : console.limitColumn = 0) :
    (consoleNewLine { console with cursorColumn := column }).limitRow = 0 ∧
      (consoleNewLine { console with cursorColumn := column }).limitColumn = 0 := by
  by_cases hbelow : console.cursorRow + 1 < console.rowCount
  · rw [consoleNewLine_of_lt (by exact hbelow)]
    exact ⟨hrow, hcolumn⟩
  · rw [consoleNewLine_of_not (by exact hbelow)]
    unfold consoleScroll
    dsimp only
    rw [hrow]
    exact ⟨rfl, rfl⟩

theorem consoleDraw_limit (console : Console) (code : UInt8) (hrow : console.limitRow = 0)
    (hcolumn : console.limitColumn = 0) :
    (consoleDraw console code).limitRow = 0 ∧ (consoleDraw console code).limitColumn = 0 := by
  unfold consoleDraw
  by_cases hroom : console.cursorColumn + 1 < console.columnCount
  · rw [consoleAdvance_of_lt (by exact hroom)]
    exact ⟨hrow, hcolumn⟩
  · rw [consoleAdvance_of_not (by exact hroom)]
    exact consoleNewLine_limit _ _ hrow hcolumn

theorem consoleBackspace_of_origin (hrow : console.limitRow = 0) (hcolumn : console.limitColumn = 0)
    (hcolumns : 0 < console.columnCount) :
    consoleBackspace console =
      if console.cursorColumn > 0 then
        { console with cursorColumn := console.cursorColumn - 1 }
      else if console.cursorRow > 0 then
        { console with
          cursorRow := console.cursorRow - 1
          cursorColumn := if console.rowEnd (console.cursorRow - 1) < console.columnCount then
            console.rowEnd (console.cursorRow - 1) else console.columnCount - 1 }
      else console := by
  have hhold : ∀ console' : Console, consoleHold 0 console' = console' := fun console' ↦
    if_neg (Nat.not_lt_zero _)
  have horigin : consolePosition console console.limitRow console.limitColumn = 0 := by
    unfold consolePosition
    rw [hrow, hcolumn, Nat.zero_mul]
  unfold consoleBackspace
  dsimp only
  rw [horigin, hhold, hhold]
  by_cases hstart : consolePosition console console.cursorRow console.cursorColumn ≤ 0
  · have hzero : console.cursorRow = 0 ∧ console.cursorColumn = 0 := by
      unfold consolePosition at hstart
      have hproduct : console.cursorRow * console.columnCount = 0 := by omega
      have hcursor := (Nat.mul_eq_zero.mp hproduct).resolve_right (Nat.ne_of_gt hcolumns)
      omega
    rw [if_pos hstart, if_neg (by omega), if_neg (by omega)]
  · rw [if_neg hstart]

theorem Displays.columns (h : Displays screen console) : 0 < screen.columns ∧
    0 < console.columnCount := by
  have hcolumns : screen.columns = console.columnCount := h.like.columns
  have hcursor : console.cursorColumn < console.columnCount := h.sound.cursor.column
  omega

theorem Displays.of_like {screen' : TermScreen} {console' : Console} (h : Displays screen console)
    {s : Screen UInt8} {t : Screen Tile} (hkeeps : console.Keeps console')
    (hscreen : Screen.Like Eq screen'.screen s) (hconsole : Screen.Like Eq console'.screen t)
    (hlike : Screen.Like (fun code tile ↦ tile = console.glyph code) s t) (ht : t.Sound)
    (hlimit : console'.limitRow = 0 ∧ console'.limitColumn = 0) : Displays screen' console' where
  like := by
    rw [hkeeps.glyph]
    exact (hscreen.of_eq hlike).eq_of hconsole.symm
  sound := hkeeps.sound h.sound (sound_of_like hconsole ht)
  limitRow := hlimit.1
  limitColumn := hlimit.2

theorem Displays.move {screen' : TermScreen} {console' : Console} {row column : ℕ}
    (h : Displays screen console) (hscreen : screen'.screen = screen.screen.move row column)
    (hconsole : console' = { console with cursorRow := row, cursorColumn := column })
    (hrow : row < console.rowCount) (hcolumn : column < console.columnCount) :
    Displays screen' console' := by
  subst hconsole
  exact h.of_like ⟨rfl, rfl, rfl, rfl, rfl, rfl, rfl⟩ (hscreen ▸ Screen.Like.refl _)
    (Screen.Like.refl _) (h.like.move row column) ⟨hrow, hcolumn⟩ ⟨h.limitRow, h.limitColumn⟩

theorem Displays.backspace (h : Displays screen console) :
    (RowAboveFull console → Displays (termWriteByte screen 0x08)
      (consoleWriteCharacter console 0x08)) ∧
    (DisplaysAgree (termWriteByte screen 0x08) (consoleWriteCharacter console 0x08) →
      RowAboveFull console) := by
  obtain ⟨hscreenColumns, hconsoleColumns⟩ := h.columns
  have hcolumns : screen.columns = console.columnCount := h.like.columns
  have hcursorRow : screen.cursorRow = console.cursorRow := h.like.cursorRow
  have hcursorColumn : screen.cursorColumn = console.cursorColumn := h.like.cursorColumn
  have hrow : console.cursorRow < console.rowCount := h.sound.cursor.row
  have hcolumn : console.cursorColumn < console.columnCount := h.sound.cursor.column
  have hbackspace := consoleBackspace_of_origin h.limitRow h.limitColumn hconsoleColumns
  have hterm := termWriteByte_backspace hscreenColumns
  have hwritten : consoleWriteCharacter console 0x08 = consoleBackspace console := by
    rw [h.sound.writeCharacter]
    rfl
  unfold RowAboveFull
  rw [hwritten, hbackspace]
  unfold termBackspace at hterm
  by_cases halong : console.cursorColumn > 0
  · rw [if_pos (by omega)] at hterm
    rw [if_pos halong]
    refine ⟨fun _ ↦ h.move (hterm.trans ?_) rfl hrow (by omega : console.cursorColumn - 1 < _),
      fun _ hzero ↦ by omega⟩
    rw [← hcursorColumn, ← hcursorRow]
    rfl
  rw [if_neg (by omega)] at hterm
  rw [if_neg halong]
  by_cases hbelow : console.cursorRow > 0
  · -- the terminal goes to the last column, and the console to the end of the text
    rw [if_pos (by omega)] at hterm
    rw [if_pos hbelow]
    constructor
    · intro hfull
      have hend := hfull (by omega) hbelow
      have hlast : (if console.rowEnd (console.cursorRow - 1) < console.columnCount then
          console.rowEnd (console.cursorRow - 1) else console.columnCount - 1) =
            console.columnCount - 1 := by
        split_ifs <;> omega
      rw [hlast]
      refine h.move (hterm.trans ?_) rfl (by omega : console.cursorRow - 1 < _)
        (by omega : console.columnCount - 1 < _)
      rw [← hcolumns, ← hcursorRow]
      rfl
    · intro hagree _ _
      have hmet := hagree.cursorColumn
      have hlast : (termWriteByte screen 0x08).cursorColumn = screen.columns - 1 :=
        congrArg Screen.cursorColumn hterm
      rw [hlast] at hmet
      dsimp only at hmet
      split_ifs at hmet <;> omega
  · rw [if_neg (by omega)] at hterm
    rw [if_neg hbelow]
    exact ⟨fun _ ↦ h.move (hterm.trans (by rw [← hcursorRow, ← hcursorColumn]; rfl)) rfl hrow
      hcolumn, fun _ _ hset ↦ absurd hset hbelow⟩

theorem Displays.write (h : Displays screen console) (hbyte : IsDisplayByte byte)
    (hother : byte ≠ 0x08) :
    Displays (termWriteByte screen byte) (consoleWriteCharacter console byte) := by
  have hcolumns := h.columns.1
  have hblank : console.blank = console.glyph 0x20 := console.glyph_space.symm
  rcases hbyte with ⟨hfirst, hlast⟩ | rfl | rfl | rfl | rfl
  · rw [h.sound.writeCharacter_printable hfirst]
    exact h.of_like (consoleDraw_keeps console byte) (termWriteByte_put hcolumns hfirst hlast)
      (h.sound.draw byte) (h.like.put hblank rfl) h.sound.cursor.put
      (consoleDraw_limit console byte h.limitRow h.limitColumn)
  · exact absurd rfl hother
  · have hwritten : consoleWriteCharacter console 0x0D = { console with cursorColumn := 0 } := by
      rw [h.sound.writeCharacter]
      rfl
    rw [hwritten]
    exact h.of_like ⟨rfl, rfl, rfl, rfl, rfl, rfl, rfl⟩
      (termWriteByte_return hcolumns ▸ Screen.Like.refl _) (Screen.Like.refl _) h.like.home
      h.sound.cursor.home ⟨h.limitRow, h.limitColumn⟩
  · have hwritten : consoleWriteCharacter console 0x0A = consoleNewLine console := by
      rw [h.sound.writeCharacter]
      rfl
    rw [hwritten]
    exact h.of_like (consoleNewLine_keeps console console.cursorColumn)
      (termWriteByte_feed hcolumns) (h.sound.newLine console.cursorColumn) (h.like.feed hblank)
      h.sound.cursor.feed
      (consoleNewLine_limit console console.cursorColumn h.limitRow h.limitColumn)
  · have hwritten : consoleWriteCharacter console 0x0C = consoleClear console := by
      rw [h.sound.writeCharacter]
      rfl
    have hlimit : (consoleClear console).limitRow = 0 ∧ (consoleClear console).limitColumn = 0 := by
      unfold consoleClear
      rw [if_neg (not_not_intro h.sound.active)]
      exact ⟨rfl, rfl⟩
    rw [hwritten]
    exact h.of_like (consoleClear_keeps console) (termWriteByte_clear hcolumns) h.sound.clear
      (h.like.clear hblank) h.sound.cursor.clear hlimit

theorem Displays.run {bytes : List UInt8} (h : Displays screen console)
    (hbytes : ∀ byte ∈ bytes, IsDisplayByte byte)
    (hfull : ∀ written, written ++ [0x08] <+: bytes → RowAboveFull (consoleWrite console written)) :
    Displays (termWrite screen bytes) (consoleWrite console bytes) := by
  induction bytes generalizing screen console with
  | nil => exact h
  | cons byte bytes ih =>
      have hbyte := hbytes byte List.mem_cons_self
      have hrest := fun other hmem ↦ hbytes other (List.mem_cons_of_mem byte hmem)
      have hnext : Displays (termWriteByte screen byte) (consoleWriteCharacter console byte) := by
        by_cases hback : byte = 0x08
        · subst hback
          exact h.backspace.1 (hfull [] (List.prefix_append [0x08] bytes))
        · exact h.write hbyte hback
      exact ih hnext hrest fun written hwritten ↦
        hfull (byte :: written) (List.cons_prefix_cons.mpr ⟨rfl, hwritten⟩)

theorem Displays.full_of_agree {bytes : List UInt8} (h : Displays screen console)
    (hbytes : ∀ byte ∈ bytes, IsDisplayByte byte)
    (hagree : ∀ written, written <+: bytes →
      DisplaysAgree (termWrite screen written) (consoleWrite console written)) :
    ∀ written, written ++ [0x08] <+: bytes → RowAboveFull (consoleWrite console written) := by
  induction bytes generalizing screen console with
  | nil =>
      intro written hwritten
      have hlength := hwritten.length_le
      rw [List.length_append, List.length_nil] at hlength
      exact absurd hlength (by simp)
  | cons byte bytes ih =>
      have hbyte := hbytes byte List.mem_cons_self
      have hrest := fun other hmem ↦ hbytes other (List.mem_cons_of_mem byte hmem)
      have hfirst := hagree [byte] (List.cons_prefix_cons.mpr ⟨rfl, List.nil_prefix⟩)
      have hfull : byte = 0x08 → RowAboveFull console := by
        rintro rfl
        exact h.backspace.2 hfirst
      have hnext : Displays (termWriteByte screen byte) (consoleWriteCharacter console byte) := by
        by_cases hback : byte = 0x08
        · have hset := hfull hback
          subst hback
          exact h.backspace.1 hset
        · exact h.write hbyte hback
      intro written hwritten
      cases written with
      | nil => exact hfull (List.cons_prefix_cons.mp hwritten).1.symm
      | cons first written =>
          obtain ⟨rfl, hprefix⟩ := List.cons_prefix_cons.mp hwritten
          exact ih hnext hrest
            (fun part hpart ↦ hagree (first :: part) (List.cons_prefix_cons.mpr ⟨rfl, hpart⟩))
            written hprefix

theorem sound_of_consoleInitialise {description : BootFramebuffer} {surface : GraphicsSurface}
    {before : Console} (hsurface : surface.Reached) (hearly : before.early = [])
    (hsuspended : before.suspended = false)
    (h : consoleInitialise description (some surface) before = (true, console)) :
    console.Sound ∧ console.limitRow = 0 ∧ console.limitColumn = 0 ∧
      console.cursorRow = 0 ∧ console.cursorColumn = 0 ∧
      ∀ row < console.rowCount, ∀ column < console.columnCount,
        console.tile row column = console.blank := by
  unfold consoleInitialise at h
  dsimp only at h
  generalize hrows : (if surface.height / fontHeight > consoleMaximumRows then consoleMaximumRows
    else surface.height / fontHeight) = rows at h
  have hheight : rows * 8 ≤ surface.height := by
    unfold fontHeight at hrows
    split_ifs at hrows <;> omega
  by_cases hnone : surface.width / fontWidth = 0 ∨ rows = 0
  · rw [if_pos hnone] at h
    cases h
  rw [if_neg hnone, hearly] at h
  obtain rfl := (Prod.mk.inj h).2
  unfold fontWidth at *
  have hsound := hsurface.sound.run .reset
  let begun : Console := { before with
    surface := graphicsResetClip surface
    columnCount := surface.width / 8
    rowCount := rows
    foreground := framebufferEncode description 200 200 200
    background := framebufferEncode description 0 0 0
    cursorColumn := 0
    cursorRow := 0
    limitColumn := 0
    limitRow := 0
    charactersWritten := 0
    scrollCount := 0
    rowEnd := fun row ↦ if row < rows then 0 else before.rowEnd row
    early := []
    active := true }
  have hbegun : begun.Sound := by
    refine ⟨hsound, rfl, ?_, hheight, ⟨?_, ?_⟩, rfl, hsuspended⟩
    · change surface.width / 8 * 8 ≤ surface.width
      omega
    · change 0 < rows
      omega
    · change 0 < surface.width / 8
      omega
  exact ⟨hbegun.upon (graphicsClear begun.surface begun.memory begun.background), rfl, rfl, rfl, rfl, fun row hrow column hcolumn ↦
    hbegun.tile_clear hrow hcolumn⟩

/-- The terminal's grid and the console agree after every part of what is written exactly where
no backspace is written at the start of a row below one that ended before its last column. -/
theorem displays_agree_iff (description : BootFramebuffer) {surface : GraphicsSurface}
    (hsurface : surface.Reached) (before : Console) (started : TermScreen)
    (hearly : before.early = []) (hsuspended : before.suspended = false)
    (hconsole : consoleInitialise description (some surface) before = (true, console))
    (hscreen : termInitialise started console.columnCount console.rowCount = (true, screen))
    (bytes : List UInt8) (hbytes : ∀ byte ∈ bytes, IsDisplayByte byte) :
    (∀ written, written <+: bytes →
      DisplaysAgree (termWrite screen written) (consoleWrite console written)) ↔
    ∀ written, written ++ [0x08] <+: bytes → RowAboveFull (consoleWrite console written) := by
  obtain ⟨hsound, hlimitRow, hlimitColumn, hrow, hcolumn, hblank⟩ :=
    sound_of_consoleInitialise hsurface hearly hsuspended hconsole
  obtain ⟨-, -, hlike⟩ := termInitialise_like hscreen
  have hdisplays : Displays screen console := by
    refine ⟨hlike.of_eq ⟨rfl, rfl, hrow.symm, hcolumn.symm, fun row hrow column hcolumn ↦ ?_⟩,
      hsound, hlimitRow, hlimitColumn⟩
    exact (hblank row hrow column hcolumn).trans console.glyph_space.symm
  constructor
  · exact hdisplays.full_of_agree hbytes
  · intro hfull written hwritten
    refine (hdisplays.run (fun byte hmem ↦ hbytes byte (hwritten.mem hmem))
      fun part hpart ↦ hfull part (hpart.trans hwritten)).agree

def smallSurface : GraphicsSurface := ⟨1, 16, 16, 16, 1, false, ⟨0, 0, 16, 16⟩, []⟩

theorem smallSurface_reached : smallSurface.Reached :=
  ⟨1, 16, 16, 16, 1, smallSurface, [], rfl, rfl⟩

def consoleBefore : Console :=
  ⟨smallSurface, fun _ ↦ 0, false, false, 0, 0, 0, 0, 0, 0, 0, 0, 0, 0, fun _ ↦ 0, [], 0⟩

def smallConsole : Console :=
  (consoleInitialise eightBitChannels (some smallSurface) consoleBefore).2

def termBefore : TermScreen := ⟨0, 0, 0, 0, fun _ _ ↦ 0, fun _ ↦ false, 0, 0⟩

def smallTerm : TermScreen := (termInitialise termBefore 2 2).2

/-- A letter is shown by both. -/
theorem displays_agree_iff_letter :
    DisplaysAgree (termWrite smallTerm [0x41]) (consoleWrite smallConsole [0x41]) := by
  refine (displays_agree_iff eightBitChannels smallSurface_reached consoleBefore termBefore rfl rfl
    rfl rfl [0x41] fun byte hmem ↦ ?_).mpr (fun written hwritten ↦ ?_) [0x41] List.prefix_rfl
  · rw [List.mem_singleton.mp hmem]
    exact Or.inl ⟨by decide, by decide⟩
  · have hmem := hwritten.mem (List.mem_append_right written List.mem_cons_self)
    exact absurd (List.mem_singleton.mp hmem) (by decide)

/-- A line feed and a backspace leave the terminal's cursor in the last column of the first row,
and the console's in the first. -/
theorem displays_not_agree :
    consoleInitialise eightBitChannels (some smallSurface) consoleBefore = (true, smallConsole) ∧
      termInitialise termBefore 2 2 = (true, smallTerm) ∧
      ¬DisplaysAgree (termWrite smallTerm [0x0A, 0x08]) (consoleWrite smallConsole [0x0A, 0x08]) := by
  refine ⟨rfl, rfl, fun hagree ↦ ?_⟩
  have hcolumn := hagree.cursorColumn
  have hterm : (termWrite smallTerm [0x0A, 0x08]).cursorColumn = 1 := by rfl
  have hconsole : (consoleWrite smallConsole [0x0A, 0x08]).cursorColumn = 0 := by rfl
  rw [hterm, hconsole] at hcolumn
  cases hcolumn

end OxysOS.Graphics
