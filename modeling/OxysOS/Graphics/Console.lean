import OxysOS.Graphics.Font
import OxysOS.Graphics.Blit

/-!
# The console

`graphics/console.c`: characters upon a surface, a cursor, a limit before which nothing is
erased, and a record of where the text of each row ended.  What the compositor is told of
the cells that changed is not part of it.
-/

namespace OxysOS.Graphics

open OxysOS.Library

def consoleMaximumRows : ℕ := 512

def consoleEarlyCapacity : ℕ := 4096

def consoleTabInterval : ℕ := 8

structure Console where
  surface : GraphicsSurface
  memory : Bytes
  active : Bool
  suspended : Bool
  columnCount : ℕ
  rowCount : ℕ
  cursorColumn : ℕ
  cursorRow : ℕ
  foreground : UInt32
  background : UInt32
  limitColumn : ℕ
  limitRow : ℕ
  charactersWritten : UInt64
  scrollCount : UInt64
  rowEnd : ℕ → ℕ
  early : List UInt8
  earlyDropped : ℕ

def consoleScroll (console : Console) : Console :=
  let body : GraphicsRectangle := ⟨0, fontHeight, (console.columnCount * fontWidth : ℕ),
    ((console.rowCount - 1) * fontHeight : ℕ)⟩
  let last : GraphicsRectangle := ⟨0, ((console.rowCount - 1) * fontHeight : ℕ),
    (console.columnCount * fontWidth : ℕ), fontHeight⟩
  let memory := (graphicsBlit console.surface console.memory 0 0 console.surface body).2
  { console with
    memory := graphicsFillRectangle console.surface memory last console.background
    limitRow := if console.limitRow > 0 then console.limitRow - 1 else console.limitRow
    limitColumn := if console.limitRow > 0 then console.limitColumn else 0
    rowEnd := fun row ↦
      if row + 1 < console.rowCount then console.rowEnd (row + 1)
      else if row + 1 = console.rowCount then 0
      else console.rowEnd row
    scrollCount := console.scrollCount + 1 }

def consoleNewLine (console : Console) : Console :=
  let console := { console with
    rowEnd := Function.update console.rowEnd console.cursorRow console.cursorColumn
    cursorColumn := 0 }
  if console.cursorRow + 1 < console.rowCount then
    { console with cursorRow := console.cursorRow + 1 }
  else consoleScroll console

def consoleAdvance (console : Console) : Console :=
  let console := { console with cursorColumn := console.cursorColumn + 1 }
  if console.cursorColumn ≥ console.columnCount then consoleNewLine console else console

def consoleClear (console : Console) : Console :=
  if ¬console.active then console
  else { console with
    memory := graphicsClear console.surface console.memory console.background
    cursorColumn := 0
    cursorRow := 0
    limitColumn := 0
    limitRow := 0
    rowEnd := fun row ↦ if row < console.rowCount then 0 else console.rowEnd row }

def consoleSetEraseLimit (console : Console) : Console :=
  { console with limitColumn := console.cursorColumn, limitRow := console.cursorRow }

def consolePosition (console : Console) (row column : ℕ) : ℕ := row * console.columnCount + column

/-- The end of `ConsoleBackspace`, which does not go before the limit. -/
def consoleHold (limit : ℕ) (console : Console) : Console :=
  if consolePosition console console.cursorRow console.cursorColumn < limit then
    { console with cursorRow := console.limitRow, cursorColumn := console.limitColumn }
  else console

def consoleBackspace (console : Console) : Console :=
  let limit := consolePosition console console.limitRow console.limitColumn
  if consolePosition console console.cursorRow console.cursorColumn ≤ limit then console
  else if console.cursorColumn > 0 then
    consoleHold limit { console with cursorColumn := console.cursorColumn - 1 }
  else if console.cursorRow > 0 then
    let finish := console.rowEnd (console.cursorRow - 1)
    consoleHold limit { console with
      cursorRow := console.cursorRow - 1
      cursorColumn := if finish < console.columnCount then finish else console.columnCount - 1 }
  else console

/-- The character that `ConsoleWriteCharacter` draws. -/
def consoleDraw (console : Console) (code : UInt8) : Console :=
  consoleAdvance { console with
    memory := fontDrawGlyphOpaque console.surface console.memory
      (console.cursorColumn * fontWidth : ℕ) (console.cursorRow * fontHeight : ℕ) code
      console.foreground console.background
    charactersWritten := console.charactersWritten + 1 }

/-- The tab of `ConsoleWriteCharacter`. -/
def consoleTab (console : Console) : Console :=
  let next := (console.cursorColumn / consoleTabInterval + 1) * consoleTabInterval
  if next ≥ console.columnCount then consoleNewLine console
  else { console with cursorColumn := next }

def consoleWriteCharacter (console : Console) (code : UInt8) : Console :=
  if console.suspended then console
  else if ¬console.active then
    if console.early.length < consoleEarlyCapacity then
      { console with early := console.early ++ [code] }
    else { console with earlyDropped := console.earlyDropped + 1 }
  else if code = 0x0A then consoleNewLine console
  else if code = 0x0D then { console with cursorColumn := 0 }
  else if code = 0x09 then consoleTab console
  else if code = 0x0C then consoleClear console
  else if code = 0x08 then consoleBackspace console
  else consoleDraw console code

def consoleWrite (console : Console) (bytes : List UInt8) : Console :=
  bytes.foldl consoleWriteCharacter console

/-- `ConsoleInitialise`, of the surface of the compositor or of the framebuffer where there is
one. -/
def consoleInitialise (description : BootFramebuffer) (surface : Option GraphicsSurface)
    (console : Console) : Bool × Console :=
  match surface with
  | none => (false, console)
  | some surface =>
      let rows := surface.height / fontHeight
      let console := { console with
        surface
        columnCount := surface.width / fontWidth
        rowCount := if rows > consoleMaximumRows then consoleMaximumRows else rows }
      if console.columnCount = 0 ∨ console.rowCount = 0 then (false, console)
      else
        let background := framebufferEncode description 0 0 0
        let surface := graphicsResetClip surface
        let console := { console with
          foreground := framebufferEncode description 200 200 200
          background
          cursorColumn := 0
          cursorRow := 0
          limitColumn := 0
          limitRow := 0
          charactersWritten := 0
          scrollCount := 0
          rowEnd := fun row ↦ if row < console.rowCount then 0 else console.rowEnd row
          surface
          memory := graphicsClear surface console.memory background
          active := true }
        (true, console.early.foldl consoleWriteCharacter console)

end OxysOS.Graphics
