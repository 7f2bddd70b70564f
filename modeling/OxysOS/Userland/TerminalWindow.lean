import OxysOS.Libc.TermMarks
import OxysOS.Library.Strings

/-!
# The window of the terminal emulator

`userland/terminal/main.c`: the ground, the rows that are drawn again, and the cursor's cell.  The
window's content is its pixels, every call upon it succeeds, and what a pixel of a character shows
is the face's to say.
-/

namespace OxysOS.Userland

open OxysOS.Library OxysOS.Libc

abbrev Content := ℕ → ℕ → UInt32

/-- What the face shows of a character, for its ink, its paper, its scale, and a pixel of its
cell. -/
abbrev Face := UInt8 → UInt32 → UInt32 → ℕ → ℕ → ℕ → UInt32

def syscallWindowTextMaximum : ℕ := 127

def syscallWindowTextAdvance : ℕ := 5

def syscallWindowTextHeight : ℕ := 8

def terminalAdvance : ℕ := syscallWindowTextAdvance

/-- `TERMINAL_PITCH`, which is `TERMINAL_GLYPH` and `TERMINAL_LEADING`. -/
def terminalPitch : ℕ := 8 + 2

def terminalPaper : UInt32 := 0x00000000

def terminalInk : UInt32 := 0x00FFFFFF

/-- `SyscallWindowText`, upon the grid. -/
structure SyscallWindowText where
  x : ℕ
  y : ℕ
  ink : UInt32
  paper : UInt32
  scale : ℕ

structure SyscallWindowRectangle where
  x : ℕ
  y : ℕ
  width : ℕ
  height : ℕ

/-- `OxysWindowText`: each character of a text fills its cell. -/
def oxysWindowText (face : Face) (content : Content) (placement : SyscallWindowText)
    (text : List UInt8) : Content :=
  let advance := syscallWindowTextAdvance * placement.scale
  fun x y ↦
    if placement.x ≤ x ∧ x < placement.x + text.length * advance ∧ placement.y ≤ y ∧
        y < placement.y + syscallWindowTextHeight * placement.scale then
      face (text.getD ((x - placement.x) / advance) 0) placement.ink placement.paper placement.scale
        ((x - placement.x) % advance) (y - placement.y)
    else content x y

def oxysWindowBlit (content : Content) (area : SyscallWindowRectangle) (pixels : ℕ → UInt32) :
    Content := fun x y ↦
  if area.x ≤ x ∧ x < area.x + area.width ∧ area.y ≤ y ∧ y < area.y + area.height then
    pixels ((y - area.y) * area.width + (x - area.x))
  else content x y

structure TerminalState where
  grid : TermScreen
  scale : ℕ
  contentWidth : ℕ
  contentHeight : ℕ
  cursorColumn : ℕ
  cursorRow : ℕ
  cursorDrawn : Bool
  content : Content

def terminalPaintGround (state : TerminalState) : TerminalState :=
  let width := state.contentWidth
  let band := terminalPitch * state.scale
  if width = 0 then state
  else
    let bands := (state.contentHeight + band - 1) / band
    { state with
      content := (List.range bands).foldl (fun content turn ↦
        let top := turn * band
        let height := if top + band ≤ state.contentHeight then band else state.contentHeight - top
        oxysWindowBlit content ⟨0, top, width, height⟩ fun _ ↦ terminalPaper) state.content }

/-- `TerminalResize`, with the content that the window is given for its new extent. -/
def terminalResize (state : TerminalState) (width height : ℕ) (content : Content) : TerminalState :=
  let columns := width / (terminalAdvance * state.scale)
  let rows := height / (terminalPitch * state.scale)
  let columns := if columns > termColumnsMaximum then termColumnsMaximum else columns
  let rows := if rows > termRowsMaximum then termRowsMaximum else rows
  let state := { state with contentWidth := width, contentHeight := height, content }
  if columns = 0 ∨ rows = 0 then state
  else
    match termResize state.grid columns rows with
    | (false, grid) => { state with grid }
    | (true, grid) => terminalPaintGround { state with grid, cursorDrawn := false }

/-- `TerminalDrawAt`, of a text that ends within the bytes that a call carries. -/
def terminalDrawAt (face : Face) (state : TerminalState) (column row : ℕ) (text : Bytes)
    (ink paper : UInt32) : TerminalState :=
  let placement : SyscallWindowText :=
    { x := column * terminalAdvance * state.scale
      y := row * terminalPitch * state.scale
      ink
      paper
      scale := state.scale }
  { state with
    content := oxysWindowText face state.content placement
      (stringAt text 0 (syscallWindowTextMaximum + 1)) }

/-- One turn of the loop of `TerminalDraw`. -/
def terminalDrawRow (face : Face) (state : TerminalState) (index : ℕ) : TerminalState :=
  if !termRowChanged state.grid index then state
  else
    let state := match termRow state.grid index with
      | some text => terminalDrawAt face state 0 index text terminalInk terminalPaper
      | none => state
    let state := { state with grid := termRowDrawn state.grid index }
    if index = state.cursorRow then { state with cursorDrawn := false } else state

def cellText (character : UInt8) : Bytes := fun index ↦ if index = 0 then character else 0

/-- The cell that the cursor has left is put back by `TerminalDraw`. -/
def terminalPutBack (face : Face) (state : TerminalState) (column row : ℕ) : TerminalState :=
  if state.cursorDrawn ∧ (state.cursorColumn ≠ column ∨ state.cursorRow ≠ row) then
    let state := match termRow state.grid state.cursorRow with
      | some text => terminalDrawAt face state state.cursorColumn state.cursorRow
          (cellText (text state.cursorColumn)) terminalInk terminalPaper
      | none => state
    { state with cursorDrawn := false }
  else state

def terminalDraw (face : Face) (state : TerminalState) : TerminalState :=
  let column := state.grid.cursorColumn
  let row := state.grid.cursorRow
  let state := (List.range state.grid.rows).foldl (terminalDrawRow face) state
  let state := terminalPutBack face state column row
  let state := match termRow state.grid row with
    | some text => terminalDrawAt face state column row (cellText (text column)) terminalPaper
        terminalInk
    | none => state
  { state with cursorColumn := column, cursorRow := row, cursorDrawn := true }

/-- `TerminalScale`, as `main` chooses it. -/
def terminalScale (screenWidth : ℤ) : ℕ := if screenWidth ≥ 1024 then 2 else 1

/-- The window as `main` makes it for a grid that `TermInitialise` has made. -/
def terminalStart (grid : TermScreen) (scale : ℕ) (content : Content) : TerminalState :=
  terminalPaintGround
    { grid
      scale
      contentWidth := grid.columns * terminalAdvance * scale
      contentHeight := grid.rows * terminalPitch * scale
      cursorColumn := 0
      cursorRow := 0
      cursorDrawn := false
      content }

inductive TerminalOp
  | write (bytes : List UInt8)
  | resize (width height : ℕ) (content : Content)
  | draw

def TerminalOp.Admitted (scale : ℕ) : TerminalOp → Prop
  | .resize width height _ =>
      0 < width / (terminalAdvance * scale) ∧ 0 < height / (terminalPitch * scale)
  | _ => True

def terminalDo (face : Face) (state : TerminalState) : TerminalOp → TerminalState
  | .write bytes => { state with grid := termWrite state.grid bytes }
  | .resize width height content => terminalResize state width height content
  | .draw => terminalDraw face state

def terminalRun (face : Face) (state : TerminalState) (ops : List TerminalOp) : TerminalState :=
  ops.foldl (terminalDo face) state

end OxysOS.Userland
