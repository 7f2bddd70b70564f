import OxysOS.Library.Bytes

/-!
# The line editor

`libc/line/line.c`, of an editor that has been given somewhere to emit to.  The
editor keeps in `output` what it has emitted since its line began, which nothing
reads.
-/

namespace OxysOS.Libc

open OxysOS.Library

def lineCapacity : ℕ := 512

def lineHistoryDepth : ℕ := 32

def lineParameterCapacity : ℕ := 8

def lineRunCapacity : ℕ := 32

def lineBackspace : UInt8 := 0x08
def lineDelete : UInt8 := 0x7F
def lineEscape : UInt8 := 0x1B

def lineBlank : UInt8 := 0x20

def lineControl (letter : Char) : UInt8 := UInt8.ofNat letter.toNat &&& 0x1F

inductive LineResult
  | pending | complete | finish
  deriving DecidableEq

inductive LineParseState
  | plain | escape | csi | ss3
  deriving DecidableEq

structure LineEditor where
  output : List UInt8
  text : Bytes
  length : ℕ
  cursor : ℕ
  history : ℕ → Bytes
  historyFirst : ℕ
  historyCount : ℕ
  browsing : ℕ
  draft : Bytes
  draftLength : ℕ
  state : LineParseState
  parameter : Bytes
  parameterLength : ℕ
  discarded : ℕ
  ignored : ℕ

def strlen (string : Bytes) (bound : ℕ) : ℕ :=
  ((List.range bound).find? fun i ↦ string i = 0).getD bound

def strcmpEqual (left right : Bytes) : ℕ → ℕ → Bool
  | 0, _ => true
  | count + 1, i =>
      if left i ≠ right i then false
      else if left i = 0 then true
      else strcmpEqual left right count (i + 1)

namespace LineEditor

/-- `LineEmit` -/
def emit (editor : LineEditor) (bytes : List UInt8) : LineEditor :=
  { editor with output := editor.output ++ bytes }

/-- `LineEmitRun` -/
def emitRun (editor : LineEditor) (byte : UInt8) (count : ℕ) : LineEditor :=
  if count = 0 then editor
  else
    let now := min count lineRunCapacity
    emitRun (editor.emit (List.replicate now byte)) byte (count - now)
  termination_by count
  decreasing_by
    unfold lineRunCapacity
    omega

/-- `LineInitialise` -/
def initialise : LineEditor where
  output := []
  text _ := 0
  length := 0
  cursor := 0
  history _ _ := 0
  historyFirst := 0
  historyCount := 0
  browsing := 0
  draft _ := 0
  draftLength := 0
  state := .plain
  parameter _ := 0
  parameterLength := 0
  discarded := 0
  ignored := 0

/-- `LineBegin` -/
def begin (editor : LineEditor) : LineEditor :=
  { editor with
    output := []
    text := Function.update editor.text 0 0
    length := 0
    cursor := 0
    draft := Function.update editor.draft 0 0
    draftLength := 0
    browsing := editor.historyCount
    state := .plain
    parameterLength := 0 }

def ignore (editor : LineEditor) : LineEditor := { editor with ignored := editor.ignored + 1 }

/-- `LineInsert` -/
def insert (editor : LineEditor) (byte : UInt8) : LineEditor :=
  let after := editor.length - editor.cursor
  if lineCapacity ≤ editor.length + 1 then { editor with discarded := editor.discarded + 1 }
  else
    let text := splice editor.text (editor.cursor + 1) (after + 1) fun i ↦
      editor.text (editor.cursor + i)
    let text := Function.update text editor.cursor byte
    let editor := { editor with text := text, length := editor.length + 1 }
    let editor := editor.emit (slice editor.text editor.cursor (after + 1))
    let editor := editor.emitRun lineBackspace after
    { editor with cursor := editor.cursor + 1 }

/-- `LineRemoveAt` -/
def removeAt (editor : LineEditor) (position : ℕ) : LineEditor :=
  let after := editor.length - position - 1
  let text := splice editor.text position (after + 1) fun i ↦ editor.text (position + 1 + i)
  let editor := { editor with text := text, length := editor.length - 1 }
  let editor := editor.emit (slice editor.text position after)
  let editor := editor.emitRun lineBlank 1
  editor.emitRun lineBackspace (after + 1)

/-- `LineDeleteBefore` -/
def deleteBefore (editor : LineEditor) : LineEditor :=
  if editor.cursor = 0 then editor.ignore
  else
    let editor := { editor with cursor := editor.cursor - 1 }
    let editor := editor.emitRun lineBackspace 1
    editor.removeAt editor.cursor

/-- `LineDeleteUnder` -/
def deleteUnder (editor : LineEditor) : LineEditor :=
  if editor.length ≤ editor.cursor then editor.ignore else editor.removeAt editor.cursor

/-- `LineMoveLeft` -/
def moveLeft (editor : LineEditor) : LineEditor :=
  if editor.cursor = 0 then editor.ignore
  else { editor with cursor := editor.cursor - 1 }.emitRun lineBackspace 1

/-- `LineMoveRight` -/
def moveRight (editor : LineEditor) : LineEditor :=
  if editor.length ≤ editor.cursor then editor.ignore
  else
    let editor := editor.emit (slice editor.text editor.cursor 1)
    { editor with cursor := editor.cursor + 1 }

/-- `LineMoveToStart` -/
def moveToStart (editor : LineEditor) : LineEditor :=
  { editor.emitRun lineBackspace editor.cursor with cursor := 0 }

/-- `LineMoveToEnd` -/
def moveToEnd (editor : LineEditor) : LineEditor :=
  let editor := editor.emit (slice editor.text editor.cursor (editor.length - editor.cursor))
  { editor with cursor := editor.length }

/-- `LineKillToEnd` -/
def killToEnd (editor : LineEditor) : LineEditor :=
  let removed := editor.length - editor.cursor
  let editor := { editor with
    text := Function.update editor.text editor.cursor 0
    length := editor.cursor }
  let editor := editor.emitRun lineBlank removed
  editor.emitRun lineBackspace removed

/-- `LineKillToStart` -/
def killToStart (editor : LineEditor) : LineEditor :=
  let removed := editor.cursor
  let kept := editor.length - removed
  let text := splice editor.text 0 (kept + 1) fun i ↦ editor.text (removed + i)
  let editor := { editor with text := text, length := kept, cursor := 0 }
  let editor := editor.emitRun lineBackspace removed
  let editor := editor.emit (slice editor.text 0 kept)
  let editor := editor.emitRun lineBlank removed
  editor.emitRun lineBackspace (kept + removed)

/-- `LineReplace`.  What is beyond the capacity of a longer replacement is not
looked at, so its length is not sought beyond it either. -/
def replace (editor : LineEditor) (replacement : Bytes) : LineEditor :=
  let previous := editor.length
  let incoming := strlen replacement lineCapacity
  let incoming := if lineCapacity ≤ incoming then lineCapacity - 1 else incoming
  let editor := editor.moveToStart
  let text := Function.update (splice editor.text 0 incoming replacement) incoming 0
  let editor := { editor with text := text, length := incoming, cursor := incoming }
  let editor := editor.emit (slice editor.text 0 incoming)
  if incoming < previous then
    let editor := editor.emitRun lineBlank (previous - incoming)
    editor.emitRun lineBackspace (previous - incoming)
  else editor

/-- `LinePreset` -/
def preset (editor : LineEditor) (text : Bytes) : LineEditor := editor.replace text

/-- `LineHistorySlot` -/
def historySlot (editor : LineEditor) (position : ℕ) : ℕ :=
  (editor.historyFirst + position) % lineHistoryDepth

/-- `LineRecallPrevious` -/
def recallPrevious (editor : LineEditor) : LineEditor :=
  if editor.browsing = 0 then editor.ignore
  else
    let editor :=
      if editor.browsing = editor.historyCount then
        { editor with
          draft := splice editor.draft 0 (editor.length + 1) editor.text
          draftLength := editor.length }
      else editor
    let editor := { editor with browsing := editor.browsing - 1 }
    editor.replace (editor.history (editor.historySlot editor.browsing))

/-- `LineRecallNext` -/
def recallNext (editor : LineEditor) : LineEditor :=
  if editor.historyCount ≤ editor.browsing then editor.ignore
  else
    let editor := { editor with browsing := editor.browsing + 1 }
    if editor.browsing = editor.historyCount then editor.replace editor.draft
    else editor.replace (editor.history (editor.historySlot editor.browsing))

/-- `LineRemember` -/
def remember (editor : LineEditor) : LineEditor :=
  if editor.length = 0 then editor
  else if 0 < editor.historyCount ∧
      strcmpEqual (editor.history (editor.historySlot (editor.historyCount - 1))) editor.text
        lineCapacity 0 then
    editor
  else
    let write (editor : LineEditor) (slot : ℕ) : LineEditor :=
      { editor with
        history := Function.update editor.history slot
          (splice (editor.history slot) 0 (editor.length + 1) editor.text) }
    if editor.historyCount < lineHistoryDepth then
      let slot := editor.historySlot editor.historyCount
      write { editor with historyCount := editor.historyCount + 1 } slot
    else
      let slot := editor.historyFirst
      write { editor with historyFirst := (editor.historyFirst + 1) % lineHistoryDepth } slot

/-- `LineDispatchSequence`: whether the sequence is one the editor acts upon,
and what it leaves. -/
def dispatchSequence (editor : LineEditor) (final : UInt8) : Bool × LineEditor :=
  let parameter := editor.parameter 0
  let one := editor.parameterLength = 1
  if final = byteOf 'A' then (true, editor.recallPrevious)
  else if final = byteOf 'B' then (true, editor.recallNext)
  else if final = byteOf 'C' then (true, editor.moveRight)
  else if final = byteOf 'D' then (true, editor.moveLeft)
  else if final = byteOf 'H' then (true, editor.moveToStart)
  else if final = byteOf 'F' then (true, editor.moveToEnd)
  else if final = byteOf '~' then
    if one ∧ (parameter = byteOf '1' ∨ parameter = byteOf '7') then (true, editor.moveToStart)
    else if one ∧ (parameter = byteOf '4' ∨ parameter = byteOf '8') then (true, editor.moveToEnd)
    else if one ∧ parameter = byteOf '3' then (true, editor.deleteUnder)
    else (false, editor)
  else (false, editor)

def finishSequence (editor : LineEditor) (final : UInt8) : LineEditor :=
  match editor.dispatchSequence final with
  | (true, editor) => editor
  | (false, editor) => editor.ignore

/-- `LineFeedPlain` -/
def feedPlain (editor : LineEditor) (byte : UInt8) : LineResult × LineEditor :=
  if 0x20 ≤ byte ∧ byte ≤ 0x7E then (.pending, editor.insert byte)
  else if byte = byteOf '\r' ∨ byte = byteOf '\n' then
    (.complete, editor.emit [byteOf '\n'])
  else if byte = lineEscape then (.pending, { editor with state := .escape })
  else if byte = lineBackspace ∨ byte = lineDelete then (.pending, editor.deleteBefore)
  else if byte = lineControl 'D' then
    if editor.length = 0 then (.finish, editor.emit [byteOf '\n'])
    else (.pending, editor.deleteUnder)
  else if byte = lineControl 'A' then (.pending, editor.moveToStart)
  else if byte = lineControl 'E' then (.pending, editor.moveToEnd)
  else if byte = lineControl 'B' then (.pending, editor.moveLeft)
  else if byte = lineControl 'F' then (.pending, editor.moveRight)
  else if byte = lineControl 'P' then (.pending, editor.recallPrevious)
  else if byte = lineControl 'N' then (.pending, editor.recallNext)
  else if byte = lineControl 'U' then (.pending, editor.killToStart)
  else if byte = lineControl 'K' then (.pending, editor.killToEnd)
  else (.pending, editor.ignore)

/-- `LineFeed` -/
def feed (editor : LineEditor) (byte : UInt8) : LineResult × LineEditor :=
  match editor.state with
  | .escape =>
      let editor := { editor with parameterLength := 0 }
      if byte = byteOf '[' then (.pending, { editor with state := .csi })
      else if byte = byteOf 'O' then (.pending, { editor with state := .ss3 })
      else (.pending, { editor with state := .plain }.ignore)
  | .csi =>
      if 0x20 ≤ byte ∧ byte ≤ 0x3F then
        let parameter :=
          if editor.parameterLength < lineParameterCapacity then
            Function.update editor.parameter editor.parameterLength byte
          else editor.parameter
        (.pending, { editor with
          parameter := parameter
          parameterLength := editor.parameterLength + 1 })
      else
        let editor := { editor with state := .plain }
        if 0x40 ≤ byte ∧ byte ≤ 0x7E then
          let editor := { editor with
            parameterLength := min editor.parameterLength lineParameterCapacity }
          (.pending, editor.finishSequence byte)
        else (.pending, editor.ignore)
  | .ss3 =>
      let editor := { editor with state := .plain, parameterLength := 0 }
      (.pending, editor.finishSequence byte)
  | .plain => editor.feedPlain byte

end LineEditor

end OxysOS.Libc
