import OxysOS.Library.Ring
import OxysOS.Proc.Signal

/-!
# The terminal's input

`kernel/terminal/terminal.c`: one queue of bytes, filled from the keyboard's events and from the
serial line, which a read drains.  A control-C or a control-Z is taken from its head and sent to
the foreground group as a signal.
-/

namespace OxysOS.Terminal

open OxysOS.Library OxysOS.Proc

def terminalQueueCapacity : ℕ := 1024

def keyboardBufferCapacity : ℕ := 128

def serialReceiveBufferCapacity : ℕ := 256

def keyboardModifierControl : UInt8 := 0x02

def terminalInterruptByte : UInt8 := 0x03

def terminalSuspendByte : UInt8 := 0x1A

def syscallSigint : ℕ := 2

structure KeyEvent where
  scancode : UInt8
  character : UInt8
  modifiers : UInt8
  pressed : Bool
  extended : Bool
  deriving DecidableEq, Repr

structure TerminalInput where
  queue : Fin terminalQueueCapacity → UInt8
  writeIndex : UInt32
  readIndex : UInt32
  delivered : UInt64
  discarded : UInt64
  translated : UInt64
  foreground : UInt64
  signalsSent : UInt64
  intercepted : UInt64
  keyboardDetached : Bool
  keyboard : List KeyEvent
  serial : List UInt8

instance : NeZero terminalQueueCapacity := ⟨by decide⟩

/-- What is seen of the terminal: a key that is translated and the bytes of it that the queue took,
what came from the serial line and what the queue took of it, a byte that is removed and the signal
that is sent for it, what a read is given, and a change of the foreground group. -/
inductive TerminalEvent
  | key (event : KeyEvent) (taken : List UInt8)
  | serial (bytes taken : List UInt8)
  | intercepted (byte : UInt8) (sent : Option (UInt64 × ℕ))
  | read (bytes : List UInt8)
  | foreground (group : UInt64)
  deriving DecidableEq, Repr

def terminalSequenceForScancode (scancode : UInt8) : Option (List UInt8) :=
  match scancode with
  | 0x48 => some [0x1B, 0x5B, 0x41]
  | 0x50 => some [0x1B, 0x5B, 0x42]
  | 0x4D => some [0x1B, 0x5B, 0x43]
  | 0x4B => some [0x1B, 0x5B, 0x44]
  | 0x47 => some [0x1B, 0x5B, 0x48]
  | 0x4F => some [0x1B, 0x5B, 0x46]
  | 0x53 => some [0x1B, 0x5B, 0x33, 0x7E]
  | _ => none

def terminalInitialise (t : TerminalInput) : TerminalInput :=
  { t with writeIndex := 0, readIndex := 0, delivered := 0, discarded := 0, translated := 0 }

def terminalQueued (t : TerminalInput) : ℕ := (t.writeIndex - t.readIndex).toNat

def terminalHead (t : TerminalInput) : UInt8 := t.queue (ringCell terminalQueueCapacity t.readIndex.toUInt64)

/-- `TerminalAppend`, with what the queue takes. -/
def terminalAppend (t : TerminalInput) (byte : UInt8) : List UInt8 × TerminalInput :=
  if terminalQueueCapacity ≤ terminalQueued t then ([], { t with discarded := t.discarded + 1 })
  else ([byte], { t with
    queue := Function.update t.queue
      (ringCell terminalQueueCapacity t.writeIndex.toUInt64) byte
    writeIndex := t.writeIndex + 1 })

/-- A loop of `TerminalAppend`. -/
def terminalAppendAll (t : TerminalInput) : List UInt8 → List UInt8 × TerminalInput
  | [] => ([], t)
  | byte :: bytes =>
      let (taken, t) := terminalAppend t byte
      let (more, t) := terminalAppendAll t bytes
      (taken ++ more, t)

def controlled (event : KeyEvent) : UInt8 :=
  let byte := event.character
  if event.modifiers &&& keyboardModifierControl ≠ 0 then
    let lower := 0x61 ≤ byte ∧ byte ≤ 0x7A
    let upper := 0x41 ≤ byte ∧ byte ≤ 0x5A
    if lower ∨ upper then byte &&& 0x1F else byte
  else byte

def terminalTranslate (t : TerminalInput) (event : KeyEvent) : List UInt8 × TerminalInput :=
  if !event.pressed then ([], t)
  else if event.character ≠ 0 then terminalAppend t (controlled event)
  else if event.extended then
    match terminalSequenceForScancode event.scancode with
    | none => ([], t)
    | some sequence => terminalAppendAll { t with translated := t.translated + 1 } sequence
  else ([], t)

/-- The loop of `TerminalPoll` over the keyboard's events. -/
def terminalPollKeyboard (t : TerminalInput) : List KeyEvent → List TerminalEvent × TerminalInput
  | [] => ([], t)
  | event :: events =>
      let (taken, t) := terminalTranslate { t with keyboard := events } event
      let (more, t) := terminalPollKeyboard t events
      (.key event taken :: more, t)

/-- The loop of `TerminalPoll` over the characters of the serial line. -/
def terminalPollSerial (t : TerminalInput) : List TerminalEvent × TerminalInput :=
  let (taken, t') := terminalAppendAll { t with serial := [] } t.serial
  ([.serial t.serial taken], t')

def terminalPoll (t : TerminalInput) : List TerminalEvent × TerminalInput :=
  let (keys, t) := if t.keyboardDetached then ([], t) else terminalPollKeyboard t t.keyboard
  let (line, t) := terminalPollSerial t
  (keys ++ line, t)

def signalOf (byte : UInt8) : Option ℕ :=
  if byte = terminalInterruptByte then some syscallSigint
  else if byte = terminalSuspendByte then some syscallSigtstp
  else none

/-- The loop of `TerminalInterceptHead`, for so many bytes. -/
def terminalInterceptLoop : ℕ → TerminalInput → List TerminalEvent × TerminalInput
  | 0, t => ([], t)
  | fuel + 1, t =>
      if 0 < terminalQueued t then
        match signalOf (terminalHead t) with
        | none => ([], t)
        | some signal =>
            let taken := { t with readIndex := t.readIndex + 1, intercepted := t.intercepted + 1 }
            let (sent, taken) :=
              if t.foreground ≠ 0 then
                (some (t.foreground, signal), { taken with signalsSent := t.signalsSent + 1 })
              else (none, taken)
            let (more, t') := terminalInterceptLoop fuel taken
            (.intercepted (terminalHead t) sent :: more, t')
      else ([], t)

def terminalInterceptHead (t : TerminalInput) : List TerminalEvent × TerminalInput :=
  terminalInterceptLoop (terminalQueued t) t

def terminalHeadIsSignal (t : TerminalInput) : Bool :=
  0 < terminalQueued t && (signalOf (terminalHead t)).isSome

def terminalService (t : TerminalInput) : List TerminalEvent × TerminalInput :=
  let (polled, t) := terminalPoll t
  let (acted, t) := terminalInterceptHead t
  (polled ++ acted, t)

/-- The loop of `TerminalRead`, for so many bytes. -/
def terminalReadLoop : ℕ → TerminalInput → List UInt8 × TerminalInput
  | 0, t => ([], t)
  | capacity + 1, t =>
      if 0 < terminalQueued t ∧ !terminalHeadIsSignal t then
        let (more, t') := terminalReadLoop capacity { t with readIndex := t.readIndex + 1 }
        (terminalHead t :: more, t')
      else ([], t)

def terminalRead (t : TerminalInput) (capacity : ℕ) : List TerminalEvent × TerminalInput :=
  if capacity = 0 then ([], t)
  else
    let (polled, t) := terminalPoll t
    let (acted, t) := terminalInterceptHead t
    let (bytes, t) := terminalReadLoop capacity t
    (polled ++ acted ++ [.read bytes],
      { t with delivered := t.delivered + UInt64.ofNat bytes.length })

/-- What happens to the terminal: a key is pressed or released, a character comes upon the serial
line, and the kernel calls it. -/
inductive TerminalCall
  | press (event : KeyEvent)
  | receive (byte : UInt8)
  | service
  | read (capacity : ℕ)
  | setForegroundGroup (group : UInt64)
  deriving DecidableEq, Repr

/-- One call, with what is seen of it.  A driver whose buffer is full drops what has come. -/
def TerminalCall.step (t : TerminalInput) : TerminalCall → List TerminalEvent × TerminalInput
  | .press event =>
      ([], if t.keyboard.length < keyboardBufferCapacity then
        { t with keyboard := t.keyboard ++ [event] } else t)
  | .receive byte =>
      ([], if t.serial.length < serialReceiveBufferCapacity then
        { t with serial := t.serial ++ [byte] } else t)
  | .service => terminalService t
  | .read capacity => terminalRead t capacity
  | .setForegroundGroup group => ([.foreground group], { t with foreground := group })

def terminalRun (t : TerminalInput) : List TerminalCall → List TerminalEvent × TerminalInput
  | [] => ([], t)
  | call :: calls =>
      let (seen, t) := call.step t
      let (more, t) := terminalRun t calls
      (seen ++ more, t)

end OxysOS.Terminal
