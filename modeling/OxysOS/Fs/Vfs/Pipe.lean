import OxysOS.Fs.Vfs.File
import OxysOS.Library.Ring
import OxysOS.Proc.Wait

/-!
# The transfer through a pipe

`VfsPipeRead`, `VfsPipeWrite` and `VfsPipeReleaseEnd` of
`kernel/fs/vfs/pipe.c`, upon one pipe and by any number of threads.  A masked
section is one step; between two of them other threads may take any steps, a
signal may be sent and an end may be closed.  A thread's place in its call says
what its next section is.

Beside the state are recorded the bytes accepted, in pieces that name the write
they were of, and those delivered.
-/

namespace OxysOS.Fs

open OxysOS.Library OxysOS.Proc

def vfsPipeHeld (pipe : VfsPipe) : UInt64 := pipe.writeIndex - pipe.readIndex

def vfsPipeRoom (pipe : VfsPipe) : UInt64 := UInt64.ofNat vfsPipeBufferSize - vfsPipeHeld pipe

instance : NeZero vfsPipeBufferSize := ⟨by decide⟩

inductive ReadSection
  | transferred (bytes : List UInt8) (pipe : VfsPipe)
  | atEnd
  | empty

/-- The section of `VfsPipeRead`, up to its sleep. -/
def vfsPipeReadSection (pipe : VfsPipe) (length : ℕ) : ReadSection :=
  let held := (vfsPipeHeld pipe).toNat
  if 0 < held then
    let count := if held < length then held else length
    .transferred (ringRead pipe.buffer pipe.readIndex count)
      { pipe with readIndex := pipe.readIndex + UInt64.ofNat count }
  else if pipe.writers = 0 then .atEnd
  else .empty

inductive WriteSection
  | broken
  | put (count : ℕ) (pipe : VfsPipe)
  | full

def vfsPipeNeeded (remaining : ℕ) : ℕ := if remaining ≤ vfsPipeBufferSize then remaining else 1

/-- The section of `VfsPipeWrite`, up to its sleep, with the bytes that remain
to be written. -/
def vfsPipeWriteSection (pipe : VfsPipe) (remaining : List UInt8) : WriteSection :=
  if pipe.readers = 0 then .broken
  else
    let room := (vfsPipeRoom pipe).toNat
    if vfsPipeNeeded remaining.length ≤ room then
      let count := if room < remaining.length then room else remaining.length
      .put count
        { pipe with
          buffer := ringWrite pipe.buffer pipe.writeIndex (remaining.take count)
          writeIndex := pipe.writeIndex + UInt64.ofNat count }
    else .full

/-- One end fewer, as `VfsPipeReleaseEnd` begins. -/
def VfsPipe.released (pipe : VfsPipe) (reads : Bool) : VfsPipe :=
  if reads then if 0 < pipe.readers then { pipe with readers := pipe.readers - 1 } else pipe
  else if 0 < pipe.writers then { pipe with writers := pipe.writers - 1 }
  else pipe

/-- The slot is given up once neither end is open, as `VfsPipeReleaseEnd`
ends. -/
def VfsPipe.retired (pipe : VfsPipe) : VfsPipe :=
  if pipe.readers = 0 ∧ pipe.writers = 0 then { pipe with inUse := false } else pipe

inductive PipeChannel
  | pipe
  | pollers
  | elsewhere
  deriving DecidableEq

inductive PipeAnswer
  | read (length : ℕ) (bytes : List UInt8)
  | wrote (count : ℕ)
  | refused (code : VfsError) (count : ℕ)

/-- Where a thread stands in the call it makes of the pipe.  A write is named
by its place among the writes begun. -/
inductive PipePlace
  | outside
  | reading (length : ℕ)
  | readAsleep (length : ℕ)
  | readWaking (length : ℕ) (bytes : List UInt8)
  | writing (write : ℕ) (data : List UInt8) (written : ℕ)
  | writeAsleep (write : ℕ) (data : List UInt8) (written : ℕ)
  | writeWaking (write : ℕ) (data : List UInt8) (written : ℕ)
  | writeWakingPollers (write : ℕ) (data : List UInt8) (written : ℕ)
  | closeWaking
  | closeWakingPollers
  | returned (answer : PipeAnswer)

namespace PipePlace

def idle : PipePlace → Bool
  | .outside => true
  | .returned _ => true
  | _ => false

def sleeps : PipePlace → Bool
  | .readAsleep _ => true
  | .writeAsleep _ _ _ => true
  | _ => false

def wakes : PipePlace → Bool
  | .readWaking _ _ => true
  | .writeWaking _ _ _ => true
  | .closeWaking => true
  | _ => false

def write : PipePlace → Option (ℕ × List UInt8 × ℕ)
  | .writing write data written => some (write, data, written)
  | .writeAsleep write data written => some (write, data, written)
  | .writeWaking write data written => some (write, data, written)
  | .writeWakingPollers write data written => some (write, data, written)
  | _ => none

end PipePlace

structure PipeSystem (τ : Type) where
  pipe : VfsPipe
  online : ℕ
  threads : τ → Thread PipeChannel
  places : τ → PipePlace
  pending : τ → Bool
  writes : List (List UInt8)
  accepted : List (ℕ × List UInt8)
  delivered : List UInt8

namespace PipeSystem

variable {τ : Type} [DecidableEq τ]

def stream (s : PipeSystem τ) : List UInt8 := s.accepted.flatMap Prod.snd

def piecesOf (s : PipeSystem τ) (write : ℕ) : List (List UInt8) :=
  (s.accepted.filter fun piece ↦ piece.1 = write).map Prod.snd

def go (s : PipeSystem τ) (t : τ) (place : PipePlace) : PipeSystem τ :=
  { s with places := Function.update s.places t place }

@[simp] theorem places_go_self {s : PipeSystem τ} {t : τ} {place : PipePlace} :
    (s.go t place).places t = place := Function.update_self ..

theorem places_go_ne {s : PipeSystem τ} {t u : τ} {place : PipePlace} (h : u ≠ t) :
    (s.go t place).places u = s.places u := Function.update_of_ne h ..

def schedule (s : PipeSystem τ) (t : τ) (f : Thread PipeChannel → Thread PipeChannel) :
    PipeSystem τ :=
  { s with threads := Function.update s.threads t (f (s.threads t)) }

@[simp] theorem threads_schedule_self {s : PipeSystem τ} {t : τ}
    {f : Thread PipeChannel → Thread PipeChannel} :
    (s.schedule t f).threads t = f (s.threads t) := Function.update_self ..

theorem threads_schedule_ne {s : PipeSystem τ} {t u : τ}
    {f : Thread PipeChannel → Thread PipeChannel} (h : u ≠ t) :
    (s.schedule t f).threads u = s.threads u := Function.update_of_ne h ..

def wake (s : PipeSystem τ) (channel : PipeChannel) : PipeSystem τ :=
  { s with threads := schedulerWake s.online channel s.threads }

/-- One turn of the loop of `VfsPipeRead`, up to the wake or the sleep. -/
def readTurn (s : PipeSystem τ) (t : τ) (length : ℕ) : PipeSystem τ :=
  match vfsPipeReadSection s.pipe length with
  | .transferred bytes pipe =>
      { s with pipe := pipe, delivered := s.delivered ++ bytes }.go t (.readWaking length bytes)
  | .atEnd => s.go t (.returned (.read length []))
  | .empty =>
      if (s.threads t).canSleep then
        (s.schedule t (schedulerSleep .pipe)).go t (.readAsleep length)
      else s.go t (.returned (.refused .busy 0))

/-- One turn of the loop of `VfsPipeWrite`, up to the wake or the sleep.  The
signal sent to a writer whose reader has gone is a step of its own. -/
def writeTurn (s : PipeSystem τ) (t : τ) (write : ℕ) (data : List UInt8) (written : ℕ) :
    PipeSystem τ :=
  if data.length ≤ written then s.go t (.returned (.wrote written))
  else
    match vfsPipeWriteSection s.pipe (data.drop written) with
    | .broken => s.go t (.returned (.refused .brokenPipe written))
    | .put count pipe =>
        { s with
          pipe := pipe
          accepted := s.accepted ++ [(write, (data.drop written).take count)] }.go t
            (.writeWaking write data (written + count))
    | .full =>
        if (s.threads t).canSleep then
          (s.schedule t (schedulerSleep .pipe)).go t (.writeAsleep write data written)
        else if 0 < written then s.go t (.returned (.wrote written))
        else s.go t (.returned (.refused .busy 0))

def advance (s : PipeSystem τ) (t : τ) : PipeSystem τ :=
  match s.places t with
  | .outside => s
  | .reading length => s.readTurn t length
  | .readAsleep length =>
      (s.schedule t schedulerAwake).go t
        (if s.pending t then .returned (.refused .interrupted 0) else .reading length)
  | .readWaking length bytes => (s.wake .pipe).go t (.returned (.read length bytes))
  | .writing write data written => s.writeTurn t write data written
  | .writeAsleep write data written =>
      (s.schedule t schedulerAwake).go t
        (if s.pending t then .returned (.refused .interrupted written)
        else .writing write data written)
  | .writeWaking write data written =>
      (s.wake .pipe).go t (.writeWakingPollers write data written)
  | .writeWakingPollers write data written =>
      (s.wake .pollers).go t (.writing write data written)
  | .closeWaking => (s.wake .pipe).go t .closeWakingPollers
  | .closeWakingPollers => { s.wake .pollers with pipe := s.pipe.retired }.go t .outside
  | .returned _ => s

inductive Step (s : PipeSystem τ) : PipeSystem τ → Prop
  | read (t : τ) (length : ℕ) (hrunning : (s.threads t).state = .running) (hidle : (s.places t).idle) :
      Step s (s.go t (.reading length))
  | write (t : τ) (data : List UInt8) (hrunning : (s.threads t).state = .running)
      (hidle : (s.places t).idle) :
      Step s ({ s with writes := s.writes ++ [data] }.go t (.writing s.writes.length data 0))
  | close (t : τ) (reads : Bool) (hrunning : (s.threads t).state = .running) (hidle : (s.places t).idle) :
      Step s ({ s with pipe := s.pipe.released reads }.go t .closeWaking)
  | advance (t : τ) (hrunning : (s.threads t).state = .running) : Step s (s.advance t)
  | dispatch (t : τ) (hready : (s.threads t).state = .ready) :
      Step s (s.schedule t schedulerDispatch)
  | preempt (t : τ) (hrunning : (s.threads t).state = .running) :
      Step s (s.schedule t schedulerRequeue)
  /-- A processor with nothing else to run: `SchedulerSleep` returns at once. -/
  | atOnce (t : τ) (hsleeps : (s.places t).sleeps) (hblocked : (s.threads t).state = .blocked) :
      Step s (s.schedule t schedulerAwake)
  /-- A signal is sent to the process the thread is of. -/
  | signal (t : τ) :
      Step s ({ s with pending := Function.update s.pending t true }.schedule t
        (schedulerWakeThread s.online))
  | taken (t : τ) (hidle : (s.places t).idle) :
      Step s { s with pending := Function.update s.pending t false }
  | online : Step s { s with online := s.online + 1 }
  /-- A thread that makes no call of the pipe does anything else. -/
  | elsewhere (t : τ) (thread : Thread PipeChannel) (hidle : (s.places t).idle)
      (hwakeable : Wakeable s.online thread) (hchannel : thread.waitChannel ≠ some .pipe) :
      Step s (s.schedule t fun _ ↦ thread)

/-- The system as `VfsPipeCreate` leaves it. -/
structure Created (s : PipeSystem τ) : Prop where
  pipe : s.pipe = { VfsPipe.zero with readers := 1, writers := 1, inUse := true }
  places : ∀ t, s.places t = .outside
  wakeable : ∀ t, Wakeable s.online (s.threads t)
  channel : ∀ t, (s.threads t).waitChannel ≠ some .pipe
  writes : s.writes = []
  accepted : s.accepted = []
  delivered : s.delivered = []

inductive Reachable : PipeSystem τ → Prop
  | created {s : PipeSystem τ} (h : Created s) : Reachable s
  | step {s s' : PipeSystem τ} (h : Reachable s) (hstep : Step s s') : Reachable s'

end PipeSystem

end OxysOS.Fs
