import OxysOS.Proc.Signal
import OxysOS.Proc.Wait

/-!
# Stopping and continuing

The whole of `SignalSend` of `kernel/proc/signal.c`, and the stop and the
continue beside it.  A system call runs with interrupts masked and a user thread
is taken from the processor only outside the kernel, so that each call here is
one step.
-/

namespace OxysOS.Proc.JobControl

/-- What an address given to `SchedulerSleep` stands for. -/
inductive Channel
  /-- `&process->stop_channel` -/
  | stop (process : ℕ)
  /-- The process itself, upon which `wait` sleeps. -/
  | process (process : ℕ)
  | other (address : ℕ)
  deriving DecidableEq

inductive ProcessState
  | unused | created | ready | running | blocked | stopped | exited
  deriving DecidableEq

/-- `Process`, as far as signals and job control read it; `thread` is
`threads[0]`, where there is one. -/
structure Process where
  used : Bool
  state : ProcessState
  id : ℕ
  parentId : ℕ
  group : ℕ
  handlers : ℕ → Word
  pending : BitVec 32
  restorer : Word
  stopSignal : ℕ
  stopReported : Bool
  thread : Option ℕ

structure System where
  processes : ℕ → Process
  threads : ℕ → Thread Channel
  slots : ℕ
  online : ℕ

def Process.Live (process : Process) : Prop :=
  process.used = true ∧ process.state ≠ .exited ∧ process.state ≠ .unused

instance (process : Process) : Decidable process.Live := by
  unfold Process.Live
  infer_instance

namespace System

variable (s : System) (p q t : ℕ)

def edit (f : Process → Process) : System :=
  { s with processes := Function.update s.processes p (f (s.processes p)) }

def wake (channel : Channel) : System :=
  { s with threads := schedulerWake s.online channel s.threads }

def editThread (f : Thread Channel → Thread Channel) : System :=
  { s with threads := Function.update s.threads t (f (s.threads t)) }

/-- `SchedulerWakeThread` of a thread that may be `NULL`. -/
def wakeThread (thread : Option ℕ) : System :=
  match thread with
  | none => s
  | some t => s.editThread t (schedulerWakeThread s.online)

def setPending (f : BitVec 32 → BitVec 32) : System :=
  s.edit p fun process ↦ { process with pending := f process.pending }

def processById (id : ℕ) : Option ℕ :=
  if id = 0 then none
  else (List.range s.slots).find? fun p ↦ (s.processes p).used && (s.processes p).id = id

def signalContinue : System :=
  if (s.processes p).used = false ∨ (s.processes p).state ≠ .stopped then s
  else
    (s.edit p fun process ↦
      { process with state := .ready, stopSignal := 0, stopReported := false }).wake (.stop p)

/-- The end of `SignalSend`: the bit is set, and whoever the signal reaches is
woken. -/
def signalRaise (signal : ℕ) : System :=
  let s := s.setPending p (· ||| signalBit signal)
  if (s.processes p).state = .stopped then
    if signal = syscallSigkill then s.signalContinue p else s
  else s.wakeThread (s.processes p).thread

/-- `SignalSend` of `SIGCONT`, where the process does not ignore it. -/
def signalSendContinue : System :=
  let s := s.setPending p (· &&& ~~~signalStopMask)
  let handled := (s.processes p).handlers syscallSigcont ≠ syscallSignalDefault
  if (s.processes p).state = .stopped then
    let s := s.signalContinue p
    if handled then s.setPending p (· ||| signalBit syscallSigcont) else s
  else if handled then s.signalRaise p syscallSigcont
  else s

def signalSend (process : Option ℕ) (signal : ℕ) : Bool × System :=
  match process with
  | none => (false, s)
  | some p =>
      if ¬(s.processes p).Live then (false, s)
      else if signal = 0 then (true, s)
      else if signalNumberIsValid signal = false then (false, s)
      else if (s.processes p).handlers signal = syscallSignalIgnore then (true, s)
      else if (s.processes p).handlers signal = syscallSignalDefault ∧
          signalDefaultAction signal = .ignore then (true, s)
      else if signal = syscallSigcont then (true, s.signalSendContinue p)
      else if signalIsStop signal then
        (true, (s.setPending p (· &&& ~~~signalBit syscallSigcont)).signalRaise p signal)
      else (true, s.signalRaise p signal)

/-- The loop of `SignalSendGroup` -/
def signalSendGroupFrom (group signal : ℕ) : List ℕ → System → ℕ × System
  | [], s => (0, s)
  | p :: rest, s =>
      if (s.processes p).used = false ∨ (s.processes p).group ≠ group ∨
          (s.processes p).state = .exited then signalSendGroupFrom group signal rest s
      else
        let (sent, s) := s.signalSend (some p) signal
        let (reached, s) := signalSendGroupFrom group signal rest s
        (reached + sent.toNat, s)

def signalSendGroup (group signal : ℕ) : ℕ × System :=
  if group = 0 then (0, s) else signalSendGroupFrom group signal (List.range s.slots) s

/-- A turn of the loop of `SignalStopCurrent`. -/
def sleepStopped : System :=
  match (s.processes p).thread with
  | none => s
  | some t =>
      if (s.processes p).state = .stopped ∧ (s.threads t).canSleep then
        s.editThread t (schedulerSleep (.stop p))
      else s

/-- `SignalStopCurrent`, up to where the processor is given away. -/
def signalStopCurrent (signal : ℕ) : System :=
  if (s.processes p).used = false then s
  else
    let s := s.edit p fun process ↦
      { process with state := .stopped, stopSignal := signal, stopReported := false }
    let parent := s.processById (s.processes p).parentId
    let s := match parent with
      | none => s
      | some parent => ((s.wake (.process parent)).signalSend (some parent) syscallSigchld).2
    s.sleepStopped p

end System

def Process.signals (process : Process) : Signals where
  handlers := process.handlers
  pending := process.pending
  restorer := process.restorer
  stopped := process.state = .stopped

def Process.withSignals (process : Process) (signals : Signals) : Process :=
  { process with
    handlers := signals.handlers, pending := signals.pending, restorer := signals.restorer }

/-- What `ProcessAllocate` makes of a slot, and `ProcessFork` after it. -/
def Process.made (process : Process) (id : ℕ) (parent : Option Process) (thread : ℕ) : Process :=
  { process with
    used := true, state := if parent.isSome then .ready else .created, id := id
    parentId := (parent.map Process.id).getD 0, group := (parent.map Process.group).getD id
    handlers := (parent.map Process.handlers).getD fun _ ↦ syscallSignalDefault
    pending := 0, restorer := (parent.map Process.restorer).getD 0
    stopSignal := 0, stopReported := false, thread := some thread }

/-- A thread as `ThreadCreate` makes it, once `SchedulerAdmit` has queued it. -/
def admittedThread : Thread Channel where
  state := .ready
  queued := true
  waitChannel := none
  affinity := 1
  canSleep := true

inductive Event
  | send (process : Option ℕ) (signal : ℕ)
  | sendGroup (group signal : ℕ)
  | setDisposition (process signal : ℕ) (disposition restorer : Word)
  | resetForExecute (process : ℕ)
  | take (process : ℕ)
  /-- The delivery of a stop upon the process's own thread. -/
  | stopCurrent (process signal : ℕ)
  /-- A call that sleeps. -/
  | sleep (process address : ℕ)
  | wake (channel : Channel)
  | wakeThread (thread : ℕ)
  /-- The process's thread is given the processor. -/
  | dispatch (process : ℕ)
  /-- It is taken from it and stays runnable. -/
  | requeue (process : ℕ)
  | create (parent : Option ℕ) (process id thread : ℕ)
  | exit (process : ℕ)
  | destroy (process : ℕ)

namespace System

variable (s : System) (p q t : ℕ)

/-- The thread of the process, if it runs and is not in the loop of
`SignalStopCurrent`. -/
def runs : Option ℕ :=
  (s.processes p).thread.filter fun t ↦
    (s.threads t).state = .running ∧ (s.processes p).Live ∧ (s.processes p).state ≠ .stopped

def Free : Prop :=
  (s.processes p).used = false ∧
    ∀ q < s.slots, (s.processes q).used = true → (s.processes q).thread ≠ some t

instance : Decidable (s.Free p t) := by
  unfold Free
  infer_instance

def step : Event → System
  | .send process signal => (s.signalSend process signal).2
  | .sendGroup group signal => (s.signalSendGroup group signal).2
  | .setDisposition p signal disposition restorer =>
      if (s.processes p).used then
        match (s.processes p).signals.setDisposition signal disposition restorer with
        | none => s
        | some (_, signals) => s.edit p fun process ↦ process.withSignals signals
      else s
  | .resetForExecute p => s.edit p fun process ↦ process.withSignals process.signals.resetForExecute
  | .take p => s.edit p fun process ↦ process.withSignals process.signals.take.2
  | .stopCurrent p signal => if (s.runs p).isSome then s.signalStopCurrent p signal else s
  | .sleep p address =>
      match s.runs p with
      | none => s
      | some t =>
          if (s.threads t).canSleep then s.editThread t (schedulerSleep (.other address)) else s
  | .wake channel => s.wake channel
  | .wakeThread t => s.wakeThread (some t)
  | .dispatch p =>
      match (s.processes p).thread with
      | none => s
      | some t =>
          if (s.threads t).state = .ready then
            (s.editThread t fun thread ↦ schedulerAwake (schedulerDispatch thread)).sleepStopped p
          else s
  | .requeue p =>
      match s.runs p with
      | none => s
      | some t => s.editThread t schedulerRequeue
  | .create parent p id t =>
      if p < s.slots ∧ s.Free p t then
        (s.edit p fun process ↦ process.made id (parent.map s.processes) t).editThread t
          fun _ ↦ admittedThread
      else s
  | .exit p =>
      match s.runs p with
      | none => s
      | some t =>
          (s.edit p fun process ↦ { process with state := .exited }).editThread t
            fun thread ↦ { thread with state := .exited }
  | .destroy p => s.edit p fun process ↦ { process with used := false, state := .unused, thread := none }

def start (slots others : ℕ) : System where
  processes _ :=
    { used := false, state := .unused, id := 0, parentId := 0, group := 0,
      handlers := fun _ ↦ syscallSignalDefault, pending := 0, restorer := 0, stopSignal := 0,
      stopReported := false, thread := none }
  threads _ :=
    { state := .exited, queued := false, waitChannel := none, affinity := 1, canSleep := true }
  slots := slots
  online := others + 1

def run (events : List Event) : System := events.foldl step s

end System

end OxysOS.Proc.JobControl
