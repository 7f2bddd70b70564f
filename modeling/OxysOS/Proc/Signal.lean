import Mathlib.Data.Nat.Notation
import Mathlib.Logic.Function.Basic
import Mathlib.Tactic.SplitIfs

/-!
# Signals

`kernel/proc/signal.c`, for a process that is in use and has not exited.  Whom a
signal wakes, and the counts that are kept for the report, are not modelled.
-/

namespace OxysOS.Proc

abbrev Word := BitVec 64

def syscallSignalDefault : Word := 0
def syscallSignalIgnore : Word := 1

def syscallSignalMaximum : ℕ := 31

def syscallSigkill : ℕ := 9
def syscallSigsegv : ℕ := 11
def syscallSigchld : ℕ := 17
def syscallSigcont : ℕ := 18
def syscallSigstop : ℕ := 19
def syscallSigtstp : ℕ := 20
def syscallSigttin : ℕ := 21
def syscallSigttou : ℕ := 22

inductive SignalAction
  | terminate | ignore | resume | stop
  deriving DecidableEq

/-- `Process`, as far as signals are concerned. -/
structure Signals where
  handlers : ℕ → Word
  pending : BitVec 32
  restorer : Word
  stopped : Bool

def signalNumberIsValid (signal : ℕ) : Bool := 1 ≤ signal && signal ≤ syscallSignalMaximum

def signalBit (signal : ℕ) : BitVec 32 := 1 <<< signal

def signalIsStop (signal : ℕ) : Bool :=
  signal = syscallSigstop || signal = syscallSigtstp || signal = syscallSigttin ||
    signal = syscallSigttou

def signalStopMask : BitVec 32 :=
  signalBit syscallSigstop ||| signalBit syscallSigtstp ||| signalBit syscallSigttin |||
    signalBit syscallSigttou

def signalDefaultAction (signal : ℕ) : SignalAction :=
  if signal = syscallSigchld then .ignore
  else if signal = syscallSigcont then .resume
  else if signalIsStop signal then .stop
  else .terminate

namespace Signals

/-- `SignalDisposition` -/
def disposition (signals : Signals) (signal : ℕ) : Word :=
  if signalNumberIsValid signal then signals.handlers signal else syscallSignalDefault

/-- `SignalSetDisposition`: what the disposition was, unless it may not be set. -/
def setDisposition (signals : Signals) (signal : ℕ) (disposition restorer : Word) :
    Option (Word × Signals) :=
  if signalNumberIsValid signal = false then none
  else if signal = syscallSigkill ∨ signal = syscallSigstop then none
  else some (signals.handlers signal,
    { signals with
      handlers := Function.update signals.handlers signal disposition
      restorer := if disposition ≠ syscallSignalDefault then restorer else signals.restorer
      pending :=
        if disposition = syscallSignalIgnore then signals.pending &&& ~~~(signalBit signal)
        else signals.pending })

/-- `SignalResetForExecute` -/
def resetForExecute (signals : Signals) : Signals :=
  { signals with
    handlers := fun signal ↦
      if signalNumberIsValid signal ∧ signals.handlers signal ≠ syscallSignalIgnore then
        syscallSignalDefault
      else signals.handlers signal
    restorer := 0 }

/-- `SignalSend` -/
def send (signals : Signals) (signal : ℕ) : Bool × Signals :=
  if signal = 0 then (true, signals)
  else if signalNumberIsValid signal = false then (false, signals)
  else if signals.handlers signal = syscallSignalIgnore then (true, signals)
  else if signals.handlers signal = syscallSignalDefault ∧ signalDefaultAction signal = .ignore then
    (true, signals)
  else if signal = syscallSigcont then
    let pending := signals.pending &&& ~~~signalStopMask
    if signals.handlers signal = syscallSignalDefault then
      (true, { signals with pending := pending, stopped := false })
    else (true, { signals with pending := pending ||| signalBit signal, stopped := false })
  else
    let pending :=
      if signalIsStop signal then signals.pending &&& ~~~(signalBit syscallSigcont)
      else signals.pending
    (true, { signals with
      pending := pending ||| signalBit signal
      stopped := signals.stopped && signal ≠ syscallSigkill })

/-- `SignalIsPending` -/
def isPending (signals : Signals) : Bool := signals.pending ≠ 0

/-- `SignalTake`: the lowest signal that is pending, or zero. -/
def take (signals : Signals) : ℕ × Signals :=
  match ((List.range syscallSignalMaximum).map (· + 1)).find? fun signal ↦
      signals.pending &&& signalBit signal ≠ 0 with
  | none => (0, signals)
  | some signal => (signal, { signals with pending := signals.pending &&& ~~~(signalBit signal) })

def Sent (signals signals' : Signals) : Prop :=
  signals'.handlers = signals.handlers ∧ signals'.restorer = signals.restorer

theorem take_sent (signals : Signals) : signals.Sent signals.take.2 := by
  unfold take
  split <;> exact ⟨rfl, rfl⟩

theorem send_sent (signals : Signals) (signal : ℕ) : signals.Sent (signals.send signal).2 := by
  unfold send
  dsimp only
  split_ifs <;> exact ⟨rfl, rfl⟩

end Signals

end OxysOS.Proc
