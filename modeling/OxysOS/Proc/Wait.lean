import Mathlib.Data.Nat.Bitwise
import Mathlib.Logic.Function.Basic

/-!
# Wait channels

The part of `kernel/proc/sched.c` by which a thread sleeps upon a channel and
is woken from it.  A channel is named by what its address stands for.  Nothing
here depends upon which permitted processor is chosen.
-/

namespace OxysOS.Proc

def perCpuMaximum : ℕ := 64

inductive ThreadState
  | ready
  | running
  | blocked
  | exited
  deriving DecidableEq

/-- A thread in use, as far as sleeping and waking read it.  `canSleep` is what
`SchedulerCanSleep` answers when the thread runs. -/
structure Thread (χ : Type) where
  state : ThreadState
  queued : Bool
  waitChannel : Option χ
  affinity : ℕ
  canSleep : Bool

variable {χ τ : Type}

/-- Whether `SchedulerChooseProcessor` finds a processor. -/
def schedulerPlaces (online affinity : ℕ) : Bool :=
  (List.range (min online perCpuMaximum)).any affinity.testBit

def schedulerAdmit (online : ℕ) (thread : Thread χ) : Option (Thread χ) :=
  if thread.queued then none
  else if thread.state = .exited then none
  else if ¬schedulerPlaces online thread.affinity then none
  else some { thread with queued := true, state := .ready }

/-- What `SchedulerWake` does with one thread of the table. -/
def wakeFrom [DecidableEq χ] (online : ℕ) (channel : χ) (thread : Thread χ) : Thread χ :=
  if thread.state ≠ .blocked ∨ thread.waitChannel ≠ some channel then thread
  else
    let thread := { thread with waitChannel := none }
    (schedulerAdmit online thread).getD thread

def schedulerWake [DecidableEq χ] (online : ℕ) (channel : χ) (threads : τ → Thread χ) :
    τ → Thread χ :=
  fun t ↦ wakeFrom online channel (threads t)

def schedulerWakeThread (online : ℕ) (thread : Thread χ) : Thread χ :=
  if thread.state = .blocked ∧ thread.waitChannel.isSome then
    let thread := { thread with waitChannel := none }
    (schedulerAdmit online thread).getD thread
  else thread

/-- `SchedulerSleep`, up to where the processor is given away. -/
def schedulerSleep (channel : χ) (thread : Thread χ) : Thread χ :=
  { thread with waitChannel := some channel, state := .blocked }

/-- `SchedulerSleep`, from where the thread runs again. -/
def schedulerAwake (thread : Thread χ) : Thread χ :=
  { thread with waitChannel := none, state := .running }

def schedulerDispatch (thread : Thread χ) : Thread χ :=
  { thread with queued := false, state := .running }

def schedulerRequeue (thread : Thread χ) : Thread χ :=
  { thread with queued := true, state := .ready }

structure Wakeable (online : ℕ) (thread : Thread χ) : Prop where
  placed : schedulerPlaces online thread.affinity = true
  unqueued : thread.state = .blocked ∨ thread.state = .running → thread.queued = false

def readied (thread : Thread χ) : Thread χ :=
  { thread with waitChannel := none, queued := true, state := .ready }

theorem Wakeable.admits {online : ℕ} {thread : Thread χ} (h : Wakeable online thread)
    (hblocked : thread.state = .blocked) :
    schedulerAdmit online ({ thread with waitChannel := none } : Thread χ) =
      some (readied thread) := by
  unfold schedulerAdmit readied
  simp [h.placed, h.unqueued (Or.inl hblocked), hblocked]

theorem wakeFrom_eq [DecidableEq χ] {online : ℕ} {thread : Thread χ} {channel : χ}
    (h : Wakeable online thread) :
    wakeFrom online channel thread =
      if thread.state = .blocked ∧ thread.waitChannel = some channel then readied thread
      else thread := by
  unfold wakeFrom
  by_cases hblocked : thread.state = .blocked
  · by_cases hchannel : thread.waitChannel = some channel
    · dsimp only
      rw [h.admits hblocked]
      simp [hblocked, hchannel]
    · simp [hchannel]
  · simp [hblocked]

theorem schedulerWakeThread_eq {online : ℕ} {thread : Thread χ} (h : Wakeable online thread) :
    schedulerWakeThread online thread =
      if thread.state = .blocked ∧ thread.waitChannel.isSome then readied thread
      else thread := by
  unfold schedulerWakeThread
  by_cases hblocked : thread.state = .blocked
  · dsimp only
    rw [h.admits hblocked]
    simp
  · simp [hblocked]

end OxysOS.Proc
