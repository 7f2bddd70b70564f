import OxysOS.Proc.JobControl
import OxysOS.Proc.SignalFrame
import Mathlib.Data.BitVec

/-!
# How a process ends

A process ends by `exit`, by a fault or by a signal, each through `ThreadTerminateCurrent`, and what
`waitpid` reports of it is the status that is recorded there.
-/

namespace OxysOS.Proc

def syscallStatusKindExited : Word := 0

def syscallStatusKindSignalled : Word := 1

def syscallStatusKindStopped : Word := 2

def syscallStatusMake (kind number : Word) : Word := (kind <<< 8) ||| (number &&& 0xFF)

def syscallStatusKind (status : Word) : Word := (status >>> 8) &&& 0xFF

def syscallStatusNumber (status : Word) : Word := status &&& 0xFF

def signalFromVector (vector : Word) : Word :=
  if vector = 0 ∨ vector = 19 then 8
  else if vector = 1 ∨ vector = 3 then 5
  else if vector = 4 ∨ vector = 6 then 4
  else if vector = 17 then 7
  else 11

theorem toNat_syscallStatusMake {kind : Word} (number : Word) (hkind : kind.toNat < 256) :
    (syscallStatusMake kind number).toNat = kind.toNat * 256 + number.toNat % 256 := by
  have hlow : number.toNat &&& 255 = number.toNat % 256 :=
    Nat.and_two_pow_sub_one_eq_mod number.toNat 8
  have hlt : number.toNat % 256 < 2 ^ 8 := Nat.mod_lt _ (by decide)
  have hor := Nat.shiftLeft_add_eq_or_of_lt hlt kind.toNat
  have hshift : kind.toNat <<< 8 = kind.toNat * 256 := Nat.shiftLeft_eq _ 8
  unfold syscallStatusMake
  rw [BitVec.toNat_or, BitVec.toNat_and, BitVec.toNat_shiftLeft, hshift,
    Nat.mod_eq_of_lt (by omega)]
  change _ ||| (number.toNat &&& 255) = _
  rw [hlow, ← hshift, ← hor]

theorem syscallStatusKind_make {kind : Word} (number : Word) (hkind : kind.toNat < 256) :
    syscallStatusKind (syscallStatusMake kind number) = kind := by
  have hmask := Nat.and_two_pow_sub_one_eq_mod ((kind.toNat * 256 + number.toNat % 256) / 2 ^ 8) 8
  apply BitVec.eq_of_toNat_eq
  unfold syscallStatusKind
  rw [BitVec.toNat_and, BitVec.toNat_ushiftRight, toNat_syscallStatusMake number hkind,
    Nat.shiftRight_eq_div_pow]
  refine hmask.trans ?_
  omega

theorem syscallStatusNumber_make {kind : Word} (number : Word) (hkind : kind.toNat < 256) :
    syscallStatusNumber (syscallStatusMake kind number) = number &&& 0xFF := by
  have hmask := Nat.and_two_pow_sub_one_eq_mod (kind.toNat * 256 + number.toNat % 256) 8
  have hmask' := Nat.and_two_pow_sub_one_eq_mod number.toNat 8
  apply BitVec.eq_of_toNat_eq
  unfold syscallStatusNumber
  rw [BitVec.toNat_and, BitVec.toNat_and, toNat_syscallStatusMake number hkind]
  refine hmask.trans (Eq.trans ?_ hmask'.symm)
  omega

/-- `Process`, as far as what `wait` reports of it is concerned. -/
structure Waited where
  state : JobControl.ProcessState
  exitStatus : Word
  waitStatus : Word
  stopSignal : Word
  terminationSignal : Word
  stopReported : Bool

/-- The fields as `ProcessCreate` sets them. -/
def processCreated : Waited := ⟨.created, 0, 0, 0, 0, false⟩

def int64Negate (value : Word) : Option Word :=
  if value = 0x8000000000000000 then none else some (-value)

/-- `ThreadTerminateCurrent`, as far as the owner of the thread is concerned. -/
def threadTerminateCurrent (owner : Waited) (status : Word) : Option Waited :=
  let owner := { owner with state := .exited, exitStatus := status }
  if owner.terminationSignal ≠ 0 then
    some { owner with
      waitStatus := syscallStatusMake syscallStatusKindSignalled owner.terminationSignal }
  else if status.toInt < 0 then
    (int64Negate status).map fun vector ↦ { owner with
      waitStatus := syscallStatusMake syscallStatusKindSignalled (signalFromVector vector) }
  else some { owner with waitStatus := syscallStatusMake syscallStatusKindExited status }

def processExit (process : Waited) (status : Word) : Option Waited :=
  threadTerminateCurrent process status

def syscallDoExit (process : Waited) (status : Word) : Option Waited := processExit process status

def exceptionEndProgram (process : Waited) (vector : Word) : Option Waited :=
  (int64Negate vector).bind (threadTerminateCurrent process)

def signalTerminate (process : Waited) (signal : ℕ) : Option Waited :=
  processExit { process with terminationSignal := BitVec.ofNat 64 signal }
    (-BitVec.ofNat 64 (128 + signal))

/-- `SignalStopCurrent`, up to where the process sleeps. -/
def signalStopCurrent (process : Waited) (signal : ℕ) : Waited :=
  { process with
    state := .stopped
    stopSignal := BitVec.ofNat 64 signal
    stopReported := false
    waitStatus := syscallStatusMake syscallStatusKindStopped (BitVec.ofNat 64 signal) }

/-- What `ProcessWaitFor` reports of a child that has ended. -/
def processWaitFor (child : Waited) : Option Word :=
  if child.state = .exited then some child.waitStatus else none

structure TerminatingSignal where
  number : ℕ
  valid : signalNumberIsValid number = true
  terminates : signalDefaultAction number = .terminate

inductive Ending
  | exit (status : Word)
  | fault (vector : Word)
  | signalled (signal : TerminatingSignal)

def Ending.of (process : Waited) : Ending → Option Waited
  | exit status => syscallDoExit process status
  | fault vector => exceptionEndProgram process vector
  | signalled signal => signalTerminate process signal.number

inductive Befalls
  | stop (signal : ℕ)
  | report
  | resume

def Waited.after (process : Waited) : Befalls → Waited
  | .stop signal => signalStopCurrent process signal
  | .report => { process with stopReported := true }
  | .resume => { process with state := .ready, stopSignal := 0, stopReported := false }

def lived (life : List Befalls) : Waited := life.foldl Waited.after processCreated

/-- The status tells the ending: the kind of it, and the low eight bits of what was passed to `exit`
or the signal. -/
def Ending.ToldBy (status : Word) : Ending → Prop
  | exit value => syscallStatusKind status = syscallStatusKindExited ∧
      syscallStatusNumber status = value &&& 0xFF
  | fault vector => syscallStatusKind status = syscallStatusKindSignalled ∧
      syscallStatusNumber status = signalFromVector vector
  | signalled signal => syscallStatusKind status = syscallStatusKindSignalled ∧
      syscallStatusNumber status = BitVec.ofNat 64 signal.number

def Ending.Told (life : List Befalls) (ending : Ending) : Prop :=
  ∃ status, (ending.of (lived life)).bind processWaitFor = some status ∧ ending.ToldBy status

/-- The endings that are told: an exit with a value that is not negative, a fault of a vector other
than the first, and every signal. -/
def Ending.Tellable : Ending → Prop
  | exit value => 0 ≤ value.toInt
  | fault vector => 0 < vector.toInt
  | signalled _ => True

theorem lived_terminationSignal (life : List Befalls) : (lived life).terminationSignal = 0 := by
  have hall : ∀ process : Waited, process.terminationSignal = 0 →
      (life.foldl Waited.after process).terminationSignal = 0 := by
    induction life with
    | nil => exact fun _ h ↦ h
    | cons event life ih =>
        intro process h
        exact ih _ (by cases event <;> exact h)
  exact hall processCreated rfl

theorem signalFromVector_and (vector : Word) :
    signalFromVector vector &&& 0xFF = signalFromVector vector := by
  unfold signalFromVector
  split_ifs <;> rfl

theorem TerminatingSignal.lt (signal : TerminatingSignal) :
    0 < signal.number ∧ signal.number ≤ 31 := by
  have hvalid := signal.valid
  unfold signalNumberIsValid syscallSignalMaximum at hvalid
  rw [Bool.and_eq_true, decide_eq_true_eq, decide_eq_true_eq] at hvalid
  exact hvalid

theorem TerminatingSignal.and (signal : TerminatingSignal) :
    BitVec.ofNat 64 signal.number &&& 0xFF = BitVec.ofNat 64 signal.number := by
  have hlt := signal.lt
  have hmask := Nat.and_two_pow_sub_one_eq_mod signal.number 8
  apply BitVec.eq_of_toNat_eq
  rw [BitVec.toNat_and, BitVec.toNat_ofNat, Nat.mod_eq_of_lt (by omega)]
  exact hmask.trans (Nat.mod_eq_of_lt (by omega))

theorem threadTerminateCurrent_reported {owner : Waited} (h : owner.terminationSignal = 0)
    (status : Word) :
    (threadTerminateCurrent owner status).bind processWaitFor =
      if status.toInt < 0 then
        (int64Negate status).map fun vector ↦
          syscallStatusMake syscallStatusKindSignalled (signalFromVector vector)
      else some (syscallStatusMake syscallStatusKindExited status) := by
  unfold threadTerminateCurrent
  simp only [h, ne_eq, not_true_eq_false, if_false]
  split_ifs
  · cases int64Negate status <;> simp [processWaitFor]
  · simp [processWaitFor]

theorem threadTerminateCurrent_signalled {owner : Waited} (h : owner.terminationSignal ≠ 0)
    (status : Word) : (threadTerminateCurrent owner status).bind processWaitFor =
      some (syscallStatusMake syscallStatusKindSignalled owner.terminationSignal) := by
  unfold threadTerminateCurrent
  dsimp only
  rw [if_pos h]
  rfl

theorem told_exit_iff (life : List Befalls) (value : Word) :
    (Ending.exit value).Told life ↔ 0 ≤ value.toInt := by
  have hreport := threadTerminateCurrent_reported (lived_terminationSignal life) value
  unfold Ending.Told Ending.of syscallDoExit processExit
  rw [hreport]
  by_cases hnegative : value.toInt < 0
  · rw [if_pos hnegative]
    refine iff_of_false ?_ (by omega)
    rintro ⟨status, hstatus, hkind, -⟩
    obtain ⟨vector, -, rfl⟩ := Option.map_eq_some_iff.mp hstatus
    rw [syscallStatusKind_make _ (by decide)] at hkind
    exact absurd hkind (by decide)
  · rw [if_neg hnegative]
    refine iff_of_true ⟨_, rfl, ?_, ?_⟩ (by omega)
    · exact syscallStatusKind_make _ (by decide)
    · exact syscallStatusNumber_make _ (by decide)

theorem toInt_negate {value negated : Word} (h : int64Negate value = some negated) :
    negated.toInt = -value.toInt := by
  unfold int64Negate at h
  split_ifs at h with hleast
  cases h
  have hne : value ≠ BitVec.intMin 64 := hleast
  rw [BitVec.toInt_neg_of_ne_intMin hne]

theorem int64Negate_negate {value negated : Word} (h : int64Negate value = some negated) :
    int64Negate negated = some value := by
  have hsign := toInt_negate h
  have hlow := BitVec.toInt_lt (x := value)
  unfold int64Negate at h ⊢
  split_ifs at h with hleast
  cases h
  have hne : -value ≠ 0x8000000000000000 := by
    intro heq
    rw [heq] at hsign
    have hmin : (0x8000000000000000 : Word).toInt = -2 ^ 63 := by decide
    omega
  rw [if_neg hne, BitVec.neg_neg]

theorem told_fault_iff (life : List Befalls) (vector : Word) :
    (Ending.fault vector).Told life ↔ 0 < vector.toInt := by
  unfold Ending.Told Ending.of exceptionEndProgram
  rw [Option.bind_assoc]
  cases hnegate : int64Negate vector with
  | none =>
      refine iff_of_false (fun ⟨_, hstatus, _⟩ ↦ absurd hstatus (by simp)) ?_
      unfold int64Negate at hnegate
      split_ifs at hnegate with hleast
      rw [hleast]
      decide
  | some status =>
      have hreport := threadTerminateCurrent_reported (lived_terminationSignal life) status
      have hsign := toInt_negate hnegate
      rw [Option.bind_some, hreport]
      by_cases hnegative : status.toInt < 0
      · rw [if_pos hnegative, int64Negate_negate hnegate]
        refine iff_of_true ⟨_, rfl, ?_, ?_⟩ (by omega)
        · exact syscallStatusKind_make _ (by decide)
        · exact (syscallStatusNumber_make _ (by decide)).trans (signalFromVector_and vector)
      · rw [if_neg hnegative]
        refine iff_of_false ?_ (by omega)
        rintro ⟨_, hstatus, hkind, -⟩
        cases hstatus
        rw [syscallStatusKind_make _ (by decide)] at hkind
        exact absurd hkind (by decide)

theorem told_signalled (life : List Befalls) (signal : TerminatingSignal) :
    (Ending.signalled signal).Told life := by
  have hlt := signal.lt
  have hsome : BitVec.ofNat 64 signal.number ≠ 0 := by
    intro hzero
    have := congrArg BitVec.toNat hzero
    rw [BitVec.toNat_ofNat, Nat.mod_eq_of_lt (by omega)] at this
    change signal.number = 0 at this
    omega
  refine ⟨syscallStatusMake syscallStatusKindSignalled (BitVec.ofNat 64 signal.number), ?_, ?_, ?_⟩
  · exact threadTerminateCurrent_signalled hsome _
  · exact syscallStatusKind_make _ (by decide)
  · exact (syscallStatusNumber_make _ (by decide)).trans signal.and

/-- A status tells how a process ended exactly where it did not exit with a negative value and was
not ended by the first of the vectors. -/
theorem ending_told_iff (life : List Befalls) (ending : Ending) :
    ending.Told life ↔ ending.Tellable := by
  cases ending with
  | exit value => exact told_exit_iff life value
  | fault vector => exact told_fault_iff life vector
  | signalled signal => exact iff_of_true (told_signalled life signal) True.intro

/-- A program of the C library that exits with a negative status is reported as ended by a signal, and
one that divides by zero as having exited. -/
theorem not_ending_told : ¬∀ life ending, Ending.Told life ending := by
  intro h
  have htold := (told_exit_iff [] ((-1 : BitVec 32).signExtend 64)).mp (h [] _)
  exact absurd htold (by decide)

end OxysOS.Proc
