import OxysOS.Library.Bytes
import OxysOS.Library.Decimal

/-!
# The operands of the job commands

`fg`, `bg` and `kill` read numbers of jobs, processes and signals, in three loops that do not bound
the digits.  A job's number is kept modulo the values that an unsigned number has, so that a long
operand names a job of a small number, and the sums of the two others overflow.
-/

namespace OxysOS.Shell

open OxysOS.Library

inductive ShellJobState
  | running | stopped | done
  deriving DecidableEq

structure ShellJob where
  group : ℕ
  memberStopped : List Bool
  state : ShellJobState
  background : Bool
  reported : Bool
  used : Bool
  text : List UInt8

/-- `ShellJobs`, and whether the shell has a terminal. -/
structure JobShell where
  jobs : List ShellJob
  hasTerminal : Bool

inductive JobRefusal
  | noTerminal | noCurrentJob | noSuchJob
  deriving DecidableEq

/-- The loop of `ShellJobNamed` over the bytes of an operand. -/
def shellJobDigits : List UInt8 → UInt32 → UInt32
  | [], number => number
  | byte :: text, number =>
      if isDecimal byte then shellJobDigits text (number * 10 + (byte - 0x30).toUInt32) else 0

def withoutPercent (operand : List UInt8) : List UInt8 :=
  if operand.head? = some (byteOf '%') then operand.tail else operand

def usedAt (jobs : List ShellJob) (index : ℕ) : Bool := (jobs[index]?).any ShellJob.used

/-- `ShellJobNamed`, with the place of the job in the table. -/
def shellJobNamed (jobs : List ShellJob) : Option (List UInt8) → Except JobRefusal ℕ
  | none =>
      match (List.range jobs.length).reverse.find? (usedAt jobs) with
      | some index => .ok index
      | none => .error .noCurrentJob
  | some operand =>
      let number := (shellJobDigits (withoutPercent operand) 0).toNat
      if number = 0 ∨ number > jobs.length ∨ usedAt jobs (number - 1) = false then
        .error .noSuchJob
      else .ok (number - 1)

def shellJobContinued (job : ShellJob) : ShellJob :=
  { job with
    memberStopped := job.memberStopped.map fun _ ↦ false
    state := .running
    reported := true }

inductive JobAction
  | print (text : List UInt8)
  | announce (number : ℕ) (text : List UInt8)
  | terminalGroup (group : ℕ)
  | kill (target : ℤ) (signal : ℕ)
  | waitForeground (index : ℕ)

def sigterm : ℕ := 15

def sigcont : ℕ := 18

/-- What comes of `fg` or `bg`: the job that it acts upon, and what it does. -/
structure JobOutcome where
  acted : Except JobRefusal ℕ
  jobs : List ShellJob
  actions : List JobAction

def jobCommand (shell : JobShell) (operand : Option (List UInt8))
    (act : ℕ → ShellJob → ShellJob × List JobAction) : JobOutcome :=
  if shell.hasTerminal = false then ⟨.error .noTerminal, shell.jobs, []⟩
  else match shellJobNamed shell.jobs operand with
    | .error refusal => ⟨.error refusal, shell.jobs, []⟩
    | .ok index =>
        match shell.jobs[index]? with
        | none => ⟨.ok index, shell.jobs, []⟩
        | some job =>
            let (job, actions) := act index job
            ⟨.ok index, shell.jobs.set index job, actions⟩

/-- `ShellJobForeground`, up to the wait for the job. -/
def shellJobForeground (shell : JobShell) (operand : Option (List UInt8)) : JobOutcome :=
  jobCommand shell operand fun index job ↦
    (shellJobContinued { job with background := false },
      [.print job.text, .terminalGroup job.group, .kill (-job.group) sigcont,
        .waitForeground index])

def shellJobBackground (shell : JobShell) (operand : Option (List UInt8)) : JobOutcome :=
  jobCommand shell operand fun index job ↦
    ({ shellJobContinued job with background := true },
      [.kill (-job.group) sigcont, .announce (index + 1) job.text])

inductive SignedOverflow
  | overflow
  deriving DecidableEq

/-- The loop that reads digits into a signed number of a greatest value, with nothing for -1, where
a byte is none. -/
def readSigned (greatest : ℕ) : List UInt8 → ℕ → Except SignedOverflow (Option ℕ)
  | [], number => .ok (some number)
  | byte :: text, number =>
      if isDecimal byte then
        let next := number * 10 + (byte.toNat - 0x30)
        if greatest < next then .error .overflow else readSigned greatest text next
      else .ok none

def shellSignalNames : List (List UInt8 × ℕ) :=
  [("HUP", 1), ("INT", 2), ("QUIT", 3), ("ILL", 4), ("TRAP", 5), ("ABRT", 6), ("BUS", 7),
    ("FPE", 8), ("KILL", 9), ("USR1", 10), ("SEGV", 11), ("USR2", 12), ("PIPE", 13), ("ALRM", 14),
    ("TERM", sigterm), ("CHLD", 17), ("CONT", sigcont), ("STOP", 19), ("TSTP", 20), ("TTIN", 21),
    ("TTOU", 22)].map fun name ↦ (name.1.toList.map byteOf, name.2)

def signalOfName (text : List UInt8) : Option ℕ :=
  let name := if text.take 3 = "SIG".toList.map byteOf then text.drop 3 else text
  (shellSignalNames.find? fun known ↦ known.1 = name).map Prod.snd

def intMax : ℕ := 2 ^ 31 - 1

def int64Max : ℕ := 2 ^ 63 - 1

/-- `ShellSignalByName`, with nothing for -1. -/
def shellSignalByName (text : List UInt8) : Except SignedOverflow (Option ℕ) :=
  if text.head?.any isDecimal then readSigned intMax text 0 else .ok (signalOfName text)

/-- What an operand of `kill` is taken for: the job at a place of the table, or a process. -/
inductive KillTarget
  | job (index : ℕ)
  | process (number : ℕ)
  deriving DecidableEq

/-- The number that `OxysKill` is given of a target. -/
def KillTarget.number (jobs : List ShellJob) : KillTarget → ℤ
  | .job index => -((jobs[index]?).map ShellJob.group).getD 0
  | .process number => number

/-- A call of `OxysKill` for an operand, and whether it continues what was sent a signal before. -/
structure KillCall where
  operand : List UInt8
  target : KillTarget
  number : ℤ
  signal : ℕ
  continues : Bool

/-- `ShellJobKill` as far as it has come. -/
structure KillRun where
  jobs : List ShellJob
  calls : List KillCall
  status : ℕ

/-- What an operand of `kill` is taken for, with nothing where it is refused. -/
def killTarget (hasTerminal : Bool) (jobs : List ShellJob) (operand : List UInt8) :
    Except SignedOverflow (Option KillTarget) :=
  if operand.head? = some (byteOf '%') then
    match shellJobNamed jobs (some operand) with
    | .error _ => .ok none
    | .ok index => .ok (if hasTerminal then some (.job index) else none)
  else match readSigned int64Max operand 0 with
    | .error fault => .error fault
    | .ok (some (number + 1)) => .ok (some (.process (number + 1)))
    | .ok _ => .ok none

def stopSignals : List ℕ := [19, 20, 21, 22]

/-- What `ShellJobKill` does once the signal of a call has been sent. -/
def killSent (call : KillCall) (run : KillRun) : KillRun :=
  match run.jobs.findIdx? fun job ↦ job.used && job.group = call.number.natAbs with
  | none => run
  | some index =>
      if call.signal = sigcont then
        { run with jobs := run.jobs.modify index shellJobContinued }
      else if (run.jobs[index]?).any (fun job ↦ job.state = .stopped) ∧
          call.signal ∉ stopSignals then
        { run with
          calls := run.calls ++ [{ call with signal := sigcont, continues := true }]
          jobs := run.jobs.modify index shellJobContinued }
      else run

/-- A turn of the loop of `ShellJobKill` upon a target, with the replies of the kernel to the calls:
whether the signal has been sent. -/
def killCalled (sent : ℕ → Bool) (signal : ℕ) (operand : List UInt8) (target : KillTarget)
    (run : KillRun) : KillRun :=
  let call : KillCall := ⟨operand, target, target.number run.jobs, signal, false⟩
  let called := { run with calls := run.calls ++ [call] }
  if sent run.calls.length then killSent call called else { called with status := 1 }

/-- The loop of `ShellJobKill` over the operands. -/
def shellJobKillTargets (hasTerminal : Bool) (sent : ℕ → Bool) (signal : ℕ) :
    List (List UInt8) → KillRun → Except SignedOverflow KillRun
  | [], run => .ok run
  | operand :: operands, run =>
      match killTarget hasTerminal run.jobs operand with
      | .error fault => .error fault
      | .ok none => shellJobKillTargets hasTerminal sent signal operands { run with status := 1 }
      | .ok (some target) =>
          shellJobKillTargets hasTerminal sent signal operands
            (killCalled sent signal operand target run)

/-- The operand that gives `kill` its signal, and the others. -/
def killArguments : List (List UInt8) → Option (List UInt8) × List (List UInt8)
  | [] => (none, [])
  | first :: rest =>
      if first.head? = some (byteOf '-') ∧ first.tail ≠ [] then (some first.tail, rest)
      else (none, first :: rest)

/-- The signal that `kill` sends, with nothing where it is refused. -/
def killSignal : Option (List UInt8) → Except SignedOverflow (Option ℕ)
  | none => .ok (some sigterm)
  | some text => shellSignalByName text

/-- `ShellJobKill`, of the arguments after the first. -/
def shellJobKill (shell : JobShell) (sent : ℕ → Bool) (arguments : List (List UInt8)) :
    Except SignedOverflow KillRun :=
  let (option, targets) := killArguments arguments
  match killSignal option with
  | .error fault => .error fault
  | .ok none => .ok ⟨shell.jobs, [], 1⟩
  | .ok (some signal) =>
      if targets = [] then .ok ⟨shell.jobs, [], 1⟩
      else shellJobKillTargets shell.hasTerminal sent signal targets ⟨shell.jobs, [], 0⟩

def Numeral (text : List UInt8) (value : ℕ) : Prop :=
  text ≠ [] ∧ text.all isDecimal = true ∧ decimalValue text = value

def NamesJob (operand : List UInt8) (index : ℕ) : Prop :=
  Numeral (withoutPercent operand) (index + 1)

def NamesTarget (operand : List UInt8) : KillTarget → Prop
  | .job index => operand.head? = some (byteOf '%') ∧ NamesJob operand index
  | .process number => Numeral operand number

/-- The option names a signal by its number or by its name, and without one it is `SIGTERM`. -/
def NamesSignal (option : Option (List UInt8)) (signal : ℕ) : Prop :=
  match option with
  | none => signal = sigterm
  | some text => Numeral text signal ∨ signalOfName text = some signal

theorem toNat_of_isDecimal {byte : UInt8} (h : isDecimal byte = true) :
    (byte - 0x30).toUInt32 = UInt32.ofNat (byte.toNat - 0x30) := by
  have hle : 0x30 ≤ byte := by
    simp only [isDecimal, Bool.and_eq_true, decide_eq_true_eq] at h
    exact h.1
  have hlt := byte.toNat_lt
  apply UInt32.toNat_inj.mp
  rw [UInt8.toNat_toUInt32, UInt8.toNat_sub_of_le _ _ hle, UInt32.toNat_ofNat']
  exact (Nat.mod_eq_of_lt (by omega)).symm

theorem shellJobDigits_eq {text : List UInt8} (h : text.all isDecimal = true) (value : ℕ) :
    shellJobDigits text (UInt32.ofNat value) =
      UInt32.ofNat (text.foldl (fun value byte ↦ value * 10 + (byte.toNat - 0x30)) value) := by
  induction text generalizing value with
  | nil => rfl
  | cons byte text ih =>
      simp only [List.all_cons, Bool.and_eq_true] at h
      have hnext : UInt32.ofNat value * 10 + (byte - 0x30).toUInt32 =
          UInt32.ofNat (value * 10 + (byte.toNat - 0x30)) := by
        rw [toNat_of_isDecimal h.1, UInt32.ofNat_add, UInt32.ofNat_mul]
        rfl
      rw [shellJobDigits, if_pos h.1, hnext, ih h.2, List.foldl_cons]

theorem shellJobDigits_of_not {text : List UInt8} (h : text.all isDecimal = false)
    (number : UInt32) : shellJobDigits text number = 0 := by
  induction text generalizing number with
  | nil => simp at h
  | cons byte text ih =>
      by_cases hbyte : isDecimal byte = true
      · rw [shellJobDigits, if_pos hbyte]
        exact ih (by simpa [hbyte] using h) _
      · rw [shellJobDigits, if_neg hbyte]

variable {jobs : List ShellJob} {operand text : List UInt8} {index value : ℕ}

theorem usedAt_lt (h : usedAt jobs index = true) : index < jobs.length := by
  by_contra hle
  have hnone : jobs[index]? = none := List.getElem?_eq_none (by omega)
  simp [usedAt, hnone] at h

theorem shellJobNamed_iff :
    shellJobNamed jobs (some operand) = .ok index ↔
      (withoutPercent operand).all isDecimal = true ∧
        decimalValue (withoutPercent operand) % 2 ^ 32 = index + 1 ∧ usedAt jobs index = true := by
  cases hdigits : (withoutPercent operand).all isDecimal with
  | false => simp [shellJobNamed, shellJobDigits_of_not hdigits]
  | true =>
      have hnumber : (shellJobDigits (withoutPercent operand) 0).toNat =
          decimalValue (withoutPercent operand) % 2 ^ 32 := by
        have hread := shellJobDigits_eq hdigits 0
        rw [show (0 : UInt32) = UInt32.ofNat 0 from rfl, hread]
        exact UInt32.toNat_ofNat'
      simp only [shellJobNamed, hnumber, true_and]
      split
      · next hrefused =>
          simp only [reduceCtorEq, false_iff, not_and]
          intro hvalue hused
          have hlt := usedAt_lt hused
          rw [hvalue] at hrefused
          simp [hused] at hrefused
          omega
      · next hnamed =>
          simp only [not_or] at hnamed
          simp only [Except.ok.injEq]
          constructor
          · rintro rfl
            exact ⟨by omega, by simpa using hnamed.2.2⟩
          · rintro ⟨hvalue, -⟩
            omega

def JobSafe (jobs : List ShellJob) (operand : List UInt8) : Prop :=
  ∀ value, Numeral (withoutPercent operand) value → 2 ^ 32 ≤ value → 0 < value % 2 ^ 32 →
    usedAt jobs (value % 2 ^ 32 - 1) = false

theorem jobSafe_iff :
    (∀ index, shellJobNamed jobs (some operand) = .ok index → NamesJob operand index) ↔
      JobSafe jobs operand := by
  constructor
  · intro hnames value hnumeral hlarge hpositive
    by_contra hused
    obtain ⟨hne, hdigits, rfl⟩ := hnumeral
    have hnamed := hnames (decimalValue (withoutPercent operand) % 2 ^ 32 - 1)
      (shellJobNamed_iff.mpr ⟨hdigits, by omega, by simpa using hused⟩)
    have hvalue := hnamed.2.2
    omega
  · intro hsafe index hnamed
    obtain ⟨hdigits, hvalue, hused⟩ := shellJobNamed_iff.mp hnamed
    have hne : withoutPercent operand ≠ [] := by
      intro hnil
      rw [hnil] at hvalue
      simp [decimalValue] at hvalue
    refine ⟨hne, hdigits, ?_⟩
    by_cases hlarge : 2 ^ 32 ≤ decimalValue (withoutPercent operand)
    · have hnot := hsafe _ ⟨hne, hdigits, rfl⟩ hlarge (by omega)
      rw [hvalue, Nat.add_sub_cancel, hused] at hnot
      exact absurd hnot (by decide)
    · rw [← hvalue, Nat.mod_eq_of_lt (by omega)]

def SignedSafe (greatest : ℕ) (text : List UInt8) : Prop :=
  decimalValue (text.takeWhile isDecimal) ≤ greatest

theorem le_foldl_decimal (text : List UInt8) (value : ℕ) :
    value ≤ text.foldl (fun value byte ↦ value * 10 + (byte.toNat - 0x30)) value := by
  induction text generalizing value with
  | nil => exact Nat.le_refl _
  | cons byte text ih =>
      rw [List.foldl_cons]
      have hrest := ih (value * 10 + (byte.toNat - 0x30))
      omega

theorem readSigned_eq (greatest : ℕ) (text : List UInt8) {value : ℕ} (hvalue : value ≤ greatest) :
    readSigned greatest text value =
      if greatest < (text.takeWhile isDecimal).foldl
          (fun value byte ↦ value * 10 + (byte.toNat - 0x30)) value then .error .overflow
      else .ok (if text.all isDecimal = true then some (text.foldl
          (fun value byte ↦ value * 10 + (byte.toNat - 0x30)) value) else none) := by
  induction text generalizing value with
  | nil => simp [readSigned, Nat.not_lt.mpr hvalue]
  | cons byte text ih =>
      by_cases hbyte : isDecimal byte = true
      · by_cases hnext : greatest < value * 10 + (byte.toNat - 0x30)
        · have hle := le_foldl_decimal (text.takeWhile isDecimal)
            (value * 10 + (byte.toNat - 0x30))
          have hgreat := hnext.trans_le hle
          simp [readSigned, hbyte, hnext, hgreat]
        · simp [readSigned, hbyte, hnext, ih (Nat.not_lt.mp hnext)]
      · simp [readSigned, hbyte, Nat.not_lt.mpr hvalue]

theorem readSigned_of_safe {greatest : ℕ} (h : SignedSafe greatest text) :
    readSigned greatest text 0 =
      .ok (if text.all isDecimal = true then some (decimalValue text) else none) := by
  rw [readSigned_eq greatest text (Nat.zero_le _)]
  exact if_neg (Nat.not_lt.mpr h)

theorem readSigned_of_not_safe {greatest : ℕ} (h : ¬SignedSafe greatest text) :
    readSigned greatest text 0 = .error .overflow := by
  rw [readSigned_eq greatest text (Nat.zero_le _)]
  exact if_pos (Nat.not_le.mp h)

/-- An operand of `kill` of which the number is read as it is. -/
def OperandSafe (shell : JobShell) (operand : List UInt8) : Prop :=
  if operand.head? = some (byteOf '%') then
    shell.hasTerminal = true → JobSafe shell.jobs operand
  else SignedSafe int64Max operand

theorem numeral_of_readSigned {greatest : ℕ} (h : SignedSafe greatest text)
    (hread : readSigned greatest text 0 = .ok (some value)) (hvalue : 0 < value) :
    Numeral text value := by
  rw [readSigned_of_safe h] at hread
  by_cases hdigits : text.all isDecimal = true
  · simp only [hdigits, if_true, Except.ok.injEq, Option.some.injEq] at hread
    refine ⟨?_, hdigits, hread⟩
    rintro rfl
    exact hvalue.ne hread
  · simp [hdigits] at hread

variable {shell : JobShell}

theorem killTarget_of_safe (h : OperandSafe shell operand) :
    ∃ target, killTarget shell.hasTerminal shell.jobs operand = .ok target ∧
      ∀ named ∈ target, NamesTarget operand named := by
  by_cases hpercent : operand.head? = some (byteOf '%')
  · rw [OperandSafe, if_pos hpercent] at h
    cases hnamed : shellJobNamed shell.jobs (some operand) with
    | error refusal => exact ⟨none, by simp [killTarget, hpercent, hnamed], by simp⟩
    | ok index =>
        cases hterminal : shell.hasTerminal with
        | false => exact ⟨none, by simp [killTarget, hpercent, hnamed], by simp⟩
        | true =>
            refine ⟨some (.job index), by simp [killTarget, hpercent, hnamed], ?_⟩
            rintro named ⟨⟩
            exact ⟨hpercent, jobSafe_iff.mpr (h hterminal) index hnamed⟩
  · rw [OperandSafe, if_neg hpercent] at h
    cases hread : readSigned int64Max operand 0 with
    | error fault => simp [readSigned_of_safe h] at hread
    | ok number =>
        match number with
        | none => exact ⟨none, by simp [killTarget, hpercent, hread], by simp⟩
        | some 0 => exact ⟨none, by simp [killTarget, hpercent, hread], by simp⟩
        | some (value + 1) =>
            refine ⟨some (.process (value + 1)), by simp [killTarget, hpercent, hread], ?_⟩
            rintro named ⟨⟩
            exact numeral_of_readSigned h hread (Nat.succ_pos _)

theorem killTarget_of_not_safe (h : ¬OperandSafe shell operand) :
    killTarget shell.hasTerminal shell.jobs operand = .error .overflow ∨
      ∃ target, killTarget shell.hasTerminal shell.jobs operand = .ok (some target) ∧
        ¬NamesTarget operand target := by
  by_cases hpercent : operand.head? = some (byteOf '%')
  · rw [OperandSafe, if_pos hpercent, Classical.not_imp, ← jobSafe_iff] at h
    obtain ⟨hterminal, hnot⟩ := h
    simp only [not_forall] at hnot
    obtain ⟨index, hnamed, hother⟩ := hnot
    refine Or.inr ⟨.job index, by simp [killTarget, hpercent, hnamed, hterminal], ?_⟩
    rintro ⟨-, hnames⟩
    exact hother hnames
  · rw [OperandSafe, if_neg hpercent] at h
    exact Or.inl (by simp [killTarget, hpercent, readSigned_of_not_safe h])

def SameJobs (jobs jobs' : List ShellJob) : Prop :=
  jobs.map ShellJob.used = jobs'.map ShellJob.used

theorem usedAt_eq (jobs : List ShellJob) (index : ℕ) :
    usedAt jobs index = ((jobs.map ShellJob.used)[index]?).any id := by
  rw [List.getElem?_map, Option.any_map]
  rfl

theorem killTarget_congr {jobs jobs' : List ShellJob} (h : SameJobs jobs jobs')
    (hasTerminal : Bool) (operand : List UInt8) :
    killTarget hasTerminal jobs operand = killTarget hasTerminal jobs' operand := by
  have hlength : jobs.length = jobs'.length := by
    simpa using congrArg List.length h
  have hused : usedAt jobs = usedAt jobs' := by
    funext index
    rw [usedAt_eq, usedAt_eq, h]
  simp only [killTarget, shellJobNamed, hlength, hused]

theorem sameJobs_modify (jobs : List ShellJob) (index : ℕ) :
    SameJobs (jobs.modify index shellJobContinued) jobs := by
  apply List.ext_getElem?
  intro place
  rw [List.getElem?_map, List.getElem?_map, List.getElem?_modify]
  by_cases hplace : index = place <;> cases jobs[place]? <;> simp [hplace, shellJobContinued]

def CallNamed (signal : ℕ) (call : KillCall) : Prop :=
  NamesTarget call.operand call.target ∧ (call.continues = false → call.signal = signal)

structure CallsAdded (signal : ℕ) (operand : List UInt8) (target : KillTarget)
    (before after : List KillCall) : Prop where
  added : ∃ first more, after = before ++ first :: more ∧
    ∀ call ∈ first :: more, call.operand = operand ∧ call.target = target ∧
      (call.continues = false → call.signal = signal)

theorem killSent_spec {call : KillCall} {run : KillRun} {before : List KillCall}
    (hcalls : run.calls = before ++ [call]) (hcontinues : call.continues = false) :
    SameJobs (killSent call run).jobs run.jobs ∧
      CallsAdded call.signal call.operand call.target before (killSent call run).calls := by
  have hone : CallsAdded call.signal call.operand call.target before run.calls :=
    ⟨call, [], hcalls, by simp⟩
  simp only [killSent]
  split
  · exact ⟨rfl, hone⟩
  · next index hindex =>
      split
      · exact ⟨sameJobs_modify _ _, hone⟩
      · split
        · refine ⟨sameJobs_modify _ _, ⟨call, [⟨call.operand, call.target, call.number, sigcont, true⟩],
            by simp [hcalls], ?_⟩⟩
          intro other hother
          rcases List.mem_cons.mp hother with rfl | hlater
          · exact ⟨rfl, rfl, fun _ ↦ rfl⟩
          · obtain rfl := List.mem_singleton.mp hlater
            exact ⟨rfl, rfl, by simp⟩
        · exact ⟨rfl, hone⟩

theorem killCalled_spec (sent : ℕ → Bool) (signal : ℕ) (operand : List UInt8) (target : KillTarget)
    (run : KillRun) :
    SameJobs (killCalled sent signal operand target run).jobs run.jobs ∧
      CallsAdded signal operand target run.calls
        (killCalled sent signal operand target run).calls := by
  simp only [killCalled]
  split
  · exact @killSent_spec ⟨operand, target, target.number run.jobs, signal, false⟩ _ _ rfl rfl
  · exact ⟨rfl, ⟨_, [], rfl, by simp⟩⟩

theorem mem_shellJobKillTargets {hasTerminal : Bool} {sent : ℕ → Bool} {signal : ℕ}
    {operands : List (List UInt8)} {run after : KillRun} {call : KillCall}
    (h : shellJobKillTargets hasTerminal sent signal operands run = .ok after)
    (hcall : call ∈ run.calls) : call ∈ after.calls := by
  induction operands generalizing run with
  | nil =>
      obtain rfl : run = after := by simpa [shellJobKillTargets] using h
      exact hcall
  | cons operand operands ih =>
      simp only [shellJobKillTargets] at h
      split at h
      · simp at h
      · exact ih h hcall
      · next target htarget =>
          obtain ⟨first, more, hcalls, -⟩ := (killCalled_spec sent signal operand target run).2.added
          exact ih h (by simp [hcalls, hcall])

theorem shellJobKillTargets_of_safe {operands : List (List UInt8)} (sent : ℕ → Bool) (signal : ℕ)
    {run : KillRun} (hsame : SameJobs run.jobs shell.jobs)
    (hsafe : ∀ operand ∈ operands, OperandSafe shell operand)
    (hcalls : ∀ call ∈ run.calls, CallNamed signal call) :
    ∃ after, shellJobKillTargets shell.hasTerminal sent signal operands run = .ok after ∧
      ∀ call ∈ after.calls, CallNamed signal call := by
  induction operands generalizing run with
  | nil => exact ⟨run, rfl, hcalls⟩
  | cons operand operands ih =>
      have hrest := fun other hother ↦ hsafe other (List.mem_cons_of_mem operand hother)
      obtain ⟨target, htarget, hnames⟩ := killTarget_of_safe (hsafe operand List.mem_cons_self)
      rw [← killTarget_congr hsame] at htarget
      cases target with
      | none =>
          simp only [shellJobKillTargets, htarget]
          exact ih hsame hrest hcalls
      | some target =>
          obtain ⟨hjobs, first, more, hadded, hof⟩ := killCalled_spec sent signal operand target run
          simp only [shellJobKillTargets, htarget]
          apply ih (hjobs.trans hsame) hrest
          intro call hcall
          rw [hadded] at hcall
          rcases List.mem_append.mp hcall with hbefore | hnew
          · exact hcalls call hbefore
          · obtain ⟨rfl, rfl, hsignal⟩ := hof call hnew
            exact ⟨hnames _ rfl, hsignal⟩

theorem shellJobKillTargets_of_not_safe {operands : List (List UInt8)} (sent : ℕ → Bool)
    (signal : ℕ) {run : KillRun} (hsame : SameJobs run.jobs shell.jobs)
    (hsafe : ¬∀ operand ∈ operands, OperandSafe shell operand) {after : KillRun}
    (h : shellJobKillTargets shell.hasTerminal sent signal operands run = .ok after) :
    ∃ call ∈ after.calls, ¬NamesTarget call.operand call.target := by
  induction operands generalizing run with
  | nil => simp at hsafe
  | cons operand operands ih =>
      by_cases hfirst : OperandSafe shell operand
      · have hrest : ¬∀ operand ∈ operands, OperandSafe shell operand := by
          intro hall
          apply hsafe
          simpa [hfirst] using hall
        simp only [shellJobKillTargets] at h
        split at h
        · simp at h
        · have hrefused : SameJobs ({ run with status := 1 } : KillRun).jobs shell.jobs := hsame
          exact ih hrefused hrest h
        · next target htarget =>
            exact ih ((killCalled_spec sent signal operand target run).1.trans hsame) hrest h
      · rcases killTarget_of_not_safe hfirst with herror | ⟨target, htarget, hother⟩
        · rw [← killTarget_congr hsame] at herror
          simp [shellJobKillTargets, herror] at h
        · rw [← killTarget_congr hsame] at htarget
          obtain ⟨first, more, hadded, hof⟩ := (killCalled_spec sent signal operand target run).2.added
          simp only [shellJobKillTargets, htarget] at h
          obtain ⟨hoperand, hnamed, -⟩ := hof first List.mem_cons_self
          refine ⟨first, mem_shellJobKillTargets h (by simp [hadded]), ?_⟩
          rwa [hoperand, hnamed]

theorem not_isDecimal_of_mem : ∀ known ∈ shellSignalNames, known.1.head?.any isDecimal = false := by
  decide

theorem signalOfName_of_isDecimal (h : text.head?.any isDecimal = true) :
    signalOfName text = none := by
  obtain ⟨byte, rest, rfl⟩ : ∃ byte rest, text = byte :: rest := by
    cases text with
    | nil => simp at h
    | cons byte rest => exact ⟨byte, rest, rfl⟩
  have hbyte : isDecimal byte = true := by simpa using h
  have hname : (byte :: rest).take 3 ≠ "SIG".toList.map byteOf := by
    intro hsame
    have hfirst : byte = byteOf 'S' := by simpa using congrArg List.head? hsame
    rw [hfirst] at hbyte
    exact absurd hbyte (by decide)
  simp only [signalOfName, hname, if_false, Option.map_eq_none_iff, List.find?_eq_none]
  intro known hknown hsame
  have hother := not_isDecimal_of_mem known hknown
  rw [of_decide_eq_true hsame, h] at hother
  exact absurd hother (by decide)

theorem killSignal_of_safe {option : Option (List UInt8)}
    (h : ∀ text, option = some text → SignedSafe intMax text) :
    ∃ signal, killSignal option = .ok signal ∧
      ∀ number, signal = some number ↔ NamesSignal option number := by
  cases option with
  | none => exact ⟨some sigterm, rfl, fun number ↦ by simp [NamesSignal, eq_comm]⟩
  | some text =>
      have hsafe := h text rfl
      simp only [killSignal, shellSignalByName, NamesSignal]
      by_cases hdigit : text.head?.any isDecimal = true
      · rw [if_pos hdigit, readSigned_of_safe hsafe, signalOfName_of_isDecimal hdigit]
        refine ⟨_, rfl, ?_⟩
        intro number
        have hne : text ≠ [] := by
          rintro rfl
          simp at hdigit
        by_cases hall : text.all isDecimal = true
        · simp [Numeral, hall, hne]
        · simp [Numeral, hall]
      · rw [if_neg hdigit]
        refine ⟨_, rfl, ?_⟩
        intro number
        have hnot : ¬Numeral text number := by
          rintro ⟨hne, hall, -⟩
          obtain ⟨byte, rest, rfl⟩ := List.exists_cons_of_ne_nil hne
          simp_all
        simp [hnot]

theorem killSignal_of_not_safe (h : ¬SignedSafe intMax text) :
    killSignal (some text) = .error .overflow := by
  have hdigit : text.head?.any isDecimal = true := by
    by_contra hnot
    apply h
    cases text with
    | nil => simp [SignedSafe, decimalValue]
    | cons byte rest =>
        have hbyte : isDecimal byte = false := by simpa using hnot
        simp [SignedSafe, hbyte, decimalValue]
  simp only [killSignal, shellSignalByName, hdigit, if_true]
  exact readSigned_of_not_safe h

inductive JobCommand
  | foreground (operand : Option (List UInt8))
  | background (operand : Option (List UInt8))
  | kill (arguments : List (List UInt8))

/-- No sum overflows, and what the command acts upon is what its operands name. -/
def CommandReads (shell : JobShell) (sent : ℕ → Bool) : JobCommand → Prop
  | .foreground operand => ∀ text ∈ operand, ∀ index,
      (shellJobForeground shell operand).acted = .ok index → NamesJob text index
  | .background operand => ∀ text ∈ operand, ∀ index,
      (shellJobBackground shell operand).acted = .ok index → NamesJob text index
  | .kill arguments => ∃ run, shellJobKill shell sent arguments = .ok run ∧
      ∀ call ∈ run.calls, NamesTarget call.operand call.target ∧
        (call.continues = false → NamesSignal (killArguments arguments).1 call.signal)

/-- The operands of which the command reads every number as it is. -/
def CommandSafe (shell : JobShell) : JobCommand → Prop
  | .foreground operand | .background operand =>
      ∀ text ∈ operand, shell.hasTerminal = true → JobSafe shell.jobs text
  | .kill arguments =>
      (∀ text ∈ (killArguments arguments).1, SignedSafe intMax text) ∧
        ((∃ signal, NamesSignal (killArguments arguments).1 signal) →
          ∀ operand ∈ (killArguments arguments).2, OperandSafe shell operand)

theorem jobCommand_reads_iff (act : ℕ → ShellJob → ShellJob × List JobAction) :
    (∀ index, (jobCommand shell (some text) act).acted = .ok index → NamesJob text index) ↔
      (shell.hasTerminal = true → JobSafe shell.jobs text) := by
  cases hterminal : shell.hasTerminal with
  | false => simp [jobCommand, hterminal]
  | true =>
      have hacted : ∀ index, (jobCommand shell (some text) act).acted = .ok index ↔
          shellJobNamed shell.jobs (some text) = .ok index := by
        intro index
        simp only [jobCommand, hterminal, Bool.true_eq_false, if_false]
        cases shellJobNamed shell.jobs (some text) with
        | error refusal => simp
        | ok named =>
            dsimp only
            split <;> simp
      simp only [hacted, true_imp_iff]
      exact jobSafe_iff

theorem shellJobKill_reads_iff (sent : ℕ → Bool) (arguments : List (List UInt8)) :
    CommandReads shell sent (.kill arguments) ↔ CommandSafe shell (.kill arguments) := by
  simp only [CommandReads, CommandSafe]
  by_cases hoption : ∀ text ∈ (killArguments arguments).1, SignedSafe intMax text
  · rw [and_iff_right hoption]
    obtain ⟨signal, hsignal, hnames⟩ := killSignal_of_safe hoption
    cases signal with
    | none =>
        have hnone : ¬∃ signal, NamesSignal (killArguments arguments).1 signal := by
          rintro ⟨signal, hnamed⟩
          simpa using (hnames signal).mpr hnamed
        have hrun : shellJobKill shell sent arguments = .ok ⟨shell.jobs, [], 1⟩ := by
          simp [shellJobKill, hsignal]
        simp [hrun, hnone]
    | some signal =>
        have hnamed := (hnames signal).mp rfl
        have hsome : ∃ signal, NamesSignal (killArguments arguments).1 signal := ⟨signal, hnamed⟩
        rw [forall_prop_of_true hsome]
        by_cases htargets : (killArguments arguments).2 = []
        · have hrun : shellJobKill shell sent arguments = .ok ⟨shell.jobs, [], 1⟩ := by
            simp [shellJobKill, hsignal, htargets]
          simp [hrun, htargets]
        · have hrun : shellJobKill shell sent arguments = shellJobKillTargets shell.hasTerminal sent
              signal (killArguments arguments).2 ⟨shell.jobs, [], 0⟩ := by
            simp [shellJobKill, hsignal, htargets]
          rw [hrun]
          constructor
          · rintro ⟨run, hafter, hcalls⟩
            by_contra hunsafe
            have hsame : SameJobs (⟨shell.jobs, [], 0⟩ : KillRun).jobs shell.jobs := rfl
            obtain ⟨call, hcall, hother⟩ := shellJobKillTargets_of_not_safe sent signal hsame hunsafe
              hafter
            exact hother (hcalls call hcall).1
          · intro hsafe
            have hsame : SameJobs (⟨shell.jobs, [], 0⟩ : KillRun).jobs shell.jobs := rfl
            obtain ⟨run, hafter, hcalls⟩ := shellJobKillTargets_of_safe sent signal hsame hsafe
              (by simp)
            refine ⟨run, hafter, ?_⟩
            intro call hcall
            obtain ⟨htarget, hsame⟩ := hcalls call hcall
            exact ⟨htarget, fun hfirst ↦ (hsame hfirst).symm ▸ hnamed⟩
  · have herror : shellJobKill shell sent arguments = .error .overflow := by
      simp only [not_forall] at hoption
      obtain ⟨text, htext, hunsafe⟩ := hoption
      have hfault := killSignal_of_not_safe hunsafe
      rw [← Option.mem_def.mp htext] at hfault
      simp [shellJobKill, hfault]
    constructor
    · rintro ⟨run, hrun, -⟩
      simp [herror] at hrun
    · intro hsafe
      exact absurd hsafe.1 hoption

/-- The job commands read their numbers exactly where the operands are safe. -/
theorem commandReads_iff (shell : JobShell) (sent : ℕ → Bool) (command : JobCommand) :
    CommandReads shell sent command ↔ CommandSafe shell command := by
  cases command with
  | foreground operand =>
      cases operand with
      | none => simp [CommandReads, CommandSafe]
      | some text =>
          simp only [CommandReads, CommandSafe, Option.mem_def, Option.some.injEq, forall_eq']
          exact jobCommand_reads_iff _
  | background operand =>
      cases operand with
      | none => simp [CommandReads, CommandSafe]
      | some text =>
          simp only [CommandReads, CommandSafe, Option.mem_def, Option.some.injEq, forall_eq']
          exact jobCommand_reads_iff _
  | kill arguments => exact shellJobKill_reads_iff sent arguments

def oneJob : JobShell := ⟨[⟨7, [true], .stopped, true, true, true, []⟩], true⟩

/-- A number of ten digits names the first job. -/
theorem foreground_not_reads : ¬CommandReads oneJob (fun _ ↦ true)
    (.foreground (some ("4294967297".toList.map byteOf))) := by
  intro hreads
  have hnamed := hreads _ rfl 0 rfl
  exact absurd hnamed.2.2 (by decide)

end OxysOS.Shell
