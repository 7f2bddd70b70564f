import OxysOS.Shell.ExpandCalls
import OxysOS.Libc.Line

/-!
# Running a program

From `ShellRunCommand` of `userland/sh/main.c` to the `execve` of `userland/sh/run.c`.  What
the kernel answers is given, and every `execve` is recorded with the two vectors that it is
given.
-/

namespace OxysOS.Shell

open OxysOS.Library

def syscallArgumentBytesMaximum : ℕ := 8192

/-- The size of `ShellCandidate`. -/
def shellCandidateBytes : ℕ := 256

def enoent : ℕ := 6

def shellDefaultPath : List UInt8 := "/bin".toList.map byteOf

/-- What is answered to the shell: whether a job can begin and a child be forked, what each
redirection opens and whether a descriptor is duplicated for it, what each `execve` fails
with where it returns, and what the job ends with. -/
structure ShellAnswers where
  job : Bool
  fork : Bool
  opened : ℕ → Option ℕ
  duplicated : ℕ → Bool
  executed : ℕ → Option ℕ
  waited : ℕ

/-- An `execve` and what it is given. -/
structure ShellExecve where
  path : List UInt8
  argv : List (List UInt8)
  envp : List (List UInt8)
  deriving DecidableEq

def environmentLine (name value : List UInt8) : List UInt8 := name ++ byteOf '=' :: value

/-- `ShellBuildEnvironment`.  A string is cut where its buffer ends. -/
def shellBuildEnvironment (table : ShellVariables) : List (List UInt8) :=
  (List.range (shellVariableCount table)).filterMap fun index ↦ do
    let slot ← shellVariableAt table index
    if slot.exported then
      some ((environmentLine slot.name slot.value).take (shellNameMaximum + shellValueMaximum + 1))
    else none

/-- The directories of `PATH` in turn. -/
def shellDirectories (path : List UInt8) : List (List UInt8) :=
  let parts := path.splitOn (byteOf ':')
  if parts.getLast? = some [] then parts.dropLast else parts

/-- The loop of `ShellExecute`, with the count of the calls so far.  There is no status where
the program is executed. -/
def shellSearch (answers : ShellAnswers) (argv envp : List (List UInt8)) (count : ℕ) :
    List (List UInt8) → List ShellExecve × Option ℕ
  | [] => ([], some 127)
  | directory :: directories =>
      let candidate := directory ++ byteOf '/' :: argv.headD []
      if candidate.length < shellCandidateBytes then
        match answers.executed count with
        | none => ([⟨candidate, argv, envp⟩], none)
        | some errno =>
            if errno ≠ enoent then ([⟨candidate, argv, envp⟩], some 126)
            else
              let found := shellSearch answers argv envp (count + 1) directories
              (⟨candidate, argv, envp⟩ :: found.1, found.2)
      else shellSearch answers argv envp count directories

def shellExecute (answers : ShellAnswers) (argv envp : List (List UInt8)) (table : ShellVariables) :
    List ShellExecve × Option ℕ :=
  if byteOf '/' ∈ argv.headD [] then
    ([⟨argv.headD [], argv, envp⟩],
      (answers.executed 0).map fun errno ↦ if errno = enoent then 127 else 126)
  else
    let path := (shellVariableGet table ("PATH".toList.map byteOf)).getD []
    shellSearch answers argv envp 0 (shellDirectories (if path = [] then shellDefaultPath else path))

def shellRedirect (answers : ShellAnswers) (index : ℕ) (io : ShellRedirection) (target : List UInt8) :
    Bool :=
  if io.kind = .duplicateIn ∨ io.kind = .duplicateOut then
    if target = [byteOf '-'] then true
    else if target.length = 1 ∧ target.all shellIsDigit then answers.duplicated index
    else false
  else
    match answers.opened index with
    | none => false
    | some opened => opened = io.descriptor || answers.duplicated index

/-- `ShellApplyRedirections`, from the redirection of an index. -/
def shellApplyRedirections (answers : ShellAnswers) (lookup : ShellLookup) (index : ℕ) :
    List ShellRedirection → ShellVariables → Option (Bool × ShellVariables)
  | [], table => some (true, table)
  | io :: redirection, table => do
      let (expanded, table) ←
        shellExpandWord lookup shellExpandCalls io.target Libc.lineCapacity table
      match expanded with
      | .error _ => some (false, table)
      | .ok target =>
          if shellRedirect answers index io target then
            shellApplyRedirections answers lookup (index + 1) redirection table
          else some (false, table)

/-- A program that is run: the calls of `execve`, the status where there is one, and the
variables of the process that ran it. -/
structure ShellProgram where
  executed : List ShellExecve
  status : Option ℕ
  table : ShellVariables
  deriving DecidableEq

def shellExecuteProgram (answers : ShellAnswers) (lookup : ShellLookup) (argv : List (List UInt8))
    (command : ShellCommand) (table : ShellVariables) : Option ShellProgram := do
  let envp := shellBuildEnvironment table
  let (applied, table) ← shellApplyRedirections answers lookup 0 command.redirection table
  if applied then
    let (executed, status) := shellExecute answers argv envp table
    some ⟨executed, status, table⟩
  else some ⟨[], some 1, table⟩

/-- `ShellRunProgram`.  What the child does to its variables is not done to the shell's. -/
def shellRunProgram (answers : ShellAnswers) (lookup : ShellLookup) (argv : List (List UInt8))
    (command : ShellCommand) (table : ShellVariables) : Option ShellProgram :=
  if ¬answers.job ∨ ¬answers.fork then some ⟨[], some 126, table⟩
  else do
    let child ← shellExecuteProgram answers lookup argv command table
    some ⟨child.executed, some answers.waited, table⟩

def shellSpecialBuiltins : List (List UInt8) :=
  ["exit", "export", "unset"].map fun name ↦ name.toList.map byteOf

def shellRegularBuiltins : List (List UInt8) :=
  ["cd", "pwd", "help", "true", "false", "clear", "jobs", "fg", "bg", "kill"].map
    fun name ↦ name.toList.map byteOf

def shellIsSpecialBuiltin (name : List UInt8) : Bool := name ∈ shellSpecialBuiltins

def shellIsBuiltin (name : List UInt8) : Bool :=
  shellIsSpecialBuiltin name || decide (name ∈ shellRegularBuiltins)

/-- `ShellLookupParameter`, with `ShellLastStatus`. -/
def shellLookupParameter (status : ℕ) : ShellLookup := fun table name ↦
  if name = [byteOf '?'] then some (((Nat.toDigits 10 status).map byteOf).take 7)
  else shellVariableGet table name

def shellApplyAssignment (status : ℕ) (word : List UInt8) (table : ShellVariables) :
    Option (Bool × ShellVariables) := do
  let name := word.takeWhile (· ≠ byteOf '=')
  let (expanded, table) ← shellExpandWord (shellLookupParameter status) shellExpandCalls
    (word.drop (name.length + 1)) Libc.lineCapacity table
  match expanded with
  | .error _ => some (false, table)
  | .ok value =>
      match shellVariableSet table name value with
      | none => some (false, table)
      | some table => some (true, table)

def shellApplyAssignments (status : ℕ) :
    List (List UInt8) → ShellVariables → Option (Bool × ShellVariables)
  | [], table => some (true, table)
  | word :: assignment, table => do
      let (applied, table) ← shellApplyAssignment status word table
      if applied then shellApplyAssignments status assignment table else some (false, table)

/-- The words of a command, where so much of `ShellArgumentText` is used. -/
def shellExpandWords (status used : ℕ) :
    List (List UInt8) → ShellVariables → Option (Option (List (List UInt8)) × ShellVariables)
  | [], table => some (some [], table)
  | word :: words, table =>
      if used ≥ syscallArgumentBytesMaximum then some (none, table)
      else do
        let (expanded, table) ← shellExpandWord (shellLookupParameter status) shellExpandCalls word
          (syscallArgumentBytesMaximum - used) table
        match expanded with
        | .error _ => some (none, table)
        | .ok argument =>
            let (arguments, table) ←
              shellExpandWords status (used + argument.length + 1) words table
            some (arguments.map (argument :: ·), table)

/-- What `ShellRunCommand` comes to: a status and the variables, the built-in that it runs
next, or a program that is run. -/
inductive ShellCommandRun
  | ended (status : ℕ) (table : ShellVariables)
  | builtin (argv : List (List UInt8)) (table : ShellVariables)
  | program (program : ShellProgram)
  deriving DecidableEq

/-- `ShellRunCommand`, as far as `ShellRunBuiltin`. -/
def shellRunCommand (answers : ShellAnswers) (status : ℕ) (inChild : Bool) (command : ShellCommand)
    (table : ShellVariables) : Option ShellCommandRun :=
  let lookup := shellLookupParameter status
  if command.word = [] then do
    let (applied, table) ← shellApplyAssignments status command.assignment table
    some (.ended (if applied then 0 else 1) table)
  else do
    let (expanded, table) ← shellExpandWords status 0 command.word table
    match expanded with
    | none => some (.ended 1 table)
    | some argv =>
        if ¬shellIsBuiltin (argv.headD []) then
          if inChild then
            (shellExecuteProgram answers lookup argv command table).map .program
          else (shellRunProgram answers lookup argv command table).map .program
        else if shellIsSpecialBuiltin (argv.headD []) then do
          let (applied, table) ← shellApplyAssignments status command.assignment table
          some (if applied then .builtin argv table else .ended 1 table)
        else some (.builtin argv table)

end OxysOS.Shell
