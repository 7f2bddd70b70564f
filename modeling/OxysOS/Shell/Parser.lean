import OxysOS.Shell.Lexer
import Mathlib.Data.FinEnum

/-!
# The shell's parser

`userland/sh/parser.c`.  The parser is given the tokens from its cursor up to the
`SHELL_TOKEN_END` after the last of them, which it finds where no token is left.  A refusal
tells the tokens from where the parser stopped.
-/

namespace OxysOS.Shell

open OxysOS.Library

def shellRedirectionMaximum : ℕ := 8

def shellCommandMaximum : ℕ := 8

def shellPipelineMaximum : ℕ := 16

def shellAssignmentMaximum : ℕ := 8

def shellNameMaximum : ℕ := 64

inductive ShellRedirectionKind
  | input | output | clobber | append | duplicateIn | duplicateOut | readWrite
  deriving DecidableEq

structure ShellRedirection where
  kind : ShellRedirectionKind
  descriptor : ℕ
  target : List UInt8
  deriving DecidableEq

structure ShellCommand where
  word : List (List UInt8) := []
  redirection : List ShellRedirection := []
  assignment : List (List UInt8) := []
  deriving DecidableEq

inductive ShellSeparator
  | none | sequence | background
  deriving DecidableEq

inductive ShellCondition
  | none | andIf | orIf
  deriving DecidableEq

structure ShellPipeline where
  command : List ShellCommand
  negated : Bool
  condition : ShellCondition
  separator : ShellSeparator
  deriving DecidableEq

scoped instance lawful_words : LawfulBEq (List UInt8) := inferInstance

def shellIsName (text : List UInt8) : Bool :=
  text.length ≠ 0 ∧ text.length ≤ shellNameMaximum ∧ ¬(text.head?.any shellIsDigit) ∧
    ∀ character ∈ text,
      (byteOf 'a' ≤ character ∧ character ≤ byteOf 'z') ∨
      (byteOf 'A' ≤ character ∧ character ≤ byteOf 'Z') ∨
      shellIsDigit character ∨ character = byteOf '_'

/-- `ShellIsAssignmentWord`, which is positive for an assignment word. -/
def shellIsAssignmentWord (word : List UInt8) : Bool :=
  byteOf '=' ∈ word ∧ shellIsName (word.takeWhile (· ≠ byteOf '='))

def shellCompoundWords : List (List UInt8) :=
  ["if", "then", "else", "elif", "fi", "do", "done", "case", "esac", "while", "until", "for",
    "in", "\x7b", "\x7d", "function"].map fun word ↦ word.toList.map byteOf

def shellIsCompoundWord (word : List UInt8) : Bool := word ∈ shellCompoundWords

/-- `ShellPeek`.  The kind of the token at the cursor. -/
def shellPeek (rest : List ShellToken) : ShellTokenKind :=
  (rest.head?.map ShellToken.kind).getD .ending

/-- `ShellRedirectionOf`.  The meaning of an operator and its own descriptor. -/
def shellRedirectionOf : ShellTokenKind → Option (ShellRedirectionKind × ℕ)
  | .less => some (.input, 0)
  | .great => some (.output, 1)
  | .clobber => some (.clobber, 1)
  | .dgreat => some (.append, 1)
  | .lessAnd => some (.duplicateIn, 0)
  | .greatAnd => some (.duplicateOut, 1)
  | .lessGreat => some (.readWrite, 0)
  | _ => none

def shellDescriptorOf (text : List UInt8) : Option ℕ :=
  if text.length > 3 then none
  else some (text.foldl (fun value digit ↦ value * 10 + (digit - byteOf '0').toNat) 0)

abbrev Parse (α : Type) := Except (ShellParseStatus × List ShellToken) α

def shellParseTarget (command : ShellCommand) (kind : ShellRedirectionKind) (descriptor : ℕ)
    (rest : List ShellToken) : Parse ShellCommand :=
  match rest with
  | [] => .error (.incomplete, rest)
  | target :: _ =>
      if target.kind ≠ .word then .error (.unexpectedToken, rest)
      else if command.redirection.length ≥ shellRedirectionMaximum then
        .error (.tooManyRedirections, rest)
      else .ok { command with
        redirection := command.redirection ++ [⟨kind, descriptor, target.text⟩] }

/-- The loop of `ShellParseSimpleCommand`, with the words that the line has used. -/
def shellParseSimpleCommand (used : ℕ) (command : ShellCommand) :
    List ShellToken → Parse (ShellCommand × ℕ × List ShellToken)
  | [] =>
      if command = {} then .error (.unexpectedToken, []) else .ok (command, used, [])
  | token :: rest =>
      if token.kind = .word then
        if command.word = [] ∧ shellIsAssignmentWord token.text then
          if command.assignment.length ≥ shellAssignmentMaximum then
            .error (.tooManyAssignments, token :: rest)
          else shellParseSimpleCommand used
            { command with assignment := command.assignment ++ [token.text] } rest
        else if command.word = [] ∧ shellIsCompoundWord token.text then
          .error (.unsupported, token :: rest)
        else if used ≥ shellTokenMaximum then .error (.tooManyWords, token :: rest)
        else shellParseSimpleCommand (used + 1)
          { command with word := command.word ++ [token.text] } rest
      else if token.kind = .ioNumber then
        match shellDescriptorOf token.text with
        | none => .error (.badDescriptor, token :: rest)
        | some number =>
            match rest with
            | [] => .error (.unsupported, [])
            | operator :: rest =>
                match shellRedirectionOf operator.kind with
                | none => .error (.unsupported, operator :: rest)
                | some (kind, _) =>
                    match shellParseTarget command kind number rest with
                    | .error refusal => .error refusal
                    | .ok command => shellParseSimpleCommand used command rest.tail
      else
        match shellRedirectionOf token.kind with
        | some (kind, descriptor) =>
            match shellParseTarget command kind descriptor rest with
            | .error refusal => .error refusal
            | .ok command => shellParseSimpleCommand used command rest.tail
        | none =>
            if token.kind ∈ [.dless, .dlessDash, .leftParen, .rightParen, .dsemi] then
              .error (.unsupported, token :: rest)
            else if command = {} then .error (.unexpectedToken, token :: rest)
            else .ok (command, used, token :: rest)
  termination_by tokens => tokens.length
  decreasing_by
    · exact Nat.lt_succ_self _
    · exact Nat.lt_succ_self _
    · simp only [List.length_cons, List.length_tail]
      omega
    · simp only [List.length_cons, List.length_tail]
      omega

/-- The loop of `ShellParsePipeline`, with the room that is left for commands. -/
def shellParsePipelineFrom (used : ℕ) (commands : List ShellCommand) :
    ℕ → List ShellToken → Parse (List ShellCommand × ℕ × List ShellToken)
  | 0, rest => .error (.tooManyCommands, rest)
  | room + 1, rest =>
      if shellPeek rest = .ending then .error (.incomplete, rest)
      else
        match shellParseSimpleCommand used {} rest with
        | .error refusal => .error refusal
        | .ok (command, used, rest) =>
            if shellPeek rest ≠ .pipe then .ok (commands ++ [command], used, rest)
            else shellParsePipelineFrom used (commands ++ [command]) room rest.tail

/-- `ShellParsePipeline`.  Whether it is negated, and its commands. -/
def shellParsePipeline (used : ℕ) (rest : List ShellToken) :
    Parse (Bool × List ShellCommand × ℕ × List ShellToken) :=
  let negated := rest.head?.any fun token ↦ token.kind = .word ∧ token.text = [byteOf '!']
  match shellParsePipelineFrom used [] shellCommandMaximum (if negated then rest.tail else rest) with
  | .error refusal => .error refusal
  | .ok (commands, used, rest) => .ok (negated, commands, used, rest)

/-- The loop of `ShellParseList`, with the room that is left for pipelines. -/
def shellParseListFrom (used : ℕ) (condition : ShellCondition) (pipelines : List ShellPipeline) :
    ℕ → List ShellToken → Parse (List ShellPipeline)
  | 0, rest => .error (.tooManyPipelines, rest)
  | room + 1, rest =>
      match shellParsePipeline used rest with
      | .error refusal => .error refusal
      | .ok (negated, command, used, rest) =>
          let pipeline : ShellSeparator → List ShellPipeline := fun separator ↦
            pipelines ++ [⟨command, negated, condition, separator⟩]
          match shellPeek rest with
          | .ending => .ok (pipeline .none)
          | .andIf =>
              if shellPeek rest.tail = .ending then .error (.incomplete, rest.tail)
              else shellParseListFrom used .andIf (pipeline .none) room rest.tail
          | .orIf =>
              if shellPeek rest.tail = .ending then .error (.incomplete, rest.tail)
              else shellParseListFrom used .orIf (pipeline .none) room rest.tail
          | .semicolon =>
              if shellPeek rest.tail = .ending then .ok (pipeline .sequence)
              else shellParseListFrom used .none (pipeline .sequence) room rest.tail
          | .and =>
              if shellPeek rest.tail = .ending then .ok (pipeline .background)
              else shellParseListFrom used .none (pipeline .background) room rest.tail
          | _ => .error (.unexpectedToken, rest)

/-- `ShellParse`.  The last of the tokens is the `SHELL_TOKEN_END`. -/
def shellParse (tokens : ShellTokens) : Parse (List ShellPipeline) :=
  if tokens.token = [] then .error (.unexpectedToken, [])
  else if tokens.token.dropLast = [] then .error (.empty, tokens.token)
  else shellParseListFrom 0 .none [] shellPipelineMaximum tokens.token.dropLast

end OxysOS.Shell
