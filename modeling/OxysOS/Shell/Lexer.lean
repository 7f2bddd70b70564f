import OxysOS.Library.Bytes
import Mathlib.Tactic.Common

/-!
# The shell's tokeniser

`userland/sh/lexer.c`.  A line is the list of its bytes, of which none is zero, and
the tokeniser is given what is left of it and how much is behind.  A token keeps its
quotes.
-/

namespace OxysOS.Shell

open OxysOS.Library

def shellTokenMaximum : ℕ := 128

def shellTextMaximum : ℕ := 1536

inductive ShellTokenKind
  | ending | word | ioNumber | pipe | and | semicolon | andIf | orIf | dsemi | less | great
  | dless | dgreat | lessAnd | greatAnd | lessGreat | dlessDash | clobber | leftParen | rightParen
  deriving DecidableEq

structure ShellToken where
  kind : ShellTokenKind
  text : List UInt8
  column : ℕ
  deriving DecidableEq

/-- `ShellTokens`, of which `count` is the length of the list. -/
structure ShellTokens where
  token : List ShellToken
  textUsed : ℕ
  deriving DecidableEq

/-- `ShellParseStatus`, but for `SHELL_PARSE_OK`. -/
inductive ShellParseStatus
  | empty | incomplete | unexpectedToken | unsupported | tooManyTokens | tooManyWords
  | tooManyAssignments | tooManyRedirections | tooManyCommands | tooManyPipelines | badDescriptor
  deriving DecidableEq

def shellIsBlank (character : UInt8) : Bool := character = byteOf ' ' ∨ character = byteOf '\t'

def shellIsDigit (character : UInt8) : Bool := byteOf '0' ≤ character ∧ character ≤ byteOf '9'

def shellStartsOperator (character : UInt8) : Bool :=
  character ∈ "|&;<>()".toList.map byteOf

/-- `ShellReadOperator`.  The kind and the length of the longest operator. -/
def shellReadOperator (first second third : UInt8) : ShellTokenKind × ℕ :=
  if first = byteOf '&' ∧ second = byteOf '&' then (.andIf, 2)
  else if first = byteOf '|' ∧ second = byteOf '|' then (.orIf, 2)
  else if first = byteOf ';' ∧ second = byteOf ';' then (.dsemi, 2)
  else if first = byteOf '<' ∧ second = byteOf '<' ∧ third = byteOf '-' then (.dlessDash, 3)
  else if first = byteOf '<' ∧ second = byteOf '<' then (.dless, 2)
  else if first = byteOf '<' ∧ second = byteOf '&' then (.lessAnd, 2)
  else if first = byteOf '<' ∧ second = byteOf '>' then (.lessGreat, 2)
  else if first = byteOf '>' ∧ second = byteOf '>' then (.dgreat, 2)
  else if first = byteOf '>' ∧ second = byteOf '&' then (.greatAnd, 2)
  else if first = byteOf '>' ∧ second = byteOf '|' then (.clobber, 2)
  else if first = byteOf '&' then (.and, 1)
  else if first = byteOf '|' then (.pipe, 1)
  else if first = byteOf ';' then (.semicolon, 1)
  else if first = byteOf '<' then (.less, 1)
  else if first = byteOf '>' then (.great, 1)
  else if first = byteOf '(' then (.leftParen, 1)
  else (.rightParen, 1)

def shellAppendToken (tokens : ShellTokens) (kind : ShellTokenKind) (text : List UInt8)
    (column : ℕ) : Except ShellParseStatus ShellTokens :=
  if tokens.token.length ≥ shellTokenMaximum then .error .tooManyTokens
  else if tokens.textUsed + text.length + 1 > shellTextMaximum then .error .tooManyTokens
  else .ok ⟨tokens.token ++ [⟨kind, text, column⟩], tokens.textUsed + (text.length + 1)⟩

/-- What follows the `'` that closes a quotation. -/
def afterSingle : List UInt8 → Option (List UInt8)
  | [] => none
  | character :: rest => if character = byteOf '\'' then some rest else afterSingle rest

def shellEscapes (character : UInt8) : Bool :=
  character ∈ [byteOf '$', 0x60, byteOf '"', byteOf '\\', byteOf '\n']

/-- What follows the `"` that closes a quotation. -/
def afterDouble : List UInt8 → Option (List UInt8)
  | [] => none
  | inner :: rest =>
      if inner = byteOf '"' then some rest
      else match rest with
        | [] => none
        | escaped :: more =>
            if inner = byteOf '\\' ∧ shellEscapes escaped then afterDouble more
            else afterDouble (escaped :: more)

def afterArithmetic (depth : ℕ) : List UInt8 → Option (List UInt8)
  | [] => none
  | character :: rest =>
      if character = byteOf '(' then afterArithmetic (depth + 1) rest
      else if character = byteOf ')' then
        if depth - 1 = 0 then some rest else afterArithmetic (depth - 1) rest
      else afterArithmetic depth rest

theorem afterSingle_suffix {text after : List UInt8} (h : afterSingle text = some after) :
    after <:+ text := by
  induction text with
  | nil => cases h
  | cons character rest ih =>
      unfold afterSingle at h
      split at h
      · cases h
        exact List.suffix_cons _ _
      · exact (ih h).trans (List.suffix_cons _ _)

theorem afterDouble_suffix {text after : List UInt8} (h : afterDouble text = some after) :
    after <:+ text := by
  fun_induction afterDouble text with
  | case1 => cases h
  | case2 rest =>
      cases h
      exact List.suffix_cons _ _
  | case3 => cases h
  | case4 inner hclose escaped more hescaped ih =>
      exact (ih h).trans ((List.suffix_cons _ _).trans (List.suffix_cons _ _))
  | case5 inner hclose escaped more hescaped ih => exact (ih h).trans (List.suffix_cons _ _)

theorem afterArithmetic_suffix {depth : ℕ} {text after : List UInt8}
    (h : afterArithmetic depth text = some after) : after <:+ text := by
  induction text generalizing depth with
  | nil => cases h
  | cons character rest ih =>
      unfold afterArithmetic at h
      split at h
      · exact (ih h).trans (List.suffix_cons _ _)
      · split at h
        · split at h
          · cases h
            exact List.suffix_cons _ _
          · exact (ih h).trans (List.suffix_cons _ _)
        · exact (ih h).trans (List.suffix_cons _ _)

def shellEndsWord (character : UInt8) : Bool :=
  shellIsBlank character ∨ character = byteOf '\n' ∨ shellStartsOperator character

/-- `ShellWordExtent`.  What follows the word, where it is terminated. -/
def shellWordExtent (line : List UInt8) : Option (List UInt8) :=
  match line with
  | [] => some []
  | character :: rest =>
      if character = byteOf '\\' then
        match rest with
        | [] => none
        | _ :: more => shellWordExtent more
      else if character = byteOf '\'' then
        match _h : afterSingle rest with
        | none => none
        | some more => shellWordExtent more
      else if character = byteOf '"' then
        match _h : afterDouble rest with
        | none => none
        | some more => shellWordExtent more
      else if character = byteOf '$' ∧ rest.head? = some (byteOf '(') ∧
          rest.tail.head? = some (byteOf '(') then
        match _h : afterArithmetic 0 rest with
        | none => none
        | some more => shellWordExtent more
      else if shellEndsWord character then some (character :: rest)
      else shellWordExtent rest
  termination_by line.length
  decreasing_by
    · exact (Nat.lt_succ_self _).trans (Nat.lt_succ_self _)
    · exact Nat.lt_succ_of_le (afterSingle_suffix _h).length_le
    · exact Nat.lt_succ_of_le (afterDouble_suffix _h).length_le
    · exact Nat.lt_succ_of_le (afterArithmetic_suffix _h).length_le
    · exact Nat.lt_succ_self _

theorem shellWordExtent_suffix {line after : List UInt8} (h : shellWordExtent line = some after) :
    after <:+ line := by
  fun_induction shellWordExtent line with
  | case1 =>
      cases h
      exact List.suffix_rfl
  | case2 => cases h
  | case3 character rest ih =>
      exact (ih h).trans ((List.suffix_cons _ _).trans (List.suffix_cons _ _))
  | case4 => cases h
  | case5 rest more hclosed hplain ih =>
      exact (ih h).trans ((afterSingle_suffix hclosed).trans (List.suffix_cons _ _))
  | case6 => cases h
  | case7 rest more hclosed hplain hsingle ih =>
      exact (ih h).trans ((afterDouble_suffix hclosed).trans (List.suffix_cons _ _))
  | case8 => cases h
  | case9 character rest hplain hsingle hdouble harithmetic more hclosed ih =>
      exact (ih h).trans ((afterArithmetic_suffix hclosed).trans (List.suffix_cons _ _))
  | case10 =>
      cases h
      exact List.suffix_rfl
  | case11 character rest hplain hsingle hdouble harithmetic hends ih =>
      exact (ih h).trans (List.suffix_cons _ _)

theorem shellWordExtent_lt {character : UInt8} {rest after : List UInt8}
    (hends : ¬shellEndsWord character)
    (h : shellWordExtent (character :: rest) = some after) :
    after.length < (character :: rest).length := by
  have hle : after <:+ rest := by
    rw [shellWordExtent.eq_def] at h
    dsimp only at h
    split at h
    · split at h
      · cases h
      · exact (shellWordExtent_suffix h).trans (List.suffix_cons _ _)
    · split at h
      · split at h
        · cases h
        · next more hclosed => exact (shellWordExtent_suffix h).trans (afterSingle_suffix hclosed)
      · split at h
        · split at h
          · cases h
          · next more hclosed => exact (shellWordExtent_suffix h).trans (afterDouble_suffix hclosed)
        · split at h
          · split at h
            · cases h
            · next more hclosed =>
                exact (shellWordExtent_suffix h).trans (afterArithmetic_suffix hclosed)
          · exact shellWordExtent_suffix h
  exact Nat.lt_succ_of_le hle.length_le

theorem ite_reads {P : ShellTokenKind × ℕ → Prop} {c : Prop} [Decidable c]
    {p q : ShellTokenKind × ℕ} (hp : P p) (hq : P q) : P (if c then p else q) := by
  by_cases hc : c
  · rwa [if_pos hc]
  · rwa [if_neg hc]

theorem shellReadOperator_pos (first second third : UInt8) :
    0 < (shellReadOperator first second third).2 := by
  unfold shellReadOperator
  repeat refine ite_reads (P := fun read ↦ 0 < read.2) (Nat.succ_pos _) ?_
  exact Nat.one_pos

def shellIsSpace (character : UInt8) : Bool := shellIsBlank character ∨ character = byteOf '
'

/-- The loop of `ShellTokenise`, with the tokens so far and the count of the characters
behind. -/
def shellTokeniseFrom (tokens : ShellTokens) (column : ℕ) (line : List UInt8) :
    Except ShellParseStatus ShellTokens :=
  match line with
  | [] => shellAppendToken tokens .ending [] column
  | character :: rest =>
      if _hspace : shellIsSpace character then shellTokeniseFrom tokens (column + 1) rest
      else if character = byteOf '#' then shellAppendToken tokens .ending [] column
      else if _hoperator : shellStartsOperator character then
        let kind := (shellReadOperator character (rest.headD 0) (rest.tail.headD 0)).1
        let length := (shellReadOperator character (rest.headD 0) (rest.tail.headD 0)).2
        match shellAppendToken tokens kind ((character :: rest).take length) column with
        | .error status => .error status
        | .ok tokens => shellTokeniseFrom tokens (column + length) ((character :: rest).drop length)
      else
        let digits := (character :: rest).takeWhile shellIsDigit
        let after := (character :: rest).dropWhile shellIsDigit
        if _hdigits : digits ≠ [] ∧
            (after.head? = some (byteOf '<') ∨ after.head? = some (byteOf '>')) then
          match shellAppendToken tokens .ioNumber digits column with
          | .error status => .error status
          | .ok tokens => shellTokeniseFrom tokens (column + digits.length) after
        else
          match _hword : shellWordExtent (character :: rest) with
          | none => .error .incomplete
          | some after =>
              let length := (character :: rest).length - after.length
              match shellAppendToken tokens .word ((character :: rest).take length) column with
              | .error status => .error status
              | .ok tokens => shellTokeniseFrom tokens (column + length) after
  termination_by line.length
  decreasing_by
    · exact Nat.lt_succ_self _
    · have hpos := shellReadOperator_pos character (rest.headD 0) (rest.tail.headD 0)
      rw [List.length_drop, List.length_cons]
      omega
    · have hsplit := congrArg List.length
        (List.takeWhile_append_dropWhile (p := shellIsDigit) (l := character :: rest))
      have hsome : 0 < digits.length := List.length_pos_iff.mpr _hdigits.1
      rw [List.length_append] at hsplit
      dsimp only [digits] at hsome
      omega
    · refine shellWordExtent_lt (fun hends ↦ ?_) _hword
      rcases of_decide_eq_true hends with hblank | hline | hoperator
      · exact _hspace (decide_eq_true (Or.inl hblank))
      · exact _hspace (decide_eq_true (Or.inr hline))
      · exact _hoperator hoperator

def shellTokenise (line : List UInt8) : Except ShellParseStatus ShellTokens :=
  shellTokeniseFrom ⟨[], 0⟩ 0 line

/-- The quotes that `ShellUnquote` is within. -/
inductive Quotes
  | none | single | double

/-- What `ShellUnquote` copies of a word. -/
def shellUnquoted : Quotes → List UInt8 → List UInt8
  | _, [] => []
  | .none, character :: rest =>
      if character = byteOf '\\' then
        match rest with
        | [] => []
        | quoted :: more =>
            if quoted ≠ byteOf '\n' then quoted :: shellUnquoted .none more
            else shellUnquoted .none more
      else if character = byteOf '\'' then shellUnquoted .single rest
      else if character = byteOf '"' then shellUnquoted .double rest
      else character :: shellUnquoted .none rest
  | .single, character :: rest =>
      if character = byteOf '\'' then shellUnquoted .none rest
      else character :: shellUnquoted .single rest
  | .double, character :: rest =>
      if character = byteOf '"' then shellUnquoted .none rest
      else match rest with
        | [] => [character]
        | escaped :: more =>
            if character = byteOf '\\' ∧ shellEscapes escaped then
              if escaped ≠ byteOf '\n' then escaped :: shellUnquoted .double more
              else shellUnquoted .double more
            else character :: shellUnquoted .double (escaped :: more)

/-- `ShellUnquote`.  There is no copy where it does not fit with its terminator. -/
def shellUnquote (word : List UInt8) (capacity : ℕ) : Option (List UInt8) :=
  if (shellUnquoted .none word).length < capacity then some (shellUnquoted .none word) else none

end OxysOS.Shell
