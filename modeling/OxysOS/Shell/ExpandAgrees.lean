import OxysOS.Shell.Parts

/-!
# Tokens and their expansion

A word that the tokeniser accepts is expanded as far as its parts go.  Outside of single
quotes the tokeniser and the expansion read alike but for a `$((`, which the tokeniser
does not see within double quotes and asks only that its first parenthesis is closed.
-/

namespace OxysOS.Shell

open OxysOS.Library

variable {lookup : ShellLookup} {calls capacity bound : ℕ} {out word : List UInt8}
  {table : ShellVariables} {part : ShellPart} {parts : List ShellPart}

/-! ## The room that there is -/

def freely (out string : List UInt8) : Except ShellRefusal (List UInt8) := .ok (out ++ string)

def Granted (result : Except ShellRefusal (List UInt8)) : Prop :=
  ∀ refusal, result = .error refusal → refusal = .name ∨ ∃ fault, refusal = .arithmetic fault

/-- The word has a `$` that is neither within single quotes nor escaped. -/
def liveDollar : Quotes → List UInt8 → Bool
  | _, [] => false
  | .none, character :: rest =>
      if character = byteOf '\\' then
        match rest with
        | [] => false
        | _ :: more => liveDollar .none more
      else if character = byteOf '\'' then liveDollar .single rest
      else if character = byteOf '"' then liveDollar .double rest
      else character = byteOf '$' || liveDollar .none rest
  | .single, character :: rest =>
      if character = byteOf '\'' then liveDollar .none rest else liveDollar .single rest
  | .double, character :: rest =>
      if character = byteOf '"' then liveDollar .none rest
      else match rest with
        | [] => character = byteOf '$'
        | escaped :: more =>
            if character = byteOf '\\' ∧ shellEscapes escaped then liveDollar .double more
            else character = byteOf '$' || liveDollar .double (escaped :: more)

def quotesAfter (quotes : Quotes) (word : List UInt8) : Quotes :=
  match quotes, word with
  | quotes, [] => quotes
  | .none, character :: rest =>
      if character = byteOf '\\' then quotesAfter .none rest.tail
      else if character = byteOf '\'' then quotesAfter .single rest
      else if character = byteOf '"' then quotesAfter .double rest
      else if character = byteOf '$' then quotesAfter .none (dollarPart rest).2
      else quotesAfter .none rest
  | .single, character :: rest =>
      if character = byteOf '\'' then quotesAfter .none rest else quotesAfter .single rest
  | .double, character :: rest =>
      if character = byteOf '"' then quotesAfter .none rest
      else if character = byteOf '\\' ∧ rest.head?.any shellEscapes then quotesAfter .double rest.tail
      else if character = byteOf '$' then quotesAfter .double (dollarPart rest).2
      else quotesAfter .double rest
  termination_by word.length
  decreasing_by
    all_goals
      simp only [List.length_cons, List.length_tail]
      first
        | omega
        | exact Nat.lt_succ_of_le (dollarPart_length _)

/-- The predicate is of the word where all of it is expanded, and so in turn of the text of
each expression that is come to. -/
def Throughout (P : List UInt8 → Prop) (lookup : ShellLookup) : ℕ → List UInt8 → ShellVariables → Prop
  | 0, _, _ => False
  | calls + 1, word, table => ∀ before after out table',
      shellParts .none word = before ++ after →
      expandParts lookup calls freely [] before table = some (.ok out, table') →
      (after = [] → P word) ∧ ∀ inner rest, after = .arithmetic inner :: rest →
        Throughout P lookup calls inner table'

/-- The tokeniser and the expansion agree about a word: it is expanded where there is room,
unless a name is too long or an expression has no value, and the quotes that are open are
closed; without a `$` its quotes are removed and that is all; and what the lookup supplies
is in the result as it is. -/
structure Agrees (lookup : ShellLookup) (table : ShellVariables) (word : List UInt8) : Prop where
  granted : ∃ room, ∀ capacity, room ≤ capacity → ∃ result,
    shellExpandWord lookup shellExpandCalls word capacity table = some result ∧ Granted result.1
  quotes : Throughout (quotesAfter .none · = .none) lookup shellExpandCalls word table
  unquoted : ¬liveDollar .none word → ∀ capacity, ∃ result,
    shellExpandWord lookup shellExpandCalls word capacity table = some (result, table) ∧
      result.toOption = shellUnquote word capacity
  supplied : ∀ capacity out table' before after name,
    shellExpandWord lookup shellExpandCalls word capacity table = some (.ok out, table') →
    shellParts .none word = before ++ .parameter name :: after → ∃ front middle back,
      expandParts lookup (shellExpandCalls - 1) freely [] before table = some (.ok front, middle) ∧
      expandParts lookup (shellExpandCalls - 1) freely [] after middle = some (.ok back, table') ∧
      out = front ++ (lookup middle name).getD [] ++ back

end OxysOS.Shell
