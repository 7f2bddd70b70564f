import OxysOS.Shell.Arithmetic

/-!
# The shell's word expansion

`userland/sh/expand.c`: parameters and arithmetic are expanded in a word that has its
quotes upon it, and the quotes removed, in one pass.  `ShellExpandWord` is given how many
calls of it and of the arithmetic's functions may be active yet.
-/

namespace OxysOS.Shell

open OxysOS.Library

def shellArithText : ℕ := 512

/-- The returns of `false`: the result has no room, a name is too long, a `$((` has no
parenthesis that closes it, or one that follows no other, its expression is too long, or
the expression is refused with the text of `ShellArithmeticFault`. -/
inductive ShellRefusal
  | room | name | unclosed | split | long
  | arithmetic (fault : String)
  deriving DecidableEq

structure ShellExpansion where
  word : List UInt8
  out : List UInt8
  deriving DecidableEq

abbrev Expanded (α : Type) := Except ShellRefusal α × ShellVariables

def shellExpandPut (capacity : ℕ) (out : List UInt8) (character : UInt8) :
    Except ShellRefusal (List UInt8) :=
  if out.length + 1 ≥ capacity then .error .room else .ok (out ++ [character])

def shellExpandPutString (capacity : ℕ) (out : List UInt8) :
    List UInt8 → Except ShellRefusal (List UInt8)
  | [] => .ok out
  | character :: string =>
      match shellExpandPut capacity out character with
      | .error refusal => .error refusal
      | .ok out => shellExpandPutString capacity out string

def shellExpandWith (capacity : ℕ) (out string rest : List UInt8) : Except ShellRefusal ShellExpansion :=
  match shellExpandPutString capacity out string with
  | .error refusal => .error refusal
  | .ok out => .ok ⟨rest, out⟩

def shellArithInner (enclosed : List UInt8) : List UInt8 :=
  (enclosed.drop 2).take (enclosed.length - 4)

/-- `ShellExpandArithmetic`.  The rest of the word begins with the parentheses, the first of
which is closed where the tokeniser's scan has it. -/
def shellExpandArithmetic (lookup : ShellLookup)
    (expand : List UInt8 → ℕ → ShellVariables → Option (Expanded (List UInt8))) (calls capacity : ℕ)
    (rest out : List UInt8) (table : ShellVariables) : Option (Expanded ShellExpansion) :=
  match afterArithmetic 0 rest with
  | none => some (.error .unclosed, table)
  | some after =>
      let enclosed := rest.take (rest.length - after.length)
      if enclosed.dropLast.getLast? ≠ some (byteOf ')') then some (.error .split, table)
      else if (shellArithInner enclosed).length > shellArithText then some (.error .long, table)
      else do
        let (expanded, table) ← expand (shellArithInner enclosed) (shellArithText + 1) table
        match expanded with
        | .error refusal => some (.error refusal, table)
        | .ok expression =>
            let (value, table) ← shellArithmetic lookup calls expression table
            match value with
            | .error fault => some (.error (.arithmetic fault), table)
            | .ok value => some (shellExpandWith capacity out (shellDecimal value) after, table)

def shellExpandParameter (lookup : ShellLookup) (capacity : ℕ) (rest out : List UInt8)
    (table : ShellVariables) : Except ShellRefusal ShellExpansion :=
  let isNameCharacter := fun character ↦ shellArithIsNameStart character || shellArithIsDigit character
  let put := fun name after ↦ shellExpandWith capacity out ((lookup table name).getD []) after
  let literal := shellExpandWith capacity out [byteOf '$'] rest
  match rest with
  | [] => literal
  | first :: more =>
      if first = byteOf '\x7b' then
        let name := more.takeWhile (· ≠ byteOf '\x7d')
        if name.length > shellNameMaximum then .error .name
        else if name.length = more.length then literal
        else put name (more.drop (name.length + 1))
      else if first = byteOf '?' then put [byteOf '?'] more
      else if shellArithIsNameStart first then
        let name := rest.takeWhile isNameCharacter
        if name.length > shellNameMaximum then .error .name
        else put name (rest.drop name.length)
      else literal

/-- `ShellExpandDollar`, with what follows the `$`. -/
def shellExpandDollar (lookup : ShellLookup)
    (expand : List UInt8 → ℕ → ShellVariables → Option (Expanded (List UInt8))) (calls capacity : ℕ)
    (rest out : List UInt8) (table : ShellVariables) : Option (Expanded ShellExpansion) :=
  if rest.head? = some (byteOf '(') ∧ rest.tail.head? = some (byteOf '(') then
    shellExpandArithmetic lookup expand calls capacity rest out table
  else some (shellExpandParameter lookup capacity rest out table, table)

/-- Where the loop of `ShellExpandWord` is: the quotes that it is within, the word and the
variables. -/
structure ShellExpansionAt where
  quotes : Quotes
  expansion : ShellExpansion
  table : ShellVariables

def shellExpandNext (quotes : Quotes) (table : ShellVariables) :
    Except ShellRefusal ShellExpansion → Expanded (List UInt8) ⊕ ShellExpansionAt
  | .error refusal => .inl (.error refusal, table)
  | .ok expansion => .inr ⟨quotes, expansion, table⟩

/-- One turn of the loops of `ShellExpandWord`. -/
def shellExpandTurn (capacity : ℕ)
    (dollar : List UInt8 → List UInt8 → ShellVariables → Option (Expanded ShellExpansion))
    (state : ShellExpansionAt) : Option (Expanded (List UInt8) ⊕ ShellExpansionAt) :=
  let out := state.expansion.out
  let table := state.table
  let copy := fun quotes character rest ↦
    some (shellExpandNext quotes table (shellExpandWith capacity out [character] rest))
  let go := fun quotes rest ↦ some (.inr ⟨quotes, ⟨rest, out⟩, table⟩)
  let expand := fun quotes rest ↦ do
    let (result, table) ← dollar rest out table
    some (shellExpandNext quotes table result)
  match state.quotes, state.expansion.word with
  | _, [] => some (.inl (.ok out, table))
  | .none, character :: rest =>
      if character = byteOf '\\' then
        match rest with
        | [] => some (.inl (.ok out, table))
        | quoted :: more => if quoted ≠ byteOf '\n' then copy .none quoted more else go .none more
      else if character = byteOf '\'' then go .single rest
      else if character = byteOf '"' then go .double rest
      else if character = byteOf '$' then expand .none rest
      else copy .none character rest
  | .single, character :: rest =>
      if character = byteOf '\'' then go .none rest else copy .single character rest
  | .double, character :: rest =>
      if character = byteOf '"' then go .none rest
      else if character = byteOf '\\' ∧ rest.head?.any shellEscapes then
        if rest.headD 0 ≠ byteOf '\n' then copy .double (rest.headD 0) rest.tail
        else go .double rest.tail
      else if character = byteOf '$' then expand .double rest
      else copy .double character rest

def shellExpandWord (lookup : ShellLookup) :
    ℕ → List UInt8 → ℕ → ShellVariables → Option (Expanded (List UInt8))
  | 0, _, _, _ => none
  | calls + 1, word, capacity, table =>
      if capacity = 0 then some (.error .room, table)
      else turnsOf
        (shellExpandTurn capacity
          (shellExpandDollar lookup (shellExpandWord lookup calls) calls capacity))
        (word.length + 1) ⟨.none, ⟨word, []⟩, table⟩

end OxysOS.Shell
