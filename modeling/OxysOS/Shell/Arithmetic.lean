import OxysOS.Library.Returns
import OxysOS.Shell.Variables

/-!
# The shell's arithmetic

`userland/sh/arith.c`: an expression of the integer operators, evaluated as it is read.
The text is what is left of the expression.  `ShellArithExpression`,
`ShellArithConditional` and `ShellArithUnary` are given how many calls of them may be
active yet, themselves among these, and give nothing where there would be more.
-/

namespace OxysOS.Shell

open OxysOS.Library

/-- `ShellLookup`.  What is found of a name may depend upon the shell's variables. -/
abbrev ShellLookup := ShellVariables → List UInt8 → Option (List UInt8)

/-- `ShellArith`, and the variables that the expression may change. -/
structure ShellArith where
  text : List UInt8
  fault : Option String := none
  depth : ℕ := 0
  table : ShellVariables

def shellArithDepthMaximum : ℕ := 32

/-- `ShellArithFail`.  The first fault is kept. -/
def shellArithFail (arith : ShellArith) (fault : String) : ShellArith :=
  { arith with fault := some (arith.fault.getD fault) }

def shellArithSkipBlanks (arith : ShellArith) : ShellArith :=
  { arith with text := arith.text.dropWhile fun character ↦
      character ∈ [byteOf ' ', byteOf '\t', byteOf '\n'] }

def shellArithLonger (op : String) (after : UInt8) : Bool :=
  op = "<" ∧ (after = byteOf '<' ∨ after = byteOf '=') ∨
  op = ">" ∧ (after = byteOf '>' ∨ after = byteOf '=') ∨
  op = "&" ∧ (after = byteOf '&' ∨ after = byteOf '=') ∨
  op = "|" ∧ (after = byteOf '|' ∨ after = byteOf '=') ∨
  op ∈ ["=", "!", "+", "-", "*", "/", "%", "^", "<<", ">>"] ∧ after = byteOf '='

def shellArithAccept (arith : ShellArith) (op : String) : Bool × ShellArith :=
  let arith := shellArithSkipBlanks arith
  let characters := op.toList.map byteOf
  let after := arith.text.drop characters.length
  if ¬characters.isPrefixOf arith.text ∨ shellArithLonger op (after.headD 0) then (false, arith)
  else (true, { arith with text := after })

def shellArithAcceptAny (arith : ShellArith) : List String → Option String × ShellArith
  | [] => (none, arith)
  | op :: ops =>
      match shellArithAccept arith op with
      | (true, arith) => (some op, arith)
      | (false, arith) => shellArithAcceptAny arith ops

def shellArithIsNameStart (character : UInt8) : Bool :=
  (byteOf 'a' ≤ character ∧ character ≤ byteOf 'z') ∨
    (byteOf 'A' ≤ character ∧ character ≤ byteOf 'Z') ∨ character = byteOf '_'

def shellArithIsDigit (character : UInt8) : Bool :=
  byteOf '0' ≤ character ∧ character ≤ byteOf '9'

def shellArithDigit (character : UInt8) : ℕ :=
  if shellArithIsDigit character then (character - byteOf '0').toNat
  else if byteOf 'a' ≤ character ∧ character ≤ byteOf 'f' then
    (character - byteOf 'a').toNat + 10
  else if byteOf 'A' ≤ character ∧ character ≤ byteOf 'F' then
    (character - byteOf 'A').toNat + 10
  else 16

/-- `ShellArithConstant`.  The value, and what follows the constant. -/
def shellArithConstant (text : List UInt8) : Option (Int64 × List UInt8) :=
  if ¬shellArithIsDigit (text.headD 0) then none
  else
    let hexadecimal : Bool := text.headD 0 = byteOf '0' ∧
      (text.tail.headD 0 = byteOf 'x' ∨ text.tail.headD 0 = byteOf 'X')
    let base := if hexadecimal then 16 else if text.headD 0 = byteOf '0' then 8 else 10
    let start := if hexadecimal then text.drop 2 else text
    let digits := start.takeWhile fun character ↦ shellArithDigit character < base
    let after := start.dropWhile fun character ↦ shellArithDigit character < base
    if hexadecimal ∧ digits = [] ∨ shellArithIsNameStart (after.headD 0) ∨
        shellArithIsDigit (after.headD 0) then none
    else some ((digits.foldl (fun (accumulated : UInt64) character ↦
      accumulated * UInt64.ofNat base + UInt64.ofNat (shellArithDigit character)) 0).toInt64, after)

def shellArithVariable (lookup : ShellLookup) (arith : ShellArith) (name : List UInt8) :
    Int64 × ShellArith :=
  let isBlank : UInt8 → Bool := fun character ↦ character ∈ [byteOf ' ', byteOf '\t']
  match lookup arith.table name with
  | none => (0, arith)
  | some value =>
      if value = [] then (0, arith)
      else
        let value := value.dropWhile isBlank
        let signed : Bool := value.headD 0 = byteOf '+' ∨ value.headD 0 = byteOf '-'
        match shellArithConstant (if signed then value.tail else value) with
        | none => (0, shellArithFail arith "a variable does not hold a number")
        | some (constant, after) =>
            if after.dropWhile isBlank ≠ [] then
              (constant, shellArithFail arith "a variable does not hold a number")
            else (if value.headD 0 = byteOf '-' then 0 - constant else constant, arith)

def shellDecimal (value : Int64) : List UInt8 :=
  (if value < 0 then [byteOf '-'] else []) ++ (Nat.toDigits 10 value.toInt.natAbs).map byteOf

def shellArithStore (arith : ShellArith) (name : List UInt8) (value : Int64) : ShellArith :=
  match shellVariableSet arith.table name (shellDecimal value) with
  | none => shellArithFail arith "a variable could not be set"
  | some table => { arith with table }

def shellArithName (arith : ShellArith) : Option (List UInt8) × ShellArith :=
  let arith := shellArithSkipBlanks arith
  let isNameCharacter := fun character ↦ shellArithIsNameStart character || shellArithIsDigit character
  let name := arith.text.takeWhile isNameCharacter
  if ¬shellArithIsNameStart (arith.text.headD 0) then (none, arith)
  else if name.length > shellNameMaximum then
    (none, shellArithFail { arith with text := arith.text.drop shellNameMaximum }
      "a name is too long")
  else (some name, { arith with text := arith.text.dropWhile isNameCharacter })

def shellArithApply (arith : ShellArith) (op : String) (first second : Int64) (evaluate : Bool) :
    Int64 × ShellArith :=
  if op = "*" then (first * second, arith)
  else if op = "/" ∨ op = "%" then
    if ¬evaluate then (0, arith)
    else if second = 0 then (0, shellArithFail arith "division by zero")
    else if first = Int64.minValue ∧ second = -1 then
      (0, shellArithFail arith "the quotient does not fit")
    else (if op = "/" then first / second else first % second, arith)
  else if op = "+" then (first + second, arith)
  else if op = "-" then (first - second, arith)
  else if op = "<<" then (first <<< (second &&& 63), arith)
  else if op = "<=" then (if first ≤ second then 1 else 0, arith)
  else if op = "<" then (if first < second then 1 else 0, arith)
  else if op = ">>" then (first >>> (second &&& 63), arith)
  else if op = ">=" then (if first ≥ second then 1 else 0, arith)
  else if op = ">" then (if first > second then 1 else 0, arith)
  else if op = "==" then (if first = second then 1 else 0, arith)
  else if op = "!=" then (if first ≠ second then 1 else 0, arith)
  else if op = "&" then (first &&& second, arith)
  else if op = "^" then (first ^^^ second, arith)
  else if op = "|" then (first ||| second, arith)
  else (0, arith)

def shellArithLevels : List (List String) :=
  [["*", "/", "%"], ["+", "-"], ["<<", ">>"], ["<=", ">=", "<", ">"], ["==", "!="], ["&"], ["^"],
    ["|"]]

/-- `SHELL_ARITH_LEVELS` -/
def shellArithLevelCount : ℕ := shellArithLevels.length

def shellArithAssignments : List String :=
  ["=", "*=", "/=", "%=", "+=", "-=", "<<=", ">>=", "&=", "^=", "|="]

abbrev Operand := Bool → ShellArith → Option (Int64 × ShellArith)

def shellArithChain (operand : Operand) (operators : List String)
    (next : Int64 → Bool → Bool)
    (apply : String → Int64 → Int64 → Bool → ShellArith → Int64 × ShellArith) : Operand :=
  fun evaluate arith ↦ do
    let (value, arith) ← operand evaluate arith
    turnsOf (fun (value, arith) ↦
      match shellArithAcceptAny arith operators with
      | (none, arith) => some (.inl (value, arith))
      | (some op, arith) => do
          let (right, arith) ← operand (next value evaluate) arith
          some (.inr (apply op value right evaluate arith)))
      (arith.text.length + 1) (value, arith)

def shellArithBinary (unary : Operand) : ℕ → Operand
  | 0 => shellArithChain unary (shellArithLevels[0]?.getD []) (fun _ evaluate ↦ evaluate)
      fun op value right evaluate arith ↦ shellArithApply arith op value right evaluate
  | level + 1 => shellArithChain (shellArithBinary unary level)
      (shellArithLevels[level + 1]?.getD []) (fun _ evaluate ↦ evaluate)
      fun op value right evaluate arith ↦ shellArithApply arith op value right evaluate

def shellArithAnd (unary : Operand) : Operand :=
  shellArithChain (shellArithBinary unary (shellArithLevelCount - 1)) ["&&"]
    (fun value evaluate ↦ evaluate && value ≠ 0)
    fun _ value right _ arith ↦ (if value ≠ 0 ∧ right ≠ 0 then 1 else 0, arith)

def shellArithOr (unary : Operand) : Operand :=
  shellArithChain (shellArithAnd unary) ["||"] (fun value evaluate ↦ evaluate && value = 0)
    fun _ value right _ arith ↦ (if value ≠ 0 ∨ right ≠ 0 then 1 else 0, arith)

def shellArithPrimary (lookup : ShellLookup) (expression : Operand) : Operand :=
  fun evaluate arith ↦
    match shellArithAccept arith "(" with
    | (true, arith) =>
        if arith.depth ≥ shellArithDepthMaximum then
          some (0, shellArithFail arith "parentheses are nested too deeply")
        else do
          let (value, arith) ← expression evaluate { arith with depth := arith.depth + 1 }
          let arith := { arith with depth := arith.depth - 1 }
          match shellArithAccept arith ")" with
          | (true, arith) => some (value, arith)
          | (false, arith) => some (value, shellArithFail arith "a parenthesis is not closed")
    | (false, arith) =>
        match shellArithConstant arith.text with
        | some (value, after) => some (value, { arith with text := after })
        | none =>
            match shellArithName arith with
            | (some name, arith) =>
                some (if evaluate then shellArithVariable lookup arith name else (0, arith))
            | (none, arith) => some (0, shellArithFail arith "a number or a name was expected")

/-- What an assignment of `ShellArithExpression` does with the value of its right side. -/
def shellArithAssign (lookup : ShellLookup) (name : List UInt8) (op : String) (evaluate : Bool)
    (right : Int64) (arith : ShellArith) : Int64 × ShellArith :=
  let (value, arith) :=
    if op = "=" then (right, arith)
    else
      let (current, arith) := if evaluate then shellArithVariable lookup arith name else (0, arith)
      shellArithApply arith (op.dropEnd 1).toString current right evaluate
  (value, if evaluate ∧ arith.fault = none then shellArithStore arith name value else arith)

mutual

def shellArithExpression (lookup : ShellLookup) : ℕ → Operand
  | 0, _, _ => none
  | calls + 1, evaluate, arith =>
      let start := arith.text
      match shellArithName arith with
      | (some name, arith) =>
          match shellArithAcceptAny arith shellArithAssignments with
          | (some op, arith) => do
              let (right, arith) ← shellArithExpression lookup calls evaluate arith
              some (shellArithAssign lookup name op evaluate right arith)
          | (none, arith) =>
              shellArithConditional lookup calls evaluate { arith with text := start }
      | (none, arith) => shellArithConditional lookup calls evaluate { arith with text := start }

def shellArithConditional (lookup : ShellLookup) : ℕ → Operand
  | 0, _, _ => none
  | calls + 1, evaluate, arith => do
      let (condition, arith) ← shellArithOr (shellArithUnary lookup calls) evaluate arith
      match shellArithAccept arith "?" with
      | (false, arith) => some (condition, arith)
      | (true, arith) =>
          let (first, arith) ←
            shellArithExpression lookup calls (evaluate && condition ≠ 0) arith
          match shellArithAccept arith ":" with
          | (false, arith) => some (0, shellArithFail arith "a \x60?\x60 has no \x60:\x60")
          | (true, arith) =>
              let (second, arith) ←
                shellArithConditional lookup calls (evaluate && condition = 0) arith
              some (if condition ≠ 0 then first else second, arith)

def shellArithUnary (lookup : ShellLookup) : ℕ → Operand
  | 0, _, _ => none
  | calls + 1, evaluate, arith =>
      match shellArithAcceptAny arith ["+", "-", "!", "~"] with
      | (some op, arith) => do
          let (value, arith) ← shellArithUnary lookup calls evaluate arith
          some (if op = "+" then value else if op = "-" then 0 - value
            else if op = "!" then (if value = 0 then 1 else 0) else ~~~value, arith)
      | (none, arith) =>
          shellArithPrimary lookup (shellArithExpression lookup calls) evaluate arith

end

/-- `ShellArithmetic`, with the text of `ShellArithmeticFault` where it refuses. -/
def shellArithmetic (lookup : ShellLookup) (calls : ℕ) (expression : List UInt8)
    (table : ShellVariables) : Option (Except String Int64 × ShellVariables) :=
  let arith := shellArithSkipBlanks { text := expression, table }
  if arith.text = [] then some (.ok 0, table)
  else do
    let (value, arith) ← shellArithExpression lookup calls true arith
    let arith := shellArithSkipBlanks arith
    let fault := if arith.fault = none ∧ arith.text ≠ [] then some "an operator was expected"
      else arith.fault
    match fault with
    | some fault => some (.error fault, arith.table)
    | none => some (.ok value, arith.table)

end OxysOS.Shell
