import OxysOS.Library.Action
import OxysOS.Library.Bytes
import Mathlib.Data.Int.Notation
import Mathlib.Logic.Function.Basic

/-!
# Formatted output

`libc/stdio/format.c`.  A string is the list of the bytes before its end, and the
bytes after the last one are read as zero.  The engine hands its characters to a
destination of any kind, which answers whether it accepted the character.

It stops where an `int` cannot hold a result, or an argument is missing or not of
the type that is asked for: these are undefined.
-/

namespace OxysOS.Libc

open OxysOS.Library

/-- `INT_MAX` -/
def intMaximum : ℕ := 2147483647

/-- `INT32_MIN` -/
def int32Minimum : ℤ := -2147483648

/-- `INT16_MAX` -/
def int16Maximum : ℤ := 32767

def formatDigitsMaximum : ℕ := 32

structure FormatFlags where
  left : Bool := false
  sign : Bool := false
  space : Bool := false
  alternate : Bool := false
  zero : Bool := false
  deriving DecidableEq

inductive FormatLength
  | int | char | short | long | longLong | size | maximum | pointer
  deriving DecidableEq

/-- An argument: an integer or an address in the word that carries it, or a pointer
to a string, which may be null. -/
inductive FormatArgument
  | word (value : BitVec 64)
  | string (text : Option (List UInt8))

inductive FormatStop
  | failed
  | undefined
  deriving DecidableEq

structure Formatting (σ : Type) where
  context : σ
  arguments : List FormatArgument
  produced : ℕ

abbrev Format (σ α : Type) := Action (Formatting σ) FormatStop α

/-- The conversion of a `size_t` to an `int`. -/
def intOfSize (n : ℕ) : ℤ := (BitVec.ofNat 32 n).toInt

/-- A sum of `int`s. -/
def intOfSum {σ : Type} (value : ℤ) : Format σ ℤ :=
  if value ≤ intMaximum then return value else throw .undefined

section Arguments

variable {σ : Type}

def vaArg : Format σ FormatArgument := do
  let state ← get
  match state.arguments with
  | [] => throw .undefined
  | argument :: arguments =>
      set { state with arguments := arguments }
      return argument

/-- `va_arg` of an integer type or of a pointer to an object. -/
def vaWord : Format σ (BitVec 64) := do
  match ← vaArg with
  | .word value => return value
  | .string _ => throw .undefined

/-- `va_arg` of a pointer to characters. -/
def vaString : Format σ (Option (List UInt8)) := do
  match ← vaArg with
  | .word _ => throw .undefined
  | .string text => return text

/-- `va_arg` of an `int`. -/
def vaInt : Format σ ℤ := do return ((← vaWord).setWidth 32).toInt

def formatSigned (length : FormatLength) : Format σ ℤ := do
  let value ← vaWord
  return match length with
    | .char => (value.setWidth 8).toInt
    | .short => (value.setWidth 16).toInt
    | .long | .longLong | .size | .maximum | .pointer => value.toInt
    | .int => (value.setWidth 32).toInt

def formatUnsigned (length : FormatLength) : Format σ ℕ := do
  let value ← vaWord
  return match length with
    | .char => (value.setWidth 8).toNat
    | .short => (value.setWidth 16).toNat
    | .long | .longLong | .size | .maximum | .pointer => value.toNat
    | .int => (value.setWidth 32).toNat

end Arguments

def formatMagnitude (value : ℤ) : ℕ :=
  if value < 0 then (-(value + 1)).toNat + 1 else value.toNat

/-- One of `lower_alphabet` and `upper_alphabet`. -/
def formatAlphabet (upper : Bool) : List UInt8 :=
  (if upper then "0123456789ABCDEF" else "0123456789abcdef").toList.map byteOf

/-- The loop of `FormatDigits`, which goes round at most `FORMAT_DIGITS_MAXIMUM`
times. -/
def formatDigitsLoop (base : ℕ) (upper : Bool) : ℕ → ℕ → List UInt8
  | 0, _ => []
  | room + 1, magnitude =>
      (formatAlphabet upper).getD (magnitude % base) 0 ::
        if magnitude / base = 0 then [] else formatDigitsLoop base upper room (magnitude / base)

/-- `FormatDigits`.  The digits are in reverse. -/
def formatDigits (magnitude base : ℕ) (upper : Bool) : List UInt8 :=
  formatDigitsLoop base upper formatDigitsMaximum magnitude

section Engine

variable {σ : Type} (emit : σ → UInt8 → Bool × σ)

def formatPut (byte : UInt8) : Format σ Unit := do
  let state ← get
  set { state with context := (emit state.context byte).2 }
  if ¬(emit state.context byte).1 then throw .failed
  else if state.produced = intMaximum then throw .undefined
  else modify fun state ↦ { state with produced := state.produced + 1 }

def formatPad (byte : UInt8) : ℕ → Format σ Unit
  | 0 => return
  | count + 1 => do
      formatPut emit byte
      formatPad byte count

def formatPuts : List UInt8 → Format σ Unit
  | [] => return
  | byte :: bytes => do
      formatPut emit byte
      formatPuts bytes

/-- A result with the padding of its field upon the side that the `-` flag selects. -/
def formatField (left : Bool) (spaces : ℤ) (result : Format σ Unit) : Format σ Unit := do
  if ¬left then formatPad emit (byteOf ' ') spaces.toNat
  result
  if left then formatPad emit (byteOf ' ') spaces.toNat

/-- The sign, or the `0x` of the alternative form. -/
def formatLead (magnitude base : ℕ) (upper negative : Bool) (flags : FormatFlags) : List UInt8 :=
  if flags.alternate ∧ base = 16 ∧ magnitude ≠ 0 then
    [byteOf '0', if upper then byteOf 'X' else byteOf 'x']
  else if negative then [byteOf '-']
  else if flags.sign then [byteOf '+']
  else if flags.space then [byteOf ' ']
  else []

/-- The zeroes of the precision, and the one of the alternative form of `o`. -/
def formatZeroes (digits : List UInt8) (base : ℕ) (flags : FormatFlags) (precision : ℤ) : ℤ :=
  let zeroes := if precision > digits.length then precision - digits.length else 0
  if flags.alternate ∧ base = 8 ∧ zeroes = 0 ∧ digits.getLast? ≠ some (byteOf '0') then 1
  else zeroes

def formatInteger (magnitude base : ℕ) (upper negative : Bool) (flags : FormatFlags)
    (width precision : ℤ) : Format σ Unit := do
  let digits := if precision = 0 ∧ magnitude = 0 then [] else formatDigits magnitude base upper
  let lead := formatLead magnitude base upper negative flags
  let zeroes := formatZeroes digits base flags precision
  let body ← intOfSum (lead.length + zeroes + digits.length)
  let spaces := if width > body then width - body else 0
  -- the padding of the field goes inside the sign under the `0` flag
  let inside := flags.zero ∧ ¬flags.left ∧ precision < 0 ∧ spaces > 0
  let zeroes := if inside then zeroes + spaces else zeroes
  let spaces := if inside then 0 else spaces
  formatField emit flags.left spaces do
    formatPuts emit lead
    formatPad emit (byteOf '0') zeroes.toNat
    formatPuts emit digits.reverse

/-- The loop of `FormatString` that measures the string. -/
def formatStringLength (precision : ℤ) (length : ℕ) : List UInt8 → ℕ
  | [] => length
  | byte :: rest =>
      if byte = 0 then length
      else if precision ≥ 0 ∧ length ≥ precision then length
      else formatStringLength precision (length + 1) rest

def formatSpaces (width : ℤ) (length : ℕ) : Format σ ℤ :=
  if width > intOfSize length then intOfSum (width - intOfSize length) else return 0

def formatString (string : Option (List UInt8)) (flags : FormatFlags) (width precision : ℤ) :
    Format σ Unit := do
  let string := string.getD ("(null)".toList.map byteOf)
  let length := formatStringLength precision 0 string
  let spaces ← formatSpaces width length
  formatField emit flags.left spaces (formatPuts emit (string.take length))

/-- The `c` of the engine's switch. -/
def formatCharacter (flags : FormatFlags) (width : ℤ) : Format σ Unit := do
  let byte := UInt8.ofNat ((← vaWord).setWidth 8).toNat
  formatField emit flags.left (if width > 1 then width - 1 else 0) (formatPut emit byte)

/-- The `p` of the engine's switch. -/
def formatPointer (flags : FormatFlags) (width : ℤ) : Format σ Unit := do
  let pointer ← vaWord
  if pointer = 0 then
    formatString emit (some ("0x0".toList.map byteOf)) flags width (-1)
  else
    formatInteger emit pointer.toNat 16 false false { left := flags.left, alternate := true }
      width 1

def formatConvert (conversion : UInt8) (flags : FormatFlags) (length : FormatLength)
    (width precision : ℤ) : Format σ Unit := do
  if conversion = byteOf 'd' ∨ conversion = byteOf 'i' then
    let value ← formatSigned length
    formatInteger emit (formatMagnitude value) 10 false (value < 0) flags width precision
  else if conversion = byteOf 'o' ∨ conversion = byteOf 'u' ∨ conversion = byteOf 'x' ∨
      conversion = byteOf 'X' then
    let value ← formatUnsigned length
    let base := if conversion = byteOf 'o' then 8 else if conversion = byteOf 'u' then 10 else 16
    -- a sign is for a signed conversion only
    formatInteger emit value base (conversion = byteOf 'X') false
      { flags with sign := false, space := false } width precision
  else if conversion = byteOf 'c' then formatCharacter emit flags width
  else if conversion = byteOf 's' then formatString emit (← vaString) flags width precision
  else if conversion = byteOf 'p' then formatPointer emit flags width
  else if conversion = byteOf '%' then formatPut emit (byteOf '%')
  else throw .failed

end Engine

def formatFlags (flags : FormatFlags) : List UInt8 → FormatFlags × List UInt8
  | [] => (flags, [])
  | byte :: rest =>
      if byte = byteOf '-' then formatFlags { flags with left := true } rest
      else if byte = byteOf '+' then formatFlags { flags with sign := true } rest
      else if byte = byteOf ' ' then formatFlags { flags with space := true } rest
      else if byte = byteOf '#' then formatFlags { flags with alternate := true } rest
      else if byte = byteOf '0' then formatFlags { flags with zero := true } rest
      else (flags, byte :: rest)

/-- The loop of `FormatNumber`. -/
def formatNumberLoop (value : ℕ) : List UInt8 → ℕ × List UInt8
  | [] => (value, [])
  | byte :: rest =>
      if byteOf '0' ≤ byte ∧ byte ≤ byteOf '9' then
        let digit := (byte - byteOf '0').toNat
        formatNumberLoop (if value ≤ 32767 / 10 then value * 10 + digit else value) rest
      else (value, byte :: rest)

def formatNumber (rest : List UInt8) : ℕ × List UInt8 := formatNumberLoop 0 rest

section Specification

variable {σ : Type}

def formatWidth (flags : FormatFlags) (rest : List UInt8) :
    Format σ (FormatFlags × ℤ × List UInt8) := do
  if rest.head? = some (byteOf '*') then
    let given ← vaInt
    if given < 0 then
      return ({ flags with left := true },
        if given = int32Minimum then int16Maximum else -given, rest.tail)
    else return (flags, given, rest.tail)
  else return (flags, (formatNumber rest).1, (formatNumber rest).2)

def formatPrecision (rest : List UInt8) : Format σ (ℤ × List UInt8) := do
  if rest.head? = some (byteOf '.') then
    if rest.tail.head? = some (byteOf '*') then
      let given ← vaInt
      return (if given < 0 then -1 else given, rest.tail.tail)
    else return ((formatNumber rest.tail).1, (formatNumber rest.tail).2)
  else return (-1, rest)

def formatLength (rest : List UInt8) : FormatLength × List UInt8 :=
  if rest.head? = some (byteOf 'h') then
    if rest.tail.head? = some (byteOf 'h') then (.char, rest.tail.tail) else (.short, rest.tail)
  else if rest.head? = some (byteOf 'l') then
    if rest.tail.head? = some (byteOf 'l') then (.longLong, rest.tail.tail) else (.long, rest.tail)
  else if rest.head? = some (byteOf 'z') then (.size, rest.tail)
  else if rest.head? = some (byteOf 'j') then (.maximum, rest.tail)
  else if rest.head? = some (byteOf 't') then (.pointer, rest.tail)
  else (.int, rest)

/-- What the engine does from a `%` to the end of the conversion specification. -/
def formatSpecification (emit : σ → UInt8 → Bool × σ) (rest : List UInt8) :
    Format σ (List UInt8) := do
  let (flags, rest) := formatFlags {} rest
  let (flags, width, rest) ← formatWidth flags rest
  let (precision, rest) ← formatPrecision rest
  let (length, rest) := formatLength rest
  -- the byte after the last one is the terminator, and no conversion
  formatConvert emit (rest.headD 0) flags length width precision
  return rest.tail

/-- The loop of `FormatRun`, which goes round at most once for each byte. -/
def formatRunLoop (emit : σ → UInt8 → Bool × σ) : ℕ → List UInt8 → Format σ Unit
  | 0, _ => throw .undefined
  | _ + 1, [] => return
  | room + 1, byte :: rest => do
      if byte = 0 then return
      else if byte ≠ byteOf '%' then
        formatPut emit byte
        formatRunLoop emit room rest
      else
        let rest ← formatSpecification emit rest
        formatRunLoop emit room rest

/-- `FormatRun`.  The result, where there is one, and the destination as it is
left. -/
def formatRun (emit : σ → UInt8 → Bool × σ) (context : σ) (format : Option (List UInt8))
    (arguments : List FormatArgument) : Option ℤ × σ :=
  match format with
  | none => (some (-1), context)
  | some format =>
      match Action.outcome (formatRunLoop emit (format.length + 1) format)
        ⟨context, arguments, 0⟩ with
      | (.ok _, state) => (some state.produced, state.context)
      | (.error .failed, state) => (some (-1), state.context)
      | (.error .undefined, state) => (none, state.context)

end Specification

/-- `FormatArray`.  The buffer may be null. -/
structure FormatArray where
  buffer : Option Bytes
  capacity : ℕ
  used : ℕ

def formatEmitToArray (array : FormatArray) (byte : UInt8) : Bool × FormatArray :=
  if array.used < array.capacity then
    (true, { array with
      buffer := array.buffer.map fun buffer ↦ Function.update buffer array.used byte
      used := array.used + 1 })
  else (true, array)

/-- `vsnprintf`.  The result and the buffer as it is left. -/
def vsnprintf (buffer : Option Bytes) (size : ℕ) (format : Option (List UInt8))
    (arguments : List FormatArgument) : Option ℤ × Option Bytes :=
  if buffer = none ∧ size ≠ 0 then (some (-1), buffer)
  else
    let (produced, array) := formatRun formatEmitToArray ⟨buffer, size - 1, 0⟩ format arguments
    if size = 0 then (produced, array.buffer)
    else (produced, array.buffer.map fun stored ↦ Function.update stored array.used 0)

end OxysOS.Libc
