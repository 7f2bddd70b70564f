import OxysOS.Libc.Format
import Mathlib.Data.Nat.Digits.Defs

/-!
# What a format is to produce

ISO/IEC 9899:2011, Section 7.21.6.1, for the conversions of integers, characters, strings
and pointers.  A format is read as directives, and each directive is rendered with the
arguments it takes.
-/

namespace OxysOS.Libc

open OxysOS.Library

inductive FormatField
  | number (value : ℕ)
  | asterisk
  deriving DecidableEq

structure FormatSpecification where
  flags : List UInt8
  width : FormatField
  precision : Option FormatField
  length : FormatLength
  conversion : UInt8
  deriving DecidableEq

inductive FormatDirective
  | literal (byte : UInt8)
  | conversion (specification : FormatSpecification)
  deriving DecidableEq

def isFlagByte (byte : UInt8) : Bool := byte ∈ "-+ #0".toList.map byteOf

def isDigitByte (byte : UInt8) : Bool := byteOf '0' ≤ byte ∧ byte ≤ byteOf '9'

def appendDigit (value : ℕ) (digit : UInt8) : ℕ := 10 * value + (digit - byteOf '0').toNat

def decimalOf (digits : List UInt8) : ℕ := digits.foldl appendDigit 0

def FormatField.read (text : List UInt8) : FormatField × List UInt8 :=
  if text.head? = some (byteOf '*') then (.asterisk, text.tail)
  else (.number (decimalOf (text.takeWhile isDigitByte)), text.dropWhile isDigitByte)

def readPrecision (text : List UInt8) : Option FormatField × List UInt8 :=
  if text.head? = some (byteOf '.') then
    (some (FormatField.read text.tail).1, (FormatField.read text.tail).2)
  else (none, text)

def lengthModifiers : List (List UInt8 × FormatLength) :=
  [([byteOf 'h', byteOf 'h'], .char), ([byteOf 'h'], .short),
    ([byteOf 'l', byteOf 'l'], .longLong), ([byteOf 'l'], .long),
    ([byteOf 'z'], .size), ([byteOf 'j'], .maximum), ([byteOf 't'], .pointer)]

def FormatLength.read (text : List UInt8) : FormatLength × List UInt8 :=
  match lengthModifiers.find? fun modifier ↦ modifier.1.isPrefixOf text with
  | some (spelling, length) => (length, text.drop spelling.length)
  | none => (.int, text)

/-- What follows a `%`, up to the end of the conversion specification. -/
def FormatSpecification.read (text : List UInt8) : FormatSpecification × List UInt8 :=
  let flags := text.takeWhile isFlagByte
  let width := FormatField.read (text.dropWhile isFlagByte)
  let precision := readPrecision width.2
  let length := FormatLength.read precision.2
  ({ flags := flags, width := width.1, precision := precision.1, length := length.1,
     conversion := length.2.headD 0 }, length.2.tail)

theorem FormatField.read_length (text : List UInt8) :
    (FormatField.read text).2.length ≤ text.length := by
  unfold FormatField.read
  split
  · exact (List.tail_sublist text).length_le
  · exact (List.dropWhile_sublist _).length_le

theorem readPrecision_length (text : List UInt8) :
    (readPrecision text).2.length ≤ text.length := by
  unfold readPrecision
  split
  · exact (FormatField.read_length _).trans (List.tail_sublist text).length_le
  · exact le_rfl

theorem FormatLength.read_length (text : List UInt8) :
    (FormatLength.read text).2.length ≤ text.length := by
  unfold FormatLength.read
  split
  · exact (List.drop_sublist _ text).length_le
  · exact le_rfl

theorem FormatSpecification.read_length (text : List UInt8) :
    (FormatSpecification.read text).2.length ≤ text.length :=
  (List.tail_sublist _).length_le.trans
    ((FormatLength.read_length _).trans
      ((readPrecision_length _).trans
        ((FormatField.read_length _).trans (List.dropWhile_sublist _).length_le)))

/-- The directives of a format, of paragraph 3. -/
def directives : List UInt8 → List FormatDirective
  | [] => []
  | byte :: text =>
      if byte = 0 then []
      else if byte = byteOf '%' then
        .conversion (FormatSpecification.read text).1 ::
          directives (FormatSpecification.read text).2
      else .literal byte :: directives text
  termination_by text => text.length
  decreasing_by
    · exact Nat.lt_succ_of_le (FormatSpecification.read_length text)
    · exact Nat.lt_succ_self _

structure FormatShape where
  flags : List UInt8
  width : ℕ
  precision : Option ℕ

namespace FormatShape

variable (shape : FormatShape)

def has (flag : Char) : Bool := byteOf flag ∈ shape.flags

def field (result : List UInt8) : List UInt8 :=
  let padding := List.replicate (shape.width - result.length) (byteOf ' ')
  if shape.has '-' then result ++ padding else padding ++ result

/-- A number within its field.  The `0` flag pads it with zeroes after the sign or
the base, unless the `-` flag or a precision is there. -/
def number (lead digits : List UInt8) : List UInt8 :=
  if shape.has '0' ∧ ¬shape.has '-' ∧ shape.precision = none then
    lead ++ List.replicate (shape.width - (lead.length + digits.length)) (byteOf '0') ++ digits
  else shape.field (lead ++ digits)

end FormatShape

def digitByte (upper : Bool) (digit : ℕ) : UInt8 :=
  if digit < 10 then byteOf '0' + UInt8.ofNat digit
  else (if upper then byteOf 'A' else byteOf 'a') + UInt8.ofNat (digit - 10)

def digitBytes (base : ℕ) (upper : Bool) (n : ℕ) : List UInt8 :=
  ((Nat.digits base n).map (digitByte upper)).reverse

namespace FormatShape

variable (shape : FormatShape)

def digits (base : ℕ) (upper : Bool) (n : ℕ) : List UInt8 :=
  List.replicate (shape.precision.getD 1 - (digitBytes base upper n).length) (byteOf '0') ++
    digitBytes base upper n

/-- `d` and `i` -/
def signed (value : ℤ) : List UInt8 :=
  shape.number
    (if value < 0 then [byteOf '-']
      else if shape.has '+' then [byteOf '+']
      else if shape.has ' ' then [byteOf ' ']
      else [])
    (shape.digits 10 false value.natAbs)

/-- `o`, of which the alternative form makes the first digit a zero. -/
def octal (value : ℕ) : List UInt8 :=
  let digits := shape.digits 8 false value
  shape.number []
    (if shape.has '#' ∧ digits.head? ≠ some (byteOf '0') then byteOf '0' :: digits else digits)

/-- `x` and `X`, of which the alternative form names the base of a value that is not
zero. -/
def hexadecimal (upper : Bool) (value : ℕ) : List UInt8 :=
  shape.number
    (if shape.has '#' ∧ value ≠ 0 then
      [byteOf '0', if upper then byteOf 'X' else byteOf 'x'] else [])
    (shape.digits 16 upper value)

/-- `s`, of which the precision is the greatest count.  A null pointer is shown. -/
def text (string : Option (List UInt8)) : List UInt8 :=
  let string := (string.getD ("(null)".toList.map byteOf)).takeWhile (· ≠ 0)
  shape.field (match shape.precision with
    | some precision => string.take precision
    | none => string)

/-- `p`, the hexadecimal digits of the address after `0x`. -/
def pointer (address : ℕ) : List UInt8 :=
  shape.field ([byteOf '0', byteOf 'x'] ++
    if address = 0 then [byteOf '0'] else digitBytes 16 false address)

end FormatShape

def FormatLength.bits : FormatLength → ℕ
  | char => 8
  | short => 16
  | int => 32
  | long | longLong | size | maximum | pointer => 64

def takeWord : List FormatArgument → Option (BitVec 64 × List FormatArgument)
  | .word value :: arguments => some (value, arguments)
  | _ => none

def takeString : List FormatArgument → Option (Option (List UInt8) × List FormatArgument)
  | .string text :: arguments => some (text, arguments)
  | _ => none

/-- An asterisk takes an argument of type `int`. -/
def FormatField.value (arguments : List FormatArgument) :
    FormatField → Option (ℤ × List FormatArgument)
  | number value => some (value, arguments)
  | asterisk => (takeWord arguments).map fun taken ↦ ((taken.1.setWidth 32).toInt, taken.2)

def precisionValue (arguments : List FormatArgument) :
    Option FormatField → Option (ℤ × List FormatArgument)
  | none => some (-1, arguments)
  | some precision => precision.value arguments

namespace FormatSpecification

variable (specification : FormatSpecification)

/-- A negative width is the `-` flag and a width, and a negative precision is
none. -/
def shape (arguments : List FormatArgument) : Option (FormatShape × List FormatArgument) := do
  let (width, arguments) ← specification.width.value arguments
  let (precision, arguments) ← precisionValue arguments specification.precision
  some ({ flags := if width < 0 then byteOf '-' :: specification.flags else specification.flags
          width := width.natAbs
          precision := if precision < 0 then none else some precision.toNat }, arguments)

def Named : Prop := specification.conversion ∈ "diouxXcsp%".toList.map byteOf

/-- A conversion of wide characters, which the library's header leaves out. -/
def Wide : Prop := specification.length = .long ∧
  specification.conversion ∈ "cs".toList.map byteOf

instance : Decidable specification.Named := inferInstanceAs (Decidable (_ ∈ _))

instance : Decidable specification.Wide := inferInstanceAs (Decidable (_ ∧ _))

def convert (shape : FormatShape) (arguments : List FormatArgument) :
    Option (List UInt8 × List FormatArgument) :=
  let integer := fun render : BitVec specification.length.bits → List UInt8 ↦
    (takeWord arguments).map fun taken ↦ (render (taken.1.setWidth _), taken.2)
  if specification.conversion ∈ "di".toList.map byteOf then
    integer fun value ↦ shape.signed value.toInt
  else if specification.conversion = byteOf 'o' then
    integer fun value ↦ shape.octal value.toNat
  else if specification.conversion = byteOf 'u' then
    integer fun value ↦ shape.number [] (shape.digits 10 false value.toNat)
  else if specification.conversion ∈ "xX".toList.map byteOf then
    integer fun value ↦
      shape.hexadecimal (specification.conversion = byteOf 'X') value.toNat
  else if specification.conversion = byteOf 'c' then
    (takeWord arguments).map fun taken ↦
      (shape.field [UInt8.ofNat (taken.1.setWidth 8).toNat], taken.2)
  else if specification.conversion = byteOf 's' then
    (takeString arguments).map fun taken ↦ (shape.text taken.1, taken.2)
  else if specification.conversion = byteOf 'p' then
    (takeWord arguments).map fun taken ↦ (shape.pointer taken.1.toNat, taken.2)
  else some ([byteOf '%'], arguments)

end FormatSpecification

structure FormatShape.Within (shape : FormatShape) (bound : ℕ) : Prop where
  width : shape.width ≤ bound
  precision : shape.precision.getD 0 ≤ bound

instance (shape : FormatShape) (bound : ℕ) : Decidable (shape.Within bound) :=
  decidable_of_iff (shape.width ≤ bound ∧ shape.precision.getD 0 ≤ bound)
    ⟨fun h ↦ ⟨h.1, h.2⟩, fun h ↦ ⟨h.1, h.2⟩⟩

/-- What directives produce up to the first conversion that is not named.  There is
something where each argument is of the type that is asked for, and each width and
each precision of a named conversion is at most 32767. -/
def rendering : List FormatDirective → List FormatArgument → Option (List UInt8)
  | [], _ => some []
  | .literal byte :: rest, arguments => (rendering rest arguments).map (byte :: ·)
  | .conversion specification :: rest, arguments =>
      (specification.shape arguments).bind fun shaped ↦
        if ¬specification.Named then some []
        else if shaped.1.Within 32767 then
          (specification.convert shaped.1 shaped.2).bind fun converted ↦
            (rendering rest converted.2).map (converted.1 ++ ·)
        else none

end OxysOS.Libc
