import OxysOS.Library.Decimal
import OxysOS.Library.FixedPoint
import OxysOS.Library.Noted

/-!
# The calculator

`userland/calculator/engine.c`: arithmetic upon counts of millionths, and what each key does to the
number shown.  A magnitude that the source keeps in a signed word is a natural number here, and a
text is its bytes before the one that ends it.
-/

namespace OxysOS.Userland

open OxysOS.Library Noted

def calcScale : ℕ := 1000000

def calcDecimals : ℕ := 6

def calcLimit : ℕ := 1000000000000000000

def calcDisplayMaximum : ℕ := 32

inductive CalcOperation
  | add | subtract | multiply | divide
  deriving DecidableEq, Repr

inductive CalcFault
  | divide | overflow
  deriving DecidableEq, Repr

/-- `CalcFaultDivide` and `CalcFaultOverflow` -/
def CalcFault.text : CalcFault → List UInt8
  | .divide => "Cannot divide by zero".toList.map fun letter ↦ UInt8.ofNat letter.toNat
  | .overflow => "Overflow".toList.map fun letter ↦ UInt8.ofNat letter.toNat

structure CalcState where
  accumulator : ℤ
  operation : Option CalcOperation
  entry : ℕ
  negative : Bool
  entering : Bool
  point : Bool
  decimals : ℕ
  error : Option CalcFault
  display : List UInt8
  deriving DecidableEq, Repr

def calcMagnitude (value : ℤ) : ℕ := ((if value < 0 then -value else value) % 2 ^ 64).toNat

def calcSigned (magnitude : ℕ) (negative : Bool) : Noted (Except CalcFault ℤ) :=
  if calcLimit ≤ magnitude then return .error .overflow
  else do
    let value ← int64 magnitude
    if negative then return .ok (← int64 (-value))
    else return .ok value

/-- The loop of `CalcApply` over the places of a quotient, with the fraction so far and what
remains. -/
def calcPlaces (divisor : ℕ) : ℕ → ℕ × ℕ → Noted (ℕ × ℕ)
  | 0, state => return state
  | places + 1, (fraction, remainder) => do
      let remainder ← uint64 (remainder * 10)
      let fraction ← uint64 (fraction * 10)
      let fraction ← uint64 (fraction + remainder / divisor)
      calcPlaces divisor places (fraction, remainder % divisor)

def calcApply (operation : CalcOperation) (first second : ℤ) : Noted (Except CalcFault ℤ) := do
  let a := calcMagnitude first
  let b := calcMagnitude second
  let negative := decide (first < 0) != decide (second < 0)
  match operation with
  | .add =>
      let value ← int64 (first + second)
      calcSigned (calcMagnitude value) (value < 0)
  | .subtract =>
      let value ← int64 (first - second)
      calcSigned (calcMagnitude value) (value < 0)
  | .multiply =>
      let ah := a / calcScale
      let al := a % calcScale
      let bh := b / calcScale
      let bl := b % calcScale
      if 2 ^ 64 ≤ ah * bh ∨ calcLimit / calcScale ≤ ah * bh then return .error .overflow
      else
        let magnitude ← uint64 (ah * bh * calcScale)
        let cross ← uint64 (ah * bl)
        let magnitude ← uint64 (magnitude + cross)
        let cross ← uint64 (al * bh)
        let magnitude ← uint64 (magnitude + cross)
        let low ← uint64 (al * bl)
        let low ← uint64 (low + calcScale / 2)
        let magnitude ← uint64 (magnitude + low / calcScale)
        calcSigned magnitude negative
  | .divide =>
      if b = 0 then return .error .divide
      else if calcLimit / calcScale ≤ a / b then return .error .overflow
      else
        let (fraction, remainder) ← calcPlaces b calcDecimals (0, a % b)
        let next ← uint64 (remainder * 10)
        let fraction ← if 5 ≤ next / b then uint64 (fraction + 1) else pure fraction
        let whole ← uint64 (a / b * calcScale)
        let magnitude ← uint64 (whole + fraction)
        calcSigned magnitude negative

def calcPut (capacity : ℕ) (text : List UInt8) : Noted (List UInt8) :=
  note (text.length < capacity) text

def calcDigits (whole : ℕ) : Noted (List UInt8) := note (whole < 10 ^ 24) (lowDigits 24 whole)

/-- The loop of `CalcFormat` over the zeros that end a fraction, with the places that are left. -/
def calcTrim : ℕ → ℕ → ℕ × ℕ
  | 0, fraction => (0, fraction)
  | places + 1, fraction =>
      if fraction ≠ 0 ∧ fraction % 10 = 0 then calcTrim places (fraction / 10)
      else (places + 1, fraction)

def calcFormat (value : ℤ) (capacity : ℕ) : Noted (Option (List UInt8)) := do
  let magnitude := calcMagnitude value
  let digits ← calcDigits (magnitude / calcScale)
  let (places, fraction) := calcTrim calcDecimals (magnitude % calcScale)
  if capacity < digits.length + places + 3 then return none
  else
    let text := decimalText (value < 0 ∧ magnitude ≠ 0) digits.reverse (fraction ≠ 0)
      (highDigits places fraction)
    return some (← calcPut capacity text)

def calcEntryValue (state : CalcState) : Noted ℤ :=
  if state.negative then int64 (-state.entry) else return state.entry

def calcPlaceValue : ℕ → ℕ
  | 0 => calcScale
  | place + 1 => calcPlaceValue place / 10

def calcShowEntry (state : CalcState) : Noted CalcState := do
  let digits ← calcDigits (state.entry / calcScale)
  let places := (List.range state.decimals).map fun place ↦
    decimalByte (state.entry / calcPlaceValue (place + 1) % 10)
  let text := decimalText state.negative digits.reverse state.point places
  return { state with display := ← calcPut calcDisplayMaximum text }

def calcShowValue (state : CalcState) (value : ℤ) : Noted CalcState := do
  match ← calcFormat value calcDisplayMaximum with
  | some text => return { state with display := text }
  | none => return { state with error := some .overflow }

def calcShowError (state : CalcState) (fault : CalcFault) : CalcState :=
  { state with display := fault.text.take (calcDisplayMaximum - 1) }

def calcReset : CalcState where
  accumulator := 0
  operation := none
  entry := 0
  negative := false
  entering := false
  point := false
  decimals := 0
  error := none
  display := [0x30]

def calcBeginEntry (state : CalcState) : CalcState :=
  if !state.entering then
    { state with entry := 0, negative := false, point := false, decimals := 0, entering := true }
  else state

def calcDigit (state : CalcState) (digit : ℕ) : Noted CalcState := do
  let state := calcBeginEntry state
  if state.point then
    if state.decimals < calcDecimals then
      let decimals := state.decimals + 1
      let added ← magnitude64 (digit * calcPlaceValue decimals)
      let entry ← magnitude64 (state.entry + added)
      calcShowEntry { state with entry, decimals }
    else calcShowEntry state
  else
    let whole ← magnitude64 (state.entry / calcScale * 10)
    let whole ← magnitude64 (whole + digit)
    if whole < calcLimit / calcScale then
      let scaled ← magnitude64 (whole * calcScale)
      let entry ← magnitude64 (scaled + state.entry % calcScale)
      calcShowEntry { state with entry }
    else calcShowEntry state

def calcBackspace (state : CalcState) : Noted CalcState := do
  if !state.entering then return state
  else if state.point ∧ 0 < state.decimals then
    let place := calcPlaceValue state.decimals
    let last ← magnitude64 (state.entry / place % 10 * place)
    calcShowEntry { state with entry := state.entry - last, decimals := state.decimals - 1 }
  else if state.point then calcShowEntry { state with point := false }
  else
    let entry ← magnitude64 (state.entry / calcScale / 10 * calcScale)
    calcShowEntry { state with entry }

def calcCarryOut (state : CalcState) (value : ℤ) : Noted (Except CalcFault ℤ) :=
  match state.operation with
  | none => return .ok value
  | some operation => calcApply operation state.accumulator value

/-- `CalcResolve`, with whether it was carried out. -/
def calcResolve (state : CalcState) : Noted (Bool × CalcState) := do
  let value ← calcEntryValue state
  match ← calcCarryOut state value with
  | .error fault => return (false, calcShowError { state with error := some fault } fault)
  | .ok result =>
      let state ← calcShowValue { state with accumulator := result } result
      match state.error with
      | some fault => return (false, calcShowError state fault)
      | none => return (true, state)

def calcTakeHeld (state : CalcState) : CalcState :=
  if !state.entering then
    { state with entry := calcMagnitude state.accumulator, negative := state.accumulator < 0 }
  else state

def calcOperator (state : CalcState) (operation : CalcOperation) : Noted CalcState := do
  if state.entering ∨ state.operation = none then
    let (resolved, state) ← calcResolve (calcTakeHeld state)
    if !resolved then return state
    else return { state with operation := some operation, entering := false }
  else return { state with operation := some operation, entering := false }

def calcEquals (state : CalcState) : Noted CalcState := do
  if state.operation = none then return state
  else
    let (resolved, state) ← calcResolve (calcTakeHeld state)
    if resolved then return { state with operation := none, entering := false }
    else return state

def calcNegate (state : CalcState) : Noted CalcState := do
  if state.entering then
    calcShowEntry { state with negative := !state.negative && state.entry ≠ 0 }
  else
    let accumulator ← int64 (-state.accumulator)
    calcShowValue { state with accumulator } accumulator

/-- The loop of `CalcPercent` that counts the places of a fraction, for so many places. -/
def calcCountPlaces : ℕ → ℕ → ℕ → ℕ
  | 0, _, decimals => decimals
  | fuel + 1, rest, decimals =>
      if rest = 0 then decimals
      else calcCountPlaces fuel (rest % calcPlaceValue (decimals + 1)) (decimals + 1)

def calcShownValue (state : CalcState) : Noted ℤ :=
  if state.entering then calcEntryValue state else return state.accumulator

def calcPercent (state : CalcState) : Noted CalcState := do
  let value ← calcShownValue state
  match ← calcApply .divide value (100 * calcScale) with
  | .error fault => return calcShowError { state with error := some fault } fault
  | .ok value =>
      let entry := calcMagnitude value
      calcShowEntry { state with
        entry
        negative := value < 0
        entering := true
        point := entry % calcScale ≠ 0
        decimals := calcCountPlaces calcDecimals (entry % calcScale) 0 }

/-- `CalcKey`, once there is no message. -/
def calcKeyPressed (state : CalcState) (key : UInt8) : Noted CalcState :=
  if 0x30 ≤ key ∧ key ≤ 0x39 then calcDigit state (key.toNat - 0x30)
  else if key = 0x2E then calcShowEntry { calcBeginEntry state with point := true }
  else if key = 0x2B then calcOperator state .add
  else if key = 0x2D then calcOperator state .subtract
  else if key = 0x2A then calcOperator state .multiply
  else if key = 0x2F then calcOperator state .divide
  else if key = 0x3D then calcEquals state
  else if key = 0x43 then return calcReset
  else if key = 0x62 then calcBackspace state
  else if key = 0x6E then calcNegate state
  else if key = 0x25 then calcPercent state
  else return state

def calcKey (state : CalcState) (key : UInt8) : Noted CalcState :=
  if state.error ≠ none then
    if key = 0x43 ∨ key = 0x62 then return calcReset
    else calcKeyPressed calcReset key
  else calcKeyPressed state key

/-- The keys from `CalcReset` on. -/
def calcKeys (keys : List UInt8) : Noted CalcState := keys.foldlM calcKey calcReset

end OxysOS.Userland
