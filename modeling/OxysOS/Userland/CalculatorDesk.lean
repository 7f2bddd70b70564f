import OxysOS.Userland.CalculatorDisplay

/-!
# A calculator over the rationals

What a desk calculator does at each key, with the number typed and the number held as rationals.
Every sum and difference is exact and every product, quotient and percentage is rounded to
millionths, half away from zero.
-/

namespace OxysOS.Userland

open OxysOS.Library

structure Typed where
  magnitude : ℚ
  negative : Bool
  point : Bool
  places : ℕ

def Typed.blank : Typed where
  magnitude := 0
  negative := false
  point := false
  places := 0

def Typed.value (t : Typed) : ℚ := if t.negative then -t.magnitude else t.magnitude

def Typed.digit (t : Typed) (digit : ℕ) : Typed :=
  if t.point then
    if t.places < 6 then
      { t with magnitude := t.magnitude + digit / 10 ^ (t.places + 1), places := t.places + 1 }
    else t
  else if t.magnitude * 10 + digit < 10 ^ 12 then { t with magnitude := t.magnitude * 10 + digit }
  else t

def Typed.back (t : Typed) : Typed :=
  if t.point ∧ 0 < t.places then
    { t with
      magnitude := ⌊t.magnitude * 10 ^ (t.places - 1)⌋ / 10 ^ (t.places - 1)
      places := t.places - 1 }
  else if t.point then { t with point := false }
  else { t with magnitude := ⌊t.magnitude / 10⌋ }

def placesOf : ℕ → ℚ → ℕ
  | 0, _ => 0
  | room + 1, q => if (⌊q⌋ : ℚ) = q then 0 else placesOf room (q * 10) + 1

def Typed.standing (q : ℚ) : Typed where
  magnitude := |q|
  negative := q < 0
  point := (⌊|q|⌋ : ℚ) ≠ |q|
  places := placesOf 6 |q|

structure Desk where
  held : ℚ
  pending : Option CalcOperation
  typed : Option Typed
  fault : Option CalcFault

def Desk.clear : Desk where
  held := 0
  pending := none
  typed := none
  fault := none

def Desk.shown (d : Desk) : ℚ :=
  match d.typed with
  | some t => t.value
  | none => d.held

def deskRound (q : ℚ) : ℚ := roundAway (q * 10 ^ 6) / 10 ^ 6

def deskExact (operation : CalcOperation) (first second : ℚ) : ℚ :=
  match operation with
  | .add => first + second
  | .subtract => first - second
  | .multiply => deskRound (first * second)
  | .divide => deskRound (first / second)

def deskApply (operation : CalcOperation) (first second : ℚ) : Except CalcFault ℚ :=
  if operation = .divide ∧ second = 0 then .error .divide
  else if 10 ^ 12 ≤ |deskExact operation first second| then .error .overflow
  else .ok (deskExact operation first second)

def Desk.resolve (d : Desk) : Except CalcFault ℚ :=
  match d.pending with
  | none => .ok d.shown
  | some operation => deskApply operation d.held d.shown

def Desk.settle (d : Desk) (pending : Option CalcOperation) : Desk :=
  match d.resolve with
  | .error fault => { d with fault := some fault }
  | .ok held => { d with held, pending, typed := none }

def Desk.operator (d : Desk) (operation : CalcOperation) : Desk :=
  if d.typed.isSome ∨ d.pending = none then d.settle (some operation)
  else { d with pending := some operation }

def Desk.equals (d : Desk) : Desk := if d.pending = none then d else d.settle none

def Desk.negate (d : Desk) : Desk :=
  match d.typed with
  | some t => { d with typed := some { t with negative := !t.negative && t.magnitude ≠ 0 } }
  | none => { d with held := -d.held }

def Desk.percent (d : Desk) : Desk :=
  match deskApply .divide d.shown 100 with
  | .error fault => { d with fault := some fault }
  | .ok q => { d with typed := some (.standing q) }

def Desk.pressed (d : Desk) (key : UInt8) : Desk :=
  if 0x30 ≤ key ∧ key ≤ 0x39 then
    { d with typed := some ((d.typed.getD .blank).digit (key.toNat - 0x30)) }
  else if key = 0x2E then { d with typed := some { d.typed.getD .blank with point := true } }
  else if key = 0x2B then d.operator .add
  else if key = 0x2D then d.operator .subtract
  else if key = 0x2A then d.operator .multiply
  else if key = 0x2F then d.operator .divide
  else if key = 0x3D then d.equals
  else if key = 0x43 then .clear
  else if key = 0x62 then { d with typed := d.typed.map Typed.back }
  else if key = 0x6E then d.negate
  else if key = 0x25 then d.percent
  else d

def Desk.press (d : Desk) (key : UInt8) : Desk :=
  if d.fault ≠ none then
    if key = 0x43 ∨ key = 0x62 then .clear else Desk.clear.pressed key
  else d.pressed key

def deskKeys (keys : List UInt8) : Desk := keys.foldl Desk.press .clear

theorem scale_cast : ((calcScale : ℕ) : ℚ) = 10 ^ 6 := by
  norm_num [calcScale]

theorem deskExact_scaled (operation : CalcOperation) (first second : ℤ) :
    deskExact operation ((first : ℚ) / calcScale) ((second : ℚ) / calcScale) =
      (calcResult operation first second : ℚ) / calcScale := by
  cases operation with
  | add => simp only [deskExact, calcResult, Int.cast_add, add_div]
  | subtract => simp only [deskExact, calcResult, Int.cast_sub, sub_div]
  | multiply =>
      have hproduct : (first : ℚ) / 10 ^ 6 * (second / 10 ^ 6) * 10 ^ 6 = first * second / 10 ^ 6 := by
        ring
      simp only [deskExact, calcResult, deskRound, scale_cast, hproduct]
  | divide =>
      have hquotient : (first : ℚ) / 10 ^ 6 / (second / 10 ^ 6) * 10 ^ 6 = first * 10 ^ 6 / second := by
        rw [div_div_div_cancel_right₀ (by norm_num)]
        ring
      simp only [deskExact, calcResult, deskRound, scale_cast, hquotient]

theorem limit_scaled (value : ℤ) : 10 ^ 12 ≤ |(value : ℚ) / calcScale| ↔ calcLimit ≤ value.natAbs := by
  have hscale : (0 : ℚ) < 10 ^ 6 := by norm_num
  have hlimit : ((calcLimit : ℕ) : ℚ) = 10 ^ 12 * 10 ^ 6 := by norm_num [calcLimit]
  rw [scale_cast, abs_div, abs_of_pos hscale, le_div_iff₀ hscale, ← hlimit, ← Int.cast_abs,
    Int.abs_eq_natAbs, Int.cast_natCast, Nat.cast_le]

theorem deskApply_scaled (operation : CalcOperation) (first second : ℤ) :
    deskApply operation ((first : ℚ) / calcScale) ((second : ℚ) / calcScale) =
      (if operation = .divide ∧ second = 0 then .error .divide
        else calcJudge (calcResult operation first second)).map fun value ↦ (value : ℚ) / calcScale := by
  have hzero : (second : ℚ) / calcScale = 0 ↔ second = 0 := by
    simp [scale_cast]
  unfold deskApply calcJudge
  rw [deskExact_scaled]
  simp only [hzero, limit_scaled]
  split
  · rfl
  · split <;> rfl

end OxysOS.Userland
