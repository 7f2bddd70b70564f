import OxysOS.Userland.Calculator

/-!
# The calculator's arithmetic

Within its bounds every step of it fits its word, and each result is the exact one, rounded to
millionths.
-/

namespace OxysOS.Userland

open OxysOS.Library Noted

variable {first second : ℤ} {operation : CalcOperation}

def calcJudge (value : ℤ) : Except CalcFault ℤ :=
  if calcLimit ≤ value.natAbs then .error .overflow else .ok value

def calcResult (operation : CalcOperation) (first second : ℤ) : ℤ :=
  match operation with
  | .add => first + second
  | .subtract => first - second
  | .multiply => roundAway ((first : ℚ) * second / calcScale)
  | .divide => roundAway ((first : ℚ) * calcScale / second)

theorem calcMagnitude_eq {value : ℤ} (h : value.natAbs < 2 ^ 63) :
    calcMagnitude value = value.natAbs := by
  unfold calcMagnitude
  have habs : (if value < 0 then -value else value) = (value.natAbs : ℤ) := by
    split <;> omega
  rw [habs, Int.emod_eq_of_lt (by omega) (by omega), Int.toNat_natCast]

theorem calcSigned_eq (magnitude : ℕ) (negative : Bool) :
    calcSigned magnitude negative =
      pure (calcJudge (if negative then -magnitude else magnitude)) := by
  have habs : (if negative then -(magnitude : ℤ) else magnitude).natAbs = magnitude := by
    cases negative <;> simp
  unfold calcSigned calcJudge
  rw [habs]
  by_cases hlimit : calcLimit ≤ magnitude
  · rw [if_pos hlimit, if_pos hlimit]
  · have hlt : magnitude < 1000000000000000000 := Nat.lt_of_not_le hlimit
    rw [if_neg hlimit, if_neg hlimit, int64_eq (by omega), pure_bind]
    cases negative with
    | false => rfl
    | true =>
        rw [if_pos rfl, int64_eq (by omega)]
        rfl

theorem calcPlaces_eq {divisor : ℕ} (hdivisor : divisor < calcLimit) {places : ℕ} {bound : ℕ}
    (hbound : bound * 10 ^ places ≤ 1000000) {fraction remainder : ℕ} (hfraction : fraction < bound)
    (hremainder : remainder < divisor) :
    calcPlaces divisor places (fraction, remainder) =
      pure (furtherDigits divisor places (fraction, remainder)) := by
  induction places generalizing bound fraction remainder with
  | zero => rfl
  | succ places ih =>
      have hlimit : divisor < 1000000000000000000 := hdivisor
      have hdigit : remainder * 10 / divisor < 10 := Nat.div_lt_of_lt_mul (by omega)
      have hpow : 1 ≤ 10 ^ (places + 1) := Nat.one_le_pow _ _ (by decide)
      have hsmall : bound ≤ 1000000 := (Nat.le_mul_of_pos_right bound hpow).trans hbound
      rw [calcPlaces, uint64_eq (by omega), pure_bind, uint64_eq (by omega), pure_bind,
        uint64_eq (by omega), pure_bind, furtherDigits]
      have hnext : bound * 10 * 10 ^ places ≤ 1000000 := by
        rwa [pow_succ', ← Nat.mul_assoc] at hbound
      exact ih hnext (by omega) (Nat.mod_lt _ (by omega))

theorem roundAway_signed (negative : Bool) (n : ℕ) {d : ℕ} (hd : 0 < d) :
    roundAway (if negative then -((n : ℚ) / d) else n / d) =
      if negative then -(roundedQuotient n d : ℤ) else roundedQuotient n d := by
  cases negative with
  | false => exact roundAway_div hd
  | true =>
      rw [if_pos rfl, if_pos rfl, roundAway_neg, roundAway_div hd]

theorem cast_signed (a : ℤ) :
    (a : ℚ) = if decide (a < 0) then -(a.natAbs : ℚ) else (a.natAbs : ℚ) := by
  by_cases h : a < 0
  · have ha : a = -(a.natAbs : ℤ) := by omega
    rw [if_pos (decide_eq_true h)]
    calc (a : ℚ) = ((-(a.natAbs : ℤ) : ℤ) : ℚ) := congrArg _ ha
      _ = _ := by rw [Int.cast_neg, Int.cast_natCast]
  · have ha : a = (a.natAbs : ℤ) := by omega
    rw [if_neg (by simpa using h)]
    calc (a : ℚ) = ((a.natAbs : ℤ) : ℚ) := congrArg _ ha
      _ = _ := Int.cast_natCast _

theorem signed_natAbs (a : ℤ) :
    a = if decide (a < 0) then -(a.natAbs : ℤ) else (a.natAbs : ℤ) := by
  by_cases h : a < 0
  · rw [if_pos (decide_eq_true h)]
    omega
  · rw [if_neg (by simpa using h)]
    omega

theorem product_signed (a b : ℤ) (r : ℚ) :
    (a : ℚ) * b * r =
      if decide (a < 0) != decide (b < 0) then -((a.natAbs * b.natAbs : ℕ) * r : ℚ)
      else ((a.natAbs * b.natAbs : ℕ) * r : ℚ) := by
  rw [cast_signed a, cast_signed b]
  cases decide (a < 0) <;> cases decide (b < 0) <;> simp

theorem calcResult_multiply (first second : ℤ) :
    calcResult .multiply first second =
      if decide (first < 0) != decide (second < 0) then
        -(roundedQuotient (first.natAbs * second.natAbs) calcScale : ℤ)
      else roundedQuotient (first.natAbs * second.natAbs) calcScale := by
  have hscale : 0 < calcScale := by decide
  have hproduct := product_signed first second (1 / calcScale)
  rw [← roundAway_signed _ _ hscale]
  unfold calcResult
  rw [← mul_one_div, hproduct]
  simp only [mul_one_div]

theorem calcResult_divide (first second : ℤ) (h : second ≠ 0) :
    calcResult .divide first second =
      if decide (first < 0) != decide (second < 0) then
        -(roundedQuotient (first.natAbs * calcScale) second.natAbs : ℤ)
      else roundedQuotient (first.natAbs * calcScale) second.natAbs := by
  have hpositive : 0 < second.natAbs := Int.natAbs_pos.mpr h
  rw [← roundAway_signed _ _ hpositive]
  unfold calcResult
  rw [cast_signed first, cast_signed second]
  cases decide (first < 0) <;> cases decide (second < 0) <;> simp [neg_div, div_neg]

theorem calcJudge_signed (negative : Bool) (magnitude : ℕ) :
    calcJudge (if negative then -(magnitude : ℤ) else magnitude) =
      if calcLimit ≤ magnitude then .error .overflow
      else .ok (if negative then -(magnitude : ℤ) else magnitude) := by
  unfold calcJudge
  cases negative <;> simp

theorem parts_lt {a : ℕ} (h : a < calcLimit) :
    a / calcScale < 1000000000000 ∧ a % calcScale < 1000000 := by
  have hlimit : calcLimit = calcScale * 1000000000000 := rfl
  rw [hlimit] at h
  exact ⟨Nat.div_lt_of_lt_mul h, Nat.mod_lt _ (by decide)⟩

theorem calcApply_multiply (hfirst : first.natAbs < calcLimit) (hsecond : second.natAbs < calcLimit) :
    calcApply .multiply first second = pure (calcJudge (calcResult .multiply first second)) := by
  have hlt : first.natAbs < 2 ^ 63 := hfirst.trans (by decide)
  have hlt' : second.natAbs < 2 ^ 63 := hsecond.trans (by decide)
  have hscale : 0 < calcScale := by decide
  have hrounded := roundedQuotient_mul first.natAbs second.natAbs hscale (by decide)
  obtain ⟨hah, hal⟩ := parts_lt hfirst
  obtain ⟨hbh, hbl⟩ := parts_lt hsecond
  have hcross := Nat.mul_lt_mul'' hah hbl
  have hcross' := Nat.mul_lt_mul'' hal hbh
  have hlow := Nat.mul_lt_mul'' hal hbl
  rw [calcResult_multiply, calcJudge_signed, ← hrounded]
  simp only [calcApply, calcMagnitude_eq hlt, calcMagnitude_eq hlt', calcSigned_eq,
    calcJudge_signed]
  generalize first.natAbs / calcScale * (second.natAbs / calcScale) = whole
  generalize first.natAbs / calcScale * (second.natAbs % calcScale) = cross at *
  generalize first.natAbs % calcScale * (second.natAbs / calcScale) = cross' at *
  generalize first.natAbs % calcScale * (second.natAbs % calcScale) = low at *
  have hquotient : calcLimit / calcScale = 1000000000000 := rfl
  have hlimit : calcLimit = 1000000000000000000 := rfl
  have hcalc : calcScale = 1000000 := rfl
  rw [hquotient, hcalc, hlimit]
  by_cases hover : 2 ^ 64 ≤ whole ∨ 1000000000000 ≤ whole
  · rw [if_pos hover, if_pos (by omega)]
  · rw [if_neg hover]
    rw [uint64_eq (by omega), pure_bind, uint64_eq (by omega), pure_bind, uint64_eq (by omega),
      pure_bind, uint64_eq (by omega), pure_bind, uint64_eq (by omega), pure_bind,
      uint64_eq (by omega), pure_bind, uint64_eq (by omega), pure_bind, uint64_eq (by omega),
      pure_bind]

theorem calcApply_add (hfirst : first.natAbs < calcLimit) (hsecond : second.natAbs < calcLimit) :
    calcApply .add first second = pure (calcJudge (calcResult .add first second)) := by
  have hlimit : calcLimit = 1000000000000000000 := rfl
  rw [hlimit] at hfirst hsecond
  have hmagnitude : calcMagnitude (first + second) = (first + second).natAbs :=
    calcMagnitude_eq (by omega)
  simp only [calcApply, calcResult]
  rw [int64_eq (by omega), pure_bind, calcSigned_eq, hmagnitude, ← signed_natAbs]

theorem calcApply_subtract (hfirst : first.natAbs < calcLimit)
    (hsecond : second.natAbs < calcLimit) :
    calcApply .subtract first second = pure (calcJudge (calcResult .subtract first second)) := by
  have hlimit : calcLimit = 1000000000000000000 := rfl
  rw [hlimit] at hfirst hsecond
  have hmagnitude : calcMagnitude (first - second) = (first - second).natAbs :=
    calcMagnitude_eq (by omega)
  simp only [calcApply, calcResult]
  rw [int64_eq (by omega), pure_bind, calcSigned_eq, hmagnitude, ← signed_natAbs]

theorem calcApply_divide_zero (first : ℤ) :
    calcApply .divide first 0 = pure (.error .divide) := by
  simp only [calcApply]
  exact if_pos rfl

theorem calcApply_divide (hfirst : first.natAbs < calcLimit)
    (hsecond : second.natAbs < calcLimit) (hzero : second ≠ 0) :
    calcApply .divide first second = pure (calcJudge (calcResult .divide first second)) := by
  have hlt : first.natAbs < 2 ^ 63 := hfirst.trans (by decide)
  have hlt' : second.natAbs < 2 ^ 63 := hsecond.trans (by decide)
  have hpositive : 0 < second.natAbs := Int.natAbs_pos.mpr hzero
  have hpower : calcScale = 10 ^ calcDecimals := rfl
  have hbound : 1 * 10 ^ calcDecimals ≤ 1000000 := by decide
  have hplaces := calcPlaces_eq hsecond hbound Nat.zero_lt_one
    (Nat.mod_lt first.natAbs hpositive)
  rw [calcResult_divide _ _ hzero, calcJudge_signed, hpower,
    ← roundedQuotient_digits first.natAbs calcDecimals hpositive, ← hpower]
  simp only [calcApply, calcMagnitude_eq hlt, calcMagnitude_eq hlt', calcSigned_eq,
    calcJudge_signed, hplaces, pure_bind]
  obtain ⟨hfraction, hremainder⟩ := furtherDigits_lt calcDecimals (Nat.mod_lt first.natAbs hpositive)
  generalize furtherDigits second.natAbs calcDecimals (0, first.natAbs % second.natAbs) = digits at *
  obtain ⟨fraction, remainder⟩ := digits
  generalize first.natAbs / second.natAbs = whole
  have hquotient : calcLimit / calcScale = 1000000000000 := rfl
  have hlimit : calcLimit = 1000000000000000000 := rfl
  have hcalc : calcScale = 1000000 := rfl
  have hdecimals : 10 ^ calcDecimals = 1000000 := rfl
  rw [hdecimals] at hfraction
  rw [hlimit] at hsecond
  rw [if_neg hpositive.ne', hquotient, hcalc, hlimit]
  by_cases hover : 1000000000000 ≤ whole
  · rw [if_pos hover, if_pos (by omega)]
  · rw [if_neg hover, uint64_eq (by omega), pure_bind]
    by_cases hup : 5 ≤ remainder * 10 / second.natAbs
    · simp only [if_pos hup]
      rw [uint64_eq (by omega), pure_bind, uint64_eq (by omega), pure_bind, uint64_eq (by omega),
        pure_bind]
    · simp only [if_neg hup, Nat.add_zero]
      rw [uint64_eq (by omega), pure_bind, uint64_eq (by omega), pure_bind]

theorem calcApply_eq (operation : CalcOperation) (hfirst : first.natAbs < calcLimit)
    (hsecond : second.natAbs < calcLimit) :
    calcApply operation first second =
      pure (if operation = .divide ∧ second = 0 then .error .divide
        else calcJudge (calcResult operation first second)) := by
  cases operation with
  | add => exact calcApply_add hfirst hsecond
  | subtract => exact calcApply_subtract hfirst hsecond
  | multiply => exact calcApply_multiply hfirst hsecond
  | divide =>
      by_cases hzero : second = 0
      · subst hzero
        exact calcApply_divide_zero first
      · rw [if_neg fun h ↦ hzero h.2]
        exact calcApply_divide hfirst hsecond hzero

end OxysOS.Userland
