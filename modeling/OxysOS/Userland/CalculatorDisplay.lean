import OxysOS.Userland.CalculatorArithmetic

/-!
# What the calculator shows

A number that is typed and a value that is held are both shown as texts that read as themselves, and
both fit the display.
-/

namespace OxysOS.Userland

open OxysOS.Library Noted

theorem calcPlaceValue_eq : ∀ place ≤ calcDecimals, calcPlaceValue place = 10 ^ (calcDecimals - place) := by
  decide

theorem calcPlaceValue_pos {place : ℕ} (h : place ≤ calcDecimals) : 0 < calcPlaceValue place := by
  rw [calcPlaceValue_eq place h]
  exact Nat.pow_pos (by decide)

theorem calcPlaceValue_mul {first last : ℕ} (hle : first ≤ last) (h : last ≤ calcDecimals) :
    calcPlaceValue last * 10 ^ (last - first) = calcPlaceValue first := by
  have hexponent : calcDecimals - last + (last - first) = calcDecimals - first := by omega
  rw [calcPlaceValue_eq last h, calcPlaceValue_eq first (hle.trans h), ← pow_add, hexponent]

theorem parts_eq {entry places : ℕ} (hplaces : places ≤ calcDecimals)
    (h : calcPlaceValue places ∣ entry) :
    ((entry / calcScale : ℕ) : ℚ) + ((entry / calcPlaceValue places % 10 ^ places : ℕ) : ℚ) / 10 ^ places =
      (entry : ℚ) / calcScale := by
  obtain ⟨count, rfl⟩ := h
  have hpositive := calcPlaceValue_pos hplaces
  have hscale : calcScale = calcPlaceValue places * 10 ^ places :=
    (calcPlaceValue_mul (Nat.zero_le places) hplaces).symm
  have hsplit : ((10 ^ places * (count / 10 ^ places) + count % 10 ^ places : ℕ) : ℚ) = count :=
    congrArg Nat.cast (Nat.div_add_mod count (10 ^ places))
  have hpower : (10 : ℚ) ^ places ≠ 0 := by positivity
  have hvalue : (calcPlaceValue places : ℚ) ≠ 0 := by exact_mod_cast hpositive.ne'
  push_cast at hsplit
  rw [hscale, Nat.mul_div_mul_left _ _ hpositive, Nat.mul_div_cancel_left _ hpositive]
  push_cast
  field_simp
  linarith

def calcEntryText (state : CalcState) : List UInt8 :=
  decimalText state.negative (lowDigits 24 (state.entry / calcScale)).reverse state.point
    (highDigits state.decimals (state.entry / calcPlaceValue state.decimals))

theorem calcDigits_eq {whole : ℕ} (h : whole < 1000000000000) :
    calcDigits whole = pure (lowDigits 24 whole) := note_eq (by omega) _

theorem calcPut_eq {capacity : ℕ} {text : List UInt8} (h : text.length < capacity) :
    calcPut capacity text = pure text := note_eq h _

theorem length_digits {whole : ℕ} (h : whole < 1000000000000) :
    (lowDigits 24 whole).reverse.length ≤ 12 := by
  rw [List.length_reverse]
  exact length_lowDigits (by decide) h

theorem length_decimalText (negative : Bool) (whole : List UInt8) (point : Bool)
    (places : List UInt8) :
    (decimalText negative whole point places).length ≤ 2 + whole.length + places.length := by
  unfold decimalText
  cases negative <;> cases point <;> simp <;> omega

theorem length_calcEntryText {state : CalcState} (hentry : state.entry < calcLimit)
    (hdecimals : state.decimals ≤ calcDecimals) :
    (calcEntryText state).length < calcDisplayMaximum := by
  have htext := length_decimalText state.negative (lowDigits 24 (state.entry / calcScale)).reverse
    state.point (highDigits state.decimals (state.entry / calcPlaceValue state.decimals))
  have hdigits := length_digits (parts_lt hentry).1
  rw [length_highDigits] at htext
  have hmaximum : calcDisplayMaximum = 32 := rfl
  have hsix : calcDecimals = 6 := rfl
  exact htext.trans_lt (by omega)

theorem calcShowEntry_eq {state : CalcState} (hentry : state.entry < calcLimit)
    (hdecimals : state.decimals ≤ calcDecimals) :
    calcShowEntry state = pure { state with display := calcEntryText state } := by
  have hwhole := (parts_lt hentry).1
  have hplaces : (List.range state.decimals).map (fun place ↦
      decimalByte (state.entry / calcPlaceValue (place + 1) % 10)) =
      highDigits state.decimals (state.entry / calcPlaceValue state.decimals) := by
    refine List.map_congr_left fun place hplace ↦ ?_
    have hle : place + 1 ≤ state.decimals := List.mem_range.mp hplace
    have hexponent : state.decimals - 1 - place = state.decimals - (place + 1) := by omega
    rw [Nat.div_div_eq_div_mul, hexponent, calcPlaceValue_mul hle hdecimals]
  simp only [calcShowEntry, calcDigits_eq hwhole, pure_bind, hplaces]
  rw [← calcEntryText, calcPut_eq (length_calcEntryText hentry hdecimals), pure_bind]

theorem readDecimal_calcEntryText {state : CalcState} (hentry : state.entry < calcLimit)
    (hdecimals : state.decimals ≤ calcDecimals)
    (hplaces : calcPlaceValue state.decimals ∣ state.entry)
    (hpoint : state.point = false → state.decimals = 0) :
    readDecimal (calcEntryText state) =
      some (if state.negative then -((state.entry : ℚ) / calcScale)
        else (state.entry : ℚ) / calcScale) := by
  have hwhole : state.entry / calcScale < 10 ^ 24 := (parts_lt hentry).1.trans (by decide)
  have hnone : state.point = false →
      highDigits state.decimals (state.entry / calcPlaceValue state.decimals) = [] := by
    intro h
    rw [hpoint h]
    rfl
  unfold calcEntryText
  rw [readDecimal_text state.negative (by simpa using lowDigits_ne_nil (by decide))
    (by simpa using lowDigits_all 24 _) (highDigits_all _ _) hnone, length_highDigits,
    decimalValue_lowDigits hwhole, decimalValue_highDigits, parts_eq hdecimals hplaces]

theorem calcTrim_spec (places fraction : ℕ) (h : fraction < 10 ^ places) :
    (calcTrim places fraction).1 ≤ places ∧
      (calcTrim places fraction).2 < 10 ^ (calcTrim places fraction).1 ∧
      ((calcTrim places fraction).2 = 0 ↔ fraction = 0) ∧
      ((calcTrim places fraction).2 : ℚ) / 10 ^ (calcTrim places fraction).1 =
        (fraction : ℚ) / 10 ^ places := by
  induction places generalizing fraction with
  | zero => exact ⟨Nat.le_refl 0, h, Iff.rfl, rfl⟩
  | succ places ih =>
      by_cases hzero : fraction ≠ 0 ∧ fraction % 10 = 0
      · have hten : fraction = 10 * (fraction / 10) := by omega
        have hrest : fraction / 10 < 10 ^ places := Nat.div_lt_of_lt_mul (by rwa [← pow_succ'])
        obtain ⟨hle, hlt, hiff, hvalue⟩ := ih (fraction / 10) hrest
        have htrim : calcTrim (places + 1) fraction = calcTrim places (fraction / 10) := if_pos hzero
        have hcast : (fraction : ℚ) = 10 * ((fraction / 10 : ℕ) : ℚ) := by
          exact_mod_cast hten
        rw [htrim]
        refine ⟨hle.trans (Nat.le_succ _), hlt, by omega, ?_⟩
        rw [hvalue, hcast, pow_succ']
        exact (mul_div_mul_left _ _ (by norm_num)).symm
      · have htrim : calcTrim (places + 1) fraction = (places + 1, fraction) := if_neg hzero
        rw [htrim]
        exact ⟨Nat.le_refl _, h, Iff.rfl, rfl⟩

def calcText (value : ℤ) : List UInt8 :=
  let (places, fraction) := calcTrim calcDecimals (value.natAbs % calcScale)
  decimalText (value < 0 ∧ value.natAbs ≠ 0) (lowDigits 24 (value.natAbs / calcScale)).reverse
    (fraction ≠ 0) (highDigits places fraction)

theorem length_calcText {value : ℤ} (h : value.natAbs < calcLimit) :
    (calcText value).length < calcDisplayMaximum := by
  obtain ⟨hwhole, hfraction⟩ := parts_lt h
  obtain ⟨hle, -⟩ := calcTrim_spec calcDecimals (value.natAbs % calcScale) hfraction
  have hlength := length_digits hwhole
  have htext := length_decimalText (value < 0 ∧ value.natAbs ≠ 0)
    (lowDigits 24 (value.natAbs / calcScale)).reverse
    ((calcTrim calcDecimals (value.natAbs % calcScale)).2 ≠ 0)
    (highDigits (calcTrim calcDecimals (value.natAbs % calcScale)).1
      (calcTrim calcDecimals (value.natAbs % calcScale)).2)
  rw [length_highDigits] at htext
  have hmaximum : calcDisplayMaximum = 32 := rfl
  have hsix : calcDecimals = 6 := rfl
  exact htext.trans_lt (by omega)

theorem calcFormat_eq {value : ℤ} (h : value.natAbs < calcLimit) :
    calcFormat value calcDisplayMaximum = pure (some (calcText value)) := by
  have hlt : value.natAbs < 2 ^ 63 := h.trans (by decide)
  obtain ⟨hwhole, hfraction⟩ := parts_lt h
  obtain ⟨hle, -⟩ := calcTrim_spec calcDecimals (value.natAbs % calcScale) hfraction
  have hroom : ¬calcDisplayMaximum < (lowDigits 24 (value.natAbs / calcScale)).length +
      (calcTrim calcDecimals (value.natAbs % calcScale)).1 + 3 := by
    have hlength := length_digits hwhole
    rw [List.length_reverse] at hlength
    have hmaximum : calcDisplayMaximum = 32 := rfl
    have hsix : calcDecimals = 6 := rfl
    omega
  simp only [calcFormat, calcMagnitude_eq hlt, calcDigits_eq hwhole, pure_bind]
  rw [if_neg hroom]
  refine (congrArg (· >>= fun text ↦ pure (some text)) (calcPut_eq (length_calcText h))).trans ?_
  exact pure_bind _ _

theorem readDecimal_calcText {value : ℤ} (h : value.natAbs < calcLimit) :
    readDecimal (calcText value) = some ((value : ℚ) / calcScale) := by
  obtain ⟨hwhole, hfraction⟩ := parts_lt h
  obtain ⟨-, hsmall, hzero, hvalue⟩ :=
    calcTrim_spec calcDecimals (value.natAbs % calcScale) hfraction
  have hroom : value.natAbs / calcScale < 10 ^ 24 := hwhole.trans (by decide)
  have hnil : (lowDigits 24 (value.natAbs / calcScale)).reverse ≠ [] := by
    simpa using lowDigits_ne_nil (by decide)
  have hall : (lowDigits 24 (value.natAbs / calcScale)).reverse.all isDecimal = true := by
    simpa using lowDigits_all 24 _
  have hparts := parts_eq (Nat.le_refl calcDecimals) (one_dvd value.natAbs)
  have hone : calcPlaceValue calcDecimals = 1 := rfl
  have hscale : 10 ^ calcDecimals = calcScale := rfl
  rw [hone, Nat.div_one, hscale] at hparts
  have hsign : (if decide (value < 0 ∧ value.natAbs ≠ 0) then -((value.natAbs : ℚ) / calcScale)
      else (value.natAbs : ℚ) / calcScale) = (value : ℚ) / calcScale := by
    have hnegative : decide (value < 0 ∧ value.natAbs ≠ 0) = decide (value < 0) := by
      rw [decide_eq_decide]
      omega
    rw [hnegative, cast_signed value]
    split <;> simp only [neg_div]
  unfold calcText
  generalize calcTrim calcDecimals (value.natAbs % calcScale) = trimmed at *
  obtain ⟨places, fraction⟩ := trimmed
  rw [← hsign, ← hparts]
  by_cases hnone : fraction = 0
  · subst hnone
    have hrest : value.natAbs % calcScale = 0 := hzero.mp rfl
    have hempty : ([] : List UInt8).all isDecimal = true := rfl
    refine (readDecimal_text _ hnil hall hempty fun (_ : false = false) ↦ rfl).trans ?_
    rw [decimalValue_lowDigits hroom]
    simp [decimalValue, hrest]
  · refine (readDecimal_text _ hnil hall (highDigits_all _ _) fun hpoint ↦ ?_).trans ?_
    · simp [hnone] at hpoint
    · rw [decimalValue_lowDigits hroom, decimalValue_highDigits, length_highDigits,
        Nat.mod_eq_of_lt hsmall, hvalue]

end OxysOS.Userland
