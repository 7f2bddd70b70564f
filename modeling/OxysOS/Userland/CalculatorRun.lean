import Mathlib.Data.Nat.Cast.Field
import OxysOS.Userland.CalculatorDesk

/-!
# The calculator follows the one over the rationals

At every key the calculator does what the one over the rationals does, within its words, and shows
the number that is typed or the one that is held.
-/

namespace OxysOS.Userland

open OxysOS.Library Noted

variable {state : CalcState}

def CalcState.typed (state : CalcState) : Typed where
  magnitude := (state.entry : ℚ) / calcScale
  negative := state.negative
  point := state.point
  places := state.decimals

def CalcState.desk (state : CalcState) : Desk where
  held := (state.accumulator : ℚ) / calcScale
  pending := state.operation
  typed := if state.entering then some state.typed else none
  fault := state.error

structure CalcHolds (state : CalcState) : Prop where
  accumulator : state.accumulator.natAbs < calcLimit
  entry : state.entry < calcLimit
  decimals : state.decimals ≤ calcDecimals
  places : state.entering → calcPlaceValue state.decimals ∣ state.entry
  point : state.entering → state.point = false → state.decimals = 0
  length : state.display.length < calcDisplayMaximum
  display : match state.error with
    | some fault => state.display = fault.text
    | none => readDecimal state.display = some state.desk.shown

def Tracks (run : Noted CalcState) (desk : Desk) : Prop :=
  ∃ state, run = pure state ∧ CalcHolds state ∧ state.desk = desk

structure CalcTyping (state : CalcState) : Prop where
  entering : state.entering = true
  error : state.error = none
  accumulator : state.accumulator.natAbs < calcLimit
  entry : state.entry < calcLimit
  decimals : state.decimals ≤ calcDecimals
  places : calcPlaceValue state.decimals ∣ state.entry
  point : state.point = false → state.decimals = 0

theorem CalcHolds.typing (h : CalcHolds state) (herror : state.error = none)
    (hentering : state.entering = true) : CalcTyping state where
  entering := hentering
  error := herror
  accumulator := h.accumulator
  entry := h.entry
  decimals := h.decimals
  places := h.places hentering
  point := h.point hentering

theorem CalcTyping.desk_typed (h : CalcTyping state) : state.desk.typed = some state.typed :=
  if_pos h.entering

theorem CalcTyping.desk_eq (h : CalcTyping state) :
    state.desk = { state.desk with typed := some state.typed } := by
  rw [← h.desk_typed]

theorem calcShowEntry_tracks (h : CalcTyping state) : Tracks (calcShowEntry state) state.desk := by
  refine ⟨_, calcShowEntry_eq h.entry h.decimals, ?_, rfl⟩
  have hread := readDecimal_calcEntryText h.entry h.decimals h.places h.point
  refine ⟨h.accumulator, h.entry, h.decimals, fun _ ↦ h.places, fun _ ↦ h.point,
    length_calcEntryText h.entry h.decimals, ?_⟩
  simp only [h.error, hread, CalcState.desk, Desk.shown, h.entering, if_true, Typed.value,
    CalcState.typed]

theorem calcShowValue_eq {value : ℤ} (h : value.natAbs < calcLimit) :
    calcShowValue state value = pure { state with display := calcText value } := by
  simp only [calcShowValue, calcFormat_eq h, pure_bind]

theorem calcShowError_eq (fault : CalcFault) :
    calcShowError state fault = { state with display := fault.text } := by
  cases fault <;> rfl

theorem length_text (fault : CalcFault) : fault.text.length < calcDisplayMaximum := by
  cases fault <;> decide

theorem CalcHolds.of_value {state : CalcState} (herror : state.error = none)
    (hentering : state.entering = false) (haccumulator : state.accumulator.natAbs < calcLimit)
    (hentry : state.entry < calcLimit) (hdecimals : state.decimals ≤ calcDecimals)
    (hdisplay : state.display = calcText state.accumulator) : CalcHolds state := by
  have hread := readDecimal_calcText haccumulator
  refine ⟨haccumulator, hentry, hdecimals, ?_, ?_, ?_, ?_⟩
  · simp [hentering]
  · simp [hentering]
  · rw [hdisplay]
    exact length_calcText haccumulator
  · simp only [herror, hdisplay, hread, CalcState.desk, Desk.shown, hentering, if_false,
      Bool.false_eq_true]

theorem CalcHolds.of_fault (h : CalcHolds state) (fault : CalcFault) :
    CalcHolds { state with error := some fault, display := fault.text } :=
  ⟨h.accumulator, h.entry, h.decimals, h.places, h.point, length_text fault, rfl⟩

theorem calcReset_holds : CalcHolds calcReset :=
  CalcHolds.of_value rfl rfl (by decide) (by decide) (by decide) (by decide)

theorem calcReset_desk : calcReset.desk = .clear := by
  simp [calcReset, CalcState.desk, Desk.clear]

theorem calcReset_tracks : Tracks (pure calcReset) .clear :=
  ⟨calcReset, rfl, calcReset_holds, calcReset_desk⟩

theorem calcBeginEntry_typing (h : CalcHolds state) (herror : state.error = none) :
    CalcTyping (calcBeginEntry state) := by
  by_cases hentering : state.entering = true
  · have hbegin : calcBeginEntry state = state := by simp [calcBeginEntry, hentering]
    rw [hbegin]
    exact h.typing herror hentering
  · have hbegin : calcBeginEntry state = { state with entry := 0, negative := false, point := false,
                                                      decimals := 0, entering := true } := by
      simp [calcBeginEntry, hentering]
    rw [hbegin]
    exact ⟨rfl, herror, h.accumulator, Nat.zero_lt_of_lt h.entry, Nat.zero_le _, Nat.dvd_zero _,
      fun _ ↦ rfl⟩

theorem calcBeginEntry_desk (state : CalcState) :
    (calcBeginEntry state).desk =
      { state.desk with typed := some (state.desk.typed.getD .blank) } := by
  by_cases hentering : state.entering = true
  · simp [calcBeginEntry, hentering, CalcState.desk]
  · simp [calcBeginEntry, hentering, CalcState.desk, CalcState.typed, Typed.blank]

theorem calcBeginEntry_typed (state : CalcState) :
    (calcBeginEntry state).typed = state.desk.typed.getD .blank := by
  by_cases hentering : state.entering = true
  · simp [calcBeginEntry, hentering, CalcState.desk]
  · simp [calcBeginEntry, hentering, CalcState.desk, CalcState.typed, Typed.blank]

theorem placeValue_dvd {first last : ℕ} (hle : first ≤ last) (h : last ≤ calcDecimals) :
    calcPlaceValue last ∣ calcPlaceValue first :=
  ⟨_, (calcPlaceValue_mul hle h).symm⟩

theorem placeValue_succ {place : ℕ} (h : place < calcDecimals) :
    calcPlaceValue place = 10 * calcPlaceValue (place + 1) := by
  have hmul := calcPlaceValue_mul (Nat.le_add_right place 1) h
  rw [Nat.add_sub_cancel_left, pow_one, Nat.mul_comm] at hmul
  exact hmul.symm

theorem scale_ne_zero : ((calcScale : ℕ) : ℚ) ≠ 0 := by norm_num [calcScale]

theorem placeValue_mul_cast {place : ℕ} (h : place ≤ calcDecimals) :
    (calcPlaceValue place : ℚ) * 10 ^ place = calcScale := by
  have hmul := calcPlaceValue_mul (Nat.zero_le place) h
  rw [Nat.sub_zero] at hmul
  exact_mod_cast hmul

theorem placeValue_cast {place : ℕ} (h : place ≤ calcDecimals) :
    (calcPlaceValue place : ℚ) / calcScale = 1 / 10 ^ place := by
  rw [div_eq_div_iff scale_ne_zero (by positivity), placeValue_mul_cast h, one_mul]

theorem calcTyping_place (h : CalcTyping state) {digit : ℕ} (hdigit : digit ≤ 9)
    (hpoint : state.point = true) (hroom : state.decimals < calcDecimals) :
    CalcTyping { state with
      entry := state.entry + digit * calcPlaceValue (state.decimals + 1)
      decimals := state.decimals + 1 } := by
  have hsucc := placeValue_succ hroom
  have hpositive : 0 < calcPlaceValue (state.decimals + 1) := calcPlaceValue_pos hroom
  have hlimit : calcPlaceValue state.decimals ∣ calcLimit :=
    (placeValue_dvd (Nat.zero_le _) h.decimals).trans ⟨1000000000000, rfl⟩
  have hnext := Nat.mul_le_mul_right (calcPlaceValue (state.decimals + 1)) hdigit
  have hentry : state.entry + calcPlaceValue state.decimals ≤ calcLimit := by
    obtain ⟨count, hcount⟩ := h.places
    obtain ⟨bound, hbound⟩ := hlimit
    have hlt := h.entry
    rw [hcount, hbound] at hlt ⊢
    exact Nat.mul_le_mul_left (calcPlaceValue state.decimals) (Nat.lt_of_mul_lt_mul_left hlt)
  refine ⟨h.entering, h.error, h.accumulator, ?_, hroom, ?_, ?_⟩
  · change state.entry + digit * calcPlaceValue (state.decimals + 1) < calcLimit
    omega
  · exact Nat.dvd_add ((placeValue_dvd (Nat.le_succ _) hroom).trans h.places) (Nat.dvd_mul_left _ _)
  · intro hfalse
    exact absurd (hpoint.symm.trans hfalse) (by decide)

theorem calcTyping_whole (h : CalcTyping state) {whole : ℕ} (hpoint : state.point = false)
    (hroom : whole < calcLimit / calcScale) :
    CalcTyping { state with entry := whole * calcScale } := by
  have hlimit : calcLimit = calcLimit / calcScale * calcScale := rfl
  refine ⟨h.entering, h.error, h.accumulator, ?_, h.decimals, ?_, h.point⟩
  · rw [hlimit]
    exact Nat.mul_lt_mul_of_pos_right hroom (by decide)
  · change calcPlaceValue state.decimals ∣ _
    rw [h.point hpoint]
    exact Nat.dvd_mul_left _ _

theorem CalcTyping.whole_dvd (h : CalcTyping state) (hpoint : state.point = false) :
    calcScale ∣ state.entry := by
  have hplaces := h.places
  rwa [h.point hpoint] at hplaces

theorem mul_scale_cast (whole : ℕ) : ((whole * calcScale : ℕ) : ℚ) / calcScale = whole := by
  rw [Nat.cast_mul, mul_div_cancel_right₀ _ scale_ne_zero]

theorem CalcTyping.whole_cast (h : CalcTyping state) (hpoint : state.point = false) :
    (state.entry : ℚ) / calcScale = ((state.entry / calcScale : ℕ) : ℚ) :=
  (Nat.cast_div (h.whole_dvd hpoint) scale_ne_zero).symm

theorem calcShowEntry_typed {desk : Desk} (h : CalcTyping state)
    (hdesk : state.desk = { desk with typed := some state.typed }) {t : Typed}
    (ht : state.typed = t) : Tracks (calcShowEntry state) { desk with typed := some t } := by
  rw [← ht, ← hdesk]
  exact calcShowEntry_tracks h

theorem calcDigit_typed (h : CalcTyping state) {digit : ℕ} (hdigit : digit ≤ 9) :
    ∃ next, calcDigit state digit = calcShowEntry next ∧ CalcTyping next ∧
      next.typed = state.typed.digit digit ∧ next.desk = { state.desk with typed := some next.typed } := by
  have hbegin : calcBeginEntry state = state := by simp [calcBeginEntry, h.entering]
  have hlimit : calcLimit = 1000000000000000000 := rfl
  have hentry := h.entry
  cases hpoint : state.point with
  | true =>
      by_cases hroom : state.decimals < calcDecimals
      · have hplace := calcTyping_place h hdigit hpoint hroom
        have hsum : state.entry + digit * calcPlaceValue (state.decimals + 1) < calcLimit :=
          hplace.entry
        refine ⟨_, ?_, hplace, ?_, ?_⟩
        · simp only [calcDigit, hbegin, hpoint, if_true, if_pos hroom]
          rw [magnitude64_eq (by omega), pure_bind, magnitude64_eq (by omega), pure_bind]
        · have hvalue : ((state.entry + digit * calcPlaceValue (state.decimals + 1) : ℕ) : ℚ) /
              calcScale = (state.entry : ℚ) / calcScale + digit / 10 ^ (state.decimals + 1) := by
            rw [Nat.cast_add, Nat.cast_mul, add_div, mul_div_assoc, placeValue_cast hroom,
              mul_one_div]
          refine Eq.trans ?_ ((if_pos hpoint).trans (if_pos hroom)).symm
          simp only [CalcState.typed, hvalue]
        · simp [CalcState.desk, h.entering]
      · refine ⟨state, ?_, h, ?_, h.desk_eq⟩
        · simp only [calcDigit, hbegin, hpoint, if_true, if_neg hroom]
        · exact ((if_pos hpoint).trans (if_neg hroom)).symm
  | false =>
      have hrest := Nat.mod_eq_zero_of_dvd (h.whole_dvd hpoint)
      have hwhole := (parts_lt hentry).1
      have hcast : (state.entry : ℚ) / calcScale * 10 + digit < 10 ^ 12 ↔
          state.entry / calcScale * 10 + digit < calcLimit / calcScale := by
        have hbound : ((calcLimit / calcScale : ℕ) : ℚ) = 10 ^ 12 := by
          norm_num [calcLimit, calcScale]
        rw [h.whole_cast hpoint, ← hbound]
        exact_mod_cast Iff.rfl
      have hfalse : ¬state.typed.point = true := by simp [CalcState.typed, hpoint]
      by_cases hroom : state.entry / calcScale * 10 + digit < calcLimit / calcScale
      · have hwholes := calcTyping_whole h hpoint hroom
        have hproduct : (state.entry / calcScale * 10 + digit) * calcScale < calcLimit :=
          hwholes.entry
        refine ⟨_, ?_, hwholes, ?_, ?_⟩
        · simp only [calcDigit, hbegin, hpoint, Bool.false_eq_true, if_false]
          rw [magnitude64_eq (by omega), pure_bind, magnitude64_eq (by omega), pure_bind,
            if_pos hroom, magnitude64_eq (by omega), pure_bind, hrest, Nat.add_zero,
            magnitude64_eq (by omega), pure_bind]
        · refine Eq.trans ?_ ((if_neg hfalse).trans (if_pos (hcast.mpr hroom))).symm
          simp only [CalcState.typed, mul_scale_cast, h.whole_cast hpoint]
          push_cast
          rfl
        · simp [CalcState.desk, h.entering]
      · refine ⟨state, ?_, h, ?_, h.desk_eq⟩
        · simp only [calcDigit, hbegin, hpoint, Bool.false_eq_true, if_false]
          rw [magnitude64_eq (by omega), pure_bind, magnitude64_eq (by omega), pure_bind,
            if_neg hroom]
        · exact ((if_neg hfalse).trans (if_neg fun hlt ↦ hroom (hcast.mp hlt))).symm

theorem floor_div_cast (a b : ℕ) : ((⌊(a : ℚ) / b⌋ : ℤ) : ℚ) = ((a / b : ℕ) : ℚ) := by
  rw [Rat.floor_natCast_div_natCast, ← Int.natCast_div, Int.cast_natCast]

theorem CalcTyping.places_cast (h : CalcTyping state) :
    (state.entry : ℚ) / calcScale =
      ((state.entry / calcPlaceValue state.decimals : ℕ) : ℚ) / 10 ^ state.decimals := by
  have hvalue : (calcPlaceValue state.decimals : ℚ) ≠ 0 := by
    exact_mod_cast (calcPlaceValue_pos h.decimals).ne'
  rw [Nat.cast_div h.places hvalue, div_div, placeValue_mul_cast h.decimals]

theorem calcTyping_unplace (h : CalcTyping state) (hplace : 0 < state.decimals) :
    state.entry - state.entry / calcPlaceValue state.decimals % 10 * calcPlaceValue state.decimals =
      state.entry / calcPlaceValue state.decimals / 10 * calcPlaceValue (state.decimals - 1) := by
  have hdecimals := h.decimals
  have hpositive := calcPlaceValue_pos hdecimals
  have hsucc : calcPlaceValue (state.decimals - 1) = 10 * calcPlaceValue state.decimals := by
    have hlt : state.decimals - 1 < calcDecimals := by omega
    have hstep := placeValue_succ hlt
    rwa [Nat.sub_add_cancel hplace] at hstep
  obtain ⟨count, hcount⟩ := h.places
  rw [hcount, Nat.mul_div_cancel_left _ hpositive, hsucc]
  calc calcPlaceValue state.decimals * count - count % 10 * calcPlaceValue state.decimals =
      (count - count % 10) * calcPlaceValue state.decimals := by rw [Nat.sub_mul, Nat.mul_comm count]
    _ = (count / 10 * 10) * calcPlaceValue state.decimals := by
      have hten : count - count % 10 = count / 10 * 10 := by omega
      rw [hten]
    _ = _ := by rw [Nat.mul_assoc]

theorem calcBackspace_typed (h : CalcTyping state) :
    ∃ next, calcBackspace state = calcShowEntry next ∧ CalcTyping next ∧
      next.typed = state.typed.back ∧ next.desk = { state.desk with typed := some next.typed } := by
  have hlimit : calcLimit = 1000000000000000000 := rfl
  have hentry := h.entry
  have hentering : (!state.entering) = false := by rw [h.entering]; rfl
  by_cases hplace : state.point = true ∧ 0 < state.decimals
  · have hunplace := calcTyping_unplace h hplace.2
    have hle : state.decimals - 1 ≤ calcDecimals := (Nat.sub_le _ _).trans h.decimals
    have hlast : state.entry / calcPlaceValue state.decimals % 10 * calcPlaceValue state.decimals ≤
        state.entry :=
      (Nat.mul_le_mul_right _ (Nat.mod_le _ _)).trans (Nat.div_mul_le_self _ _)
    have hvalue : (state.entry : ℚ) / calcScale * 10 ^ (state.decimals - 1) =
        ((state.entry / calcPlaceValue state.decimals : ℕ) : ℚ) / 10 := by
      have hpower : (10 : ℚ) ^ state.decimals = 10 ^ (state.decimals - 1) * 10 := by
        rw [← pow_succ, Nat.sub_add_cancel hplace.2]
      rw [h.places_cast, hpower]
      field_simp
    refine ⟨{ state with
        entry := state.entry / calcPlaceValue state.decimals / 10 *
          calcPlaceValue (state.decimals - 1)
        decimals := state.decimals - 1 }, ?_,
      ⟨h.entering, h.error, h.accumulator, ?_, hle, Nat.dvd_mul_left _ _, ?_⟩, ?_, ?_⟩
    · simp only [calcBackspace, hentering, Bool.false_eq_true, if_false]
      rw [if_pos hplace, magnitude64_eq (by omega), pure_bind, hunplace]
    · rw [← hunplace]
      exact (Nat.sub_le _ _).trans_lt hentry
    · intro hfalse
      exact absurd (hplace.1.symm.trans hfalse) (by decide)
    · refine Eq.trans ?_ (if_pos hplace).symm
      simp only [CalcState.typed]
      rw [hvalue, Nat.cast_mul, mul_div_assoc, placeValue_cast hle, mul_one_div]
      have hfloor := floor_div_cast (state.entry / calcPlaceValue state.decimals) 10
      rw [← hfloor]
      rfl
    · simp [CalcState.desk, h.entering]
  · cases hpoint : state.point with
    | true =>
        have hnone : state.decimals = 0 := by
          rw [hpoint] at hplace
          simpa using hplace
        refine ⟨{ state with point := false }, ?_, ⟨h.entering, h.error, h.accumulator, hentry,
          h.decimals, h.places, fun _ ↦ hnone⟩, ?_, ?_⟩
        · simp only [calcBackspace, hentering, Bool.false_eq_true, if_false]
          rw [if_neg hplace, if_pos hpoint]
        · exact ((if_neg hplace).trans (if_pos hpoint)).symm
        · simp [CalcState.desk, h.entering]
    | false =>
        have hfalse : ¬state.point = true := by simp [hpoint]
        have hwhole : state.entry / calcScale / 10 < calcLimit / calcScale :=
          (Nat.div_le_self _ _).trans_lt (parts_lt hentry).1
        have hwholes := calcTyping_whole h hpoint hwhole
        have hproduct : state.entry / calcScale / 10 * calcScale < calcLimit := hwholes.entry
        refine ⟨_, ?_, hwholes, ?_, ?_⟩
        · simp only [calcBackspace, hentering, Bool.false_eq_true, if_false]
          rw [if_neg hplace, if_neg hfalse, magnitude64_eq (by omega), pure_bind]
        · refine Eq.trans ?_ ((if_neg hplace).trans (if_neg hfalse)).symm
          simp only [CalcState.typed, mul_scale_cast, h.whole_cast hpoint]
          rw [← floor_div_cast]
          rfl
        · simp [CalcState.desk, h.entering]

def calcShown (state : CalcState) : ℤ :=
  if state.entering then if state.negative then -state.entry else state.entry
  else state.accumulator

theorem natAbs_calcShown (h : CalcHolds state) : (calcShown state).natAbs < calcLimit := by
  have haccumulator := h.accumulator
  have hentry := h.entry
  unfold calcShown
  split
  · split <;> simpa using hentry
  · exact haccumulator

theorem desk_shown (state : CalcState) : state.desk.shown = (calcShown state : ℚ) / calcScale := by
  cases hentering : state.entering with
  | false => simp [CalcState.desk, Desk.shown, calcShown, hentering]
  | true =>
      cases hnegative : state.negative <;>
        simp [CalcState.desk, CalcState.typed, Desk.shown, Typed.value, calcShown, hentering,
          hnegative, neg_div]

theorem calcEntryValue_eq (h : state.entry < calcLimit) :
    calcEntryValue state = pure (if state.negative then -(state.entry : ℤ) else state.entry) := by
  have hlimit : calcLimit = 1000000000000000000 := rfl
  cases hnegative : state.negative with
  | false => simp only [calcEntryValue, hnegative, Bool.false_eq_true, if_false]
  | true =>
      simp only [calcEntryValue, hnegative, if_true]
      exact int64_eq (by omega)

theorem calcEntryValue_taken (h : CalcHolds state) :
    calcEntryValue (calcTakeHeld state) = pure (calcShown state) := by
  cases hentering : state.entering with
  | true =>
      have htake : calcTakeHeld state = state := by simp [calcTakeHeld, hentering]
      rw [htake, calcEntryValue_eq h.entry]
      simp [calcShown, hentering]
  | false =>
      have hmagnitude := calcMagnitude_eq (h.accumulator.trans (by decide))
      have htake : calcTakeHeld state = { state with
          entry := state.accumulator.natAbs, negative := state.accumulator < 0 } := by
        simp [calcTakeHeld, hentering, hmagnitude]
      rw [htake, calcEntryValue_eq h.accumulator, ← signed_natAbs]
      simp [calcShown, hentering]

def calcResolved (state : CalcState) : Except CalcFault ℤ :=
  match state.operation with
  | none => .ok (calcShown state)
  | some operation =>
      if operation = .divide ∧ calcShown state = 0 then .error .divide
      else calcJudge (calcResult operation state.accumulator (calcShown state))

theorem desk_resolve (state : CalcState) :
    state.desk.resolve = (calcResolved state).map fun value ↦ (value : ℚ) / calcScale := by
  unfold Desk.resolve calcResolved
  cases hoperation : state.operation with
  | none =>
      have hpending : state.desk.pending = none := hoperation
      simp only [hpending, desk_shown]
      rfl
  | some operation =>
      have hpending : state.desk.pending = some operation := hoperation
      simp only [hpending, desk_shown]
      exact deskApply_scaled operation state.accumulator (calcShown state)

theorem calcJudge_lt {value result : ℤ} (h : calcJudge value = .ok result) :
    result.natAbs < calcLimit := by
  unfold calcJudge at h
  split at h
  · cases h
  · next hlt =>
      cases h
      exact Nat.lt_of_not_le hlt

theorem calcResolved_lt (h : CalcHolds state) {value : ℤ} (hvalue : calcResolved state = .ok value) :
    value.natAbs < calcLimit := by
  unfold calcResolved at hvalue
  split at hvalue
  · cases hvalue
    exact natAbs_calcShown h
  · split at hvalue
    · cases hvalue
    · exact calcJudge_lt hvalue

theorem calcTakeHeld_desk (state : CalcState) : (calcTakeHeld state).desk = state.desk := by
  cases hentering : state.entering <;> simp [calcTakeHeld, CalcState.desk, hentering]

theorem calcTakeHeld_holds (h : CalcHolds state) : CalcHolds (calcTakeHeld state) := by
  cases hentering : state.entering with
  | true =>
      have htake : calcTakeHeld state = state := by simp [calcTakeHeld, hentering]
      rwa [htake]
  | false =>
      have hmagnitude := calcMagnitude_eq (h.accumulator.trans (by decide))
      have htake : calcTakeHeld state = { state with
          entry := state.accumulator.natAbs, negative := state.accumulator < 0 } := by
        simp [calcTakeHeld, hentering, hmagnitude]
      have hdesk := calcTakeHeld_desk state
      have hdisplay := h.display
      rw [← hdesk] at hdisplay
      rw [htake] at hdisplay ⊢
      exact ⟨h.accumulator, h.accumulator, h.decimals, by simp [hentering], by simp [hentering],
        h.length, hdisplay⟩

theorem calcResolve_taken (h : CalcHolds state) (herror : state.error = none) :
    calcResolve (calcTakeHeld state) = pure (match calcResolved state with
      | .error fault =>
          (false, { calcTakeHeld state with error := some fault, display := fault.text })
      | .ok value =>
          (true, { calcTakeHeld state with accumulator := value, display := calcText value })) := by
  have hshown := natAbs_calcShown h
  have hoperation : (calcTakeHeld state).operation = state.operation := by
    unfold calcTakeHeld
    split <;> rfl
  have haccumulator : (calcTakeHeld state).accumulator = state.accumulator := by
    unfold calcTakeHeld
    split <;> rfl
  have hfault : (calcTakeHeld state).error = none := by
    unfold calcTakeHeld
    split <;> exact herror
  have hresult : calcCarryOut (calcTakeHeld state) (calcShown state) = pure (calcResolved state) := by
    unfold calcCarryOut calcResolved
    rw [hoperation, haccumulator]
    cases state.operation with
    | none => rfl
    | some operation => exact calcApply_eq operation h.accumulator hshown
  unfold calcResolve
  rw [calcEntryValue_taken h, pure_bind, hresult, pure_bind]
  cases hresolved : calcResolved state with
  | error fault => simp only [calcShowError_eq]
  | ok value =>
      simp only [calcShowValue_eq (calcResolved_lt h hresolved), pure_bind, hfault]

theorem calcSettle_tracks (h : CalcHolds state) (herror : state.error = none)
    (pending : Option CalcOperation) :
    Tracks (do
      let (resolved, next) ← calcResolve (calcTakeHeld state)
      if resolved then return { next with operation := pending, entering := false }
      else return next) (state.desk.settle pending) := by
  have htaken := calcTakeHeld_holds h
  rw [calcResolve_taken h herror, pure_bind]
  have hfault : (calcTakeHeld state).error = none := by
    unfold calcTakeHeld
    split <;> exact herror
  unfold Desk.settle
  rw [desk_resolve]
  cases hresolved : calcResolved state with
  | error fault =>
      refine ⟨_, rfl, htaken.of_fault fault, ?_⟩
      have hdesk := calcTakeHeld_desk state
      simp only [Except.map, ← hdesk]
      rfl
  | ok value =>
      have hlt := calcResolved_lt h hresolved
      refine ⟨_, rfl, CalcHolds.of_value hfault rfl hlt htaken.entry htaken.decimals rfl, ?_⟩
      have hdesk : state.desk.fault = none := herror
      simp [Except.map, CalcState.desk, hfault, herror]

theorem calcOperator_tracks (h : CalcHolds state) (herror : state.error = none)
    (operation : CalcOperation) :
    Tracks (calcOperator state operation) (state.desk.operator operation) := by
  have htyped : state.desk.typed.isSome = state.entering := by
    cases hentering : state.entering <;> simp [CalcState.desk, hentering]
  have hpending : state.desk.pending = state.operation := rfl
  unfold calcOperator Desk.operator
  rw [htyped, hpending]
  by_cases hsettle : state.entering = true ∨ state.operation = none
  · have hrun := calcSettle_tracks h herror (some operation)
    rw [if_pos hsettle, if_pos hsettle]
    rw [calcResolve_taken h herror, pure_bind] at hrun ⊢
    cases hresolved : calcResolved state <;> rw [hresolved] at hrun <;> exact hrun
  · rw [if_neg hsettle, if_neg hsettle]
    have hentering : state.entering = false := by
      simpa using fun h ↦ hsettle (.inl h)
    refine ⟨_, rfl, ?_, ?_⟩
    · have hdisplay := h.display
      simp only [herror] at hdisplay
      refine ⟨h.accumulator, h.entry, h.decimals, by simp, by simp, h.length, ?_⟩
      simp [herror, hdisplay, CalcState.desk, Desk.shown, hentering]
    · simp [CalcState.desk, hentering]

theorem calcEquals_tracks (h : CalcHolds state) (herror : state.error = none) :
    Tracks (calcEquals state) state.desk.equals := by
  have hpending : state.desk.pending = state.operation := rfl
  unfold calcEquals Desk.equals
  rw [hpending]
  by_cases hnone : state.operation = none
  · rw [if_pos hnone, if_pos hnone]
    exact ⟨state, rfl, h, rfl⟩
  · rw [if_neg hnone, if_neg hnone]
    exact calcSettle_tracks h herror none

theorem calcNegate_tracks (h : CalcHolds state) (herror : state.error = none) :
    Tracks (calcNegate state) state.desk.negate := by
  have hlimit : calcLimit = 1000000000000000000 := rfl
  cases hentering : state.entering with
  | true =>
      have htyping := h.typing herror hentering
      have hzero : state.typed.magnitude ≠ 0 ↔ state.entry ≠ 0 := by
        rw [← Nat.cast_ne_zero (R := ℚ)]
        exact not_congr (div_eq_zero_iff.trans (or_iff_left scale_ne_zero))
      have hnegative : (!state.typed.negative && decide (state.typed.magnitude ≠ 0)) =
          (!state.negative && decide (state.entry ≠ 0)) := by
        rw [decide_eq_decide.mpr hzero]
        rfl
      have hnext : CalcTyping { state with negative := !state.negative && state.entry ≠ 0 } :=
        ⟨hentering, herror, h.accumulator, h.entry, h.decimals, htyping.places, htyping.point⟩
      unfold calcNegate Desk.negate
      rw [if_pos hentering, htyping.desk_typed]
      simp only [hnegative]
      exact calcShowEntry_typed hnext (by simp [CalcState.desk, hentering]) rfl
  | false =>
      have haccumulator := h.accumulator
      have hfalse : ¬state.entering = true := by simp [hentering]
      have hbound : (-state.accumulator).natAbs < calcLimit := by rwa [Int.natAbs_neg]
      have htyped : state.desk.typed = none := if_neg hfalse
      unfold calcNegate Desk.negate
      rw [if_neg hfalse, int64_eq (by omega), pure_bind, htyped]
      refine ⟨_, calcShowValue_eq hbound, CalcHolds.of_value herror hentering hbound h.entry h.decimals rfl, ?_⟩
      simp [CalcState.desk, hentering, neg_div]

theorem floor_div_eq_iff (a : ℕ) {b : ℕ} (h : 0 < b) :
    ((⌊(a : ℚ) / b⌋ : ℤ) : ℚ) = (a : ℚ) / b ↔ a % b = 0 := by
  have hb : (b : ℚ) ≠ 0 := by exact_mod_cast h.ne'
  rw [floor_div_cast, eq_div_iff hb]
  have hsplit := Nat.div_add_mod a b
  rw [Nat.mul_comm] at hsplit
  constructor
  · intro heq
    have hnat : a / b * b = a := by exact_mod_cast heq
    omega
  · intro hzero
    have hnat : a / b * b = a := by omega
    exact_mod_cast hnat

theorem calcCountPlaces_eq (entry : ℕ) (room decimals : ℕ) (h : decimals + room = calcDecimals) :
    calcCountPlaces room (entry % calcPlaceValue decimals) decimals =
        decimals + placesOf room ((entry : ℚ) / calcPlaceValue decimals) ∧
      decimals + placesOf room ((entry : ℚ) / calcPlaceValue decimals) ≤ calcDecimals ∧
      calcPlaceValue (decimals + placesOf room ((entry : ℚ) / calcPlaceValue decimals)) ∣ entry := by
  induction room generalizing decimals with
  | zero =>
      obtain rfl : decimals = calcDecimals := h
      exact ⟨rfl, Nat.le_refl _, one_dvd entry⟩
  | succ room ih =>
      have hle : decimals < calcDecimals := by omega
      have hsucc := placeValue_succ hle
      have hpositive := calcPlaceValue_pos hle.le
      have hfloor := floor_div_eq_iff entry hpositive
      by_cases hnone : entry % calcPlaceValue decimals = 0
      · have hplaces : placesOf (room + 1) ((entry : ℚ) / calcPlaceValue decimals) = 0 :=
          if_pos (hfloor.mpr hnone)
        rw [hplaces]
        exact ⟨if_pos hnone, hle.le, Nat.dvd_of_mod_eq_zero hnone⟩
      · have hnext := ih (decimals + 1) (by omega)
        have hten : (entry : ℚ) / calcPlaceValue decimals * 10 =
            (entry : ℚ) / calcPlaceValue (decimals + 1) := by
          rw [hsucc]
          push_cast
          field_simp
        have hplaces : placesOf (room + 1) ((entry : ℚ) / calcPlaceValue decimals) =
            placesOf room ((entry : ℚ) / calcPlaceValue (decimals + 1)) + 1 := by
          rw [← hten]
          exact if_neg fun heq ↦ hnone (hfloor.mp heq)
        have hmod : entry % calcPlaceValue decimals % calcPlaceValue (decimals + 1) =
            entry % calcPlaceValue (decimals + 1) :=
          Nat.mod_mod_of_dvd _ (placeValue_dvd (Nat.le_succ decimals) hle)
        have hcount : calcCountPlaces (room + 1) (entry % calcPlaceValue decimals) decimals =
            calcCountPlaces room (entry % calcPlaceValue (decimals + 1)) (decimals + 1) := by
          rw [← hmod]
          exact if_neg hnone
        have hsum : decimals + (placesOf room ((entry : ℚ) / calcPlaceValue (decimals + 1)) + 1) =
            decimals + 1 + placesOf room ((entry : ℚ) / calcPlaceValue (decimals + 1)) := by omega
        rw [hcount, hplaces, hsum]
        exact hnext

theorem standing_eq {value : ℤ} {state : CalcState} (hentry : state.entry = value.natAbs)
    (hnegative : state.negative = decide (value < 0))
    (hpoint : state.point = decide (state.entry % calcScale ≠ 0))
    (hdecimals : state.decimals = calcCountPlaces calcDecimals (state.entry % calcScale) 0) :
    state.typed = Typed.standing ((value : ℚ) / calcScale) := by
  have hpositive : (0 : ℚ) < calcScale := by norm_num [calcScale]
  have hmagnitude : |(value : ℚ) / calcScale| = (state.entry : ℚ) / calcScale := by
    rw [abs_div, abs_of_pos hpositive, ← Int.cast_abs, Int.abs_eq_natAbs, Int.cast_natCast, hentry]
  have hsign : (value : ℚ) / calcScale < 0 ↔ value < 0 := by
    rw [div_lt_iff₀ hpositive, zero_mul, Int.cast_lt_zero]
  have hfloor := floor_div_eq_iff state.entry (b := calcScale) (by decide)
  have hcount := (calcCountPlaces_eq state.entry calcDecimals 0 rfl).1
  rw [Nat.zero_add] at hcount
  unfold CalcState.typed Typed.standing
  simp only [hmagnitude, hsign, hfloor, hnegative, hpoint, ne_eq]
  congr 1
  exact hdecimals.trans hcount

theorem calcPercent_tracks (h : CalcHolds state) (herror : state.error = none) :
    Tracks (calcPercent state) state.desk.percent := by
  have hvalue : calcShownValue state = pure (calcShown state) := by
    unfold calcShownValue calcShown
    split
    · exact calcEntryValue_eq h.entry
    · rfl
  have hbound : (100 * calcScale : ℤ).natAbs < calcLimit := by decide
  have happly := calcApply_eq .divide (natAbs_calcShown h) hbound
  have hdesk := deskApply_scaled .divide (calcShown state) (100 * calcScale)
  have hhundred : ((100 * calcScale : ℤ) : ℚ) / calcScale = 100 := by
    norm_num [calcScale]
  have hnonzero : ¬(CalcOperation.divide = .divide ∧ (100 * calcScale : ℤ) = 0) := by decide
  rw [if_neg hnonzero] at happly hdesk
  rw [hhundred, ← desk_shown] at hdesk
  unfold calcPercent Desk.percent
  rw [hvalue, pure_bind, happly, pure_bind, hdesk]
  cases hjudge : calcJudge (calcResult .divide (calcShown state) (100 * calcScale)) with
  | error fault =>
      simp only [calcShowError_eq]
      exact ⟨_, rfl, h.of_fault fault, rfl⟩
  | ok value =>
      have hlt := calcJudge_lt hjudge
      have hmagnitude := calcMagnitude_eq (hlt.trans (by decide))
      obtain ⟨hcount, hle, hdvd⟩ := calcCountPlaces_eq value.natAbs calcDecimals 0 rfl
      simp only [hmagnitude]
      change Tracks _ { state.desk with typed := some (.standing ((value : ℚ) / calcScale)) }
      refine calcShowEntry_typed ?_ ?_ ?_
      · refine ⟨rfl, herror, h.accumulator, hlt, hcount.trans_le hle, hcount.symm ▸ hdvd, ?_⟩
        intro hpoint
        have hwhole : value.natAbs % calcScale = 0 := by simpa using hpoint
        change calcCountPlaces calcDecimals (value.natAbs % calcScale) 0 = 0
        rw [hwhole]
        rfl
      · simp [CalcState.desk]
      · exact standing_eq rfl rfl rfl rfl

theorem calcDigit_tracks (h : CalcHolds state) (herror : state.error = none) {digit : ℕ}
    (hdigit : digit ≤ 9) :
    Tracks (calcDigit state digit)
      { state.desk with typed := some ((state.desk.typed.getD .blank).digit digit) } := by
  have htyping := calcBeginEntry_typing h herror
  have hbegin : calcBeginEntry (calcBeginEntry state) = calcBeginEntry state :=
    if_neg (by simp [htyping.entering])
  have hsame : calcDigit state digit = calcDigit (calcBeginEntry state) digit := by
    simp only [calcDigit, hbegin]
  obtain ⟨next, hrun, hnext, htyped, hdesk⟩ := calcDigit_typed htyping hdigit
  rw [calcBeginEntry_typed] at htyped
  rw [calcBeginEntry_desk] at hdesk
  rw [hsame, hrun]
  exact calcShowEntry_typed hnext hdesk htyped

theorem calcPoint_tracks (h : CalcHolds state) (herror : state.error = none) :
    Tracks (calcShowEntry { calcBeginEntry state with point := true })
      { state.desk with typed := some { state.desk.typed.getD .blank with point := true } } := by
  have htyping := calcBeginEntry_typing h herror
  have htyped := calcBeginEntry_typed state
  have hdesk := calcBeginEntry_desk state
  generalize calcBeginEntry state = typing at *
  refine calcShowEntry_typed ?_ ?_ ?_
  · exact ⟨htyping.entering, htyping.error, htyping.accumulator, htyping.entry, htyping.decimals,
      htyping.places, fun hpoint ↦ absurd hpoint (by simp)⟩
  · have hheld : typing.desk.held = state.desk.held := by rw [hdesk]
    have hpending : typing.desk.pending = state.desk.pending := by rw [hdesk]
    have hfault : typing.desk.fault = state.desk.fault := by rw [hdesk]
    rw [← hheld, ← hpending, ← hfault]
    simp [CalcState.desk, htyping.entering]
  · rw [← htyped]
    rfl

theorem calcBackspace_tracks (h : CalcHolds state) (herror : state.error = none) :
    Tracks (calcBackspace state) { state.desk with typed := state.desk.typed.map Typed.back } := by
  cases hentering : state.entering with
  | true =>
      have htyping := h.typing herror hentering
      obtain ⟨next, hrun, hnext, htyped, hdesk⟩ := calcBackspace_typed htyping
      rw [hrun, htyping.desk_typed]
      exact calcShowEntry_typed hnext hdesk htyped
  | false =>
      have hrun : calcBackspace state = pure state := by simp [calcBackspace, hentering]
      refine ⟨state, hrun, h, ?_⟩
      simp [CalcState.desk, hentering]

theorem Tracks.ite {c : Prop} [Decidable c] {run run' : Noted CalcState} {desk desk' : Desk}
    (h : c → Tracks run desk) (h' : ¬c → Tracks run' desk') :
    Tracks (if c then run else run') (if c then desk else desk') := by
  by_cases hc : c
  · rw [if_pos hc, if_pos hc]
    exact h hc
  · rw [if_neg hc, if_neg hc]
    exact h' hc

theorem calcKeyPressed_tracks (h : CalcHolds state) (herror : state.error = none) (key : UInt8) :
    Tracks (calcKeyPressed state key) (state.desk.pressed key) := by
  unfold calcKeyPressed Desk.pressed
  refine Tracks.ite (fun hdigit ↦ ?_) fun _ ↦ ?_
  · have hle : key.toNat ≤ 0x39 := UInt8.le_iff_toNat_le.mp hdigit.2
    exact calcDigit_tracks h herror (by omega)
  refine Tracks.ite (fun _ ↦ calcPoint_tracks h herror) fun _ ↦ ?_
  refine Tracks.ite (fun _ ↦ calcOperator_tracks h herror .add) fun _ ↦ ?_
  refine Tracks.ite (fun _ ↦ calcOperator_tracks h herror .subtract) fun _ ↦ ?_
  refine Tracks.ite (fun _ ↦ calcOperator_tracks h herror .multiply) fun _ ↦ ?_
  refine Tracks.ite (fun _ ↦ calcOperator_tracks h herror .divide) fun _ ↦ ?_
  refine Tracks.ite (fun _ ↦ calcEquals_tracks h herror) fun _ ↦ ?_
  refine Tracks.ite (fun _ ↦ calcReset_tracks) fun _ ↦ ?_
  refine Tracks.ite (fun _ ↦ calcBackspace_tracks h herror) fun _ ↦ ?_
  refine Tracks.ite (fun _ ↦ calcNegate_tracks h herror) fun _ ↦ ?_
  exact Tracks.ite (fun _ ↦ calcPercent_tracks h herror) fun _ ↦ ⟨state, rfl, h, rfl⟩

theorem calcKey_tracks (h : CalcHolds state) (key : UInt8) :
    Tracks (calcKey state key) (state.desk.press key) := by
  have hfault : state.desk.fault = state.error := rfl
  unfold calcKey Desk.press
  rw [hfault]
  refine Tracks.ite (fun _ ↦ Tracks.ite (fun _ ↦ calcReset_tracks) fun _ ↦ ?_) fun herror ↦ ?_
  · rw [← calcReset_desk]
    exact calcKeyPressed_tracks calcReset_holds rfl key
  · exact calcKeyPressed_tracks h (not_not.mp herror) key

theorem calcKeys_tracks (h : CalcHolds state) (keys : List UInt8) :
    Tracks (keys.foldlM calcKey state) (keys.foldl Desk.press state.desk) := by
  induction keys generalizing state with
  | nil => exact ⟨state, rfl, h, rfl⟩
  | cons key rest ih =>
      obtain ⟨next, hrun, hnext, hdesk⟩ := calcKey_tracks h key
      rw [List.foldlM_cons, hrun, pure_bind, List.foldl_cons, ← hdesk]
      exact ih hnext

/-- The calculator computes what is typed: every step of it fits its word, the number typed and the
one held stay below the limit, the display is ended within its array, the number held is that of the
calculator over the rationals, and the display reads as the number shown, or is the message. -/
theorem calcKeys_computes (keys : List UInt8) :
    ∃ state, calcKeys keys true = (state, true) ∧ state.entry < calcLimit ∧
      state.accumulator.natAbs < calcLimit ∧ state.display.length < calcDisplayMaximum ∧
      (state.accumulator : ℚ) / calcScale = (deskKeys keys).held ∧
      state.operation = (deskKeys keys).pending ∧ state.error = (deskKeys keys).fault ∧
      match (deskKeys keys).fault with
      | some fault => state.display = fault.text
      | none => readDecimal state.display = some (deskKeys keys).shown := by
  obtain ⟨state, hrun, hholds, hdesk⟩ := calcKeys_tracks calcReset_holds keys
  rw [calcReset_desk] at hdesk
  change state.desk = deskKeys keys at hdesk
  refine ⟨state, ?_, hholds.entry, hholds.accumulator, hholds.length, ?_⟩
  · change (keys.foldlM calcKey calcReset) true = _
    rw [hrun]
    rfl
  · rw [← hdesk]
    exact ⟨rfl, rfl, rfl, hholds.display⟩

end OxysOS.Userland
