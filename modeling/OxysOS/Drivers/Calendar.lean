import OxysOS.Library.Blocks
import Mathlib.Data.List.Lex
import Mathlib.Data.Int.DivMod
import Mathlib.Tactic.IntervalCases

/-!
# The two calendars

`drivers/rtc/rtc.c` counts the seconds to a date and gives the date of a count, and so does
`libc/time/time.c` for itself.  Each takes whole years from a number of days and then whole months,
so that both give the date whose days before it are that number.
-/

namespace OxysOS.Drivers

open OxysOS.Library Finset

structure RtcTime where
  year : ℕ
  month : ℕ
  day : ℕ
  hour : ℕ
  minute : ℕ
  second : ℕ
  deriving DecidableEq

def rtcIsLeap (year : ℕ) : Bool := year % 4 = 0 ∧ year % 100 ≠ 0 ∨ year % 400 = 0

def rtcMonthLengths : List ℕ := [31, 28, 31, 30, 31, 30, 31, 31, 30, 31, 30, 31]

/-- `RtcDaysInMonth`, which reads nothing outside its table. -/
def rtcDaysInMonth (year month : ℕ) : Option ℕ :=
  if month = 2 ∧ rtcIsLeap year then some 29
  else if month = 0 then none
  else rtcMonthLengths[month - 1]?

/-- `RtcIsLeap(year) ? 366U : 365U` -/
def rtcDaysInYear (year : ℕ) : ℕ := if rtcIsLeap year then 366 else 365

def rtcDaysFromDate (year month day : ℕ) : Option ℕ := do
  let years := (List.range' 1970 (year - 1970)).foldl (fun days each ↦ days + rtcDaysInYear each) 0
  let days ← (List.range' 1 (month - 1)).foldlM (fun days each ↦
    (rtcDaysInMonth year each).map (days + ·)) years
  return days + (day + (2 ^ 32 - 1)) % 2 ^ 32

def rtcSecondsFromTime (time : RtcTime) : Option ℕ :=
  (rtcDaysFromDate time.year time.month time.day).map fun days ↦
    days * 86400 + time.hour * 3600 + time.minute * 60 + time.second

/-- The loop of `RtcTimeFromSeconds` over the years. -/
def rtcYearFrom (days year : ℕ) : ℕ × ℕ :=
  if days ≥ rtcDaysInYear year then rtcYearFrom (days - rtcDaysInYear year) ((year + 1) % 2 ^ 32)
  else (days, year)
  termination_by days
  decreasing_by
    have hpositive : 0 < rtcDaysInYear year := by
      unfold rtcDaysInYear
      split <;> decide
    omega

theorem rtcDaysInMonth_none {year month : ℕ} (h : 12 < month) : rtcDaysInMonth year month = none := by
  have hmonth : ¬(month = 2 ∧ rtcIsLeap year) := by omega
  rw [rtcDaysInMonth, if_neg hmonth, if_neg (by omega), List.getElem?_eq_none]
  simp [rtcMonthLengths]
  omega

/-- The loop of `RtcTimeFromSeconds` over the months. -/
def rtcMonthFrom (year days month : ℕ) : Option (ℕ × ℕ) :=
  match hlength : rtcDaysInMonth year month with
  | none => none
  | some length =>
      if days ≥ length then rtcMonthFrom year (days - length) (month + 1) else some (days, month)
  termination_by 13 - month
  decreasing_by
    have hmonth : ¬12 < month := fun h ↦ by simp [rtcDaysInMonth_none h] at hlength
    omega

def rtcTimeFromSeconds (seconds : ℕ) : Option RtcTime :=
  let within := seconds % 86400
  let (days, year) := rtcYearFrom (seconds / 86400) 1970
  (rtcMonthFrom year days 1).map fun (days, month) ↦
    { year, month
      day := days % 2 ^ 32 + 1
      hour := within / 3600
      minute := within % 3600 / 60
      second := within % 60 }

/-- `struct tm` -/
structure Tm where
  sec : ℤ
  min : ℤ
  hour : ℤ
  mday : ℤ
  mon : ℤ
  year : ℤ
  wday : ℤ
  yday : ℤ
  isdst : ℤ
  deriving DecidableEq

/-- `TimeIsLeap`, of a year that is not negative. -/
def timeIsLeap (year : ℕ) : Bool := year % 4 = 0 ∧ year % 100 ≠ 0 ∨ year % 400 = 0

/-- The loop of `gmtime_r` over the years. -/
def gmtimeYearFrom (days year : ℕ) : ℕ × ℕ :=
  let length := if timeIsLeap year then 366 else 365
  if days ≥ length then gmtimeYearFrom (days - length) (year + 1) else (days, year)
  termination_by days
  decreasing_by
    have hpositive : 0 < length := by
      unfold length
      split <;> decide
    omega

def gmtimeMonthLengths : List ℕ := [31, 28, 31, 30, 31, 30, 31, 31, 30, 31, 30, 31]

/-- The days of a month of `gmtime_r`, which reads nothing outside its table. -/
def gmtimeMonthLength (year month : ℕ) : Option ℕ :=
  if month = 1 ∧ timeIsLeap year then some 29 else gmtimeMonthLengths[month]?

theorem gmtimeMonthLength_none {year month : ℕ} (h : 12 ≤ month) :
    gmtimeMonthLength year month = none := by
  have hmonth : ¬(month = 1 ∧ timeIsLeap year) := by omega
  rw [gmtimeMonthLength, if_neg hmonth, List.getElem?_eq_none]
  simpa [gmtimeMonthLengths] using h

/-- The loop of `gmtime_r` over the months. -/
def gmtimeMonthFrom (year days month : ℕ) : Option (ℕ × ℕ) :=
  match hlength : gmtimeMonthLength year month with
  | none => none
  | some length =>
      if days < length then some (days, month) else gmtimeMonthFrom year (days - length) (month + 1)
  termination_by 12 - month
  decreasing_by
    have hmonth : ¬12 ≤ month := fun h ↦ by simp [gmtimeMonthLength_none h] at hlength
    omega

/-- The conversion of an integer to `int`. -/
def toInt (value : ℤ) : ℤ := value.bmod (2 ^ 32)

/-- `gmtime_r`.  Past its test every number is natural. -/
def gmtime (timer : ℤ) : Option Tm :=
  if timer < 0 then none
  else
    let seconds := timer.toNat
    let within := seconds % 86400
    let (ofYear, year) := gmtimeYearFrom (seconds / 86400) 1970
    (gmtimeMonthFrom year ofYear 0).map fun (days, month) ↦
      { sec := toInt (within % 60 : ℕ)
        min := toInt (within % 3600 / 60 : ℕ)
        hour := toInt (within / 3600 : ℕ)
        mday := toInt days + 1
        mon := month
        year := toInt ((year : ℤ) - 1900)
        wday := toInt ((seconds / 86400 + 4) % 7 : ℕ)
        yday := toInt ofYear
        isdst := 0 }

def IsLeapYear (year : ℕ) : Prop := 4 ∣ year ∧ (¬100 ∣ year ∨ 400 ∣ year)

instance (year : ℕ) : Decidable (IsLeapYear year) := inferInstanceAs (Decidable (_ ∧ _))

def yearLength (year : ℕ) : ℕ := if IsLeapYear year then 366 else 365

def monthLength (year month : ℕ) : ℕ :=
  if month = 2 then if IsLeapYear year then 29 else 28
  else if month = 4 ∨ month = 6 ∨ month = 9 ∨ month = 11 then 30
  else 31

structure RtcTime.Valid (time : RtcTime) : Prop where
  year : time.year < 2 ^ 32
  month : 1 ≤ time.month ∧ time.month ≤ 12
  day : 1 ≤ time.day ∧ time.day ≤ monthLength time.year time.month
  hour : time.hour < 24
  minute : time.minute < 60
  second : time.second < 60

def RtcTime.fields (time : RtcTime) : List ℕ :=
  [time.year, time.month, time.day, time.hour, time.minute, time.second]

/-- The day of the week of a number of days after the first of January 1970, a Thursday. -/
def weekday : ℕ → ℕ
  | 0 => 4
  | days + 1 => (weekday days + 1) % 7

abbrev years (each : ℕ) : ℕ := yearLength (1970 + each)

abbrev months (year each : ℕ) : ℕ := monthLength year (each + 1)

theorem rtcIsLeap_iff (year : ℕ) : rtcIsLeap year = true ↔ IsLeapYear year := by
  simp only [rtcIsLeap, IsLeapYear, decide_eq_true_eq]
  omega

theorem rtcDaysInYear_eq (year : ℕ) : rtcDaysInYear year = yearLength year := by
  simp [rtcDaysInYear, yearLength, rtcIsLeap_iff]

theorem timeIsLeap_iff (year : ℕ) : timeIsLeap year = true ↔ IsLeapYear year := rtcIsLeap_iff year

theorem yearLength_ge (year : ℕ) : 365 ≤ yearLength year := by
  simp only [yearLength]
  split <;> omega

theorem yearLength_le (year : ℕ) : yearLength year ≤ 366 := by
  simp only [yearLength]
  split <;> omega

theorem years_pos (each : ℕ) : 0 < years each := (by decide : 0 < 365).trans_le (yearLength_ge _)

theorem months_pos (year each : ℕ) : 0 < months year each := by
  simp only [months, monthLength]
  split_ifs <;> decide

theorem blockStart_months (year : ℕ) : blockStart (months year) 12 = yearLength year := by
  by_cases h : IsLeapYear year <;> simp [blockStart, sum_range_succ, monthLength, yearLength, h]

theorem rtcDaysInMonth_eq (year : ℕ) {each : ℕ} (h : each < 12) :
    rtcDaysInMonth year (each + 1) = some (months year each) := by
  by_cases hleap : IsLeapYear year <;> interval_cases each <;>
    simp [rtcDaysInMonth, rtcIsLeap_iff, monthLength, hleap, rtcMonthLengths]

theorem gmtimeMonthLength_eq (year : ℕ) {each : ℕ} (h : each < 12) :
    gmtimeMonthLength year each = some (months year each) := by
  by_cases hleap : IsLeapYear year <;> interval_cases each <;>
    simp [gmtimeMonthLength, timeIsLeap_iff, monthLength, hleap, gmtimeMonthLengths]

theorem rtcYearFrom_eq {year within : ℕ} (hyear : 1970 + year < 2 ^ 32) (h : within < years year) :
    rtcYearFrom (blockStart years year + within) 1970 = (within, 1970 + year) := by
  have hstep : ∀ each < year, ∀ count, years each ≤ count →
      rtcYearFrom count (1970 + each) = rtcYearFrom (count - years each) (1970 + (each + 1)) := by
    intro each heach count hcount
    have hnext : (1970 + each + 1) % 2 ^ 32 = 1970 + (each + 1) := Nat.mod_eq_of_lt (by omega)
    rw [rtcYearFrom, rtcDaysInYear_eq, if_pos hcount, hnext]
  refine (taken_blocks years (fun count each ↦ rtcYearFrom count (1970 + each)) hstep within).trans ?_
  rw [rtcYearFrom, rtcDaysInYear_eq, if_neg (Nat.not_le_of_lt h)]

theorem gmtimeYearFrom_eq {year within : ℕ} (h : within < years year) :
    gmtimeYearFrom (blockStart years year + within) 1970 = (within, 1970 + year) := by
  have hlength : ∀ year, (if timeIsLeap year then 366 else 365) = yearLength year := rtcDaysInYear_eq
  have hstep : ∀ each < year, ∀ count, years each ≤ count →
      gmtimeYearFrom count (1970 + each) =
        gmtimeYearFrom (count - years each) (1970 + (each + 1)) := by
    intro each _ count hcount
    rw [gmtimeYearFrom, hlength]
    exact if_pos hcount
  refine (taken_blocks years (fun count each ↦ gmtimeYearFrom count (1970 + each)) hstep within).trans
    ?_
  rw [gmtimeYearFrom, hlength]
  exact if_neg (Nat.not_le_of_lt h)

theorem rtcMonthFrom_eq (year : ℕ) {month within : ℕ} (hmonth : month < 12)
    (h : within < months year month) :
    rtcMonthFrom year (blockStart (months year) month + within) 1 = some (within, month + 1) := by
  have hstep : ∀ each < month, ∀ count, months year each ≤ count →
      rtcMonthFrom year count (each + 1) =
        rtcMonthFrom year (count - months year each) (each + 1 + 1) := by
    intro each heach count hcount
    rw [rtcMonthFrom, rtcDaysInMonth_eq year (heach.trans hmonth)]
    exact if_pos hcount
  refine (taken_blocks (months year) (fun count each ↦ rtcMonthFrom year count (each + 1)) hstep
    within).trans ?_
  rw [rtcMonthFrom, rtcDaysInMonth_eq year hmonth]
  exact if_neg (Nat.not_le_of_lt h)

theorem gmtimeMonthFrom_eq (year : ℕ) {month within : ℕ} (hmonth : month < 12)
    (h : within < months year month) :
    gmtimeMonthFrom year (blockStart (months year) month + within) 0 = some (within, month) := by
  have hstep : ∀ each < month, ∀ count, months year each ≤ count →
      gmtimeMonthFrom year count each =
        gmtimeMonthFrom year (count - months year each) (each + 1) := by
    intro each heach count hcount
    rw [gmtimeMonthFrom, gmtimeMonthLength_eq year (heach.trans hmonth)]
    exact if_neg (Nat.not_lt_of_le hcount)
  refine (taken_blocks (months year) (fun count each ↦ gmtimeMonthFrom year count each) hstep
    within).trans ?_
  rw [gmtimeMonthFrom, gmtimeMonthLength_eq year hmonth]
  exact if_pos h

theorem foldl_years (count : ℕ) :
    (List.range' 1970 count).foldl (fun days each ↦ days + rtcDaysInYear each) 0 =
      blockStart years count := by
  induction count with
  | zero => rfl
  | succ count ih =>
      rw [List.range'_concat, List.foldl_append, ih, blockStart_succ]
      simp [rtcDaysInYear_eq]

theorem foldlM_months (year before : ℕ) {count : ℕ} (h : count ≤ 12) :
    (List.range' 1 count).foldlM (fun days each ↦ (rtcDaysInMonth year each).map (days + ·)) before =
      some (before + blockStart (months year) count) := by
  induction count with
  | zero => rfl
  | succ count ih =>
      rw [List.range'_concat, List.foldlM_append, ih (by omega), blockStart_succ]
      simp [Nat.add_comm 1 count, rtcDaysInMonth_eq year h, Nat.add_assoc]

theorem rtcDaysFromDate_eq {year month day : ℕ} (hmonth : 1 ≤ month ∧ month ≤ 12)
    (hday : 1 ≤ day ∧ day < 2 ^ 32) :
    rtcDaysFromDate year month day =
      some (blockStart years (year - 1970) + blockStart (months year) (month - 1) + (day - 1)) := by
  have hless : (day + (2 ^ 32 - 1)) % 2 ^ 32 = day - 1 := by omega
  simp only [rtcDaysFromDate, foldl_years, foldlM_months year _ (by omega : month - 1 ≤ 12), hless]
  rfl

theorem monthLength_le (year month : ℕ) : monthLength year month ≤ 31 := by
  simp only [monthLength]
  split_ifs <;> decide

theorem rtcSecondsFromTime_eq {time : RtcTime} (h : time.Valid) :
    rtcSecondsFromTime time = some ((blockStart years (time.year - 1970) +
      (blockStart (months time.year) (time.month - 1) + (time.day - 1))) * 86400 +
        time.hour * 3600 + time.minute * 60 + time.second) := by
  have hlength := monthLength_le time.year time.month
  have hday := h.day
  rw [rtcSecondsFromTime, rtcDaysFromDate_eq h.month (by omega), Nat.add_assoc]
  rfl

theorem exists_date (days : ℕ) : ∃ year month day, month < 12 ∧ day < months (1970 + year) month ∧
    blockStart (months (1970 + year)) month + day < years year ∧
      blockStart years year + (blockStart (months (1970 + year)) month + day) = days := by
  obtain ⟨year, ofYear, hyear, hdays⟩ := exists_block years_pos days
  obtain ⟨month, day, hday, hofYear⟩ := exists_block (months_pos (1970 + year)) ofYear
  refine ⟨year, month, day, ?_, hday, by omega, by omega⟩
  by_contra hmonth
  have hwhole : blockStart (months (1970 + year)) 12 = years year := blockStart_months _
  have hmono := blockStart_mono (months (1970 + year)) (Nat.le_of_not_lt hmonth)
  omega

theorem within_year {year month day : ℕ} (hmonth : month < 12) (hday : day < months year month) :
    blockStart (months year) month + day < yearLength year := by
  have hmono := blockStart_mono (months year) (Nat.succ_le_of_lt hmonth)
  rw [blockStart_months, Nat.succ_eq_add_one, blockStart_succ] at hmono
  omega

theorem rtcTimeFromSeconds_eq {year month day within : ℕ} (hyear : 1970 + year < 2 ^ 32)
    (hmonth : month < 12) (hday : day < months (1970 + year) month)
    (hofYear : blockStart (months (1970 + year)) month + day < years year) (hwithin : within < 86400) :
    rtcTimeFromSeconds ((blockStart years year + (blockStart (months (1970 + year)) month + day)) *
        86400 + within) =
      some ⟨1970 + year, month + 1, day + 1, within / 3600, within % 3600 / 60, within % 60⟩ := by
  have hlength : months (1970 + year) month ≤ 31 := monthLength_le _ _
  have hless : day % 2 ^ 32 = day := Nat.mod_eq_of_lt (by omega)
  have hdays : ∀ days, (days * 86400 + within) / 86400 = days := by omega
  have hrest : ∀ days, (days * 86400 + within) % 86400 = within := by omega
  simp only [rtcTimeFromSeconds, hdays, hrest, rtcYearFrom_eq hyear hofYear,
    rtcMonthFrom_eq _ hmonth hday, Option.map_some, hless]

theorem toInt_of_lt {value : ℕ} (h : value < 2 ^ 31) : toInt value = value := by
  rw [toInt, Int.bmod_eq_of_le] <;> omega

theorem gmtime_eq {year month day within : ℕ} (hyear : 70 + year < 2 ^ 31) (hmonth : month < 12)
    (hday : day < months (1970 + year) month)
    (hofYear : blockStart (months (1970 + year)) month + day < years year) (hwithin : within < 86400) :
    gmtime ((blockStart years year + (blockStart (months (1970 + year)) month + day)) * 86400 +
        within : ℕ) =
      some ⟨(within % 60 : ℕ), (within % 3600 / 60 : ℕ), (within / 3600 : ℕ), (day + 1 : ℕ), month,
        (70 + year : ℕ), ((blockStart years year +
          (blockStart (months (1970 + year)) month + day) + 4) % 7 : ℕ),
        (blockStart (months (1970 + year)) month + day : ℕ), 0⟩ := by
  have hlength : months (1970 + year) month ≤ 31 := monthLength_le _ _
  have hyearLength : years year ≤ 366 := yearLength_le _
  have hyearOf : toInt (((1970 + year : ℕ) : ℤ) - 1900) = (70 + year : ℕ) := by
    rw [← toInt_of_lt hyear]
    congr 1
    omega
  have hdays : ∀ days, (days * 86400 + within) / 86400 = days := by omega
  have hrest : ∀ days, (days * 86400 + within) % 86400 = within := by omega
  rw [gmtime, if_neg (by omega), Int.toNat_natCast]
  simp only [hdays, hrest, gmtimeYearFrom_eq hofYear, gmtimeMonthFrom_eq _ hmonth hday,
    Option.map_some, hyearOf]
  rw [toInt_of_lt (by omega), toInt_of_lt (by omega), toInt_of_lt (by omega),
    toInt_of_lt (by omega), toInt_of_lt (by omega), toInt_of_lt (by omega)]
  rfl

theorem weekday_eq (days : ℕ) : weekday days = (days + 4) % 7 := by
  induction days with
  | zero => rfl
  | succ days ih =>
      rw [weekday, ih]
      omega

/-- What the library's calendar gives of a date of the clock's. -/
structure SameDate (tm : Tm) (time : RtcTime) : Prop where
  year : tm.year + 1900 = time.year
  month : tm.mon + 1 = time.month
  day : tm.mday = time.day
  hour : tm.hour = time.hour
  minute : tm.min = time.minute
  second : tm.sec = time.second
  ofYear : tm.yday =
    (∑ each ∈ range (time.month - 1), monthLength time.year (each + 1) + (time.day - 1) : ℕ)

theorem calendars_of_seconds {seconds : ℕ} (h : seconds ≤ 2 ^ 55) :
    ∃ time tm, rtcTimeFromSeconds seconds = some time ∧ time.Valid ∧
      rtcSecondsFromTime time = some seconds ∧ gmtime seconds = some tm ∧ SameDate tm time ∧
        tm.wday = weekday (seconds / 86400) := by
  obtain ⟨year, month, day, hmonth, hday, hofYear, hdays⟩ := exists_date (seconds / 86400)
  have hyears : year * 365 ≤ blockStart years year := le_blockStart (fun _ ↦ yearLength_ge _) year
  have hyear : year ≤ seconds / 86400 / 365 := by omega
  have hwithin : seconds % 86400 < 86400 := Nat.mod_lt _ (by decide)
  have hsplit : seconds = (blockStart years year + (blockStart (months (1970 + year)) month + day)) *
      86400 + seconds % 86400 := by omega
  have htime := rtcTimeFromSeconds_eq (by omega) hmonth hday hofYear hwithin
  have htm := gmtime_eq (by omega) hmonth hday hofYear hwithin
  rw [← hsplit] at htime htm
  have hvalid : (⟨1970 + year, month + 1, day + 1, seconds % 86400 / 3600,
      seconds % 86400 % 3600 / 60, seconds % 86400 % 60⟩ : RtcTime).Valid :=
    ⟨by dsimp only; omega, by dsimp only; omega, ⟨Nat.le_add_left 1 day, hday⟩,
      by dsimp only; omega, by dsimp only; omega, by dsimp only; omega⟩
  refine ⟨_, _, htime, hvalid, ?_, htm, ⟨?_, rfl, rfl, rfl, rfl, rfl, rfl⟩, ?_⟩
  · rw [rtcSecondsFromTime_eq hvalid]
    simp only [Nat.add_sub_cancel_left, Nat.add_sub_cancel, hdays, Option.some.injEq]
    omega
  · change ((70 + year : ℕ) : ℤ) + 1900 = (1970 + year : ℕ)
    omega
  · rw [weekday_eq, hdays]

theorem rtcSecondsFromTime_lt {earlier later : RtcTime} (hearlier : earlier.Valid)
    (hlater : later.Valid) (hyear : 1970 ≤ earlier.year) (h : earlier.fields < later.fields) :
    ∃ before after, rtcSecondsFromTime earlier = some before ∧
      rtcSecondsFromTime later = some after ∧ before < after := by
  refine ⟨_, _, rtcSecondsFromTime_eq hearlier, rtcSecondsFromTime_eq hlater, ?_⟩
  obtain ⟨-, hmonth, hday, hhour, hminute, hsecond⟩ := hearlier
  obtain ⟨-, hmonth', hday', hhour', hminute', hsecond'⟩ := hlater
  obtain ⟨year, month, day, hour, minute, second⟩ := earlier
  obtain ⟨year', month', day', hour', minute', second'⟩ := later
  dsimp only at *
  obtain ⟨year, rfl⟩ := Nat.exists_eq_add_of_le hyear
  obtain ⟨month, rfl⟩ := Nat.exists_eq_add_of_le' hmonth.1
  obtain ⟨day, rfl⟩ := Nat.exists_eq_add_of_le' hday.1
  obtain ⟨month', rfl⟩ := Nat.exists_eq_add_of_le' hmonth'.1
  obtain ⟨day', rfl⟩ := Nat.exists_eq_add_of_le' hday'.1
  simp only [RtcTime.fields, List.cons_lt_cons_iff, List.not_lt_nil, and_false, or_false] at h
  simp only [Nat.add_sub_cancel_left, Nat.add_sub_cancel]
  have hdayOf : day < months (1970 + year) month := hday.2
  have hofYear : blockStart (months (1970 + year)) month + day < years year :=
    within_year (by omega) hdayOf
  rcases h with hlt | ⟨rfl, hlt | ⟨hsame, h⟩⟩
  · have hdays := blockStart_add_lt hofYear (by omega : year < year' - 1970)
      (blockStart (months year') month' + day')
    omega
  · rw [Nat.add_sub_cancel_left]
    have hdays := blockStart_add_lt hdayOf (Nat.lt_of_succ_lt_succ hlt) day'
    omega
  · obtain rfl : month = month' := Nat.succ_injective hsame
    rw [Nat.add_sub_cancel_left]
    omega

/-- The calendars agree, and are inverse to counting, from 1970 on. -/
theorem calendars_agree :
    (∀ seconds : ℕ, seconds ≤ 2 ^ 55 → ∃ time tm, rtcTimeFromSeconds seconds = some time ∧
      time.Valid ∧ rtcSecondsFromTime time = some seconds ∧ gmtime seconds = some tm ∧
        SameDate tm time ∧ tm.wday = weekday (seconds / 86400)) ∧
    ∀ earlier later : RtcTime, earlier.Valid → later.Valid → 1970 ≤ earlier.year →
      earlier.fields < later.fields → ∃ before after, rtcSecondsFromTime earlier = some before ∧
        rtcSecondsFromTime later = some after ∧ before < after :=
  ⟨fun _ ↦ calendars_of_seconds, fun _ _ ↦ rtcSecondsFromTime_lt⟩

/-- The start of 1970, and the last second of February and the first of March of 2000. -/
theorem calendars_agree_march :
    (∃ time tm, rtcTimeFromSeconds 0 = some time ∧ time.Valid ∧
      rtcSecondsFromTime time = some 0 ∧ gmtime 0 = some tm ∧ SameDate tm time ∧
        tm.wday = weekday (0 / 86400)) ∧
    ∃ before after, rtcSecondsFromTime ⟨2000, 2, 29, 23, 59, 59⟩ = some before ∧
      rtcSecondsFromTime ⟨2000, 3, 1, 0, 0, 0⟩ = some after ∧ before < after :=
  ⟨calendars_agree.1 0 (by norm_num),
    calendars_agree.2 ⟨2000, 2, 29, 23, 59, 59⟩ ⟨2000, 3, 1, 0, 0, 0⟩
      ⟨by decide, by decide, by decide, by decide, by decide, by decide⟩
      ⟨by decide, by decide, by decide, by decide, by decide, by decide⟩ (by decide) (by decide)⟩

/-- Before 1970 no year is counted, and the last day of 1968 counts more than the next. -/
theorem calendars_not_before :
    ¬∀ earlier later : RtcTime, earlier.Valid → later.Valid → earlier.fields < later.fields →
      ∃ before after, rtcSecondsFromTime earlier = some before ∧
        rtcSecondsFromTime later = some after ∧ before < after := by
  intro hall
  obtain ⟨before, after, hbefore, hafter, hlt⟩ := hall ⟨1968, 12, 31, 0, 0, 0⟩
    ⟨1969, 1, 1, 0, 0, 0⟩ ⟨by decide, by decide, by decide, by decide, by decide, by decide⟩
    ⟨by decide, by decide, by decide, by decide, by decide, by decide⟩ (by decide)
  have hfirst : rtcSecondsFromTime ⟨1968, 12, 31, 0, 0, 0⟩ = some (365 * 86400) := by decide
  have hnext : rtcSecondsFromTime ⟨1969, 1, 1, 0, 0, 0⟩ = some 0 := by decide
  rw [hfirst, Option.some.injEq] at hbefore
  rw [hnext, Option.some.injEq] at hafter
  omega

end OxysOS.Drivers
