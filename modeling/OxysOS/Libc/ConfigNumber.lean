import OxysOS.Libc.Config
import OxysOS.Library.Decimal

/-!
# Numbers in a configuration

`OxysConfigNumber` reads a decimal numeral with an optional sign.  A product or a sum that a `long`
cannot hold is undefined, and the reading stops there.
-/

namespace OxysOS.Libc

open OxysOS.Library

/-- `LONG_MAX` -/
def longMaximum : ℤ := 9223372036854775807

/-- `LONG_MIN` -/
def longMinimum : ℤ := -9223372036854775808

/-- The result of an operation upon `long`s, where there is one. -/
def longOf (value : ℤ) : Option ℤ :=
  if longMinimum ≤ value ∧ value ≤ longMaximum then some value else none

/-- The loop of `OxysConfigNumber`. -/
def configDigits (fallback : ℤ) (negative : Bool) (result : ℤ) : List UInt8 → Option ℤ
  | [] => if negative then longOf (-result) else some result
  | c :: rest =>
      if c < byteOf '0' ∨ byteOf '9' < c then some fallback
      else
        (longOf (result * 10)).bind fun tens ↦
          (longOf (tens + ((c.toNat : ℤ) - (byteOf '0').toNat))).bind fun result ↦
            configDigits fallback negative result rest

def afterSign (value : List UInt8) : List UInt8 :=
  if value.head? = some (byteOf '-') ∨ value.head? = some (byteOf '+') then value.tail else value

/-- `OxysConfigNumber`, where the setting is found. -/
def configNumber (value : List UInt8) (fallback : ℤ) : Option ℤ :=
  if afterSign value = [] then some fallback
  else configDigits fallback (value.head? = some (byteOf '-')) 0 (afterSign value)

def oxysConfigNumber (config : OxysConfig) (sectionName : List UInt8) (occurrence : ℕ)
    (key : List UInt8) (fallback : ℤ) : Option ℤ :=
  match oxysConfigValue config sectionName occurrence key with
  | none => some fallback
  | some value => configNumber value fallback

def numeralOf (value : List UInt8) : Option ℤ :=
  let magnitude : ℤ := decimalValue (afterSign value)
  if afterSign value ≠ [] ∧ (afterSign value).all isDecimal then
    some (if value.head? = some (byteOf '-') then -magnitude else magnitude)
  else none

/-- The number of a setting: what the numeral denotes where a `long` holds it, and the fallback for
every other value and where there is none. -/
def numberMeant (value : Option (List UInt8)) (fallback : ℤ) : ℤ :=
  match value.bind numeralOf with
  | none => fallback
  | some number => if longMinimum ≤ number ∧ number ≤ longMaximum then number else fallback

def leadingDigits (value : List UInt8) : List UInt8 := (afterSign value).takeWhile isDecimal

theorem decimalValue_snoc (digits : List UInt8) (c : UInt8) :
    decimalValue (digits ++ [c]) = decimalValue digits * 10 + (c.toNat - 0x30) := by
  simp [decimalValue]

theorem decimalValue_le_append (digits more : List UInt8) :
    decimalValue digits ≤ decimalValue (digits ++ more) := by
  induction more using List.reverseRecOn with
  | nil => simp
  | append_singleton more c ih =>
      rw [← List.append_assoc, decimalValue_snoc]
      omega

theorem longOf_of_le {value : ℤ} (hnonneg : 0 ≤ value) (hle : value ≤ longMaximum) :
    longOf value = some value :=
  if_pos ⟨le_trans (by decide) hnonneg, hle⟩

theorem longOf_of_lt {value : ℤ} (hlt : longMaximum < value) : longOf value = none :=
  if_neg fun h ↦ absurd h.2 (not_le.mpr hlt)

theorem isDecimal_iff {c : UInt8} : isDecimal c = true ↔ ¬(c < byteOf '0' ∨ byteOf '9' < c) := by
  have hzero : byteOf '0' = 0x30 := by decide
  have hnine : byteOf '9' = 0x39 := by decide
  rw [isDecimal, hzero, hnine, Bool.and_eq_true, decide_eq_true_iff, decide_eq_true_iff, not_or,
    UInt8.not_lt, UInt8.not_lt]

theorem le_of_isDecimal {c : UInt8} (h : isDecimal c = true) : 0x30 ≤ c.toNat := by
  rw [isDecimal, Bool.and_eq_true, decide_eq_true_iff] at h
  exact h.1

theorem configDigits_eq (fallback : ℤ) (negative : Bool) (done rest : List UInt8)
    (hdone : (decimalValue done : ℤ) ≤ longMaximum) :
    configDigits fallback negative (decimalValue done) rest =
      if (decimalValue (done ++ rest.takeWhile isDecimal) : ℤ) ≤ longMaximum then
        some (if rest.all isDecimal then
          if negative then -(decimalValue (done ++ rest) : ℤ) else decimalValue (done ++ rest)
          else fallback)
      else none := by
  induction rest generalizing done with
  | nil =>
      rw [List.takeWhile_nil, List.append_nil, if_pos hdone]
      cases negative with
      | false => rfl
      | true =>
          have hfits : longMinimum ≤ -(decimalValue done : ℤ) ∧
              -(decimalValue done : ℤ) ≤ longMaximum := by
            unfold longMaximum at *
            unfold longMinimum
            omega
          rw [configDigits, if_pos rfl, longOf, if_pos hfits]
          rfl
  | cons c rest ih =>
      by_cases hdigit : isDecimal c = true
      · have hlow := le_of_isDecimal hdigit
        have hsnoc : (decimalValue (done ++ [c]) : ℤ) =
            decimalValue done * 10 + ((c.toNat : ℤ) - (byteOf '0').toNat) := by
          have hzero : (byteOf '0').toNat = 0x30 := by decide
          rw [decimalValue_snoc, hzero]
          push_cast [Nat.cast_sub hlow]
          ring
        have hprefix := decimalValue_le_append (done ++ [c]) (rest.takeWhile isDecimal)
        rw [configDigits, if_neg (isDecimal_iff.mp hdigit), List.takeWhile_cons_of_pos hdigit,
          List.all_cons, hdigit, Bool.true_and]
        have hdone' : done ++ c :: rest.takeWhile isDecimal =
            done ++ [c] ++ rest.takeWhile isDecimal := List.append_cons _ _ _
        have hrest : done ++ c :: rest = done ++ [c] ++ rest := List.append_cons _ _ _
        rw [hdone', hrest]
        have hpositive : 0 ≤ ((c.toNat : ℤ) - (byteOf '0').toNat) := by
          have hzero : (byteOf '0').toNat = 0x30 := by decide
          rw [hzero]
          omega
        by_cases hfits : (decimalValue (done ++ [c]) : ℤ) ≤ longMaximum
        · have htens : longOf ((decimalValue done : ℤ) * 10) = some ((decimalValue done : ℤ) * 10) :=
            longOf_of_le (by omega) (by omega)
          have hsum : longOf (decimalValue (done ++ [c])) = some (decimalValue (done ++ [c]) : ℤ) :=
            longOf_of_le (by omega) hfits
          rw [htens, Option.bind_some, ← hsnoc, hsum, Option.bind_some]
          exact ih (done ++ [c]) hfits
        · -- the number of the digits so far is too large already
          rw [if_neg (by omega)]
          by_cases htens : (decimalValue done : ℤ) * 10 ≤ longMaximum
          · rw [longOf_of_le (by omega) htens, Option.bind_some, ← hsnoc,
              longOf_of_lt (not_le.mp hfits), Option.bind_none]
          · rw [longOf_of_lt (not_le.mp htens), Option.bind_none]
      · have hother : c < byteOf '0' ∨ byteOf '9' < c := by
          by_contra hnot
          exact hdigit (isDecimal_iff.mpr hnot)
        rw [configDigits, if_pos hother, List.takeWhile_cons_of_neg hdigit, List.append_nil,
          if_pos hdone, List.all_cons, Bool.eq_false_of_not_eq_true hdigit, Bool.false_and]
        rfl

theorem numberMeant_of_all {value : List UInt8} {fallback : ℤ} (hsome : afterSign value ≠ [])
    (hall : (afterSign value).all isDecimal = true)
    (hfits : (decimalValue (afterSign value) : ℤ) ≤ longMaximum) :
    numberMeant (some value) fallback =
      if value.head? = some (byteOf '-') then -(decimalValue (afterSign value) : ℤ)
      else decimalValue (afterSign value) := by
  have hnumeral : numeralOf value = some (if value.head? = some (byteOf '-') then
      -(decimalValue (afterSign value) : ℤ) else decimalValue (afterSign value)) :=
    if_pos ⟨hsome, hall⟩
  unfold numberMeant
  rw [Option.bind_some, hnumeral]
  refine if_pos ?_
  unfold longMaximum at *
  unfold longMinimum
  split_ifs <;> omega

theorem numberMeant_of_not_numeral {value : List UInt8} {fallback : ℤ}
    (h : ¬(afterSign value ≠ [] ∧ (afterSign value).all isDecimal = true)) :
    numberMeant (some value) fallback = fallback := by
  have hnumeral : numeralOf value = none := if_neg h
  unfold numberMeant
  rw [Option.bind_some, hnumeral]

theorem configNumber_eq (value : List UInt8) (fallback : ℤ) :
    configNumber value fallback =
      if (decimalValue (leadingDigits value) : ℤ) ≤ longMaximum then
        some (numberMeant (some value) fallback)
      else none := by
  unfold configNumber
  by_cases hempty : afterSign value = []
  · have hleading : leadingDigits value = [] := by rw [leadingDigits, hempty, List.takeWhile_nil]
    rw [if_pos hempty, hleading, if_pos (by decide),
      numberMeant_of_not_numeral fun h ↦ h.1 hempty]
  · have hloop := configDigits_eq fallback (value.head? = some (byteOf '-')) [] (afterSign value)
      (by decide)
    rw [List.nil_append, List.nil_append] at hloop
    rw [if_neg hempty]
    refine hloop.trans ?_
    change (if (decimalValue (leadingDigits value) : ℤ) ≤ longMaximum then _ else _) = _
    by_cases hfits : (decimalValue (leadingDigits value) : ℤ) ≤ longMaximum
    · rw [if_pos hfits, if_pos hfits]
      by_cases hall : (afterSign value).all isDecimal = true
      · have hleading : leadingDigits value = afterSign value :=
          List.takeWhile_eq_self_iff.mpr (List.all_eq_true.mp hall)
        rw [hleading] at hfits
        rw [if_pos hall, numberMeant_of_all hempty hall hfits]
        simp only [decide_eq_true_eq]
      · rw [if_neg hall, numberMeant_of_not_numeral fun h ↦ hall h.2]
    · rw [if_neg hfits, if_neg hfits]

/-- The number of a setting is the one that is meant exactly where a `long` holds what the digits at
the beginning of the value stand for. -/
theorem oxysConfigNumber_eq_iff (config : OxysConfig) (sectionName : List UInt8) (occurrence : ℕ)
    (key : List UInt8) (fallback : ℤ) :
    oxysConfigNumber config sectionName occurrence key fallback =
        some (numberMeant (oxysConfigValue config sectionName occurrence key) fallback) ↔
      ∀ value, oxysConfigValue config sectionName occurrence key = some value →
        (decimalValue (leadingDigits value) : ℤ) ≤ longMaximum := by
  unfold oxysConfigNumber
  cases hvalue : oxysConfigValue config sectionName occurrence key with
  | none => simp [numberMeant]
  | some value =>
      simp only [configNumber_eq, Option.some.injEq, forall_eq']
      split_ifs with hfits <;> simp [hfits]

/-- The least number above what a `long` holds is not read as the fallback. -/
theorem oxysConfigNumber_undefined : ¬∀ (holds : ℕ → Bool) (text sectionName key : List UInt8)
    (occurrence : ℕ) (fallback : ℤ),
    oxysConfigNumber (oxysConfigParse holds text).2 sectionName occurrence key fallback =
      some (numberMeant (oxysConfigValue (oxysConfigParse holds text).2 sectionName occurrence key)
        fallback) := by
  intro h
  have hread := h (fun _ ↦ true) ("[a]\nk = 9223372036854775808\n".toList.map byteOf)
    [byteOf 'a'] [byteOf 'k'] 0 7
  exact absurd hread (by decide +kernel)

end OxysOS.Libc
