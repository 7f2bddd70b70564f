import OxysOS.Libc.FormatReference
import Mathlib.Tactic.Common

/-!
# What a part of the engine writes

The engine leaves out the digits of a number that come after its value has passed 3276, and takes
32767 for the one width of which the magnitude is no `int`.

To a destination that accepts everything, each part of the engine takes some of the
arguments and writes some bytes, and is undefined where the count of the characters
would pass what an `int` holds.  `Writes` says this of a part.
-/

namespace OxysOS.Libc

open OxysOS.Library

def clippedNumber (n : ℕ) : ℕ := if n ≤ 32769 then n else clippedNumber (n / 10)
  decreasing_by omega

def FormatField.clipped : FormatField → FormatField
  | number value => number (clippedNumber value)
  | asterisk => asterisk

def FormatSpecification.clipped (specification : FormatSpecification) : FormatSpecification :=
  { specification with
    width := specification.width.clipped
    precision := specification.precision.map FormatField.clipped }

def widthTaken (magnitude : ℕ) : ℕ := if magnitude = 2147483648 then 32767 else magnitude

def FormatSpecification.taken (specification : FormatSpecification)
    (arguments : List FormatArgument) : Option (FormatShape × List FormatArgument) :=
  (specification.clipped.shape arguments).map fun shaped ↦
    ({ shaped.1 with width := widthTaken shaped.1.width }, shaped.2)

/-- What directives produce, up to the first conversion that is not named, in the shapes that the
engine gives them.  There is something where each argument is of the type that is asked for. -/
def produces : List FormatDirective → List FormatArgument → Option (List UInt8)
  | [], _ => some []
  | .literal byte :: rest, arguments => (produces rest arguments).map (byte :: ·)
  | .conversion specification :: rest, arguments =>
      (specification.taken arguments).bind fun shaped ↦
        if ¬specification.Named then some []
        else
          (specification.convert shaped.1 shaped.2).bind fun converted ↦
            (produces rest converted.2).map (converted.1 ++ ·)

theorem clippedNumber_eq {n : ℕ} (h : n ≤ 32769) : clippedNumber n = n := by
  rw [clippedNumber, if_pos h]

theorem clippedNumber_div {n : ℕ} (h : 32769 < n) : clippedNumber n = clippedNumber (n / 10) := by
  rw [clippedNumber, if_neg (not_le.mpr h)]

theorem clippedNumber_le (n : ℕ) : clippedNumber n ≤ 32769 := by
  induction n using Nat.strong_induction_on with
  | _ n ih =>
      by_cases h : n ≤ 32769
      · rwa [clippedNumber_eq h]
      · rw [clippedNumber_div (not_le.mp h)]
        exact ih (n / 10) (by omega)

theorem widthTaken_le {magnitude : ℕ} (h : magnitude ≤ 2147483648) :
    widthTaken magnitude ≤ intMaximum := by
  unfold widthTaken intMaximum
  split_ifs <;> omega

theorem widthTaken_eq {magnitude : ℕ} (h : magnitude ≤ 32769) : widthTaken magnitude = magnitude :=
  if_neg (by omega)

variable {arguments left : List FormatArgument} {value : ℤ}

theorem FormatField.exists_clipped_value {field : FormatField}
    (h : field.value arguments = some (value, left)) :
    ∃ clipped, field.clipped.value arguments = some (clipped, left) ∧
      (value.natAbs ≤ 32767 → clipped = value) := by
  cases field with
  | number n =>
      obtain ⟨rfl, rfl⟩ := Prod.mk.inj (Option.some.inj h)
      exact ⟨_, rfl, fun hle ↦ by rw [clippedNumber_eq (by omega)]⟩
  | asterisk => exact ⟨value, h, fun _ ↦ rfl⟩

theorem exists_clipped_precision {precision : Option FormatField}
    (h : precisionValue arguments precision = some (value, left)) :
    ∃ clipped, precisionValue arguments (precision.map FormatField.clipped) = some (clipped, left) ∧
      (value.natAbs ≤ 32767 → clipped = value) ∧ (clipped < 0 ↔ value < 0) := by
  cases precision with
  | none => exact ⟨value, h, fun _ ↦ rfl, Iff.rfl⟩
  | some field =>
      obtain ⟨clipped, hclipped, heq⟩ := FormatField.exists_clipped_value h
      refine ⟨clipped, hclipped, heq, ?_⟩
      cases field with
      | number n =>
          obtain ⟨rfl, -⟩ := Prod.mk.inj (Option.some.inj h)
          obtain ⟨rfl, -⟩ := Prod.mk.inj (Option.some.inj hclipped)
          omega
      | asterisk =>
          obtain ⟨rfl, -⟩ := Prod.mk.inj (Option.some.inj (h.symm.trans hclipped))
          rfl

theorem FormatSpecification.exists_taken {specification : FormatSpecification}
    {shaped : FormatShape × List FormatArgument} (h : specification.shape arguments = some shaped) :
    ∃ taken, specification.taken arguments = some taken ∧
      (shaped.1.Within 32767 → taken = shaped) := by
  obtain ⟨⟨width, middle⟩, hwidth, h⟩ := Option.bind_eq_some_iff.mp h
  obtain ⟨⟨precision, rest⟩, hprecision, h⟩ := Option.bind_eq_some_iff.mp h
  cases h
  obtain ⟨width', hwidth', hwidths⟩ := FormatField.exists_clipped_value hwidth
  obtain ⟨precision', hprecision', hprecisions, hsign⟩ := exists_clipped_precision hprecision
  have hshape : specification.clipped.shape arguments = some ({
      flags := if width' < 0 then byteOf '-' :: specification.flags else specification.flags
      width := width'.natAbs
      precision := if precision' < 0 then none else some precision'.toNat }, rest) :=
    Option.bind_eq_some_iff.mpr ⟨_, hwidth', Option.bind_eq_some_iff.mpr ⟨_, hprecision', rfl⟩⟩
  refine ⟨_, by rw [taken, hshape]; rfl, fun hwithin ↦ ?_⟩
  obtain rfl := hwidths hwithin.width
  have hmagnitude : widthTaken width'.natAbs = width'.natAbs :=
    widthTaken_eq (hwithin.width.trans (by decide))
  have hsame : (if precision' < 0 then none else some precision'.toNat) =
      if precision < 0 then none else some precision.toNat := by
    by_cases hneg : precision < 0
    · rw [if_pos hneg, if_pos (hsign.mpr hneg)]
    · have hle := hwithin.precision
      simp only [if_neg hneg, Option.getD_some] at hle
      rw [hprecisions (by omega)]
  rw [hsame]
  dsimp only
  rw [hmagnitude]

theorem produces_of_rendering {given : List FormatDirective} {bytes : List UInt8}
    (h : rendering given arguments = some bytes) : produces given arguments = some bytes := by
  induction given generalizing arguments bytes with
  | nil => exact h
  | cons directive given ih =>
      cases directive with
      | literal byte =>
          obtain ⟨more, hmore, rfl⟩ := Option.map_eq_some_iff.mp h
          rw [produces, ih hmore]
          rfl
      | conversion specification =>
          rw [rendering] at h
          obtain ⟨shaped, hshape, h⟩ := Option.bind_eq_some_iff.mp h
          obtain ⟨taken, htaken, hsame⟩ := FormatSpecification.exists_taken hshape
          rw [produces, htaken, Option.bind_some]
          by_cases hnamed : specification.Named
          · rw [if_neg (not_not.mpr hnamed)] at h ⊢
            by_cases hwithin : shaped.1.Within 32767
            · rw [if_pos hwithin] at h
              obtain ⟨converted, hconvert, h⟩ := Option.bind_eq_some_iff.mp h
              obtain ⟨more, hmore, rfl⟩ := Option.map_eq_some_iff.mp h
              rw [hsame hwithin, hconvert, Option.bind_some, ih hmore]
              rfl
            · rw [if_neg hwithin] at h
              cases h
          · rwa [if_pos hnamed] at h ⊢

end OxysOS.Libc

namespace OxysOS.Libc

open OxysOS.Library Action

variable {σ α β : Type} {emit : σ → UInt8 → Bool × σ} {s : Formatting σ}
  {left arguments : List FormatArgument} {bytes more : List UInt8} {byte : UInt8}

def Formatting.after (emit : σ → UInt8 → Bool × σ) (s : Formatting σ)
    (left : List FormatArgument) (bytes : List UInt8) : Formatting σ where
  context := bytes.foldl (fun context byte ↦ (emit context byte).2) s.context
  arguments := left
  produced := s.produced + bytes.length

@[simp] theorem Formatting.after_produced :
    (s.after emit left bytes).produced = s.produced + bytes.length := rfl

@[simp] theorem Formatting.after_nil : s.after emit s.arguments [] = s := rfl

@[simp] theorem Formatting.after_after :
    (s.after emit left bytes).after emit arguments more = s.after emit arguments (bytes ++ more) := by
  unfold after
  simp only [List.foldl_append, List.length_append, Nat.add_assoc]

/-- A part of the engine answers `a` and writes `bytes`, leaving some arguments. -/
structure Writes (emit : σ → UInt8 → Bool × σ) (action : Format σ α) (s : Formatting σ)
    (left : List FormatArgument) (bytes : List UInt8) (a : α) : Prop where
  fits : s.produced + bytes.length ≤ intMaximum →
    outcome action s = (.ok a, s.after emit left bytes)
  overflows : s.produced ≤ intMaximum → intMaximum < s.produced + bytes.length →
    (outcome action s).1 = .error .undefined

namespace Writes

variable {action : Format σ α} {next : α → Format σ β} {a : α} {b : β}

theorem pure : Writes emit (pure a) s s.arguments [] a :=
  ⟨fun _ ↦ rfl, fun hle hlt ↦ absurd hlt (not_lt.mpr hle)⟩

theorem bind_overflows (h : Writes emit action s left bytes a) (hle : s.produced ≤ intMaximum)
    (hlt : intMaximum < s.produced + bytes.length) :
    (outcome (action >>= next) s).1 = .error .undefined := by
  have hundefined := h.overflows hle hlt
  rw [outcome_bind]
  cases heq : outcome action s with
  | mk answer s' =>
      rw [heq] at hundefined
      cases hundefined
      rfl

theorem bind (h : Writes emit action s left bytes a)
    (hnext : Writes emit (next a) (s.after emit left bytes) arguments more b) :
    Writes emit (action >>= next) s arguments (bytes ++ more) b := by
  refine ⟨fun hle ↦ ?_, fun hle hlt ↦ ?_⟩
  · rw [List.length_append] at hle
    rw [outcome_bind, h.fits (by omega), ← Formatting.after_after]
    refine hnext.fits ?_
    rw [Formatting.after_produced]
    omega
  · rw [List.length_append] at hlt
    by_cases hfits : s.produced + bytes.length ≤ intMaximum
    · rw [outcome_bind, h.fits hfits]
      refine hnext.overflows hfits ?_
      rw [Formatting.after_produced]
      omega
    · exact h.bind_overflows hle (not_le.mp hfits)

theorem bind_error (h : Writes emit action s left bytes a) (hle : s.produced ≤ intMaximum)
    (hnext : s.produced + bytes.length ≤ intMaximum →
      (outcome (next a) (s.after emit left bytes)).1 = .error
        (if s.produced + bytes.length + more.length ≤ intMaximum then .failed else .undefined)) :
    (outcome (action >>= next) s).1 = .error
      (if s.produced + (bytes ++ more).length ≤ intMaximum then .failed else .undefined) := by
  rw [List.length_append, ← Nat.add_assoc]
  by_cases hfits : s.produced + bytes.length ≤ intMaximum
  · rw [outcome_bind, h.fits hfits]
    exact hnext hfits
  · rw [if_neg (by omega)]
    exact h.bind_overflows hle (not_le.mp hfits)

theorem take (h : Writes emit action s left [] a)
    (hnext : Writes emit (next a) (s.after emit left []) arguments more b) :
    Writes emit (action >>= next) s arguments more b := h.bind hnext

end Writes

section Characters

variable (haccepts : ∀ context byte, (emit context byte).1 = true)
include haccepts

theorem writes_formatPut : Writes emit (formatPut emit byte) s s.arguments [byte] () := by
  have houtcome : outcome (formatPut emit byte) s =
      if s.produced = intMaximum then
        (.error .undefined, { s with context := (emit s.context byte).2 })
      else (.ok (), s.after emit s.arguments [byte]) := by
    unfold formatPut
    rw [outcome_bind, outcome_get]
    dsimp only
    rw [outcome_bind, outcome_set]
    dsimp only
    rw [if_neg (not_not.mpr (haccepts _ _))]
    by_cases hfull : s.produced = intMaximum
    · rw [if_pos hfull, if_pos hfull]
      rfl
    · rw [if_neg hfull, if_neg hfull]
      rfl
  refine ⟨fun hle ↦ ?_, fun hle hlt ↦ ?_⟩
  · rw [List.length_singleton] at hle
    rw [houtcome, if_neg (by omega)]
  · rw [List.length_singleton] at hlt
    rw [houtcome, if_pos (by omega)]

theorem writes_formatPuts : Writes emit (formatPuts emit bytes) s s.arguments bytes () := by
  induction bytes generalizing s with
  | nil => exact Writes.pure
  | cons byte bytes ih => exact (writes_formatPut haccepts).bind ih

theorem writes_formatPad (count : ℕ) :
    Writes emit (formatPad emit byte count) s s.arguments (List.replicate count byte) () := by
  induction count generalizing s with
  | zero => exact Writes.pure
  | succ count ih => exact (writes_formatPut haccepts).bind ih

theorem writes_formatField {result : Format σ Unit} {flag : Bool} {spaces : ℤ}
    (h : ∀ s : Formatting σ, Writes emit result s s.arguments bytes ()) :
    Writes emit (formatField emit flag spaces result) s s.arguments
      (if flag then bytes ++ List.replicate spaces.toNat (byteOf ' ')
        else List.replicate spaces.toNat (byteOf ' ') ++ bytes) () := by
  unfold formatField
  cases flag with
  | true =>
      rw [if_neg (not_not.mpr rfl), if_pos rfl]
      exact (h s).bind (writes_formatPad haccepts _)
  | false =>
      rw [if_pos Bool.false_ne_true, if_neg Bool.false_ne_true, ← List.append_nil bytes]
      exact (writes_formatPad haccepts _).bind ((h _).bind Writes.pure)

end Characters

theorem writes_vaWord {value : BitVec 64} (h : takeWord s.arguments = some (value, left)) :
    Writes emit vaWord s left [] value := by
  obtain ⟨context, given, produced⟩ := s
  rcases given with _ | ⟨_ | _, rest⟩
  · cases h
  · cases h
    exact ⟨fun _ ↦ rfl, fun hle hlt ↦ absurd hlt (not_lt.mpr hle)⟩
  · cases h

theorem writes_vaString {string : Option (List UInt8)}
    (h : takeString s.arguments = some (string, left)) :
    Writes emit vaString s left [] string := by
  obtain ⟨context, given, produced⟩ := s
  rcases given with _ | ⟨_ | _, rest⟩
  · cases h
  · cases h
  · cases h
    exact ⟨fun _ ↦ rfl, fun hle hlt ↦ absurd hlt (not_lt.mpr hle)⟩

theorem writes_vaInt {value : BitVec 64} (h : takeWord s.arguments = some (value, left)) :
    Writes emit vaInt s left [] (value.setWidth 32).toInt :=
  (writes_vaWord h).take Writes.pure

theorem writes_formatSigned {value : BitVec 64} (length : FormatLength)
    (h : takeWord s.arguments = some (value, left)) :
    Writes emit (formatSigned length) s left [] (value.setWidth length.bits).toInt := by
  refine (writes_vaWord h).take ?_
  cases length <;> exact Writes.pure

theorem writes_formatUnsigned {value : BitVec 64} (length : FormatLength)
    (h : takeWord s.arguments = some (value, left)) :
    Writes emit (formatUnsigned length) s left [] (value.setWidth length.bits).toNat := by
  refine (writes_vaWord h).take ?_
  cases length <;> exact Writes.pure

end OxysOS.Libc
