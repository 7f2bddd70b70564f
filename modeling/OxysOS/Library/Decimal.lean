import Mathlib.Data.Rat.Defs
import Mathlib.Algebra.Field.Rat
import Mathlib.Data.List.Basic
import Mathlib.Tactic.Linarith
import Mathlib.Tactic.Ring

/-!
# Decimal texts

How the digits of a number are written, and what a text of a sign, digits, a point and further
digits reads as.
-/

namespace OxysOS.Library

def decimalByte (digit : ℕ) : UInt8 := 0x30 + UInt8.ofNat digit

def isDecimal (byte : UInt8) : Bool := 0x30 ≤ byte && byte ≤ 0x39

def decimalValue (digits : List UInt8) : ℕ :=
  digits.foldl (fun value byte ↦ value * 10 + (byte.toNat - 0x30)) 0

def readDecimal (text : List UInt8) : Option ℚ :=
  let negative : Bool := text.head? = some 0x2D
  let number := if negative then text.tail else text
  let whole := number.takeWhile (· != 0x2E)
  let places := (number.dropWhile (· != 0x2E)).tail
  let magnitude : ℚ := decimalValue whole + decimalValue places / 10 ^ places.length
  if whole ≠ [] ∧ (whole ++ places).all isDecimal then
    some (if negative then -magnitude else magnitude)
  else none

def decimalText (negative : Bool) (whole : List UInt8) (point : Bool) (places : List UInt8) :
    List UInt8 :=
  (if negative then [0x2D] else []) ++ whole ++ if point then 0x2E :: places else []

theorem isDecimal_byte : ∀ digit < 10, isDecimal (decimalByte digit) = true := by decide

theorem toNat_decimalByte : ∀ digit < 10, (decimalByte digit).toNat - 0x30 = digit := by decide

theorem decimalValue_concat (digits : List UInt8) {digit : ℕ} (h : digit < 10) :
    decimalValue (digits ++ [decimalByte digit]) = decimalValue digits * 10 + digit := by
  simp [decimalValue, toNat_decimalByte digit h]

theorem ne_of_isDecimal {byte : UInt8} (h : isDecimal byte = true) :
    byte ≠ 0x2D ∧ byte ≠ 0x2E := by
  constructor <;> rintro rfl <;> exact absurd h (by decide)

theorem readDecimal_text (negative : Bool) {whole : List UInt8} {point : Bool}
    {places : List UInt8} (hwhole : whole ≠ []) (hdigits : whole.all isDecimal = true)
    (hplaces : places.all isDecimal = true) (hpoint : point = false → places = []) :
    readDecimal (decimalText negative whole point places) =
      some (let magnitude : ℚ := decimalValue whole + decimalValue places / 10 ^ places.length
        if negative then -magnitude else magnitude) := by
  have hother : ∀ byte ∈ whole, (byte != 0x2E) = true := fun byte hmem ↦
    bne_iff_ne.mpr (ne_of_isDecimal (List.all_eq_true.mp hdigits byte hmem)).2
  have htake : (whole ++ if point then 0x2E :: places else []).takeWhile (· != 0x2E) = whole := by
    rw [List.takeWhile_append_of_pos hother]
    cases point <;> simp
  have hdrop : ((whole ++ if point then 0x2E :: places else []).dropWhile (· != 0x2E)).tail =
      places := by
    rw [List.dropWhile_append_of_pos hother]
    cases point with
    | false => simp [hpoint rfl]
    | true => simp
  have hall : (whole ++ places).all isDecimal = true := by simp [hdigits, hplaces]
  cases negative with
  | true =>
      unfold readDecimal decimalText
      simp [htake, hdrop, hwhole, hall]
  | false =>
      have hsign : (whole ++ if point then 0x2E :: places else []).head? ≠ some 0x2D := by
        obtain ⟨byte, rest, rfl⟩ := List.exists_cons_of_ne_nil hwhole
        have hbyte := (ne_of_isDecimal (List.all_eq_true.mp hdigits byte List.mem_cons_self)).1
        simpa using hbyte
      change readDecimal (whole ++ if point then 0x2E :: places else []) = _
      unfold readDecimal
      simp only [hsign, decide_false, Bool.false_eq_true, if_false, htake, hdrop]
      exact if_pos ⟨hwhole, hall⟩

def lowDigits : ℕ → ℕ → List UInt8
  | 0, _ => []
  | room + 1, rest =>
      decimalByte (rest % 10) :: if rest / 10 = 0 then [] else lowDigits room (rest / 10)

theorem lowDigits_ne_nil {room n : ℕ} (h : 0 < room) : lowDigits room n ≠ [] := by
  cases room with
  | zero => exact absurd h (Nat.lt_irrefl 0)
  | succ room => exact List.cons_ne_nil _ _

theorem lowDigits_all (room n : ℕ) : (lowDigits room n).all isDecimal = true := by
  induction room generalizing n with
  | zero => rfl
  | succ room ih =>
      have hdigit := isDecimal_byte (n % 10) (Nat.mod_lt n (by decide))
      unfold lowDigits
      split <;> simp [hdigit, ih]

theorem decimalValue_lowDigits {room n : ℕ} (h : n < 10 ^ room) :
    decimalValue (lowDigits room n).reverse = n := by
  induction room generalizing n with
  | zero =>
      rw [pow_zero] at h
      rw [lowDigits, Nat.lt_one_iff.mp h]
      rfl
  | succ room ih =>
      have hlt : n % 10 < 10 := Nat.mod_lt n (by decide)
      have hsplit := Nat.div_add_mod n 10
      have hrest : n / 10 < 10 ^ room := Nat.div_lt_of_lt_mul (by rwa [← pow_succ'])
      rw [lowDigits, List.reverse_cons, decimalValue_concat _ hlt]
      by_cases hlast : n / 10 = 0
      · rw [if_pos hlast]
        change 0 * 10 + n % 10 = n
        omega
      · rw [if_neg hlast, ih hrest]
        omega

theorem length_lowDigits {room count n : ℕ} (hcount : 0 < count) (h : n < 10 ^ count) :
    (lowDigits room n).length ≤ count := by
  induction room generalizing count n with
  | zero => exact Nat.zero_le _
  | succ room ih =>
      rw [lowDigits, List.length_cons]
      by_cases hlast : n / 10 = 0
      · rw [if_pos hlast]
        exact hcount
      · rw [if_neg hlast]
        cases count with
        | zero => exact absurd hcount (Nat.lt_irrefl 0)
        | succ count =>
            have hrest : n / 10 < 10 ^ count := Nat.div_lt_of_lt_mul (by rwa [← pow_succ'])
            have hpositive : 0 < count := by
              rcases Nat.eq_zero_or_pos count with rfl | hpositive
              · rw [pow_zero] at hrest
                omega
              · exact hpositive
            exact Nat.succ_le_succ (ih hpositive hrest)

def highDigits (count n : ℕ) : List UInt8 :=
  (List.range count).map fun i ↦ decimalByte (n / 10 ^ (count - 1 - i) % 10)

theorem highDigits_succ (count n : ℕ) :
    highDigits (count + 1) n = highDigits count (n / 10) ++ [decimalByte (n % 10)] := by
  unfold highDigits
  rw [List.range_succ, List.map_append]
  congr 1
  · refine List.map_congr_left fun i hi ↦ ?_
    have hlt := List.mem_range.mp hi
    have hexponent : count + 1 - 1 - i = count - 1 - i + 1 := by omega
    rw [hexponent, pow_succ', Nat.div_div_eq_div_mul]
  · simp

theorem highDigits_all (count n : ℕ) : (highDigits count n).all isDecimal = true := by
  simp only [highDigits, List.all_map, List.all_eq_true]
  exact fun i _ ↦ isDecimal_byte _ (Nat.mod_lt _ (by decide))

@[simp] theorem length_highDigits (count n : ℕ) : (highDigits count n).length = count := by
  simp [highDigits]

theorem decimalValue_highDigits (count n : ℕ) :
    decimalValue (highDigits count n) = n % 10 ^ count := by
  induction count generalizing n with
  | zero =>
      rw [pow_zero, Nat.mod_one]
      rfl
  | succ count ih =>
      rw [highDigits_succ, decimalValue_concat _ (Nat.mod_lt n (by decide)), ih, pow_succ',
        Nat.mod_mul]
      ring

end OxysOS.Library
