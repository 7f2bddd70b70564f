import Mathlib.Algebra.Order.Round
import Mathlib.Data.Rat.Floor
import Mathlib.Tactic.FieldSimp
import Mathlib.Tactic.Linarith
import Mathlib.Tactic.Ring

/-!
# Numbers of fixed places

Rounding to the nearest integer, half away from zero, and what a product and a quotient of
numbers of fixed places come to when they are assembled from their parts.
-/

namespace OxysOS.Library

def roundAway (q : ℚ) : ℤ := if q < 0 then -round (-q) else round q

theorem roundAway_neg (q : ℚ) : roundAway (-q) = -roundAway q := by
  unfold roundAway
  rcases lt_trichotomy q 0 with h | rfl | h
  · rw [if_neg (by linarith), if_pos h, neg_neg]
  · simp
  · rw [if_pos (by linarith), if_neg (by linarith), neg_neg]

def roundedQuotient (n d : ℕ) : ℕ := (2 * n + d) / (2 * d)

theorem roundAway_div {n d : ℕ} (hd : 0 < d) :
    roundAway ((n : ℚ) / d) = (roundedQuotient n d : ℕ) := by
  have hpositive : (0 : ℚ) < d := by exact_mod_cast hd
  have hhalf : (n : ℚ) / d + 1 / 2 = ((2 * n + d : ℕ) : ℚ) / ((2 * d : ℕ) : ℚ) := by
    push_cast
    field_simp
  unfold roundAway roundedQuotient
  rw [if_neg (not_lt.mpr (by positivity)), round_eq, hhalf, Rat.floor_natCast_div_natCast]
  exact (Int.natCast_div _ _).symm

theorem roundedQuotient_mul (a b : ℕ) {scale : ℕ} (hscale : 0 < scale) (heven : 2 ∣ scale) :
    a / scale * (b / scale) * scale + a / scale * (b % scale) + a % scale * (b / scale) +
      (a % scale * (b % scale) + scale / 2) / scale = roundedQuotient (a * b) scale := by
  obtain ⟨half, rfl⟩ := heven
  have hhalf : 0 < half := by omega
  have ha := Nat.div_add_mod a (2 * half)
  have hb := Nat.div_add_mod b (2 * half)
  set ah := a / (2 * half)
  set al := a % (2 * half)
  set bh := b / (2 * half)
  set bl := b % (2 * half)
  have hproduct : 2 * (a * b) + 2 * half =
      2 * (al * bl + half) + 2 * (2 * half) * (ah * bh * (2 * half) + ah * bl + al * bh) := by
    rw [← ha, ← hb]
    ring
  unfold roundedQuotient
  rw [hproduct, Nat.add_mul_div_left _ _ (by omega), Nat.mul_div_mul_left _ _ (by omega : 0 < 2),
    Nat.mul_div_cancel_left half (by omega : 0 < 2), Nat.add_comm]

def furtherDigits (divisor : ℕ) : ℕ → ℕ × ℕ → ℕ × ℕ
  | 0, state => state
  | places + 1, (fraction, remainder) =>
      furtherDigits divisor places
        (fraction * 10 + remainder * 10 / divisor, remainder * 10 % divisor)

theorem furtherDigits_eq {divisor remainder : ℕ} (h : remainder < divisor)
    (places fraction : ℕ) : furtherDigits divisor places (fraction, remainder) =
      (fraction * 10 ^ places + remainder * 10 ^ places / divisor,
        remainder * 10 ^ places % divisor) := by
  induction places generalizing fraction remainder with
  | zero => simp [furtherDigits, Nat.div_eq_of_lt h, Nat.mod_eq_of_lt h]
  | succ places ih =>
      have hdivisor : 0 < divisor := Nat.zero_lt_of_lt h
      have hsplit : remainder * 10 ^ (places + 1) =
          remainder * 10 % divisor * 10 ^ places +
            divisor * (remainder * 10 / divisor * 10 ^ places) := by
        calc remainder * 10 ^ (places + 1) = remainder * 10 * 10 ^ places := by ring
          _ = (remainder * 10 % divisor + divisor * (remainder * 10 / divisor)) * 10 ^ places := by
            rw [Nat.mod_add_div]
          _ = _ := by ring
      rw [furtherDigits, ih (Nat.mod_lt _ hdivisor), hsplit, Nat.add_mul_div_left _ _ hdivisor,
        Nat.add_mul_mod_self_left]
      congr 1
      ring

theorem furtherDigits_lt {divisor remainder : ℕ} (places : ℕ) (h : remainder < divisor) :
    (furtherDigits divisor places (0, remainder)).1 < 10 ^ places ∧
      (furtherDigits divisor places (0, remainder)).2 < divisor := by
  rw [furtherDigits_eq h]
  have hpositive : 0 < 10 ^ places := Nat.pow_pos (by decide)
  refine ⟨?_, Nat.mod_lt _ (Nat.zero_lt_of_lt h)⟩
  rw [Nat.zero_mul, Nat.zero_add]
  exact Nat.div_lt_of_lt_mul (Nat.mul_lt_mul_of_pos_right h hpositive)

theorem roundedQuotient_eq (n : ℕ) {d : ℕ} (hd : 0 < d) :
    roundedQuotient n d = n / d + if 5 ≤ n % d * 10 / d then 1 else 0 := by
  have hlt := Nat.mod_lt n hd
  have hsplit : 2 * n + d = 2 * (n % d) + d + 2 * d * (n / d) := by
    have := Nat.div_add_mod n d
    linarith
  have hdigit : 5 ≤ n % d * 10 / d ↔ d ≤ 2 * (n % d) := by
    rw [Nat.le_div_iff_mul_le hd]
    omega
  unfold roundedQuotient
  rw [hsplit, Nat.add_mul_div_left _ _ (by omega), Nat.add_comm]
  congr 1
  by_cases hup : d ≤ 2 * (n % d)
  · rw [if_pos (hdigit.mpr hup)]
    exact Nat.div_eq_of_lt_le (by omega) (by omega)
  · rw [if_neg fun h ↦ hup (hdigit.mp h)]
    exact Nat.div_eq_of_lt (by omega)

theorem roundedQuotient_digits (a places : ℕ) {b : ℕ} (hb : 0 < b) :
    a / b * 10 ^ places +
        ((furtherDigits b places (0, a % b)).1 +
          if 5 ≤ (furtherDigits b places (0, a % b)).2 * 10 / b then 1 else 0) =
      roundedQuotient (a * 10 ^ places) b := by
  have hsplit : a * 10 ^ places = a % b * 10 ^ places + b * (a / b * 10 ^ places) := by
    calc a * 10 ^ places = (a % b + b * (a / b)) * 10 ^ places := by rw [Nat.mod_add_div]
      _ = _ := by ring
  rw [roundedQuotient_eq _ hb, furtherDigits_eq (Nat.mod_lt a hb), hsplit,
    Nat.add_mul_div_left _ _ hb, Nat.add_mul_mod_self_left]
  ring

end OxysOS.Library
