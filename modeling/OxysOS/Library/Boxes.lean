import OxysOS.Library.FixedPoint
import Mathlib.Algebra.BigOperators.Group.List.Basic
import Mathlib.Tactic.Common

/-!
# Extents that are divided into boxes

An extent is divided among so many places, and the box of a place is its share, or one of the
extent where it has none.  The boxes cover the extent in order, and no box goes back before the
last of the one before it.  The mean of what lies in a box is rounded to the nearest.
-/

namespace OxysOS.Library

variable {extent places place : ℕ}

def boxStart (extent places place : ℕ) : ℕ := place * extent / places

def boxEnd (extent places place : ℕ) : ℕ :=
  max (boxStart extent places place + 1) (boxStart extent places (place + 1))

theorem boxStart_le_succ : boxStart extent places place ≤ boxStart extent places (place + 1) :=
  Nat.div_le_div_right (Nat.mul_le_mul_right _ (Nat.le_succ place))

theorem boxStart_lt (hextent : 0 < extent) (hplace : place < places) :
    boxStart extent places place < extent := by
  rw [boxStart, Nat.div_lt_iff_lt_mul (by omega), Nat.mul_comm extent]
  exact Nat.mul_lt_mul_of_pos_right hplace hextent

theorem boxStart_le (hplace : place ≤ places) : boxStart extent places place ≤ extent := by
  apply Nat.div_le_of_le_mul
  exact Nat.mul_le_mul_right _ hplace

theorem boxStart_lt_boxEnd : boxStart extent places place < boxEnd extent places place :=
  Nat.lt_of_lt_of_le (Nat.lt_succ_self _) (Nat.le_max_left _ _)

theorem boxEnd_le (hextent : 0 < extent) (hplace : place < places) :
    boxEnd extent places place ≤ extent :=
  Nat.max_le.mpr ⟨boxStart_lt hextent hplace, boxStart_le hplace⟩

theorem boxEnd_le_succ_start :
    boxEnd extent places place ≤ boxStart extent places (place + 1) + 1 :=
  Nat.max_le.mpr ⟨Nat.succ_le_succ boxStart_le_succ, Nat.le_succ _⟩

theorem add_half_div (dividend divisor : ℕ) :
    (dividend + divisor / 2) / divisor = roundedQuotient dividend divisor := by
  have hhalf : (2 * dividend + divisor) / 2 = dividend + divisor / 2 := by omega
  rw [roundedQuotient, ← Nat.div_div_eq_div_mul, hhalf]

theorem roundedQuotient_le {dividend divisor bound : ℕ} (hdivisor : 0 < divisor)
    (h : dividend ≤ bound * divisor) : roundedQuotient dividend divisor ≤ bound := by
  rw [← add_half_div, ← Nat.lt_succ_iff, Nat.div_lt_iff_lt_mul hdivisor,
    Nat.succ_mul]
  omega

theorem sum_map_le_mul {α : Type*} {values : List α} {f : α → ℕ} {bound : ℕ}
    (h : ∀ value ∈ values, f value ≤ bound) : (values.map f).sum ≤ bound * values.length := by
  induction values with
  | nil => simp
  | cons value values ih =>
      have hfirst := h value List.mem_cons_self
      have hrest := ih fun later hlater ↦ h later (List.mem_cons_of_mem _ hlater)
      rw [List.map_cons, List.sum_cons, List.length_cons, Nat.mul_succ]
      omega

end OxysOS.Library
