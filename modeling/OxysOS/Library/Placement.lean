import Mathlib.Data.Nat.Notation
import Mathlib.Order.Lattice
import Mathlib.Order.Nat
import Mathlib.Tactic.Common

/-!
# Placing a run clear of obstructions

A run of `n` numbers is to begin at a multiple of `unit`, at or above a given
place, and clear of two obstructions.  Passing over each in turn, and then over
each again, finds the least such place in whatever order the two stand.
-/

namespace OxysOS.Library

variable {unit n start finish start' finish' place candidate x : ℕ}

def Apart (start finish start' finish' : ℕ) : Prop :=
  ∀ x, start ≤ x → x < finish → start' ≤ x → x < finish' → False

theorem apart_iff (h : start < finish) (h' : start' < finish') :
    Apart start finish start' finish' ↔ finish ≤ start' ∨ finish' ≤ start := by
  constructor
  · intro hapart
    by_contra hmeet
    exact hapart (max start start') (le_max_left _ _) (by omega) (le_max_right _ _) (by omega)
  · rintro hside x hle hlt hle' hlt'
    omega

/-- The least multiple of `unit` that is not below a number. -/
def roundUp (unit value : ℕ) : ℕ := (value + (unit - 1)) / unit * unit

theorem le_roundUp (hunit : 0 < unit) (value : ℕ) : value ≤ roundUp unit value := by
  have hlt := Nat.lt_div_mul_add (a := value + (unit - 1)) hunit
  unfold roundUp
  omega

theorem dvd_roundUp (unit value : ℕ) : unit ∣ roundUp unit value := Nat.dvd_mul_left _ _

theorem roundUp_le (hunit : 0 < unit) (hplace : unit ∣ place) (h : x ≤ place) :
    roundUp unit x ≤ place := by
  obtain ⟨k, rfl⟩ := hplace
  have hdiv : (x + (unit - 1)) / unit ≤ k := by
    refine Nat.lt_succ_iff.mp ((Nat.div_lt_iff_lt_mul hunit).mpr ?_)
    rw [Nat.succ_mul, Nat.mul_comm k]
    omega
  rw [Nat.mul_comm]
  exact Nat.mul_le_mul_right unit hdiv

def skip (unit n start finish candidate : ℕ) : ℕ :=
  if candidate < finish ∧ start < candidate + n then roundUp unit finish else candidate

theorem le_skip (hunit : 0 < unit) : candidate ≤ skip unit n start finish candidate := by
  have hround := le_roundUp hunit finish
  unfold skip
  split_ifs <;> omega

theorem dvd_skip (h : unit ∣ candidate) : unit ∣ skip unit n start finish candidate := by
  unfold skip
  split_ifs
  · exact dvd_roundUp unit finish
  · exact h

theorem apart_skip (hunit : 0 < unit) :
    Apart (skip unit n start finish candidate) (skip unit n start finish candidate + n)
      start finish := by
  have hround := le_roundUp hunit finish
  unfold skip
  intro x hle hlt hle' hlt'
  split_ifs at hle hlt <;> omega

theorem skip_le (hunit : 0 < unit) (hn : 0 < n) (hextent : start < finish) (hplace : unit ∣ place)
    (hle : candidate ≤ place) (hapart : Apart place (place + n) start finish) :
    skip unit n start finish candidate ≤ place := by
  rw [apart_iff (by omega) hextent] at hapart
  unfold skip
  split_ifs
  · exact roundUp_le hunit hplace (by omega)
  · exact hle

def passOver (unit n start finish start' finish' candidate : ℕ) : ℕ :=
  skip unit n start' finish' (skip unit n start finish candidate)

theorem le_passOver (hunit : 0 < unit) :
    candidate ≤ passOver unit n start finish start' finish' candidate :=
  (le_skip hunit).trans (le_skip hunit)

theorem dvd_passOver (h : unit ∣ candidate) :
    unit ∣ passOver unit n start finish start' finish' candidate :=
  dvd_skip (dvd_skip h)

theorem passOver_le (hunit : 0 < unit) (hn : 0 < n) (hextent : start < finish)
    (hextent' : start' < finish') (hplace : unit ∣ place) (hle : candidate ≤ place)
    (hapart : Apart place (place + n) start finish)
    (hapart' : Apart place (place + n) start' finish') :
    passOver unit n start finish start' finish' candidate ≤ place :=
  skip_le hunit hn hextent' hplace (skip_le hunit hn hextent hplace hle hapart) hapart'

theorem apart_passOver (hunit : 0 < unit) (hn : 0 < n) (hextent' : start' < finish')
    (hapart' : Apart candidate (candidate + n) start' finish') :
    Apart (passOver unit n start finish start' finish' candidate)
      (passOver unit n start finish start' finish' candidate + n) start finish := by
  by_cases hmoved : candidate < finish ∧ start < candidate + n
  · -- the first obstruction is behind, and stays behind
    have hle : roundUp unit finish ≤ passOver unit n start finish start' finish' candidate := by
      have hskip : skip unit n start finish candidate = roundUp unit finish := if_pos hmoved
      unfold passOver
      rw [hskip]
      exact le_skip hunit
    have hround := le_roundUp hunit finish
    intro x hx _ _ hlt
    omega
  · -- neither obstruction is met, and nothing moves
    rw [apart_iff (by omega) hextent'] at hapart'
    have hskip : skip unit n start finish candidate = candidate := if_neg hmoved
    have hpass : passOver unit n start finish start' finish' candidate = candidate := by
      unfold passOver
      rw [hskip]
      exact if_neg (by omega)
    rw [hpass]
    intro x hx hlt hx' hlt'
    omega

section Covers

variable {α : Type*} {start finish : α → ℕ} {ranges ranges' : List α} {r : α}

/-- How many of the ranges a number is in. -/
def covers (start finish : α → ℕ) (ranges : List α) (x : ℕ) : ℕ :=
  ranges.countP fun r ↦ start r ≤ x ∧ x < finish r

theorem covers_nil (x : ℕ) : covers start finish [] x = 0 := rfl

theorem covers_append (x : ℕ) : covers start finish (ranges ++ ranges') x =
    covers start finish ranges x + covers start finish ranges' x := List.countP_append

theorem covers_cons (x : ℕ) : covers start finish (r :: ranges) x =
    covers start finish ranges x + if start r ≤ x ∧ x < finish r then 1 else 0 := by
  simp [covers, List.countP_cons]

theorem covers_pos {x : ℕ} (hr : r ∈ ranges) (hle : start r ≤ x) (hlt : x < finish r) :
    0 < covers start finish ranges x :=
  List.countP_pos_iff.mpr ⟨r, hr, by simp [hle, hlt]⟩

theorem apart_of_covers {r' : α} (h : ∀ x, covers start finish (r :: ranges) x ≤ 1)
    (hr' : r' ∈ ranges) : Apart (start r) (finish r) (start r') (finish r') := by
  intro x hle hlt hle' hlt'
  have hone := h x
  have hpos := covers_pos hr' hle' hlt'
  rw [covers_cons, if_pos ⟨hle, hlt⟩] at hone
  omega

end Covers

end OxysOS.Library
