import Mathlib.Data.Nat.Notation
import Mathlib.Logic.Function.Basic

/-!
# Bitmaps of 64-bit words

A bit is named by its index over all the words.
-/

namespace OxysOS.Library

abbrev Bitmap := ℕ → BitVec 64

namespace Bitmap

variable {bitmap : Bitmap} {i j : ℕ}

def test (bitmap : Bitmap) (i : ℕ) : Bool :=
  (bitmap (i / 64) &&& BitVec.twoPow 64 (i % 64)) != 0#64

def set (bitmap : Bitmap) (i : ℕ) : Bitmap :=
  Function.update bitmap (i / 64) (bitmap (i / 64) ||| BitVec.twoPow 64 (i % 64))

def clear (bitmap : Bitmap) (i : ℕ) : Bitmap :=
  Function.update bitmap (i / 64) (bitmap (i / 64) &&& ~~~BitVec.twoPow 64 (i % 64))

theorem test_eq_getLsbD (bitmap : Bitmap) (i : ℕ) :
    test bitmap i = (bitmap (i / 64)).getLsbD (i % 64) := by
  have hlt : i % 64 < 64 := Nat.mod_lt _ (by decide)
  unfold test
  rw [BitVec.and_twoPow]
  cases (bitmap (i / 64)).getLsbD (i % 64) with
  | false => simp
  | true =>
      have hne : BitVec.twoPow 64 (i % 64) ≠ 0#64 := by
        intro h
        have hbit := congrArg (fun word ↦ word.getLsbD (i % 64)) h
        simp [hlt] at hbit
      simpa using hne

theorem index_ext (hword : i / 64 = j / 64) (hbit : i % 64 = j % 64) : i = j := by omega

theorem test_set (bitmap : Bitmap) (i j : ℕ) :
    test (set bitmap i) j = (test bitmap j || decide (i = j)) := by
  have hlt : i % 64 < 64 := Nat.mod_lt _ (by decide)
  rw [test_eq_getLsbD, test_eq_getLsbD]
  unfold set
  by_cases hword : j / 64 = i / 64
  · rw [hword, Function.update_self, BitVec.getLsbD_or, BitVec.getLsbD_twoPow]
    have hiff : i % 64 = j % 64 ↔ i = j :=
      ⟨fun h ↦ index_ext hword.symm h, fun h ↦ by rw [h]⟩
    simp [hlt, hiff]
  · have hne : i ≠ j := fun h ↦ hword (by rw [h])
    rw [Function.update_of_ne hword]
    simp [hne]

theorem test_clear (bitmap : Bitmap) (i j : ℕ) :
    test (clear bitmap i) j = (test bitmap j && decide (i ≠ j)) := by
  have hlt : i % 64 < 64 := Nat.mod_lt _ (by decide)
  have hlt' : j % 64 < 64 := Nat.mod_lt _ (by decide)
  rw [test_eq_getLsbD, test_eq_getLsbD]
  unfold clear
  by_cases hword : j / 64 = i / 64
  · rw [hword, Function.update_self, BitVec.getLsbD_and, BitVec.getLsbD_not,
      BitVec.getLsbD_twoPow]
    have hiff : i % 64 = j % 64 ↔ i = j :=
      ⟨fun h ↦ index_ext hword.symm h, fun h ↦ by rw [h]⟩
    simp [hlt, hlt', hiff]
  · have hne : i ≠ j := fun h ↦ hword (by rw [h])
    rw [Function.update_of_ne hword]
    simp [hne]

theorem test_of_full (h : bitmap (i / 64) = BitVec.allOnes 64) : test bitmap i = true := by
  have hlt : i % 64 < 64 := Nat.mod_lt _ (by decide)
  rw [test_eq_getLsbD, h, BitVec.getLsbD_allOnes]
  simp [hlt]

end Bitmap

end OxysOS.Library
