import Mathlib.Algebra.BigOperators.Group.Finset.Basic
import Mathlib.Algebra.Order.BigOperators.Group.Finset
import Mathlib.Tactic.Common
import Mathlib.Tactic.Linarith

/-!
# Counts in blocks

Blocks of given lengths stand one after another, and a count falls into one of them, some way beyond
its beginning.
-/

namespace OxysOS.Library

open Finset

def blockStart (lengths : ℕ → ℕ) (block : ℕ) : ℕ := ∑ each ∈ range block, lengths each

variable {lengths : ℕ → ℕ} {block other within beyond count : ℕ}

@[simp] theorem blockStart_zero (lengths : ℕ → ℕ) : blockStart lengths 0 = 0 := sum_range_zero _

theorem blockStart_succ (lengths : ℕ → ℕ) (block : ℕ) :
    blockStart lengths (block + 1) = blockStart lengths block + lengths block :=
  sum_range_succ _ _

theorem blockStart_mono (lengths : ℕ → ℕ) (h : block ≤ other) :
    blockStart lengths block ≤ blockStart lengths other :=
  sum_le_sum_of_subset (range_mono h)

theorem le_blockStart {shortest : ℕ} (h : ∀ each, shortest ≤ lengths each) (block : ℕ) :
    block * shortest ≤ blockStart lengths block := by
  induction block with
  | zero => simp
  | succ block ih =>
      rw [blockStart_succ, Nat.succ_mul]
      exact Nat.add_le_add ih (h block)

theorem blockStart_add_lt (h : within < lengths block) (hblock : block < other) (beyond : ℕ) :
    blockStart lengths block + within < blockStart lengths other + beyond := by
  have hmono := blockStart_mono lengths (Nat.succ_le_of_lt hblock)
  rw [Nat.succ_eq_add_one, blockStart_succ] at hmono
  omega

theorem exists_block (h : ∀ each, 0 < lengths each) (count : ℕ) :
    ∃ block within, within < lengths block ∧ blockStart lengths block + within = count := by
  induction count with
  | zero => exact ⟨0, 0, h 0, by simp⟩
  | succ count ih =>
      obtain ⟨block, within, hwithin, hcount⟩ := ih
      rcases Nat.lt_or_eq_of_le (Nat.succ_le_of_lt hwithin) with hlt | heq
      · exact ⟨block, within + 1, hlt, by omega⟩
      · refine ⟨block + 1, 0, h _, ?_⟩
        rw [blockStart_succ]
        omega

theorem taken_blocks {β : Type*} (lengths : ℕ → ℕ) (loop : ℕ → ℕ → β)
    (h : ∀ each < block, ∀ count, lengths each ≤ count →
      loop count each = loop (count - lengths each) (each + 1)) (within : ℕ) :
    loop (blockStart lengths block + within) 0 = loop within block := by
  induction block generalizing within with
  | zero => simp
  | succ block ih =>
      have hbefore := ih fun each heach ↦ h each (Nat.lt_succ_of_lt heach)
      rw [blockStart_succ, Nat.add_assoc, hbefore,
        h block (Nat.lt_succ_self block) _ (Nat.le_add_right _ _), Nat.add_sub_cancel_left]

end OxysOS.Library
