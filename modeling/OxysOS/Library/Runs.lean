import Mathlib.Algebra.BigOperators.Group.List.Basic
import Mathlib.Data.List.Chain
import Mathlib.Tactic.Common
import Mathlib.Algebra.GroupWithZero.Nat

/-!
# Runs of one value

A list of values is held as its runs, each a value and how often it stands.  Signals, on or off,
alternate from an on where each run of them is of length one.
-/

namespace OxysOS.Library

structure Run (α : Type*) where
  count : ℕ
  value : α
  deriving DecidableEq

variable {α β : Type*} {run : Run α} {runs : List (Run α)}

def expand (runs : List (Run α)) : List α :=
  runs.flatMap fun run ↦ List.replicate run.count run.value

def total (runs : List (Run α)) : ℕ := (runs.map Run.count).sum

@[simp] theorem expand_nil : expand ([] : List (Run α)) = [] := rfl

@[simp] theorem expand_cons :
    expand (run :: runs) = List.replicate run.count run.value ++ expand runs := by
  rw [expand, List.flatMap_cons]
  rfl

@[simp] theorem total_nil : total ([] : List (Run α)) = 0 := rfl

@[simp] theorem total_cons : total (run :: runs) = run.count + total runs := by
  rw [total, List.map_cons, List.sum_cons]
  rfl

variable {record : α → List β} {size : ℕ} {items : List α}

theorem length_flatMap_of_size (h : ∀ item, (record item).length = size) :
    (items.flatMap record).length = items.length * size := by
  induction items with
  | nil => rw [List.flatMap_nil, List.length_nil, List.length_nil, Nat.zero_mul]
  | cons item items ih =>
      rw [List.flatMap_cons, List.length_append, h, ih, List.length_cons, Nat.succ_mul,
        Nat.add_comm]

theorem drop_flatMap_of_size (h : ∀ item, (record item).length = size) (number : ℕ) :
    (items.flatMap record).drop (number * size) = (items.drop number).flatMap record := by
  induction number generalizing items with
  | zero => rw [Nat.zero_mul, List.drop_zero, List.drop_zero]
  | succ number ih =>
      cases items with
      | nil => rw [List.flatMap_nil, List.drop_nil, List.drop_nil, List.flatMap_nil]
      | cons item items =>
          have hsize : (number + 1) * size = (record item).length + number * size := by
            rw [h, Nat.succ_mul, Nat.add_comm]
          rw [List.flatMap_cons, hsize, List.drop_length_add_append, ih, List.drop_succ_cons]

variable {signals : List Bool} {signal : Bool}

def stands (signals : List Bool) : Bool := signals.getLastD false

/-- Each signal differs from the one before it, and the first from an off. -/
def Alternates (signals : List Bool) : Prop := (false :: signals).IsChain (· ≠ ·)

@[simp] theorem stands_nil : stands [] = false := rfl

@[simp] theorem stands_concat : stands (signals ++ [signal]) = signal := List.getLastD_concat

theorem alternates_nil : Alternates [] := List.isChain_singleton false

theorem alternates_concat :
    Alternates (signals ++ [signal]) ↔ Alternates signals ∧ stands signals ≠ signal := by
  have hlast : (false :: signals).getLast? = some (stands signals) := by
    rw [List.getLast?_cons, stands, List.getLastD_eq_getLast?]
  rw [Alternates, ← List.cons_append, List.isChain_append, hlast]
  simp [Alternates]

end OxysOS.Library
