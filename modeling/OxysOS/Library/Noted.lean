import OxysOS.Library.Action
import Mathlib.Algebra.Group.Nat.Defs
import Mathlib.Algebra.Order.Ring.Int
import Mathlib.Data.Int.Notation
import Mathlib.Data.Nat.Notation
import Mathlib.Tactic.Common

/-!
# Results that are noted where they do not fit

A computation with whether every result so far fits where it is put.  A word that does not is what
the machine leaves: a sum modulo the word, and a shift by its count modulo 32.
-/

namespace OxysOS.Library

variable {α : Type}

abbrev Noted (α : Type) := StateM Bool α

namespace Noted

def note (fits : Prop) [Decidable fits] (a : α) : Noted α := fun before ↦ (a, before && fits)

def int64 (x : ℤ) : Noted ℤ := note (-2 ^ 63 ≤ x ∧ x < 2 ^ 63) x

def magnitude64 (x : ℕ) : Noted ℕ := note (x < 2 ^ 63) x

def uint64 (x : ℕ) : Noted ℕ := note (x < 2 ^ 64) (x % 2 ^ 64)

theorem note_eq {fits : Prop} [Decidable fits] (h : fits) (a : α) : note fits a = pure a := by
  funext before
  simp only [note, h, decide_true, Bool.and_true]
  rfl

theorem int64_eq {x : ℤ} (h : -2 ^ 63 ≤ x ∧ x < 2 ^ 63) : int64 x = pure x := note_eq h x

theorem magnitude64_eq {x : ℕ} (h : x < 2 ^ 63) : magnitude64 x = pure x := note_eq h x

theorem uint64_eq {x : ℕ} (h : x < 2 ^ 64) : uint64 x = pure x := by
  unfold uint64
  rw [note_eq h, Nat.mod_eq_of_lt h]

end Noted

abbrev Exactly (ε α : Type) := Action Bool ε α

namespace Exactly

open Action

variable {ε β : Type}

def note (exact : Prop) [Decidable exact] (word : UInt32) : Exactly ε UInt32 := do
  modify (· && exact)
  return word

def add (a b : UInt32) : Exactly ε UInt32 := note (a.toNat + b.toNat < 2 ^ 32) (a + b)

def sub (a b : UInt32) : Exactly ε UInt32 := note (b ≤ a) (a - b)

def mul (a b : UInt32) : Exactly ε UInt32 := note (a.toNat * b.toNat < 2 ^ 32) (a * b)

def shiftLeft (a count : UInt32) : Exactly ε UInt32 :=
  note (count < 32 ∧ a.toNat * 2 ^ count.toNat < 2 ^ 32) (a <<< count)

def refuseIf (c : Prop) [Decidable c] (reason : ε) : Exactly ε PUnit :=
  if c then throw reason else pure ⟨⟩

theorem outcome_note_bind (exact : Prop) [Decidable exact] (word : UInt32)
    (next : UInt32 → Exactly ε β) (before : Bool) :
    outcome (note exact word >>= next) before = outcome (next word) (before && exact) := by
  unfold note
  rw [outcome_bind, outcome_bind, outcome_modify]
  rfl

theorem outcome_refuseIf_bind (c : Prop) [Decidable c] (reason : ε)
    (next : PUnit → Exactly ε β) (before : Bool) :
    outcome (refuseIf c reason >>= next) before =
      if c then (.error reason, before) else outcome (next ⟨⟩) before := by
  unfold refuseIf
  rw [outcome_bind]
  by_cases hc : c
  · rw [if_pos hc, if_pos hc]
    rfl
  · rw [if_neg hc, if_neg hc]
    rfl

theorem of_refuseIf {c : Prop} [Decidable c] {reason : ε} {next : PUnit → Exactly ε β}
    {before after : Bool} {b : β}
    (h : outcome (refuseIf c reason >>= next) before = (.ok b, after)) :
    ¬c ∧ outcome (next ⟨⟩) before = (.ok b, after) := by
  rw [outcome_refuseIf_bind] at h
  by_cases hc : c
  · rw [if_pos hc] at h
    cases (Prod.mk.inj h).1
  · rw [if_neg hc] at h
    exact ⟨hc, h⟩

theorem of_note {exact : Prop} [Decidable exact] (hexact : exact) {word : UInt32}
    {next : UInt32 → Exactly ε β} {before after : Bool} {b : β}
    (h : outcome (note exact word >>= next) before = (.ok b, after)) :
    outcome (next word) before = (.ok b, after) := by
  rw [outcome_note_bind, decide_eq_true hexact, Bool.and_true] at h
  exact h

end Exactly

end OxysOS.Library
