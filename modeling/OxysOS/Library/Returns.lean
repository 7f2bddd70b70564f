import Mathlib.Tactic.Common

/-!
# Computations that return

A computation with a bound upon the calls that may be active, or upon the turns of a loop,
is an `Option` that is `none` where the bound is met.  Such a computation returns where
each part of it does.
-/

namespace OxysOS.Library

variable {α β σ : Type}

def Returns (m : Option α) (P : α → Prop) : Prop := ∃ a, m = some a ∧ P a

theorem returns_some {a : α} {P : α → Prop} (h : P a) : Returns (some a) P := ⟨a, rfl, h⟩

theorem Returns.mono {m : Option α} {P Q : α → Prop} (h : Returns m P) (hPQ : ∀ a, P a → Q a) :
    Returns m Q := by
  obtain ⟨a, ha, hP⟩ := h
  exact ⟨a, ha, hPQ a hP⟩

theorem Returns.bind {m : Option α} {f : α → Option β} {P : α → Prop} {Q : β → Prop}
    (h : Returns m P) (hf : ∀ a, P a → Returns (f a) Q) : Returns (m >>= f) Q := by
  obtain ⟨a, rfl, hP⟩ := h
  exact hf a hP

theorem Returns.ite {c : Prop} [Decidable c] {m m' : Option α} {P : α → Prop}
    (h : c → Returns m P) (h' : ¬c → Returns m' P) : Returns (if c then m else m') P := by
  by_cases hc : c
  · rw [if_pos hc]
    exact h hc
  · rw [if_neg hc]
    exact h' hc

def turnsOf (turn : σ → Option (β ⊕ σ)) : ℕ → σ → Option β
  | 0, _ => none
  | turns + 1, state =>
      match turn state with
      | none => none
      | some (.inl result) => some result
      | some (.inr state) => turnsOf turn turns state

theorem turnsOf_succ (turn : σ → Option (β ⊕ σ)) (turns : ℕ) (state : σ) :
    turnsOf turn (turns + 1) state = (turn state).bind (Sum.elim some (turnsOf turn turns)) := by
  rw [turnsOf]
  cases turn state with
  | none => rfl
  | some result => cases result <;> rfl

theorem returns_turnsOf {turn : σ → Option (β ⊕ σ)} {I : σ → Prop} {m : σ → ℕ} {Q : β → Prop}
    (hturn : ∀ state, I state → Returns (turn state)
      (Sum.elim Q fun next ↦ I next ∧ m next < m state)) {turns : ℕ} {state : σ}
    (hstate : I state) (h : m state < turns) : Returns (turnsOf turn turns state) Q := by
  induction turns generalizing state with
  | zero => exact absurd h (Nat.not_lt_zero _)
  | succ turns ih =>
      obtain ⟨result, hresult, hnext⟩ := hturn state hstate
      rw [turnsOf, hresult]
      cases result with
      | inl result => exact returns_some hnext
      | inr next => exact ih hnext.1 (Nat.lt_of_lt_of_le hnext.2 (Nat.le_of_lt_succ h))

end OxysOS.Library
