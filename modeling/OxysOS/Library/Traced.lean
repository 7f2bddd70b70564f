import Mathlib.Tactic.Common

/-!
# Computations that note what they do

A computation answers with a value and with its effects in order, or does not
come to an end.  `Ends P m a` says that it ends with `a` and that every effect
is one `P` allows; the rules below take such a statement apart along its shape.
-/

namespace OxysOS.Library

def Traced (ε α : Type) := Option (α × List ε)

namespace Traced

variable {ε α β : Type} {P : ε → Prop}

instance : Monad (Traced ε) where
  pure a := some (a, [])
  bind m next :=
    match m with
    | none => none
    | some (a, effects) =>
        match next a with
        | none => none
        | some (b, effects') => some (b, effects ++ effects')

def notes (effects : List ε) : Traced ε Unit := some ((), effects)

def note (e : ε) : Traced ε Unit := notes [e]

def unending : Traced ε α := none

/-- The computation ends with `a`, and `P` allows every effect it has. -/
def Ends (P : ε → Prop) (m : Traced ε α) (a : α) : Prop :=
  ∃ effects, m = some (a, effects) ∧ ∀ e ∈ effects, P e

@[simp] theorem ends_pure {a b : α} : Ends P (pure a) b ↔ a = b := by
  constructor
  · rintro ⟨effects, heq, -⟩
    cases heq
    rfl
  · rintro rfl
    exact ⟨[], rfl, by simp⟩

@[simp] theorem ends_notes {effects : List ε} {u : Unit} :
    Ends P (notes effects) u ↔ ∀ e ∈ effects, P e := by
  constructor
  · rintro ⟨effects', heq, hallowed⟩
    cases heq
    exact hallowed
  · exact fun hallowed ↦ ⟨effects, rfl, hallowed⟩

@[simp] theorem ends_note {e : ε} {u : Unit} : Ends P (note e) u ↔ P e := by
  simp [note]

@[simp] theorem not_ends_unending {a : α} : ¬Ends P unending a := by
  rintro ⟨effects, heq, -⟩
  cases heq

@[simp] theorem ends_bind {m : Traced ε α} {next : α → Traced ε β} {b : β} :
    Ends P (m >>= next) b ↔ ∃ a, Ends P m a ∧ Ends P (next a) b := by
  constructor
  · rintro ⟨effects, heq, hallowed⟩
    cases hm : m with
    | none =>
        rw [hm] at heq
        cases heq
    | some answer =>
        obtain ⟨a, first⟩ := answer
        cases hnext : next a with
        | none =>
            simp [bind, hm, hnext] at heq
        | some answer' =>
            obtain ⟨b', second⟩ := answer'
            simp only [bind, hm, hnext] at heq
            cases heq
            refine ⟨a, ⟨first, rfl, fun e he ↦ hallowed e ?_⟩, second, hnext, fun e he ↦
              hallowed e ?_⟩
            · exact List.mem_append_left second he
            · exact List.mem_append_right first he
  · rintro ⟨a, ⟨first, rfl, hfirst⟩, second, hnext, hsecond⟩
    refine ⟨first ++ second, ?_, fun e he ↦ ?_⟩
    · change (match next a with
        | none => none
        | some (b, effects) => some (b, first ++ effects)) = _
      rw [hnext]
    · rcases List.mem_append.mp he with he | he
      · exact hfirst e he
      · exact hsecond e he

@[simp] theorem ends_ite {c : Prop} [Decidable c] {m m' : Traced ε α} {a : α} :
    Ends P (if c then m else m') a ↔ if c then Ends P m a else Ends P m' a := by
  split_ifs <;> rfl

/-- The computation comes to an end, and `P` allows every effect it has. -/
def Completes (P : ε → Prop) (m : Traced ε α) : Prop := ∃ a, Ends P m a

@[simp] theorem completes_pure (a : α) : Completes P (pure a) := ⟨a, ends_pure.mpr rfl⟩

theorem completes_bind {m : Traced ε α} {next : α → Traced ε β} :
    Completes P (m >>= next) ↔ ∃ a, Ends P m a ∧ Completes P (next a) := by
  simp only [Completes, ends_bind]
  exact ⟨fun ⟨b, a, hm, hnext⟩ ↦ ⟨a, hm, b, hnext⟩, fun ⟨a, hm, b, hnext⟩ ↦ ⟨b, a, hm, hnext⟩⟩

theorem completes_bind_pure {m : Traced ε α} {f : α → β} :
    Completes P (m >>= fun a ↦ pure (f a)) ↔ Completes P m := by
  simp [Completes]

@[simp] theorem completes_ite {c : Prop} [Decidable c] {m m' : Traced ε α} :
    Completes P (if c then m else m') ↔ if c then Completes P m else Completes P m' := by
  split_ifs <;> rfl

end Traced

end OxysOS.Library
