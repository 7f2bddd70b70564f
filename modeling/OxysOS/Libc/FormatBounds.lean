import OxysOS.Libc.FormatRun

/-!
# The bounds of widths, precisions and counts

A number in a format is meant to be read as its value or as a bound that it exceeds, and no sum to
leave what an `int` holds, whatever the destination does.
-/

namespace OxysOS.Libc

open OxysOS.Library Action

variable {σ α β : Type} {emit : σ → UInt8 → Bool × σ} {text : List UInt8} {bytes : List UInt8}

def Follows (action action' : Format σ α) : Prop :=
  ∀ s, (outcome action s).1 = .error .failed ∨ outcome action s = outcome action' s

def accepting (emit : σ → UInt8 → Bool × σ) (context : σ) (byte : UInt8) : Bool × σ :=
  (true, (emit context byte).2)

namespace Follows

variable {action action' : Format σ α} {next next' : α → Format σ β}

theorem refl (action : Format σ α) : Follows action action := fun _ ↦ Or.inr rfl

theorem bind (h : Follows action action') (hnext : ∀ a, Follows (next a) (next' a)) :
    Follows (action >>= next) (action' >>= next') := by
  intro s
  rw [outcome_bind, outcome_bind]
  rcases h s with hfailed | hsame
  · left
    cases heq : outcome action s with
    | mk answer s' =>
        rw [heq] at hfailed
        cases hfailed
        rfl
  · rw [hsame]
    cases outcome action' s with
    | mk answer s' =>
        cases answer with
        | ok a => exact hnext a s'
        | error stop => exact Or.inr rfl

theorem ite {condition : Prop} [Decidable condition] {other other' : Format σ α}
    (h : Follows action action') (hother : Follows other other') :
    Follows (if condition then action else other) (if condition then action' else other') := by
  split_ifs
  · exact h
  · exact hother

end Follows

variable {format : List UInt8} {arguments : List FormatArgument}

end OxysOS.Libc
