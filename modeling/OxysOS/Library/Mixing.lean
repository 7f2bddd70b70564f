import Mathlib.Data.Fintype.Pi
import Mathlib.Logic.Function.Basic
import Mathlib.Tactic.Common

/-!
# Mixing that loses nothing

A step that changes one word of a pool, by a bijection that the other words choose, is a
bijection of the pool, and so is a run of such steps.
-/

namespace OxysOS.Library

open Function

theorem xor_right_injective (a : UInt64) : Injective fun word : UInt64 ↦ word ^^^ a :=
  fun _ _ h ↦ (UInt64.xor_left_inj a).mp h

theorem xor_left_injective (a : UInt64) : Injective fun word : UInt64 ↦ a ^^^ word :=
  fun _ _ h ↦ (UInt64.xor_right_inj a).mp h

theorem mul_injective_of_inverse {a inverse : UInt64} (h : a * inverse = 1) :
    Injective fun word : UInt64 ↦ word * a := by
  intro x y hxy
  have hproduct : x * a * inverse = y * a * inverse := congrArg (· * inverse) hxy
  rwa [UInt64.mul_assoc, UInt64.mul_assoc, h, UInt64.mul_one, UInt64.mul_one] at hproduct

theorem eq_zero_of_shift {word shift : UInt64} (hshift : 0 < shift.toNat % 64)
    (h : word >>> shift = word) : word = 0 := by
  have hnat := congrArg UInt64.toNat h
  rw [UInt64.toNat_shiftRight, Nat.shiftRight_eq_div_pow] at hnat
  have htwo : 2 ^ 1 ≤ 2 ^ (shift.toNat % 64) := Nat.pow_le_pow_right (by decide) hshift
  by_contra hne
  have hpositive : 0 < word.toNat := Nat.pos_of_ne_zero fun hzero ↦ hne (UInt64.toNat_inj.mp hzero)
  have hless := Nat.div_lt_self hpositive htwo
  omega

theorem xorShift_injective {shift : UInt64} (hshift : 0 < shift.toNat % 64) :
    Injective fun word : UInt64 ↦ word ^^^ (word >>> shift) := by
  intro x y hxy
  have hboth : (x ^^^ y) >>> shift = x ^^^ y := by
    dsimp only at hxy
    rw [UInt64.shiftRight_xor]
    calc
      (x >>> shift) ^^^ (y >>> shift)
          = x ^^^ (x ^^^ (x >>> shift)) ^^^ (y >>> shift) := by
            rw [← UInt64.xor_assoc, UInt64.xor_self, UInt64.zero_xor]
      _ = x ^^^ y := by
            rw [hxy, UInt64.xor_assoc, UInt64.xor_assoc, UInt64.xor_self, UInt64.xor_zero]
  exact UInt64.xor_eq_zero_iff.mp (eq_zero_of_shift hshift hboth)

theorem toNat_rotate {amount : UInt64} (hpositive : 0 < amount.toNat) (hless : amount.toNat < 64)
    (word : UInt64) :
    ((word <<< amount) ||| (word >>> (64 - amount))).toNat =
      word.toNat % 2 ^ (64 - amount.toNat) * 2 ^ amount.toNat +
        word.toNat / 2 ^ (64 - amount.toNat) := by
  have hbound := word.toNat_lt
  have hrest : (64 - amount : UInt64).toNat = 64 - amount.toNat := by
    rw [UInt64.toNat_sub_of_le _ _ (UInt64.le_iff_toNat_le.mpr (Nat.le_of_lt hless))]
    rfl
  have hsplit : 2 ^ 64 = 2 ^ (64 - amount.toNat) * 2 ^ amount.toNat := by
    rw [← Nat.pow_add, Nat.sub_add_cancel (Nat.le_of_lt hless)]
  have hhigh : word.toNat / 2 ^ (64 - amount.toNat) < 2 ^ amount.toNat := by
    rw [Nat.div_lt_iff_lt_mul (Nat.two_pow_pos _), Nat.mul_comm, ← hsplit]
    exact hbound
  have hlow : word.toNat * 2 ^ amount.toNat % 2 ^ 64 =
      word.toNat % 2 ^ (64 - amount.toNat) * 2 ^ amount.toNat := by
    rw [hsplit, Nat.mul_mod_mul_right]
  rw [UInt64.toNat_or, UInt64.toNat_shiftLeft, UInt64.toNat_shiftRight, hrest,
    Nat.mod_eq_of_lt hless, Nat.mod_eq_of_lt (Nat.sub_lt (by decide) hpositive),
    Nat.shiftRight_eq_div_pow, Nat.shiftLeft_eq, hlow, ← Nat.shiftLeft_eq,
    ← Nat.shiftLeft_add_eq_or_of_lt hhigh]

theorem rotate_injective {amount : UInt64} (hpositive : 0 < amount.toNat)
    (hless : amount.toNat < 64) :
    Injective fun word : UInt64 ↦ (word <<< amount) ||| (word >>> (64 - amount)) := by
  intro x y hxy
  have hnat := congrArg UInt64.toNat hxy
  dsimp only at hnat
  rw [toNat_rotate hpositive hless, toNat_rotate hpositive hless] at hnat
  have hhigh : ∀ word : UInt64, word.toNat / 2 ^ (64 - amount.toNat) < 2 ^ amount.toNat := by
    intro word
    rw [Nat.div_lt_iff_lt_mul (Nat.two_pow_pos _), ← Nat.pow_add,
      Nat.add_sub_cancel' (Nat.le_of_lt hless)]
    exact word.toNat_lt
  have hlow := congrArg (· / 2 ^ amount.toNat) hnat
  have hrest := congrArg (· % 2 ^ amount.toNat) hnat
  rw [Nat.mul_comm, Nat.mul_add_div (Nat.two_pow_pos _), Nat.mul_comm _ (2 ^ amount.toNat),
    Nat.mul_add_div (Nat.two_pow_pos _), Nat.div_eq_of_lt (hhigh x), Nat.div_eq_of_lt (hhigh y),
    Nat.add_zero, Nat.add_zero] at hlow
  rw [Nat.mul_add_mod', Nat.mul_add_mod', Nat.mod_eq_of_lt (hhigh x),
    Nat.mod_eq_of_lt (hhigh y)] at hrest
  refine UInt64.toNat_inj.mp ?_
  rw [← Nat.div_add_mod x.toNat (2 ^ (64 - amount.toNat)), hrest, hlow, Nat.div_add_mod]

variable {ι α : Type} [DecidableEq ι]

structure Mixes (here : ι) (mix : (ι → α) → α → α) : Prop where
  injective : ∀ pool, Injective (mix pool)
  elsewhere : ∀ pool word, mix (update pool here word) = mix pool

def mixAt (here : ι) (mix : (ι → α) → α → α) (pool : ι → α) : ι → α :=
  update pool here (mix pool (pool here))

theorem Mixes.mixAt_injective {here : ι} {mix : (ι → α) → α → α} (h : Mixes here mix) :
    Injective (mixAt here mix) := by
  intro pool pool' hsame
  have helse : ∀ index, index ≠ here → pool index = pool' index := fun index hindex ↦ by
    have hword := congrFun hsame index
    unfold mixAt at hword
    rwa [update_of_ne hindex, update_of_ne hindex] at hword
  have hpool : pool' = update pool here (pool' here) := by
    funext index
    by_cases hindex : index = here
    · rw [hindex, update_self]
    · rw [update_of_ne hindex, helse index hindex]
  have hmix : mix pool' = mix pool := by
    rw [hpool]
    exact h.elsewhere pool _
  have hword := congrFun hsame here
  unfold mixAt at hword
  rw [update_self, update_self, hmix] at hword
  rw [hpool, ← h.injective pool hword, update_eq_self]

def mixed {σ : Type} (steps : List (σ → σ)) (s : σ) : σ := steps.foldl (fun s step ↦ step s) s

variable {σ : Type}

theorem mixed_append (steps steps' : List (σ → σ)) (s : σ) :
    mixed (steps ++ steps') s = mixed steps' (mixed steps s) := List.foldl_append

theorem mixed_cons (step : σ → σ) (steps : List (σ → σ)) (s : σ) :
    mixed (step :: steps) s = mixed steps (step s) := rfl

theorem mixed_injective {steps : List (σ → σ)} (h : ∀ step ∈ steps, Injective step) :
    Injective (mixed steps) := by
  induction steps with
  | nil => exact fun _ _ hsame ↦ hsame
  | cons step steps ih =>
      have hrest := ih fun step' hmem ↦ h step' (List.mem_cons_of_mem _ hmem)
      exact fun _ _ hsame ↦ h step List.mem_cons_self (hrest hsame)

theorem mixed_ne {before after : List (σ → σ)} {step step' : σ → σ}
    (hafter : ∀ step ∈ after, Injective step) (hstep : ∀ s, step s ≠ step' s) (s : σ) :
    mixed (before ++ step :: after) s ≠ mixed (before ++ step' :: after) s := by
  rw [mixed_append, mixed_append, mixed_cons, mixed_cons]
  exact fun hsame ↦ hstep _ (mixed_injective hafter hsame)

end OxysOS.Library
