import Mathlib.Data.Finset.Card
import Mathlib.Data.Finset.Range

/-!
# How many entries of a table satisfy a predicate

Only the indices below a bound are counted, as a table of that capacity has
them.
-/

namespace OxysOS.Library

variable {p q : ℕ → Prop} [DecidablePred p] [DecidablePred q] {bound i : ℕ}

def tally (bound : ℕ) (p : ℕ → Prop) [DecidablePred p] : ℕ :=
  ((Finset.range bound).filter p).card

theorem tally_congr (h : ∀ i, i < bound → (p i ↔ q i)) : tally bound p = tally bound q := by
  unfold tally
  congr 1
  exact Finset.filter_congr fun i hi ↦ h i (Finset.mem_range.mp hi)

theorem tally_extend {bound' : ℕ} (hle : bound ≤ bound') (h : ∀ i, bound ≤ i → ¬p i) :
    tally bound' p = tally bound p := by
  unfold tally
  congr 1
  ext i
  simp only [Finset.mem_filter, Finset.mem_range]
  constructor
  · rintro ⟨-, hi⟩
    exact ⟨by by_contra hbound; exact h i (by omega) hi, hi⟩
  · rintro ⟨hbound, hi⟩
    exact ⟨by omega, hi⟩

theorem tally_insert (hi : i < bound) (hp : ¬p i) (h : ∀ j, j < bound → (q j ↔ p j ∨ j = i)) :
    tally bound q = tally bound p + 1 := by
  unfold tally
  have hmem : i ∉ (Finset.range bound).filter p := by simp [hp]
  rw [← Finset.card_insert_of_notMem hmem]
  congr 1
  ext j
  simp only [Finset.mem_insert, Finset.mem_filter, Finset.mem_range]
  constructor
  · rintro ⟨hj, hq⟩
    rcases (h j hj).mp hq with hpj | rfl
    · exact Or.inr ⟨hj, hpj⟩
    · exact Or.inl rfl
  · rintro (rfl | ⟨hj, hpj⟩)
    · exact ⟨hi, (h j hi).mpr (Or.inr rfl)⟩
    · exact ⟨hj, (h j hj).mpr (Or.inl hpj)⟩

theorem tally_update (hi : i < bound) (h : ∀ j, j ≠ i → (q j ↔ p j)) :
    tally bound q + (if p i then 1 else 0) = tally bound p + (if q i then 1 else 0) := by
  by_cases hp : p i <;> by_cases hq : q i
  · have hcongr : tally bound q = tally bound p := tally_congr fun j _ ↦ by
      by_cases hj : j = i
      · subst hj; simp [hp, hq]
      · exact h j hj
    rw [if_pos hp, if_pos hq, hcongr]
  · have hinsert : tally bound p = tally bound q + 1 := tally_insert hi hq fun j _ ↦ by
      by_cases hj : j = i
      · subst hj; simp [hp]
      · simp [h j hj, hj]
    rw [if_pos hp, if_neg hq, hinsert]
  · have hinsert : tally bound q = tally bound p + 1 := tally_insert hi hp fun j _ ↦ by
      by_cases hj : j = i
      · subst hj; simp [hq]
      · simp [h j hj, hj]
    rw [if_neg hp, if_pos hq, hinsert]
  · have hcongr : tally bound q = tally bound p := tally_congr fun j _ ↦ by
      by_cases hj : j = i
      · subst hj; simp [hp, hq]
      · exact h j hj
    rw [if_neg hp, if_neg hq, hcongr]

theorem tally_pos (hi : i < bound) (hp : p i) : 0 < tally bound p :=
  Finset.card_pos.mpr ⟨i, by simp [hi, hp]⟩

theorem tally_eq_zero (h : ∀ i, i < bound → ¬p i) : tally bound p = 0 := by
  unfold tally
  rw [Finset.card_eq_zero, Finset.filter_eq_empty_iff]
  exact fun i hi ↦ h i (Finset.mem_range.mp hi)

end OxysOS.Library
