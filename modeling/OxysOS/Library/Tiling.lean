import Mathlib.Data.Nat.Notation
import Mathlib.Data.List.Basic
import Mathlib.Tactic.Common
import Mathlib.Algebra.GroupWithZero.Nat

/-!
# Records that tile a run

A record stands at a place of a run, and takes so much of it.  Records tile the run where each
stands at the end of the one before it.  Where a record is a matter of what it takes alone, a change
of the run is a change of the records within what was changed.
-/

namespace OxysOS.Library

variable {B R : Type} {stands : (ℕ → B) → ℕ → R → Prop} {extent : R → ℕ} {run run' : ℕ → B}
  {start stop : ℕ} {record : R} {records : List R}

def Tiles (stands : (ℕ → B) → ℕ → R → Prop) (extent : R → ℕ) (run : ℕ → B) :
    ℕ → List R → ℕ → Prop
  | start, [], stop => start = stop
  | start, record :: records, stop =>
      stands run start record ∧ Tiles stands extent run (start + extent record) records stop

def Standalone (stands : (ℕ → B) → ℕ → R → Prop) (extent : R → ℕ) : Prop :=
  ∀ run run' start record, stands run start record →
    (∀ i, start ≤ i → i < start + extent record → run i = run' i) → stands run' start record

@[simp] theorem tiles_nil : Tiles stands extent run start [] stop ↔ start = stop := Iff.rfl

theorem Tiles.stop_eq (h : Tiles stands extent run start records stop) :
    start + (records.map extent).sum = stop := by
  induction records generalizing start with
  | nil => simpa using h
  | cons record records ih =>
      have hrest := ih h.2
      simp only [List.map_cons, List.sum_cons]
      omega

theorem Tiles.le (h : Tiles stands extent run start records stop) : start ≤ stop := by
  have hstop := h.stop_eq
  omega

theorem Tiles.within (h : Tiles stands extent run start (record :: records) stop) :
    start + extent record ≤ stop := h.2.le

theorem Tiles.congr (hstandalone : Standalone stands extent)
    (h : Tiles stands extent run start records stop)
    (hsame : ∀ i, start ≤ i → i < stop → run i = run' i) :
    Tiles stands extent run' start records stop := by
  induction records generalizing start with
  | nil => exact h
  | cons record records ih =>
      have hwithin := h.within
      refine ⟨hstandalone run run' start record h.1 fun i hi hlt ↦ hsame i hi (by omega), ?_⟩
      exact ih h.2 fun i hi hlt ↦ hsame i (by omega) hlt

theorem Tiles.eq_nil (hextent : ∀ run start record, stands run start record → 0 < extent record)
    (h : Tiles stands extent run start records start) : records = [] := by
  cases records with
  | nil => rfl
  | cons record records =>
      have hwithin := h.within
      have hpositive := hextent run start record h.1
      omega

end OxysOS.Library
