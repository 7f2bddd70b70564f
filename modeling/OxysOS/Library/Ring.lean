import Mathlib.Data.List.Basic
import Mathlib.Data.Nat.ModEq
import Mathlib.Logic.Function.Basic

/-!
# Rings addressed by indices that are never reduced

The two indices of a ring only advance, in 64-bit arithmetic, and are reduced to
a cell when used.  Where the capacity divides their range, what a ring holds is
a list: a read takes from its front and a write adds at its back.
-/

namespace OxysOS.Library

variable {α : Type} {capacity : ℕ} [NeZero capacity] {cells : Fin capacity → α}
  {start : UInt64} {content : List α}

def ringCell (capacity : ℕ) [NeZero capacity] (index : UInt64) : Fin capacity :=
  Fin.ofNat capacity index.toNat

def ringRead (cells : Fin capacity → α) (start : UInt64) (count : ℕ) : List α :=
  (List.range count).map fun i ↦ cells (ringCell capacity (start + UInt64.ofNat i))

def ringWrite (cells : Fin capacity → α) (start : UInt64) : List α → Fin capacity → α
  | [] => cells
  | a :: rest => ringWrite (Function.update cells (ringCell capacity start) a) (start + 1) rest

structure RingHolds (cells : Fin capacity → α) (start : UInt64) (content : List α) : Prop where
  fits : content.length ≤ capacity
  reads : ringRead cells start content.length = content

theorem ringRead_add (cells : Fin capacity → α) (start : UInt64) (count more : ℕ) :
    ringRead cells start (count + more) =
      ringRead cells start count ++ ringRead cells (start + UInt64.ofNat count) more := by
  unfold ringRead
  rw [List.range_add, List.map_append, List.map_map]
  congr 1
  apply List.map_congr_left
  intro i _
  simp only [Function.comp_apply, UInt64.ofNat_add, UInt64.add_assoc]

@[simp] theorem length_ringRead (cells : Fin capacity → α) (start : UInt64) (count : ℕ) :
    (ringRead cells start count).length = count := by
  simp [ringRead]

theorem ringCell_add (hdvd : capacity ∣ 2 ^ 64) (start : UInt64) (i : ℕ) :
    (ringCell capacity (start + UInt64.ofNat i)).val = (start.toNat + i) % capacity := by
  unfold ringCell
  rw [Fin.val_ofNat, UInt64.toNat_add, UInt64.toNat_ofNat', Nat.mod_mod_of_dvd _ hdvd, Nat.add_mod,
    Nat.mod_mod_of_dvd _ hdvd, ← Nat.add_mod]

theorem ringCell_ne (hdvd : capacity ∣ 2 ^ 64) {i j : ℕ} (hi : i < capacity) (hj : j < capacity)
    (hne : i ≠ j) :
    ringCell capacity (start + UInt64.ofNat i) ≠ ringCell capacity (start + UInt64.ofNat j) := by
  intro h
  have hval := congrArg Fin.val h
  rw [ringCell_add hdvd, ringCell_add hdvd] at hval
  have hmod : i ≡ j [MOD capacity] := Nat.ModEq.add_left_cancel' _ hval
  exact hne (hmod.eq_of_lt_of_lt hi hj)

namespace RingHolds

theorem nil (cells : Fin capacity → α) (start : UInt64) : RingHolds cells start [] :=
  ⟨Nat.zero_le _, rfl⟩

theorem of_mod {start' : UInt64} (h : RingHolds cells start content) (hdvd : capacity ∣ 2 ^ 64)
    (hmod : start'.toNat % capacity = start.toNat % capacity) :
    RingHolds cells start' content := by
  refine ⟨h.fits, Eq.trans ?_ h.reads⟩
  unfold ringRead
  refine List.map_congr_left fun i _ ↦ congrArg cells (Fin.ext ?_)
  rw [ringCell_add hdvd, ringCell_add hdvd, Nat.add_mod, hmod, ← Nat.add_mod]

theorem take (h : RingHolds cells start content) {count : ℕ} (hcount : count ≤ content.length) :
    ringRead cells start count = content.take count := by
  obtain ⟨more, hmore⟩ := Nat.exists_eq_add_of_le hcount
  have hreads := h.reads
  rw [hmore, ringRead_add] at hreads
  have htake := congrArg (List.take count) hreads
  rwa [List.take_left' (length_ringRead cells start count)] at htake

theorem drop (h : RingHolds cells start content) {count : ℕ} (hcount : count ≤ content.length) :
    RingHolds cells (start + UInt64.ofNat count) (content.drop count) := by
  constructor
  · rw [List.length_drop]
    exact (Nat.sub_le _ _).trans h.fits
  · obtain ⟨more, hmore⟩ := Nat.exists_eq_add_of_le hcount
    have hreads := h.reads
    rw [hmore, ringRead_add] at hreads
    have hdrop := congrArg (List.drop count) hreads
    rw [List.drop_left' (length_ringRead cells start count)] at hdrop
    rw [List.length_drop, hmore, Nat.add_sub_cancel_left]
    exact hdrop

theorem put (h : RingHolds cells start content) (hdvd : capacity ∣ 2 ^ 64)
    (hroom : content.length < capacity) (a : α) :
    RingHolds
      (Function.update cells (ringCell capacity (start + UInt64.ofNat content.length)) a) start
      (content ++ [a]) := by
  constructor
  · rw [List.length_append]
    exact hroom
  · have hlength : (content ++ [a]).length = content.length + 1 := by simp
    rw [hlength, ringRead_add]
    congr 1
    · refine Eq.trans ?_ h.reads
      unfold ringRead
      apply List.map_congr_left
      intro i hi
      have hlt := List.mem_range.mp hi
      apply Function.update_of_ne
      exact ringCell_ne hdvd (hlt.trans hroom) hroom hlt.ne
    · simp [ringRead]

theorem write (h : RingHolds cells start content) (hdvd : capacity ∣ 2 ^ 64) {values : List α}
    (hroom : content.length + values.length ≤ capacity) :
    RingHolds (ringWrite cells (start + UInt64.ofNat content.length) values) start
      (content ++ values) := by
  induction values generalizing cells content with
  | nil =>
      rw [List.append_nil]
      exact h
  | cons a rest ih =>
      rw [List.length_cons] at hroom
      have hput := h.put hdvd (by omega) a
      have hrest := ih hput (by rw [List.length_append, List.length_singleton]; omega)
      rw [List.append_assoc, List.singleton_append, List.length_append, List.length_singleton,
        UInt64.ofNat_add, ← UInt64.add_assoc] at hrest
      exact hrest

end RingHolds

end OxysOS.Library
