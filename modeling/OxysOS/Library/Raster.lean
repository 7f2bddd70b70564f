import OxysOS.Library.Bytes
import Mathlib.Tactic.Common

/-!
# Rasters

A raster is a grid of pixels in a run of bytes: rows a pitch apart, of pixels of a fixed
number of bytes.  A picture gives some of the pixels a colour, and painting it changes
those pixels alone.  Of pictures painted one after another the later covers the earlier.
-/

namespace OxysOS.Library

structure Raster where
  base : ℕ
  width : ℕ
  height : ℕ
  pitch : ℕ
  size : ℕ

abbrev Picture (C : Type) := ℤ → ℤ → Option C

namespace Raster

variable {C : Type}

structure Fits (r : Raster) : Prop where
  size : 0 < r.size
  pitch : r.width * r.size ≤ r.pitch

def place (r : Raster) (x y : ℕ) : ℕ := r.base + y * r.pitch + x * r.size

def pixelOf (r : Raster) (a : ℕ) : Option (ℕ × ℕ × ℕ) :=
  let offset := a - r.base
  if r.base ≤ a ∧ offset / r.pitch < r.height ∧ offset % r.pitch / r.size < r.width then
    some (offset % r.pitch / r.size, offset / r.pitch, offset % r.pitch % r.size)
  else none

def paint (r : Raster) (encode : C → ℕ → UInt8) (picture : Picture C) (raw : Bytes) : Bytes :=
  fun a ↦ ((r.pixelOf a).bind fun pixel ↦
    (picture pixel.1 pixel.2.1).map fun colour ↦ encode colour pixel.2.2).getD (raw a)

def single (x y : ℤ) (colour : C) : Picture C := fun x' y' ↦
  if x' = x ∧ y' = y then some colour else none

def upon (above below : Picture C) : Picture C := fun x y ↦ above x y <|> below x y

variable {r : Raster} {encode : C → ℕ → UInt8} {picture : Picture C} {raw : Bytes}
  {x y i a : ℕ} {colour : C}

@[simp] theorem single_self (x y : ℤ) (colour : C) : single x y colour x y = some colour :=
  if_pos ⟨rfl, rfl⟩

theorem single_of_ne {x y x' y' : ℤ} (h : ¬(x' = x ∧ y' = y)) (colour : C) :
    single x y colour x' y' = none := if_neg h

theorem upon_of_some {above below : Picture C} {x y : ℤ} {colour : C}
    (h : above x y = some colour) : upon above below x y = some colour := by
  unfold upon
  rw [h]
  rfl

theorem upon_of_none {above below : Picture C} {x y : ℤ} (h : above x y = none) :
    upon above below x y = below x y := by
  unfold upon
  rw [h]
  rfl

theorem pixelOf_place (h : r.Fits) (hx : x < r.width) (hy : y < r.height) (hi : i < r.size) :
    r.pixelOf (r.place x y + i) = some (x, y, i) := by
  have hinner : x * r.size + i < r.pitch := by
    have hle : (x + 1) * r.size ≤ r.width * r.size := Nat.mul_le_mul_right _ hx
    have hpitch := h.pitch
    rw [Nat.add_mul, Nat.one_mul] at hle
    omega
  have hpitch : 0 < r.pitch := by omega
  have hoffset : r.place x y + i - r.base = (x * r.size + i) + r.pitch * y := by
    unfold place
    rw [Nat.mul_comm y]
    omega
  have hrow : (r.place x y + i - r.base) / r.pitch = y := by
    rw [hoffset, Nat.add_mul_div_left _ _ hpitch, Nat.div_eq_of_lt hinner, Nat.zero_add]
  have hcolumn : (r.place x y + i - r.base) % r.pitch = i + r.size * x := by
    rw [hoffset, Nat.add_mul_mod_self_left, Nat.mod_eq_of_lt hinner, Nat.mul_comm, Nat.add_comm]
  have hbase : r.base ≤ r.place x y + i := by
    unfold place
    omega
  have hdiv : (i + r.size * x) / r.size = x := by
    rw [Nat.add_mul_div_left _ _ h.size, Nat.div_eq_of_lt hi, Nat.zero_add]
  have hmod : (i + r.size * x) % r.size = i := by
    rw [Nat.add_mul_mod_self_left, Nat.mod_eq_of_lt hi]
  unfold pixelOf
  dsimp only
  rw [hrow, hcolumn, hdiv, hmod, if_pos ⟨hbase, hy, hx⟩]

theorem place_of_pixelOf {j : ℕ} (h : r.Fits) (ha : r.pixelOf a = some (x, y, j)) :
    a = r.place x y + j ∧ x < r.width ∧ y < r.height ∧ j < r.size := by
  unfold pixelOf at ha
  dsimp only at ha
  split at ha
  · next hin =>
      cases ha
      refine ⟨?_, hin.2.2, hin.2.1, Nat.mod_lt _ h.size⟩
      have hrow := Nat.div_add_mod (a - r.base) r.pitch
      have hcolumn := Nat.div_add_mod ((a - r.base) % r.pitch) r.size
      unfold place
      rw [Nat.mul_comm _ r.pitch, Nat.mul_comm _ r.size]
      omega
  · cases ha

theorem paint_place (h : r.Fits) (hx : x < r.width) (hy : y < r.height) (hi : i < r.size) :
    r.paint encode picture raw (r.place x y + i) =
      ((picture x y).map fun colour ↦ encode colour i).getD (raw (r.place x y + i)) := by
  unfold paint
  rw [pixelOf_place h hx hy hi]
  rfl

theorem paint_of_pixelOf_none (ha : r.pixelOf a = none) : r.paint encode picture raw a = raw a := by
  unfold paint
  rw [ha]
  rfl

theorem paint_none (r : Raster) (encode : C → ℕ → UInt8) (raw : Bytes) :
    r.paint encode (fun _ _ ↦ none) raw = raw := by
  funext a
  unfold paint
  cases r.pixelOf a <;> rfl

theorem paint_paint (r : Raster) (encode : C → ℕ → UInt8) (above below : Picture C) (raw : Bytes) :
    r.paint encode above (r.paint encode below raw) = r.paint encode (upon above below) raw := by
  funext a
  unfold paint upon
  cases r.pixelOf a with
  | none => rfl
  | some pixel =>
      dsimp only [Option.bind_some]
      cases above pixel.1 pixel.2.1 <;> rfl

theorem paint_single (encode : C → ℕ → UInt8) (h : r.Fits) (hx : x < r.width) (hy : y < r.height) (colour : C)
    (raw : Bytes) :
    (fun a ↦ if r.place x y ≤ a ∧ a < r.place x y + r.size then encode colour (a - r.place x y)
      else raw a) = r.paint encode (single x y colour) raw := by
  funext a
  by_cases hin : r.place x y ≤ a ∧ a < r.place x y + r.size
  · have ha : a = r.place x y + (a - r.place x y) := by omega
    have hindex : a - r.place x y < r.size := by omega
    rw [if_pos hin]
    conv_rhs => rw [ha, paint_place h hx hy hindex]
    unfold single
    rw [if_pos ⟨rfl, rfl⟩]
    rfl
  · rw [if_neg hin]
    unfold paint
    rcases ha : r.pixelOf a with _ | ⟨x', y', j⟩
    · rfl
    · obtain ⟨hplace, -, -, hj⟩ := place_of_pixelOf h ha
      have hother : ¬((x' : ℤ) = x ∧ (y' : ℤ) = y) := by
        rintro ⟨hx', hy'⟩
        obtain rfl : x' = x := by omega
        obtain rfl : y' = y := by omega
        omega
      dsimp only [Option.bind_some]
      unfold single
      rw [if_neg hother]
      rfl

end Raster

end OxysOS.Library
