import Mathlib.Data.Nat.Notation
import Mathlib.Tactic.Ring

/-!
# Little-endian fields of a run of bytes

A run of bytes is a function of the offset.  A write of a field is seen by a
read of the same field, and by no read that does not overlap it.
-/

namespace OxysOS.Library

abbrev Bytes := ℕ → UInt8

variable {raw raw' source : Bytes} {offset width value i o w : ℕ}

def readField (raw : Bytes) (offset : ℕ) : ℕ → ℕ
  | 0 => 0
  | width + 1 => (raw offset).toNat + 256 * readField raw (offset + 1) width

def writeField (raw : Bytes) (offset width value : ℕ) : Bytes := fun i ↦
  if offset ≤ i ∧ i < offset + width then UInt8.ofNat (value / 256 ^ (i - offset)) else raw i

def splice (raw : Bytes) (offset length : ℕ) (source : Bytes) : Bytes := fun i ↦
  if offset ≤ i ∧ i < offset + length then source (i - offset) else raw i

theorem readField_congr (h : ∀ i, offset ≤ i → i < offset + width → raw i = raw' i) :
    readField raw offset width = readField raw' offset width := by
  induction width generalizing offset with
  | zero => rfl
  | succ width ih =>
      unfold readField
      rw [h offset le_rfl (by omega), ih fun i hi hlt ↦ h i (by omega) (by omega)]

theorem readField_lt (raw : Bytes) (offset width : ℕ) :
    readField raw offset width < 256 ^ width := by
  induction width generalizing offset with
  | zero => exact Nat.one_pos
  | succ width ih =>
      have hbyte : (raw offset).toNat < 256 := (raw offset).toNat_lt
      have hrest := ih (offset + 1)
      unfold readField
      rw [pow_succ]
      omega

theorem readField_eq_zero (h : ∀ i, offset ≤ i → i < offset + width → raw i = 0) :
    readField raw offset width = 0 := by
  induction width generalizing offset with
  | zero => rfl
  | succ width ih =>
      unfold readField
      rw [h offset le_rfl (by omega), ih fun i hi hlt ↦ h i (by omega) (by omega)]
      rfl

theorem writeField_of_lt (h : i < offset) : writeField raw offset width value i = raw i :=
  if_neg (by omega)

theorem writeField_of_le (h : offset + width ≤ i) :
    writeField raw offset width value i = raw i :=
  if_neg (by omega)

theorem readField_writeField (raw : Bytes) (offset width value : ℕ) :
    readField (writeField raw offset width value) offset width = value % 256 ^ width := by
  induction width generalizing raw offset value with
  | zero => rw [pow_zero, Nat.mod_one]; rfl
  | succ width ih =>
      have hfirst : writeField raw offset (width + 1) value offset = UInt8.ofNat value := by
        unfold writeField
        rw [if_pos (by omega), Nat.sub_self, pow_zero, Nat.div_one]
      have hrest : readField (writeField raw offset (width + 1) value) (offset + 1) width =
          readField (writeField raw (offset + 1) width (value / 256)) (offset + 1) width := by
        refine readField_congr fun i hi hlt ↦ ?_
        unfold writeField
        rw [if_pos (by omega), if_pos (by omega), Nat.div_div_eq_div_mul, ← pow_succ']
        congr 3
        omega
      have hbyte : (UInt8.ofNat value).toNat = value % 256 := UInt8.toNat_ofNat'
      have hsplit : value % 256 ^ (width + 1) = value % 256 + 256 * (value / 256 % 256 ^ width) := by
        rw [pow_succ', Nat.mod_mul]
      unfold readField
      rw [hfirst, hrest, ih, hbyte, hsplit]

theorem readField_writeField_of_lt (h : value < 256 ^ width) :
    readField (writeField raw offset width value) offset width = value := by
  rw [readField_writeField, Nat.mod_eq_of_lt h]

theorem readField_writeField_of_disjoint (h : o + w ≤ offset ∨ offset + width ≤ o) :
    readField (writeField raw offset width value) o w = readField raw o w := by
  refine readField_congr fun i hi hlt ↦ ?_
  rcases h with h | h
  · exact writeField_of_lt (by omega)
  · exact writeField_of_le (by omega)

def writeFields (raw : Bytes) (offset width : ℕ) : List ℕ → Bytes
  | [] => raw
  | value :: values => writeFields (writeField raw offset width value) (offset + width) width values

theorem readField_writeFields_of_disjoint {values : List ℕ}
    (h : o + w ≤ offset ∨ offset + width * values.length ≤ o) :
    readField (writeFields raw offset width values) o w = readField raw o w := by
  induction values generalizing raw offset with
  | nil => rfl
  | cons value values ih =>
      rw [List.length_cons, Nat.mul_succ] at h
      unfold writeFields
      rw [ih (by omega), readField_writeField_of_disjoint (by omega)]

theorem readField_writeFields {values : List ℕ} {index : ℕ} (hindex : index < values.length)
    (hvalues : ∀ value ∈ values, value < 256 ^ width) :
    readField (writeFields raw offset width values) (offset + width * index) width =
      values[index] := by
  induction values generalizing raw offset index with
  | nil => exact absurd hindex (Nat.not_lt_zero index)
  | cons value values ih =>
      unfold writeFields
      cases index with
      | zero =>
          rw [Nat.mul_zero, Nat.add_zero, readField_writeFields_of_disjoint (Or.inl le_rfl)]
          exact readField_writeField_of_lt (hvalues value List.mem_cons_self)
      | succ index =>
          rw [Nat.mul_succ, Nat.add_comm (width * index), ← Nat.add_assoc]
          exact ih (Nat.lt_of_succ_lt_succ hindex) fun other hother ↦
            hvalues other (List.mem_cons_of_mem value hother)

theorem splice_of_mem (h : offset ≤ i) (h' : i < offset + w) :
    splice raw offset w source i = source (i - offset) :=
  if_pos ⟨h, h'⟩

theorem splice_of_lt (h : i < offset) : splice raw offset w source i = raw i :=
  if_neg (by omega)

theorem splice_of_le (h : offset + w ≤ i) : splice raw offset w source i = raw i :=
  if_neg (by omega)

def byteOf (character : Char) : UInt8 := UInt8.ofNat character.toNat

def slice (raw : Bytes) (offset count : ℕ) : List UInt8 :=
  (List.range count).map fun i ↦ raw (offset + i)

@[simp] theorem length_slice (raw : Bytes) (offset count : ℕ) :
    (slice raw offset count).length = count := by
  unfold slice
  rw [List.length_map, List.length_range]

theorem getD_slice (raw : Bytes) (offset : ℕ) {count i : ℕ} (hi : i < count) :
    (slice raw offset count).getD i 0 = raw (offset + i) := by
  unfold slice
  rw [List.getD_eq_getElem?_getD, List.getElem?_map, List.getElem?_range hi]
  rfl

@[simp] theorem slice_zero (raw : Bytes) (offset : ℕ) : slice raw offset 0 = [] := rfl

theorem slice_add (raw : Bytes) (offset first second : ℕ) :
    slice raw offset (first + second) =
      slice raw offset first ++ slice raw (offset + first) second := by
  unfold slice
  rw [List.range_add, List.map_append, List.map_map]
  congr 2
  funext i
  exact congrArg raw (Nat.add_assoc offset first i).symm

theorem slice_succ (raw : Bytes) (offset count : ℕ) :
    slice raw offset (count + 1) = slice raw offset count ++ [raw (offset + count)] :=
  slice_add raw offset count 1

theorem slice_congr {count : ℕ} (h : ∀ i, offset ≤ i → i < offset + count → raw i = raw' i) :
    slice raw offset count = slice raw' offset count := by
  unfold slice
  apply List.map_congr_left
  intro i hi
  exact h (offset + i) (Nat.le_add_right ..) (Nat.add_lt_add_left (List.mem_range.mp hi) _)

theorem slice_splice (raw : Bytes) (offset count : ℕ) (bytes : List UInt8)
    (hcount : bytes.length = count) :
    slice (splice raw offset count fun i ↦ bytes.getD i 0) offset count = bytes := by
  subst hcount
  unfold slice
  apply List.ext_getElem
  · rw [List.length_map, List.length_range]
  · intro i hi hi'
    rw [List.getElem_map, List.getElem_range, splice_of_mem (Nat.le_add_right ..)
      (Nat.add_lt_add_left hi' _), Nat.add_sub_cancel_left, List.getD_eq_getElem?_getD,
      List.getElem?_eq_getElem hi', Option.getD_some]

theorem readField_splice_of_disjoint (h : o + width ≤ offset ∨ offset + w ≤ o) :
    readField (splice raw offset w source) o width = readField raw o width := by
  refine readField_congr fun i hi hlt ↦ ?_
  rcases h with h | h
  · exact splice_of_lt (by omega)
  · exact splice_of_le (by omega)

end OxysOS.Library
