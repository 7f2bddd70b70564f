import OxysOS.Library.Bytes
import Mathlib.Tactic.IntervalCases

/-!
# The stored fields of an EXT2 volume

Every field of more than one byte is stored with its low byte first.
-/

namespace OxysOS.Fs.Ext2

open OxysOS.Library

def ext2ReadHalf (raw : Bytes) (offset : ℕ) : UInt16 :=
  (raw offset).toUInt16 ||| ((raw (offset + 1)).toUInt16 <<< 8)

def ext2ReadWord (raw : Bytes) (offset : ℕ) : UInt32 :=
  (raw offset).toUInt32 ||| ((raw (offset + 1)).toUInt32 <<< 8) |||
    ((raw (offset + 2)).toUInt32 <<< 16) ||| ((raw (offset + 3)).toUInt32 <<< 24)

/-- `Ext2ReadText`, up to the first zero byte or the end of the field. -/
def ext2ReadText (raw : Bytes) (offset length : ℕ) : List UInt8 :=
  ((List.range length).map fun index ↦ raw (offset + index)).takeWhile (· ≠ 0)

def ext2WriteHalf (raw : Bytes) (offset : ℕ) (value : UInt16) : Bytes :=
  let raw := Function.update raw offset (value &&& 0xFF).toUInt8
  Function.update raw (offset + 1) ((value >>> 8) &&& 0xFF).toUInt8

def ext2WriteWord (raw : Bytes) (offset : ℕ) (value : UInt32) : Bytes :=
  let raw := Function.update raw offset (value &&& 0xFF).toUInt8
  let raw := Function.update raw (offset + 1) ((value >>> 8) &&& 0xFF).toUInt8
  let raw := Function.update raw (offset + 2) ((value >>> 16) &&& 0xFF).toUInt8
  Function.update raw (offset + 3) ((value >>> 24) &&& 0xFF).toUInt8

variable {raw raw' : Bytes} {offset i o : ℕ}

theorem ext2WriteHalf_of_ne (value : UInt16) (h : i < offset ∨ offset + 2 ≤ i) :
    ext2WriteHalf raw offset value i = raw i := by
  unfold ext2WriteHalf
  simp (disch := omega) only [Function.update_of_ne]

theorem ext2WriteWord_of_ne (value : UInt32) (h : i < offset ∨ offset + 4 ≤ i) :
    ext2WriteWord raw offset value i = raw i := by
  unfold ext2WriteWord
  simp (disch := omega) only [Function.update_of_ne]

theorem ext2ReadHalf_congr (h : ∀ i, offset ≤ i → i < offset + 2 → raw i = raw' i) :
    ext2ReadHalf raw offset = ext2ReadHalf raw' offset := by
  unfold ext2ReadHalf
  rw [h offset (by omega) (by omega), h (offset + 1) (by omega) (by omega)]

theorem ext2ReadWord_congr (h : ∀ i, offset ≤ i → i < offset + 4 → raw i = raw' i) :
    ext2ReadWord raw offset = ext2ReadWord raw' offset := by
  unfold ext2ReadWord
  rw [h offset (by omega) (by omega), h (offset + 1) (by omega) (by omega),
    h (offset + 2) (by omega) (by omega), h (offset + 3) (by omega) (by omega)]

theorem half_of_bytes (value : UInt16) : (value &&& 0xFF).toUInt8.toUInt16 |||
    (((value >>> 8) &&& 0xFF).toUInt8.toUInt16 <<< 8) = value := by
  apply UInt16.toBitVec_inj.mp
  ext j hj
  simp [-UInt16.toUInt16_toUInt8]
  interval_cases j <;> simp

theorem word_of_bytes (value : UInt32) : (value &&& 0xFF).toUInt8.toUInt32 |||
    (((value >>> 8) &&& 0xFF).toUInt8.toUInt32 <<< 8) |||
    (((value >>> 16) &&& 0xFF).toUInt8.toUInt32 <<< 16) |||
    (((value >>> 24) &&& 0xFF).toUInt8.toUInt32 <<< 24) = value := by
  apply UInt32.toBitVec_inj.mp
  ext j hj
  simp [-UInt32.toUInt32_toUInt8]
  interval_cases j <;> simp
@[simp] theorem ext2ReadHalf_ext2WriteHalf (raw : Bytes) (offset : ℕ) (value : UInt16) :
    ext2ReadHalf (ext2WriteHalf raw offset value) offset = value := by
  unfold ext2ReadHalf ext2WriteHalf
  simp (disch := omega) only [Function.update_of_ne, Function.update_self]
  exact half_of_bytes value

@[simp] theorem ext2ReadWord_ext2WriteWord (raw : Bytes) (offset : ℕ) (value : UInt32) :
    ext2ReadWord (ext2WriteWord raw offset value) offset = value := by
  unfold ext2ReadWord ext2WriteWord
  simp (disch := omega) only [Function.update_of_ne, Function.update_self]
  exact word_of_bytes value

theorem ext2ReadHalf_ext2WriteHalf_of_ne (value : UInt16) (h : o + 2 ≤ offset ∨ offset + 2 ≤ o) :
    ext2ReadHalf (ext2WriteHalf raw offset value) o = ext2ReadHalf raw o :=
  ext2ReadHalf_congr fun i hi hlt ↦ ext2WriteHalf_of_ne value (by omega)

theorem ext2ReadHalf_ext2WriteWord_of_ne (value : UInt32) (h : o + 2 ≤ offset ∨ offset + 4 ≤ o) :
    ext2ReadHalf (ext2WriteWord raw offset value) o = ext2ReadHalf raw o :=
  ext2ReadHalf_congr fun i hi hlt ↦ ext2WriteWord_of_ne value (by omega)

theorem ext2ReadWord_ext2WriteHalf_of_ne (value : UInt16) (h : o + 4 ≤ offset ∨ offset + 2 ≤ o) :
    ext2ReadWord (ext2WriteHalf raw offset value) o = ext2ReadWord raw o :=
  ext2ReadWord_congr fun i hi hlt ↦ ext2WriteHalf_of_ne value (by omega)

theorem ext2ReadWord_ext2WriteWord_of_ne (value : UInt32) (h : o + 4 ≤ offset ∨ offset + 4 ≤ o) :
    ext2ReadWord (ext2WriteWord raw offset value) o = ext2ReadWord raw o :=
  ext2ReadWord_congr fun i hi hlt ↦ ext2WriteWord_of_ne value (by omega)

end OxysOS.Fs.Ext2
