import OxysOS.Fs.Ext2.Superblock

/-!
# The bytes of a volume

A volume is upon a device that never fails, and is read and written through whole blocks of
the device.  A run of bytes within one block of the volume is read and written in place.
-/

namespace OxysOS.Fs.Ext2

open OxysOS.Library

structure SteadyDevice where
  blockSize : UInt32
  blockCount : UInt64
  blockSize_pos : 0 < blockSize.toNat

/-- What `BufferGet` finds in a block of the device. -/
def bufferData (device : SteadyDevice) (disk : Bytes) (block : ℕ) : Bytes := fun index ↦
  disk (block * device.blockSize.toNat + index)

def bufferPut (device : SteadyDevice) (disk : Bytes) (block : ℕ) (data : Bytes) : Bytes :=
  splice disk (block * device.blockSize.toNat) device.blockSize.toNat data

def SteadyDevice.medium (device : SteadyDevice) (disk : Bytes) : BlockMedium where
  blockSize := device.blockSize
  blockCount := device.blockCount
  block block := some (bufferData device disk block.toNat)

def bufferTake (device : SteadyDevice) (position length : ℕ) : ℕ :=
  let take := device.blockSize.toNat - position % device.blockSize.toNat
  if take > length then length else take

theorem bufferTake_le (device : SteadyDevice) (position length : ℕ) :
    bufferTake device position length ≤ length := by
  unfold bufferTake
  dsimp only
  split_ifs with hover
  · exact Nat.le_refl _
  · exact Nat.not_lt.mp hover

theorem bufferTake_pos (device : SteadyDevice) (position : ℕ) {length : ℕ} (h : 0 < length) :
    0 < bufferTake device position length := by
  have hwithin := Nat.mod_lt position device.blockSize_pos
  unfold bufferTake
  dsimp only
  split_ifs <;> omega

theorem bufferTake_within (device : SteadyDevice) (position length : ℕ) :
    position % device.blockSize.toNat + bufferTake device position length ≤
      device.blockSize.toNat := by
  have hwithin := Nat.mod_lt position device.blockSize_pos
  unfold bufferTake
  dsimp only
  split_ifs <;> omega

/-- The loop of `Ext2ReadBytes`, of whose destination some bytes have been filled. -/
def readFrom (device : SteadyDevice) (disk : Bytes) (position length : ℕ) (destination : Bytes)
    (filled : ℕ) : Bytes :=
  if hmore : 0 < length then
    let within := position % device.blockSize.toNat
    let take := bufferTake device position length
    let data := bufferData device disk (position / device.blockSize.toNat)
    have := bufferTake_pos device position hmore
    readFrom device disk (position + take) (length - take)
      (splice destination filled take fun index ↦ data (within + index)) (filled + take)
  else destination
termination_by length
decreasing_by omega

def ext2ReadBytes (device : SteadyDevice) (disk : Bytes) (volume : Superblock)
    (block offset length : UInt32) : Except String Bytes :=
  if block ≥ volume.blockCount then .error "a read was attempted beyond the end of the volume"
  else if offset > volume.blockSize ∨ length > volume.blockSize - offset then
    .error "a read was attempted beyond the end of a block"
  else .ok (readFrom device disk (block.toNat * volume.blockSize.toNat + offset.toNat)
    length.toNat (fun _ ↦ 0) 0)

/-- The loop of `Ext2WriteBytes`, of whose source some bytes have been written. -/
def writeFrom (device : SteadyDevice) (disk : Bytes) (position length : ℕ) (source : Bytes)
    (written : ℕ) : Bytes :=
  if hmore : 0 < length then
    let within := position % device.blockSize.toNat
    let put := bufferTake device position length
    let block := position / device.blockSize.toNat
    let data := splice (bufferData device disk block) within put fun index ↦
      source (written + index)
    have := bufferTake_pos device position hmore
    writeFrom device (bufferPut device disk block data) (position + put) (length - put) source
      (written + put)
  else disk
termination_by length
decreasing_by omega

def ext2WriteBytes (device : SteadyDevice) (disk : Bytes) (volume : Superblock)
    (block offset length : UInt32) (source : Bytes) : Except String Bytes :=
  if block ≥ volume.blockCount then .error "a write was attempted beyond the end of the volume"
  else if offset > volume.blockSize ∨ length > volume.blockSize - offset then
    .error "a write was attempted beyond the end of a block"
  else .ok (writeFrom device disk (block.toNat * volume.blockSize.toNat + offset.toNat)
    length.toNat source 0)

variable {device : SteadyDevice} {volume : Superblock} {block offset length : UInt32}

theorem readFrom_eq (device : SteadyDevice) (disk : Bytes) (position length : ℕ)
    (destination : Bytes) (filled : ℕ) :
    readFrom device disk position length destination filled =
      splice destination filled length fun index ↦ disk (position + index) := by
  induction length using Nat.strong_induction_on generalizing position destination filled with
  | _ length ih =>
      rw [readFrom]
      by_cases hmore : 0 < length
      · have htake := bufferTake_pos device position hmore
        have hless := bufferTake_le device position length
        rw [dif_pos hmore, ih _ (by omega)]
        generalize bufferTake device position length = take at *
        funext index
        unfold splice bufferData
        have hdivided := Nat.div_add_mod' position device.blockSize.toNat
        by_cases hbefore : filled ≤ index ∧ index < filled + take
        · rw [if_neg (by omega), if_pos hbefore, if_pos (by omega)]
          exact congrArg disk (by omega)
        · rw [if_neg hbefore]
          by_cases hafter : filled + take ≤ index ∧ index < filled + take + (length - take)
          · rw [if_pos hafter, if_pos (by omega)]
            exact congrArg disk (by omega)
          · rw [if_neg hafter, if_neg (by omega)]
      · rw [dif_neg hmore]
        funext index
        exact (if_neg (by omega)).symm

theorem writeFrom_eq (device : SteadyDevice) (disk : Bytes) (position length : ℕ)
    (source : Bytes) (written : ℕ) :
    writeFrom device disk position length source written =
      splice disk position length fun index ↦ source (written + index) := by
  induction length using Nat.strong_induction_on generalizing disk position written with
  | _ length ih =>
      rw [writeFrom]
      by_cases hmore : 0 < length
      · have htake := bufferTake_pos device position hmore
        have hless := bufferTake_le device position length
        have hwithin := bufferTake_within device position length
        have hdivided := Nat.div_add_mod' position device.blockSize.toNat
        rw [dif_pos hmore, ih _ (by omega)]
        generalize bufferTake device position length = take at *
        funext index
        unfold bufferPut splice bufferData
        by_cases hrest : position + take ≤ index ∧ index < position + take + (length - take)
        · rw [if_pos hrest, if_pos (by omega)]
          exact congrArg source (by omega)
        · rw [if_neg hrest]
          by_cases hhere : position ≤ index ∧ index < position + take
          · rw [if_pos (by omega), if_pos (by omega), if_pos (by omega)]
            exact congrArg source (by omega)
          · rw [if_neg (c := position ≤ index ∧ index < position + length) (by omega)]
            split_ifs with hblock hput
            · omega
            · exact congrArg disk (by omega)
            · rfl
      · rw [dif_neg hmore]
        funext index
        exact (if_neg (by omega)).symm

theorem ext2ReadBytes_ok (device : SteadyDevice) (disk : Bytes) (hblock : block < volume.blockCount)
    (hoffset : offset.toNat + length.toNat ≤ volume.blockSize.toNat) :
    ext2ReadBytes device disk volume block offset length = .ok (splice (fun _ ↦ 0) 0 length.toNat
      fun index ↦ disk (block.toNat * volume.blockSize.toNat + offset.toNat + index)) := by
  have hbegin : offset ≤ volume.blockSize := UInt32.le_iff_toNat_le.mpr (by omega)
  have hroom : length ≤ volume.blockSize - offset := by
    rw [UInt32.le_iff_toNat_le, UInt32.toNat_sub_of_le _ _ hbegin]
    omega
  unfold ext2ReadBytes
  rw [if_neg (UInt32.not_le.mpr hblock), if_neg, readFrom_eq]
  exact not_or.mpr ⟨UInt32.not_lt.mpr hbegin, UInt32.not_lt.mpr hroom⟩

theorem within_of_ext2ReadBytes {disk raw : Bytes}
    (h : ext2ReadBytes device disk volume block offset length = .ok raw) :
    block < volume.blockCount ∧ offset.toNat + length.toNat ≤ volume.blockSize.toNat := by
  unfold ext2ReadBytes at h
  by_cases hblock : block ≥ volume.blockCount
  · rw [if_pos hblock] at h
    cases h
  by_cases hover : offset > volume.blockSize ∨ length > volume.blockSize - offset
  · rw [if_neg hblock, if_pos hover] at h
    cases h
  · obtain ⟨hbegin, hroom⟩ := not_or.mp hover
    have hbegin := UInt32.not_lt.mp hbegin
    have hroom := UInt32.le_iff_toNat_le.mp (UInt32.not_lt.mp hroom)
    have hnat := UInt32.le_iff_toNat_le.mp hbegin
    rw [UInt32.toNat_sub_of_le _ _ hbegin] at hroom
    exact ⟨UInt32.not_le.mp hblock, by omega⟩

theorem ext2WriteBytes_ok (device : SteadyDevice) (disk : Bytes)
    (hblock : block < volume.blockCount)
    (hoffset : offset.toNat + length.toNat ≤ volume.blockSize.toNat) (source : Bytes) :
    ext2WriteBytes device disk volume block offset length source = .ok (splice disk
      (block.toNat * volume.blockSize.toNat + offset.toNat) length.toNat source) := by
  have hbegin : offset ≤ volume.blockSize := UInt32.le_iff_toNat_le.mpr (by omega)
  have hroom : length ≤ volume.blockSize - offset := by
    rw [UInt32.le_iff_toNat_le, UInt32.toNat_sub_of_le _ _ hbegin]
    omega
  unfold ext2WriteBytes
  rw [if_neg (UInt32.not_le.mpr hblock), if_neg, writeFrom_eq]
  · simp only [Nat.zero_add]
  · exact not_or.mpr ⟨UInt32.not_lt.mpr hbegin, UInt32.not_lt.mpr hroom⟩

def blockBytes (volume : Superblock) (disk : Bytes) (block : UInt32) : Bytes := fun i ↦
  disk (block.toNat * volume.blockSize.toNat + i)

theorem blockBytes_splice (volume : Superblock) (disk : Bytes) (block : UInt32) (offset length : ℕ)
    (source : Bytes) :
    blockBytes volume (splice disk (block.toNat * volume.blockSize.toNat + offset) length source)
      block = splice (blockBytes volume disk block) offset length source := by
  funext i
  unfold blockBytes splice
  simp only [Nat.add_assoc, Nat.add_le_add_iff_left, Nat.add_lt_add_iff_left, Nat.add_sub_add_left]

theorem blockBytes_splice_of_ne {other : UInt32} (hne : other ≠ block) {offset length i : ℕ}
    (hwithin : offset + length ≤ volume.blockSize.toNat) (hi : i < volume.blockSize.toNat)
    (disk source : Bytes) :
    blockBytes volume (splice disk (block.toNat * volume.blockSize.toNat + offset) length source)
      other i = blockBytes volume disk other i := by
  unfold blockBytes
  rcases Nat.lt_or_gt_of_ne fun heq ↦ hne (UInt32.toNat_inj.mp heq) with hlt | hlt
  · have hbefore := Nat.mul_le_mul_right volume.blockSize.toNat (Nat.succ_le_of_lt hlt)
    rw [Nat.succ_mul] at hbefore
    exact splice_of_lt (by omega)
  · have hafter := Nat.mul_le_mul_right volume.blockSize.toNat (Nat.succ_le_of_lt hlt)
    rw [Nat.succ_mul] at hafter
    exact splice_of_le (by omega)

theorem ext2ReadBytes_eq (device : SteadyDevice) (disk : Bytes) (hblock : block < volume.blockCount)
    (hoffset : offset.toNat + length.toNat ≤ volume.blockSize.toNat) :
    ext2ReadBytes device disk volume block offset length = .ok (splice (fun _ ↦ 0) 0 length.toNat
      fun i ↦ blockBytes volume disk block (offset.toNat + i)) := by
  rw [ext2ReadBytes_ok device disk hblock hoffset]
  unfold blockBytes
  simp only [Nat.add_assoc]

theorem read_apply (source : Bytes) {length i : ℕ} (h : i < length) :
    splice (fun _ ↦ 0) 0 length source i = source i :=
  splice_of_mem (Nat.zero_le i) (by omega)

end OxysOS.Fs.Ext2
