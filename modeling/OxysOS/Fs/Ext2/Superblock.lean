import OxysOS.Fs.Ext2.Fields
import OxysOS.Library.Noted

/-!
# Reading the superblock

An image of the superblock is decoded, and refused where its fields contradict one another.
-/

namespace OxysOS.Fs.Ext2

open OxysOS.Library Exactly

structure BlockMedium where
  blockSize : UInt32
  blockCount : UInt64
  block : UInt64 → Option Bytes

def ext2SuperblockOffset : UInt32 := 1024

def ext2SuperblockSize : UInt32 := 1024

def ext2SuperMagic : UInt16 := 0xEF53

def ext2GoodOldRev : UInt32 := 0

def ext2DynamicRev : UInt32 := 1

def ext2GoodOldInodeSize : UInt16 := 128

def ext2GoodOldFirstInode : UInt32 := 11

def ext2ValidFs : UInt16 := 1

def ext2MaximumLogBlockSize : UInt32 := 2

def ext2FeatureIncompatFiletype : UInt32 := 2

def ext2FeaturesIncompatSupported : UInt32 := ext2FeatureIncompatFiletype

def ext2FeaturesRoCompatSupported : UInt32 := 1 ||| 2

/-- `Ext2Superblock` -/
structure Superblock where
  inodeCount : UInt32
  blockCount : UInt32
  reservedBlockCount : UInt32
  freeBlockCount : UInt32
  freeInodeCount : UInt32
  firstDataBlock : UInt32
  blockSize : UInt32
  fragmentSize : UInt32
  blocksPerGroup : UInt32
  fragmentsPerGroup : UInt32
  inodesPerGroup : UInt32
  mountTime : UInt32
  writeTime : UInt32
  mountCount : UInt16
  maximumMountCount : UInt16
  magic : UInt16
  state : UInt16
  errors : UInt16
  minorRevision : UInt16
  lastCheck : UInt32
  checkInterval : UInt32
  creatorOs : UInt32
  revision : UInt32
  defaultUid : UInt16
  defaultGid : UInt16
  firstInode : UInt32
  inodeSize : UInt16
  blockGroupNumber : UInt16
  featureCompatible : UInt32
  featureIncompatible : UInt32
  featureReadOnly : UInt32
  uuid : List UInt8
  volumeName : List UInt8
  lastMounted : List UInt8
  groupCount : UInt32
  sectorsPerBlock : UInt32
  readOnly : Bool

def ext2ReadSuperblockBytes (device : BlockMedium) : Option Bytes :=
  let first := (ext2SuperblockOffset / device.blockSize).toUInt64
  let count := ext2SuperblockSize / device.blockSize
  (List.range count.toNat).foldlM (fun raw index ↦ do
    let data ← device.block (first + UInt64.ofNat index)
    return splice raw (index * device.blockSize.toNat) device.blockSize.toNat data) fun _ ↦ 0

def ext2DivideRoundingUp (quantity divisor : UInt32) : UInt32 :=
  (quantity + (divisor - 1)) / divisor

/-- `Ext2DivideRoundingUp`, with whether its sum is exact. -/
def divideRoundingUp (quantity divisor : UInt32) : Exactly String UInt32 := do
  let less ← sub divisor 1
  let sum ← add quantity less
  return sum / divisor

/-- What `Ext2ReadSuperblock` makes of the bytes it has read. -/
def ext2ParseSuperblock (device : BlockMedium) (raw : Bytes) : Exactly String Superblock := do
  let magic := ext2ReadHalf raw 56
  refuseIf (magic ≠ ext2SuperMagic) "the volume bears no EXT2 magic number"
  let revision := ext2ReadWord raw 76
  refuseIf (revision > ext2DynamicRev) "the volume is of a revision this kernel does not know"
  let inodeCount := ext2ReadWord raw 0
  let blockCount := ext2ReadWord raw 4
  let freeBlockCount := ext2ReadWord raw 12
  let freeInodeCount := ext2ReadWord raw 16
  let firstDataBlock := ext2ReadWord raw 20
  let logBlockSize := ext2ReadWord raw 24
  let blocksPerGroup := ext2ReadWord raw 32
  let inodesPerGroup := ext2ReadWord raw 40
  let state := ext2ReadHalf raw 58
  refuseIf (logBlockSize > ext2MaximumLogBlockSize)
    "the volume's block size is beyond this kernel"
  let blockSize ← shiftLeft 1024 logBlockSize
  let fragmentSize ← shiftLeft 1024 (ext2ReadWord raw 28)
  refuseIf (blockSize < device.blockSize) "the volume's blocks are smaller than the device's"
  refuseIf (firstDataBlock ≠ if blockSize = 1024 then 1 else 0)
    "the first data block contradicts the block size"
  refuseIf (blockCount = 0 ∨ inodeCount = 0 ∨ blocksPerGroup = 0 ∨ inodesPerGroup = 0)
    "the volume's geometry is degenerate"
  refuseIf (firstDataBlock ≥ blockCount) "the first data block lies beyond the volume"
  let blockBits ← mul blockSize 8
  refuseIf (blocksPerGroup > blockBits) "a group holds more blocks than its bitmap can record"
  let inodeBits ← mul blockSize 8
  refuseIf (inodesPerGroup > inodeBits) "a group holds more inodes than its bitmap can record"
  refuseIf (freeBlockCount > blockCount ∨ freeInodeCount > inodeCount)
    "the volume reports more free than it holds"
  let old := revision = ext2GoodOldRev
  let firstInode := if old then ext2GoodOldFirstInode else ext2ReadWord raw 84
  let inodeSize := if old then ext2GoodOldInodeSize else ext2ReadHalf raw 88
  let featureIncompatible := if old then 0 else ext2ReadWord raw 96
  let featureReadOnly := if old then 0 else ext2ReadWord raw 100
  refuseIf (inodeSize < ext2GoodOldInodeSize ∨ inodeSize.toUInt32 > blockSize)
    "the inode size is not a power of two within a block"
  let lessSize ← sub inodeSize.toUInt32 1
  refuseIf (inodeSize.toUInt32 &&& lessSize ≠ 0)
    "the inode size is not a power of two within a block"
  refuseIf (firstInode < ext2GoodOldFirstInode ∨ firstInode > inodeCount)
    "the first usable inode is outside the volume"
  let blocks ← sub blockCount firstDataBlock
  let groupsByBlock ← divideRoundingUp blocks blocksPerGroup
  let groupsByInode ← divideRoundingUp inodeCount inodesPerGroup
  refuseIf (groupsByBlock ≠ groupsByInode)
    "the block count and the inode count imply different group counts"
  refuseIf (featureIncompatible &&& ~~~ext2FeaturesIncompatSupported ≠ 0)
    "the volume requires a feature this kernel does not implement"
  return {
    inodeCount, blockCount, freeBlockCount, freeInodeCount, firstDataBlock, blockSize
    fragmentSize, blocksPerGroup, inodesPerGroup, magic, state, revision, firstInode, inodeSize
    featureIncompatible, featureReadOnly
    reservedBlockCount := ext2ReadWord raw 8
    fragmentsPerGroup := ext2ReadWord raw 36
    mountTime := ext2ReadWord raw 44
    writeTime := ext2ReadWord raw 48
    mountCount := ext2ReadHalf raw 52
    maximumMountCount := ext2ReadHalf raw 54
    errors := ext2ReadHalf raw 60
    minorRevision := ext2ReadHalf raw 62
    lastCheck := ext2ReadWord raw 64
    checkInterval := ext2ReadWord raw 68
    creatorOs := ext2ReadWord raw 72
    defaultUid := ext2ReadHalf raw 80
    defaultGid := ext2ReadHalf raw 82
    blockGroupNumber := if old then 0 else ext2ReadHalf raw 90
    featureCompatible := if old then 0 else ext2ReadWord raw 92
    uuid := if old then List.replicate 16 0 else (List.range 16).map fun index ↦ raw (104 + index)
    volumeName := if old then [] else ext2ReadText raw 120 16
    lastMounted := if old then [] else ext2ReadText raw 136 64
    groupCount := groupsByBlock
    sectorsPerBlock := blockSize / device.blockSize
    readOnly := featureReadOnly &&& ~~~ext2FeaturesRoCompatSupported ≠ 0 ∨ state ≠ ext2ValidFs }

def ext2ReadSuperblock (device : BlockMedium) : Exactly String Superblock := do
  refuseIf (device.blockSize = 0 ∨ ext2SuperblockOffset % device.blockSize ≠ 0 ∨
    ext2SuperblockSize % device.blockSize ≠ 0) "the device's blocks do not divide the superblock"
  refuseIf (device.blockCount <
      ((ext2SuperblockOffset + ext2SuperblockSize) / device.blockSize).toUInt64)
    "the device is too short to hold a superblock"
  match ext2ReadSuperblockBytes device with
  | none => throw "the superblock could not be read from the device"
  | some raw => ext2ParseSuperblock device raw

def ext2BlockExists (volume : Superblock) (block : UInt32) : Prop :=
  block ≥ volume.firstDataBlock ∧ block < volume.blockCount

def ext2GroupFirstBlock (volume : Superblock) (group : UInt32) : UInt32 :=
  volume.firstDataBlock + group * volume.blocksPerGroup

def ext2GroupBlockCount (volume : Superblock) (group : UInt32) : UInt32 :=
  let first := ext2GroupFirstBlock volume group
  let remaining := volume.blockCount - first
  if remaining < volume.blocksPerGroup then remaining else volume.blocksPerGroup

/-- What a superblock is known to be when it has been accepted. -/
structure Superblock.Accepted (raw : Bytes) (volume : Superblock) : Prop where
  fields : volume.inodeCount = ext2ReadWord raw 0 ∧ volume.blockCount = ext2ReadWord raw 4 ∧
    volume.firstDataBlock = ext2ReadWord raw 20 ∧ volume.blocksPerGroup = ext2ReadWord raw 32 ∧
      volume.inodesPerGroup = ext2ReadWord raw 40
  blockSize : volume.blockSize = 1024 ∨ volume.blockSize = 2048 ∨ volume.blockSize = 4096
  firstDataBlock : volume.firstDataBlock = if volume.blockSize = 1024 then 1 else 0
  blockCount : volume.firstDataBlock < volume.blockCount
  blocksPerGroup : 0 < volume.blocksPerGroup ∧ volume.blocksPerGroup ≤ volume.blockSize * 8
  inodesPerGroup : 0 < volume.inodesPerGroup ∧ volume.inodesPerGroup ≤ volume.blockSize * 8
  free : volume.freeBlockCount ≤ volume.blockCount ∧ volume.freeInodeCount ≤ volume.inodeCount
  inodeSize : 128 ≤ volume.inodeSize ∧ volume.inodeSize.toUInt32 ≤ volume.blockSize
  firstInode : 11 ≤ volume.firstInode ∧ volume.firstInode ≤ volume.inodeCount
  groupsByBlock : volume.groupCount =
    ext2DivideRoundingUp (volume.blockCount - volume.firstDataBlock) volume.blocksPerGroup
  groupsByInode : volume.groupCount =
    ext2DivideRoundingUp volume.inodeCount volume.inodesPerGroup

theorem outcome_divideRoundingUp_bind {quantity divisor : UInt32} (hdivisor : 1 ≤ divisor)
    {β : Type} (next : UInt32 → Exactly String β) (before : Bool) :
    Action.outcome (divideRoundingUp quantity divisor >>= next) before =
      Action.outcome (next (ext2DivideRoundingUp quantity divisor))
        (before && quantity.toNat + (divisor - 1).toNat < 2 ^ 32) := by
  unfold divideRoundingUp sub add
  rw [bind_assoc, outcome_note_bind, bind_assoc, outcome_note_bind, decide_eq_true hdivisor,
    Bool.and_true]
  rfl

structure ExactImage (raw : Bytes) : Prop where
  fragment : ext2ReadWord raw 28 < 22
  blocks : (ext2ReadWord raw 4).toNat - (ext2ReadWord raw 20).toNat +
    ((ext2ReadWord raw 32).toNat - 1) < 2 ^ 32
  inodes : (ext2ReadWord raw 0).toNat + ((ext2ReadWord raw 40).toNat - 1) < 2 ^ 32

theorem blockSize_cases {log : UInt32} (h : ¬log > ext2MaximumLogBlockSize) :
    log = 0 ∨ log = 1 ∨ log = 2 := by
  have hnat := UInt32.le_iff_toNat_le.mp (UInt32.not_lt.mp h)
  have htwo : ext2MaximumLogBlockSize.toNat = 2 := rfl
  rw [← UInt32.toNat_inj, ← UInt32.toNat_inj, ← UInt32.toNat_inj]
  change log.toNat = 0 ∨ log.toNat = 1 ∨ log.toNat = 2
  omega

theorem shiftLeft_blockSize {log : UInt32} (h : ¬log > ext2MaximumLogBlockSize) :
    (log < 32 ∧ (1024 : UInt32).toNat * 2 ^ log.toNat < 2 ^ 32) ∧
      ((1024 : UInt32) <<< log = 1024 ∨ (1024 : UInt32) <<< log = 2048 ∨
        (1024 : UInt32) <<< log = 4096) := by
  rcases blockSize_cases h with rfl | rfl | rfl <;> decide

theorem shiftLeft_fragmentSize (log : UInt32) :
    (log < 32 ∧ (1024 : UInt32).toNat * 2 ^ log.toNat < 2 ^ 32) ↔ log < 22 := by
  rw [UInt32.lt_iff_toNat_lt, UInt32.lt_iff_toNat_lt]
  change log.toNat < 32 ∧ 2 ^ 10 * 2 ^ log.toNat < 2 ^ 32 ↔ log.toNat < 22
  rw [← Nat.pow_add, Nat.pow_lt_pow_iff_right (by decide)]
  omega

theorem one_le_of_ne_zero {word : UInt32} (h : word ≠ 0) : 1 ≤ word := by
  rw [UInt32.le_iff_toNat_le]
  exact Nat.pos_of_ne_zero fun hzero ↦ h (UInt32.toNat_inj.mp hzero)

theorem toNat_sub_one {word : UInt32} (h : word ≠ 0) : (word - 1).toNat = word.toNat - 1 :=
  UInt32.toNat_sub_of_le _ _ (one_le_of_ne_zero h)

theorem one_le_inodeSize {size : UInt16} (h : ¬size < ext2GoodOldInodeSize) :
    1 ≤ size.toUInt32 := by
  have hnat := UInt16.le_iff_toNat_le.mp (UInt16.not_lt.mp h)
  rw [UInt32.le_iff_toNat_le, UInt16.toNat_toUInt32]
  exact Nat.le_trans (by decide) hnat

theorem accepted_of_parse {device : BlockMedium} {raw : Bytes} {volume : Superblock}
    {before after : Bool}
    (h : Action.outcome (ext2ParseSuperblock device raw) before = (.ok volume, after)) :
    volume.Accepted raw ∧ (after = true ↔ before = true ∧ ExactImage raw) := by
  unfold ext2ParseSuperblock at h
  obtain ⟨hmagic, h⟩ := of_refuseIf h
  obtain ⟨hrevision, h⟩ := of_refuseIf h
  obtain ⟨hlog, h⟩ := of_refuseIf h
  obtain ⟨hexact, hblockSize⟩ := shiftLeft_blockSize hlog
  replace h := of_note hexact h
  unfold shiftLeft at h
  rw [outcome_note_bind] at h
  generalize (1024 : UInt32) <<< ext2ReadWord raw 24 = blockSize at h hblockSize
  have hbits : blockSize.toNat * (8 : UInt32).toNat < 2 ^ 32 := by
    rcases hblockSize with rfl | rfl | rfl <;> decide
  obtain ⟨hdevice, h⟩ := of_refuseIf h
  obtain ⟨hfirst, h⟩ := of_refuseIf h
  obtain ⟨hzero, h⟩ := of_refuseIf h
  obtain ⟨hcount, h⟩ := of_refuseIf h
  replace h := of_note hbits h
  obtain ⟨hblocks, h⟩ := of_refuseIf h
  replace h := of_note hbits h
  obtain ⟨hinodes, h⟩ := of_refuseIf h
  obtain ⟨hfree, h⟩ := of_refuseIf h
  obtain ⟨hsize, h⟩ := of_refuseIf h
  rw [not_or, not_or, not_or] at hzero
  rw [not_or] at hsize
  replace h := of_note (one_le_inodeSize hsize.1) h
  obtain ⟨hpower, h⟩ := of_refuseIf h
  obtain ⟨hinode, h⟩ := of_refuseIf h
  replace h := of_note (UInt32.le_of_lt (UInt32.not_le.mp hcount)) h
  rw [outcome_divideRoundingUp_bind (one_le_of_ne_zero hzero.2.2.1),
    outcome_divideRoundingUp_bind (one_le_of_ne_zero hzero.2.2.2)] at h
  obtain ⟨hgroups, h⟩ := of_refuseIf h
  obtain ⟨hfeatures, h⟩ := of_refuseIf h
  obtain ⟨hvolume, hafter⟩ := Prod.mk.inj h
  cases hvolume
  rw [not_or] at hfree hinode
  refine ⟨⟨⟨rfl, rfl, rfl, rfl, rfl⟩, hblockSize, not_not.mp hfirst, UInt32.not_le.mp hcount,
    ⟨UInt32.pos_iff_ne_zero.mpr hzero.2.2.1, UInt32.not_lt.mp hblocks⟩,
    ⟨UInt32.pos_iff_ne_zero.mpr hzero.2.2.2, UInt32.not_lt.mp hinodes⟩,
    ⟨UInt32.not_lt.mp hfree.1, UInt32.not_lt.mp hfree.2⟩,
    ⟨UInt16.not_lt.mp hsize.1, UInt32.not_lt.mp hsize.2⟩,
    ⟨UInt32.not_lt.mp hinode.1, UInt32.not_lt.mp hinode.2⟩, rfl, not_not.mp hgroups⟩, ?_⟩
  have hless : (ext2ReadWord raw 4 - ext2ReadWord raw 20).toNat =
      (ext2ReadWord raw 4).toNat - (ext2ReadWord raw 20).toNat :=
    UInt32.toNat_sub_of_le _ _ (UInt32.le_of_lt (UInt32.not_le.mp hcount))
  rw [← hafter, hless, toNat_sub_one hzero.2.2.1, toNat_sub_one hzero.2.2.2]
  simp only [Bool.and_eq_true, decide_eq_true_eq, shiftLeft_fragmentSize]
  constructor
  · rintro ⟨⟨⟨hbefore, hfragment⟩, hsum⟩, hsum'⟩
    exact ⟨hbefore, hfragment, hsum, hsum'⟩
  · rintro ⟨hbefore, hfragment, hsum, hsum'⟩
    exact ⟨⟨⟨hbefore, hfragment⟩, hsum⟩, hsum'⟩

end OxysOS.Fs.Ext2
