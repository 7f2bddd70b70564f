import OxysOS.Fs.Ext2.Superblock
import Mathlib.Algebra.Order.Floor.Div

/-!
# The geometry of an accepted superblock

The volume's blocks and inodes are in groups, and every group is counted exactly where the
sums that are rounded up, and the size of a fragment, are less than a word.
-/

namespace OxysOS.Fs.Ext2

open OxysOS.Library Exactly

/-- Every block and every inode of a volume is in one of its groups. -/
structure SoundGeometry (volume : Superblock) : Prop where
  groupCount : volume.groupCount.toNat =
    (volume.blockCount.toNat - volume.firstDataBlock.toNat) ⌈/⌉ volume.blocksPerGroup.toNat
  blocks : ∀ block, ext2BlockExists volume block →
    (block - volume.firstDataBlock) / volume.blocksPerGroup < volume.groupCount ∧
      (block - volume.firstDataBlock) % volume.blocksPerGroup < ext2GroupBlockCount volume
        ((block - volume.firstDataBlock) / volume.blocksPerGroup)
  inodes : ∀ number, 1 ≤ number → number ≤ volume.inodeCount →
    (number - 1) / volume.inodesPerGroup < volume.groupCount

theorem div_lt_roundedUp {n quantity divisor : ℕ} (hdivisor : 0 < divisor) (h : n < quantity) :
    n / divisor < (quantity + (divisor - 1)) / divisor := by
  have hless := Nat.div_mul_le_self n divisor
  refine (Nat.le_div_iff_mul_le hdivisor).mpr ?_
  rw [Nat.succ_mul]
  omega

theorem toNat_roundedUp {quantity divisor : UInt32} (hdivisor : divisor ≠ 0)
    (h : quantity.toNat + (divisor.toNat - 1) < 2 ^ 32) :
    (ext2DivideRoundingUp quantity divisor).toNat =
      (quantity.toNat + (divisor.toNat - 1)) / divisor.toNat := by
  unfold ext2DivideRoundingUp
  rw [UInt32.toNat_div, UInt32.toNat_add, toNat_sub_one hdivisor, Nat.mod_eq_of_lt h]

variable {raw : Bytes} {volume : Superblock}

theorem Superblock.Accepted.groupCount_blocks (h : volume.Accepted raw) (hexact : ExactImage raw) :
    volume.groupCount.toNat = (volume.blockCount.toNat - volume.firstDataBlock.toNat +
      (volume.blocksPerGroup.toNat - 1)) / volume.blocksPerGroup.toNat := by
  obtain ⟨-, hcount, hfirst, hper, -⟩ := h.fields
  have hless := UInt32.toNat_sub_of_le _ _ (UInt32.le_of_lt h.blockCount)
  have hblocks := hexact.blocks
  rw [← hcount, ← hfirst, ← hper] at hblocks
  rw [h.groupsByBlock, toNat_roundedUp (UInt32.pos_iff_ne_zero.mp h.blocksPerGroup.1), hless]
  rwa [hless]

theorem Superblock.Accepted.groupCount_inodes (h : volume.Accepted raw) (hexact : ExactImage raw) :
    volume.groupCount.toNat = (volume.inodeCount.toNat +
      (volume.inodesPerGroup.toNat - 1)) / volume.inodesPerGroup.toNat := by
  obtain ⟨hcount, -, -, -, hper⟩ := h.fields
  have hinodes := hexact.inodes
  rw [← hcount, ← hper] at hinodes
  rw [h.groupsByInode, toNat_roundedUp (UInt32.pos_iff_ne_zero.mp h.inodesPerGroup.1) hinodes]

theorem toNat_groupFirstBlock (volume : Superblock) {block : UInt32}
    (hfirst : volume.firstDataBlock ≤ block) :
    (ext2GroupFirstBlock volume
        ((block - volume.firstDataBlock) / volume.blocksPerGroup)).toNat =
      volume.firstDataBlock.toNat + (block.toNat - volume.firstDataBlock.toNat) /
        volume.blocksPerGroup.toNat * volume.blocksPerGroup.toNat := by
  have hnat := UInt32.le_iff_toNat_le.mp hfirst
  have hbound := block.toNat_lt
  have hless := Nat.div_mul_le_self (block.toNat - volume.firstDataBlock.toNat)
    volume.blocksPerGroup.toNat
  unfold ext2GroupFirstBlock
  rw [UInt32.toNat_add, UInt32.toNat_mul, UInt32.toNat_div, UInt32.toNat_sub_of_le _ _ hfirst,
    Nat.mod_eq_of_lt (a := _ * _) (by omega), Nat.mod_eq_of_lt (by omega)]

theorem toNat_groupBlockCount (volume : Superblock) (group : UInt32)
    (h : (ext2GroupFirstBlock volume group).toNat ≤ volume.blockCount.toNat) :
    (ext2GroupBlockCount volume group).toNat =
      min (volume.blockCount.toNat - (ext2GroupFirstBlock volume group).toNat)
        volume.blocksPerGroup.toNat := by
  have hless := UInt32.toNat_sub_of_le _ _ (UInt32.le_iff_toNat_le.mpr h)
  unfold ext2GroupBlockCount
  dsimp only
  by_cases hremaining : volume.blockCount - ext2GroupFirstBlock volume group <
      volume.blocksPerGroup
  · have hnat := UInt32.lt_iff_toNat_lt.mp hremaining
    rw [if_pos hremaining, hless]
    omega
  · have hnat := UInt32.le_iff_toNat_le.mp (UInt32.not_lt.mp hremaining)
    rw [if_neg hremaining]
    omega

theorem Superblock.Accepted.soundGeometry (h : volume.Accepted raw) (hexact : ExactImage raw) :
    SoundGeometry volume := by
  have hper := UInt32.lt_iff_toNat_lt.mp h.blocksPerGroup.1
  have hinodesPer := UInt32.lt_iff_toNat_lt.mp h.inodesPerGroup.1
  have hgroups := h.groupCount_blocks hexact
  have hinodeGroups := h.groupCount_inodes hexact
  have hlast := UInt32.lt_iff_toNat_lt.mp h.blockCount
  refine ⟨?_, fun block hblock ↦ ?_, fun number hnumber hlimit ↦ ?_⟩
  · rw [hgroups, Nat.ceilDiv_eq_add_pred_div, Nat.add_sub_assoc (Nat.succ_le_of_lt hper : 1 ≤ _)]
  · obtain ⟨hfirst, hlimit⟩ := hblock
    have hfirstNat := UInt32.le_iff_toNat_le.mp hfirst
    have hlimitNat := UInt32.lt_iff_toNat_lt.mp hlimit
    have hless := UInt32.toNat_sub_of_le _ _ hfirst
    have hstart := toNat_groupFirstBlock volume hfirst
    have hdivided := Nat.div_add_mod' (block.toNat - volume.firstDataBlock.toNat)
      volume.blocksPerGroup.toNat
    have hindex := Nat.mod_lt (block.toNat - volume.firstDataBlock.toNat) hper
    have hcount := toNat_groupBlockCount volume
      ((block - volume.firstDataBlock) / volume.blocksPerGroup) (by omega)
    constructor
    · rw [UInt32.lt_iff_toNat_lt, UInt32.toNat_div, hless, hgroups]
      exact div_lt_roundedUp hper (by omega)
    · rw [UInt32.lt_iff_toNat_lt, UInt32.toNat_mod, hless, hcount, hstart]
      exact Nat.lt_min.mpr ⟨by omega, hindex⟩
  · have hnat := UInt32.le_iff_toNat_le.mp hnumber
    have hlimitNat := UInt32.le_iff_toNat_le.mp hlimit
    have hone : (1 : UInt32).toNat = 1 := rfl
    rw [UInt32.lt_iff_toNat_lt, UInt32.toNat_div, UInt32.toNat_sub_of_le _ _ hnumber, hinodeGroups]
    exact div_lt_roundedUp hinodesPer (by omega)

theorem parse_of_read {device : BlockMedium} {before after : Bool}
    (hread : ext2ReadSuperblockBytes device = some raw)
    (h : Action.outcome (ext2ReadSuperblock device) before = (.ok volume, after)) :
    Action.outcome (ext2ParseSuperblock device raw) before = (.ok volume, after) := by
  unfold ext2ReadSuperblock at h
  obtain ⟨-, h⟩ := of_refuseIf h
  obtain ⟨-, h⟩ := of_refuseIf h
  rw [hread] at h
  exact h

/-- An accepted superblock is counted exactly and gives a sound geometry exactly where its sizes,
rounded up, and its fragments are less than a word. -/
theorem ext2ReadSuperblock_sound_iff (device : BlockMedium) (raw : Bytes) (volume : Superblock)
    (exact : Bool) (hread : ext2ReadSuperblockBytes device = some raw)
    (haccepted : Action.outcome (ext2ReadSuperblock device) true = (.ok volume, exact)) :
    exact = true ∧ SoundGeometry volume ↔ ExactImage raw := by
  obtain ⟨haccepted, hexact⟩ := accepted_of_parse (parse_of_read hread haccepted)
  constructor
  · exact fun h ↦ (hexact.mp h.1).2
  · exact fun h ↦ ⟨hexact.mpr ⟨rfl, h⟩, haccepted.soundGeometry h⟩

def oldImage (inodeCount blockCount perGroup inodesPerGroup : ℕ) : Bytes :=
  let raw := writeField (fun _ ↦ 0) 0 4 inodeCount
  let raw := writeField raw 4 4 blockCount
  let raw := writeField raw 20 4 1
  let raw := writeField raw 32 4 perGroup
  let raw := writeField raw 40 4 inodesPerGroup
  let raw := writeField raw 56 2 0xEF53
  writeField raw 58 2 1

def imageMedium (blockCount : UInt64) (raw : Bytes) : BlockMedium :=
  ⟨1024, blockCount, fun block ↦ some (if block = 1 then raw else fun _ ↦ 0)⟩

/-- A volume of one group. -/
theorem ext2ReadSuperblock_sound_iff_group : ∃ volume,
    Action.outcome (ext2ReadSuperblock (imageMedium 4096 (oldImage 16 4096 8192 16))) true =
        (.ok volume, true) ∧ SoundGeometry volume := by
  refine ⟨_, rfl, ?_⟩
  exact ((ext2ReadSuperblock_sound_iff (imageMedium 4096 (oldImage 16 4096 8192 16)) _ _ true rfl
    rfl).mpr ⟨by decide +kernel, by decide +kernel, by decide +kernel⟩).2

/-- A volume of all but one of the blocks that a word numbers, and as many inodes, in groups of
8192, is accepted with no group. -/
theorem ext2ReadSuperblock_unsound : ∃ volume exact,
    Action.outcome (ext2ReadSuperblock (imageMedium 0xFFFFFFFF
        (oldImage 0xFFFFFFFF 0xFFFFFFFF 8192 8192))) true = (.ok volume, exact) ∧
      volume.groupCount = 0 ∧ ext2BlockExists volume 1 ∧
        ¬(exact = true ∧ SoundGeometry volume) := by
  refine ⟨_, _, rfl, rfl, ⟨by decide +kernel, by decide +kernel⟩, fun h ↦ ?_⟩
  exact absurd h.1 (by decide +kernel)

end OxysOS.Fs.Ext2
