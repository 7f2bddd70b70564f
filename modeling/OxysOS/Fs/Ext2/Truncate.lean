import OxysOS.Fs.Ext2.StoredInode

/-!
# The truncation of a file

A file that is made shorter gives back the blocks beyond its new end, and the blocks of pointers
that are left with no pointer.
-/

namespace OxysOS.Fs.Ext2

open OxysOS.Library Action

def ext2FreeBlock (device : SteadyDevice) (block : UInt32) : Action VolumeState String PUnit := do
  let s ← get
  if s.volume.readOnly then throw "the volume is read-only and may not be altered"
  else if ¬ext2BlockExists s.volume block then throw "the block lies outside the volume"
  else
    let descriptor ← Action.consult fun _ ↦ ext2ReadGroupDescriptor device s.disk s.volume
      ((block - s.volume.firstDataBlock) / s.volume.blocksPerGroup)
    let disk ← Action.consult fun _ ↦ ext2BitmapSet device s.disk s.volume descriptor.blockBitmap
      ((block - s.volume.firstDataBlock) % s.volume.blocksPerGroup) false
      "a block that was already free was freed"
    let volume := { s.volume with freeBlockCount := s.volume.freeBlockCount + 1 }
    set (⟨disk, volume⟩ : VolumeState)
    let disk ← Action.consult fun _ ↦ ext2WriteGroupDescriptor device disk volume
      { descriptor with freeBlockCount := descriptor.freeBlockCount + 1 }
    set (⟨disk, volume⟩ : VolumeState)
    let disk ← Action.consult fun _ ↦ ext2WriteSuperblock device disk volume
    set (⟨disk, volume⟩ : VolumeState)

def giveBack (device : SteadyDevice) (block : UInt32) : Action FileState String PUnit := do
  onVolume (ext2FreeBlock device block)
  modify fun s ↦ { s with
    inode := { s.inode with
      sectorCount := s.inode.sectorCount - ext2SectorsPerBlock s.volume } }

/-- The loop of `Ext2TruncateSubtree` over the entries of a block of pointers that are left: what
becomes of each that is not zero is told by `child`, and whether one stays is answered. -/
def truncateEntries (device : SteadyDevice) (child : ℕ → UInt32 → Action FileState String UInt32)
    (table : UInt32) (base entrySpan : ℕ) : List ℕ → Action FileState String Bool
  | [] => return false
  | entry :: entries => do
      let s ← get
      let raw ← Action.consult fun _ ↦ ext2ReadBytes device s.disk s.volume table
        (UInt32.ofNat (entry * 4)) 4
      if ext2ReadWord raw 0 = 0 then truncateEntries device child table base entrySpan entries
      else
        let left ← child (base + entry * entrySpan) (ext2ReadWord raw 0)
        if left = 0 then do
          onDisk fun volume ↦ writing fun disk ↦ ext2WriteBytes device disk volume table
            (UInt32.ofNat (entry * 4)) 4 (ext2WriteWord raw 0 0)
          truncateEntries device child table base entrySpan entries
        else do
          let _ ← truncateEntries device child table base entrySpan entries
          return true

def ext2TruncateSubtree (device : SteadyDevice) (first : ℕ) :
    ℕ → UInt32 → ℕ → ℕ → Action FileState String UInt32
  | 0, block, base, _ =>
      -- The entry of a block of pointers of the lowest level.
      if base ≥ first then do
        giveBack device block
        return 0
      else return block
  | level + 1, table, base, span =>
      if table = 0 then return table
      else if base + span ≤ first then return table
      else do
        let s ← get
        let perBlock := ext2PointersPerBlock s.volume
        let occupied ← truncateEntries device
          (fun entryBase block ↦
            ext2TruncateSubtree device first level block entryBase (span / perBlock))
          table base (span / perBlock) (List.range perBlock)
        if occupied then return table
        else
          giveBack device table
          return 0

/-- The loop of `Ext2TruncateBlocks` -/
def truncateDirect (device : SteadyDevice) (first : ℕ) : List ℕ → Action FileState String PUnit
  | [] => return ⟨⟩
  | entry :: entries => do
      let s ← get
      if entry ≥ first ∧ s.inode.block entry ≠ 0 then do
        giveBack device (s.inode.block entry)
        modify fun s ↦ { s with
          inode := { s.inode with block := Function.update s.inode.block entry 0 } }
        truncateDirect device first entries
      else truncateDirect device first entries

/-- `Ext2TruncateSubtree` of a pointer of the inode. -/
def truncateIndirect (device : SteadyDevice) (first level base span : ℕ) :
    Action FileState String PUnit := do
  let s ← get
  let left ← ext2TruncateSubtree device first level (s.inode.block (12 + (level - 1))) base span
  modify fun s ↦ { s with
    inode := { s.inode with block := Function.update s.inode.block (12 + (level - 1)) left } }

/-- The end of `Ext2TruncateBlocks`: the size is set, and the inode is written. -/
def setSize (device : SteadyDevice) (size : UInt64) : Action FileState String PUnit := do
  modify fun s ↦ { s with inode := { s.inode with size := size } }
  let s ← get
  onDisk fun volume ↦ writing fun disk ↦ ext2WriteInode device disk volume s.inode

def firstFreed (volume : Superblock) (size : UInt64) : UInt64 :=
  (size + volume.blockSize.toUInt64 - 1) / volume.blockSize.toUInt64

def ext2TruncateBlocks (device : SteadyDevice) (size : UInt64) :
    Action FileState String PUnit := do
  let s ← get
  if size ≥ s.inode.size then setSize device size
  else
    let perBlock := ext2PointersPerBlock s.volume
    let first := (firstFreed s.volume size).toNat
    truncateDirect device first (List.range 12)
    truncateIndirect device first 1 12 perBlock
    truncateIndirect device first 2 (12 + perBlock) (perBlock * perBlock)
    truncateIndirect device first 3 (12 + perBlock + perBlock * perBlock)
      (perBlock * perBlock * perBlock)
    setSize device size

def ext2TruncateFile (device : SteadyDevice) (size : UInt64) : Action FileState String PUnit := do
  let s ← get
  if s.volume.readOnly then throw "the volume is read-only and may not be altered"
  else if ext2InodeIsDirectory s.inode.mode then
    throw "a directory is not truncated as a file is"
  else ext2TruncateBlocks device size

theorem outcome_setSize {device : SteadyDevice} {size : UInt64} {s : FileState} {disk' : Bytes}
    (h : ext2WriteInode device s.disk s.volume { s.inode with size := size } = .ok disk') :
    outcome (setSize device size) s =
      (.ok ⟨⟩, { s with inode := { s.inode with size := size }, disk := disk' }) := by
  unfold setSize
  rw [outcome_bind, outcome_modify]
  dsimp only
  rw [outcome_bind, outcome_get]
  dsimp only
  rw [outcome_onDisk, outcome_writing _ h]

theorem ext2TruncateFile_extends (device : SteadyDevice) {size : UInt64} {s : FileState}
    (hwritable : s.volume.readOnly = false) (hfile : ext2InodeIsDirectory s.inode.mode = false)
    (hsize : s.inode.size ≤ size) :
    outcome (ext2TruncateFile device size) s = outcome (setSize device size) s := by
  unfold ext2TruncateFile ext2TruncateBlocks
  rw [outcome_bind, outcome_get]
  dsimp only
  rw [if_neg (by simp [hwritable]), if_neg (by simp [hfile]), outcome_bind, outcome_get]
  dsimp only
  rw [if_pos hsize]

/-- An empty file upon a volume of revision 0 is made four gibibytes long: the truncation
succeeds, and the file is read as an empty one. -/
theorem ext2TruncateFile_lost : ∃ s s', outcome (ext2TruncateFile sampleDevice 4294967296) s =
      (.ok ⟨⟩, s') ∧ InodeStands s.volume s.inode ∧ s'.inode.size = 4294967296 ∧
    ∃ read, ext2ReadInode sampleDevice s'.disk s'.volume s'.inode.number = .ok read ∧
      read.size = 0 := by
  let s : FileState := ⟨⟨sampleDisk 1 0xF7FF, sampleVolume 1⟩, plainFile 0⟩
  have hfound : InodeFound sampleDevice s.disk s.volume (plainFile 4294967296).number _ :=
    twelve_found
  obtain ⟨disk', hwrite⟩ := hfound.write rfl
  have hread := (ext2ReadInode_written hwrite twelve_apart).trans
    ((plainFile_stands 4294967296).check _)
  refine ⟨s, { s with inode := plainFile 4294967296, disk := disk' }, ?_, plainFile_stands 0, rfl,
    _, hread, by decide⟩
  rw [ext2TruncateFile_extends sampleDevice rfl (by decide) (by decide)]
  exact outcome_setSize hwrite

end OxysOS.Fs.Ext2
