import OxysOS.Fs.Ext2.Alloc
import OxysOS.Fs.Ext2.Path

/-!
# The blocks of a file

The first blocks of a file are named by its inode, and the others by blocks of pointers, of one
level, two or three.
-/

namespace OxysOS.Fs.Ext2

open OxysOS.Library

/-- `Ext2Inode`, of whose pointers the first fifteen are there. -/
structure Ext2Inode where
  number : UInt32
  mode : UInt16
  uid : UInt16
  gid : UInt16
  size : UInt64
  accessTime : UInt32
  changeTime : UInt32
  modifyTime : UInt32
  deleteTime : UInt32
  linkCount : UInt16
  sectorCount : UInt32
  flags : UInt32
  block : ℕ → UInt32
  generation : UInt32
  fileAcl : UInt32

structure FileState extends VolumeState where
  inode : Ext2Inode

def onVolume {α : Type} (action : Action VolumeState String α) : Action FileState String α :=
  ExceptT.mk fun s ↦
    let (answer, next) := Action.outcome action s.toVolumeState
    (answer, { s with toVolumeState := next })

def onDisk {α : Type} (action : Superblock → Action Bytes String α) : Action FileState String α :=
  ExceptT.mk fun s ↦
    let (answer, next) := Action.outcome (action s.volume) s.disk
    (answer, { s with disk := next })

def writing (write : Bytes → Except String Bytes) : Action Bytes String PUnit := do
  let disk ← Action.consult write
  set disk

theorem outcome_onDisk {α : Type} (action : Superblock → Action Bytes String α) (s : FileState) :
    Action.outcome (onDisk action) s = ((Action.outcome (action s.volume) s.disk).1,
      { s with disk := (Action.outcome (action s.volume) s.disk).2 }) := rfl

theorem outcome_writing (write : Bytes → Except String Bytes) {disk disk' : Bytes}
    (h : write disk = .ok disk') : Action.outcome (writing write) disk = (.ok ⟨⟩, disk') := by
  unfold writing
  simp [Action.outcome_bind, h]

theorem outcome_writeBytes (device : SteadyDevice) (disk : Bytes) {volume : Superblock}
    {block offset length : UInt32} (hblock : block < volume.blockCount)
    (hoffset : offset.toNat + length.toNat ≤ volume.blockSize.toNat) (source : Bytes) :
    Action.outcome (writing fun disk ↦
        ext2WriteBytes device disk volume block offset length source) disk =
      (.ok ⟨⟩, splice disk (block.toNat * volume.blockSize.toNat + offset.toNat) length.toNat
        source) :=
  outcome_writing _ (ext2WriteBytes_ok device disk hblock hoffset source)

def takeBlock (device : SteadyDevice) (descriptor : GroupDescriptor) (group index : UInt32) :
    Action VolumeState String UInt32 := do
  let s ← get
  let disk ← Action.consult fun _ ↦ ext2BitmapSet device s.disk s.volume descriptor.blockBitmap
    index true "a block already in use was allocated"
  let volume := { s.volume with freeBlockCount := s.volume.freeBlockCount - 1 }
  set (⟨disk, volume⟩ : VolumeState)
  let disk ← Action.consult fun _ ↦ ext2WriteGroupDescriptor device disk volume
    { descriptor with freeBlockCount := descriptor.freeBlockCount - 1 }
  set (⟨disk, volume⟩ : VolumeState)
  let disk ← Action.consult fun _ ↦ ext2WriteSuperblock device disk volume
  set (⟨disk, volume⟩ : VolumeState)
  return ext2GroupFirstBlock volume group + index

/-- The loop of `Ext2AllocateBlock` -/
def allocateBlockFrom (device : SteadyDevice) (firstGroup : UInt32) :
    List UInt32 → Action VolumeState String UInt32
  | [] => throw "no group of the volume holds a free block"
  | attempt :: attempts => do
      let s ← get
      let group := (firstGroup + attempt) % s.volume.groupCount
      let descriptor ← Action.consult fun _ ↦ ext2ReadGroupDescriptor device s.disk s.volume group
      if descriptor.freeBlockCount = 0 then allocateBlockFrom device firstGroup attempts
      else
        let found ← Action.consult fun _ ↦ ext2BitmapFindFree device s.disk s.volume
          descriptor.blockBitmap (ext2GroupBlockCount s.volume group)
        match found with
        | none => throw "a group's free count disagrees with its block bitmap"
        | some index => takeBlock device descriptor group index

def ext2AllocateBlock (device : SteadyDevice) (near : UInt32) :
    Action VolumeState String UInt32 := do
  let s ← get
  if s.volume.readOnly then throw "the volume is read-only and may not be altered"
  else if s.volume.freeBlockCount = 0 then throw "the volume holds no free block"
  else
    let firstGroup := if near ≠ 0 ∧ ext2BlockExists s.volume near then
      (near - s.volume.firstDataBlock) / s.volume.blocksPerGroup else 0
    allocateBlockFrom device firstGroup (wordsBelow s.volume.groupCount)

def ext2ZeroBlock (device : SteadyDevice) (volume : Superblock) (block : UInt32) :
    Action Bytes String PUnit :=
  writing fun disk ↦ ext2WriteBytes device disk volume block 0 volume.blockSize fun _ ↦ 0

def zeroAllocated (device : SteadyDevice) (zero : Bool) (block : UInt32) :
    Action FileState String PUnit :=
  if zero then onDisk fun volume ↦ ext2ZeroBlock device volume block else return ⟨⟩

def ext2PointersPerBlock (volume : Superblock) : ℕ := volume.blockSize.toNat / 4

def ext2SectorsPerBlock (volume : Superblock) : UInt32 := volume.blockSize / 512

def indirectLevel (perBlock index : ℕ) : Option (ℕ × ℕ) :=
  let remaining := index - 12
  if remaining < perBlock then some (1, remaining)
  else
    let remaining := remaining - perBlock
    if remaining < perBlock * perBlock then some (2, remaining)
    else
      let remaining := remaining - perBlock * perBlock
      if remaining < perBlock * perBlock * perBlock then some (3, remaining) else none

def ext2ReadPointer (device : SteadyDevice) (disk : Bytes) (volume : Superblock) (table : UInt32)
    (entry : ℕ) : Except String UInt32 :=
  if table = 0 then .ok 0
  else if ¬ext2BlockExists volume table then
    .error "a block of pointers lies outside the volume"
  else do
    let raw ← ext2ReadBytes device disk volume table (UInt32.ofNat (entry * 4)) 4
    let block := ext2ReadWord raw 0
    if block ≠ 0 ∧ ¬ext2BlockExists volume block then
      throw "a block pointer addresses a block the volume does not hold"
    else return block

/-- The walk of `Ext2InodeBlock`, from a block of pointers of a level. -/
def readPointers (device : SteadyDevice) (disk : Bytes) (volume : Superblock) :
    ℕ → UInt32 → ℕ → Except String UInt32
  | 0, block, _ => .ok block
  | level + 1, block, remaining => do
      let span := ext2PointersPerBlock volume ^ level
      let next ← ext2ReadPointer device disk volume block (remaining / span)
      readPointers device disk volume level next (remaining % span)

def ext2InodeBlock (device : SteadyDevice) (disk : Bytes) (volume : Superblock) (inode : Ext2Inode)
    (index : ℕ) : Except String UInt32 :=
  if index < 12 then .ok (inode.block index)
  else match indirectLevel (ext2PointersPerBlock volume) index with
    | none => .error "the block index is beyond what an inode can address"
    | some (level, remaining) =>
        readPointers device disk volume level (inode.block (12 + (level - 1))) remaining

/-- `Ext2PointerAllocate`, with whether a block has been allocated. -/
def ext2PointerAllocate (device : SteadyDevice) (table : UInt32) (entry : ℕ) (zero : Bool) :
    Action FileState String (UInt32 × Bool) := do
  let s ← get
  let raw ← Action.consult fun _ ↦ ext2ReadBytes device s.disk s.volume table
    (UInt32.ofNat (entry * 4)) 4
  let block := ext2ReadWord raw 0
  if block ≠ 0 then
    if ¬ext2BlockExists s.volume block then
      throw "a block pointer addresses a block the volume does not hold"
    else return (block, false)
  else
    let block ← onVolume (ext2AllocateBlock device table)
    zeroAllocated device zero block
    modify fun s ↦ { s with
      inode := { s.inode with
        sectorCount := s.inode.sectorCount + ext2SectorsPerBlock s.volume } }
    onDisk fun volume ↦ writing fun disk ↦ ext2WriteBytes device disk volume table
      (UInt32.ofNat (entry * 4)) 4 (ext2WriteWord raw 0 block)
    return (block, true)

/-- `Ext2InodePointerAllocate`, with whether a block has been allocated. -/
def ext2InodePointerAllocate (device : SteadyDevice) (entry : ℕ) (zero : Bool) :
    Action FileState String (UInt32 × Bool) := do
  let s ← get
  if s.inode.block entry ≠ 0 then return (s.inode.block entry, false)
  else
    let block ← onVolume (ext2AllocateBlock device (s.inode.block 0))
    zeroAllocated device zero block
    modify fun s ↦ { s with
      inode := { s.inode with
        sectorCount := s.inode.sectorCount + ext2SectorsPerBlock s.volume
        block := Function.update s.inode.block entry block } }
    return (block, true)

/-- The walk of `Ext2InodeBlockAllocate`, from a block of pointers of a level. -/
def allocatePointers (device : SteadyDevice) :
    ℕ → UInt32 → ℕ → Action FileState String (UInt32 × Bool)
  | 0, table, _ => return (table, false)
  | level + 1, table, remaining => do
      let s ← get
      let span := ext2PointersPerBlock s.volume ^ level
      let (next, first) ← ext2PointerAllocate device table (remaining / span) (0 < level)
      let (block, rest) ← allocatePointers device level next (remaining % span)
      return (block, first || rest)

/-- `Ext2InodeBlockAllocate`, with whether a block has been allocated. -/
def ext2InodeBlockAllocate (device : SteadyDevice) (index : ℕ) :
    Action FileState String (UInt32 × Bool) := do
  let s ← get
  if s.volume.readOnly then throw "the volume is read-only and may not be altered"
  else if index < 12 then ext2InodePointerAllocate device index false
  else match indirectLevel (ext2PointersPerBlock s.volume) index with
    | none => throw "the index is beyond what fifteen pointers can address"
    | some (level, remaining) => do
        let (table, first) ← ext2InodePointerAllocate device (12 + (level - 1)) true
        let (block, rest) ← allocatePointers device level table remaining
        return (block, first || rest)

def composeInode (volume : Superblock) (inode : Ext2Inode) (raw : Bytes) : Bytes :=
  let raw := ext2WriteHalf raw 0 inode.mode
  let raw := ext2WriteHalf raw 2 inode.uid
  let raw := ext2WriteHalf raw 24 inode.gid
  let raw := ext2WriteWord raw 4 (inode.size &&& 0xFFFFFFFF).toUInt32
  let raw := ext2WriteWord raw 8 inode.accessTime
  let raw := ext2WriteWord raw 12 inode.changeTime
  let raw := ext2WriteWord raw 16 inode.modifyTime
  let raw := ext2WriteWord raw 20 inode.deleteTime
  let raw := ext2WriteHalf raw 26 inode.linkCount
  let raw := ext2WriteWord raw 28 inode.sectorCount
  let raw := ext2WriteWord raw 32 inode.flags
  let raw := ext2WriteWord raw 100 inode.generation
  let raw := ext2WriteWord raw 104 inode.fileAcl
  let raw := if volume.revision ≥ ext2DynamicRev ∧ inode.mode &&& 0xF000 = 0x8000 then
    ext2WriteWord raw 108 (inode.size >>> 32).toUInt32 else raw
  (List.range 15).foldl (fun raw entry ↦ ext2WriteWord raw (40 + entry * 4) (inode.block entry)) raw

def ext2WriteInode (device : SteadyDevice) (disk : Bytes) (volume : Superblock)
    (inode : Ext2Inode) : Except String Bytes :=
  if volume.readOnly then .error "the volume is read-only and may not be altered"
  else if inode.number = 0 ∨ inode.number > volume.inodeCount then
    .error "the volume holds no inode of that number"
  else do
    let group := (inode.number - 1) / volume.inodesPerGroup
    let index := (inode.number - 1) % volume.inodesPerGroup
    let descriptor ← ext2ReadGroupDescriptor device disk volume group
    let position := index * volume.inodeSize.toUInt32
    let raw ← ext2ReadBytes device disk volume
      (descriptor.inodeTable + position / volume.blockSize) (position % volume.blockSize) 128
    ext2WriteBytes device disk volume (descriptor.inodeTable + position / volume.blockSize)
      (position % volume.blockSize) 128 (composeInode volume inode raw)

end OxysOS.Fs.Ext2
