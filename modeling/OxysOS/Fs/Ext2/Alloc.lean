import OxysOS.Fs.Ext2.Device
import OxysOS.Fs.Ext2.Geometry

/-!
# The allocation of inodes

Where a group keeps its bitmaps, and how much of it is free.  An inode is taken at the first clear
bit of the first group whose first clear bit is not of a reserved inode.
-/

namespace OxysOS.Fs.Ext2

open OxysOS.Library

def ext2GroupDescriptorSize : UInt32 := 32

/-- `Ext2GroupDescriptor` -/
structure GroupDescriptor where
  group : UInt32
  blockBitmap : UInt32
  inodeBitmap : UInt32
  inodeTable : UInt32
  freeBlockCount : UInt16
  freeInodeCount : UInt16
  usedDirectoryCount : UInt16

def ext2GroupDescriptorBlock (volume : Superblock) : UInt32 := volume.firstDataBlock + 1

def ext2GroupDescriptorBlocks (volume : Superblock) : UInt32 :=
  ext2DivideRoundingUp volume.groupCount (volume.blockSize / ext2GroupDescriptorSize)

def ext2InodeTableBlocks (volume : Superblock) : UInt32 :=
  ext2DivideRoundingUp volume.inodesPerGroup (volume.blockSize / volume.inodeSize.toUInt32)

instance (volume : Superblock) (block : UInt32) : Decidable (ext2BlockExists volume block) :=
  inferInstanceAs (Decidable (_ ∧ _))

def parseGroupDescriptor (group : UInt32) (raw : Bytes) : GroupDescriptor where
  group := group
  blockBitmap := ext2ReadWord raw 0
  inodeBitmap := ext2ReadWord raw 4
  inodeTable := ext2ReadWord raw 8
  freeBlockCount := ext2ReadHalf raw 12
  freeInodeCount := ext2ReadHalf raw 14
  usedDirectoryCount := ext2ReadHalf raw 16

/-- What `Ext2ReadGroupDescriptor` requires of a descriptor. -/
def checkGroupDescriptor (volume : Superblock) (parsed : GroupDescriptor) :
    Except String GroupDescriptor :=
  if ¬ext2BlockExists volume parsed.blockBitmap ∨ ¬ext2BlockExists volume parsed.inodeBitmap ∨
      ¬ext2BlockExists volume parsed.inodeTable then
    .error "a structure of the group lies outside the volume"
  else if parsed.blockBitmap = parsed.inodeBitmap ∨ parsed.blockBitmap = parsed.inodeTable ∨
      parsed.inodeBitmap = parsed.inodeTable then
    .error "two structures of the group begin upon the same block"
  else if volume.blockCount - parsed.inodeTable < ext2InodeTableBlocks volume then
    .error "the inode table runs past the end of the volume"
  else if parsed.freeBlockCount.toUInt32 > ext2GroupBlockCount volume parsed.group ∨
      parsed.freeInodeCount.toUInt32 > volume.inodesPerGroup then
    .error "the group reports more free than it holds"
  else if parsed.usedDirectoryCount.toUInt32 >
      volume.inodesPerGroup - parsed.freeInodeCount.toUInt32 then
    .error "the group holds more directories than used inodes"
  else .ok parsed

def ext2ReadGroupDescriptor (device : SteadyDevice) (disk : Bytes) (volume : Superblock)
    (group : UInt32) : Except String GroupDescriptor :=
  let table := ext2GroupDescriptorBlock volume
  let position := group * ext2GroupDescriptorSize
  if group ≥ volume.groupCount then .error "the volume holds no such group"
  else if table + ext2GroupDescriptorBlocks volume > volume.blockCount then
    .error "the descriptor table does not fit within the volume"
  else do
    let raw ← ext2ReadBytes device disk volume (table + position / volume.blockSize)
      (position % volume.blockSize) ext2GroupDescriptorSize
    checkGroupDescriptor volume (parseGroupDescriptor group raw)

def composeGroupDescriptor (descriptor : GroupDescriptor) (raw : Bytes) : Bytes :=
  let raw := ext2WriteWord raw 0 descriptor.blockBitmap
  let raw := ext2WriteWord raw 4 descriptor.inodeBitmap
  let raw := ext2WriteWord raw 8 descriptor.inodeTable
  let raw := ext2WriteHalf raw 12 descriptor.freeBlockCount
  let raw := ext2WriteHalf raw 14 descriptor.freeInodeCount
  ext2WriteHalf raw 16 descriptor.usedDirectoryCount

def ext2WriteGroupDescriptor (device : SteadyDevice) (disk : Bytes) (volume : Superblock)
    (descriptor : GroupDescriptor) : Except String Bytes :=
  let table := ext2GroupDescriptorBlock volume
  let position := descriptor.group * ext2GroupDescriptorSize
  if volume.readOnly then .error "the volume is read-only and may not be altered"
  else if descriptor.group ≥ volume.groupCount then
    .error "the volume holds no group of that number"
  else do
    let raw ← ext2ReadBytes device disk volume (table + position / volume.blockSize)
      (position % volume.blockSize) ext2GroupDescriptorSize
    ext2WriteBytes device disk volume (table + position / volume.blockSize)
      (position % volume.blockSize) ext2GroupDescriptorSize (composeGroupDescriptor descriptor raw)

def composeSuperblock (volume : Superblock) (raw : Bytes) : Bytes :=
  let raw := ext2WriteWord raw 12 volume.freeBlockCount
  let raw := ext2WriteWord raw 16 volume.freeInodeCount
  let raw := ext2WriteHalf raw 58 volume.state
  let raw := ext2WriteWord raw 48 volume.writeTime
  ext2WriteHalf raw 52 volume.mountCount

def ext2WriteSuperblock (device : SteadyDevice) (disk : Bytes) (volume : Superblock) :
    Except String Bytes :=
  if volume.readOnly then .error "the volume is read-only and may not be altered"
  else match ext2ReadSuperblockBytes (device.medium disk) with
    | none => .error "the superblock could not be read from the device"
    | some raw => ext2WriteBytes device disk volume (ext2SuperblockOffset / volume.blockSize)
        (ext2SuperblockOffset % volume.blockSize) ext2SuperblockSize (composeSuperblock volume raw)

end OxysOS.Fs.Ext2

namespace OxysOS.Fs.Ext2

open OxysOS.Library

structure VolumeState where
  disk : Bytes
  volume : Superblock

def ext2BitmapTest (device : SteadyDevice) (disk : Bytes) (volume : Superblock)
    (bitmap index : UInt32) : Except String Bool := do
  let raw ← ext2ReadBytes device disk volume bitmap (index / 8) 1
  return raw 0 &&& ((1 : UInt32) <<< (index % 8)).toUInt8 ≠ 0

def ext2BitmapSet (device : SteadyDevice) (disk : Bytes) (volume : Superblock)
    (bitmap index : UInt32) (used : Bool) (what : String) : Except String Bytes := do
  let mask := ((1 : UInt32) <<< (index % 8)).toUInt8
  let raw ← ext2ReadBytes device disk volume bitmap (index / 8) 1
  if decide (raw 0 &&& mask ≠ 0) = used then throw what
  else
    let byte := if used then raw 0 ||| mask else raw 0 &&& ~~~mask
    ext2WriteBytes device disk volume bitmap (index / 8) 1 fun _ ↦ byte

/-- The loop of `Ext2BitmapFindFree` -/
def findFreeFrom (device : SteadyDevice) (disk : Bytes) (volume : Superblock) (bitmap : UInt32) :
    List UInt32 → Except String (Option UInt32)
  | [] => return none
  | position :: positions => do
      let used ← ext2BitmapTest device disk volume bitmap position
      if used then findFreeFrom device disk volume bitmap positions else return some position

def wordsBelow (count : UInt32) : List UInt32 := (List.range count.toNat).map UInt32.ofNat

def ext2BitmapFindFree (device : SteadyDevice) (disk : Bytes) (volume : Superblock)
    (bitmap count : UInt32) : Except String (Option UInt32) :=
  findFreeFrom device disk volume bitmap (wordsBelow count)

def ext2InodeInUse (device : SteadyDevice) (disk : Bytes) (volume : Superblock)
    (number : UInt32) : Except String Bool :=
  if number = 0 ∨ number > volume.inodeCount then
    .error "the volume holds no inode of that number"
  else do
    let descriptor ← ext2ReadGroupDescriptor device disk volume
      ((number - 1) / volume.inodesPerGroup)
    ext2BitmapTest device disk volume descriptor.inodeBitmap ((number - 1) % volume.inodesPerGroup)

def takeInode (device : SteadyDevice) (directory : Bool) (descriptor : GroupDescriptor)
    (index candidate : UInt32) : Action VolumeState String UInt32 := do
  let s ← get
  let disk ← Action.consult fun _ ↦ ext2BitmapSet device s.disk s.volume descriptor.inodeBitmap
    index true "an inode already in use was allocated"
  let volume := { s.volume with freeInodeCount := s.volume.freeInodeCount - 1 }
  set (⟨disk, volume⟩ : VolumeState)
  let descriptor := { descriptor with
    freeInodeCount := descriptor.freeInodeCount - 1
    usedDirectoryCount := if directory then descriptor.usedDirectoryCount + 1
      else descriptor.usedDirectoryCount }
  let disk ← Action.consult fun _ ↦ ext2WriteGroupDescriptor device disk volume descriptor
  set (⟨disk, volume⟩ : VolumeState)
  let disk ← Action.consult fun _ ↦ ext2WriteSuperblock device disk volume
  set (⟨disk, volume⟩ : VolumeState)
  return candidate

/-- The loop of `Ext2AllocateInode` -/
def allocateInodeFrom (device : SteadyDevice) (directory : Bool) :
    List UInt32 → Action VolumeState String UInt32
  | [] => throw "no group of the volume holds a free inode"
  | group :: groups => do
      let s ← get
      let descriptor ← Action.consult fun _ ↦ ext2ReadGroupDescriptor device s.disk s.volume group
      if descriptor.freeInodeCount = 0 then allocateInodeFrom device directory groups
      else
        let found ← Action.consult fun _ ↦ ext2BitmapFindFree device s.disk s.volume
          descriptor.inodeBitmap s.volume.inodesPerGroup
        match found with
        | none => throw "a group's free count disagrees with its inode bitmap"
        | some index =>
            let candidate := group * s.volume.inodesPerGroup + index + 1
            if candidate < s.volume.firstInode then allocateInodeFrom device directory groups
            else takeInode device directory descriptor index candidate

def ext2AllocateInode (device : SteadyDevice) (directory : Bool) :
    Action VolumeState String UInt32 := do
  let s ← get
  if s.volume.readOnly then throw "the volume is read-only and may not be altered"
  else if s.volume.freeInodeCount = 0 then throw "the volume holds no free inode"
  else allocateInodeFrom device directory (wordsBelow s.volume.groupCount)

end OxysOS.Fs.Ext2
