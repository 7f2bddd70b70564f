import OxysOS.Fs.Ext2.Directory

/-!
# The names of a directory

A name is put into a record that names no inode, or into what a record in use does not need, or else
into a block that the directory grows by.  It is taken away by the record before it, or where there
is none its record names no inode.
-/

namespace OxysOS.Fs.Ext2

open OxysOS.Library

def ext2ComposeEntryHeader (raw : Bytes) (number : UInt32) (recordLength nameLength : UInt16)
    (fileType : UInt8) (statesType : Bool) : Bytes :=
  let raw := ext2WriteWord raw 0 number
  let raw := ext2WriteHalf raw 4 recordLength
  if statesType then Function.update (Function.update raw 6 nameLength.toUInt8) 7 fileType
  else ext2WriteHalf raw 6 nameLength

def ext2PutEntry (device : SteadyDevice) (volume : Superblock) (block offset number : UInt32)
    (recordLength : UInt16) (name : List UInt8) (fileType : UInt8) : Action Bytes String PUnit := do
  let raw := ext2ComposeEntryHeader (fun _ ↦ 0) number recordLength (UInt16.ofNat name.length)
    fileType (ext2VolumeStatesFileType volume)
  writing fun disk ↦ ext2WriteBytes device disk volume block offset ext2DirectoryHeaderSize raw
  if name.length = 0 then return ⟨⟩
  else
    writing fun disk ↦ ext2WriteBytes device disk volume block (offset + ext2DirectoryHeaderSize)
      (UInt32.ofNat name.length) fun i ↦ name.getD i 0

def alterEntryHeader (device : SteadyDevice) (volume : Superblock) (block offset : UInt32)
    (alter : Bytes → Bytes) : Action Bytes String PUnit := do
  let raw ← Action.consult fun disk ↦
    ext2ReadBytes device disk volume block offset ext2DirectoryHeaderSize
  writing fun disk ↦
    ext2WriteBytes device disk volume block offset ext2DirectoryHeaderSize (alter raw)

theorem blockLeft_lt {device : SteadyDevice} {disk : Bytes} {volume : Superblock}
    {block offset : UInt32} {entry : Ext2DirectoryEntry}
    (h : ext2ReadEntryHeader device disk volume block offset = .ok entry) :
    volume.blockSize.toNat - (offset + entry.recordLength.toUInt32).toNat <
      volume.blockSize.toNat - offset.toNat := by
  obtain ⟨hheader, hwithin, hoffset⟩ := of_ext2ReadEntryHeader h
  omega

/-- The loop of `Ext2InsertIntoBlock` -/
def insertFrom (device : SteadyDevice) (volume : Superblock) (block : UInt32) (needed : UInt16)
    (number : UInt32) (name : List UInt8) (fileType : UInt8) (offset : UInt32) :
    Action Bytes String Bool :=
  if offset ≤ volume.blockSize - ext2DirectoryHeaderSize then do
    let disk ← get
    match _hheader : ext2ReadEntryHeader device disk volume block offset with
    | .error reason => throw reason
    | .ok entry =>
        let actual := ext2RecordLength entry.nameLength.toNat
        if entry.inode = 0 ∧ entry.recordLength ≥ needed then do
          ext2PutEntry device volume block offset number entry.recordLength name fileType
          return true
        else if entry.inode ≠ 0 ∧ needed.toNat + actual.toNat ≤ entry.recordLength.toNat then do
          alterEntryHeader device volume block offset fun raw ↦ ext2WriteHalf raw 4 actual
          ext2PutEntry device volume block (offset + actual.toUInt32) number
            (entry.recordLength - actual) name fileType
          return true
        else if offset + entry.recordLength.toUInt32 = volume.blockSize then return false
        else
          insertFrom device volume block needed number name fileType
            (offset + entry.recordLength.toUInt32)
  else return false
termination_by volume.blockSize.toNat - offset.toNat
decreasing_by exact blockLeft_lt _hheader

def ext2InsertIntoBlock (device : SteadyDevice) (volume : Superblock) (block : UInt32)
    (needed : UInt16) (number : UInt32) (name : List UInt8) (fileType : UInt8) :
    Action Bytes String Bool :=
  insertFrom device volume block needed number name fileType 0

/-- The loop of `Ext2DirectoryInsert` -/
def insertAmong (device : SteadyDevice) (needed : UInt16) (number : UInt32) (name : List UInt8)
    (fileType : UInt8) : List ℕ → Action FileState String Bool
  | [] => return false
  | index :: indexes => do
      let s ← get
      let block ← Action.consult fun _ ↦ ext2InodeBlock device s.disk s.volume s.inode index
      if block = 0 then insertAmong device needed number name fileType indexes
      else
        let inserted ← onDisk fun volume ↦
          ext2InsertIntoBlock device volume block needed number name fileType
        if inserted then return true
        else insertAmong device needed number name fileType indexes

/-- The end of `Ext2DirectoryInsert`, where no block had room. -/
def insertGrown (device : SteadyDevice) (needed : UInt16) (number : UInt32) (name : List UInt8)
    (fileType : UInt8) (blocks : ℕ) : Action FileState String PUnit := do
  let (block, _) ← ext2InodeBlockAllocate device blocks
  onDisk fun volume ↦ ext2ZeroBlock device volume block
  onDisk fun volume ↦
    ext2PutEntry device volume block 0 0 volume.blockSize.toUInt16 [] ext2FtUnknown
  modify fun s ↦ { s with
    inode := { s.inode with size := s.inode.size + s.volume.blockSize.toUInt64 } }
  let s ← get
  onDisk fun volume ↦ writing fun disk ↦ ext2WriteInode device disk volume s.inode
  let inserted ← onDisk fun volume ↦
    ext2InsertIntoBlock device volume block needed number name fileType
  if inserted then return ⟨⟩ else throw "a name did not fit within a block of its own"

def ext2DirectoryInsert (device : SteadyDevice) (name : List UInt8) (number : UInt32)
    (fileType : UInt8) : Action FileState String PUnit := do
  let s ← get
  if s.volume.readOnly then throw "the volume is read-only and may not be altered"
  else if ¬ext2InodeIsDirectory s.inode.mode then
    throw "a name may be inserted only into a directory"
  else if name.length = 0 ∨ name.length > ext2NameMaximum then
    throw "a name of no length, or longer than the format permits"
  else if number = 0 ∨ number > s.volume.inodeCount then
    throw "a name may not be given to an inode the volume does not hold"
  else if ¬Addressable name then throw "a name holding a separator or a null byte"
  else match ext2DirectoryFind device s.disk s.volume s.inode name with
    | .ok _ => throw "the directory already holds that name"
    | .error _ => do
        let needed := ext2RecordLength name.length
        let blocks := directoryBlocks s.volume s.inode
        let inserted ← insertAmong device needed number name fileType (List.range blocks)
        if inserted then return ⟨⟩
        else insertGrown device needed number name fileType blocks

def sameName (device : SteadyDevice) (disk : Bytes) (volume : Superblock)
    (entry : Ext2DirectoryEntry) (name : List UInt8) : Except String Bool :=
  if entry.inode ≠ 0 ∧ entry.nameLength = UInt16.ofNat name.length then
    (ext2ReadEntryName device disk volume entry).map fun named ↦ decide (named.name = name)
  else .ok false

def takeAway (device : SteadyDevice) (volume : Superblock) (block offset : UInt32)
    (entry : Ext2DirectoryEntry) : Option UInt32 → Action Bytes String PUnit
  | some previous => do
      let before ← Action.consult fun disk ↦ ext2ReadEntryHeader device disk volume block previous
      alterEntryHeader device volume block previous fun raw ↦
        ext2WriteHalf raw 4 (before.recordLength + entry.recordLength)
  | none => alterEntryHeader device volume block offset fun raw ↦ ext2WriteWord raw 0 0

/-- The loop of `Ext2DirectoryRemove` -/
def removeFrom (device : SteadyDevice) (volume : Superblock) (block : UInt32) (name : List UInt8)
    (previous : Option UInt32) (offset : UInt32) : Action Bytes String Bool :=
  if offset ≤ volume.blockSize - ext2DirectoryHeaderSize then do
    let disk ← get
    match _hheader : ext2ReadEntryHeader device disk volume block offset with
    | .error reason => throw reason
    | .ok entry =>
        let same ← Action.consult fun _ ↦ sameName device disk volume entry name
        if same then do
          takeAway device volume block offset entry previous
          return true
        else if offset + entry.recordLength.toUInt32 = volume.blockSize then return false
        else
          removeFrom device volume block name (some offset) (offset + entry.recordLength.toUInt32)
  else return false
termination_by volume.blockSize.toNat - offset.toNat
decreasing_by exact blockLeft_lt _hheader

/-- The loop of `Ext2DirectoryRemove` -/
def removeAmong (device : SteadyDevice) (name : List UInt8) :
    List ℕ → Action FileState String PUnit
  | [] => throw "the directory holds no name of that name to remove"
  | index :: indexes => do
      let s ← get
      let block ← Action.consult fun _ ↦ ext2InodeBlock device s.disk s.volume s.inode index
      if block = 0 then removeAmong device name indexes
      else
        let removed ← onDisk fun volume ↦ removeFrom device volume block name none 0
        if removed then return ⟨⟩ else removeAmong device name indexes

def ext2DirectoryRemove (device : SteadyDevice) (name : List UInt8) :
    Action FileState String PUnit := do
  let s ← get
  if s.volume.readOnly then throw "the volume is read-only and may not be altered"
  else if ¬ext2InodeIsDirectory s.inode.mode then
    throw "a name may be removed only from a directory"
  else if name.length = 0 ∨ name.length > ext2NameMaximum then
    throw "a name of no length, or longer than the format permits"
  else if name = [0x2E] ∨ name = [0x2E, 0x2E] then
    throw "the entries \".\" and \"..\" may not be removed"
  else removeAmong device name (List.range (directoryBlocks s.volume s.inode))

end OxysOS.Fs.Ext2
