import OxysOS.Fs.Ext2.Inode
import OxysOS.Fs.Ext2.Record

/-!
# The traversal of a directory

A cursor is at a record of a block of a directory.  A step passes over the records that name no
inode, and over the blocks that were never allocated, to the next entry or to the end.
-/

namespace OxysOS.Fs.Ext2

open OxysOS.Library

/-- `Ext2DirectoryCursor`, within a directory. -/
structure Ext2DirectoryCursor where
  index : ℕ
  offset : UInt32

def ext2DirectoryOpen : Ext2DirectoryCursor := ⟨0, 0⟩

/-- `Ext2DirectoryTraversable`, or why not. -/
def ext2DirectoryTraversable (volume : Superblock) (directory : Ext2Inode) : Except String PUnit :=
  if ¬ext2InodeIsDirectory directory.mode then .error "the inode is not a directory"
  else if directory.size = 0 then .error "a directory of no size holds not even its own entry"
  else if directory.size.toNat % volume.blockSize.toNat ≠ 0 then
    .error "a directory's size is not a whole number of blocks"
  else .ok ⟨⟩

def directoryBlocks (volume : Superblock) (directory : Ext2Inode) : ℕ :=
  directory.size.toNat / volume.blockSize.toNat

def Ext2DirectoryCursor.beyond (volume : Superblock) (cursor : Ext2DirectoryCursor)
    (entry : Ext2DirectoryEntry) : Ext2DirectoryCursor :=
  let offset := cursor.offset + entry.recordLength.toUInt32
  if offset = volume.blockSize then ⟨cursor.index + 1, 0⟩ else ⟨cursor.index, offset⟩

theorem of_ext2ReadEntryHeader {device : SteadyDevice} {disk : Bytes} {volume : Superblock}
    {block offset : UInt32} {entry : Ext2DirectoryEntry}
    (h : ext2ReadEntryHeader device disk volume block offset = .ok entry) :
    8 ≤ entry.recordLength.toNat ∧
      offset.toNat + entry.recordLength.toNat ≤ volume.blockSize.toNat ∧
        (offset + entry.recordLength.toUInt32).toNat =
          offset.toNat + entry.recordLength.toNat := by
  unfold ext2ReadEntryHeader at h
  cases hread : ext2ReadBytes device disk volume block offset ext2DirectoryHeaderSize with
  | error reason =>
      rw [hread] at h
      cases h
  | ok raw =>
      rw [hread] at h
      obtain ⟨-, hwithin⟩ := within_of_ext2ReadBytes hread
      change checkEntryHeader volume (parseEntryHeader volume block offset raw) = _ at h
      unfold checkEntryHeader at h
      split_ifs at h with hheader haligned hreach
      cases h
      have hsize := volume.blockSize.toNat_lt
      have hoffset : offset ≤ volume.blockSize := UInt32.le_iff_toNat_le.mpr (by omega)
      have hheader := UInt16.le_iff_toNat_le.mp (UInt16.not_lt.mp hheader)
      have hreach := UInt32.le_iff_toNat_le.mp (UInt32.not_lt.mp hreach)
      rw [UInt16.toNat_toUInt32] at hreach
      change _ ≤ (volume.blockSize - offset).toNat at hreach
      rw [UInt32.toNat_sub_of_le _ _ hoffset] at hreach
      have hwithin := UInt32.le_iff_toNat_le.mp hoffset
      refine ⟨hheader, by omega, ?_⟩
      rw [UInt32.toNat_add, UInt16.toNat_toUInt32, Nat.mod_eq_of_lt (by omega)]

def Ext2DirectoryCursor.left (volume : Superblock) (directory : Ext2Inode)
    (cursor : Ext2DirectoryCursor) : ℕ :=
  (directoryBlocks volume directory - cursor.index) * (volume.blockSize.toNat + 1) +
    (volume.blockSize.toNat - cursor.offset.toNat)

variable {device : SteadyDevice} {disk : Bytes} {volume : Superblock} {directory : Ext2Inode}
  {cursor next : Ext2DirectoryCursor} {block : UInt32} {entry : Ext2DirectoryEntry}

theorem Ext2DirectoryCursor.next_left (hmore : cursor.index < directoryBlocks volume directory) :
    (Ext2DirectoryCursor.mk (cursor.index + 1) 0).left volume directory <
      cursor.left volume directory := by
  obtain ⟨more, hblocks⟩ := Nat.exists_eq_add_of_lt hmore
  have hnow : directoryBlocks volume directory - cursor.index = more + 1 := by omega
  have hnext : directoryBlocks volume directory - (cursor.index + 1) = more := by omega
  unfold Ext2DirectoryCursor.left
  dsimp only
  rw [hnow, hnext, Nat.succ_mul]
  change _ + (_ - 0) < _
  omega

theorem Ext2DirectoryCursor.beyond_left (hmore : cursor.index < directoryBlocks volume directory)
    (h : ext2ReadEntryHeader device disk volume block cursor.offset = .ok entry) :
    (cursor.beyond volume entry).left volume directory < cursor.left volume directory := by
  obtain ⟨hheader, hwithin, hoffset⟩ := of_ext2ReadEntryHeader h
  unfold Ext2DirectoryCursor.beyond
  dsimp only
  split
  · exact Ext2DirectoryCursor.next_left hmore
  · unfold Ext2DirectoryCursor.left
    dsimp only
    omega

/-- The loop of `Ext2DirectoryNext` -/
def directoryNextFrom (device : SteadyDevice) (disk : Bytes) (volume : Superblock)
    (directory : Ext2Inode) (cursor : Ext2DirectoryCursor) :
    Except String (Option (Ext2DirectoryEntry × Ext2DirectoryCursor)) :=
  if _hmore : cursor.index < directoryBlocks volume directory then
    match ext2InodeBlock device disk volume directory cursor.index with
    | .error reason => .error reason
    | .ok block =>
        if block = 0 then
          directoryNextFrom device disk volume directory ⟨cursor.index + 1, 0⟩
        else if cursor.offset > volume.blockSize - ext2DirectoryHeaderSize then
          .error "a directory block ends in too little space for an entry"
        else match _hheader : ext2ReadEntryHeader device disk volume block cursor.offset with
          | .error reason => .error reason
          | .ok entry =>
              if entry.inode = 0 then
                directoryNextFrom device disk volume directory (cursor.beyond volume entry)
              else (ext2ReadEntryName device disk volume entry).map fun named ↦
                some (named, cursor.beyond volume entry)
  else .ok none
termination_by cursor.left volume directory
decreasing_by
  · exact Ext2DirectoryCursor.next_left _hmore
  · exact Ext2DirectoryCursor.beyond_left _hmore _hheader

def ext2DirectoryNext (device : SteadyDevice) (disk : Bytes) (volume : Superblock)
    (directory : Ext2Inode) (cursor : Ext2DirectoryCursor) :
    Except String (Option (Ext2DirectoryEntry × Ext2DirectoryCursor)) := do
  ext2DirectoryTraversable volume directory
  directoryNextFrom device disk volume directory cursor

theorem directoryNextFrom_left
    (h : directoryNextFrom device disk volume directory cursor = .ok (some (entry, next))) :
    next.left volume directory < cursor.left volume directory := by
  fun_induction directoryNextFrom device disk volume directory cursor with
  | case1 | case3 | case4 | case7 => cases h
  | case2 cursor hmore hhole ih => exact (ih h).trans (Ext2DirectoryCursor.next_left hmore)
  | case5 cursor hmore block hblock hzero hroom header hheader hunused ih =>
      exact (ih h).trans (Ext2DirectoryCursor.beyond_left hmore hheader)
  | case6 cursor hmore block hblock hzero hroom header hheader hused =>
      cases hname : ext2ReadEntryName device disk volume header with
      | error reason =>
          rw [hname] at h
          cases h
      | ok named =>
          rw [hname] at h
          cases h
          exact Ext2DirectoryCursor.beyond_left hmore hheader

theorem ext2DirectoryNext_left
    (h : ext2DirectoryNext device disk volume directory cursor = .ok (some (entry, next))) :
    next.left volume directory < cursor.left volume directory := by
  unfold ext2DirectoryNext at h
  cases htraversable : ext2DirectoryTraversable volume directory with
  | error reason =>
      rw [htraversable] at h
      cases h
  | ok done =>
      rw [htraversable] at h
      exact directoryNextFrom_left h

/-- The loop of `Ext2DirectoryFind`. -/
def directoryFindFrom (device : SteadyDevice) (disk : Bytes) (volume : Superblock)
    (directory : Ext2Inode) (name : List UInt8) (cursor : Ext2DirectoryCursor) :
    Except String Ext2DirectoryEntry :=
  match _hnext : ext2DirectoryNext device disk volume directory cursor with
  | .error reason => .error reason
  | .ok none => .error "the directory holds no entry of that name"
  | .ok (some (entry, next)) =>
      if entry.nameLength = UInt16.ofNat name.length ∧ entry.name = name then .ok entry
      else directoryFindFrom device disk volume directory name next
termination_by cursor.left volume directory
decreasing_by exact ext2DirectoryNext_left _hnext

def ext2DirectoryFind (device : SteadyDevice) (disk : Bytes) (volume : Superblock)
    (directory : Ext2Inode) (name : List UInt8) : Except String Ext2DirectoryEntry :=
  if name.length = 0 then .error "a name of no length names nothing"
  else if name.length > ext2NameMaximum then
    .error "a name longer than the format permits can be upon no volume"
  else directoryFindFrom device disk volume directory name ext2DirectoryOpen

structure Listed where
  name : List UInt8
  number : UInt32
  fileType : UInt8
  deriving DecidableEq

def Ext2DirectoryEntry.listed (entry : Ext2DirectoryEntry) : Listed :=
  ⟨entry.name, entry.inode, entry.fileType⟩

/-- The entries that steps come to, one after another, from a cursor to the end. -/
inductive ListsFrom (device : SteadyDevice) (disk : Bytes) (volume : Superblock)
    (directory : Ext2Inode) : Ext2DirectoryCursor → List Listed → Prop
  | ended {cursor : Ext2DirectoryCursor}
      (h : ext2DirectoryNext device disk volume directory cursor = .ok none) :
      ListsFrom device disk volume directory cursor []
  | entry {cursor next : Ext2DirectoryCursor} {entry : Ext2DirectoryEntry} {rest : List Listed}
      (h : ext2DirectoryNext device disk volume directory cursor = .ok (some (entry, next)))
      (hrest : ListsFrom device disk volume directory next rest) :
      ListsFrom device disk volume directory cursor (entry.listed :: rest)

def Lists (device : SteadyDevice) (disk : Bytes) (volume : Superblock) (directory : Ext2Inode)
    (entries : List Listed) : Prop :=
  ListsFrom device disk volume directory ext2DirectoryOpen entries

theorem ListsFrom.of_next {cursor' : Ext2DirectoryCursor} {entries : List Listed}
    (h : ListsFrom device disk volume directory cursor' entries)
    (hnext : ext2DirectoryNext device disk volume directory cursor =
      ext2DirectoryNext device disk volume directory cursor') :
    ListsFrom device disk volume directory cursor entries := by
  cases h with
  | ended h => exact .ended (hnext.trans h)
  | entry h hrest => exact .entry (hnext.trans h) hrest

end OxysOS.Fs.Ext2
