import OxysOS.Fs.Ext2.Device
import OxysOS.Fs.Ext2.Path
import OxysOS.Library.Tiling

/-!
# The records of a directory

A record is a header of eight bytes and a name.  A header is refused where it contradicts itself,
its block or its volume.  What is accepted is a `Record`, a matter of its own bytes alone.
-/

namespace OxysOS.Fs.Ext2

open OxysOS.Library

def ext2DirectoryHeaderSize : UInt32 := 8

def ext2NameMaximum : ℕ := 255

def ext2RecordLength (nameLength : ℕ) : UInt16 := UInt16.ofNat ((8 + nameLength + 3) / 4 * 4)

structure Ext2DirectoryEntry where
  inode : UInt32
  recordLength : UInt16
  nameLength : UInt16
  fileType : UInt8
  name : List UInt8
  block : UInt32
  offset : UInt32

def ext2VolumeStatesFileType (volume : Superblock) : Bool :=
  volume.featureIncompatible &&& ext2FeatureIncompatFiletype ≠ 0

def nameLengthOf (volume : Superblock) (raw : Bytes) (offset : ℕ) : UInt16 :=
  if ext2VolumeStatesFileType volume then (raw (offset + 6)).toUInt16
  else ext2ReadHalf raw (offset + 6)

def fileTypeOf (volume : Superblock) (raw : Bytes) (offset : ℕ) : UInt8 :=
  if ext2VolumeStatesFileType volume then raw (offset + 7) else ext2FtUnknown

def parseEntryHeader (volume : Superblock) (block offset : UInt32) (raw : Bytes) :
    Ext2DirectoryEntry where
  inode := ext2ReadWord raw 0
  recordLength := ext2ReadHalf raw 4
  nameLength := nameLengthOf volume raw 0
  fileType := fileTypeOf volume raw 0
  name := []
  block := block
  offset := offset

/-- What `Ext2ReadEntryHeader` requires of a header. -/
def checkEntryHeader (volume : Superblock) (entry : Ext2DirectoryEntry) :
    Except String Ext2DirectoryEntry :=
  if entry.recordLength < 8 then .error "a directory entry is shorter than its own header"
  else if entry.recordLength % 4 ≠ 0 then
    .error "a directory entry is not a multiple of four bytes long"
  else if entry.recordLength.toUInt32 > volume.blockSize - entry.offset then
    .error "a directory entry reaches beyond the block that holds it"
  else if entry.nameLength > entry.recordLength - 8 then
    .error "a directory entry's name does not fit within it"
  else if entry.nameLength > 255 then
    .error "a directory entry's name is longer than the format permits"
  else if entry.inode ≠ 0 ∧ entry.inode > volume.inodeCount then
    .error "a directory entry names an inode the volume does not hold"
  else if entry.inode ≠ 0 ∧ entry.nameLength = 0 then
    .error "a directory entry in use bears no name"
  else .ok entry

def ext2ReadEntryHeader (device : SteadyDevice) (disk : Bytes) (volume : Superblock)
    (block offset : UInt32) : Except String Ext2DirectoryEntry := do
  let raw ← ext2ReadBytes device disk volume block offset ext2DirectoryHeaderSize
  checkEntryHeader volume (parseEntryHeader volume block offset raw)

def Addressable (name : List UInt8) : Prop := ∀ letter ∈ name, letter ≠ separator ∧ letter ≠ 0

instance (name : List UInt8) : Decidable (Addressable name) :=
  inferInstanceAs (Decidable (∀ letter ∈ name, _))

def ext2ReadEntryName (device : SteadyDevice) (disk : Bytes) (volume : Superblock)
    (entry : Ext2DirectoryEntry) : Except String Ext2DirectoryEntry := do
  let raw ← ext2ReadBytes device disk volume entry.block (entry.offset + ext2DirectoryHeaderSize)
    entry.nameLength.toUInt32
  let name := slice raw 0 entry.nameLength.toNat
  if Addressable name then return { entry with name }
  else throw "a directory entry's name holds a separator or a null byte"

structure Record where
  number : UInt32
  extent : ℕ
  fileType : UInt8
  name : List UInt8

def Record.needed (record : Record) : ℕ := (8 + record.name.length + 3) / 4 * 4

structure Record.Valid (volume : Superblock) (record : Record) : Prop where
  aligned : 4 ∣ record.extent
  room : 8 + record.name.length ≤ record.extent
  short : record.name.length ≤ ext2NameMaximum
  named : record.number ≠ 0 → record.number ≤ volume.inodeCount ∧ record.name ≠ [] ∧
    Addressable record.name

structure RecordAt (volume : Superblock) (raw : Bytes) (offset : ℕ) (record : Record) : Prop where
  number : ext2ReadWord raw offset = record.number
  extent : (ext2ReadHalf raw (offset + 4)).toNat = record.extent
  nameLength : (nameLengthOf volume raw offset).toNat = record.name.length
  fileType : fileTypeOf volume raw offset = record.fileType
  name : slice raw (offset + 8) record.name.length = record.name

def Stands (volume : Superblock) (raw : Bytes) (offset : ℕ) (record : Record) : Prop :=
  RecordAt volume raw offset record ∧ record.Valid volume

def Record.header (record : Record) (block offset : UInt32) : Ext2DirectoryEntry where
  inode := record.number
  recordLength := UInt16.ofNat record.extent
  nameLength := UInt16.ofNat record.name.length
  fileType := record.fileType
  name := []
  block := block
  offset := offset

variable {device : SteadyDevice} {disk raw raw' : Bytes} {volume : Superblock}
  {block offset : UInt32} {record : Record} {place : ℕ}

theorem Record.Valid.needed_le (h : record.Valid volume) : record.needed ≤ record.extent := by
  have haligned := h.aligned
  have hroom := h.room
  unfold Record.needed
  omega

theorem Record.needed_ge (record : Record) : 8 + record.name.length ≤ record.needed := by
  unfold Record.needed
  omega

theorem Record.dvd_needed (record : Record) : 4 ∣ record.needed := Nat.dvd_mul_left ..

theorem nameLengthOf_congr (h : ∀ i, place + 6 ≤ i → i < place + 8 → raw i = raw' i) :
    nameLengthOf volume raw place = nameLengthOf volume raw' place := by
  unfold nameLengthOf
  rw [h (place + 6) (by omega) (by omega), ext2ReadHalf_congr fun i hi hlt ↦ h i hi (by omega)]

theorem fileTypeOf_congr (h : raw (place + 7) = raw' (place + 7)) :
    fileTypeOf volume raw place = fileTypeOf volume raw' place := by
  unfold fileTypeOf
  rw [h]

theorem RecordAt.congr (h : RecordAt volume raw place record)
    (hsame : ∀ i, place ≤ i → i < place + (8 + record.name.length) → raw i = raw' i) :
    RecordAt volume raw' place record where
  number := by
    rw [← h.number]
    exact ext2ReadWord_congr fun i hi hlt ↦ (hsame i (by omega) (by omega)).symm
  extent := by
    rw [← h.extent, ext2ReadHalf_congr fun i hi hlt ↦ hsame i (by omega) (by omega)]
  nameLength := by
    rw [← h.nameLength, nameLengthOf_congr fun i hi hlt ↦ hsame i (by omega) (by omega)]
  fileType := by
    rw [← h.fileType]
    exact fileTypeOf_congr (hsame _ (by omega) (by omega)).symm
  name := (slice_congr fun i hi hlt ↦ (hsame i (by omega) (by omega)).symm).trans h.name

theorem stands_standalone (volume : Superblock) : Standalone (Stands volume) Record.extent := by
  intro run run' start record h hsame
  have hroom := h.2.room
  exact ⟨h.1.congr fun i hi hlt ↦ hsame i hi (by omega), h.2⟩

theorem RecordAt.extent_lt (h : RecordAt volume raw place record) : record.extent < 2 ^ 16 := by
  rw [← h.extent]
  exact UInt16.toNat_lt _

theorem RecordAt.recordLength (h : RecordAt volume raw place record) :
    ext2ReadHalf raw (place + 4) = UInt16.ofNat record.extent := by
  rw [← h.extent, UInt16.ofNat_toNat]

theorem header_fields (volume : Superblock) (hsame : ∀ i < 8, raw' i = raw (place + i)) :
    ext2ReadWord raw' 0 = ext2ReadWord raw place ∧
      ext2ReadHalf raw' 4 = ext2ReadHalf raw (place + 4) ∧
        nameLengthOf volume raw' 0 = nameLengthOf volume raw place ∧
          fileTypeOf volume raw' 0 = fileTypeOf volume raw place := by
  have hhalf : ∀ i, i + 1 < 8 → ext2ReadHalf raw' i = ext2ReadHalf raw (place + i) := by
    intro i hi
    unfold ext2ReadHalf
    rw [hsame i (by omega), hsame (i + 1) hi]
    rfl
  refine ⟨?_, hhalf 4 (by decide), ?_, ?_⟩
  · unfold ext2ReadWord
    rw [hsame 0 (by decide), hsame (0 + 1) (by decide), hsame (0 + 2) (by decide),
      hsame (0 + 3) (by decide)]
    rfl
  · unfold nameLengthOf
    rw [hsame (0 + 6) (by decide), hhalf (0 + 6) (by decide)]
  · unfold fileTypeOf
    rw [hsame (0 + 7) (by decide)]

theorem parseEntryHeader_eq (h : RecordAt volume raw place record)
    (hsame : ∀ i < 8, raw' i = raw (place + i)) :
    parseEntryHeader volume block offset raw' = record.header block offset := by
  obtain ⟨hnumber, hextent, hlength, htype⟩ := header_fields volume hsame
  unfold parseEntryHeader Record.header
  rw [hnumber, h.number, hextent, h.recordLength, hlength, htype, h.fileType, ← h.nameLength,
    UInt16.ofNat_toNat]

theorem checkEntryHeader_header (hvalid : record.Valid volume) (hextent : record.extent < 2 ^ 16)
    (hwithin : offset.toNat + record.extent ≤ volume.blockSize.toNat) :
    checkEntryHeader volume (record.header block offset) = .ok (record.header block offset) := by
  have haligned := hvalid.aligned
  have hroom := hvalid.room
  have hshort := hvalid.short
  have hlength : (UInt16.ofNat record.extent).toNat = record.extent :=
    UInt16.toNat_ofNat_of_lt' hextent
  have hname : (UInt16.ofNat record.name.length).toNat = record.name.length :=
    UInt16.toNat_ofNat_of_lt' (Nat.lt_of_le_of_lt hshort (by decide))
  have hoffset : offset ≤ volume.blockSize := UInt32.le_iff_toNat_le.mpr (by omega)
  have hheader : (8 : UInt16) ≤ UInt16.ofNat record.extent := by
    rw [UInt16.le_iff_toNat_le, hlength]
    exact Nat.le_trans (Nat.le_add_right 8 _) hroom
  unfold checkEntryHeader Record.header
  dsimp only
  rw [if_neg (UInt16.not_lt.mpr hheader), if_neg, if_neg, if_neg, if_neg, if_neg, if_neg]
  · rintro ⟨hused, hzero⟩
    obtain ⟨-, hnamed, -⟩ := hvalid.named hused
    rw [hzero] at hname
    exact hnamed (List.length_eq_zero_iff.mp hname.symm)
  · rintro ⟨hused, hover⟩
    exact absurd (hvalid.named hused).1 (UInt32.not_le.mpr hover)
  · rw [gt_iff_lt, UInt16.lt_iff_toNat_lt, hname]
    exact Nat.not_lt.mpr hshort
  · rw [gt_iff_lt, UInt16.lt_iff_toNat_lt, UInt16.toNat_sub_of_le _ _ hheader, hname, hlength]
    change ¬record.extent - 8 < _
    omega
  · rw [gt_iff_lt, UInt32.lt_iff_toNat_lt, UInt32.toNat_sub_of_le _ _ hoffset,
      UInt16.toNat_toUInt32, hlength]
    omega
  · rw [not_not, ← UInt16.toNat_inj, UInt16.toNat_mod, hlength]
    exact Nat.mod_eq_zero_of_dvd haligned

theorem ext2ReadEntryHeader_eq (device : SteadyDevice) (hblock : block < volume.blockCount)
    (h : Stands volume (blockBytes volume disk block) offset.toNat record)
    (hwithin : offset.toNat + record.extent ≤ volume.blockSize.toNat) :
    ext2ReadEntryHeader device disk volume block offset = .ok (record.header block offset) := by
  have hroom := h.2.room
  have height : ext2DirectoryHeaderSize.toNat = 8 := rfl
  unfold ext2ReadEntryHeader
  rw [ext2ReadBytes_eq device disk hblock (by omega)]
  change checkEntryHeader volume (parseEntryHeader volume block offset _) = _
  refine (congrArg (checkEntryHeader volume) ?_).trans
    (checkEntryHeader_header h.2 h.1.extent_lt hwithin)
  exact parseEntryHeader_eq h.1 fun i hi ↦ read_apply _ hi

theorem ext2ReadEntryName_eq (device : SteadyDevice) (hblock : block < volume.blockCount)
    (h : Stands volume (blockBytes volume disk block) offset.toNat record)
    (hwithin : offset.toNat + record.extent ≤ volume.blockSize.toNat)
    (hused : record.number ≠ 0) :
    ext2ReadEntryName device disk volume (record.header block offset) =
      .ok { record.header block offset with name := record.name } := by
  have hroom := h.2.room
  have hshort := h.2.short
  have hsize := volume.blockSize.toNat_lt
  have hname : (UInt16.ofNat record.name.length).toNat = record.name.length :=
    UInt16.toNat_ofNat_of_lt' (Nat.lt_of_le_of_lt hshort (by decide))
  have hplace : (offset + ext2DirectoryHeaderSize).toNat = offset.toNat + 8 := by
    rw [UInt32.toNat_add]
    exact Nat.mod_eq_of_lt (by change offset.toNat + 8 < _; omega)
  have hlength : (UInt16.ofNat record.name.length).toUInt32.toNat = record.name.length := by
    rw [UInt16.toNat_toUInt32, hname]
  unfold ext2ReadEntryName
  dsimp only [Record.header]
  rw [ext2ReadBytes_eq device disk hblock (by rw [hplace, hlength]; omega)]
  change (if Addressable (slice _ 0 _) then _ else _) = _
  have hslice : slice (splice (fun _ ↦ 0) 0 (UInt16.ofNat record.name.length).toUInt32.toNat
      fun i ↦ blockBytes volume disk block ((offset + ext2DirectoryHeaderSize).toNat + i)) 0
        (UInt16.ofNat record.name.length).toNat = record.name := by
    rw [hname, hlength, hplace]
    refine Eq.trans ?_ h.1.name
    unfold slice
    refine List.map_congr_left fun i hi ↦ ?_
    rw [Nat.zero_add]
    exact read_apply _ (List.mem_range.mp hi)
  rw [hslice, if_pos (h.2.named hused).2.2]
  rfl

end OxysOS.Fs.Ext2
