import OxysOS.Fs.Ext2.Name

/-!
# Editing the records of a block

What an insertion and a removal do to the list of the records of a block, and that they do it to the
bytes.
-/

namespace OxysOS.Fs.Ext2

open OxysOS.Library Action

variable {device : SteadyDevice} {volume : Superblock} {disk disk' disk'' raw : Bytes}
  {block number offset : UInt32} {name : List UInt8} {fileType : UInt8} {needed : ℕ}
  {record : Record} {records records' : List Record}

def Record.listed? (record : Record) : Option Listed :=
  if record.number = 0 then none else some ⟨record.name, record.number, record.fileType⟩

def listedOf (records : List Record) : List Listed := records.filterMap Record.listed?

def insertRecord (new : ℕ → Record) (needed : ℕ) : List Record → Option (List Record)
  | [] => none
  | record :: records =>
      if record.number = 0 ∧ needed ≤ record.extent then some (new record.extent :: records)
      else if record.number ≠ 0 ∧ needed + record.needed ≤ record.extent then
        some ({ record with extent := record.needed } ::
          new (record.extent - record.needed) :: records)
      else (insertRecord new needed records).map (record :: ·)

def Record.Bears (name : List UInt8) (record : Record) : Prop :=
  record.number ≠ 0 ∧ record.name = name

instance (name : List UInt8) (record : Record) : Decidable (record.Bears name) :=
  inferInstanceAs (Decidable (_ ∧ _))

def removeNext (name : List UInt8) : Option Record → List Record → Option (List Record)
  | _, [] => none
  | before, record :: records =>
      if record.Bears name then
        some (before.elim { record with number := 0 }
          (fun before ↦ { before with extent := before.extent + record.extent }) :: records)
      else (removeNext name (some record) records).map (before.toList ++ ·)

@[simp] theorem listedOf_cons (record : Record) (records : List Record) :
    listedOf (record :: records) = record.listed?.toList ++ listedOf records := by
  unfold listedOf
  rw [List.filterMap_cons]
  cases record.listed? <;> rfl

def newRecord (volume : Superblock) (number : UInt32) (name : List UInt8) (fileType : UInt8)
    (extent : ℕ) : Record where
  number := number
  extent := extent
  fileType := if ext2VolumeStatesFileType volume then fileType else ext2FtUnknown
  name := name

def newListed (volume : Superblock) (number : UInt32) (name : List UInt8) (fileType : UInt8) :
    Listed where
  name := name
  number := number
  fileType := if ext2VolumeStatesFileType volume then fileType else ext2FtUnknown

theorem listedOf_append (records records' : List Record) :
    listedOf (records ++ records') = listedOf records ++ listedOf records' :=
  List.filterMap_append

theorem listedOf_insertRecord (hnumber : number ≠ 0)
    (h : insertRecord (newRecord volume number name fileType) needed records = some records') :
    ∃ before after, listedOf records = before ++ after ∧
      listedOf records' = before ++ newListed volume number name fileType :: after := by
  induction records generalizing records' with
  | nil => cases h
  | cons record records ih =>
      have hnew : ∀ extent, (newRecord volume number name fileType extent).listed?.toList =
          [newListed volume number name fileType] := by
        intro extent
        simp [Record.listed?, newRecord, newListed, hnumber]
      unfold insertRecord at h
      split_ifs at h with hunused hslack
      · cases h
        refine ⟨[], listedOf records, ?_, ?_⟩
        · simp [Record.listed?, hunused.1]
        · simp [hnew]
      · cases h
        refine ⟨record.listed?.toList, listedOf records, listedOf_cons record records, ?_⟩
        rw [listedOf_cons, listedOf_cons, hnew]
        rfl
      · obtain ⟨rest, hrest, rfl⟩ := Option.map_eq_some_iff.mp h
        obtain ⟨before, after, hlisted, hlisted'⟩ := ih hrest
        refine ⟨record.listed?.toList ++ before, after, ?_, ?_⟩
        · rw [listedOf_cons, hlisted, List.append_assoc]
        · rw [listedOf_cons, hlisted', List.append_assoc]

def Record.HasRoom (needed : ℕ) (record : Record) : Prop :=
  if record.number = 0 then needed ≤ record.extent else needed + record.needed ≤ record.extent

theorem insertRecord_eq_none_iff (new : ℕ → Record) :
    insertRecord new needed records = none ↔ ∀ record ∈ records, ¬record.HasRoom needed := by
  induction records with
  | nil => simp [insertRecord]
  | cons record records ih =>
      unfold insertRecord
      by_cases hzero : record.number = 0
      · by_cases hroom : needed ≤ record.extent <;> simp [hzero, hroom, ih, Record.HasRoom]
      · by_cases hroom : needed + record.needed ≤ record.extent <;>
          simp [hzero, hroom, ih, Record.HasRoom]

theorem listed?_of_bears (h : record.Bears name) :
    record.listed? = some ⟨name, record.number, record.fileType⟩ := by
  unfold Record.listed?
  rw [if_neg h.1, h.2]

theorem listedOf_removeNext {first : Option Record}
    (h : removeNext name first records = some records') :
    ∃ before entry after, listedOf (first.toList ++ records) = before ++ entry :: after ∧
      entry.name = name ∧ listedOf records' = before ++ after := by
  induction records generalizing first records' with
  | nil => cases h
  | cons record records ih =>
      unfold removeNext at h
      split_ifs at h with hbears
      · cases h
        refine ⟨listedOf first.toList, ⟨name, record.number, record.fileType⟩, listedOf records, ?_,
          rfl, ?_⟩
        · simp [listedOf_append, listed?_of_bears hbears]
        · cases first with
          | none => simp [listedOf, Record.listed?]
          | some first => exact listedOf_append [first] records
      · obtain ⟨rest, hrest, rfl⟩ := Option.map_eq_some_iff.mp h
        obtain ⟨before, entry, after, hlisted, hname, hlisted'⟩ := ih hrest
        refine ⟨listedOf first.toList ++ before, entry, after, ?_, hname, ?_⟩
        · rw [listedOf_append, List.append_assoc, ← hlisted]
          rfl
        · rw [listedOf_append, hlisted', List.append_assoc]

theorem not_bears_of_removeNext {first : Option Record} (h : removeNext name first records = none) :
    ∀ record ∈ records, ¬record.Bears name := by
  induction records generalizing first with
  | nil => simp
  | cons record records ih =>
      unfold removeNext at h
      split_ifs at h with hbears
      exact List.forall_mem_cons.mpr ⟨hbears, ih (Option.map_eq_none_iff.mp h)⟩

abbrev TiledFrom (volume : Superblock) (disk : Bytes) (block : UInt32) (place : ℕ)
    (records : List Record) : Prop :=
  Tiles (Stands volume) Record.extent (blockBytes volume disk block) place records
    volume.blockSize.toNat

def SameBut (volume : Superblock) (block : UInt32) (first last : ℕ) (disk disk' : Bytes) : Prop :=
  ∀ position, ¬(block.toNat * volume.blockSize.toNat + first ≤ position ∧
    position < block.toNat * volume.blockSize.toNat + last) → disk' position = disk position

variable {first last place i : ℕ}

theorem SameBut.trans (h : SameBut volume block first last disk disk')
    (h' : SameBut volume block first last disk' disk'') :
    SameBut volume block first last disk disk'' :=
  fun position hout ↦ (h' position hout).trans (h position hout)

theorem SameBut.mono {first' last' : ℕ} (h : SameBut volume block first last disk disk')
    (hfirst : first' ≤ first) (hlast : last ≤ last') :
    SameBut volume block first' last' disk disk' :=
  fun position hout ↦ h position (by omega)

theorem SameBut.splice (volume : Superblock) (block : UInt32) (disk : Bytes) (offset length : ℕ)
    (source : Bytes) : SameBut volume block offset (offset + length) disk
      (splice disk (block.toNat * volume.blockSize.toNat + offset) length source) :=
  fun position hout ↦ if_neg (by omega)

theorem SameBut.bytes (h : SameBut volume block first last disk disk')
    (hi : i < first ∨ last ≤ i) :
    blockBytes volume disk' block i = blockBytes volume disk block i :=
  h _ (by omega)

theorem SameBut.other (h : SameBut volume block first last disk disk') {other : UInt32}
    (hne : other ≠ block) (hlast : last ≤ volume.blockSize.toNat)
    (hi : i < volume.blockSize.toNat) :
    blockBytes volume disk' other i = blockBytes volume disk other i := by
  apply h
  rcases Nat.lt_or_gt_of_ne fun heq ↦ hne (UInt32.toNat_inj.mp heq) with hlt | hlt
  · have hbefore := Nat.mul_le_mul_right volume.blockSize.toNat (Nat.succ_le_of_lt hlt)
    rw [Nat.succ_mul] at hbefore
    omega
  · have hafter := Nat.mul_le_mul_right volume.blockSize.toNat (Nat.succ_le_of_lt hlt)
    rw [Nat.succ_mul] at hafter
    omega

theorem RecordAt.of_header (header : Bytes)
    (hsame : ∀ i < 8, header i = raw (place + i)) (hnumber : ext2ReadWord header 0 = record.number)
    (hextent : (ext2ReadHalf header 4).toNat = record.extent)
    (hlength : (nameLengthOf volume header 0).toNat = record.name.length)
    (htype : fileTypeOf volume header 0 = record.fileType)
    (hname : slice raw (place + 8) record.name.length = record.name) :
    RecordAt volume raw place record := by
  obtain ⟨hnumber', hextent', hlength', htype'⟩ := header_fields volume hsame
  exact ⟨hnumber' ▸ hnumber, hextent' ▸ hextent, hlength' ▸ hlength, htype' ▸ htype, hname⟩

theorem RecordAt.header {header : Bytes} (h : RecordAt volume raw place record)
    (hsame : ∀ i < 8, header i = raw (place + i)) : ext2ReadWord header 0 = record.number ∧
      (ext2ReadHalf header 4).toNat = record.extent ∧
        (nameLengthOf volume header 0).toNat = record.name.length ∧
          fileTypeOf volume header 0 = record.fileType := by
  obtain ⟨hnumber, hextent, hlength, htype⟩ := header_fields volume hsame
  exact ⟨hnumber.trans h.number, hextent ▸ h.extent, hlength ▸ h.nameLength, htype.trans h.fileType⟩

theorem RecordAt.lengthened {header : Bytes} (h : RecordAt volume raw place record)
    (hsame : ∀ i < 8, header i = raw (place + i)) (length : UInt16) :
    RecordAt volume (splice raw place 8 (ext2WriteHalf header 4 length)) place
      { record with extent := length.toNat } := by
  obtain ⟨hnumber, -, hlength, htype⟩ := h.header hsame
  refine RecordAt.of_header (ext2WriteHalf header 4 length) (fun i hi ↦ ?_) ?_ ?_ ?_ ?_ ?_
  · rw [splice_of_mem (by omega) (by omega), Nat.add_sub_cancel_left]
  · rw [ext2ReadWord_ext2WriteHalf_of_ne length (by omega), hnumber]
  · rw [ext2ReadHalf_ext2WriteHalf]
  · rw [nameLengthOf_congr fun i hi hlt ↦ ext2WriteHalf_of_ne length (by omega), hlength]
  · rw [fileTypeOf_congr (ext2WriteHalf_of_ne length (by omega)), htype]
  · exact (slice_congr fun i hi hlt ↦ splice_of_le (by omega)).trans h.name

theorem RecordAt.blanked {header : Bytes} (h : RecordAt volume raw place record)
    (hsame : ∀ i < 8, header i = raw (place + i)) :
    RecordAt volume (splice raw place 8 (ext2WriteWord header 0 0)) place
      { record with number := 0 } := by
  obtain ⟨-, hextent, hlength, htype⟩ := h.header hsame
  refine RecordAt.of_header (ext2WriteWord header 0 0) (fun i hi ↦ ?_) ?_ ?_ ?_ ?_ ?_
  · rw [splice_of_mem (by omega) (by omega), Nat.add_sub_cancel_left]
  · exact ext2ReadWord_ext2WriteWord header 0 0
  · rw [ext2ReadHalf_ext2WriteWord_of_ne 0 (by omega), hextent]
  · rw [nameLengthOf_congr fun i hi hlt ↦ ext2WriteWord_of_ne 0 (by omega), hlength]
  · rw [fileTypeOf_congr (ext2WriteWord_of_ne 0 (by omega)), htype]
  · exact (slice_congr fun i hi hlt ↦ splice_of_le (by omega)).trans h.name

theorem ext2ComposeEntryHeader_fields (volume : Superblock) (raw : Bytes) (number : UInt32) (recordLength : UInt16)
    (nameLength : UInt16) (fileType : UInt8) (hshort : nameLength.toNat ≤ ext2NameMaximum) :
    ext2ReadWord (ext2ComposeEntryHeader raw number recordLength nameLength fileType
        (ext2VolumeStatesFileType volume)) 0 = number ∧
      ext2ReadHalf (ext2ComposeEntryHeader raw number recordLength nameLength fileType
        (ext2VolumeStatesFileType volume)) 4 = recordLength ∧
      nameLengthOf volume (ext2ComposeEntryHeader raw number recordLength nameLength fileType
        (ext2VolumeStatesFileType volume)) 0 = nameLength ∧
      fileTypeOf volume (ext2ComposeEntryHeader raw number recordLength nameLength fileType
        (ext2VolumeStatesFileType volume)) 0 =
          if ext2VolumeStatesFileType volume then fileType else ext2FtUnknown := by
  have hword : ∀ header : Bytes, (∀ i < 6, header i =
      ext2WriteHalf (ext2WriteWord raw 0 number) 4 recordLength i) →
        ext2ReadWord header 0 = number ∧ ext2ReadHalf header 4 = recordLength := by
    intro header hsame
    rw [ext2ReadWord_congr fun i hi hlt ↦ hsame i (by omega),
      ext2ReadHalf_congr fun i hi hlt ↦ hsame i (by omega),
      ext2ReadWord_ext2WriteHalf_of_ne _ (by omega), ext2ReadWord_ext2WriteWord,
      ext2ReadHalf_ext2WriteHalf]
    exact ⟨rfl, rfl⟩
  unfold ext2ComposeEntryHeader nameLengthOf fileTypeOf
  dsimp only
  cases ext2VolumeStatesFileType volume with
  | true =>
      obtain ⟨hnumber, hlength⟩ := hword (Function.update (Function.update
        (ext2WriteHalf (ext2WriteWord raw 0 number) 4 recordLength) 6 nameLength.toUInt8) 7 fileType)
        fun i hi ↦ by simp (disch := omega) only [Function.update_of_ne]
      have hbyte : nameLength.toUInt8.toUInt16 = nameLength := by
        apply UInt16.toNat_inj.mp
        rw [UInt8.toNat_toUInt16, UInt16.toNat_toUInt8]
        exact Nat.mod_eq_of_lt (Nat.lt_of_le_of_lt hshort (by decide))
      refine ⟨hnumber, hlength, ?_, ?_⟩
      · simpa using hbyte
      · simp
  | false =>
      obtain ⟨hnumber, hlength⟩ := hword (ext2WriteHalf
        (ext2WriteHalf (ext2WriteWord raw 0 number) 4 recordLength) 6 nameLength)
        fun i hi ↦ ext2WriteHalf_of_ne nameLength (by omega)
      refine ⟨hnumber, hlength, ?_, ?_⟩
      · simp
      · simp

theorem alterEntryHeader_ok (device : SteadyDevice) (disk : Bytes)
    (hblock : block < volume.blockCount) (hwithin : offset.toNat + 8 ≤ volume.blockSize.toNat)
    (alter : Bytes → Bytes) :
    ∃ header, (∀ i < 8, header i = blockBytes volume disk block (offset.toNat + i)) ∧
      outcome (alterEntryHeader device volume block offset alter) disk = (.ok ⟨⟩,
        splice disk (block.toNat * volume.blockSize.toNat + offset.toNat) 8 (alter header)) := by
  refine ⟨splice (fun _ ↦ 0) 0 8 fun i ↦ blockBytes volume disk block (offset.toNat + i),
    fun i hi ↦ read_apply _ hi, ?_⟩
  unfold alterEntryHeader
  rw [outcome_bind, outcome_consult, ext2ReadBytes_eq device disk hblock hwithin]
  exact outcome_writeBytes device disk hblock hwithin _

theorem ext2PutEntry_ok (device : SteadyDevice) (disk : Bytes) (hblock : block < volume.blockCount)
    (hwithin : offset.toNat + (8 + name.length) ≤ volume.blockSize.toNat)
    (hshort : name.length ≤ ext2NameMaximum) (number : UInt32) (recordLength : UInt16)
    (fileType : UInt8) :
    ∃ disk', outcome (ext2PutEntry device volume block offset number recordLength name fileType)
        disk = (.ok ⟨⟩, disk') ∧
      SameBut volume block offset.toNat (offset.toNat + (8 + name.length)) disk disk' ∧
        RecordAt volume (blockBytes volume disk' block) offset.toNat
          (newRecord volume number name fileType recordLength.toNat) := by
  have hsize := volume.blockSize.toNat_lt
  have hname : (UInt16.ofNat name.length).toNat = name.length :=
    UInt16.toNat_ofNat_of_lt' (Nat.lt_of_le_of_lt hshort (by decide))
  have hlength : (UInt32.ofNat name.length).toNat = name.length :=
    UInt32.toNat_ofNat_of_lt' (Nat.lt_of_le_of_lt hshort (by decide))
  have hplace : (offset + ext2DirectoryHeaderSize).toNat = offset.toNat + 8 := by
    rw [UInt32.toNat_add]
    exact Nat.mod_eq_of_lt (by change offset.toNat + 8 < _; omega)
  have hnothing : ∀ (run source : Bytes) (place : ℕ), splice run place 0 source = run :=
    fun run source place ↦ funext fun i ↦ if_neg (by omega)
  obtain ⟨hnumber, hextent, hnameLength, htype⟩ := ext2ComposeEntryHeader_fields volume
    (fun _ ↦ 0) number recordLength (UInt16.ofNat name.length) fileType (hname.symm ▸ hshort)
  unfold ext2PutEntry
  dsimp only
  generalize ext2ComposeEntryHeader (fun _ ↦ 0) number recordLength (UInt16.ofNat name.length)
    fileType (ext2VolumeStatesFileType volume) = header at hnumber hextent hnameLength htype
  have hheader : offset.toNat + ext2DirectoryHeaderSize.toNat ≤ volume.blockSize.toNat := by
    change offset.toNat + 8 ≤ _
    omega
  rw [outcome_bind, outcome_writeBytes device disk hblock hheader]
  dsimp only
  generalize hwritten : splice disk (block.toNat * volume.blockSize.toNat + offset.toNat)
    ext2DirectoryHeaderSize.toNat header = written
  have hrest : outcome (if name.length = 0 then pure ⟨⟩ else writing fun disk ↦
      ext2WriteBytes device disk volume block (offset + ext2DirectoryHeaderSize)
        (UInt32.ofNat name.length) fun i ↦ name.getD i 0) written = (.ok ⟨⟩,
      splice written (block.toNat * volume.blockSize.toNat + (offset.toNat + 8)) name.length
        fun i ↦ name.getD i 0) := by
    split
    · next hzero => rw [hzero, hnothing, outcome_pure]
    · rw [outcome_writeBytes device written hblock (by omega), hplace, hlength]
  refine ⟨_, hrest, ?_, ?_⟩
  · have hsame : SameBut volume block offset.toNat (offset.toNat + (8 + name.length)) disk
        written := by
      rw [← hwritten]
      exact (SameBut.splice volume block disk offset.toNat 8 header).mono le_rfl (by omega)
    exact hsame.trans ((SameBut.splice volume block written (offset.toNat + 8) name.length _).mono
      (by omega) (by omega))
  · rw [blockBytes_splice, ← hwritten, blockBytes_splice]
    refine RecordAt.of_header header (fun i hi ↦ ?_) hnumber (congrArg UInt16.toNat hextent) ?_
      htype (slice_splice _ _ _ name rfl)
    · have hread : splice (blockBytes volume disk block) offset.toNat 8 header (offset.toNat + i) =
          header (offset.toNat + i - offset.toNat) := splice_of_mem (by omega) (by omega)
      rw [splice_of_lt (by omega)]
      rw [Nat.add_sub_cancel_left] at hread
      exact hread.symm
    · rw [hnameLength, hname]
      rfl

structure Insertable (volume : Superblock) (number : UInt32) (name : List UInt8) : Prop where
  number : number ≠ 0 ∧ number ≤ volume.inodeCount
  nonempty : name ≠ []
  short : name.length ≤ ext2NameMaximum
  addressable : Addressable name

theorem Insertable.valid (h : Insertable volume number name) {extent : ℕ} (haligned : 4 ∣ extent)
    (hroom : 8 + name.length ≤ extent) :
    (newRecord volume number name fileType extent).Valid volume :=
  ⟨haligned, hroom, h.short, fun _ ↦ ⟨h.number.2, h.nonempty, h.addressable⟩⟩

theorem toNat_ext2RecordLength {length : ℕ} (h : length ≤ ext2NameMaximum) :
    (ext2RecordLength length).toNat = (8 + length + 3) / 4 * 4 := by
  unfold ext2NameMaximum at h
  exact UInt16.toNat_ofNat_of_lt' (Nat.lt_of_le_of_lt (show _ ≤ 268 by omega) (by decide))

theorem le_headerRoom (hwithin : offset.toNat + 8 ≤ volume.blockSize.toNat) :
    offset ≤ volume.blockSize - ext2DirectoryHeaderSize := by
  have height : ext2DirectoryHeaderSize.toNat = 8 := rfl
  rw [UInt32.le_iff_toNat_le, UInt32.toNat_sub_of_le _ _ (UInt32.le_iff_toNat_le.mpr (by omega))]
  omega

theorem not_le_headerRoom (hsize : 8 ≤ volume.blockSize.toNat)
    (hend : offset.toNat = volume.blockSize.toNat) :
    ¬offset ≤ volume.blockSize - ext2DirectoryHeaderSize := by
  have height : ext2DirectoryHeaderSize.toNat = 8 := rfl
  rw [UInt32.le_iff_toNat_le, UInt32.toNat_sub_of_le _ _ (UInt32.le_iff_toNat_le.mpr (by omega))]
  omega

theorem insertFrom_step {entry : Ext2DirectoryEntry} {needed : UInt16}
    (hroom : offset ≤ volume.blockSize - ext2DirectoryHeaderSize)
    (h : ext2ReadEntryHeader device disk volume block offset = .ok entry) :
    outcome (insertFrom device volume block needed number name fileType offset) disk =
      outcome (if entry.inode = 0 ∧ entry.recordLength ≥ needed then do
          ext2PutEntry device volume block offset number entry.recordLength name fileType
          return true
        else if entry.inode ≠ 0 ∧ needed.toNat +
            (ext2RecordLength entry.nameLength.toNat).toNat ≤ entry.recordLength.toNat then do
          alterEntryHeader device volume block offset fun raw ↦
            ext2WriteHalf raw 4 (ext2RecordLength entry.nameLength.toNat)
          ext2PutEntry device volume block
            (offset + (ext2RecordLength entry.nameLength.toNat).toUInt32) number
            (entry.recordLength - ext2RecordLength entry.nameLength.toNat) name fileType
          return true
        else if offset + entry.recordLength.toUInt32 = volume.blockSize then return false
        else
          insertFrom device volume block needed number name fileType
            (offset + entry.recordLength.toUInt32)) disk := by
  rw [insertFrom, if_pos hroom, outcome_bind, outcome_get]
  dsimp only
  split
  · next reason herror =>
      rw [h] at herror
      cases herror
  · next entry' hentry =>
      rw [h] at hentry
      cases hentry
      rfl

theorem tiles_header (device : SteadyDevice) (hblock : block < volume.blockCount)
    (h : TiledFrom volume disk block offset.toNat (record :: records)) :
    offset ≤ volume.blockSize - ext2DirectoryHeaderSize ∧
      ext2ReadEntryHeader device disk volume block offset = .ok (record.header block offset) ∧
        (offset + (record.header block offset).recordLength.toUInt32).toNat =
          offset.toNat + record.extent ∧
        (record.header block offset).recordLength.toNat = record.extent ∧
        (record.header block offset).nameLength.toNat = record.name.length := by
  have hwithin := h.within
  have hroom := h.1.2.room
  have hheader := ext2ReadEntryHeader_eq device hblock h.1 hwithin
  obtain ⟨-, -, hnext⟩ := of_ext2ReadEntryHeader hheader
  have hextent : (record.header block offset).recordLength.toNat = record.extent :=
    UInt16.toNat_ofNat_of_lt' h.1.1.extent_lt
  have hname : (record.header block offset).nameLength.toNat = record.name.length :=
    UInt16.toNat_ofNat_of_lt' (Nat.lt_of_le_of_lt h.1.2.short (by decide))
  exact ⟨le_headerRoom (by omega), hheader, hextent ▸ hnext, hextent, hname⟩

theorem stands_pos (raw : Bytes) (place : ℕ) (record : Record) (h : Stands volume raw place record) :
    0 < record.extent := Nat.lt_of_lt_of_le (Nat.succ_pos 7) (Nat.le_of_add_right_le h.2.room)

theorem tiles_beyond (h : TiledFrom volume disk block offset.toNat (record :: records))
    (hsame : SameBut volume block offset.toNat (offset.toNat + record.extent) disk disk') :
    TiledFrom volume disk' block (offset.toNat + record.extent) records :=
  h.2.congr (stands_standalone volume) fun _ hi _ ↦ (hsame.bytes (Or.inr hi)).symm

/-- The action answers so, leaves the block tiled by the records from the place on, and alters
nothing else. -/
def Retiles {α : Type} (volume : Superblock) (block : UInt32) (place : ℕ) (records : List Record)
    (action : Action Bytes String α) (answer : α) (disk : Bytes) : Prop :=
  ∃ disk', outcome action disk = (.ok answer, disk') ∧
    SameBut volume block place volume.blockSize.toNat disk disk' ∧
      TiledFrom volume disk' block place records

theorem Retiles.answering {action : Action Bytes String PUnit}
    (h : Retiles volume block place records action ⟨⟩ disk) (answer : Bool) :
    Retiles volume block place records (do action; return answer) answer disk := by
  obtain ⟨disk', houtcome, hrest⟩ := h
  refine ⟨disk', ?_, hrest⟩
  rw [outcome_bind, houtcome]
  rfl

theorem Retiles.after {α : Type} {action : Action Bytes String α} {answer : α}
    (h : TiledFrom volume disk block place (record :: records))
    (hrest : Retiles volume block (place + record.extent) records' action answer disk) :
    Retiles volume block place (record :: records') action answer disk := by
  obtain ⟨disk', houtcome, hsame, htiles⟩ := hrest
  have hroom := h.1.2.room
  refine ⟨disk', houtcome, hsame.mono (by omega) (le_refl _), ⟨?_, h.1.2⟩, htiles⟩
  exact h.1.1.congr fun i hi hlt ↦ (hsame.bytes (Or.inl (by omega))).symm

theorem tiles_next (device : SteadyDevice) (hblock : block < volume.blockCount)
    (h : TiledFrom volume disk block offset.toNat (record :: records)) :
    TiledFrom volume disk block
        (offset + (record.header block offset).recordLength.toUInt32).toNat records ∧
      (offset + (record.header block offset).recordLength.toUInt32 = volume.blockSize →
        records = []) := by
  obtain ⟨-, -, hnext, -, -⟩ := tiles_header device hblock h
  have hrest := h.2
  rw [← hnext] at hrest
  refine ⟨hrest, fun hend ↦ ?_⟩
  rw [hend] at hrest
  exact hrest.eq_nil stands_pos

theorem putUnused (device : SteadyDevice) (hblock : block < volume.blockCount)
    (hname : Insertable volume number name) (fileType : UInt8)
    (h : TiledFrom volume disk block offset.toNat (record :: records))
    (hroom : 8 + name.length ≤ record.extent) :
    Retiles volume block offset.toNat (newRecord volume number name fileType record.extent :: records)
      (ext2PutEntry device volume block offset number (record.header block offset).recordLength
        name fileType) ⟨⟩ disk := by
  have hwithin := h.within
  obtain ⟨-, -, -, hextent, -⟩ := tiles_header device hblock h
  obtain ⟨disk', hput, hsame, hrecord⟩ := ext2PutEntry_ok device disk hblock
    (show offset.toNat + (8 + name.length) ≤ _ by omega) hname.short number
    (record.header block offset).recordLength fileType
  rw [hextent] at hrecord
  have hrest := tiles_beyond h (hsame.mono (le_refl _) (show _ ≤ offset.toNat + record.extent by omega))
  exact ⟨disk', hput, hsame.mono (le_refl _) (by omega),
    ⟨hrecord, hname.valid h.1.2.aligned hroom⟩, hrest⟩

theorem putSlack (device : SteadyDevice) (hblock : block < volume.blockCount)
    (hname : Insertable volume number name) (fileType : UInt8)
    (h : TiledFrom volume disk block offset.toNat (record :: records))
    (hroom : 8 + name.length + record.needed ≤ record.extent) :
    Retiles volume block offset.toNat ({ record with extent := record.needed } ::
        newRecord volume number name fileType (record.extent - record.needed) :: records)
      (do
        alterEntryHeader device volume block offset fun raw ↦
          ext2WriteHalf raw 4 (ext2RecordLength record.name.length)
        ext2PutEntry device volume block
          (offset + (ext2RecordLength record.name.length).toUInt32) number
          ((record.header block offset).recordLength - ext2RecordLength record.name.length) name
          fileType) ⟨⟩ disk := by
  have hwithin := h.within
  have hvalid := h.1.2
  have hleast := record.needed_ge
  have hblockSize := volume.blockSize.toNat_lt
  have hactual : (ext2RecordLength record.name.length).toNat = record.needed :=
    toNat_ext2RecordLength hvalid.short
  obtain ⟨-, -, -, hextent, -⟩ := tiles_header device hblock h
  have hplace : (offset + (ext2RecordLength record.name.length).toUInt32).toNat =
      offset.toNat + record.needed := by
    rw [UInt32.toNat_add, UInt16.toNat_toUInt32, hactual]
    exact Nat.mod_eq_of_lt (by omega)
  have hremainder : ((record.header block offset).recordLength -
      ext2RecordLength record.name.length).toNat = record.extent - record.needed := by
    rw [UInt16.toNat_sub_of_le _ _ (UInt16.le_iff_toNat_le.mpr (by omega)), hextent, hactual]
  -- The record is shortened.
  obtain ⟨header, hsame, halter⟩ := alterEntryHeader_ok device disk hblock
    (show offset.toNat + 8 ≤ _ by omega)
    fun raw ↦ ext2WriteHalf raw 4 (ext2RecordLength record.name.length)
  have hshort := h.1.1.lengthened hsame (ext2RecordLength record.name.length)
  rw [← blockBytes_splice, hactual] at hshort
  have hbut := SameBut.splice volume block disk offset.toNat 8
    (ext2WriteHalf header 4 (ext2RecordLength record.name.length))
  generalize splice disk (block.toNat * volume.blockSize.toNat + offset.toNat) 8
    (ext2WriteHalf header 4 (ext2RecordLength record.name.length)) = shortened at halter hshort hbut
  -- What is left of it is taken.
  obtain ⟨disk', hput, hsame', hrecord⟩ := ext2PutEntry_ok device shortened hblock
    (show (offset + (ext2RecordLength record.name.length).toUInt32).toNat +
      (8 + name.length) ≤ _ by omega) hname.short number
    ((record.header block offset).recordLength - ext2RecordLength record.name.length) fileType
  rw [hplace, hremainder] at hrecord
  rw [hplace] at hsame'
  have hwithin' : SameBut volume block offset.toNat (offset.toNat + record.extent) disk disk' :=
    (hbut.mono (le_refl _) (by omega)).trans (hsame'.mono (by omega) (by omega))
  refine ⟨disk', by rw [outcome_bind, halter]; exact hput, hwithin'.mono (le_refl _) hwithin,
    ⟨?_, ?_⟩, ⟨hrecord, ?_⟩, ?_⟩
  · exact hshort.congr fun i hi hlt ↦ (hsame'.bytes (Or.inl (by
      change i < offset.toNat + (8 + record.name.length) at hlt
      omega))).symm
  · exact ⟨record.dvd_needed, hleast, hvalid.short, hvalid.named⟩
  · exact hname.valid (Nat.dvd_sub hvalid.aligned record.dvd_needed) (by omega)
  · have hrest := tiles_beyond h hwithin'
    change Tiles _ _ _ (offset.toNat + record.needed + (record.extent - record.needed)) _ _
    rwa [Nat.add_assoc, Nat.add_sub_cancel' hvalid.needed_le]

theorem insertFrom_eq (device : SteadyDevice) (hblock : block < volume.blockCount)
    (hsize : 8 ≤ volume.blockSize.toNat) (hname : Insertable volume number name)
    (fileType : UInt8) (h : TiledFrom volume disk block offset.toNat records) :
    match insertRecord (newRecord volume number name fileType)
        (ext2RecordLength name.length).toNat records with
    | none => outcome (insertFrom device volume block (ext2RecordLength name.length) number name
        fileType offset) disk = (.ok false, disk)
    | some records' => Retiles volume block offset.toNat records' (insertFrom device volume block
        (ext2RecordLength name.length) number name fileType offset) true disk := by
  have hneeded := toNat_ext2RecordLength hname.short
  induction records generalizing offset with
  | nil =>
      change outcome _ _ = _
      rw [insertFrom, if_neg (not_le_headerRoom hsize h)]
      rfl
  | cons record records ih =>
      have hroom := h.1.2.room
      have halways := h.1.2.needed_le
      have hactual : (ext2RecordLength record.name.length).toNat = record.needed :=
        toNat_ext2RecordLength h.1.2.short
      obtain ⟨hplace, hheader, hnext, hextent, hlength⟩ := tiles_header device hblock h
      obtain ⟨htiles, hlast⟩ := tiles_next device hblock h
      have hunusedIff : ((record.header block offset).inode = 0 ∧
          (record.header block offset).recordLength ≥ ext2RecordLength name.length) ↔
          record.number = 0 ∧ (ext2RecordLength name.length).toNat ≤ record.extent := by
        rw [ge_iff_le, UInt16.le_iff_toNat_le, hextent]
        rfl
      unfold insertRecord Retiles
      simp only [insertFrom_step hplace hheader, hlength, hactual, hextent, hunusedIff]
      by_cases hunused : record.number = 0 ∧ (ext2RecordLength name.length).toNat ≤ record.extent
      · rw [if_pos hunused, if_pos hunused]
        exact (putUnused device hblock hname fileType h (by omega)).answering true
      have hsame : ((record.header block offset).inode ≠ 0 ∧
          (ext2RecordLength name.length).toNat + record.needed ≤ record.extent) ↔
        record.number ≠ 0 ∧ (ext2RecordLength name.length).toNat + record.needed ≤ record.extent :=
          Iff.rfl
      simp only [if_neg hunused, hsame]
      by_cases hslack : record.number ≠ 0 ∧
          (ext2RecordLength name.length).toNat + record.needed ≤ record.extent
      · simp only [if_pos hslack]
        have hput := (putSlack device hblock hname fileType h (by omega)).answering true
        rwa [bind_assoc] at hput
      simp only [if_neg hslack]
      by_cases hend : offset + (record.header block offset).recordLength.toUInt32 = volume.blockSize
      · -- No record is after one that ends where the block does.
        rw [if_pos hend, hlast hend]
        rfl
      · rw [if_neg hend]
        have hrest := ih htiles
        cases hinsert : insertRecord (newRecord volume number name fileType)
            (ext2RecordLength name.length).toNat records with
        | none =>
            rw [hinsert] at hrest
            exact hrest
        | some records' =>
            rw [hinsert, hnext] at hrest
            exact hrest.after h

theorem sameName_eq (device : SteadyDevice) (hblock : block < volume.blockCount)
    (h : Stands volume (blockBytes volume disk block) offset.toNat record)
    (hwithin : offset.toNat + record.extent ≤ volume.blockSize.toNat)
    (hshort : name.length ≤ ext2NameMaximum) :
    sameName device disk volume (record.header block offset) name =
      .ok (decide (record.Bears name)) := by
  have hlength : (record.header block offset).nameLength = UInt16.ofNat name.length ↔
      record.name.length = name.length := by
    change UInt16.ofNat _ = _ ↔ _
    rw [← UInt16.toNat_inj, UInt16.toNat_ofNat_of_lt' (Nat.lt_of_le_of_lt h.2.short (by decide)),
      UInt16.toNat_ofNat_of_lt' (Nat.lt_of_le_of_lt hshort (by decide))]
  unfold sameName
  by_cases hused : record.number ≠ 0 ∧ record.name.length = name.length
  · rw [if_pos ⟨hused.1, hlength.mpr hused.2⟩, ext2ReadEntryName_eq device hblock h hwithin hused.1]
    simp [Except.map, Record.Bears, hused.1]
  · rw [if_neg fun hboth ↦ hused ⟨hboth.1, hlength.mp hboth.2⟩]
    have hother : ¬record.Bears name := fun hbears ↦ hused ⟨hbears.1, congrArg _ hbears.2⟩
    rw [decide_eq_false hother]

theorem removeFrom_step {entry : Ext2DirectoryEntry} {previous : Option UInt32} {same : Bool}
    (hroom : offset ≤ volume.blockSize - ext2DirectoryHeaderSize)
    (h : ext2ReadEntryHeader device disk volume block offset = .ok entry)
    (hsame : sameName device disk volume entry name = .ok same) :
    outcome (removeFrom device volume block name previous offset) disk =
      outcome (if same then do
          takeAway device volume block offset entry previous
          return true
        else if offset + entry.recordLength.toUInt32 = volume.blockSize then return false
        else
          removeFrom device volume block name (some offset)
            (offset + entry.recordLength.toUInt32)) disk := by
  rw [removeFrom, if_pos hroom, outcome_bind, outcome_get]
  dsimp only
  split
  · next reason herror =>
      rw [h] at herror
      cases herror
  · next entry' hentry =>
      rw [h] at hentry
      cases hentry
      rw [outcome_bind, outcome_consult, hsame]

theorem takeAway_after (device : SteadyDevice) (offset : UInt32) (hblock : block < volume.blockCount)
    (hsize : volume.blockSize.toNat < 2 ^ 16) {before : Record} {previous : UInt32}
    (h : TiledFrom volume disk block previous.toNat (before :: record :: records)) :
    Retiles volume block previous.toNat
      ({ before with extent := before.extent + record.extent } :: records)
      (takeAway device volume block offset (record.header block offset) (some previous)) ⟨⟩
      disk := by
  have hwithin := h.2.within
  have hroom := h.1.2.room
  have hroom' := h.2.1.2.room
  obtain ⟨-, hheader, -, hextent, -⟩ := tiles_header device hblock h
  have hextent' : (record.header block offset).recordLength.toNat = record.extent :=
    UInt16.toNat_ofNat_of_lt' h.2.1.1.extent_lt
  have hsum : ((before.header block previous).recordLength +
      (record.header block offset).recordLength).toNat = before.extent + record.extent := by
    rw [UInt16.toNat_add, hextent, hextent']
    exact Nat.mod_eq_of_lt (by omega)
  obtain ⟨header, hsame, halter⟩ := alterEntryHeader_ok device disk hblock
    (show previous.toNat + 8 ≤ _ by omega) fun raw ↦ ext2WriteHalf raw 4
      ((before.header block previous).recordLength + (record.header block offset).recordLength)
  have hlong := h.1.1.lengthened hsame
    ((before.header block previous).recordLength + (record.header block offset).recordLength)
  rw [← blockBytes_splice, hsum] at hlong
  have hbut := SameBut.splice volume block disk previous.toNat 8 (ext2WriteHalf header 4
    ((before.header block previous).recordLength + (record.header block offset).recordLength))
  unfold takeAway Retiles
  rw [outcome_bind, outcome_consult, hheader]
  refine ⟨_, halter, hbut.mono (le_refl _) (by omega), ⟨hlong, ?_⟩, ?_⟩
  · refine ⟨Nat.dvd_add h.1.2.aligned h.2.1.2.aligned, ?_, h.1.2.short, h.1.2.named⟩
    change 8 + before.name.length ≤ before.extent + record.extent
    omega
  · have hrest := h.2.2
    rw [Nat.add_assoc] at hrest
    refine hrest.congr (stands_standalone volume) fun i hi hlt ↦ (hbut.bytes (Or.inr ?_)).symm
    change previous.toNat + (before.extent + record.extent) ≤ i at hi
    omega

theorem takeAway_first (device : SteadyDevice) (hblock : block < volume.blockCount)
    (h : TiledFrom volume disk block offset.toNat (record :: records)) :
    Retiles volume block offset.toNat ({ record with number := 0 } :: records)
      (takeAway device volume block offset (record.header block offset) none) ⟨⟩ disk := by
  have hwithin := h.within
  have hroom := h.1.2.room
  obtain ⟨header, hsame, halter⟩ := alterEntryHeader_ok device disk hblock
    (show offset.toNat + 8 ≤ _ by omega) fun raw ↦ ext2WriteWord raw 0 0
  have hblank := h.1.1.blanked hsame
  rw [← blockBytes_splice] at hblank
  have hbut := SameBut.splice volume block disk offset.toNat 8 (ext2WriteWord header 0 0)
  have hvalid : ({ record with number := 0 } : Record).Valid volume :=
    ⟨h.1.2.aligned, hroom, h.1.2.short, fun hused ↦ absurd rfl hused⟩
  have hrest := tiles_beyond h (hbut.mono (le_refl _) (by omega))
  exact ⟨_, halter, hbut.mono (le_refl _) (by omega), ⟨hblank, hvalid⟩, hrest⟩

theorem removeFrom_eq (device : SteadyDevice) (hblock : block < volume.blockCount)
    (hsize : 8 ≤ volume.blockSize.toNat ∧ volume.blockSize.toNat < 2 ^ 16)
    (hshort : name.length ≤ ext2NameMaximum) {before : Option (UInt32 × Record)}
    (hbefore : ∀ p ∈ before, offset.toNat = p.1.toNat + p.2.extent)
    (h : TiledFrom volume disk block (before.elim offset Prod.fst).toNat
      ((before.map Prod.snd).toList ++ records)) :
    match removeNext name (before.map Prod.snd) records with
    | none => outcome (removeFrom device volume block name (before.map Prod.fst) offset) disk =
        (.ok false, disk)
    | some records' => Retiles volume block (before.elim offset Prod.fst).toNat records'
        (removeFrom device volume block name (before.map Prod.fst) offset) true disk := by
  induction records generalizing before offset with
  | nil =>
      have hend : offset.toNat = volume.blockSize.toNat := by
        cases before with
        | none => exact h
        | some p => exact (hbefore p rfl).trans h.2
      change outcome _ _ = _
      rw [removeFrom, if_neg (not_le_headerRoom hsize.1 hend)]
      rfl
  | cons record records ih =>
      have htiles : TiledFrom volume disk block offset.toNat (record :: records) := by
        cases before with
        | none => exact h
        | some p => exact hbefore p rfl ▸ h.2
      obtain ⟨hplace, hheader, hnext, -, -⟩ := tiles_header device hblock htiles
      obtain ⟨-, hlast⟩ := tiles_next device hblock htiles
      have hsame := sameName_eq device hblock htiles.1 htiles.within hshort
      unfold removeNext Retiles
      rw [removeFrom_step hplace hheader hsame]
      by_cases hbears : record.Bears name
      · simp only [if_pos hbears, decide_eq_true hbears, if_true]
        cases before with
        | none => exact (takeAway_first device hblock h).answering true
        | some p => exact (takeAway_after device offset hblock hsize.2 h).answering true
      simp only [if_neg hbears, decide_eq_false hbears, Bool.false_eq_true, if_false]
      by_cases hend : offset + (record.header block offset).recordLength.toUInt32 = volume.blockSize
      · rw [if_pos hend, hlast hend]
        rfl
      · rw [if_neg hend]
        have hrest := @ih _ (some (offset, record)) (by rintro p ⟨⟩; exact hnext) htiles
        cases hremove : removeNext name (some record) records with
        | none =>
            rw [Option.map_some, hremove] at hrest
            exact hrest
        | some records' =>
            rw [Option.map_some, hremove] at hrest
            cases before with
            | none => exact hrest
            | some p => exact (hbefore p rfl ▸ hrest : Retiles volume block _ _ _ _ _).after h

end OxysOS.Fs.Ext2
