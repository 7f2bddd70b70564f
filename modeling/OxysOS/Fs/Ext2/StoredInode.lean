import OxysOS.Fs.Ext2.AllocInode
import OxysOS.Fs.Ext2.Inode

/-!
# An inode read and written

`Ext2WriteInode` puts the fields of an inode over what is stored of it, and
`Ext2ReadInode` takes them from there.  The high half of the size is kept upon
some volumes and for some files only.
-/

namespace OxysOS.Fs.Ext2

open OxysOS.Library Action

variable {device : SteadyDevice} {volume : Superblock} {disk disk' raw raw' : Bytes}
  {group number : UInt32} {descriptor : GroupDescriptor} {inode : Ext2Inode}

def descriptorBlock (volume : Superblock) (group : UInt32) : UInt32 :=
  ext2GroupDescriptorBlock volume + group * ext2GroupDescriptorSize / volume.blockSize

def descriptorOffset (volume : Superblock) (group : UInt32) : UInt32 :=
  group * ext2GroupDescriptorSize % volume.blockSize

def descriptorBytes (volume : Superblock) (disk : Bytes) (group : UInt32) : Bytes := fun i ↦
  blockBytes volume disk (descriptorBlock volume group) ((descriptorOffset volume group).toNat + i)

theorem parseGroupDescriptor_congr {raw raw' : Bytes} (h : ∀ i < 32, raw i = raw' i) :
    parseGroupDescriptor group raw = parseGroupDescriptor group raw' := by
  have hword : ∀ o, o + 4 ≤ 32 → ext2ReadWord raw o = ext2ReadWord raw' o :=
    fun o ho ↦ ext2ReadWord_congr fun i hi hlt ↦ h i (by omega)
  have hhalf : ∀ o, o + 2 ≤ 32 → ext2ReadHalf raw o = ext2ReadHalf raw' o :=
    fun o ho ↦ ext2ReadHalf_congr fun i hi hlt ↦ h i (by omega)
  unfold parseGroupDescriptor
  rw [hword 0 (by decide), hword 4 (by decide), hword 8 (by decide), hhalf 12 (by decide),
    hhalf 14 (by decide), hhalf 16 (by decide)]

structure DescriptorRead (volume : Superblock) (disk : Bytes) (group : UInt32)
    (descriptor : GroupDescriptor) : Prop where
  below : group < volume.groupCount
  table : ext2GroupDescriptorBlock volume + ext2GroupDescriptorBlocks volume ≤ volume.blockCount
  block : descriptorBlock volume group < volume.blockCount
  within : (descriptorOffset volume group).toNat + 32 ≤ volume.blockSize.toNat
  parsed : descriptor = parseGroupDescriptor group (descriptorBytes volume disk group)
  checked : checkGroupDescriptor volume descriptor = .ok descriptor

theorem eq_of_checkGroupDescriptor {parsed : GroupDescriptor}
    (h : checkGroupDescriptor volume parsed = .ok descriptor) : parsed = descriptor := by
  unfold checkGroupDescriptor at h
  split_ifs at h
  exact Except.ok.inj h

theorem ext2ReadGroupDescriptor_iff : ext2ReadGroupDescriptor device disk volume group =
    .ok descriptor ↔ DescriptorRead volume disk group descriptor := by
  have hbytes : ∀ i < 32, splice (fun _ ↦ 0) 0 ext2GroupDescriptorSize.toNat
      (descriptorBytes volume disk group) i = descriptorBytes volume disk group i :=
    fun i hi ↦ read_apply _ hi
  constructor
  · intro h
    obtain ⟨-, hgroup, hblock, hoffset, -⟩ := of_ext2ReadGroupDescriptor h
    unfold ext2ReadGroupDescriptor at h
    dsimp only at h
    split_ifs at h with hbeyond htable
    rw [ext2ReadBytes_eq device disk hblock hoffset] at h
    change checkGroupDescriptor volume (parseGroupDescriptor group (splice _ 0 _
      (descriptorBytes volume disk group))) = _ at h
    rw [parseGroupDescriptor_congr hbytes] at h
    have hparsed := eq_of_checkGroupDescriptor h
    rw [hparsed] at h
    exact ⟨hgroup, UInt32.not_lt.mp htable, hblock, hoffset, hparsed.symm, h⟩
  · intro h
    unfold ext2ReadGroupDescriptor
    dsimp only
    rw [if_neg (UInt32.not_le.mpr h.below), if_neg (UInt32.not_lt.mpr h.table)]
    change (ext2ReadBytes device disk volume (descriptorBlock volume group)
      (descriptorOffset volume group) ext2GroupDescriptorSize >>= _) = _
    rw [ext2ReadBytes_eq device disk h.block h.within]
    change checkGroupDescriptor volume (parseGroupDescriptor group (splice _ 0 _
      (descriptorBytes volume disk group))) = _
    rw [parseGroupDescriptor_congr hbytes, ← h.parsed, h.checked]

theorem DescriptorRead.congr (h : DescriptorRead volume disk group descriptor)
    (hsame : ∀ i < 32, descriptorBytes volume disk' group i = descriptorBytes volume disk group i) :
    DescriptorRead volume disk' group descriptor :=
  { h with parsed := h.parsed.trans (parseGroupDescriptor_congr fun i hi ↦ (hsame i hi).symm) }

def ext2InodeIsFastSymbolicLink (volume : Superblock) (inode : Ext2Inode) : Bool :=
  ext2InodeIsSymbolicLink inode.mode &&
    inode.sectorCount == if inode.fileAcl ≠ 0 then volume.blockSize / 512 else 0

def KeepsHighSize (volume : Superblock) (mode : UInt16) : Prop :=
  volume.revision ≥ ext2DynamicRev ∧ mode &&& 0xF000 = 0x8000

instance (mode : UInt16) : Decidable (KeepsHighSize volume mode) :=
  inferInstanceAs (Decidable (_ ∧ _))

def parseInode (volume : Superblock) (number : UInt32) (raw : Bytes) : Ext2Inode where
  number := number
  mode := ext2ReadHalf raw 0
  uid := ext2ReadHalf raw 2
  gid := ext2ReadHalf raw 24
  size :=
    if KeepsHighSize volume (ext2ReadHalf raw 0) then
      (ext2ReadWord raw 4).toUInt64 ||| ((ext2ReadWord raw 108).toUInt64 <<< 32)
    else (ext2ReadWord raw 4).toUInt64
  accessTime := ext2ReadWord raw 8
  changeTime := ext2ReadWord raw 12
  modifyTime := ext2ReadWord raw 16
  deleteTime := ext2ReadWord raw 20
  linkCount := ext2ReadHalf raw 26
  sectorCount := ext2ReadWord raw 28
  flags := ext2ReadWord raw 32
  block entry := if entry < 15 then ext2ReadWord raw (40 + entry * 4) else 0
  generation := ext2ReadWord raw 100
  fileAcl := ext2ReadWord raw 104

def StrayPointer (volume : Superblock) (inode : Ext2Inode) : Prop :=
  ext2InodeIsFastSymbolicLink volume inode = false ∧
    ∃ entry < 15, inode.block entry ≠ 0 ∧ ¬ext2BlockExists volume (inode.block entry)

instance : Decidable (StrayPointer volume inode) := inferInstanceAs (Decidable (_ ∧ _))

/-- What `Ext2ReadInode` requires of an inode. -/
def checkInode (volume : Superblock) (parsed : Ext2Inode) : Except String Ext2Inode :=
  if StrayPointer volume parsed then
    .error "a block pointer of the inode lies outside the volume"
  else if parsed.mode = 0 ∧ parsed.linkCount = 0 then .error "the inode is not in use"
  else if parsed.linkCount = 0 ∧ parsed.deleteTime ≠ 0 then
    .error "the inode names a file that was deleted"
  else .ok parsed

def ext2ReadInode (device : SteadyDevice) (disk : Bytes) (volume : Superblock)
    (number : UInt32) : Except String Ext2Inode :=
  if number = 0 ∨ number > volume.inodeCount then
    .error "the volume holds no inode of that number"
  else do
    let group := (number - 1) / volume.inodesPerGroup
    let index := (number - 1) % volume.inodesPerGroup
    let descriptor ← ext2ReadGroupDescriptor device disk volume group
    let position := index * volume.inodeSize.toUInt32
    let raw ← ext2ReadBytes device disk volume
      (descriptor.inodeTable + position / volume.blockSize) (position % volume.blockSize) 128
    checkInode volume (parseInode volume number raw)

def Ext2Inode.stored (inode : Ext2Inode) : Ext2Inode :=
  { inode with block := fun entry ↦ if entry < 15 then inode.block entry else 0 }

def composePointers (inode : Ext2Inode) (raw : Bytes) (count : ℕ) : Bytes :=
  (List.range count).foldl
    (fun raw entry ↦ ext2WriteWord raw (40 + entry * 4) (inode.block entry)) raw

theorem composePointers_succ (raw : Bytes) (count : ℕ) : composePointers inode raw (count + 1) =
    ext2WriteWord (composePointers inode raw count) (40 + count * 4) (inode.block count) := by
  simp [composePointers, List.range_succ]

theorem composePointers_apply {count i : ℕ} (h : i < 40 ∨ 40 + count * 4 ≤ i) :
    composePointers inode raw count i = raw i := by
  induction count with
  | zero => rfl
  | succ count ih =>
      rw [composePointers_succ, ext2WriteWord_of_ne _ (by omega)]
      exact ih (by omega)

theorem ext2ReadHalf_composePointers {count o : ℕ} (h : o + 2 ≤ 40 ∨ 40 + count * 4 ≤ o) :
    ext2ReadHalf (composePointers inode raw count) o = ext2ReadHalf raw o :=
  ext2ReadHalf_congr fun i hi hlt ↦ composePointers_apply (by omega)

theorem ext2ReadWord_composePointers {count o : ℕ} (h : o + 4 ≤ 40 ∨ 40 + count * 4 ≤ o) :
    ext2ReadWord (composePointers inode raw count) o = ext2ReadWord raw o :=
  ext2ReadWord_congr fun i hi hlt ↦ composePointers_apply (by omega)

theorem pointer_composePointers {count entry : ℕ} (h : entry < count) :
    ext2ReadWord (composePointers inode raw count) (40 + entry * 4) = inode.block entry := by
  induction count with
  | zero => exact absurd h (Nat.not_lt_zero entry)
  | succ count ih =>
      rw [composePointers_succ]
      rcases Nat.lt_succ_iff_lt_or_eq.mp h with hlt | rfl
      · rw [ext2ReadWord_ext2WriteWord_of_ne _ (by omega), ih hlt]
      · exact ext2ReadWord_ext2WriteWord _ _ _

def composeScalars (inode : Ext2Inode) (raw : Bytes) : Bytes :=
  let raw := ext2WriteHalf raw 0 inode.mode
  let raw := ext2WriteHalf raw 2 inode.uid
  let raw := ext2WriteHalf raw 24 inode.gid
  let raw := ext2WriteWord raw 4 (inode.size &&& 0xFFFFFFFF).toUInt32
  let raw := ext2WriteWord raw 8 inode.accessTime
  let raw := ext2WriteWord raw 12 inode.changeTime
  let raw := ext2WriteWord raw 16 inode.modifyTime
  let raw := ext2WriteWord raw 20 inode.deleteTime
  let raw := ext2WriteHalf raw 26 inode.linkCount
  let raw := ext2WriteWord raw 28 inode.sectorCount
  let raw := ext2WriteWord raw 32 inode.flags
  let raw := ext2WriteWord raw 100 inode.generation
  ext2WriteWord raw 104 inode.fileAcl

def composeHighSize (volume : Superblock) (inode : Ext2Inode) (raw : Bytes) : Bytes :=
  if KeepsHighSize volume inode.mode then ext2WriteWord raw 108 (inode.size >>> 32).toUInt32
  else raw

theorem composeInode_eq (volume : Superblock) (inode : Ext2Inode) (raw : Bytes) :
    composeInode volume inode raw =
      composePointers inode (composeHighSize volume inode (composeScalars inode raw)) 15 := rfl

theorem composeHighSize_apply {i : ℕ} (h : i < 108 ∨ 112 ≤ i) :
    composeHighSize volume inode raw i = raw i := by
  unfold composeHighSize
  split_ifs
  · exact ext2WriteWord_of_ne _ (by omega)
  · rfl

theorem ext2ReadHalf_composeInode {o : ℕ} (h : o + 2 ≤ 40) :
    ext2ReadHalf (composeInode volume inode raw) o = ext2ReadHalf (composeScalars inode raw) o := by
  rw [composeInode_eq, ext2ReadHalf_composePointers (Or.inl h)]
  exact ext2ReadHalf_congr fun i hi hlt ↦ composeHighSize_apply (by omega)

theorem ext2ReadWord_composeInode {o : ℕ} (h : o + 4 ≤ 40 ∨ 100 ≤ o ∧ o + 4 ≤ 108) :
    ext2ReadWord (composeInode volume inode raw) o = ext2ReadWord (composeScalars inode raw) o := by
  rw [composeInode_eq, ext2ReadWord_composePointers (by omega)]
  exact ext2ReadWord_congr fun i hi hlt ↦ composeHighSize_apply (by omega)

def storedSize (volume : Superblock) (inode : Ext2Inode) : UInt64 :=
  if KeepsHighSize volume inode.mode then inode.size else inode.size &&& 0xFFFFFFFF

theorem and_low_word (n : ℕ) : n &&& 4294967295 = n % 4294967296 :=
  Nat.and_two_pow_sub_one_eq_mod n 32

theorem size_of_halves (size : UInt64) : (size &&& 0xFFFFFFFF).toUInt32.toUInt64 |||
    ((size >>> 32).toUInt32.toUInt64 <<< 32) = size := by
  have hlow : size.toNat % 2 ^ 32 < 2 ^ 32 := Nat.mod_lt _ (by decide)
  have hlt := size.toNat_lt
  have hhigh : size.toNat / 4294967296 % 4294967296 * 4294967296 % 18446744073709551616 =
      size.toNat / 4294967296 * 4294967296 := by omega
  apply UInt64.toNat_inj.mp
  rw [UInt64.toNat_or, Nat.or_comm]
  simp only [UInt64.toNat_shiftLeft, UInt32.toNat_toUInt64, UInt64.toNat_toUInt32,
    UInt64.toNat_shiftRight, UInt64.toNat_and, UInt64.reduceToNat, Nat.reduceMod,
    Nat.shiftRight_eq_div_pow, Nat.shiftLeft_eq, Nat.reducePow, and_low_word, Nat.mod_mod, hhigh]
  rw [show 4294967296 = 2 ^ 32 from rfl, ← Nat.shiftLeft_eq,
    ← Nat.shiftLeft_add_eq_or_of_lt hlow, Nat.shiftLeft_eq]
  omega

theorem low_size (size : UInt64) :
    (size &&& 0xFFFFFFFF).toUInt32.toUInt64 = size &&& 0xFFFFFFFF := by
  apply UInt64.toNat_inj.mp
  simp [and_low_word]

theorem storedSize_eq_iff : storedSize volume inode = inode.size ↔
    KeepsHighSize volume inode.mode ∨ inode.size < 4294967296 := by
  unfold storedSize
  split_ifs with hhigh
  · simp [hhigh]
  · rw [← UInt64.toNat_inj, UInt64.lt_iff_toNat_lt]
    simp only [hhigh, false_or, UInt64.toNat_and, UInt64.reduceToNat, and_low_word]
    omega

theorem parseInode_composeInode (volume : Superblock) (inode : Ext2Inode) (raw : Bytes) :
    parseInode volume inode.number (composeInode volume inode raw) =
      { inode.stored with size := storedSize volume inode } := by
  have hmode : ext2ReadHalf (composeInode volume inode raw) 0 = inode.mode := by
    rw [ext2ReadHalf_composeInode (by decide)]
    simp (disch := omega) only [composeScalars, ext2ReadHalf_ext2WriteWord_of_ne,
      ext2ReadHalf_ext2WriteHalf_of_ne, ext2ReadHalf_ext2WriteHalf]
  have hlow : ext2ReadWord (composeInode volume inode raw) 4 =
      (inode.size &&& 0xFFFFFFFF).toUInt32 := by
    rw [ext2ReadWord_composeInode (by decide)]
    simp (disch := omega) only [composeScalars, ext2ReadWord_ext2WriteWord_of_ne,
      ext2ReadWord_ext2WriteHalf_of_ne, ext2ReadWord_ext2WriteWord]
  have hsize : (parseInode volume inode.number (composeInode volume inode raw)).size =
      storedSize volume inode := by
    simp only [parseInode, storedSize, hmode, hlow]
    split_ifs with hhigh
    · have hword : ext2ReadWord (composeInode volume inode raw) 108 =
          (inode.size >>> 32).toUInt32 := by
        rw [composeInode_eq, ext2ReadWord_composePointers (by decide), composeHighSize,
          if_pos hhigh, ext2ReadWord_ext2WriteWord]
      rw [hword]
      exact size_of_halves inode.size
    · exact low_size inode.size
  have hblock : ∀ entry, (parseInode volume inode.number (composeInode volume inode raw)).block
      entry = inode.stored.block entry := by
    intro entry
    simp only [parseInode, Ext2Inode.stored]
    split_ifs with hentry
    · exact pointer_composePointers hentry
    · rfl
  unfold parseInode
  rw [Ext2Inode.mk.injEq]
  refine ⟨rfl, hmode, ?_, ?_, hsize, ?_, ?_, ?_, ?_, ?_, ?_, ?_, funext hblock, ?_, ?_⟩
  all_goals
    simp (disch := omega) only [Ext2Inode.stored, ext2ReadHalf_composeInode,
      ext2ReadWord_composeInode, composeScalars, ext2ReadHalf_ext2WriteWord_of_ne,
      ext2ReadHalf_ext2WriteHalf_of_ne, ext2ReadHalf_ext2WriteHalf,
      ext2ReadWord_ext2WriteWord_of_ne, ext2ReadWord_ext2WriteHalf_of_ne,
      ext2ReadWord_ext2WriteWord]

def inodeGroup (volume : Superblock) (number : UInt32) : UInt32 :=
  (number - 1) / volume.inodesPerGroup

def inodePosition (volume : Superblock) (number : UInt32) : UInt32 :=
  (number - 1) % volume.inodesPerGroup * volume.inodeSize.toUInt32

def inodeBlock (volume : Superblock) (descriptor : GroupDescriptor) (number : UInt32) : UInt32 :=
  descriptor.inodeTable + inodePosition volume number / volume.blockSize

def inodeOffset (volume : Superblock) (number : UInt32) : UInt32 :=
  inodePosition volume number % volume.blockSize

def inodeBytes (volume : Superblock) (disk : Bytes) (descriptor : GroupDescriptor)
    (number : UInt32) : Bytes := fun i ↦
  blockBytes volume disk (inodeBlock volume descriptor number)
    ((inodeOffset volume number).toNat + i)

theorem parseInode_congr (h : ∀ i < 128, raw i = raw' i) :
    parseInode volume number raw = parseInode volume number raw' := by
  have hword : ∀ o, o + 4 ≤ 128 → ext2ReadWord raw o = ext2ReadWord raw' o :=
    fun o ho ↦ ext2ReadWord_congr fun i hi hlt ↦ h i (by omega)
  have hhalf : ∀ o, o + 2 ≤ 128 → ext2ReadHalf raw o = ext2ReadHalf raw' o :=
    fun o ho ↦ ext2ReadHalf_congr fun i hi hlt ↦ h i (by omega)
  have hblock : ∀ entry, (if entry < 15 then ext2ReadWord raw (40 + entry * 4) else 0) =
      if entry < 15 then ext2ReadWord raw' (40 + entry * 4) else 0 := by
    intro entry
    split_ifs with hentry
    · exact hword _ (by omega)
    · rfl
  unfold parseInode
  rw [funext hblock]
  simp (disch := omega) only [hword, hhalf]

structure InodeFound (device : SteadyDevice) (disk : Bytes) (volume : Superblock)
    (number : UInt32) (descriptor : GroupDescriptor) : Prop where
  valid : ¬(number = 0 ∨ number > volume.inodeCount)
  described : ext2ReadGroupDescriptor device disk volume (inodeGroup volume number) =
    .ok descriptor
  block : inodeBlock volume descriptor number < volume.blockCount
  within : (inodeOffset volume number).toNat + (128 : UInt32).toNat ≤ volume.blockSize.toNat

theorem InodeFound.read (h : InodeFound device disk volume number descriptor) :
    ext2ReadInode device disk volume number =
      checkInode volume (parseInode volume number (inodeBytes volume disk descriptor number)) := by
  have hread : ext2ReadInode device disk volume number =
      (ext2ReadGroupDescriptor device disk volume (inodeGroup volume number) >>= fun descriptor ↦
        ext2ReadBytes device disk volume (inodeBlock volume descriptor number)
          (inodeOffset volume number) 128 >>= fun raw ↦
            checkInode volume (parseInode volume number raw)) := if_neg h.valid
  rw [hread, h.described]
  change (ext2ReadBytes device disk volume (inodeBlock volume descriptor number)
    (inodeOffset volume number) 128 >>= _) = _
  rw [ext2ReadBytes_eq device disk h.block h.within]
  exact congrArg (checkInode volume) (parseInode_congr fun i hi ↦ read_apply _ hi)

theorem of_ext2WriteInode (h : ext2WriteInode device disk volume inode = .ok disk') :
    ∃ descriptor, InodeFound device disk volume inode.number descriptor ∧
      disk' = splice disk ((inodeBlock volume descriptor inode.number).toNat *
          volume.blockSize.toNat + (inodeOffset volume inode.number).toNat) 128
        (composeInode volume inode (splice (fun _ ↦ 0) 0 128
          (inodeBytes volume disk descriptor inode.number))) := by
  by_cases hwritable : volume.readOnly
  · exact absurd ((if_pos hwritable).symm.trans h) (by simp)
  by_cases hnumber : inode.number = 0 ∨ inode.number > volume.inodeCount
  · exact absurd (((if_neg hwritable).trans (if_pos hnumber)).symm.trans h) (by simp)
  have hwrite : ext2WriteInode device disk volume inode =
      (ext2ReadGroupDescriptor device disk volume (inodeGroup volume inode.number) >>=
        fun descriptor ↦ ext2ReadBytes device disk volume
          (inodeBlock volume descriptor inode.number) (inodeOffset volume inode.number) 128 >>=
            fun raw ↦ ext2WriteBytes device disk volume
              (inodeBlock volume descriptor inode.number) (inodeOffset volume inode.number) 128
                (composeInode volume inode raw)) := (if_neg hwritable).trans (if_neg hnumber)
  rw [hwrite] at h
  cases hgroup : ext2ReadGroupDescriptor device disk volume (inodeGroup volume inode.number) with
  | error reason =>
      rw [hgroup] at h
      cases h
  | ok descriptor =>
      rw [hgroup] at h
      change (ext2ReadBytes device disk volume _ _ 128 >>= _) = _ at h
      cases hread : ext2ReadBytes device disk volume (inodeBlock volume descriptor inode.number)
          (inodeOffset volume inode.number) 128 with
      | error reason =>
          rw [hread] at h
          cases h
      | ok raw =>
          obtain ⟨hblock, hoffset⟩ := within_of_ext2ReadBytes hread
          refine ⟨descriptor, ⟨hnumber, hgroup, hblock, hoffset⟩, ?_⟩
          rw [ext2ReadBytes_eq device disk hblock hoffset] at h
          change ext2WriteBytes device disk volume _ _ _ _ = _ at h
          rw [ext2WriteBytes_ok device disk hblock hoffset] at h
          exact (Except.ok.inj h).symm

def InodeField (volume : Superblock) (inode : Ext2Inode) (i : ℕ) : Prop :=
  i < 36 ∨ 40 ≤ i ∧ i < 108 ∨ 108 ≤ i ∧ i < 112 ∧ KeepsHighSize volume inode.mode

theorem composeScalars_apply {i : ℕ} (h : 36 ≤ i ∧ i < 40 ∨ 108 ≤ i) :
    composeScalars inode raw i = raw i := by
  simp (disch := omega) only [composeScalars, ext2WriteHalf_of_ne, ext2WriteWord_of_ne]

theorem composeInode_apply {i : ℕ} (h : ¬InodeField volume inode i) :
    composeInode volume inode raw i = raw i := by
  unfold InodeField at h
  have hhigh : composeHighSize volume inode (composeScalars inode raw) i =
      composeScalars inode raw i := by
    unfold composeHighSize
    split_ifs with hkeeps
    · simp only [hkeeps, and_true] at h
      exact ext2WriteWord_of_ne _ (by omega)
    · rfl
  rw [composeInode_eq, composePointers_apply (by omega), hhigh]
  exact composeScalars_apply (by omega)

def OnlyInodeFields (device : SteadyDevice) (disk disk' : Bytes) (volume : Superblock)
    (inode : Ext2Inode) : Prop :=
  ∀ descriptor, ext2ReadGroupDescriptor device disk volume (inodeGroup volume inode.number) =
    .ok descriptor → ∀ i, disk' i ≠ disk i → ∃ o, InodeField volume inode o ∧
      i = (inodeBlock volume descriptor inode.number).toNat * volume.blockSize.toNat +
        (inodeOffset volume inode.number).toNat + o

theorem splice_differs {disk source : Bytes} {base length i : ℕ}
    (h : splice disk base length source i ≠ disk i) :
    ∃ o < length, i = base + o ∧ source o ≠ disk (base + o) := by
  rcases Nat.lt_or_ge i base with hlt | hge
  · exact (h (splice_of_lt hlt)).elim
  rcases Nat.lt_or_ge i (base + length) with hmem | hpast
  · refine ⟨i - base, by omega, by omega, ?_⟩
    rw [splice_of_mem hge hmem] at h
    rwa [Nat.add_sub_cancel' hge]
  · exact (h (splice_of_le hpast)).elim

theorem onlyInodeFields_written (h : ext2WriteInode device disk volume inode = .ok disk') :
    OnlyInodeFields device disk disk' volume inode := by
  obtain ⟨descriptor, hfound, rfl⟩ := of_ext2WriteInode h
  intro other hother i hdiffers
  obtain rfl := Except.ok.inj (hfound.described.symm.trans hother)
  obtain ⟨o, ho, hi, hsource⟩ := splice_differs hdiffers
  refine ⟨o, Classical.byContradiction fun hfield ↦ hsource ?_, hi⟩
  rw [composeInode_apply hfield, read_apply _ ho]
  simp only [inodeBytes, blockBytes, Nat.add_assoc]

def InodeApart (device : SteadyDevice) (disk : Bytes) (volume : Superblock) (number : UInt32) :
    Prop :=
  ∀ descriptor, ext2ReadGroupDescriptor device disk volume (inodeGroup volume number) =
    .ok descriptor →
      inodeBlock volume descriptor number ≠ descriptorBlock volume (inodeGroup volume number)

structure InodeStands (volume : Superblock) (inode : Ext2Inode) : Prop where
  used : ¬(inode.mode = 0 ∧ inode.linkCount = 0)
  named : ¬(inode.linkCount = 0 ∧ inode.deleteTime ≠ 0)
  pointers : ¬StrayPointer volume inode

theorem strayPointer_stored (size : UInt64) :
    StrayPointer volume { inode.stored with size := size } ↔ StrayPointer volume inode := by
  have hblock : ∀ entry, entry < 15 →
      ({ inode.stored with size := size } : Ext2Inode).block entry = inode.block entry :=
    fun entry hentry ↦ if_pos hentry
  refine and_congr_right fun _ ↦ exists_congr fun entry ↦ and_congr_right fun hentry ↦ ?_
  rw [hblock entry hentry]

theorem InodeStands.check (h : InodeStands volume inode) (size : UInt64) :
    checkInode volume { inode.stored with size := size } =
      .ok { inode.stored with size := size } :=
  (if_neg fun hstray ↦ h.pointers ((strayPointer_stored size).mp hstray)).trans
    ((if_neg h.used).trans (if_neg h.named))

theorem InodeStands.of_check {size : UInt64} {read : Ext2Inode}
    (h : checkInode volume { inode.stored with size := size } = .ok read) :
    InodeStands volume inode ∧ read = { inode.stored with size := size } := by
  unfold checkInode at h
  split_ifs at h with hstray hused hnamed
  exact ⟨⟨hused, hnamed, fun hpointers ↦ hstray ((strayPointer_stored size).mpr hpointers)⟩,
    (Except.ok.inj h).symm⟩

theorem ext2ReadInode_written (h : ext2WriteInode device disk volume inode = .ok disk')
    (hapart : InodeApart device disk volume inode.number) :
    ext2ReadInode device disk' volume inode.number =
      checkInode volume { inode.stored with size := storedSize volume inode } := by
  obtain ⟨descriptor, hfound, rfl⟩ := of_ext2WriteInode h
  have hread := ext2ReadGroupDescriptor_iff.mp hfound.described
  have hne := hapart descriptor hfound.described
  have hwithin := hfound.within
  have hkept : DescriptorRead volume (splice disk
      ((inodeBlock volume descriptor inode.number).toNat * volume.blockSize.toNat +
        (inodeOffset volume inode.number).toNat) 128 (composeInode volume inode
          (splice (fun _ ↦ 0) 0 128 (inodeBytes volume disk descriptor inode.number))))
      (inodeGroup volume inode.number) descriptor := by
    refine hread.congr fun i hi ↦ blockBytes_splice_of_ne hne.symm hwithin ?_ _ _
    have := hread.within
    omega
  have hfound' : InodeFound device _ volume inode.number descriptor :=
    ⟨hfound.valid, ext2ReadGroupDescriptor_iff.mpr hkept, hfound.block, hwithin⟩
  rw [hfound'.read, ← parseInode_composeInode volume inode
    (splice (fun _ ↦ 0) 0 128 (inodeBytes volume disk descriptor inode.number))]
  refine congrArg (checkInode volume) (parseInode_congr fun i hi ↦ ?_)
  unfold inodeBytes
  rw [blockBytes_splice, splice_of_mem (by omega) (by omega), Nat.add_sub_cancel_left]

theorem parse_composeGroupDescriptor (descriptor : GroupDescriptor) (raw : Bytes) :
    parseGroupDescriptor descriptor.group (composeGroupDescriptor descriptor raw) = descriptor := by
  cases descriptor
  simp (disch := omega) only [parseGroupDescriptor, composeGroupDescriptor,
    ext2ReadHalf_ext2WriteHalf_of_ne, ext2ReadHalf_ext2WriteHalf,
    ext2ReadWord_ext2WriteWord_of_ne, ext2ReadWord_ext2WriteHalf_of_ne, ext2ReadWord_ext2WriteWord]

theorem composeGroupDescriptor_apply {i : ℕ} (h : 18 ≤ i) :
    composeGroupDescriptor descriptor raw i = raw i := by
  simp (disch := omega) only [composeGroupDescriptor, ext2WriteHalf_of_ne, ext2WriteWord_of_ne]

def OnlyDescriptorFields (disk disk' : Bytes) (volume : Superblock) (group : UInt32) : Prop :=
  ∀ i, disk' i ≠ disk i → ∃ o < 18,
    i = (descriptorBlock volume group).toNat * volume.blockSize.toNat +
      (descriptorOffset volume group).toNat + o

theorem of_ext2WriteGroupDescriptor
    (h : ext2WriteGroupDescriptor device disk volume descriptor = .ok disk') :
    descriptor.group < volume.groupCount ∧
      descriptorBlock volume descriptor.group < volume.blockCount ∧
      (descriptorOffset volume descriptor.group).toNat + 32 ≤ volume.blockSize.toNat ∧
      disk' = splice disk ((descriptorBlock volume descriptor.group).toNat *
          volume.blockSize.toNat + (descriptorOffset volume descriptor.group).toNat) 32
        (composeGroupDescriptor descriptor (splice (fun _ ↦ 0) 0 32
          (descriptorBytes volume disk descriptor.group))) := by
  by_cases hwritable : volume.readOnly
  · exact absurd ((if_pos hwritable).symm.trans h) (by simp)
  by_cases hgroup : descriptor.group ≥ volume.groupCount
  · exact absurd (((if_neg hwritable).trans (if_pos hgroup)).symm.trans h) (by simp)
  have hwrite : ext2WriteGroupDescriptor device disk volume descriptor =
      (ext2ReadBytes device disk volume (descriptorBlock volume descriptor.group)
        (descriptorOffset volume descriptor.group) ext2GroupDescriptorSize >>= fun raw ↦
          ext2WriteBytes device disk volume (descriptorBlock volume descriptor.group)
            (descriptorOffset volume descriptor.group) ext2GroupDescriptorSize
              (composeGroupDescriptor descriptor raw)) := (if_neg hwritable).trans (if_neg hgroup)
  rw [hwrite] at h
  cases hread : ext2ReadBytes device disk volume (descriptorBlock volume descriptor.group)
      (descriptorOffset volume descriptor.group) ext2GroupDescriptorSize with
  | error reason =>
      rw [hread] at h
      cases h
  | ok raw =>
      obtain ⟨hblock, hoffset⟩ := within_of_ext2ReadBytes hread
      refine ⟨UInt32.not_le.mp hgroup, hblock, hoffset, ?_⟩
      rw [ext2ReadBytes_eq device disk hblock hoffset] at h
      change ext2WriteBytes device disk volume _ _ _ _ = _ at h
      rw [ext2WriteBytes_ok device disk hblock hoffset] at h
      exact (Except.ok.inj h).symm

theorem onlyDescriptorFields_written
    (h : ext2WriteGroupDescriptor device disk volume descriptor = .ok disk') :
    OnlyDescriptorFields disk disk' volume descriptor.group := by
  obtain ⟨-, -, -, rfl⟩ := of_ext2WriteGroupDescriptor h
  intro i hdiffers
  obtain ⟨o, ho, hi, hsource⟩ := splice_differs hdiffers
  refine ⟨o, Nat.lt_of_not_le fun hpast ↦ hsource ?_, hi⟩
  rw [composeGroupDescriptor_apply hpast, read_apply _ ho]
  simp only [descriptorBytes, blockBytes, Nat.add_assoc]

theorem ext2ReadGroupDescriptor_written
    (h : ext2WriteGroupDescriptor device disk volume descriptor = .ok disk')
    (htable : ext2GroupDescriptorBlock volume + ext2GroupDescriptorBlocks volume ≤
      volume.blockCount)
    (hcheck : checkGroupDescriptor volume descriptor = .ok descriptor) :
    ext2ReadGroupDescriptor device disk' volume descriptor.group = .ok descriptor := by
  obtain ⟨hgroup, hblock, hoffset, rfl⟩ := of_ext2WriteGroupDescriptor h
  refine ext2ReadGroupDescriptor_iff.mpr ⟨hgroup, htable, hblock, hoffset, ?_, hcheck⟩
  refine ((parseGroupDescriptor_congr fun i hi ↦ ?_).trans
    (parse_composeGroupDescriptor descriptor
      (splice (fun _ ↦ 0) 0 32 (descriptorBytes volume disk descriptor.group)))).symm
  unfold descriptorBytes
  rw [blockBytes_splice, splice_of_mem (by omega) (by omega), Nat.add_sub_cancel_left]

/-- An inode that is written is read again and the rest of the volume is as it was, and so it is of
each descriptor. -/
structure StoredRoundTrip (device : SteadyDevice) (disk disk' : Bytes) (volume : Superblock)
    (inode : Ext2Inode) : Prop where
  again : ext2ReadInode device disk' volume inode.number = .ok inode.stored
  others : OnlyInodeFields device disk disk' volume inode
  descriptors : ∀ descriptor left, checkGroupDescriptor volume descriptor = .ok descriptor →
    ext2WriteGroupDescriptor device disk volume descriptor = .ok left →
      ext2ReadGroupDescriptor device left volume descriptor.group = .ok descriptor ∧
        OnlyDescriptorFields disk left volume descriptor.group

/-- It is so exactly where the inode is one in use and its size is one that the volume keeps of such
a file. -/
theorem storedRoundTrip_iff (hwrite : ext2WriteInode device disk volume inode = .ok disk')
    (hapart : InodeApart device disk volume inode.number) :
    StoredRoundTrip device disk disk' volume inode ↔ InodeStands volume inode ∧
      (KeepsHighSize volume inode.mode ∨ inode.size < 4294967296) := by
  have hread := ext2ReadInode_written hwrite hapart
  rw [← storedSize_eq_iff]
  constructor
  · intro h
    obtain ⟨hstands, hsame⟩ := InodeStands.of_check (hread.symm.trans h.again)
    exact ⟨hstands, (congrArg Ext2Inode.size hsame).symm⟩
  · rintro ⟨hstands, hsize⟩
    obtain ⟨_, hfound, -⟩ := of_ext2WriteInode hwrite
    have htable := (ext2ReadGroupDescriptor_iff.mp hfound.described).table
    refine ⟨?_, onlyInodeFields_written hwrite, fun descriptor left hcheck hleft ↦ ?_⟩
    · rw [hread, hstands.check, hsize]
      rfl
    · exact ⟨ext2ReadGroupDescriptor_written hleft htable hcheck, onlyDescriptorFields_written hleft⟩

def plainFile (size : UInt64) : Ext2Inode where
  number := 12
  mode := 0x81A4
  uid := 0
  gid := 0
  size := size
  accessTime := 0
  changeTime := 0
  modifyTime := 0
  deleteTime := 0
  linkCount := 1
  sectorCount := 0
  flags := 0
  block _ := 0
  generation := 0
  fileAcl := 0

theorem plainFile_stands (size : UInt64) : InodeStands volume (plainFile size) := by
  refine ⟨by simp [plainFile], by simp [plainFile], fun hstray ↦ ?_⟩
  obtain ⟨-, entry, -, hzero, -⟩ := hstray
  exact hzero rfl

theorem InodeFound.write (h : InodeFound device disk volume inode.number descriptor)
    (hwritable : volume.readOnly = false) :
    ∃ disk', ext2WriteInode device disk volume inode = .ok disk' := by
  have hwrite : ext2WriteInode device disk volume inode =
      (ext2ReadGroupDescriptor device disk volume (inodeGroup volume inode.number) >>=
        fun descriptor ↦ ext2ReadBytes device disk volume
          (inodeBlock volume descriptor inode.number) (inodeOffset volume inode.number) 128 >>=
            fun raw ↦ ext2WriteBytes device disk volume
              (inodeBlock volume descriptor inode.number) (inodeOffset volume inode.number) 128
                (composeInode volume inode raw)) :=
    (if_neg (by simp [hwritable])).trans (if_neg h.valid)
  rw [hwrite, h.described]
  change ∃ disk', (ext2ReadBytes device disk volume _ _ 128 >>= _) = _
  rw [ext2ReadBytes_ok device disk h.block h.within]
  exact ⟨_, ext2WriteBytes_ok device disk h.block h.within _⟩

theorem twelve_found : InodeFound sampleDevice (sampleDisk 1 0xF7FF) (sampleVolume 1) 12
    ⟨0, 3, 4, 5, 0, 1, 0⟩ where
  valid := by decide
  described := by
    rw [show inodeGroup (sampleVolume 1) 12 = 0 from by decide]
    exact readGroup_sampleDisk_one
  block := by decide
  within := by decide

theorem twelve_apart : InodeApart sampleDevice (sampleDisk 1 0xF7FF) (sampleVolume 1) 12 := by
  intro descriptor hdescriptor
  cases twelve_found.described.symm.trans hdescriptor
  decide

/-- The inode of an empty file is read as it was written. -/
theorem storedRoundTrip_iff_plainFile :
    ∃ disk', ext2WriteInode sampleDevice (sampleDisk 1 0xF7FF) (sampleVolume 1) (plainFile 0) =
        .ok disk' ∧
      (StoredRoundTrip sampleDevice (sampleDisk 1 0xF7FF) disk' (sampleVolume 1) (plainFile 0) ↔
        InodeStands (sampleVolume 1) (plainFile 0) ∧
          (KeepsHighSize (sampleVolume 1) (plainFile 0).mode ∨
            (plainFile 0).size < 4294967296)) := by
  have hfound : InodeFound sampleDevice _ _ (plainFile 0).number _ := twelve_found
  obtain ⟨disk', hwrite⟩ := hfound.write rfl
  exact ⟨disk', hwrite, storedRoundTrip_iff hwrite twelve_apart⟩

end OxysOS.Fs.Ext2
