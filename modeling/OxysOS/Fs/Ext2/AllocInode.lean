import OxysOS.Fs.Ext2.Alloc

/-!
# Which inode is allocated

Where the free counts are those of the bitmaps, the allocator issues the inode of the first
clear bit of the first group whose first clear bit is of no reserved inode, or refuses.
-/

namespace OxysOS.Fs.Ext2

open OxysOS.Library Action

variable {device : SteadyDevice} {s : VolumeState} {disk raw : Bytes} {volume : Superblock}
  {group index bitmap number : UInt32} {descriptor : GroupDescriptor}

def bitAt (disk : Bytes) (volume : Superblock) (bitmap index : UInt32) : Bool :=
  disk (bitmap.toNat * volume.blockSize.toNat + (index / 8).toNat) &&&
    ((1 : UInt32) <<< (index % 8)).toUInt8 ≠ 0

structure Superblock.BitmapHolds (volume : Superblock) : Prop where
  inodes : volume.inodesPerGroup.toNat ≤ volume.blockSize.toNat * 8

theorem Superblock.Accepted.bitmapHolds (h : volume.Accepted raw) : volume.BitmapHolds := by
  have hper := UInt32.le_iff_toNat_le.mp h.inodesPerGroup.2
  refine ⟨hper.trans ?_⟩
  rw [UInt32.toNat_mul]
  exact Nat.mod_le _ _

theorem ext2BitmapTest_eq (hholds : volume.BitmapHolds) (hbitmap : bitmap < volume.blockCount)
    (hindex : index < volume.inodesPerGroup) :
    ext2BitmapTest device disk volume bitmap index = .ok (bitAt disk volume bitmap index) := by
  have hnat := UInt32.lt_iff_toNat_lt.mp hindex
  have hinodes := hholds.inodes
  have hbyte : (index / 8).toNat = index.toNat / 8 := UInt32.toNat_div _ _
  have hone : (1 : UInt32).toNat = 1 := rfl
  unfold ext2BitmapTest
  rw [ext2ReadBytes_ok device disk hbitmap (by omega)]
  rfl

theorem findFreeFrom_eq (hholds : volume.BitmapHolds) (hbitmap : bitmap < volume.blockCount)
    {positions : List UInt32} (h : ∀ position ∈ positions, position < volume.inodesPerGroup) :
    findFreeFrom device disk volume bitmap positions =
      .ok (positions.find? fun position ↦ !bitAt disk volume bitmap position) := by
  induction positions with
  | nil => rfl
  | cons position positions ih =>
      have hrest := ih fun position' hmem ↦ h position' (List.mem_cons_of_mem _ hmem)
      unfold findFreeFrom
      rw [ext2BitmapTest_eq hholds hbitmap (h position List.mem_cons_self), List.find?_cons]
      cases bitAt disk volume bitmap position with
      | false => rfl
      | true => exact hrest

theorem mem_wordsBelow {word count : UInt32} : word ∈ wordsBelow count ↔ word < count := by
  unfold wordsBelow
  rw [List.mem_map, UInt32.lt_iff_toNat_lt]
  constructor
  · rintro ⟨n, hn, rfl⟩
    have hbound : count.toNat < UInt32.size := count.toNat_lt
    have hless := List.mem_range.mp hn
    rw [UInt32.toNat_ofNat_of_lt' (Nat.lt_trans hless hbound)]
    exact hless
  · exact fun hless ↦ ⟨word.toNat, List.mem_range.mpr hless, UInt32.ofNat_toNat⟩

theorem of_ext2ReadGroupDescriptor
    (h : ext2ReadGroupDescriptor device disk volume group = .ok descriptor) :
    descriptor.group = group ∧ group < volume.groupCount ∧
      ext2GroupDescriptorBlock volume + group * ext2GroupDescriptorSize / volume.blockSize <
          volume.blockCount ∧
        (group * ext2GroupDescriptorSize % volume.blockSize).toNat +
            ext2GroupDescriptorSize.toNat ≤ volume.blockSize.toNat ∧
          descriptor.inodeBitmap < volume.blockCount := by
  unfold ext2ReadGroupDescriptor at h
  dsimp only at h
  by_cases hgroup : group ≥ volume.groupCount
  · rw [if_pos hgroup] at h
    cases h
  by_cases htable : ext2GroupDescriptorBlock volume + ext2GroupDescriptorBlocks volume >
      volume.blockCount
  · rw [if_neg hgroup, if_pos htable] at h
    cases h
  rw [if_neg hgroup, if_neg htable] at h
  cases hread : ext2ReadBytes device disk volume
      (ext2GroupDescriptorBlock volume + group * ext2GroupDescriptorSize / volume.blockSize)
      (group * ext2GroupDescriptorSize % volume.blockSize) ext2GroupDescriptorSize with
  | error reason =>
      rw [hread] at h
      cases h
  | ok raw =>
      rw [hread] at h
      obtain ⟨hblock, hoffset⟩ := within_of_ext2ReadBytes hread
      change checkGroupDescriptor volume (parseGroupDescriptor group raw) = _ at h
      unfold checkGroupDescriptor at h
      split_ifs at h with houtside
      cases h
      rw [not_or, not_or, not_not, not_not] at houtside
      exact ⟨rfl, UInt32.not_le.mp hgroup, hblock, hoffset, houtside.2.1.2⟩

def lowestClear (device : SteadyDevice) (s : VolumeState) (group : UInt32) : Option UInt32 :=
  match ext2ReadGroupDescriptor device s.disk s.volume group with
  | .error _ => none
  | .ok descriptor =>
      match ext2BitmapFindFree device s.disk s.volume descriptor.inodeBitmap
        s.volume.inodesPerGroup with
      | .ok (some index) => some (group * s.volume.inodesPerGroup + index + 1)
      | _ => none

def clearCount (device : SteadyDevice) (s : VolumeState) (group : UInt32) : ℕ :=
  match ext2ReadGroupDescriptor device s.disk s.volume group with
  | .error _ => 0
  | .ok descriptor => (wordsBelow s.volume.inodesPerGroup).countP fun index ↦
      !bitAt s.disk s.volume descriptor.inodeBitmap index

/-- Every descriptor is read, and the free counts are those of the bitmaps. -/
structure FreeCounts (device : SteadyDevice) (s : VolumeState) : Prop where
  group : ∀ group < s.volume.groupCount, ∃ descriptor,
    ext2ReadGroupDescriptor device s.disk s.volume group = .ok descriptor ∧
      descriptor.freeInodeCount.toNat = clearCount device s group
  volume : s.volume.freeInodeCount.toNat =
    ((wordsBelow s.volume.groupCount).map (clearCount device s)).sum

def Usable (volume : Superblock) (number : UInt32) : Prop :=
  volume.firstInode ≤ number ∧ number ≤ volume.inodeCount

def MarkedFree (device : SteadyDevice) (s : VolumeState) (number : UInt32) : Prop :=
  ext2InodeInUse device s.disk s.volume number = .ok false

theorem lowestClear_eq (hholds : s.volume.BitmapHolds)
    (h : ext2ReadGroupDescriptor device s.disk s.volume group = .ok descriptor) :
    lowestClear device s group = ((wordsBelow s.volume.inodesPerGroup).find? fun index ↦
      !bitAt s.disk s.volume descriptor.inodeBitmap index).map fun index ↦
        group * s.volume.inodesPerGroup + index + 1 := by
  obtain ⟨-, -, -, -, hbitmap⟩ := of_ext2ReadGroupDescriptor h
  unfold lowestClear ext2BitmapFindFree
  rw [h]
  dsimp only
  rw [findFreeFrom_eq hholds hbitmap fun position ↦ mem_wordsBelow.mp]
  cases (wordsBelow s.volume.inodesPerGroup).find? fun index ↦
    !bitAt s.disk s.volume descriptor.inodeBitmap index <;> rfl

theorem clearCount_eq (h : ext2ReadGroupDescriptor device s.disk s.volume group = .ok descriptor) :
    clearCount device s group = (wordsBelow s.volume.inodesPerGroup).countP fun index ↦
      !bitAt s.disk s.volume descriptor.inodeBitmap index := by
  unfold clearCount
  rw [h]

theorem clearCount_pos_iff (hholds : s.volume.BitmapHolds)
    (h : ext2ReadGroupDescriptor device s.disk s.volume group = .ok descriptor) :
    0 < clearCount device s group ↔ (lowestClear device s group).isSome := by
  rw [clearCount_eq h, lowestClear_eq hholds h, Option.isSome_map, List.countP_pos_iff,
    List.find?_isSome]

structure Superblock.NumbersFit (volume : Superblock) : Prop where
  perGroup : 0 < volume.inodesPerGroup.toNat
  fit : volume.groupCount.toNat * volume.inodesPerGroup.toNat < 2 ^ 32
  last : volume.groupCount.toNat * volume.inodesPerGroup.toNat <
    volume.inodeCount.toNat + volume.inodesPerGroup.toNat

theorem Superblock.Accepted.numbersFit (h : volume.Accepted raw) : volume.NumbersFit := by
  have hper := UInt32.lt_iff_toNat_lt.mp h.inodesPerGroup.1
  have hless := Nat.div_mul_le_self ((volume.inodeCount.toNat + (volume.inodesPerGroup.toNat - 1)) %
    2 ^ 32) volume.inodesPerGroup.toNat
  have hmod := Nat.mod_le (volume.inodeCount.toNat + (volume.inodesPerGroup.toNat - 1)) (2 ^ 32)
  have hbound := Nat.mod_lt (volume.inodeCount.toNat + (volume.inodesPerGroup.toNat - 1))
    (Nat.two_pow_pos 32)
  have hgroups : volume.groupCount.toNat = (volume.inodeCount.toNat +
      (volume.inodesPerGroup.toNat - 1)) % 2 ^ 32 / volume.inodesPerGroup.toNat := by
    rw [h.groupsByInode]
    unfold ext2DivideRoundingUp
    rw [UInt32.toNat_div, UInt32.toNat_add,
      toNat_sub_one (UInt32.pos_iff_ne_zero.mp h.inodesPerGroup.1)]
  rw [← hgroups] at hless
  exact ⟨hper, Nat.lt_of_le_of_lt hless hbound, by omega⟩

theorem toNat_number (hfit : volume.NumbersFit) (hgroup : group < volume.groupCount)
    (hindex : index < volume.inodesPerGroup) :
    (group * volume.inodesPerGroup + index + 1).toNat =
      group.toNat * volume.inodesPerGroup.toNat + index.toNat + 1 := by
  have hbound := hfit.fit
  have hgroupNat := UInt32.lt_iff_toNat_lt.mp hgroup
  have hindexNat := UInt32.lt_iff_toNat_lt.mp hindex
  have hless : (group.toNat + 1) * volume.inodesPerGroup.toNat ≤
      volume.groupCount.toNat * volume.inodesPerGroup.toNat := Nat.mul_le_mul_right _ hgroupNat
  have hone : (1 : UInt32).toNat = 1 := rfl
  rw [Nat.succ_mul] at hless
  rw [UInt32.toNat_add, UInt32.toNat_add, UInt32.toNat_mul,
    Nat.mod_eq_of_lt (a := _ * _) (by omega), Nat.mod_eq_of_lt (a := _ + index.toNat) (by omega),
    hone, Nat.mod_eq_of_lt (by omega)]

theorem number_position (hfit : volume.NumbersFit) (hgroup : group < volume.groupCount)
    (hindex : index < volume.inodesPerGroup) :
    (group * volume.inodesPerGroup + index + 1 - 1) / volume.inodesPerGroup = group ∧
      (group * volume.inodesPerGroup + index + 1 - 1) % volume.inodesPerGroup = index := by
  have hnumber := toNat_number hfit hgroup hindex
  have hindexNat := UInt32.lt_iff_toNat_lt.mp hindex
  have hless : (group * volume.inodesPerGroup + index + 1 - 1).toNat =
      volume.inodesPerGroup.toNat * group.toNat + index.toNat := by
    rw [toNat_sub_one fun hzero ↦ ?_, hnumber, Nat.mul_comm]
    · rfl
    · rw [hzero] at hnumber
      exact absurd hnumber (Nat.succ_ne_zero _).symm
  rw [← UInt32.toNat_inj, ← UInt32.toNat_inj, UInt32.toNat_div, UInt32.toNat_mod, hless]
  constructor
  · rw [Nat.mul_add_div hfit.perGroup, Nat.div_eq_of_lt hindexNat, Nat.add_zero]
  · rw [Nat.mul_add_mod, Nat.mod_eq_of_lt hindexNat]

theorem markedFree_iff (hholds : s.volume.BitmapHolds) (hfit : s.volume.NumbersFit) :
    MarkedFree device s number ↔ (number ≠ 0 ∧ number ≤ s.volume.inodeCount) ∧
      ∃ descriptor, ext2ReadGroupDescriptor device s.disk s.volume
          ((number - 1) / s.volume.inodesPerGroup) = .ok descriptor ∧
        bitAt s.disk s.volume descriptor.inodeBitmap
          ((number - 1) % s.volume.inodesPerGroup) = false := by
  unfold MarkedFree ext2InodeInUse
  by_cases hnumber : number = 0 ∨ number > s.volume.inodeCount
  · rw [if_pos hnumber]
    constructor
    · intro h
      cases h
    · rintro ⟨⟨hzero, hlimit⟩, -⟩
      exact absurd hnumber (not_or.mpr ⟨hzero, UInt32.not_lt.mpr hlimit⟩)
  · rw [if_neg hnumber]
    rw [not_or] at hnumber
    cases hread : ext2ReadGroupDescriptor device s.disk s.volume
        ((number - 1) / s.volume.inodesPerGroup) with
    | error reason =>
        constructor
        · intro h
          cases h
        · rintro ⟨-, descriptor, hother, -⟩
          cases hother
    | ok descriptor =>
        obtain ⟨-, -, -, -, hbitmap⟩ := of_ext2ReadGroupDescriptor hread
        have hindex : (number - 1) % s.volume.inodesPerGroup < s.volume.inodesPerGroup := by
          rw [UInt32.lt_iff_toNat_lt, UInt32.toNat_mod]
          exact Nat.mod_lt _ hfit.perGroup
        change ext2BitmapTest device s.disk s.volume descriptor.inodeBitmap _ = _ ↔ _
        rw [ext2BitmapTest_eq hholds hbitmap hindex]
        constructor
        · intro h
          exact ⟨⟨hnumber.1, UInt32.not_lt.mp hnumber.2⟩, descriptor, rfl, Except.ok.inj h⟩
        · rintro ⟨-, descriptor', hother, hbit⟩
          cases hother
          rw [hbit]

theorem of_lowestClear (hholds : s.volume.BitmapHolds) (hfit : s.volume.NumbersFit)
    (hgroup : group < s.volume.groupCount) (h : lowestClear device s group = some number) :
    group.toNat * s.volume.inodesPerGroup.toNat < number.toNat ∧
      number.toNat ≤ (group.toNat + 1) * s.volume.inodesPerGroup.toNat ∧
      (number ≤ s.volume.inodeCount → MarkedFree device s number) := by
  cases hread : ext2ReadGroupDescriptor device s.disk s.volume group with
  | error reason =>
      unfold lowestClear at h
      rw [hread] at h
      cases h
  | ok descriptor =>
      rw [lowestClear_eq hholds hread, Option.map_eq_some_iff] at h
      obtain ⟨index, hfind, rfl⟩ := h
      have hindex := mem_wordsBelow.mp (List.mem_of_find?_eq_some hfind)
      have hclear := List.find?_some hfind
      have hnumber := toNat_number hfit hgroup hindex
      have hindexNat := UInt32.lt_iff_toNat_lt.mp hindex
      obtain ⟨hdiv, hmod⟩ := number_position hfit hgroup hindex
      rw [hnumber, Nat.succ_mul]
      refine ⟨by omega, by omega, fun hlimit ↦ (markedFree_iff hholds hfit).mpr
        ⟨⟨fun hzero ↦ ?_, hlimit⟩, descriptor, ?_, ?_⟩⟩
      · rw [hzero] at hnumber
        exact absurd hnumber (Nat.succ_ne_zero _).symm
      · rw [hdiv]
        exact hread
      · rw [hmod]
        exact (Bool.not_eq_true' _).mp hclear

structure Superblock.Located (volume : Superblock) : Prop where
  block : ext2SuperblockOffset / volume.blockSize < volume.blockCount
  offset : (ext2SuperblockOffset % volume.blockSize).toNat + ext2SuperblockSize.toNat ≤
    volume.blockSize.toNat

theorem Superblock.Accepted.located (h : volume.Accepted raw) : volume.Located := by
  have hcount := h.blockCount
  rw [h.firstDataBlock] at hcount
  rcases h.blockSize with hsize | hsize | hsize
  · rw [if_pos hsize] at hcount
    constructor
    · rw [hsize]
      exact hcount
    · rw [hsize]
      decide
  · rw [if_neg (by rw [hsize]; decide)] at hcount
    constructor
    · rw [hsize]
      exact hcount
    · rw [hsize]
      decide
  · rw [if_neg (by rw [hsize]; decide)] at hcount
    constructor
    · rw [hsize]
      exact hcount
    · rw [hsize]
      decide

theorem foldlM_some {α β : Type} (f : β → α → β) (xs : List α) (b : β) :
    xs.foldlM (fun b a ↦ some (f b a)) b = some (xs.foldl f b) := by
  induction xs generalizing b with
  | nil => rfl
  | cons a xs ih => exact ih (f b a)

theorem ext2ReadSuperblockBytes_some (device : SteadyDevice) (disk : Bytes) :
    ∃ raw, ext2ReadSuperblockBytes (device.medium disk) = some raw := by
  unfold ext2ReadSuperblockBytes SteadyDevice.medium
  exact ⟨_, foldlM_some _ _ _⟩

theorem ext2WriteSuperblock_ok (device : SteadyDevice) (disk : Bytes) (volume : Superblock)
    (h : volume.Located) (hwritable : volume.readOnly = false) :
    ∃ disk', ext2WriteSuperblock device disk volume = .ok disk' := by
  obtain ⟨raw, hraw⟩ := ext2ReadSuperblockBytes_some device disk
  unfold ext2WriteSuperblock
  rw [if_neg (by rw [hwritable]; exact Bool.false_ne_true), hraw]
  exact ⟨_, ext2WriteBytes_ok device disk h.block h.offset _⟩

theorem ext2WriteGroupDescriptor_ok (device : SteadyDevice) (disk : Bytes) (volume : Superblock)
    (descriptor : GroupDescriptor) (hwritable : volume.readOnly = false)
    (hgroup : descriptor.group < volume.groupCount)
    (hblock : ext2GroupDescriptorBlock volume +
      descriptor.group * ext2GroupDescriptorSize / volume.blockSize < volume.blockCount)
    (hoffset : (descriptor.group * ext2GroupDescriptorSize % volume.blockSize).toNat +
      ext2GroupDescriptorSize.toNat ≤ volume.blockSize.toNat) :
    ∃ disk', ext2WriteGroupDescriptor device disk volume descriptor = .ok disk' := by
  unfold ext2WriteGroupDescriptor
  dsimp only
  rw [if_neg (by rw [hwritable]; exact Bool.false_ne_true), if_neg (UInt32.not_le.mpr hgroup),
    ext2ReadBytes_ok device disk hblock hoffset]
  exact ⟨_, ext2WriteBytes_ok device disk hblock hoffset _⟩

theorem ext2BitmapSet_ok (device : SteadyDevice) (hholds : volume.BitmapHolds)
    (hbitmap : bitmap < volume.blockCount) (hindex : index < volume.inodesPerGroup)
    (hclear : bitAt disk volume bitmap index = false) (what : String) :
    ∃ disk', ext2BitmapSet device disk volume bitmap index true what = .ok disk' := by
  have hnat := UInt32.lt_iff_toNat_lt.mp hindex
  have hinodes := hholds.inodes
  have hbyte : (index / 8).toNat = index.toNat / 8 := UInt32.toNat_div _ _
  have hone : (1 : UInt32).toNat = 1 := rfl
  unfold ext2BitmapSet
  dsimp only
  rw [ext2ReadBytes_ok device disk hbitmap (by omega)]
  refine ⟨_, (if_neg ?_).trans (ext2WriteBytes_ok device disk hbitmap (by omega) _)⟩
  exact fun hused ↦ Bool.false_ne_true (hclear.symm.trans hused)

theorem takeInode_ok (hholds : s.volume.BitmapHolds) (hlocated : s.volume.Located)
    (hwritable : s.volume.readOnly = false) (directory : Bool)
    (hread : ext2ReadGroupDescriptor device s.disk s.volume group = .ok descriptor)
    (hindex : index < s.volume.inodesPerGroup)
    (hclear : bitAt s.disk s.volume descriptor.inodeBitmap index = false) (candidate : UInt32) :
    (outcome (takeInode device directory descriptor index candidate) s).1 = .ok candidate := by
  obtain ⟨hsame, hgroup, hblock, hoffset, hbitmap⟩ := of_ext2ReadGroupDescriptor hread
  obtain ⟨disk, hset⟩ := ext2BitmapSet_ok device hholds hbitmap hindex hclear
    "an inode already in use was allocated"
  unfold takeInode
  rw [outcome_bind, outcome_get]
  dsimp only
  rw [outcome_bind, outcome_consult, hset]
  dsimp only
  rw [outcome_bind, outcome_set]
  dsimp only
  obtain ⟨disk', hdescriptor⟩ := ext2WriteGroupDescriptor_ok device disk
    { s.volume with freeInodeCount := s.volume.freeInodeCount - 1 }
    { descriptor with
      freeInodeCount := descriptor.freeInodeCount - 1
      usedDirectoryCount := if directory then descriptor.usedDirectoryCount + 1
        else descriptor.usedDirectoryCount } hwritable (by rw [hsame]; exact hgroup)
    (by rw [hsame]; exact hblock) (by rw [hsame]; exact hoffset)
  rw [outcome_bind, outcome_consult, hdescriptor]
  dsimp only
  rw [outcome_bind, outcome_set]
  dsimp only
  obtain ⟨disk'', hsuper⟩ := ext2WriteSuperblock_ok device disk'
    { s.volume with freeInodeCount := s.volume.freeInodeCount - 1 }
    ⟨hlocated.block, hlocated.offset⟩ hwritable
  rw [outcome_bind, outcome_consult, hsuper]
  rfl

def issued (device : SteadyDevice) (s : VolumeState) (group : UInt32) : Option UInt32 :=
  (lowestClear device s group).filter fun number ↦ s.volume.firstInode ≤ number

theorem issued_eq_some : issued device s group = some number ↔
    lowestClear device s group = some number ∧ s.volume.firstInode ≤ number := by
  unfold issued
  rw [Option.filter_eq_some_iff, decide_eq_true_eq]

theorem allocateInodeFrom_eq (hholds : s.volume.BitmapHolds) (hlocated : s.volume.Located)
    (hwritable : s.volume.readOnly = false) (hcounts : FreeCounts device s) (directory : Bool)
    {groups : List UInt32} (hgroups : ∀ group ∈ groups, group < s.volume.groupCount) :
    (outcome (allocateInodeFrom device directory groups) s).1 =
      match groups.findSome? (issued device s) with
      | some number => .ok number
      | none => .error "no group of the volume holds a free inode" := by
  induction groups with
  | nil => rfl
  | cons group groups ih =>
      have hrest := ih fun group' hmem ↦ hgroups group' (List.mem_cons_of_mem _ hmem)
      obtain ⟨descriptor, hread, hcount⟩ := hcounts.group group (hgroups group List.mem_cons_self)
      obtain ⟨-, -, -, -, hbitmap⟩ := of_ext2ReadGroupDescriptor hread
      have hsome := clearCount_pos_iff hholds hread
      have hlowest := lowestClear_eq hholds hread
      unfold allocateInodeFrom
      rw [outcome_bind, outcome_get]
      dsimp only
      rw [outcome_bind, outcome_consult, hread, List.findSome?_cons]
      dsimp only
      by_cases hfull : descriptor.freeInodeCount = 0
      · have hnone : lowestClear device s group = none := by
          rw [hfull] at hcount
          rw [← hcount] at hsome
          exact Option.not_isSome_iff_eq_none.mp fun h ↦ absurd (hsome.mpr h) (Nat.lt_irrefl 0)
        have hissued : issued device s group = none := by
          unfold issued
          rw [hnone]
          rfl
        rw [if_pos hfull, hissued]
        exact hrest
      · have hpositive : 0 < clearCount device s group := by
          rw [← hcount]
          exact Nat.pos_of_ne_zero fun hzero ↦ hfull (UInt16.toNat_inj.mp hzero)
        obtain ⟨number, hnumber⟩ := Option.isSome_iff_exists.mp (hsome.mp hpositive)
        rw [if_neg hfull, outcome_bind, outcome_consult]
        unfold ext2BitmapFindFree
        rw [findFreeFrom_eq hholds hbitmap fun position ↦ mem_wordsBelow.mp]
        rw [hnumber] at hlowest
        obtain ⟨index, hfind, hcandidate⟩ := Option.map_eq_some_iff.mp hlowest.symm
        rw [hfind]
        dsimp only
        rw [hcandidate]
        by_cases hreserved : number < s.volume.firstInode
        · have hissued : issued device s group = none := by
            unfold issued
            rw [hnumber]
            exact Option.filter_some_neg (decide_eq_false (UInt32.not_le.mpr hreserved))
          rw [if_pos hreserved, hissued]
          exact hrest
        · have hissued : issued device s group = some number :=
            issued_eq_some.mpr ⟨hnumber, UInt32.not_lt.mp hreserved⟩
          have hclear := List.find?_some hfind
          rw [if_neg hreserved, hissued]
          exact takeInode_ok hholds hlocated hwritable directory hread
            (mem_wordsBelow.mp (List.mem_of_find?_eq_some hfind))
            ((Bool.not_eq_true' _).mp hclear) number

theorem issued_of_full (hholds : s.volume.BitmapHolds) (hcounts : FreeCounts device s)
    (hzero : s.volume.freeInodeCount = 0) :
    (wordsBelow s.volume.groupCount).findSome? (issued device s) = none := by
  have hsum := hcounts.volume
  rw [hzero] at hsum
  refine List.findSome?_eq_none_iff.mpr fun group hmem ↦ ?_
  obtain ⟨descriptor, hread, -⟩ := hcounts.group group (mem_wordsBelow.mp hmem)
  have hcount : clearCount device s group = 0 := List.sum_eq_zero_iff_forall_eq_nat.mp hsum.symm _
    (List.mem_map_of_mem hmem)
  have hnone : lowestClear device s group = none := by
    refine Option.not_isSome_iff_eq_none.mp fun hsome ↦ ?_
    have hpositive := (clearCount_pos_iff hholds hread).mpr hsome
    omega
  unfold issued
  rw [hnone]
  rfl

theorem ext2AllocateInode_eq (hholds : s.volume.BitmapHolds) (hlocated : s.volume.Located)
    (hwritable : s.volume.readOnly = false) (hcounts : FreeCounts device s) (directory : Bool)
    (number : UInt32) :
    (outcome (ext2AllocateInode device directory) s).1 = .ok number ↔
      (wordsBelow s.volume.groupCount).findSome? (issued device s) = some number := by
  unfold ext2AllocateInode
  rw [outcome_bind, outcome_get]
  dsimp only
  rw [if_neg (by rw [hwritable]; exact Bool.false_ne_true)]
  by_cases hzero : s.volume.freeInodeCount = 0
  · rw [if_pos hzero, issued_of_full hholds hcounts hzero]
    constructor
    · intro h
      cases h
    · intro h
      cases h
  · rw [if_neg hzero, allocateInodeFrom_eq hholds hlocated hwritable hcounts directory
      fun group ↦ mem_wordsBelow.mp]
    cases (wordsBelow s.volume.groupCount).findSome? (issued device s) with
    | none =>
        constructor
        · intro h
          cases h
        · intro h
          cases h
    | some number' =>
        constructor
        · intro h
          cases h
          rfl
        · intro h
          cases h
          rfl

def FreeUsable (device : SteadyDevice) (s : VolumeState) : Prop :=
  ∃ number, Usable s.volume number ∧ MarkedFree device s number

/-- The allocator issues real inodes, and one wherever there is one. -/
structure AllocatesReal (device : SteadyDevice) (s : VolumeState) (directory : Bool) : Prop where
  succeeds : (∃ number, (outcome (ext2AllocateInode device directory) s).1 = .ok number) ↔
    FreeUsable device s
  issues : ∀ number, (outcome (ext2AllocateInode device directory) s).1 = .ok number →
    Usable s.volume number ∧ MarkedFree device s number

/-- The first clear bit of some group is of an inode that may be issued, wherever such an inode
is free or the first clear bit of some group is of no inode. -/
def LowestUsable (device : SteadyDevice) (s : VolumeState) : Prop :=
  (FreeUsable device s ∨ ∃ group < s.volume.groupCount, ∃ number,
      lowestClear device s group = some number ∧ s.volume.inodeCount < number) →
    ∃ group < s.volume.groupCount, ∃ number,
      lowestClear device s group = some number ∧ Usable s.volume number

theorem wordsBelow_pairwise (count : UInt32) : (wordsBelow count).Pairwise (· < ·) := by
  unfold wordsBelow
  have hbound : count.toNat < UInt32.size := count.toNat_lt
  rw [List.pairwise_map]
  refine List.pairwise_lt_range.imp_of_mem fun {a b} ha hb hless ↦ ?_
  have ha := List.mem_range.mp ha
  have hb := List.mem_range.mp hb
  rw [UInt32.lt_iff_toNat_lt, UInt32.toNat_ofNat_of_lt' (Nat.lt_trans ha hbound),
    UInt32.toNat_ofNat_of_lt' (Nat.lt_trans hb hbound)]
  exact hless

theorem usable_of_findSome (hholds : s.volume.BitmapHolds) (hfit : s.volume.NumbersFit)
    (hfind : (wordsBelow s.volume.groupCount).findSome? (issued device s) = some number)
    (hlowest : ∃ group < s.volume.groupCount, ∃ number,
      lowestClear device s group = some number ∧ Usable s.volume number) :
    number ≤ s.volume.inodeCount := by
  obtain ⟨before, first, after, hsplit, hissued, hbefore⟩ := List.findSome?_eq_some_iff.mp hfind
  obtain ⟨group, hgroup, number', hnumber', husable⟩ := hlowest
  have hmem : group ∈ before ++ first :: after := hsplit ▸ mem_wordsBelow.mpr hgroup
  have hfirst : first < s.volume.groupCount := mem_wordsBelow.mp (by
    rw [hsplit]
    exact List.mem_append_right _ List.mem_cons_self)
  have horder := hsplit ▸ wordsBelow_pairwise s.volume.groupCount
  have hnumber := (issued_eq_some.mp hissued).1
  rcases List.mem_append.mp hmem with hmem | hmem
  · have hnone := hbefore group hmem
    rw [issued_eq_some.mpr ⟨hnumber', husable.1⟩] at hnone
    cases hnone
  rcases List.mem_cons.mp hmem with rfl | hmem
  · obtain rfl := Option.some.inj (hnumber.symm.trans hnumber')
    exact husable.2
  · -- a group after it has an inode, so it is not the last
    have hless := List.rel_of_pairwise_cons (List.pairwise_append.mp horder).2.1 hmem
    have hlast := hfit.last
    have hgroupNat := UInt32.lt_iff_toNat_lt.mp hgroup
    have hlessNat := UInt32.lt_iff_toNat_lt.mp hless
    obtain ⟨-, hupper, -⟩ := of_lowestClear hholds hfit hfirst hnumber
    have hrows : (first.toNat + 1 + 1) * s.volume.inodesPerGroup.toNat ≤
        s.volume.groupCount.toNat * s.volume.inodesPerGroup.toNat :=
      Nat.mul_le_mul_right _ (by omega)
    rw [Nat.succ_mul] at hrows
    rw [UInt32.le_iff_toNat_le]
    omega

/-- The inode allocator is right exactly where the first clear bits let it be: of a volume that
may be written, where some group's is of a usable inode, unless none is free and no group's is
beyond the inodes; of one that may not, where no usable inode is free. -/
theorem ext2AllocateInode_real_iff (device : SteadyDevice) (disk : Bytes) (volume : Superblock)
    (exact : Bool) (directory : Bool)
    (haccepted : outcome (ext2ReadSuperblock (device.medium disk)) true = (.ok volume, exact))
    (hcounts : FreeCounts device ⟨disk, volume⟩) :
    AllocatesReal device ⟨disk, volume⟩ directory ↔
      if volume.readOnly then ¬FreeUsable device ⟨disk, volume⟩
      else LowestUsable device ⟨disk, volume⟩ := by
  obtain ⟨raw, hraw⟩ := ext2ReadSuperblockBytes_some device disk
  obtain ⟨haccepted, -⟩ := accepted_of_parse (parse_of_read hraw haccepted)
  have hholds := haccepted.bitmapHolds
  have hfit := haccepted.numbersFit
  have hfirst := haccepted.firstInode.2
  by_cases hreadOnly : volume.readOnly
  · have hrefused : ∀ number, (outcome (ext2AllocateInode device directory)
        (⟨disk, volume⟩ : VolumeState)).1 ≠ .ok number := by
      intro number
      unfold ext2AllocateInode
      rw [outcome_bind, outcome_get]
      dsimp only
      rw [if_pos hreadOnly]
      exact fun h ↦ by cases h
    rw [if_pos hreadOnly]
    constructor
    · intro h hfree
      obtain ⟨number, hissued⟩ := h.succeeds.mpr hfree
      exact hrefused number hissued
    · intro hfree
      exact ⟨⟨fun ⟨number, hissued⟩ ↦ absurd hissued (hrefused number), fun h ↦ absurd h hfree⟩,
        fun number hissued ↦ absurd hissued (hrefused number)⟩
  · rw [if_neg hreadOnly]
    have heq := ext2AllocateInode_eq (s := ⟨disk, volume⟩) hholds haccepted.located
      (Bool.eq_false_iff.mpr hreadOnly) hcounts directory
    have hfound : ∀ group < volume.groupCount, ∀ number, lowestClear device ⟨disk, volume⟩ group =
        some number → volume.firstInode ≤ number → ∃ number, (outcome (ext2AllocateInode device
          directory) (⟨disk, volume⟩ : VolumeState)).1 = .ok number := by
      intro group hgroup number hlowest hfirst
      have hsome : ((wordsBelow volume.groupCount).findSome?
          (issued device ⟨disk, volume⟩)).isSome := by
        refine List.findSome?_isSome_iff.mpr ⟨group, mem_wordsBelow.mpr hgroup, ?_⟩
        rw [issued_eq_some.mpr ⟨hlowest, hfirst⟩]
        rfl
      obtain ⟨number', hnumber'⟩ := Option.isSome_iff_exists.mp hsome
      exact ⟨number', (heq number').mpr hnumber'⟩
    have hreal : ∀ number, (outcome (ext2AllocateInode device directory)
        (⟨disk, volume⟩ : VolumeState)).1 = .ok number → ∃ group < volume.groupCount,
          lowestClear device ⟨disk, volume⟩ group = some number ∧ volume.firstInode ≤ number := by
      intro number hissued
      obtain ⟨group, hmem, hgroup⟩ := List.exists_of_findSome?_eq_some ((heq number).mp hissued)
      exact ⟨group, mem_wordsBelow.mp hmem, issued_eq_some.mp hgroup⟩
    constructor
    · intro h hneeded
      have hsucceeds : ∃ number, (outcome (ext2AllocateInode device directory)
          (⟨disk, volume⟩ : VolumeState)).1 = .ok number := by
        rcases hneeded with hfree | ⟨group, hgroup, number, hlowest, hbeyond⟩
        · exact h.succeeds.mpr hfree
        · exact hfound group hgroup number hlowest (UInt32.le_trans hfirst (UInt32.le_of_lt hbeyond))
      obtain ⟨number, hissued⟩ := hsucceeds
      obtain ⟨group, hgroup, hlowest, -⟩ := hreal number hissued
      exact ⟨group, hgroup, number, hlowest, (h.issues number hissued).1⟩
    · intro h
      have hissues : ∀ number, (outcome (ext2AllocateInode device directory)
          (⟨disk, volume⟩ : VolumeState)).1 = .ok number →
            Usable volume number ∧ MarkedFree device ⟨disk, volume⟩ number := by
        intro number hissued
        obtain ⟨group, hgroup, hlowest, hreserved⟩ := hreal number hissued
        have hlimit : number ≤ volume.inodeCount := by
          by_contra hover
          exact hover (usable_of_findSome hholds hfit ((heq number).mp hissued)
            (h (Or.inr ⟨group, hgroup, number, hlowest, UInt32.not_le.mp hover⟩)))
        exact ⟨⟨hreserved, hlimit⟩, (of_lowestClear hholds hfit hgroup hlowest).2.2 hlimit⟩
      refine ⟨⟨fun ⟨number, hissued⟩ ↦ ⟨number, hissues number hissued⟩, fun hfree ↦ ?_⟩, hissues⟩
      obtain ⟨group, hgroup, number, hlowest, husable⟩ := h (Or.inl hfree)
      exact hfound group hgroup number hlowest husable.1

def sampleDevice : SteadyDevice := ⟨1024, 64, by decide⟩

def sampleDisk (free bitmap : ℕ) : Bytes :=
  let disk := splice (fun _ ↦ 0) 1024 1024 (writeField (oldImage 16 64 8192 16) 16 4 free)
  let disk := writeField disk 2048 4 3
  let disk := writeField disk 2052 4 4
  let disk := writeField disk 2056 4 5
  let disk := writeField disk 2062 2 free
  writeField disk 4096 2 bitmap

def sampleVolume (free : UInt32) : Superblock where
  inodeCount := 16
  blockCount := 64
  reservedBlockCount := 0
  freeBlockCount := 0
  freeInodeCount := free
  firstDataBlock := 1
  blockSize := 1024
  fragmentSize := 1024
  blocksPerGroup := 8192
  fragmentsPerGroup := 0
  inodesPerGroup := 16
  mountTime := 0
  writeTime := 0
  mountCount := 0
  maximumMountCount := 0
  magic := 0xEF53
  state := 1
  errors := 0
  minorRevision := 0
  lastCheck := 0
  checkInterval := 0
  creatorOs := 0
  revision := 0
  defaultUid := 0
  defaultGid := 0
  firstInode := 11
  inodeSize := 128
  blockGroupNumber := 0
  featureCompatible := 0
  featureIncompatible := 0
  featureReadOnly := 0
  uuid := List.replicate 16 0
  volumeName := []
  lastMounted := []
  groupCount := 1
  sectorsPerBlock := 1
  readOnly := false

theorem read_sampleDisk_one : outcome (ext2ReadSuperblock (sampleDevice.medium
    (sampleDisk 1 0xF7FF))) true = (.ok (sampleVolume 1), true) := rfl

theorem read_sampleDisk_two : outcome (ext2ReadSuperblock (sampleDevice.medium
    (sampleDisk 2 0xF7FB))) true = (.ok (sampleVolume 2), true) := rfl

theorem readGroup_sampleDisk_one : ext2ReadGroupDescriptor sampleDevice (sampleDisk 1 0xF7FF)
    (sampleVolume 1) 0 = .ok ⟨0, 3, 4, 5, 0, 1, 0⟩ := by
  unfold ext2ReadGroupDescriptor
  dsimp only
  rw [ext2ReadBytes_ok sampleDevice _ (by decide) (by decide)]
  rfl

theorem readGroup_sampleDisk_two : ext2ReadGroupDescriptor sampleDevice (sampleDisk 2 0xF7FB)
    (sampleVolume 2) 0 = .ok ⟨0, 3, 4, 5, 0, 2, 0⟩ := by
  unfold ext2ReadGroupDescriptor
  dsimp only
  rw [ext2ReadBytes_ok sampleDevice _ (by decide) (by decide)]
  rfl

theorem freeCounts_of_group (hgroups : s.volume.groupCount = 1)
    (h : ext2ReadGroupDescriptor device s.disk s.volume 0 = .ok descriptor)
    (hfree : descriptor.freeInodeCount.toNat = s.volume.freeInodeCount.toNat)
    (hcount : ((wordsBelow s.volume.inodesPerGroup).countP fun index ↦
      !bitAt s.disk s.volume descriptor.inodeBitmap index) = s.volume.freeInodeCount.toNat) :
    FreeCounts device s := by
  have hone : wordsBelow 1 = [0] := by decide
  constructor
  · intro group hgroup
    rw [hgroups] at hgroup
    obtain rfl := List.mem_singleton.mp (hone ▸ mem_wordsBelow.mpr hgroup)
    exact ⟨descriptor, h, by rw [clearCount_eq h, hcount, hfree]⟩
  · rw [hgroups, hone, List.map_singleton, List.sum_singleton, clearCount_eq h, hcount]

/-- Where inode 12 alone is free it is issued. -/
theorem ext2AllocateInode_real_iff_twelve :
    AllocatesReal sampleDevice ⟨sampleDisk 1 0xF7FF, sampleVolume 1⟩ false := by
  refine (ext2AllocateInode_real_iff sampleDevice (sampleDisk 1 0xF7FF) (sampleVolume 1) true false
    read_sampleDisk_one (freeCounts_of_group rfl readGroup_sampleDisk_one rfl
      (by decide +kernel))).mpr fun _ ↦ ⟨0, by decide, 12, ?_, by decide, by decide⟩
  rw [lowestClear_eq ⟨by decide⟩ readGroup_sampleDisk_one]
  decide +kernel

/-- Where the bit of inode 3, which is reserved, is clear, inode 12 is not found. -/
theorem ext2AllocateInode_not_real : ∃ device disk volume,
    outcome (ext2ReadSuperblock (device.medium disk)) true = (.ok volume, true) ∧
      FreeCounts device ⟨disk, volume⟩ ∧ volume.readOnly = false ∧
        FreeUsable device ⟨disk, volume⟩ ∧ ¬AllocatesReal device ⟨disk, volume⟩ false := by
  have hcounts : FreeCounts sampleDevice ⟨sampleDisk 2 0xF7FB, sampleVolume 2⟩ :=
    freeCounts_of_group rfl readGroup_sampleDisk_two rfl (by decide +kernel)
  have hfree : FreeUsable sampleDevice ⟨sampleDisk 2 0xF7FB, sampleVolume 2⟩ := by
    refine ⟨12, ⟨by decide, by decide⟩, (markedFree_iff ⟨by decide⟩ ⟨by decide, by decide,
      by decide⟩).mpr ⟨⟨by decide, by decide⟩, _, readGroup_sampleDisk_two, by decide +kernel⟩⟩
  refine ⟨sampleDevice, sampleDisk 2 0xF7FB, sampleVolume 2, read_sampleDisk_two, hcounts, rfl,
    hfree, fun h ↦ ?_⟩
  obtain ⟨number, hissued⟩ := h.succeeds.mpr hfree
  rw [ext2AllocateInode_eq ⟨by decide⟩ ⟨by decide, by decide⟩ rfl hcounts] at hissued
  obtain ⟨group, hmem, hgroup⟩ := List.exists_of_findSome?_eq_some hissued
  obtain ⟨hlowest, hreserved⟩ := issued_eq_some.mp hgroup
  have hone : wordsBelow 1 = [0] := by decide
  obtain rfl := List.mem_singleton.mp (hone ▸ hmem)
  rw [lowestClear_eq ⟨by decide⟩ readGroup_sampleDisk_two] at hlowest
  have hthree : some (3 : UInt32) = some number := by
    rw [← hlowest]
    decide +kernel
  cases hthree
  exact absurd hreserved (by decide)

end OxysOS.Fs.Ext2
