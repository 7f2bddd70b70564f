import OxysOS.Fs.Ext2.DirectoryFault
import OxysOS.Fs.Ext2.RecordEdit

/-!
# A directory of names

The blocks of a directory, each a hole or tiled by records, hold a list of entries.  The traversal
comes to these and to no others, a search answers with the first of a name, and an insertion and a
removal alter the list by one entry and the volume within one block.
-/

namespace OxysOS.Fs.Ext2

open OxysOS.Library Action

/-- A block of a directory, which is zero for a hole, and its records. -/
structure NamedBlock where
  block : UInt32
  records : List Record

def listing (blocks : List NamedBlock) : List Listed := blocks.flatMap fun b ↦ listedOf b.records

def SameBeside (volume : Superblock) (numbers : List UInt32) (disk disk' : Bytes) : Prop :=
  ∀ position, (∀ block ∈ numbers, block ≠ 0 →
    ¬(block.toNat * volume.blockSize.toNat ≤ position ∧
      position < block.toNat * volume.blockSize.toNat + volume.blockSize.toNat)) →
    disk' position = disk position

/-- The directory is made of the blocks, and the way to them is not through any of them. -/
structure Arranged (device : SteadyDevice) (s : FileState) (blocks : List NamedBlock) : Prop where
  directory : ext2InodeIsDirectory s.inode.mode = true
  blockSize : 8 ≤ s.volume.blockSize.toNat ∧ s.volume.blockSize.toNat < 2 ^ 16
  size : s.inode.size.toNat = blocks.length * s.volume.blockSize.toNat
  walked : ∀ disk', SameBeside s.volume (blocks.map NamedBlock.block) s.disk disk' →
    ∀ (index : ℕ) block, (blocks.map NamedBlock.block)[index]? = some block →
      ext2InodeBlock device disk' s.volume s.inode index = .ok block
  apart : (blocks.map NamedBlock.block).Pairwise fun block other ↦ block ≠ 0 → block ≠ other
  holds : ∀ b ∈ blocks, b.block = 0 ∧ b.records = [] ∨
    b.block ≠ 0 ∧ b.block < s.volume.blockCount ∧ TiledFrom s.volume s.disk b.block 0 b.records

variable {device : SteadyDevice} {s : FileState} {disk disk' : Bytes} {volume : Superblock}
  {directory : Ext2Inode} {cursor : Ext2DirectoryCursor} {entries rest : List Listed}
  {before after blocks : List NamedBlock} {b : NamedBlock} {records : List Record}
  {offset number : UInt32} {name : List UInt8}

theorem Arranged.next_eq (h : Arranged device s blocks) (hblocks : blocks ≠ [])
    (cursor : Ext2DirectoryCursor) :
    ext2DirectoryNext device s.disk s.volume s.inode cursor =
      directoryNextFrom device s.disk s.volume s.inode cursor := by
  have hpositive : 0 < s.inode.size.toNat := by
    rw [h.size]
    exact Nat.mul_pos (List.length_pos_iff.mpr hblocks) (Nat.lt_of_lt_of_le (by decide) h.blockSize.1)
  have htraversable : ext2DirectoryTraversable s.volume s.inode = .ok ⟨⟩ := by
    unfold ext2DirectoryTraversable
    rw [if_neg (not_not_intro h.directory), if_neg fun hzero ↦ ?_, if_neg]
    · rw [h.size, Nat.mul_mod_left]
      exact not_not_intro rfl
    · rw [hzero] at hpositive
      exact absurd hpositive (by decide)
  unfold ext2DirectoryNext
  rw [htraversable]
  rfl

theorem Arranged.directoryBlocks (h : Arranged device s blocks) :
    directoryBlocks s.volume s.inode = blocks.length := by
  unfold Ext2.directoryBlocks
  rw [h.size]
  exact Nat.mul_div_cancel _ (Nat.lt_of_lt_of_le (by decide) h.blockSize.1)

theorem Arranged.block (h : Arranged device s (before ++ b :: after)) :
    ext2InodeBlock device s.disk s.volume s.inode before.length = .ok b.block :=
  h.walked s.disk (fun _ _ ↦ rfl) _ _ (by simp)

theorem Arranged.listsRecords (h : Arranged device s (before ++ b :: after))
    (hblock : b.block ≠ 0 ∧ b.block < s.volume.blockCount)
    (hrest : ListsFrom device s.disk s.volume s.inode ⟨before.length + 1, 0⟩ rest)
    (htiles : TiledFrom s.volume s.disk b.block offset.toNat records) (hrecords : records ≠ []) :
    ListsFrom device s.disk s.volume s.inode ⟨before.length, offset⟩
      (listedOf records ++ rest) := by
  induction records generalizing offset with
  | nil => exact absurd rfl hrecords
  | cons record records ih =>
      obtain ⟨hplace, hheader, hnext, -, -⟩ := tiles_header device hblock.2 htiles
      have hmore : before.length < Ext2.directoryBlocks s.volume s.inode := by
        rw [h.directoryBlocks, List.length_append, List.length_cons]
        omega
      have hgo : ListsFrom device s.disk s.volume s.inode
          ((⟨before.length, offset⟩ : Ext2DirectoryCursor).beyond s.volume
            (record.header b.block offset)) (listedOf records ++ rest) := by
        have htiles' := htiles.2
        rw [← hnext] at htiles'
        unfold Ext2DirectoryCursor.beyond
        dsimp only
        split_ifs with hend
        · rw [hend] at htiles'
          rw [htiles'.eq_nil stands_pos]
          exact hrest
        · refine ih htiles' fun hnil ↦ hend ?_
          rw [hnil] at htiles'
          exact UInt32.toNat_inj.mp htiles'
      have hstep := (h.next_eq (by simp) ⟨before.length, offset⟩).trans
        (directoryNextFrom_header hmore h.block hblock.1 (UInt32.not_lt.mpr hplace))
      rw [hheader] at hstep
      rw [listedOf_cons, List.append_assoc]
      by_cases hused : record.number = 0
      · rw [Record.listed?, if_pos hused]
        exact hgo.of_next ((hstep.trans (if_pos hused)).trans (h.next_eq (by simp) _).symm)
      · rw [Record.listed?, if_neg hused]
        have hread := hstep.trans (if_neg hused)
        rw [ext2ReadEntryName_eq device hblock.2 htiles.1 htiles.within hused] at hread
        exact .entry hread hgo

theorem Arranged.listsBlocks (h : Arranged device s (before ++ after)) (hsome : before ++ after ≠ []) :
    ListsFrom device s.disk s.volume s.inode ⟨before.length, 0⟩ (listing after) := by
  induction after generalizing before with
  | nil =>
      refine .ended ?_
      rw [h.next_eq hsome, directoryNextFrom, dif_neg]
      rw [h.directoryBlocks, List.append_nil]
      exact Nat.lt_irrefl _
  | cons b after ih =>
      have hrest := @ih (before ++ [b]) (by simpa using h) (by simp)
      rw [List.length_append, List.length_singleton] at hrest
      change ListsFrom _ _ _ _ _ (listedOf b.records ++ listing after)
      rcases h.holds b (by simp) with ⟨hhole, hnone⟩ | ⟨hblock, hwithin, htiles⟩
      · rw [hnone]
        refine hrest.of_next ?_
        rw [h.next_eq hsome, h.next_eq hsome, directoryNextFrom, dif_pos, h.block]
        · exact if_pos hhole
        · rw [h.directoryBlocks, List.length_append, List.length_cons]
          exact Nat.lt_add_of_pos_right (Nat.succ_pos _)
      · refine h.listsRecords ⟨hblock, hwithin⟩ hrest htiles fun hnil ↦ ?_
        rw [hnil] at htiles
        have hsize := h.blockSize.1
        have hzero : 0 = s.volume.blockSize.toNat := htiles
        omega

theorem find_of_listsFrom (h : ListsFrom device disk volume directory cursor entries) :
    (directoryFindFrom device disk volume directory name cursor).map Ext2DirectoryEntry.listed =
      (entries.find? (·.name = name)).elim
        (.error "the directory holds no entry of that name") .ok := by
  induction h with
  | ended h =>
      rw [directoryFindFrom]
      split
      · rename_i hnext
        cases h.symm.trans hnext
      · rfl
      · rename_i hnext
        cases h.symm.trans hnext
  | @entry cursor next entry rest h hrest ih =>
      have hlength : entry.name.length = entry.nameLength.toNat := by
        have hsteady := faultyNext_none device ⟨⟨disk, volume⟩, directory⟩ 0 cursor
        cases hfaulty : faultyNext (fun _ ↦ none) device ⟨⟨disk, volume⟩, directory⟩ 0 cursor with
        | mk answer calls =>
            rw [hfaulty, h] at hsteady
            dsimp only at hsteady
            subst hsteady
            exact (of_faultyNext hfaulty).2
      rw [directoryFindFrom_next h]
      by_cases hname : entry.listed.name = name
      · rw [if_pos ((same_iff hlength).mpr hname), List.find?_cons_of_pos (by simpa using hname)]
        rfl
      · rw [if_neg fun hboth ↦ hname hboth.2, List.find?_cons_of_neg (by simpa using hname)]
        exact ih

def Edits (volume : Superblock) (block : UInt32) (change : List Record → Option (List Record))
    (edit : Action Bytes String Bool) : Prop :=
  ∀ disk records, TiledFrom volume disk block 0 records → match change records with
    | none => outcome edit disk = (.ok false, disk)
    | some records' => Retiles volume block 0 records' edit true disk

theorem Arranged.edited (h : Arranged device s (before ++ b :: after)) (hblock : b.block ≠ 0)
    (hbut : SameBut s.volume b.block 0 s.volume.blockSize.toNat s.disk disk')
    (htiles : TiledFrom s.volume disk' b.block 0 records) :
    Arranged device { s with disk := disk' } (before ++ { b with records } :: after) := by
  have hnumbers : (before ++ { b with records } :: after).map NamedBlock.block =
      (before ++ b :: after).map NamedBlock.block := by simp
  have hapart := h.apart
  refine ⟨h.directory, h.blockSize, by simpa using h.size, ?_, hnumbers ▸ hapart, ?_⟩
  · intro disk'' hbeside
    rw [hnumbers] at hbeside ⊢
    refine h.walked disk'' fun position hout ↦ (hbeside position hout).trans (hbut position ?_)
    exact hout b.block (by simp) hblock
  · rw [List.map_append, List.map_cons, List.pairwise_append, List.pairwise_cons] at hapart
    have hkept : ∀ c ∈ before ++ b :: after, (c.block ≠ 0 → c.block ≠ b.block) →
        c.block = 0 ∧ c.records = [] ∨ c.block ≠ 0 ∧ c.block < s.volume.blockCount ∧
          TiledFrom s.volume disk' c.block 0 c.records := by
      intro c hc hne
      rcases h.holds c hc with hhole | ⟨hother, hwithin, hstill⟩
      · exact Or.inl hhole
      · refine Or.inr ⟨hother, hwithin, hstill.congr (stands_standalone _) fun i _ hi ↦ ?_⟩
        exact (hbut.other (hne hother) (le_refl _) hi).symm
    intro c hc
    rcases List.mem_append.mp hc with hc | hc
    · exact hkept c (by simp [hc]) fun hused ↦
        hapart.2.2 _ (List.mem_map_of_mem hc) _ (by simp) hused
    · rcases List.mem_cons.mp hc with rfl | hc
      · rcases h.holds b (by simp) with hhole | hused
        · exact absurd hhole.1 hblock
        · exact Or.inr ⟨hblock, hused.2.1, htiles⟩
      · exact hkept c (by simp [hc]) fun _ ↦
          (hapart.2.1.1 _ (List.mem_map_of_mem hc) hblock).symm

/-- The loop over the blocks of a directory, up to the one that is edited. -/
def editAmong (device : SteadyDevice) (edit : Superblock → UInt32 → Action Bytes String Bool) :
    List ℕ → Action FileState String Bool
  | [] => return false
  | index :: indexes => do
      let s ← get
      let block ← Action.consult fun _ ↦ ext2InodeBlock device s.disk s.volume s.inode index
      if block = 0 then editAmong device edit indexes
      else
        let edited ← onDisk fun volume ↦ edit volume block
        if edited then return true else editAmong device edit indexes

variable {change : List Record → Option (List Record)}
  {edit : Superblock → UInt32 → Action Bytes String Bool}

theorem editAmong_cases (hnil : change [] = none) (h : Arranged device s (before ++ blocks))
    (hedit : ∀ block < s.volume.blockCount, Edits s.volume block change (edit s.volume block)) :
    ((∀ b ∈ blocks, change b.records = none) ∧
      outcome (editAmong device edit (List.range' before.length blocks.length)) s =
        (.ok false, s)) ∨
    ∃ first b last records disk', blocks = first ++ b :: last ∧ change b.records = some records ∧
      outcome (editAmong device edit (List.range' before.length blocks.length)) s =
        (.ok true, { s with disk := disk' }) ∧
      Arranged device { s with disk := disk' } (before ++ (first ++ { b with records } :: last)) ∧
      b.block ≠ 0 ∧ SameBut s.volume b.block 0 s.volume.blockSize.toNat s.disk disk' := by
  induction blocks generalizing before with
  | nil => exact Or.inl ⟨by simp, rfl⟩
  | cons b blocks ih =>
      have hstep : outcome (editAmong device edit
          (List.range' before.length (b :: blocks).length)) s =
        outcome (if b.block = 0 then
          editAmong device edit (List.range' (before.length + 1) blocks.length)
        else do
          let edited ← onDisk fun volume ↦ edit volume b.block
          if edited then return true
          else editAmong device edit (List.range' (before.length + 1) blocks.length)) s := by
        rw [List.length_cons, List.range'_succ, editAmong, outcome_bind, outcome_get]
        dsimp only
        rw [outcome_bind, outcome_consult, h.block]
      have hrest := @ih (before ++ [b]) (by simpa using h)
      rw [List.length_append, List.length_singleton] at hrest
      have hfirst : change b.records = none ∧ outcome (editAmong device edit
            (List.range' before.length (b :: blocks).length)) s =
          outcome (editAmong device edit (List.range' (before.length + 1) blocks.length)) s ∨
          ∃ records disk', change b.records = some records ∧ outcome (editAmong device edit
            (List.range' before.length (b :: blocks).length)) s =
              (.ok true, { s with disk := disk' }) ∧
            Arranged device { s with disk := disk' } (before ++ { b with records } :: blocks) ∧
            b.block ≠ 0 ∧ SameBut s.volume b.block 0 s.volume.blockSize.toNat s.disk disk' := by
        rcases h.holds b (by simp) with ⟨hhole, hnone⟩ | ⟨hblock, hwithin, htiles⟩
        · exact Or.inl ⟨hnone ▸ hnil, by rw [hstep, if_pos hhole]⟩
        rw [if_neg hblock, outcome_bind, outcome_onDisk] at hstep
        have hspec := hedit _ hwithin _ _ htiles
        cases hchange : change b.records with
        | none =>
            rw [hchange] at hspec
            rw [hspec] at hstep
            exact Or.inl ⟨rfl, hstep⟩
        | some records =>
            rw [hchange] at hspec
            obtain ⟨disk', houtcome, hbut, htiles'⟩ := hspec
            rw [houtcome] at hstep
            exact Or.inr ⟨records, disk', rfl, hstep, h.edited hblock hbut htiles', hblock, hbut⟩
      rcases hfirst with ⟨hnone, hsame⟩ | ⟨records, disk', hchange, houtcome, hedited, hbut⟩
      · rw [hsame]
        rcases hrest with ⟨hall, houtcome⟩ |
          ⟨first, c, last, records, disk', rfl, hchange, houtcome, hedited, hbut⟩
        · exact Or.inl ⟨by simpa [hnone] using hall, houtcome⟩
        · exact Or.inr ⟨b :: first, c, last, records, disk', rfl, hchange, houtcome,
            by simpa using hedited, hbut⟩
      · exact Or.inr ⟨[], b, blocks, records, disk', rfl, hchange, houtcome, hedited, hbut⟩

structure Reads (device : SteadyDevice) (s : FileState) (entries : List Listed) : Prop where
  lists : Lists device s.disk s.volume s.inode entries
  finds : ∀ name : List UInt8, name.length ≠ 0 → name.length ≤ ext2NameMaximum →
    (ext2DirectoryFind device s.disk s.volume s.inode name).map Ext2DirectoryEntry.listed =
      (entries.find? (·.name = name)).elim
        (.error "the directory holds no entry of that name") .ok

/-- The traversal of a directory lists the records in use of its blocks, in their order, and a
search finds the first of the name. -/
theorem Arranged.reads (h : Arranged device s blocks) (hblocks : blocks ≠ []) :
    Reads device s (listing blocks) where
  lists := @Arranged.listsBlocks device s [] blocks h hblocks
  finds name hsome hshort := by
    unfold ext2DirectoryFind
    rw [if_neg hsome, if_neg (Nat.not_lt.mpr hshort)]
    exact find_of_listsFrom (@Arranged.listsBlocks device s [] blocks h hblocks)

structure Becomes (device : SteadyDevice) (s s' : FileState) (blocks : List NamedBlock)
    (entries : List Listed) : Prop where
  arranged : ∃ blocks', Arranged device s' blocks' ∧ listing blocks' = entries ∧
    blocks'.map NamedBlock.block = blocks.map NamedBlock.block
  within : ∃ b ∈ blocks, ∃ disk', s' = { s with disk := disk' } ∧ b.block ≠ 0 ∧
    SameBut s.volume b.block 0 s.volume.blockSize.toNat s.disk disk'

theorem becomes_of_edited (hblocks : blocks = before ++ b :: after)
    (h : Arranged device { s with disk := disk' } (before ++ { b with records } :: after))
    (hbut : b.block ≠ 0 ∧ SameBut s.volume b.block 0 s.volume.blockSize.toNat s.disk disk') :
    Becomes device s { s with disk := disk' } blocks
      (listing before ++ (listedOf records ++ listing after)) := by
  have hentries : listing (before ++ { b with records } :: after) =
      listing before ++ (listedOf records ++ listing after) := by simp [listing]
  exact ⟨⟨_, h, hentries, by simp [hblocks]⟩, b, by simp [hblocks], disk', rfl, hbut⟩

theorem removeAmong_eq (device : SteadyDevice) (name : List UInt8) (indexes : List ℕ) :
    removeAmong device name indexes =
      (editAmong device (fun volume block ↦ removeFrom device volume block name none 0) indexes >>=
        fun removed ↦ if removed then return ⟨⟩
          else throw "the directory holds no name of that name to remove") := by
  induction indexes with
  | nil => rfl
  | cons index indexes ih =>
      rw [removeAmong, editAmong]
      simp only [bind_assoc]
      refine congrArg _ (funext fun s ↦ congrArg _ (funext fun block ↦ ?_))
      split
      · exact ih
      · rw [bind_assoc]
        refine congrArg _ (funext fun removed ↦ ?_)
        cases removed with
        | true => rfl
        | false => exact ih

theorem name_not_mem (h : ∀ record ∈ records, ¬record.Bears name) :
    name ∉ (listedOf records).map Listed.name := by
  intro hname
  obtain ⟨entry, hentry, rfl⟩ := List.mem_map.mp hname
  obtain ⟨record, hrecord, hlisted⟩ := List.mem_filterMap.mp hentry
  unfold Record.listed? at hlisted
  split_ifs at hlisted with hused
  cases hlisted
  exact h record hrecord ⟨hused, rfl⟩

/-- A removal from a directory that holds no name twice takes away the entry of the name and alters
nothing outside of the block that held it, or is refused where there is none. -/
theorem ext2DirectoryRemove_removes (h : Arranged device s blocks)
    (hnodup : ((listing blocks).map Listed.name).Nodup) (hwritable : s.volume.readOnly = false)
    (hsome : name.length ≠ 0) (hshort : name.length ≤ ext2NameMaximum)
    (hdots : ¬(name = [0x2E] ∨ name = [0x2E, 0x2E])) :
    (name ∉ (listing blocks).map Listed.name ∧ outcome (ext2DirectoryRemove device name) s =
      (.error "the directory holds no name of that name to remove", s)) ∨
    ∃ before entry after s', listing blocks = before ++ entry :: after ∧ entry.name = name ∧
      outcome (ext2DirectoryRemove device name) s = (.ok ⟨⟩, s') ∧
      Becomes device s s' blocks (before ++ after) ∧
      name ∉ (before ++ after).map Listed.name := by
  have hremove : outcome (ext2DirectoryRemove device name) s =
      outcome (removeAmong device name (List.range' 0 blocks.length)) s := by
    unfold ext2DirectoryRemove
    rw [outcome_bind, outcome_get]
    dsimp only
    rw [if_neg (by simp [hwritable]), if_neg (not_not_intro h.directory),
      if_neg (not_or.mpr ⟨hsome, Nat.not_lt.mpr hshort⟩), if_neg hdots, h.directoryBlocks,
      List.range_eq_range']
  rw [hremove, removeAmong_eq, outcome_bind]
  rcases @editAmong_cases device s [] blocks (removeNext name none)
    (fun volume block ↦ removeFrom device volume block name none 0) rfl h
    fun block hblock disk records htiles ↦ @removeFrom_eq _ disk block 0 name records device hblock
      h.blockSize hshort none (by simp) htiles with
    ⟨hnone, houtcome⟩ | ⟨first, b, last, records, disk', rfl, hchange, houtcome, hedited, hbut⟩
  · refine Or.inl ⟨fun hname ↦ ?_, ?_⟩
    · obtain ⟨entry, hentry, rfl⟩ := List.mem_map.mp hname
      obtain ⟨b, hb, hlisted⟩ := List.mem_flatMap.mp hentry
      exact name_not_mem (not_bears_of_removeNext (hnone b hb)) (List.mem_map_of_mem hlisted)
    · exact houtcome ▸ rfl
  · obtain ⟨before, entry, after, hlisted, rfl, hlisted'⟩ := listedOf_removeNext hchange
    rw [Option.toList_none, List.nil_append] at hlisted
    have hbecomes := becomes_of_edited rfl hedited hbut
    have hlisting : listing (first ++ b :: last) =
        (listing first ++ before) ++ entry :: (after ++ listing last) := by
      simp [listing, hlisted]
    rw [hlisting, List.map_append, List.map_cons, List.nodup_middle] at hnodup
    rw [List.length_nil] at houtcome
    rw [houtcome]
    refine Or.inr ⟨_, entry, _, { s with disk := disk' }, hlisting, rfl, rfl, ?_, ?_⟩
    · rw [hlisted'] at hbecomes
      simpa using hbecomes
    · rw [List.map_append]
      exact (List.nodup_cons.mp hnodup).1

theorem insertAmong_eq (device : SteadyDevice) (needed : UInt16) (number : UInt32)
    (name : List UInt8) (fileType : UInt8) (indexes : List ℕ) :
    insertAmong device needed number name fileType indexes = editAmong device
      (fun volume block ↦ ext2InsertIntoBlock device volume block needed number name fileType)
      indexes := by
  induction indexes with
  | nil => rfl
  | cons index indexes ih => rw [insertAmong, editAmong, ih]

/-- An insertion is refused where the name is there, and otherwise puts one entry into the listing
and alters nothing outside of one block, unless no record of the directory has room for it: then the
directory grows. -/
theorem ext2DirectoryInsert_inserts (h : Arranged device s blocks) (hblocks : blocks ≠ [])
    (hwritable : s.volume.readOnly = false) (hname : Insertable s.volume number name)
    (fileType : UInt8) :
    (name ∈ (listing blocks).map Listed.name ∧
      outcome (ext2DirectoryInsert device name number fileType) s =
        (.error "the directory already holds that name", s)) ∨
    name ∉ (listing blocks).map Listed.name ∧
      ((∃ before after s', listing blocks = before ++ after ∧
        outcome (ext2DirectoryInsert device name number fileType) s = (.ok ⟨⟩, s') ∧
        Becomes device s s' blocks
          (before ++ newListed s.volume number name fileType :: after)) ∨
      (∀ b ∈ blocks, ∀ record ∈ b.records,
        ¬record.HasRoom (ext2RecordLength name.length).toNat) ∧
        outcome (ext2DirectoryInsert device name number fileType) s = outcome (insertGrown device
          (ext2RecordLength name.length) number name fileType blocks.length) s) := by
  have hsome : name.length ≠ 0 := fun hzero ↦ hname.nonempty (List.length_eq_zero_iff.mp hzero)
  have hrefusal : insertRefusal s name number = none := by
    unfold insertRefusal
    rw [if_neg (by simp [hwritable]), if_neg (not_not_intro h.directory),
      if_neg (not_or.mpr ⟨hsome, Nat.not_lt.mpr hname.short⟩),
      if_neg (not_or.mpr ⟨hname.number.1, UInt32.not_lt.mpr hname.number.2⟩),
      if_neg (not_not_intro hname.addressable)]
  have hfind := (h.reads hblocks).finds name hsome hname.short
  rw [outcome_ext2DirectoryInsert, hrefusal]
  dsimp only
  cases hfound : ext2DirectoryFind device s.disk s.volume s.inode name with
  | ok found =>
      refine Or.inl ⟨?_, rfl⟩
      rw [hfound] at hfind
      cases hlisted : (listing blocks).find? (·.name = name) with
      | none =>
          rw [hlisted] at hfind
          cases hfind
      | some entry =>
          have hentry := List.find?_some hlisted
          exact List.mem_map.mpr ⟨entry, List.mem_of_find?_eq_some hlisted, by simpa using hentry⟩
  | error reason =>
      have habsent : name ∉ (listing blocks).map Listed.name := by
        intro hmem
        obtain ⟨entry, hentry, hsame⟩ := List.mem_map.mp hmem
        cases hlisted : (listing blocks).find? (·.name = name) with
        | none => exact List.find?_eq_none.mp hlisted entry hentry (by simpa using hsame)
        | some entry =>
            rw [hfound, hlisted] at hfind
            cases hfind
      refine Or.inr ⟨habsent, ?_⟩
      unfold insertPlace
      rw [outcome_bind, outcome_get]
      dsimp only
      rw [h.directoryBlocks, List.range_eq_range', insertAmong_eq, outcome_bind]
      rcases @editAmong_cases device s [] blocks _
        (fun volume block ↦ ext2InsertIntoBlock device volume block (ext2RecordLength name.length)
          number name fileType) rfl h
        fun block hblock disk records htiles ↦ @insertFrom_eq _ disk block number 0 name records
          device hblock h.blockSize.1 hname fileType htiles with
        ⟨hnone, houtcome⟩ | ⟨first, b, last, records, disk', rfl, hchange, houtcome, hedited, hbut⟩
      · refine Or.inr ⟨fun b hb ↦ (insertRecord_eq_none_iff _).mp (hnone b hb), ?_⟩
        exact houtcome ▸ rfl
      · obtain ⟨before, after, hlisted, hlisted'⟩ := listedOf_insertRecord hname.number.1 hchange
        have hbecomes := becomes_of_edited rfl hedited hbut
        rw [List.length_nil] at houtcome
        rw [houtcome]
        refine Or.inl ⟨listing first ++ before, after ++ listing last, { s with disk := disk' },
          by simp [listing, hlisted], rfl, ?_⟩
        rw [hlisted'] at hbecomes
        simpa using hbecomes

abbrev Names := List UInt8 → Option Listed

def namesOf (entries : List Listed) : Names := fun name ↦ entries.find? (·.name = name)

inductive NameCall
  | insert (name : List UInt8) (number : UInt32) (fileType : UInt8)
  | remove (name : List UInt8)

namespace NameCall

def perform (device : SteadyDevice) : NameCall → Action FileState String PUnit
  | insert name number fileType => ext2DirectoryInsert device name number fileType
  | remove name => ext2DirectoryRemove device name

/-- The arguments are none that the call refuses whatever the directory holds. -/
def Admitted (volume : Superblock) : NameCall → Prop
  | insert name number _ => Insertable volume number name
  | remove name => name.length ≠ 0 ∧ name.length ≤ ext2NameMaximum ∧
      ¬(name = [0x2E] ∨ name = [0x2E, 0x2E])

def apply (volume : Superblock) (names : Names) : NameCall → Names
  | insert name number fileType => Function.update names name
      ((names name).or (some (newListed volume number name fileType)))
  | remove name => Function.update names name none

def Accepted (names : Names) : NameCall → Prop
  | insert name _ _ => names name = none
  | remove name => names name ≠ none

/-- No record of the directory has room for the name. -/
def Crowded (device : SteadyDevice) (s : FileState) : NameCall → Prop
  | insert name _ _ => ∃ blocks, Arranged device s blocks ∧ ∀ b ∈ blocks, ∀ record ∈ b.records,
      ¬record.HasRoom (ext2RecordLength name.length).toNat
  | remove _ => False

end NameCall

/-- The directory has the names, once each, in blocks of these numbers, and no others are read. -/
structure HasNames (device : SteadyDevice) (s : FileState) (numbers : List UInt32) (names : Names) :
    Prop where
  some : numbers ≠ []
  writable : s.volume.readOnly = false
  holds : ∃ blocks, Arranged device s blocks ∧ blocks.map NamedBlock.block = numbers ∧
    ((listing blocks).map Listed.name).Nodup ∧ namesOf (listing blocks) = names ∧
      Reads device s (listing blocks)

variable {numbers : List UInt32} {names : Names}

theorem namesOf_none_iff : namesOf entries name = none ↔ name ∉ entries.map Listed.name := by
  simp [namesOf]

theorem namesOf_middle {before after : List Listed} {entry : Listed}
    (h : entry.name ∉ (before ++ after).map Listed.name) :
    namesOf (before ++ entry :: after) =
      Function.update (namesOf (before ++ after)) entry.name (some entry) := by
  funext name
  unfold namesOf
  by_cases hname : name = entry.name
  · have hbefore : before.find? (·.name = entry.name) = none :=
      namesOf_none_iff.mpr fun hmem ↦ h (by rw [List.map_append]; exact List.mem_append_left _ hmem)
    rw [hname, Function.update_self, List.find?_append, hbefore, List.find?_cons_of_pos (by simp)]
    rfl
  · rw [Function.update_of_ne hname, List.find?_append, List.find?_append,
      List.find?_cons_of_neg (by simpa using fun heq ↦ hname heq.symm)]

theorem HasNames.of_becomes {s' : FileState} (h : HasNames device s numbers names)
    (hnumbers : blocks.map NamedBlock.block = numbers) (hbecomes : Becomes device s s' blocks entries)
    (hnodup : (entries.map Listed.name).Nodup) :
    HasNames device s' numbers (namesOf entries) ∧ s'.volume = s.volume ∧
      SameBeside s.volume numbers s.disk s'.disk := by
  obtain ⟨⟨blocks', harranged, rfl, hblocks⟩, b, hb, disk', rfl, hused, hbut⟩ := hbecomes
  have hreads := harranged.reads fun hnil ↦ h.some (by rw [← hnumbers, ← hblocks, hnil]; rfl)
  exact ⟨⟨h.some, h.writable, blocks', harranged, hblocks.trans hnumbers, hnodup, rfl, hreads⟩, rfl,
    fun position hout ↦ hbut position (hout b.block (hnumbers ▸ List.mem_map_of_mem hb) hused)⟩

theorem NameCall.step (h : HasNames device s numbers names) {call : NameCall}
    (hcall : call.Admitted s.volume) : call.Crowded device s ∨
    ∃ answer s', outcome (call.perform device) s = (answer, s') ∧
      (answer = .ok ⟨⟩ ↔ call.Accepted names) ∧
      HasNames device s' numbers (call.apply s.volume names) ∧ s'.volume = s.volume ∧
      SameBeside s.volume numbers s.disk s'.disk := by
  obtain ⟨blocks, harranged, hnumbers, hnodup, rfl, -⟩ := h.holds
  have hblocks : blocks ≠ [] := by
    rintro rfl
    exact h.some hnumbers.symm
  cases call with
  | insert name number fileType =>
      dsimp only [NameCall.apply, NameCall.Accepted]
      rcases ext2DirectoryInsert_inserts harranged hblocks h.writable hcall fileType with
        ⟨hmem, houtcome⟩ | ⟨habsent, ⟨before, after, s', hlisting, houtcome, hbecomes⟩ | ⟨hfull, -⟩⟩
      · have hsome : namesOf (listing blocks) name ≠ none :=
          fun hnone ↦ namesOf_none_iff.mp hnone hmem
        obtain ⟨entry, hentry⟩ := Option.ne_none_iff_exists'.mp hsome
        refine Or.inr ⟨_, _, houtcome, iff_of_false (by simp) hsome, ?_, rfl, fun _ _ ↦ rfl⟩
        rwa [hentry, Option.some_or, ← hentry, Function.update_eq_self]
      · have hnone := namesOf_none_iff.mpr habsent
        rw [hlisting] at habsent hnodup
        have hnew := @namesOf_middle _ _ (newListed s.volume number name fileType) habsent
        have hnodup' : ((before ++ newListed s.volume number name fileType :: after).map
            Listed.name).Nodup := by
          rw [List.map_append] at habsent hnodup ⊢
          rw [List.map_cons, List.nodup_middle]
          exact List.nodup_cons.mpr ⟨habsent, hnodup⟩
        refine Or.inr ⟨_, s', houtcome, iff_of_true rfl hnone, ?_⟩
        rw [hnone, Option.none_or, hlisting]
        exact hnew ▸ h.of_becomes hnumbers hbecomes hnodup'
      · exact Or.inl ⟨blocks, harranged, hfull⟩
  | remove name =>
      dsimp only [NameCall.apply, NameCall.Accepted]
      obtain ⟨hsome, hshort, hdots⟩ := hcall
      rcases ext2DirectoryRemove_removes harranged hnodup h.writable hsome hshort hdots with
        ⟨habsent, houtcome⟩ | ⟨before, entry, after, s', hlisting, rfl, houtcome, hbecomes, habsent⟩
      · have hnone := namesOf_none_iff.mpr habsent
        refine Or.inr ⟨_, _, houtcome, iff_of_false (by simp) (not_not_intro hnone), ?_, rfl,
          fun _ _ ↦ rfl⟩
        rwa [← hnone, Function.update_eq_self]
      · have hold := namesOf_middle habsent
        have hnodup' : ((before ++ after).map Listed.name).Nodup := by
          rw [hlisting, List.map_append, List.map_cons, List.nodup_middle] at hnodup
          rw [List.map_append]
          exact (List.nodup_cons.mp hnodup).2
        refine Or.inr ⟨_, s', houtcome, iff_of_true rfl ?_, ?_⟩
        · rw [hlisting, hold, Function.update_self]
          simp
        · rw [hlisting, hold, Function.update_idem, ← namesOf_none_iff.mpr habsent,
            Function.update_eq_self]
          exact h.of_becomes hnumbers hbecomes hnodup'

def runNames (device : SteadyDevice) (s : FileState) (calls : List NameCall) : FileState :=
  calls.foldl (fun s call ↦ (outcome (call.perform device) s).2) s

def namesAfter (volume : Superblock) (names : Names) (calls : List NameCall) : Names :=
  calls.foldl (fun names call ↦ call.apply volume names) names

/-- In every run of insertions and removals the directory has the names that the calls give it, up
to an insertion that finds no record with room: each call is accepted where the names allow it, and
nothing outside of the blocks of the directory is altered. -/
theorem directory_runs (h : HasNames device s numbers names) {calls : List NameCall}
    (hcalls : ∀ call ∈ calls, call.Admitted s.volume) :
    (∃ earlier call later, calls = earlier ++ call :: later ∧
      call.Crowded device (runNames device s earlier)) ∨
    HasNames device (runNames device s calls) numbers (namesAfter s.volume names calls) ∧
      (runNames device s calls).volume = s.volume ∧
      SameBeside s.volume numbers s.disk (runNames device s calls).disk ∧
      ∀ earlier call later, calls = earlier ++ call :: later →
        ((outcome (call.perform device) (runNames device s earlier)).1 = .ok ⟨⟩ ↔
          call.Accepted (namesAfter s.volume names earlier)) := by
  induction calls generalizing s names with
  | nil => exact Or.inr ⟨h, rfl, fun _ _ ↦ rfl, fun earlier call later hnil ↦ by simp at hnil⟩
  | cons call calls ih =>
      obtain ⟨hcall, hrest⟩ := List.forall_mem_cons.mp hcalls
      rcases NameCall.step h hcall with hcrowded |
        ⟨answer, s', houtcome, haccepted, h', hvolume, hbeside⟩
      · exact Or.inl ⟨[], call, calls, rfl, hcrowded⟩
      have hrun : ∀ calls, runNames device s (call :: calls) = runNames device s' calls := by
        intro calls
        change runNames device (outcome (call.perform device) s).2 calls = _
        rw [houtcome]
      rcases ih h' (hvolume ▸ hrest) with
        ⟨earlier, next, later, rfl, hcrowded⟩ | ⟨hnames, hvolume', hbeside', haccepted'⟩
      · exact Or.inl ⟨call :: earlier, next, later, rfl, hrun earlier ▸ hcrowded⟩
      · rw [hvolume] at hnames hvolume' hbeside' haccepted'
        refine Or.inr ⟨hrun calls ▸ hnames, hrun calls ▸ hvolume', fun position hout ↦ ?_, ?_⟩
        · rw [hrun]
          exact (hbeside' position hout).trans (hbeside position hout)
        · intro earlier next later hcalls
          cases earlier with
          | nil =>
              obtain ⟨rfl, -⟩ := List.cons.inj hcalls
              exact houtcome ▸ haccepted
          | cons first earlier =>
              obtain ⟨rfl, hbehind⟩ := List.cons.inj hcalls
              rw [hrun]
              exact haccepted' earlier next later hbehind

theorem sampleNames_holds :
    HasNames sampleDevice sampleNames [20] (namesOf [⟨[98], 12, ext2FtUnknown⟩]) := by
  have harranged : Arranged sampleDevice sampleNames [⟨20, [⟨12, 1024, ext2FtUnknown, [98]⟩]⟩] := by
    refine ⟨by decide, by decide, by decide, fun disk' _ index block hblock ↦ ?_, by simp, ?_⟩
    · obtain ⟨hindex, rfl⟩ := List.getElem?_eq_some_iff.mp hblock
      obtain rfl : index = 0 := Nat.lt_one_iff.mp hindex
      rfl
    · rintro b hb
      obtain rfl := List.mem_singleton.mp hb
      refine Or.inr ⟨by decide, by decide, ⟨⟨?_, ?_, ?_, ?_, ?_⟩, ?_, ?_, ?_, ?_⟩, rfl⟩ <;>
        decide +kernel
  exact ⟨by simp, rfl, _, harranged, rfl, by decide, rfl, harranged.reads (by simp)⟩

/-- The one name is taken away. -/
theorem directory_runs_emptied :
    HasNames sampleDevice (runNames sampleDevice sampleNames [.remove [98]]) [20]
      (namesAfter (sampleVolume 1) (namesOf [⟨[98], 12, ext2FtUnknown⟩]) [.remove [98]]) := by
  have hcalls : ∀ call ∈ [NameCall.remove [98]], call.Admitted sampleNames.volume := by
    intro call hcall
    obtain rfl := List.mem_singleton.mp hcall
    unfold NameCall.Admitted
    decide
  rcases directory_runs sampleNames_holds hcalls with ⟨earlier, call, later, hsplit, hcrowded⟩ | h
  · obtain ⟨rfl, rfl, rfl⟩ : earlier = [] ∧ call = .remove [98] ∧ later = [] := by
      cases earlier with
      | nil => simpa using hsplit.symm
      | cons => simp at hsplit
    exact hcrowded.elim
  · exact h.1

end OxysOS.Fs.Ext2
