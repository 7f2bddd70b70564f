import OxysOS.Fs.Ext2.Name
import OxysOS.Fs.Ext2.StoredInode

/-!
# A name inserted while reads fail

A call that reads the volume may be failed by its device.  `Ext2DirectoryFind` answers alike
whether a name is absent or could not be looked for, and `Ext2DirectoryInsert` goes on in both
cases.
-/

namespace OxysOS.Fs.Ext2

open OxysOS.Library Action

variable {α : Type} {device : SteadyDevice} {name : List UInt8} {s : FileState}

/-- Which calls upon the volume are failed by the device, numbered in their order, and the file as a
call leaves it that is failed in altering it. -/
abbrev Faults := ℕ → Option FileState

structure FaultyState where
  file : FileState
  calls : ℕ

def faultyRead (faults : Faults) (calls : ℕ) (answer : Except String α) : Except String α :=
  if (faults calls).isSome then .error "the device failed a read" else answer

def faultyLook (faults : Faults) (answer : FileState → Except String α) :
    Action FaultyState String α :=
  ExceptT.mk fun s ↦ (faultyRead faults s.calls (answer s.file), { s with calls := s.calls + 1 })

def faultyCall (faults : Faults) (action : Action FileState String α) :
    Action FaultyState String α :=
  ExceptT.mk fun s ↦ match faults s.calls with
    | some left => (.error "the device failed a read", ⟨left, s.calls + 1⟩)
    | none => ((outcome action s.file).1, ⟨(outcome action s.file).2, s.calls + 1⟩)

theorem length_of_ext2ReadEntryName {disk : Bytes} {volume : Superblock}
    {entry named : Ext2DirectoryEntry}
    (h : ext2ReadEntryName device disk volume entry = .ok named) :
    named.name.length = named.nameLength.toNat := by
  unfold ext2ReadEntryName at h
  cases hread : ext2ReadBytes device disk volume entry.block
      (entry.offset + ext2DirectoryHeaderSize) entry.nameLength.toUInt32 with
  | error reason =>
      rw [hread] at h
      cases h
  | ok raw =>
      rw [hread] at h
      change (if _ then _ else _) = _ at h
      split_ifs at h
      cases h
      exact length_slice raw 0 _

theorem of_faultyRead {faults : Faults} {calls : ℕ} {answer : Except String α} {a : α}
    (h : faultyRead faults calls answer = .ok a) : answer = .ok a := by
  unfold faultyRead at h
  split_ifs at h
  exact h

/-- The loop of `Ext2DirectoryNext`, from a number of calls on. -/
def faultyNextFrom (faults : Faults) (device : SteadyDevice) (s : FileState) (calls : ℕ)
    (cursor : Ext2DirectoryCursor) :
    Except String (Option (Ext2DirectoryEntry × Ext2DirectoryCursor)) × ℕ :=
  if _hmore : cursor.index < directoryBlocks s.volume s.inode then
    match faultyRead faults calls (ext2InodeBlock device s.disk s.volume s.inode cursor.index) with
    | .error reason => (.error reason, calls + 1)
    | .ok block =>
        if block = 0 then faultyNextFrom faults device s (calls + 1) ⟨cursor.index + 1, 0⟩
        else if cursor.offset > s.volume.blockSize - ext2DirectoryHeaderSize then
          (.error "a directory block ends in too little space for an entry", calls + 1)
        else match _hheader : faultyRead faults (calls + 1)
            (ext2ReadEntryHeader device s.disk s.volume block cursor.offset) with
          | .error reason => (.error reason, calls + 2)
          | .ok entry =>
              if entry.inode = 0 then
                faultyNextFrom faults device s (calls + 2) (cursor.beyond s.volume entry)
              else ((faultyRead faults (calls + 2)
                (ext2ReadEntryName device s.disk s.volume entry)).map fun named ↦
                  some (named, cursor.beyond s.volume entry), calls + 3)
  else (.ok none, calls)
termination_by cursor.left s.volume s.inode
decreasing_by
  · exact Ext2DirectoryCursor.next_left _hmore
  · exact Ext2DirectoryCursor.beyond_left _hmore (of_faultyRead _hheader)

/-- `Ext2DirectoryNext` -/
def faultyNext (faults : Faults) (device : SteadyDevice) (s : FileState) (calls : ℕ)
    (cursor : Ext2DirectoryCursor) :
    Except String (Option (Ext2DirectoryEntry × Ext2DirectoryCursor)) × ℕ :=
  match (ext2DirectoryTraversable s.volume s.inode : Except String Unit) with
  | .error reason => (.error reason, calls)
  | .ok _ => faultyNextFrom faults device s calls cursor

variable {faults : Faults} {calls calls' : ℕ} {cursor next : Ext2DirectoryCursor}
  {entry : Ext2DirectoryEntry} {reason : String}

theorem of_faultyNextFrom
    (h : faultyNextFrom faults device s calls cursor = (.ok (some (entry, next)), calls')) :
    next.left s.volume s.inode < cursor.left s.volume s.inode ∧
      entry.name.length = entry.nameLength.toNat := by
  fun_induction faultyNextFrom faults device s calls cursor with
  | case1 | case3 | case4 | case7 => cases h
  | case2 calls cursor hmore hhole ih =>
      obtain ⟨hleft, hname⟩ := ih h
      exact ⟨hleft.trans (Ext2DirectoryCursor.next_left hmore), hname⟩
  | case5 calls cursor hmore block hblock hzero hroom header hheader hunused ih =>
      obtain ⟨hleft, hname⟩ := ih h
      exact ⟨hleft.trans (Ext2DirectoryCursor.beyond_left hmore (of_faultyRead hheader)),
        hname⟩
  | case6 calls cursor hmore block hblock hzero hroom header hheader hused =>
      cases hread : faultyRead faults (calls + 2)
          (ext2ReadEntryName device s.disk s.volume header) with
      | error reason =>
          rw [hread] at h
          cases h
      | ok named =>
          rw [hread] at h
          cases h
          exact ⟨Ext2DirectoryCursor.beyond_left hmore (of_faultyRead hheader),
            length_of_ext2ReadEntryName (of_faultyRead hread)⟩

theorem of_faultyNext
    (h : faultyNext faults device s calls cursor = (.ok (some (entry, next)), calls')) :
    next.left s.volume s.inode < cursor.left s.volume s.inode ∧
      entry.name.length = entry.nameLength.toNat := by
  unfold faultyNext at h
  split at h
  · cases h
  · exact of_faultyNextFrom h

/-- The loop of `Ext2DirectoryFind`, with the number of the calls made. -/
def faultyFindFrom (faults : Faults) (device : SteadyDevice) (s : FileState) (name : List UInt8)
    (calls : ℕ) (cursor : Ext2DirectoryCursor) : Except String Ext2DirectoryEntry × ℕ :=
  match _hnext : faultyNext faults device s calls cursor with
  | (.error reason, calls) => (.error reason, calls)
  | (.ok none, calls) => (.error "the directory holds no entry of that name", calls)
  | (.ok (some (entry, next)), calls) =>
      if entry.nameLength = UInt16.ofNat name.length ∧ entry.name = name then (.ok entry, calls)
      else faultyFindFrom faults device s name calls next
termination_by cursor.left s.volume s.inode
decreasing_by exact (of_faultyNext _hnext).1

/-- `Ext2DirectoryFind` -/
def faultyFind (faults : Faults) (device : SteadyDevice) (s : FileState) (name : List UInt8)
    (calls : ℕ) : Except String Ext2DirectoryEntry × ℕ :=
  if name.length = 0 then (.error "a name of no length names nothing", calls)
  else if name.length > ext2NameMaximum then
    (.error "a name longer than the format permits can be upon no volume", calls)
  else faultyFindFrom faults device s name calls ext2DirectoryOpen

/-- The loop of `Ext2DirectoryInsert` -/
def faultyInsertAmong (faults : Faults) (device : SteadyDevice) (needed : UInt16) (number : UInt32)
    (name : List UInt8) (fileType : UInt8) : List ℕ → Action FaultyState String Bool
  | [] => return false
  | index :: indexes => do
      let block ← faultyLook faults fun s ↦ ext2InodeBlock device s.disk s.volume s.inode index
      if block = 0 then faultyInsertAmong faults device needed number name fileType indexes
      else
        let inserted ← faultyCall faults (onDisk fun volume ↦
          ext2InsertIntoBlock device volume block needed number name fileType)
        if inserted then return true
        else faultyInsertAmong faults device needed number name fileType indexes

/-- The end of `Ext2DirectoryInsert`, where no block had room. -/
def faultyInsertGrown (faults : Faults) (device : SteadyDevice) (needed : UInt16)
    (number : UInt32) (name : List UInt8) (fileType : UInt8) (blocks : ℕ) :
    Action FaultyState String PUnit := do
  let (block, _) ← faultyCall faults (ext2InodeBlockAllocate device blocks)
  faultyCall faults (onDisk fun volume ↦ ext2ZeroBlock device volume block)
  faultyCall faults (onDisk fun volume ↦
    ext2PutEntry device volume block 0 0 volume.blockSize.toUInt16 [] ext2FtUnknown)
  modify fun s ↦ { s with file := { s.file with
    inode := { s.file.inode with
      size := s.file.inode.size + s.file.volume.blockSize.toUInt64 } } }
  let s ← get
  faultyCall faults (onDisk fun volume ↦ writing fun disk ↦
    ext2WriteInode device disk volume s.file.inode)
  let inserted ← faultyCall faults (onDisk fun volume ↦
    ext2InsertIntoBlock device volume block needed number name fileType)
  if inserted then return ⟨⟩ else throw "a name did not fit within a block of its own"

/-- `Ext2DirectoryInsert`, from the end of the search on. -/
def faultyInsertPlace (faults : Faults) (device : SteadyDevice) (name : List UInt8)
    (number : UInt32) (fileType : UInt8) : Action FaultyState String PUnit := do
  let s ← get
  let needed := ext2RecordLength name.length
  let blocks := directoryBlocks s.file.volume s.file.inode
  let inserted ← faultyInsertAmong faults device needed number name fileType (List.range blocks)
  if inserted then return ⟨⟩
  else faultyInsertGrown faults device needed number name fileType blocks

/-- What `Ext2DirectoryInsert` asks before the search. -/
def insertRefusal (s : FileState) (name : List UInt8) (number : UInt32) : Option String :=
  if s.volume.readOnly then some "the volume is read-only and may not be altered"
  else if ¬ext2InodeIsDirectory s.inode.mode then
    some "a name may be inserted only into a directory"
  else if name.length = 0 ∨ name.length > ext2NameMaximum then
    some "a name of no length, or longer than the format permits"
  else if number = 0 ∨ number > s.volume.inodeCount then
    some "a name may not be given to an inode the volume does not hold"
  else if ¬Addressable name then some "a name holding a separator or a null byte"
  else none

/-- `Ext2DirectoryInsert` -/
def faultyInsert (faults : Faults) (device : SteadyDevice) (name : List UInt8) (number : UInt32)
    (fileType : UInt8) : Action FaultyState String PUnit := do
  let s ← get
  match insertRefusal s.file name number with
  | some reason => throw reason
  | none =>
      let (found, calls) := faultyFind faults device s.file name s.calls
      set { s with calls }
      match found with
      | .ok _ => throw "the directory already holds that name"
      | .error _ => faultyInsertPlace faults device name number fileType

abbrev Erases (action : Action FaultyState String α) (steady : Action FileState String α) : Prop :=
  Mirrors FaultyState.file action steady

theorem Erases.call (action : Action FileState String α) :
    Erases (faultyCall (fun _ ↦ none) action) action := fun _ ↦ ⟨rfl, rfl⟩

theorem outcome_faultyLook_none (answer : FileState → Except String α) (s : FaultyState) :
    outcome (faultyLook (fun _ ↦ none) answer) s = (answer s.file, ⟨s.file, s.calls + 1⟩) := rfl

theorem Erases.look {β : Type} {answer : FileState → Except String α}
    {rest : α → Action FaultyState String β} {steadyRest : α → Action FileState String β}
    (hrest : ∀ a, Erases (rest a) (steadyRest a)) :
    Erases (faultyLook (fun _ ↦ none) answer >>= rest) (do
      let s ← get
      let a ← Action.consult fun _ ↦ answer s
      steadyRest a) := by
  intro s
  rw [outcome_bind, outcome_bind, outcome_get, outcome_faultyLook_none]
  dsimp only
  rw [outcome_bind, outcome_consult]
  cases answer s.file with
  | error reason => exact ⟨rfl, rfl⟩
  | ok a => exact hrest a ⟨s.file, s.calls + 1⟩

theorem directoryNextFrom_header {disk : Bytes} {volume : Superblock} {directory : Ext2Inode}
    {block : UInt32} (hmore : cursor.index < directoryBlocks volume directory)
    (hblock : ext2InodeBlock device disk volume directory cursor.index = .ok block)
    (hzero : block ≠ 0) (hroom : ¬cursor.offset > volume.blockSize - ext2DirectoryHeaderSize) :
    directoryNextFrom device disk volume directory cursor =
      (ext2ReadEntryHeader device disk volume block cursor.offset).bind fun entry ↦
        if entry.inode = 0 then
          directoryNextFrom device disk volume directory (cursor.beyond volume entry)
        else (ext2ReadEntryName device disk volume entry).map fun named ↦
          some (named, cursor.beyond volume entry) := by
  rw [directoryNextFrom.eq_1 device disk volume directory cursor, dif_pos hmore, hblock]
  simp only [hzero, hroom, if_false]
  split
  · rename_i reason hheader
    rw [hheader]
    rfl
  · rename_i entry hheader
    rw [hheader]
    rfl

theorem faultyNextFrom_none (device : SteadyDevice) (s : FileState) (calls : ℕ)
    (cursor : Ext2DirectoryCursor) : (faultyNextFrom (fun _ ↦ none) device s calls cursor).1 =
      directoryNextFrom device s.disk s.volume s.inode cursor := by
  fun_induction faultyNextFrom (fun _ ↦ none) device s calls cursor with
  | case1 calls cursor hmore reason hblock =>
      have hblock : ext2InodeBlock device s.disk s.volume s.inode cursor.index = .error reason :=
        hblock
      rw [directoryNextFrom, dif_pos hmore, hblock]
  | case2 calls cursor hmore hhole ih =>
      have hhole : ext2InodeBlock device s.disk s.volume s.inode cursor.index = .ok 0 := hhole
      rw [ih, directoryNextFrom.eq_1 device s.disk s.volume s.inode cursor, dif_pos hmore, hhole]
      simp
  | case3 calls cursor hmore block hblock hzero hroom =>
      have hblock : ext2InodeBlock device s.disk s.volume s.inode cursor.index = .ok block := hblock
      rw [directoryNextFrom, dif_pos hmore, hblock]
      simp [hzero, hroom]
  | case4 calls cursor hmore block hblock hzero hroom reason hheader =>
      have hheader : ext2ReadEntryHeader device s.disk s.volume block cursor.offset =
        .error reason := hheader
      rw [directoryNextFrom_header hmore hblock hzero hroom, hheader]
      rfl
  | case5 calls cursor hmore block hblock hzero hroom header hheader hunused ih =>
      have hheader : ext2ReadEntryHeader device s.disk s.volume block cursor.offset =
        .ok header := hheader
      rw [directoryNextFrom_header hmore hblock hzero hroom, hheader, ih]
      exact (if_pos hunused).symm
  | case6 calls cursor hmore block hblock hzero hroom header hheader hused =>
      have hheader : ext2ReadEntryHeader device s.disk s.volume block cursor.offset =
        .ok header := hheader
      rw [directoryNextFrom_header hmore hblock hzero hroom, hheader]
      exact (if_neg hused).symm
  | case7 calls cursor hmore => rw [directoryNextFrom, dif_neg hmore]

theorem faultyNext_none (device : SteadyDevice) (s : FileState) (calls : ℕ)
    (cursor : Ext2DirectoryCursor) : (faultyNext (fun _ ↦ none) device s calls cursor).1 =
      ext2DirectoryNext device s.disk s.volume s.inode cursor := by
  unfold faultyNext ext2DirectoryNext
  cases (ext2DirectoryTraversable s.volume s.inode : Except String Unit) with
  | error reason => rfl
  | ok _ => exact faultyNextFrom_none device s calls cursor

theorem directoryFindFrom_next {disk : Bytes} {volume : Superblock} {directory : Ext2Inode}
    (h : ext2DirectoryNext device disk volume directory cursor = .ok (some (entry, next))) :
    directoryFindFrom device disk volume directory name cursor =
      if entry.nameLength = UInt16.ofNat name.length ∧ entry.name = name then .ok entry
      else directoryFindFrom device disk volume directory name next := by
  rw [directoryFindFrom]
  split
  · rename_i hnext
    cases h.symm.trans hnext
  · rename_i hnext
    cases h.symm.trans hnext
  · rename_i hnext
    cases h.symm.trans hnext
    rfl

theorem faultyFindFrom_none (device : SteadyDevice) (s : FileState) (name : List UInt8)
    (calls : ℕ) (cursor : Ext2DirectoryCursor) :
    (faultyFindFrom (fun _ ↦ none) device s name calls cursor).1 =
      directoryFindFrom device s.disk s.volume s.inode name cursor := by
  have hsteady : ∀ {calls cursor answer calls'},
      faultyNext (fun _ ↦ none) device s calls cursor = (answer, calls') →
        ext2DirectoryNext device s.disk s.volume s.inode cursor = answer := by
    intro calls cursor answer calls' h
    rw [← faultyNext_none device s calls cursor, h]
  fun_induction faultyFindFrom (fun _ ↦ none) device s name calls cursor with
  | case1 calls cursor reason calls' hnext =>
      rw [directoryFindFrom]
      split
      · rename_i hsteady'
        cases (hsteady hnext).symm.trans hsteady'
        rfl
      · rename_i hsteady'
        cases (hsteady hnext).symm.trans hsteady'
      · rename_i hsteady'
        cases (hsteady hnext).symm.trans hsteady'
  | case2 calls cursor calls' hnext =>
      rw [directoryFindFrom]
      split
      · rename_i hsteady'
        cases (hsteady hnext).symm.trans hsteady'
      · rfl
      · rename_i hsteady'
        cases (hsteady hnext).symm.trans hsteady'
  | case3 calls cursor entry next calls' hnext hsame =>
      rw [directoryFindFrom_next (hsteady hnext), if_pos hsame]
  | case4 calls cursor entry next calls' hnext hother ih =>
      rw [directoryFindFrom_next (hsteady hnext), if_neg hother, ih]

theorem faultyFind_none (device : SteadyDevice) (s : FileState) (name : List UInt8) (calls : ℕ) :
    (faultyFind (fun _ ↦ none) device s name calls).1 =
      ext2DirectoryFind device s.disk s.volume s.inode name := by
  unfold faultyFind ext2DirectoryFind
  split_ifs
  · rfl
  · rfl
  · exact faultyFindFrom_none device s name calls ext2DirectoryOpen

theorem erases_insertAmong (device : SteadyDevice) (needed : UInt16) (number : UInt32)
    (name : List UInt8) (fileType : UInt8) (indexes : List ℕ) :
    Erases (faultyInsertAmong (fun _ ↦ none) device needed number name fileType indexes)
      (insertAmong device needed number name fileType indexes) := by
  induction indexes with
  | nil => exact Mirrors.pure false
  | cons index indexes ih =>
      refine Erases.look fun block ↦ ?_
      by_cases hhole : block = 0
      · rw [if_pos hhole, if_pos hhole]
        exact ih
      · rw [if_neg hhole, if_neg hhole]
        refine (Erases.call _).bind fun inserted ↦ ?_
        cases inserted with
        | true => exact Mirrors.pure true
        | false => exact ih

theorem erases_insertGrown (device : SteadyDevice) (needed : UInt16) (number : UInt32)
    (name : List UInt8) (fileType : UInt8) (blocks : ℕ) :
    Erases (faultyInsertGrown (fun _ ↦ none) device needed number name fileType blocks)
      (insertGrown device needed number name fileType blocks) := by
  refine (Erases.call _).bind fun answer ↦ ?_
  obtain ⟨block, allocated⟩ := answer
  refine (Erases.call _).bind fun _ ↦ (Erases.call _).bind fun _ ↦ ?_
  refine Mirrors.bind (fun _ ↦ ⟨rfl, rfl⟩) fun _ ↦ ?_
  refine Mirrors.get fun s ↦ (Erases.call _).bind fun _ ↦ (Erases.call _).bind fun inserted ↦ ?_
  cases inserted with
  | true => exact Mirrors.pure _
  | false => exact Mirrors.throw _

/-- `ext2DirectoryInsert` from the end of the search on. -/
def insertPlace (device : SteadyDevice) (name : List UInt8) (number : UInt32) (fileType : UInt8) :
    Action FileState String PUnit := do
  let s ← get
  let inserted ← insertAmong device (ext2RecordLength name.length) number name fileType
    (List.range (directoryBlocks s.volume s.inode))
  if inserted then return ⟨⟩
  else
    insertGrown device (ext2RecordLength name.length) number name fileType
      (directoryBlocks s.volume s.inode)

theorem outcome_ext2DirectoryInsert (device : SteadyDevice) (name : List UInt8) (number : UInt32)
    (fileType : UInt8) (s : FileState) :
    outcome (ext2DirectoryInsert device name number fileType) s =
      match insertRefusal s name number with
      | some reason => (.error reason, s)
      | none => match ext2DirectoryFind device s.disk s.volume s.inode name with
        | .ok _ => (.error "the directory already holds that name", s)
        | .error _ => outcome (insertPlace device name number fileType) s := by
  unfold ext2DirectoryInsert insertRefusal
  rw [outcome_bind, outcome_get]
  dsimp only
  by_cases hreadOnly : s.volume.readOnly = true
  · rw [if_pos hreadOnly, if_pos hreadOnly]
    rfl
  by_cases hdirectory : ¬ext2InodeIsDirectory s.inode.mode = true
  · rw [if_neg hreadOnly, if_neg hreadOnly, if_pos hdirectory, if_pos hdirectory]
    rfl
  by_cases hlength : name.length = 0 ∨ name.length > ext2NameMaximum
  · rw [if_neg hreadOnly, if_neg hreadOnly, if_neg hdirectory, if_neg hdirectory, if_pos hlength,
      if_pos hlength]
    rfl
  by_cases hnumber : number = 0 ∨ number > s.volume.inodeCount
  · rw [if_neg hreadOnly, if_neg hreadOnly, if_neg hdirectory, if_neg hdirectory, if_neg hlength,
      if_neg hlength, if_pos hnumber, if_pos hnumber]
    rfl
  by_cases haddressable : ¬Addressable name
  · rw [if_neg hreadOnly, if_neg hreadOnly, if_neg hdirectory, if_neg hdirectory, if_neg hlength,
      if_neg hlength, if_neg hnumber, if_neg hnumber, if_pos haddressable, if_pos haddressable]
    rfl
  rw [if_neg hreadOnly, if_neg hreadOnly, if_neg hdirectory, if_neg hdirectory, if_neg hlength,
    if_neg hlength, if_neg hnumber, if_neg hnumber, if_neg haddressable, if_neg haddressable]
  dsimp only
  cases ext2DirectoryFind device s.disk s.volume s.inode name with
  | ok found => rfl
  | error reason => rfl

theorem outcome_faultyInsert (faults : Faults) (device : SteadyDevice) (name : List UInt8)
    (number : UInt32) (fileType : UInt8) (s : FaultyState) :
    outcome (faultyInsert faults device name number fileType) s =
      match insertRefusal s.file name number with
      | some reason => (.error reason, s)
      | none => match faultyFind faults device s.file name s.calls with
        | (.ok _, calls) => (.error "the directory already holds that name", { s with calls })
        | (.error _, calls) =>
            outcome (faultyInsertPlace faults device name number fileType) { s with calls } := by
  unfold faultyInsert
  rw [outcome_bind, outcome_get]
  dsimp only
  cases insertRefusal s.file name number with
  | some reason => rfl
  | none =>
      cases faultyFind faults device s.file name s.calls with
      | mk answer calls =>
          cases answer with
          | ok found => rfl
          | error reason => rfl

theorem erases_insert (device : SteadyDevice) (name : List UInt8) (number : UInt32)
    (fileType : UInt8) : Erases (faultyInsert (fun _ ↦ none) device name number fileType)
      (ext2DirectoryInsert device name number fileType) := by
  have hplace : Erases (faultyInsertPlace (fun _ ↦ none) device name number fileType)
      (insertPlace device name number fileType) := by
    refine Mirrors.get fun s ↦ (erases_insertAmong _ _ _ _ _ _).bind fun inserted ↦ ?_
    cases inserted with
    | true => exact Mirrors.pure _
    | false => exact erases_insertGrown _ _ _ _ _ _
  intro s
  rw [outcome_faultyInsert, outcome_ext2DirectoryInsert]
  cases insertRefusal s.file name number with
  | some reason => exact ⟨rfl, rfl⟩
  | none =>
      have hfind := faultyFind_none device s.file name s.calls
      dsimp only
      cases hfaulty : faultyFind (fun _ ↦ none) device s.file name s.calls with
      | mk answer calls' =>
          rw [hfaulty] at hfind
          rw [← hfind]
          cases answer with
          | ok found => exact ⟨rfl, rfl⟩
          | error reason => exact hplace ⟨s.file, calls'⟩

/-- A step fails before the traversal comes to the name, after so many calls. -/
inductive SearchFails (faults : Faults) (device : SteadyDevice) (s : FileState)
    (name : List UInt8) : ℕ → Ext2DirectoryCursor → ℕ → Prop
  | failed {calls calls' : ℕ} {cursor : Ext2DirectoryCursor} {reason : String}
      (h : faultyNext faults device s calls cursor = (.error reason, calls')) :
      SearchFails faults device s name calls cursor calls'
  | onward {calls calls' last : ℕ} {cursor next : Ext2DirectoryCursor}
      {entry : Ext2DirectoryEntry}
      (h : faultyNext faults device s calls cursor = (.ok (some (entry, next)), calls'))
      (hother : entry.name ≠ name) (hrest : SearchFails faults device s name calls' next last) :
      SearchFails faults device s name calls cursor last

theorem same_iff (h : entry.name.length = entry.nameLength.toNat) :
    entry.nameLength = UInt16.ofNat name.length ∧ entry.name = name ↔ entry.name = name := by
  refine and_iff_right_of_imp fun hname ↦ ?_
  rw [← hname, h, UInt16.ofNat_toNat]

theorem SearchFails.find (h : SearchFails faults device s name calls cursor calls') :
    ∃ reason, faultyFindFrom faults device s name calls cursor = (.error reason, calls') := by
  induction h with
  | @failed calls calls' cursor reason h =>
      refine ⟨reason, ?_⟩
      rw [faultyFindFrom]
      split
      · rename_i hnext
        cases h.symm.trans hnext
        rfl
      · rename_i hnext
        cases h.symm.trans hnext
      · rename_i hnext
        cases h.symm.trans hnext
  | onward h hother hrest ih =>
      obtain ⟨reason, hfind⟩ := ih
      refine ⟨reason, ?_⟩
      rw [faultyFindFrom]
      split
      · rename_i hnext
        cases h.symm.trans hnext
      · rename_i hnext
        cases h.symm.trans hnext
      · rename_i hnext
        cases h.symm.trans hnext
        rw [if_neg fun hsame ↦ hother hsame.2, hfind]

def sampleDirectory : Ext2Inode :=
  { plainFile 1024 with
    number := 2, mode := 0x41ED, block := fun entry ↦ if entry = 0 then 20 else 0 }

/-- Its block holds one record, which names inode 12 `b`. -/
def sampleNames : FileState where
  disk := splice (sampleDisk 1 0xF7FF) 20480 9 fun i ↦ [12, 0, 0, 0, 0, 4, 1, 0, 98].getD i 0
  volume := sampleVolume 1
  inode := sampleDirectory

end OxysOS.Fs.Ext2
