import OxysOS.Library.Action
import OxysOS.Library.Bytes

/-!
# The ACPI tables

`kernel/acpi/acpi.c`, from the directory that the pointer names to what the first MADT declares.
The mappings in force are kept, each an address and an extent.  It is an error to read through a
mapping that is not in force, beyond its extent, or before the table has been found sound, and to
withdraw one that is not in force: no run comes to one.
-/

namespace OxysOS.Acpi

open OxysOS.Library OxysOS.Library.Action

def acpiHeaderLength : ℕ := 36

def acpiTableLengthMaximum : ℕ := 0x00100000

def acpiMadtOffsetEntries : ℕ := 44

def acpiMadtEntryHeaderLength : ℕ := 2

def acpiProcessorMaximum : ℕ := 64

def acpiIoApicMaximum : ℕ := 8

def acpiOverrideMaximum : ℕ := 32

def acpiLocalNmiMaximum : ℕ := 8

def acpiTableMaximum : ℕ := 32

structure AcpiProcessor where
  acpiUid : UInt32
  apicId : UInt32
  enabled : Bool
  onlineCapable : Bool
  extended : Bool

structure AcpiIoApic where
  identifier : UInt8
  address : UInt64
  interruptBase : UInt32

structure AcpiInterruptOverride where
  bus : UInt8
  source : UInt8
  globalInterrupt : UInt32
  flags : UInt16

structure AcpiLocalNmi where
  acpiUid : UInt32
  flags : UInt16
  localInterrupt : UInt8

structure AcpiRecords where
  processors : List AcpiProcessor
  ioApics : List AcpiIoApic
  overrides : List AcpiInterruptOverride
  localNmis : List AcpiLocalNmi

structure AcpiMapping where
  address : UInt64
  length : ℕ
  deriving DecidableEq

structure AcpiState where
  madtParsed : Bool
  records : AcpiRecords
  localControllerAddress : UInt64
  dualPic : Bool
  directory : UInt64
  directoryExtended : Bool
  signatures : List (List UInt8)
  checksumFailures : ℕ
  unrecognisedEntries : ℕ
  truncated : Bool
  live : List AcpiMapping
  calls : ℕ

/-- What `AcpiInitialise` begins with, while others have mappings of their own. -/
def acpiStart (live : List AcpiMapping) : AcpiState where
  madtParsed := false
  records := ⟨[], [], [], []⟩
  localControllerAddress := 0
  dualPic := false
  directory := 0
  directoryExtended := false
  signatures := []
  checksumFailures := 0
  unrecognisedEntries := 0
  truncated := false
  live
  calls := 0

abbrev AcpiAction (α : Type) := Action AcpiState String α

/-! ## Bytes -/

def acpiRead16 (bytes : Bytes) (offset : ℕ) : UInt16 :=
  (bytes offset).toUInt16 ||| ((bytes (offset + 1)).toUInt16 <<< 8)

def acpiRead32 (bytes : Bytes) (offset : ℕ) : UInt32 :=
  (bytes offset).toUInt32 ||| ((bytes (offset + 1)).toUInt32 <<< 8) |||
    ((bytes (offset + 2)).toUInt32 <<< 16) ||| ((bytes (offset + 3)).toUInt32 <<< 24)

def acpiRead64 (bytes : Bytes) (offset : ℕ) : UInt64 :=
  (acpiRead32 bytes offset).toUInt64 ||| ((acpiRead32 bytes (offset + 4)).toUInt64 <<< 32)

def acpiChecksumIsValid (bytes : Bytes) (length : ℕ) : Bool :=
  (List.range length).foldl (fun sum index ↦ sum + bytes index) 0 = 0

variable (memory : UInt64 → UInt8) (maps : ℕ → Bool)

def physicalBytes (address : UInt64) : Bytes := fun i ↦ memory (address + UInt64.ofNat i)

def declaredLength (address : UInt64) : ℕ := (acpiRead32 (physicalBytes memory address) 4).toNat

/-- A mapping is of a whole table, whose length is one that a table may have. -/
def AcpiMapping.Plausible (mapping : AcpiMapping) : Prop :=
  mapping.length = declaredLength memory mapping.address ∧ acpiHeaderLength ≤ mapping.length ∧
    mapping.length ≤ acpiTableLengthMaximum

/-- A mapping is of a whole table that sums to zero. -/
def AcpiMapping.Sound (mapping : AcpiMapping) : Prop :=
  mapping.Plausible memory ∧
    acpiChecksumIsValid (physicalBytes memory mapping.address) mapping.length = true

instance (mapping : AcpiMapping) : Decidable (mapping.Plausible memory) :=
  inferInstanceAs (Decidable (_ ∧ _ ∧ _))

instance (mapping : AcpiMapping) : Decidable (mapping.Sound memory) :=
  inferInstanceAs (Decidable (_ ∧ _))

inductive AcpiUse
  | length | checksum | content

/-- What may be read through a mapping: the length out of the header that is mapped for it, a
checksum over a table of a plausible length, and the rest of a table that is sound. -/
def AcpiUse.Allows (mapping : AcpiMapping) : AcpiUse → Prop
  | .length => mapping.length = acpiHeaderLength
  | .checksum => mapping.Plausible memory
  | .content => mapping.Sound memory

instance (mapping : AcpiMapping) : (use : AcpiUse) → Decidable (use.Allows memory mapping)
  | .length => inferInstanceAs (Decidable (_ = _))
  | .checksum => inferInstanceAs (Decidable (mapping.Plausible memory))
  | .content => inferInstanceAs (Decidable (mapping.Sound memory))

def readMapped (use : AcpiUse) (mapping : AcpiMapping) (offset count : ℕ) : AcpiAction Bytes := do
  let s ← get
  if mapping ∈ s.live ∧ use.Allows memory mapping ∧ offset + count ≤ mapping.length then
    return fun i ↦ physicalBytes memory mapping.address (offset + i)
  else throw "a byte was read that is not of a table"

/-- `KernelDeviceMap`, which may find no room; which calls do is told by their number. -/
def kernelDeviceMap (address : UInt64) (length : ℕ) : AcpiAction (Option AcpiMapping) := do
  let s ← get
  if maps s.calls then do
    set { s with calls := s.calls + 1, live := ⟨address, length⟩ :: s.live }
    return some ⟨address, length⟩
  else do
    set { s with calls := s.calls + 1 }
    return none

def kernelDeviceUnmap (mapping : AcpiMapping) : AcpiAction Unit := do
  let s ← get
  if mapping ∈ s.live then set { s with live := s.live.erase mapping }
  else throw "a mapping was withdrawn that is not in force"

/-! ## Tables -/

/-- The second mapping of `AcpiMapTable`, of the whole of a table. -/
def acpiMapWhole (address : UInt64) (length : ℕ) : AcpiAction (Option AcpiMapping) := do
  match ← kernelDeviceMap maps address length with
  | none => return none
  | some table => do
      let bytes ← readMapped memory .checksum table 0 length
      if acpiChecksumIsValid bytes length then return some table
      else do
        modify fun s ↦ { s with checksumFailures := s.checksumFailures + 1 }
        kernelDeviceUnmap table
        return none

def acpiMapTable (address : UInt64) : AcpiAction (Option AcpiMapping) := do
  if address = 0 then return none
  else
    match ← kernelDeviceMap maps address acpiHeaderLength with
    | none => return none
    | some header => do
        let bytes ← readMapped memory .length header 4 4
        let length := (acpiRead32 bytes 0).toNat
        kernelDeviceUnmap header
        if length < acpiHeaderLength ∨ length > acpiTableLengthMaximum then return none
        else acpiMapWhole memory maps address length

/-- `AcpiSignatureMatches` of a table, over four bytes. -/
def acpiSignatureMatches (table : AcpiMapping) (signature : String) : AcpiAction Bool := do
  let bytes ← readMapped memory .content table 0 4
  return (List.range 4).map bytes = signature.toList.map byteOf

/-! ## The structures of the MADT -/

/-- A structure of one of the types that are recorded: where it is long enough and there is room
for another, it is recorded from the bytes that its type lays out. -/
def acpiRecordWhere (table : AcpiMapping) (offset length least : ℕ) (full : AcpiRecords → Bool)
    (record : Bytes → AcpiRecords → AcpiRecords) : AcpiAction Unit := do
  if length < least then
    modify fun s ↦ { s with unrecognisedEntries := s.unrecognisedEntries + 1 }
  else do
    let s ← get
    if full s.records then set { s with truncated := true }
    else do
      let entry ← readMapped memory .content table offset least
      set { s with records := record entry s.records }

def localApicProcessor (entry : Bytes) : AcpiProcessor where
  acpiUid := (entry 2).toUInt32
  apicId := (entry 3).toUInt32
  enabled := acpiRead32 entry 4 &&& 1 ≠ 0
  onlineCapable := acpiRead32 entry 4 &&& 2 ≠ 0
  extended := false

def localX2ApicProcessor (entry : Bytes) : AcpiProcessor where
  acpiUid := acpiRead32 entry 12
  apicId := acpiRead32 entry 4
  enabled := acpiRead32 entry 8 &&& 1 ≠ 0
  onlineCapable := acpiRead32 entry 8 &&& 2 ≠ 0
  extended := true

def entryIoApic (entry : Bytes) : AcpiIoApic :=
  ⟨entry 2, (acpiRead32 entry 4).toUInt64, acpiRead32 entry 8⟩

def entryOverride (entry : Bytes) : AcpiInterruptOverride :=
  ⟨entry 2, entry 3, acpiRead32 entry 4, acpiRead16 entry 8⟩

def entryLocalNmi (entry : Bytes) : AcpiLocalNmi :=
  ⟨(entry 2).toUInt32, acpiRead16 entry 3, entry 5⟩

def acpiRecordMadtEntry (table : AcpiMapping) (offset : ℕ) (type : UInt8) (length : ℕ) :
    AcpiAction Unit :=
  match type.toNat with
  | 0 => acpiRecordWhere memory table offset length 8
      (fun records ↦ records.processors.length ≥ acpiProcessorMaximum) fun entry records ↦
        { records with processors := records.processors ++ [localApicProcessor entry] }
  | 9 => acpiRecordWhere memory table offset length 16
      (fun records ↦ records.processors.length ≥ acpiProcessorMaximum) fun entry records ↦
        { records with processors := records.processors ++ [localX2ApicProcessor entry] }
  | 1 => acpiRecordWhere memory table offset length 12
      (fun records ↦ records.ioApics.length ≥ acpiIoApicMaximum) fun entry records ↦
        { records with ioApics := records.ioApics ++ [entryIoApic entry] }
  | 2 => acpiRecordWhere memory table offset length 10
      (fun records ↦ records.overrides.length ≥ acpiOverrideMaximum) fun entry records ↦
        { records with overrides := records.overrides ++ [entryOverride entry] }
  | 4 => acpiRecordWhere memory table offset length 6
      (fun records ↦ records.localNmis.length ≥ acpiLocalNmiMaximum) fun entry records ↦
        { records with localNmis := records.localNmis ++ [entryLocalNmi entry] }
  | 5 => do
      if length < 12 then
        modify fun s ↦ { s with unrecognisedEntries := s.unrecognisedEntries + 1 }
      else do
        let entry ← readMapped memory .content table offset 12
        modify fun s ↦ { s with localControllerAddress := acpiRead64 entry 4 }
  | _ => modify fun s ↦ { s with unrecognisedEntries := s.unrecognisedEntries + 1 }

/-- The loop of `AcpiParseMadt` -/
def acpiParseEntries (table : AcpiMapping) (offset : ℕ) : AcpiAction Unit :=
  if _hmore : offset + acpiMadtEntryHeaderLength ≤ table.length then do
    let bytes ← readMapped memory .content table offset acpiMadtEntryHeaderLength
    let entryLength := (bytes 1).toNat
    if _hbad : entryLength < acpiMadtEntryHeaderLength ∨ offset + entryLength > table.length then
      return ()
    else do
      acpiRecordMadtEntry memory table offset (bytes 0) entryLength
      acpiParseEntries table (offset + entryLength)
  else return ()
termination_by table.length - offset
decreasing_by
  unfold acpiMadtEntryHeaderLength at *
  omega

def acpiParseMadt (table : AcpiMapping) : AcpiAction Unit := do
  if table.length < acpiMadtOffsetEntries then return ()
  else do
    let header ← readMapped memory .content table acpiHeaderLength 8
    modify fun s ↦ { s with
      localControllerAddress := (acpiRead32 header 0).toUInt64
      dualPic := acpiRead32 header 4 &&& 1 ≠ 0 }
    acpiParseEntries memory table acpiMadtOffsetEntries
    modify fun s ↦ { s with madtParsed := true }

def acpiConsumeTable (address : UInt64) : AcpiAction Unit := do
  match ← acpiMapTable memory maps address with
  | none => return ()
  | some table => do
      let bytes ← readMapped memory .content table 0 4
      modify fun s ↦
        if s.signatures.length < acpiTableMaximum then
          { s with signatures := s.signatures ++ [(List.range 4).map bytes] }
        else { s with truncated := true }
      let matched ← acpiSignatureMatches memory table "APIC"
      let s ← get
      if matched = true ∧ s.madtParsed = false then acpiParseMadt memory table else pure ()
      kernelDeviceUnmap table

/-! ## The directory -/

def acpiMapDirectory (address : UInt64) (signature : String) : AcpiAction (Option AcpiMapping) := do
  match ← acpiMapTable memory maps address with
  | none => return none
  | some directory => do
      let matched ← acpiSignatureMatches memory directory signature
      if matched then return some directory
      else do
        kernelDeviceUnmap directory
        return none

/-- The loop of `AcpiWalkDirectory` -/
def acpiConsumeEntries (directory : AcpiMapping) (width : ℕ) : List ℕ → AcpiAction Unit
  | [] => return ()
  | index :: rest => do
      let slot ← readMapped memory .content directory (acpiHeaderLength + index * width) width
      acpiConsumeTable memory maps
        (if width = 8 then acpiRead64 slot 0 else (acpiRead32 slot 0).toUInt64)
      acpiConsumeEntries directory width rest

/-- What `AcpiWalkDirectory` does with the directory that it has mapped. -/
def acpiConsumeDirectory (directory : AcpiMapping) (width : ℕ) : AcpiAction Bool := do
  modify fun s ↦ { s with directory := directory.address, directoryExtended := width = 8 }
  acpiConsumeEntries memory maps directory width
    (List.range ((directory.length - acpiHeaderLength) / width))
  kernelDeviceUnmap directory
  return true

/-- What `AcpiWalkDirectory` does where no XSDT has been found. -/
def acpiWalkRoot (root : UInt64) : AcpiAction Bool := do
  match ← acpiMapDirectory memory maps root "RSDT" with
  | none => return false
  | some directory => acpiConsumeDirectory memory maps directory 4

/-- `AcpiWalkDirectory`, of the pointer at an address, which is read through the direct map. -/
def acpiWalkDirectory (pointer : UInt64) (revision : UInt8) : AcpiAction Bool := do
  modify fun s ↦ { s with directory := 0, directoryExtended := false }
  let extended := acpiRead64 (physicalBytes memory pointer) 24
  let found ← (if revision ≥ 2 ∧ extended ≠ 0 then acpiMapDirectory memory maps extended "XSDT"
    else pure none)
  match found with
  | some directory => acpiConsumeDirectory memory maps directory 8
  | none => acpiWalkRoot memory maps (acpiRead32 (physicalBytes memory pointer) 16).toUInt64

/-! ## What the tables declare -/

def AcpiMapping.bytes (table : AcpiMapping) (offset : ℕ) : Bytes :=
  fun i ↦ physicalBytes memory table.address (offset + i)

/-- The table at an address, where it is sound and room is found to map it, after so many mappings
have been asked for, and how many have been then. -/
def tableAt (calls : ℕ) (address : UInt64) : Option AcpiMapping × ℕ :=
  let table : AcpiMapping := ⟨address, declaredLength memory address⟩
  if address = 0 then (none, calls)
  else if maps calls = false ∨ ¬table.Plausible memory then (none, calls + 1)
  else if maps (calls + 1) = false ∨ ¬table.Sound memory then (none, calls + 2)
  else (some table, calls + 2)

def tablesAt : ℕ → List UInt64 → List AcpiMapping
  | _, [] => []
  | calls, address :: rest => (tableAt memory maps calls address).1.toList ++
      tablesAt (tableAt memory maps calls address).2 rest

def AcpiMapping.Bears (table : AcpiMapping) (signature : String) : Prop :=
  (List.range 4).map (table.bytes memory 0) = signature.toList.map byteOf

instance (table : AcpiMapping) (signature : String) : Decidable (table.Bears memory signature) :=
  inferInstanceAs (Decidable (_ = _))

def directoryAt (calls : ℕ) (address : UInt64) (signature : String) : Option AcpiMapping × ℕ :=
  ((tableAt memory maps calls address).1.filter (·.Bears memory signature),
    (tableAt memory maps calls address).2)

/-- The directory that a pointer names, with the width of its entries: the XSDT where there is one,
and the RSDT where there is not. -/
def directoryOf (pointer : UInt64) (revision : UInt8) : Option (AcpiMapping × ℕ) × ℕ :=
  let extended := acpiRead64 (physicalBytes memory pointer) 24
  let root := (acpiRead32 (physicalBytes memory pointer) 16).toUInt64
  let (found, calls) := if revision ≥ 2 ∧ extended ≠ 0 then
      directoryAt memory maps 0 extended "XSDT"
    else (none, 0)
  match found with
  | some directory => (some (directory, 8), calls)
  | none => ((directoryAt memory maps calls root "RSDT").1.map (·, 4),
      (directoryAt memory maps calls root "RSDT").2)

def listedAddress (directory : AcpiMapping) (width index : ℕ) : UInt64 :=
  let slot := directory.bytes memory (acpiHeaderLength + index * width)
  if width = 8 then acpiRead64 slot 0 else (acpiRead32 slot 0).toUInt64

def tablesOf : Option (AcpiMapping × ℕ) × ℕ → List AcpiMapping
  | (none, _) => []
  | (some (directory, width), calls) => tablesAt memory maps calls
      ((List.range ((directory.length - acpiHeaderLength) / width)).map
        (listedAddress memory directory width))

def directoryTables (pointer : UInt64) (revision : UInt8) : List AcpiMapping :=
  tablesOf memory maps (directoryOf memory maps pointer revision)

def AcpiMapping.IsMadt (table : AcpiMapping) : Prop :=
  table.Bears memory "APIC" ∧ acpiMadtOffsetEntries ≤ table.length

instance (table : AcpiMapping) : Decidable (table.IsMadt memory) :=
  inferInstanceAs (Decidable (_ ∧ _))

inductive MadtStructure
  | processor (processor : AcpiProcessor)
  | ioApic (ioApic : AcpiIoApic)
  | override (override : AcpiInterruptOverride)
  | localNmi (localNmi : AcpiLocalNmi)

def madtStructure (entry : Bytes) : Option MadtStructure :=
  let length := (entry 1).toNat
  match (entry 0).toNat with
  | 0 => if length < 8 then none else some (.processor (localApicProcessor entry))
  | 9 => if length < 16 then none else some (.processor (localX2ApicProcessor entry))
  | 1 => if length < 12 then none else some (.ioApic (entryIoApic entry))
  | 2 => if length < 10 then none else some (.override (entryOverride entry))
  | 4 => if length < 6 then none else some (.localNmi (entryLocalNmi entry))
  | _ => none

def madtEntries (table : AcpiMapping) (offset : ℕ) : List ℕ :=
  let length := (table.bytes memory offset 1).toNat
  if _hmore : offset + acpiMadtEntryHeaderLength ≤ table.length then
    if _hbad : length < acpiMadtEntryHeaderLength ∨ offset + length > table.length then []
    else offset :: madtEntries table (offset + length)
  else []
termination_by table.length - offset
decreasing_by
  unfold acpiMadtEntryHeaderLength at *
  omega

def madtStructures (table : AcpiMapping) : List MadtStructure :=
  (madtEntries memory table acpiMadtOffsetEntries).filterMap fun offset ↦
    madtStructure (table.bytes memory offset)

namespace MadtStructure

def processor? : MadtStructure → Option AcpiProcessor
  | .processor found => some found
  | _ => none

def ioApic? : MadtStructure → Option AcpiIoApic
  | .ioApic found => some found
  | _ => none

def override? : MadtStructure → Option AcpiInterruptOverride
  | .override found => some found
  | _ => none

def localNmi? : MadtStructure → Option AcpiLocalNmi
  | .localNmi found => some found
  | _ => none

end MadtStructure

def addWithin {α : Type} (capacity : ℕ) (items : List α) (item : α) : List α :=
  if items.length ≥ capacity then items else items ++ [item]

def AcpiRecords.add (records : AcpiRecords) : MadtStructure → AcpiRecords
  | .processor found =>
      { records with processors := addWithin acpiProcessorMaximum records.processors found }
  | .ioApic found => { records with ioApics := addWithin acpiIoApicMaximum records.ioApics found }
  | .override found =>
      { records with overrides := addWithin acpiOverrideMaximum records.overrides found }
  | .localNmi found =>
      { records with localNmis := addWithin acpiLocalNmiMaximum records.localNmis found }

/-- What is to be recorded of structures: those of each kind in their order, as many as there is
room for. -/
def recordsOf (structures : List MadtStructure) : AcpiRecords where
  processors := (structures.filterMap MadtStructure.processor?).take acpiProcessorMaximum
  ioApics := (structures.filterMap MadtStructure.ioApic?).take acpiIoApicMaximum
  overrides := (structures.filterMap MadtStructure.override?).take acpiOverrideMaximum
  localNmis := (structures.filterMap MadtStructure.localNmi?).take acpiLocalNmiMaximum

/-! ## Tables as they are mapped -/

variable {memory maps} {s : AcpiState} {table : AcpiMapping}

structure Alike (s s' : AcpiState) : Prop where
  live : s'.live = s.live
  calls : s'.calls = s.calls
  madtParsed : s'.madtParsed = s.madtParsed

theorem outcome_readMapped {use : AcpiUse} {mapping : AcpiMapping} (hlive : mapping ∈ s.live)
    (hallows : use.Allows memory mapping) {offset count : ℕ}
    (hle : offset + count ≤ mapping.length) :
    outcome (readMapped memory use mapping offset count) s =
      (.ok (mapping.bytes memory offset), s) := by
  unfold readMapped
  rw [outcome_bind, outcome_get]
  dsimp only
  rw [if_pos ⟨hlive, hallows, hle⟩]
  rfl

theorem outcome_kernelDeviceUnmap {mapping : AcpiMapping} (hlive : mapping ∈ s.live) :
    outcome (kernelDeviceUnmap mapping) s = (.ok (), { s with live := s.live.erase mapping }) := by
  unfold kernelDeviceUnmap
  rw [outcome_bind, outcome_get]
  dsimp only
  rw [if_pos hlive]
  rfl

theorem outcome_kernelDeviceMap (address : UInt64) (length : ℕ) (s : AcpiState) :
    outcome (kernelDeviceMap maps address length) s =
      if maps s.calls = true then
        (.ok (some ⟨address, length⟩),
          { s with calls := s.calls + 1, live := ⟨address, length⟩ :: s.live })
      else (.ok none, { s with calls := s.calls + 1 }) := by
  unfold kernelDeviceMap
  rw [outcome_bind, outcome_get]
  dsimp only
  split_ifs <;> rfl

theorem AcpiMapping.bytes_zero (table : AcpiMapping) :
    table.bytes memory 0 = physicalBytes memory table.address := by
  funext i
  unfold AcpiMapping.bytes
  rw [Nat.zero_add]

theorem tableAt_sound {calls : ℕ} {address : UInt64}
    (h : (tableAt memory maps calls address).1 = some table) : table.Sound memory := by
  unfold tableAt at h
  dsimp only at h
  split_ifs at h with hnull hextent hsound
  obtain rfl := Option.some.inj h
  exact not_not.mp (not_or.mp hsound).2

theorem outcome_acpiMapWhole (hextent : table.Plausible memory) (s : AcpiState) :
    ∃ s', outcome (acpiMapWhole memory maps table.address table.length) s =
        (.ok (if maps s.calls = false ∨ ¬table.Sound memory then none else some table), s') ∧
      s'.live = (if maps s.calls = false ∨ ¬table.Sound memory then none
        else some table).toList ++ s.live ∧
      s'.calls = s.calls + 1 ∧ s'.madtParsed = s.madtParsed ∧ s'.records = s.records := by
  have hallows : AcpiUse.checksum.Allows memory table := hextent
  have hwhole : 0 + table.length ≤ table.length := (Nat.zero_add _).le
  unfold acpiMapWhole
  rw [outcome_bind, outcome_kernelDeviceMap]
  by_cases hmaps : maps s.calls = true
  · rw [if_pos hmaps]
    dsimp only
    rw [outcome_bind, outcome_readMapped List.mem_cons_self hallows hwhole]
    dsimp only
    rw [AcpiMapping.bytes_zero]
    by_cases hsum : acpiChecksumIsValid (physicalBytes memory table.address) table.length = true
    · have hsound : table.Sound memory := ⟨hextent, hsum⟩
      rw [if_pos hsum, if_neg (by simp [hmaps, hsound])]
      exact ⟨_, rfl, rfl, rfl, rfl, rfl⟩
    · have hunsound : ¬table.Sound memory := fun h ↦ hsum h.2
      rw [if_neg hsum, if_pos (Or.inr hunsound), outcome_bind, outcome_modify]
      dsimp only
      rw [outcome_bind, outcome_kernelDeviceUnmap List.mem_cons_self]
      exact ⟨_, rfl, List.erase_cons_head .., rfl, rfl, rfl⟩
  · rw [if_neg hmaps, if_pos (Or.inl (Bool.not_eq_true _ ▸ hmaps))]
    exact ⟨_, rfl, rfl, rfl, rfl, rfl⟩

theorem outcome_acpiMapTable (address : UInt64) (s : AcpiState) :
    ∃ s', outcome (acpiMapTable memory maps address) s =
        (.ok (tableAt memory maps s.calls address).1, s') ∧
      s'.live = (tableAt memory maps s.calls address).1.toList ++ s.live ∧
      s'.calls = (tableAt memory maps s.calls address).2 ∧ s'.madtParsed = s.madtParsed ∧
      s'.records = s.records := by
  have hheader : AcpiUse.length.Allows memory ⟨address, acpiHeaderLength⟩ := rfl
  have hfield : 4 + 4 ≤ (⟨address, acpiHeaderLength⟩ : AcpiMapping).length :=
    (by decide : 8 ≤ acpiHeaderLength)
  have hdeclared : (acpiRead32 (AcpiMapping.bytes memory ⟨address, acpiHeaderLength⟩ 4) 0).toNat =
      declaredLength memory address := rfl
  unfold acpiMapTable tableAt
  dsimp only
  by_cases hnull : address = 0
  · rw [if_pos hnull, if_pos hnull]
    exact ⟨s, rfl, rfl, rfl, rfl, rfl⟩
  rw [if_neg hnull, if_neg hnull, outcome_bind, outcome_kernelDeviceMap]
  by_cases hfirst : maps s.calls = true
  · rw [if_pos hfirst]
    dsimp only
    rw [outcome_bind, outcome_readMapped List.mem_cons_self hheader hfield]
    dsimp only
    rw [outcome_bind, outcome_kernelDeviceUnmap List.mem_cons_self]
    dsimp only
    rw [List.erase_cons_head, hdeclared]
    by_cases hextent :
        (⟨address, declaredLength memory address⟩ : AcpiMapping).Plausible memory
    · have hlength : ¬(declaredLength memory address < acpiHeaderLength ∨
          declaredLength memory address > acpiTableLengthMaximum) :=
        not_or.mpr ⟨Nat.not_lt.mpr hextent.2.1, Nat.not_lt.mpr hextent.2.2⟩
      rw [if_neg hlength, if_neg (by simp [hfirst, hextent])]
      obtain ⟨s', houtcome, hlive, hcalls, hrest⟩ :=
        outcome_acpiMapWhole hextent { s with calls := s.calls + 1 }
      refine ⟨s', houtcome.trans ?_, hlive.trans ?_, hcalls.trans ?_, hrest⟩ <;> split_ifs <;> rfl
    · have hlength : declaredLength memory address < acpiHeaderLength ∨
          declaredLength memory address > acpiTableLengthMaximum := by
        by_contra hwithin
        obtain ⟨hleast, hmost⟩ := not_or.mp hwithin
        exact hextent ⟨rfl, Nat.not_lt.mp hleast, Nat.not_lt.mp hmost⟩
      rw [if_pos hlength, if_pos (Or.inr hextent)]
      exact ⟨_, rfl, rfl, rfl, rfl, rfl⟩
  · rw [if_neg hfirst, if_pos (Or.inl (Bool.not_eq_true _ ▸ hfirst))]
    exact ⟨_, rfl, rfl, rfl, rfl, rfl⟩

/-! ## The entries of a MADT -/

section

variable {α : Type} {capacity : ℕ} {items : List α}

theorem length_addWithin (h : items.length ≤ capacity) (item : α) :
    (addWithin capacity items item).length ≤ capacity := by
  unfold addWithin
  split_ifs with hfull
  · exact h
  · rw [List.length_append, List.length_singleton]
    omega

theorem take_addWithin (h : items.length ≤ capacity) (item : α) (rest : List α) :
    (addWithin capacity items item ++ rest).take capacity =
      (items ++ item :: rest).take capacity := by
  unfold addWithin
  split_ifs with hfull
  · obtain rfl : items.length = capacity := Nat.le_antisymm h hfull
    rw [List.take_left, List.take_left]
  · rw [List.append_assoc, List.singleton_append]

end

structure AcpiRecords.Fits (records : AcpiRecords) : Prop where
  processors : records.processors.length ≤ acpiProcessorMaximum
  ioApics : records.ioApics.length ≤ acpiIoApicMaximum
  overrides : records.overrides.length ≤ acpiOverrideMaximum
  localNmis : records.localNmis.length ≤ acpiLocalNmiMaximum

theorem foldl_add {records : AcpiRecords} (h : records.Fits) (structures : List MadtStructure) :
    structures.foldl AcpiRecords.add records =
      { processors := (records.processors ++ structures.filterMap MadtStructure.processor?).take
          acpiProcessorMaximum
        ioApics := (records.ioApics ++ structures.filterMap MadtStructure.ioApic?).take
          acpiIoApicMaximum
        overrides := (records.overrides ++ structures.filterMap MadtStructure.override?).take
          acpiOverrideMaximum
        localNmis := (records.localNmis ++ structures.filterMap MadtStructure.localNmi?).take
          acpiLocalNmiMaximum } := by
  induction structures generalizing records with
  | nil =>
      simp only [List.filterMap_nil, List.append_nil, List.foldl_nil,
        List.take_of_length_le h.processors, List.take_of_length_le h.ioApics,
        List.take_of_length_le h.overrides, List.take_of_length_le h.localNmis]
  | cons found structures ih =>
      rw [List.foldl_cons]
      cases found with
      | processor found =>
          have hfits : (records.add (.processor found)).Fits :=
            ⟨length_addWithin h.processors found, h.ioApics, h.overrides, h.localNmis⟩
          refine (ih hfits).trans ?_
          exact congrArg (AcpiRecords.mk · _ _ _) (take_addWithin h.processors found _)
      | ioApic found =>
          have hfits : (records.add (.ioApic found)).Fits :=
            ⟨h.processors, length_addWithin h.ioApics found, h.overrides, h.localNmis⟩
          refine (ih hfits).trans ?_
          exact congrArg (AcpiRecords.mk _ · _ _) (take_addWithin h.ioApics found _)
      | override found =>
          have hfits : (records.add (.override found)).Fits :=
            ⟨h.processors, h.ioApics, length_addWithin h.overrides found, h.localNmis⟩
          refine (ih hfits).trans ?_
          exact congrArg (AcpiRecords.mk _ _ · _) (take_addWithin h.overrides found _)
      | localNmi found =>
          have hfits : (records.add (.localNmi found)).Fits :=
            ⟨h.processors, h.ioApics, h.overrides, length_addWithin h.localNmis found⟩
          refine (ih hfits).trans ?_
          exact congrArg (AcpiRecords.mk _ _ _ ·) (take_addWithin h.localNmis found _)

theorem outcome_acpiRecordWhere (hlive : table ∈ s.live) (hsound : table.Sound memory)
    {offset length least : ℕ} (hle : offset + length ≤ table.length) (full : AcpiRecords → Bool)
    (record : Bytes → AcpiRecords → AcpiRecords) :
    ∃ s', outcome (acpiRecordWhere memory table offset length least full record) s = (.ok (), s') ∧
      Alike s s' ∧ s'.records = if length < least ∨ full s.records = true then s.records
        else record (table.bytes memory offset) s.records := by
  have hallows : AcpiUse.content.Allows memory table := hsound
  unfold acpiRecordWhere
  by_cases hshort : length < least
  · rw [if_pos hshort, if_pos (Or.inl hshort)]
    exact ⟨_, rfl, ⟨rfl, rfl, rfl⟩, rfl⟩
  rw [if_neg hshort, outcome_bind, outcome_get]
  dsimp only
  by_cases hfull : full s.records = true
  · rw [if_pos hfull, if_pos (Or.inr hfull)]
    exact ⟨_, rfl, ⟨rfl, rfl, rfl⟩, rfl⟩
  · have hentry : offset + least ≤ table.length := by omega
    rw [if_neg hfull, if_neg (not_or.mpr ⟨hshort, hfull⟩), outcome_bind,
      outcome_readMapped hlive hallows hentry]
    exact ⟨_, rfl, ⟨rfl, rfl, rfl⟩, rfl⟩

theorem outcome_recorded (hlive : table ∈ s.live) (hsound : table.Sound memory)
    {offset length least : ℕ} (hle : offset + length ≤ table.length) {full : AcpiRecords → Bool}
    {record : Bytes → AcpiRecords → AcpiRecords} (found : MadtStructure)
    (hadd : (if full s.records = true then s.records
      else record (table.bytes memory offset) s.records) = s.records.add found) :
    ∃ s', outcome (acpiRecordWhere memory table offset length least full record) s = (.ok (), s') ∧
      Alike s s' ∧ s'.records =
        (if length < least then none else some found).elim s.records s.records.add := by
  obtain ⟨s', houtcome, halike, hrecords⟩ :=
    outcome_acpiRecordWhere hlive hsound hle full record
  refine ⟨s', houtcome, halike, hrecords.trans ?_⟩
  by_cases hshort : length < least
  · rw [if_pos (Or.inl hshort), if_pos hshort]
    rfl
  · rw [if_neg hshort]
    simpa [hshort] using hadd

theorem fill_addWithin {α : Type} {records : AcpiRecords} (capacity : ℕ) {items : List α} (item : α)
    (fill : List α → AcpiRecords) (hself : fill items = records) :
    (if decide (items.length ≥ capacity) = true then records else fill (items ++ [item])) =
      fill (addWithin capacity items item) := by
  unfold addWithin
  simp only [decide_eq_true_eq]
  by_cases hfull : items.length ≥ capacity
  · rw [if_pos hfull, if_pos hfull, hself]
  · rw [if_neg hfull, if_neg hfull]

theorem outcome_acpiRecordMadtEntry (hlive : table ∈ s.live) (hsound : table.Sound memory)
    {offset : ℕ} (hle : offset + (table.bytes memory offset 1).toNat ≤ table.length) :
    ∃ s', outcome (acpiRecordMadtEntry memory table offset (table.bytes memory offset 0)
        (table.bytes memory offset 1).toNat) s = (.ok (), s') ∧ Alike s s' ∧
      s'.records = (madtStructure (table.bytes memory offset)).elim s.records s.records.add := by
  have hallows : AcpiUse.content.Allows memory table := hsound
  unfold acpiRecordMadtEntry madtStructure
  dsimp only
  generalize (table.bytes memory offset 0).toNat = type
  split
  · exact outcome_recorded hlive hsound hle (.processor (localApicProcessor _))
      (fill_addWithin acpiProcessorMaximum _ (fun processors ↦ { s.records with processors }) rfl)
  · exact outcome_recorded hlive hsound hle (.processor (localX2ApicProcessor _))
      (fill_addWithin acpiProcessorMaximum _ (fun processors ↦ { s.records with processors }) rfl)
  · exact outcome_recorded hlive hsound hle (.ioApic (entryIoApic _))
      (fill_addWithin acpiIoApicMaximum _ (fun ioApics ↦ { s.records with ioApics }) rfl)
  · exact outcome_recorded hlive hsound hle (.override (entryOverride _))
      (fill_addWithin acpiOverrideMaximum _ (fun overrides ↦ { s.records with overrides }) rfl)
  · exact outcome_recorded hlive hsound hle (.localNmi (entryLocalNmi _))
      (fill_addWithin acpiLocalNmiMaximum _ (fun localNmis ↦ { s.records with localNmis }) rfl)
  · by_cases hshort : (table.bytes memory offset 1).toNat < 12
    · rw [if_pos hshort]
      exact ⟨_, rfl, ⟨rfl, rfl, rfl⟩, rfl⟩
    · have hentry : offset + 12 ≤ table.length := by omega
      rw [if_neg hshort, outcome_bind, outcome_readMapped hlive hallows hentry]
      exact ⟨_, rfl, ⟨rfl, rfl, rfl⟩, rfl⟩
  · split
    all_goals first
      | contradiction
      | exact ⟨_, rfl, ⟨rfl, rfl, rfl⟩, rfl⟩

theorem Alike.trans {s' s'' : AcpiState} (h : Alike s s') (h' : Alike s' s'') : Alike s s'' :=
  ⟨h'.live.trans h.live, h'.calls.trans h.calls, h'.madtParsed.trans h.madtParsed⟩

theorem outcome_acpiParseEntries (hlive : table ∈ s.live) (hsound : table.Sound memory)
    (offset : ℕ) : ∃ s', outcome (acpiParseEntries memory table offset) s = (.ok (), s') ∧
      Alike s s' ∧ s'.records = ((madtEntries memory table offset).filterMap fun entry ↦
        madtStructure (table.bytes memory entry)).foldl AcpiRecords.add s.records := by
  have hallows : AcpiUse.content.Allows memory table := hsound
  fun_induction madtEntries memory table offset generalizing s with
  | case1 offset length hmore =>
      rename_i hbad
      rw [acpiParseEntries, dif_pos hmore, outcome_bind, outcome_readMapped hlive hallows hmore]
      dsimp only
      rw [dif_pos hbad]
      exact ⟨s, rfl, ⟨rfl, rfl, rfl⟩, rfl⟩
  | case2 offset length hmore hbad =>
      rename_i ih
      obtain ⟨-, hend⟩ := not_or.mp hbad
      obtain ⟨s₁, hrecord, halike, hrecords⟩ :=
        outcome_acpiRecordMadtEntry hlive hsound (Nat.not_lt.mp hend)
      obtain ⟨s₂, hwalk, halike', hrecords'⟩ := @ih s₁ (halike.live ▸ hlive)
      rw [acpiParseEntries, dif_pos hmore, outcome_bind, outcome_readMapped hlive hallows hmore]
      dsimp only
      rw [dif_neg hbad, outcome_bind, hrecord]
      refine ⟨s₂, hwalk, halike.trans halike', hrecords'.trans ?_⟩
      rw [hrecords, List.filterMap_cons]
      cases madtStructure (table.bytes memory offset) <;> rfl
  | case3 offset hmore =>
      rw [acpiParseEntries, dif_neg hmore]
      exact ⟨s, rfl, ⟨rfl, rfl, rfl⟩, rfl⟩

def consumed (memory : UInt64 → UInt8) (found : Bool × AcpiRecords) (table : AcpiMapping) :
    Bool × AcpiRecords :=
  if table.IsMadt memory ∧ found.1 = false then
    (true, (madtStructures memory table).foldl AcpiRecords.add found.2)
  else found

theorem outcome_acpiSignatureMatches (hlive : table ∈ s.live) (hsound : table.Sound memory)
    (signature : String) : outcome (acpiSignatureMatches memory table signature) s =
      (.ok (decide (table.Bears memory signature)), s) := by
  have hallows : AcpiUse.content.Allows memory table := hsound
  have hfour : 0 + 4 ≤ table.length := (by decide : 0 + 4 ≤ acpiHeaderLength).trans hsound.1.2.1
  unfold acpiSignatureMatches
  rw [outcome_bind, outcome_readMapped hlive hallows hfour]
  rfl

theorem outcome_acpiParseMadt (hlive : table ∈ s.live) (hsound : table.Sound memory)
    (hbears : table.Bears memory "APIC") (hnot : s.madtParsed = false) :
    ∃ s', outcome (acpiParseMadt memory table) s = (.ok (), s') ∧ s'.live = s.live ∧
      s'.calls = s.calls ∧
      (s'.madtParsed, s'.records) = consumed memory (s.madtParsed, s.records) table := by
  have hallows : AcpiUse.content.Allows memory table := hsound
  unfold acpiParseMadt consumed
  by_cases hshort : table.length < acpiMadtOffsetEntries
  · have hmadt : ¬table.IsMadt memory := fun h ↦ Nat.not_lt.mpr h.2 hshort
    rw [if_pos hshort, if_neg fun h ↦ hmadt h.1]
    exact ⟨s, rfl, rfl, rfl, rfl⟩
  · have hmadt : table.IsMadt memory := ⟨hbears, Nat.not_lt.mp hshort⟩
    have hheader : acpiHeaderLength + 8 ≤ table.length := hmadt.2
    rw [if_neg hshort, if_pos ⟨hmadt, hnot⟩, outcome_bind, outcome_readMapped hlive hallows hheader]
    dsimp only
    rw [outcome_bind, outcome_modify]
    dsimp only
    rw [outcome_bind]
    obtain ⟨s', hwalk, halike, hrecords⟩ := @outcome_acpiParseEntries memory
      { s with
        localControllerAddress := (acpiRead32 (table.bytes memory acpiHeaderLength) 0).toUInt64
        dualPic := acpiRead32 (table.bytes memory acpiHeaderLength) 4 &&& 1 ≠ 0 } table hlive hsound
      acpiMadtOffsetEntries
    rw [hwalk]
    exact ⟨_, rfl, halike.live, halike.calls, congrArg (Prod.mk true) hrecords⟩

theorem outcome_acpiConsumeTable (address : UInt64) (s : AcpiState) :
    ∃ s', outcome (acpiConsumeTable memory maps address) s = (.ok (), s') ∧ s'.live = s.live ∧
      s'.calls = (tableAt memory maps s.calls address).2 ∧ (s'.madtParsed, s'.records) =
        (tableAt memory maps s.calls address).1.toList.foldl (consumed memory)
          (s.madtParsed, s.records) := by
  obtain ⟨s₁, hmap, hlive, hcalls, hparsed, hrecords⟩ :=
    @outcome_acpiMapTable memory maps address s
  unfold acpiConsumeTable
  rw [outcome_bind, hmap]
  dsimp only
  cases htable : (tableAt memory maps s.calls address).1 with
  | none =>
      rw [htable] at hlive
      exact ⟨s₁, rfl, hlive, hcalls, by rw [hparsed, hrecords]; rfl⟩
  | some table =>
      rw [htable] at hlive
      have hsound := tableAt_sound htable
      have hallows : AcpiUse.content.Allows memory table := hsound
      have hfour : 0 + 4 ≤ table.length :=
        (by decide : 0 + 4 ≤ acpiHeaderLength).trans hsound.1.2.1
      have hmem : table ∈ s₁.live := hlive ▸ List.mem_cons_self
      dsimp only
      rw [outcome_bind, outcome_readMapped hmem hallows hfour]
      dsimp only
      rw [outcome_bind, outcome_modify]
      dsimp only
      generalize hnoted : (if s₁.signatures.length < acpiTableMaximum then
        { s₁ with signatures := s₁.signatures ++ [(List.range 4).map (table.bytes memory 0)] }
        else { s₁ with truncated := true }) = s₂
      obtain ⟨halike, hkept⟩ : Alike s₁ s₂ ∧ s₂.records = s₁.records := by
        subst hnoted
        split_ifs <;> exact ⟨⟨rfl, rfl, rfl⟩, rfl⟩
      rw [← halike.live] at hmem hlive
      rw [outcome_bind, outcome_acpiSignatureMatches hmem hsound]
      dsimp only
      rw [outcome_bind, outcome_get]
      dsimp only
      have hfinish : ∀ s₃ : AcpiState, s₃.live = s₂.live → s₃.calls = s₂.calls →
          (s₃.madtParsed, s₃.records) = consumed memory (s₂.madtParsed, s₂.records) table →
          ∃ s', outcome (kernelDeviceUnmap table) s₃ = (.ok (), s') ∧ s'.live = s.live ∧
            s'.calls = (tableAt memory maps s.calls address).2 ∧
            (s'.madtParsed, s'.records) = consumed memory (s.madtParsed, s.records) table := by
        intro s₃ hlive' hcalls' hfound
        rw [halike.madtParsed, hkept, hparsed, hrecords] at hfound
        refine ⟨_, outcome_kernelDeviceUnmap (hlive' ▸ hmem), ?_,
          hcalls'.trans (halike.calls.trans hcalls), hfound⟩
        change s₃.live.erase table = s.live
        rw [hlive', hlive]
        exact List.erase_cons_head ..
      by_cases hparse : decide (table.Bears memory "APIC") = true ∧ s₂.madtParsed = false
      · obtain ⟨s₃, hrun, hlive', hcalls', hfound⟩ :=
          outcome_acpiParseMadt hmem hsound (of_decide_eq_true hparse.1) hparse.2
        rw [if_pos hparse, outcome_bind, hrun]
        exact hfinish s₃ hlive' hcalls' hfound
      · have hnot : ¬(table.IsMadt memory ∧ s₂.madtParsed = false) :=
          fun h ↦ hparse ⟨decide_eq_true h.1.1, h.2⟩
        rw [if_neg hparse]
        exact hfinish s₂ rfl rfl (if_neg hnot).symm

theorem outcome_acpiMapDirectory (address : UInt64) (signature : String) (s : AcpiState) :
    ∃ s', outcome (acpiMapDirectory memory maps address signature) s =
        (.ok (directoryAt memory maps s.calls address signature).1, s') ∧
      s'.live = (directoryAt memory maps s.calls address signature).1.toList ++ s.live ∧
      s'.calls = (directoryAt memory maps s.calls address signature).2 ∧
      s'.madtParsed = s.madtParsed ∧ s'.records = s.records := by
  obtain ⟨s₁, hmap, hlive, hcalls, hparsed, hrecords⟩ :=
    @outcome_acpiMapTable memory maps address s
  unfold acpiMapDirectory directoryAt
  rw [outcome_bind, hmap]
  dsimp only
  cases htable : (tableAt memory maps s.calls address).1 with
  | none =>
      rw [htable] at hlive
      exact ⟨s₁, rfl, hlive, hcalls, hparsed, hrecords⟩
  | some table =>
      rw [htable] at hlive
      have hmem : table ∈ s₁.live := hlive ▸ List.mem_cons_self
      dsimp only
      rw [outcome_bind, outcome_acpiSignatureMatches hmem (tableAt_sound htable)]
      dsimp only
      by_cases hbears : table.Bears memory signature
      · rw [if_pos (decide_eq_true hbears), Option.filter_some, if_pos (decide_eq_true hbears)]
        exact ⟨s₁, rfl, hlive, hcalls, hparsed, hrecords⟩
      · rw [if_neg (by simpa using hbears), Option.filter_some, if_neg (by simpa using hbears),
          outcome_bind, outcome_kernelDeviceUnmap hmem]
        refine ⟨_, rfl, ?_, hcalls, hparsed, hrecords⟩
        change s₁.live.erase table = s.live
        rw [hlive]
        exact List.erase_cons_head ..

theorem outcome_acpiConsumeEntries (hlive : table ∈ s.live) (hsound : table.Sound memory)
    {width : ℕ} {indexes : List ℕ}
    (hwithin : ∀ index ∈ indexes, acpiHeaderLength + index * width + width ≤ table.length) :
    ∃ s', outcome (acpiConsumeEntries memory maps table width indexes) s = (.ok (), s') ∧
      s'.live = s.live ∧ (s'.madtParsed, s'.records) =
        (tablesAt memory maps s.calls (indexes.map (listedAddress memory table width))).foldl
          (consumed memory) (s.madtParsed, s.records) := by
  have hallows : AcpiUse.content.Allows memory table := hsound
  induction indexes generalizing s with
  | nil => exact ⟨s, rfl, rfl, rfl⟩
  | cons index rest ih =>
      have hslot := hwithin index List.mem_cons_self
      unfold acpiConsumeEntries
      rw [outcome_bind, outcome_readMapped hlive hallows hslot]
      dsimp only
      obtain ⟨s₁, hconsume, hlive', hcalls, hfound⟩ :=
        @outcome_acpiConsumeTable memory maps (listedAddress memory table width index) s
      change ∃ s', outcome (acpiConsumeTable memory maps
        (listedAddress memory table width index) >>= fun _ ↦
          acpiConsumeEntries memory maps table width rest) s = _ ∧ _
      rw [outcome_bind, hconsume]
      obtain ⟨s₂, hrest, hlive'', hfound'⟩ := @ih s₁ (hlive' ▸ hlive)
        fun other hother ↦ hwithin other (List.mem_cons_of_mem index hother)
      refine ⟨s₂, hrest, hlive''.trans hlive', hfound'.trans ?_⟩
      rw [hfound, hcalls, List.map_cons, tablesAt, List.foldl_append]

theorem foldl_consumed (tables : List AcpiMapping) (records : AcpiRecords) :
    (tables.foldl (consumed memory) (false, records)).2 =
      (tables.find? fun table ↦ decide (table.IsMadt memory)).elim records fun madt ↦
        (madtStructures memory madt).foldl AcpiRecords.add records := by
  induction tables with
  | nil => rfl
  | cons table tables ih =>
      rw [List.foldl_cons, List.find?_cons]
      by_cases hmadt : table.IsMadt memory
      · have hrest : ∀ found : AcpiRecords,
            tables.foldl (consumed memory) (true, found) = (true, found) := by
          intro found
          clear ih
          induction tables with
          | nil => rfl
          | cons other tables ih =>
              rw [List.foldl_cons, consumed, if_neg (by simp), ih]
        rw [consumed, if_pos ⟨hmadt, rfl⟩, hrest, decide_eq_true hmadt]
        rfl
      · rw [consumed, if_neg fun h ↦ hmadt h.1, ih, decide_eq_false hmadt]

structure Walked (memory : UInt64 → UInt8) (live : List AcpiMapping) (tables : List AcpiMapping)
    (s : AcpiState) : Prop where
  live : s.live = live
  records : s.records = recordsOf
    (((tables.find? fun table ↦ decide (table.IsMadt memory)).map (madtStructures memory)).getD [])

theorem Walked.of_found {live tables : List AcpiMapping} (hlive : s.live = live)
    (hfound : (s.madtParsed, s.records) =
      tables.foldl (consumed memory) (false, ⟨[], [], [], []⟩)) :
    Walked memory live tables s := by
  refine ⟨hlive, ?_⟩
  have hrecords := congrArg Prod.snd hfound
  rw [foldl_consumed] at hrecords
  have hfits : AcpiRecords.Fits ⟨[], [], [], []⟩ :=
    ⟨Nat.zero_le _, Nat.zero_le _, Nat.zero_le _, Nat.zero_le _⟩
  refine hrecords.trans ?_
  cases tables.find? fun table ↦ decide (table.IsMadt memory) with
  | none => rfl
  | some madt => exact foldl_add hfits (madtStructures memory madt)

theorem outcome_acpiConsumeDirectory {directory : AcpiMapping} {live : List AcpiMapping}
    (hlive : s.live = directory :: live) (hsound : directory.Sound memory) {width : ℕ}
    (hstart : (s.madtParsed, s.records) = (false, ⟨[], [], [], []⟩)) :
    ∃ s', outcome (acpiConsumeDirectory memory maps directory width) s = (.ok true, s') ∧
      Walked memory live (tablesOf memory maps (some (directory, width), s.calls)) s' := by
  have hwithin : ∀ index ∈ List.range ((directory.length - acpiHeaderLength) / width),
      acpiHeaderLength + index * width + width ≤ directory.length := by
    intro index hindex
    have hleast := hsound.1.2.1
    have hslots := Nat.mul_le_mul_right width (List.mem_range.mp hindex)
    have hroom := Nat.div_mul_le_self (directory.length - acpiHeaderLength) width
    rw [Nat.succ_mul] at hslots
    omega
  unfold acpiConsumeDirectory
  rw [outcome_bind, outcome_modify]
  dsimp only
  obtain ⟨s₁, hrun, hlive', hfound⟩ := @outcome_acpiConsumeEntries memory maps
    { s with directory := directory.address, directoryExtended := width = 8 } directory
    (hlive ▸ List.mem_cons_self) hsound width _ hwithin
  rw [outcome_bind, hrun]
  dsimp only
  rw [outcome_bind, outcome_kernelDeviceUnmap (by rw [hlive', hlive]; exact List.mem_cons_self)]
  refine ⟨_, rfl, Walked.of_found ?_ (by rw [← hstart]; exact hfound)⟩
  change s₁.live.erase directory = live
  rw [hlive', hlive]
  exact List.erase_cons_head ..

theorem directoryAt_sound {calls : ℕ} {address : UInt64} {signature : String}
    (h : (directoryAt memory maps calls address signature).1 = some table) :
    table.Sound memory :=
  tableAt_sound (Option.filter_eq_some_iff.mp h).1

theorem outcome_acpiWalkRoot {live : List AcpiMapping} (hlive : s.live = live)
    (hstart : (s.madtParsed, s.records) = (false, ⟨[], [], [], []⟩)) (root : UInt64) :
    ∃ s', outcome (acpiWalkRoot memory maps root) s =
        (.ok (directoryAt memory maps s.calls root "RSDT").1.isSome, s') ∧
      Walked memory live (tablesOf memory maps
        ((directoryAt memory maps s.calls root "RSDT").1.map (·, 4),
          (directoryAt memory maps s.calls root "RSDT").2)) s' := by
  obtain ⟨s₁, hmap, hlive₁, hcalls, hparsed, hrecords⟩ :=
    @outcome_acpiMapDirectory memory maps root "RSDT" s
  rw [← hparsed, ← hrecords] at hstart
  unfold acpiWalkRoot
  rw [outcome_bind, hmap]
  dsimp only
  cases hfound : (directoryAt memory maps s.calls root "RSDT").1 with
  | none =>
      rw [hfound] at hlive₁
      exact ⟨s₁, rfl, Walked.of_found (hlive₁.trans hlive) hstart⟩
  | some directory =>
      rw [hfound, hlive] at hlive₁
      rw [← hcalls]
      exact outcome_acpiConsumeDirectory hlive₁ (directoryAt_sound hfound) hstart

/-- Whatever memory holds and whichever mappings find room, the walk of the directory ends and
comes to no error: every byte is read within a mapping in force, and but for the length in a header
within a table of its own declared length, which lies between the header's and the maximum and,
but for the sum itself, sums to zero.  It withdraws every mapping it has made, and records the
structures of the first MADT in order. -/
theorem acpiWalkDirectory_exact (memory : UInt64 → UInt8) (maps : ℕ → Bool)
    (live : List AcpiMapping) (pointer : UInt64) (revision : UInt8) :
    ∃ s', outcome (acpiWalkDirectory memory maps pointer revision) (acpiStart live) =
        (.ok (directoryOf memory maps pointer revision).1.isSome, s') ∧
      Walked memory live (directoryTables memory maps pointer revision) s' := by
  unfold acpiWalkDirectory directoryTables directoryOf
  rw [outcome_bind, outcome_modify]
  dsimp only
  generalize acpiRead64 (physicalBytes memory pointer) 24 = extended
  generalize (acpiRead32 (physicalBytes memory pointer) 16).toUInt64 = root
  rw [outcome_bind]
  by_cases hextended : revision ≥ 2 ∧ extended ≠ 0
  · obtain ⟨s₁, hmap, hlive, hcalls, hparsed, hrecords⟩ :=
      @outcome_acpiMapDirectory memory maps extended "XSDT"
        { acpiStart live with directory := 0, directoryExtended := false }
    have hstart : (s₁.madtParsed, s₁.records) = (false, ⟨[], [], [], []⟩) := by
      rw [hparsed, hrecords]
      rfl
    rw [if_pos hextended, if_pos hextended, hmap]
    change s₁.live = (directoryAt memory maps 0 extended "XSDT").1.toList ++ live at hlive
    change s₁.calls = (directoryAt memory maps 0 extended "XSDT").2 at hcalls
    dsimp only
    change ∃ s', outcome (match (directoryAt memory maps 0 extended "XSDT").1 with
      | some directory => acpiConsumeDirectory memory maps directory 8
      | none => acpiWalkRoot memory maps root) s₁ = _ ∧ _
    cases hfound : (directoryAt memory maps 0 extended "XSDT").1 with
    | some directory =>
        rw [hfound] at hlive
        rw [← hcalls]
        exact outcome_acpiConsumeDirectory hlive (directoryAt_sound hfound) hstart
    | none =>
        rw [hfound] at hlive
        rw [← hcalls]
        dsimp only
        rw [Option.isSome_map]
        exact outcome_acpiWalkRoot hlive hstart root
  · rw [if_neg hextended, if_neg hextended, outcome_pure]
    dsimp only
    rw [Option.isSome_map]
    exact @outcome_acpiWalkRoot memory maps
      { acpiStart live with directory := 0, directoryExtended := false } live rfl rfl root

end OxysOS.Acpi
