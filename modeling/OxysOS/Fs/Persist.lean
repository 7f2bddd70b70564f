import OxysOS.Fs.Ext2.Superblock
import OxysOS.Fs.Vfs.Layer
import OxysOS.Userland.Files
import Mathlib.Data.List.TakeDrop

/-!
# The persistent volume

The regular files of a directory are read before a volume covers it, and each that the volume
lacks is then created upon it, exclusively, and written.
-/

namespace OxysOS.Fs

open OxysOS.Userland.Files (WriteOutcome)

def persistSeedFilesMaximum : ℕ := 16

def persistSeedFileBytes : ℕ := 16 * 1024

def ext2ErrorFs : UInt16 := 2

abbrev EntryName := List UInt8

abbrev Directory := EntryName → Option (List UInt8)

structure CoveredEntry where
  name : EntryName
  regular : Option ℕ
  permissions : UInt16
  contents : Option (List UInt8)

structure CoveredDirectory where
  entries : List CoveredEntry
  nodup : (entries.map (·.name)).Nodup

structure PersistSeed where
  name : EntryName
  permissions : UInt16
  bytes : List UInt8

/-- `PersistReport`, but for the name of the device. -/
structure PersistReport where
  found : Bool
  mounted : Bool
  readOnly : Bool
  errors : Bool
  markedClean : Bool
  seeded : ℕ
  kept : ℕ
  skipped : ℕ

def PersistReport.zero : PersistReport := ⟨false, false, false, false, false, 0, 0, 0⟩

def isDot (name : EntryName) : Prop := name = [0x2E] ∨ name = [0x2E, 0x2E]

instance (name : EntryName) : Decidable (isDot name) := inferInstanceAs (Decidable (_ ∨ _))

/-- The loop of `PersistReadSeeds` -/
def persistReadSeeds (point : List UInt8) :
    List CoveredEntry → List PersistSeed → PersistReport → List PersistSeed × PersistReport
  | [], seeds, report => (seeds, report)
  | entry :: entries, seeds, report =>
      let skipped := { report with skipped := report.skipped + 1 }
      if isDot entry.name then persistReadSeeds point entries seeds report
      else if point.length + 1 + entry.name.length > vfsPathMaximum then
        persistReadSeeds point entries seeds skipped
      else match entry.regular with
        | none => persistReadSeeds point entries seeds report
        | some size =>
            if seeds.length = persistSeedFilesMaximum ∨ size > persistSeedFileBytes then
              persistReadSeeds point entries seeds skipped
            else match entry.contents with
              | none => persistReadSeeds point entries seeds skipped
              | some bytes =>
                  if bytes.length ≠ size then persistReadSeeds point entries seeds skipped
                  else persistReadSeeds point entries
                    (seeds ++ [⟨entry.name, entry.permissions, bytes⟩]) report

inductive CreateOutcome
  | opened | unopened | refused
  deriving DecidableEq

structure SeedCalls where
  create : ℕ → CreateOutcome
  write : ℕ → WriteOutcome

/-- The loop of `PersistWriteSeeds` -/
def persistWriteSeeds (calls : SeedCalls) :
    List PersistSeed → ℕ → Directory → PersistReport → Directory × PersistReport
  | [], _, directory, report => (directory, report)
  | seed :: seeds, index, directory, report =>
      let kept := { report with kept := report.kept + 1 }
      if directory seed.name ≠ none then persistWriteSeeds calls seeds (index + 1) directory kept
      else match calls.create index with
        | .refused => persistWriteSeeds calls seeds (index + 1) directory kept
        | .unopened =>
            -- The name is in the directory by the time that its node cannot be acquired.
            persistWriteSeeds calls seeds (index + 1)
              (Function.update directory seed.name (some [])) kept
        | .opened =>
            let outcome := calls.write index
            persistWriteSeeds calls seeds (index + 1)
              (Function.update directory seed.name (some (seed.bytes.take outcome.taken)))
              (if outcome.Whole seed.bytes then { report with seeded := report.seeded + 1 }
                else { report with skipped := report.skipped + 1 })

/-- What `PersistMountDevice` finds of a device, and which of its calls fail. -/
structure PersistDevice where
  superblock : Option Ext2.Superblock
  cleanFails : Bool
  mountFails : Bool
  mountReadOnly : Option Bool
  calls : SeedCalls

def persistMayClean (volume : Ext2.Superblock) : Prop :=
  volume.state &&& ext2ErrorFs = 0 ∧ volume.state &&& Ext2.ext2ValidFs = 0 ∧
    volume.featureReadOnly &&& ~~~Ext2.ext2FeaturesRoCompatSupported = 0

instance (volume : Ext2.Superblock) : Decidable (persistMayClean volume) :=
  inferInstanceAs (Decidable (_ ∧ _))

/-- `PersistMountDevice`, with what it leaves in the directory of the volume. -/
def persistMountDevice (device : PersistDevice) (point : List UInt8) (covered : CoveredDirectory)
    (directory : Directory) : Bool × PersistReport × Directory :=
  match device.superblock with
  | none => (false, .zero, directory)
  | some volume =>
      let report := { PersistReport.zero with
        found := true
        markedClean := persistMayClean volume ∧ ¬device.cleanFails }
      let (seeds, report) := persistReadSeeds point covered.entries [] report
      if device.mountFails then (false, report, directory)
      else
        let errors : Bool := volume.state &&& ext2ErrorFs ≠ 0
        let readOnly := device.mountReadOnly.getD errors
        let report := { report with mounted := true, errors, readOnly }
        if readOnly then (true, report, directory)
        else
          let (directory, report) := persistWriteSeeds device.calls seeds 0 directory report
          (true, report, directory)

def seedsOf (point : List UInt8) (covered : CoveredDirectory) : List PersistSeed :=
  (persistReadSeeds point covered.entries [] .zero).1

theorem persistReadSeeds_eq (point : List UInt8) (entries : List CoveredEntry)
    (seeds : List PersistSeed) :
    ∃ more, (more.map (·.name)).Sublist (entries.map (·.name)) ∧
      ∀ report, (persistReadSeeds point entries seeds report).1 = seeds ++ more := by
  induction entries generalizing seeds with
  | nil => exact ⟨[], List.Sublist.refl _, fun report ↦ (List.append_nil seeds).symm⟩
  | cons entry entries ih =>
      obtain ⟨more, hsublist, hmore⟩ := ih seeds
      have hpassed : (more.map (·.name)).Sublist ((entry :: entries).map (·.name)) :=
        hsublist.cons _
      unfold persistReadSeeds
      dsimp only
      by_cases hdot : isDot entry.name
      · exact ⟨more, hpassed, fun report ↦ by rw [if_pos hdot, hmore]⟩
      by_cases hlong : point.length + 1 + entry.name.length > vfsPathMaximum
      · exact ⟨more, hpassed, fun report ↦ by rw [if_neg hdot, if_pos hlong, hmore]⟩
      cases hregular : entry.regular with
      | none =>
          refine ⟨more, hpassed, fun report ↦ ?_⟩
          rw [if_neg hdot, if_neg hlong]
          exact hmore report
      | some size =>
          by_cases hfull : seeds.length = persistSeedFilesMaximum ∨ size > persistSeedFileBytes
          · refine ⟨more, hpassed, fun report ↦ ?_⟩
            rw [if_neg hdot, if_neg hlong]
            dsimp only
            rw [if_pos hfull, hmore]
          cases hcontents : entry.contents with
          | none =>
              refine ⟨more, hpassed, fun report ↦ ?_⟩
              rw [if_neg hdot, if_neg hlong]
              dsimp only
              rw [if_neg hfull]
              exact hmore _
          | some bytes =>
              by_cases hshort : bytes.length ≠ size
              · refine ⟨more, hpassed, fun report ↦ ?_⟩
                rw [if_neg hdot, if_neg hlong]
                dsimp only
                rw [if_neg hfull, if_pos hshort, hmore]
              · obtain ⟨more', hsublist', hmore'⟩ :=
                  ih (seeds ++ [⟨entry.name, entry.permissions, bytes⟩])
                refine ⟨⟨entry.name, entry.permissions, bytes⟩ :: more',
                  hsublist'.cons_cons entry.name, fun report ↦ ?_⟩
                rw [if_neg hdot, if_neg hlong]
                dsimp only
                rw [if_neg hfull, if_neg hshort, hmore', List.append_assoc,
                  List.singleton_append]

theorem seedsOf_nodup (point : List UInt8) (covered : CoveredDirectory) :
    ((seedsOf point covered).map (·.name)).Nodup ∧
      ∀ report, (persistReadSeeds point covered.entries [] report).1 = seedsOf point covered := by
  obtain ⟨more, hsublist, hmore⟩ := persistReadSeeds_eq point covered.entries []
  unfold seedsOf
  rw [hmore]
  exact ⟨hsublist.nodup covered.nodup, hmore⟩

variable {calls : SeedCalls} {seeds : List PersistSeed} {directory : Directory} {name : EntryName}

def seedLeft (calls : SeedCalls) (seed : PersistSeed) (index : ℕ) : Option (List UInt8) :=
  match calls.create index with
  | .refused => none
  | .unopened => some []
  | .opened => some (seed.bytes.take (calls.write index).taken)

def seededAs (calls : SeedCalls) (directory : Directory) (seed : PersistSeed) (index : ℕ) :
    Option (List UInt8) :=
  if directory seed.name = none then seedLeft calls seed index else directory seed.name

theorem persistWriteSeeds_cons (calls : SeedCalls) (seed : PersistSeed) (seeds : List PersistSeed)
    (index : ℕ) (directory : Directory) (report : PersistReport) :
    ∃ report', persistWriteSeeds calls (seed :: seeds) index directory report =
      persistWriteSeeds calls seeds (index + 1)
        (Function.update directory seed.name (seededAs calls directory seed index)) report' := by
  rw [persistWriteSeeds]
  unfold seededAs seedLeft
  dsimp only
  by_cases hnone : directory seed.name = none
  · rw [if_neg (not_not.mpr hnone), if_pos hnone]
    have hleft : Function.update directory seed.name none = directory :=
      (congrArg _ hnone.symm).trans (Function.update_eq_self _ _)
    cases calls.create index with
    | refused =>
        dsimp only
        rw [hleft]
        exact ⟨_, rfl⟩
    | unopened => exact ⟨_, rfl⟩
    | opened => exact ⟨_, rfl⟩
  · rw [if_pos hnone, if_neg hnone, Function.update_eq_self]
    exact ⟨_, rfl⟩

theorem persistWriteSeeds_other (calls : SeedCalls) (directory : Directory) (index : ℕ)
    (report : PersistReport) (h : ∀ seed ∈ seeds, seed.name ≠ name) :
    (persistWriteSeeds calls seeds index directory report).1 name = directory name := by
  induction seeds generalizing index directory report with
  | nil => rfl
  | cons seed seeds ih =>
      obtain ⟨report', hcons⟩ := persistWriteSeeds_cons calls seed seeds index directory report
      have hrest : ∀ seed ∈ seeds, seed.name ≠ name :=
        fun seed hmem ↦ h seed (List.mem_cons_of_mem _ hmem)
      rw [hcons, ih _ _ _ hrest]
      exact Function.update_of_ne (h seed List.mem_cons_self).symm _ _

theorem persistWriteSeeds_seed (calls : SeedCalls) (directory : Directory) (index : ℕ)
    (report : PersistReport) (hnodup : (seeds.map (·.name)).Nodup) {i : ℕ} (hi : i < seeds.length) :
    (persistWriteSeeds calls seeds index directory report).1 seeds[i].name =
      seededAs calls directory seeds[i] (index + i) := by
  induction seeds generalizing index directory report i with
  | nil => exact absurd hi (Nat.not_lt_zero i)
  | cons seed seeds ih =>
      obtain ⟨hnew, hrest⟩ := List.nodup_cons.mp hnodup
      have hother : ∀ other ∈ seeds, other.name ≠ seed.name := fun other hmem hsame ↦
        hnew (List.mem_map.mpr ⟨other, hmem, hsame⟩)
      obtain ⟨report', hcons⟩ := persistWriteSeeds_cons calls seed seeds index directory report
      rw [hcons]
      cases i with
      | zero =>
          rw [List.getElem_cons_zero, persistWriteSeeds_other _ _ _ _ hother]
          exact Function.update_self _ _ _
      | succ i =>
          have hi' : i < seeds.length := Nat.lt_of_succ_lt_succ hi
          have hindex : index + 1 + i = index + (i + 1) := by omega
          have hne : seeds[i].name ≠ seed.name := hother _ (List.getElem_mem hi')
          rw [List.getElem_cons_succ, ih _ _ _ hrest hi', hindex]
          unfold seededAs
          rw [Function.update_of_ne hne]

/-- Every name holds what it held, or is of a seed, which it lacked and holds the whole of. -/
def SeededWhole (before after : Directory) (seeds : List PersistSeed) : Prop :=
  ∀ name, after name = before name ∨
    before name = none ∧ ∃ seed ∈ seeds, seed.name = name ∧ after name = some seed.bytes

def LeavesWhole (calls : SeedCalls) (seed : PersistSeed) (index : ℕ) : Prop :=
  match calls.create index with
  | .refused => True
  | .unopened => seed.bytes = []
  | .opened => seed.bytes.length ≤ (calls.write index).taken

theorem leavesWhole_iff (calls : SeedCalls) (seed : PersistSeed) (index : ℕ) :
    LeavesWhole calls seed index ↔
      seedLeft calls seed index = none ∨ seedLeft calls seed index = some seed.bytes := by
  unfold LeavesWhole seedLeft
  cases calls.create index with
  | refused => simp
  | unopened => simp [eq_comm]
  | opened => simp [List.take_eq_self_iff]

def WritesWhole (calls : SeedCalls) (directory : Directory) (seeds : List PersistSeed) : Prop :=
  ∀ i (h : i < seeds.length), directory seeds[i].name = none → LeavesWhole calls seeds[i] i

theorem persistWriteSeeds_whole_iff (report : PersistReport)
    (hnodup : (seeds.map (·.name)).Nodup) :
    SeededWhole directory (persistWriteSeeds calls seeds 0 directory report).1 seeds ↔
      WritesWhole calls directory seeds := by
  have hseed : ∀ i (hi : i < seeds.length),
      (persistWriteSeeds calls seeds 0 directory report).1 seeds[i].name =
        seededAs calls directory seeds[i] i := fun i hi ↦ by
    rw [persistWriteSeeds_seed calls directory 0 report hnodup hi, Nat.zero_add]
  constructor
  · intro h i hi hnone
    have hi' := hseed i hi
    unfold seededAs at hi'
    rw [if_pos hnone] at hi'
    refine (leavesWhole_iff _ _ _).mpr ?_
    rcases h seeds[i].name with hheld | ⟨-, seed, hmem, hname, hleft⟩
    · exact Or.inl (hi'.symm.trans (hheld.trans hnone))
    · -- The seeds have different names, so this one is the seed that the name is of.
      have hsame : seed = seeds[i] :=
        List.inj_on_of_nodup_map hnodup hmem (List.getElem_mem hi) hname
      exact Or.inr (hi'.symm.trans (hsame ▸ hleft))
  · intro h name
    by_cases hname : ∃ seed ∈ seeds, seed.name = name
    · obtain ⟨seed, hmem, rfl⟩ := hname
      obtain ⟨i, hi, rfl⟩ := List.getElem_of_mem hmem
      rw [hseed i hi]
      unfold seededAs
      by_cases hnone : directory seeds[i].name = none
      · rw [if_pos hnone, hnone]
        rcases (leavesWhole_iff _ _ _).mp (h i hi hnone) with hleft | hleft
        · exact Or.inl hleft
        · exact Or.inr ⟨rfl, seeds[i], hmem, rfl, hleft⟩
      · exact Or.inl (if_neg hnone)
    · refine Or.inl (persistWriteSeeds_other _ _ _ _ fun seed hmem hsame ↦ ?_)
      exact hname ⟨seed, hmem, hsame⟩

def PersistDevice.Seeds (device : PersistDevice) : Prop :=
  ∃ volume, device.superblock = some volume ∧ device.mountFails = false ∧
    device.mountReadOnly.getD (volume.state &&& ext2ErrorFs ≠ 0) = false

/-- Every name of a volume that is mounted holds what it held, or the whole of a seed that it
lacked, when and only when no seed whose name is absent is left in part. -/
theorem persistMountDevice_whole_iff (device : PersistDevice) (point : List UInt8)
    (covered : CoveredDirectory) (directory : Directory) :
    SeededWhole directory (persistMountDevice device point covered directory).2.2
        (seedsOf point covered) ↔
      (device.Seeds → WritesWhole device.calls directory (seedsOf point covered)) := by
  obtain ⟨hnodup, hread⟩ := seedsOf_nodup point covered
  have hunchanged : SeededWhole directory directory (seedsOf point covered) :=
    fun name ↦ Or.inl rfl
  cases hvolume : device.superblock with
  | none =>
      unfold persistMountDevice
      rw [hvolume]
      refine iff_of_true hunchanged fun ⟨volume, hsome, _⟩ ↦ ?_
      rw [hvolume] at hsome
      cases hsome
  | some volume =>
      have hseeds : device.Seeds ↔ device.mountFails = false ∧
          device.mountReadOnly.getD (volume.state &&& ext2ErrorFs ≠ 0) = false := by
        unfold PersistDevice.Seeds
        rw [hvolume]
        simp
      rw [hseeds]
      unfold persistMountDevice
      rw [hvolume]
      dsimp only
      by_cases hfails : device.mountFails = true
      · rw [if_pos hfails]
        refine iff_of_true hunchanged fun ⟨hmounted, _⟩ ↦ ?_
        exact absurd (hfails.symm.trans hmounted) Bool.noConfusion
      rw [if_neg hfails]
      by_cases hreadOnly : device.mountReadOnly.getD (volume.state &&& ext2ErrorFs ≠ 0) = true
      · rw [if_pos hreadOnly]
        refine iff_of_true hunchanged fun ⟨_, hwritable⟩ ↦ ?_
        exact absurd (hreadOnly.symm.trans hwritable) Bool.noConfusion
      · rw [if_neg hreadOnly, hread]
        refine (persistWriteSeeds_whole_iff _ hnodup).trans ⟨fun h _ ↦ h, fun h ↦ h ?_⟩
        exact ⟨Bool.eq_false_iff.mpr hfails, Bool.eq_false_iff.mpr hreadOnly⟩

def labelledVolume : Ext2.Superblock where
  inodeCount := 512
  blockCount := 4096
  reservedBlockCount := 0
  freeBlockCount := 1
  freeInodeCount := 400
  firstDataBlock := 1
  blockSize := 1024
  fragmentSize := 1024
  blocksPerGroup := 8192
  fragmentsPerGroup := 8192
  inodesPerGroup := 512
  mountTime := 0
  writeTime := 0
  mountCount := 1
  maximumMountCount := 20
  magic := 0xEF53
  state := Ext2.ext2ValidFs
  errors := 1
  minorRevision := 0
  lastCheck := 0
  checkInterval := 0
  creatorOs := 0
  revision := 0
  defaultUid := 0
  defaultGid := 0
  firstInode := 11
  inodeSize := 128
  blockGroupNumber := 0
  featureCompatible := 0
  featureIncompatible := 0
  featureReadOnly := 0
  uuid := []
  volumeName := "oxys-etc".toList.map fun letter ↦ UInt8.ofNat letter.toNat
  lastMounted := []
  groupCount := 1
  sectorsPerBlock := 2
  readOnly := false

def fullDevice (taken : ℕ) : PersistDevice where
  superblock := some labelledVolume
  cleanFails := false
  mountFails := false
  mountReadOnly := some false
  calls := ⟨fun _ ↦ .opened, fun _ ↦ ⟨taken, true⟩⟩

def coveredFile (length : ℕ) : CoveredDirectory where
  entries := [⟨[0x61], some length, 0o644, some (List.replicate length 0x62)⟩]
  nodup := List.nodup_singleton _

/-- A file of two kilobytes of which the volume takes one is left with that one, and the next start
keeps it so. -/
theorem persistMountDevice_not_whole :
    let first := (persistMountDevice (fullDevice 1024) [0x2F] (coveredFile 2048) fun _ ↦ none).2.2
    let next := (persistMountDevice (fullDevice 2048) [0x2F] (coveredFile 2048) first).2.2
    first [0x61] = some (List.replicate 1024 0x62) ∧ next [0x61] = first [0x61] ∧
      ¬SeededWhole (fun _ ↦ none) first (seedsOf [0x2F] (coveredFile 2048)) := by
  dsimp only
  have hfirst : (persistMountDevice (fullDevice 1024) [0x2F] (coveredFile 2048)
      fun _ ↦ none).2.2 [0x61] = some (List.replicate 1024 0x62) := by decide +kernel
  refine ⟨hfirst, by decide +kernel, fun h ↦ ?_⟩
  rcases h [0x61] with hheld | ⟨-, seed, hmem, -, hleft⟩
  · exact absurd (hfirst.symm.trans hheld) (Option.some_ne_none _)
  · have hseeds : ∀ seed ∈ seedsOf [0x2F] (coveredFile 2048), seed.bytes.length = 2048 := by
      decide +kernel
    have hbytes := congrArg List.length (Option.some.inj (hfirst.symm.trans hleft))
    rw [hseeds seed hmem, List.length_replicate] at hbytes
    exact absurd hbytes (by decide)

end OxysOS.Fs
