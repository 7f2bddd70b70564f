import OxysOS.Mm.PagingEntry

/-!
# The regions of an AHCI command

The adaptor is told where a buffer lies by region descriptors, one for each page, whose counts are
one less than the bytes they cover.  The descriptors in order are the physical addresses of the
bytes in order, wherever in a page the buffer begins.
-/

namespace OxysOS.Drivers

open OxysOS.Library OxysOS.Mm

def ahciSectorSize : ℕ := 512

def ahciMaximumSectors : ℕ := 128

def ahciAreaRegions : ℕ := 0x580

def ahciAreaIdentity : ℕ := 0x800

def ahciRegionBytes : ℕ := 16

def ahciRegionCapacity : ℕ := 17

inductive AhciDeviceKind
  | none | sata | satapi | enclosure | multiplier | unknown
  deriving DecidableEq

/-- `AhciDevice`, as far as a request is judged by it. -/
structure AhciDevice where
  kind : AhciDeviceKind
  sectorCount : UInt64

/-- `AhciRequestIsSound`, of a device that may be null. -/
def ahciRequestIsSound (found : Bool) (device : Option AhciDevice) (lba : UInt64)
    (count : UInt32) (buffer : UInt64) : Bool :=
  match device with
  | none => false
  | some device =>
      if buffer = 0 ∨ found = false then false
      else if device.kind ≠ .sata ∨ device.sectorCount = 0 then false
      else if count = 0 ∨ count.toNat > ahciMaximumSectors then false
      else if lba ≥ device.sectorCount ∨ device.sectorCount - lba < count.toUInt64 then false
      else buffer &&& 1 = 0

def ahciWriteArea32 (area : Bytes) (offset value : ℕ) : Bytes := writeField area offset 4 value

def ahciWriteRegion (area : Bytes) (written physical chunk : ℕ) : Bytes :=
  let entry := ahciAreaRegions + written * ahciRegionBytes
  let area := ahciWriteArea32 area entry (physical % 2 ^ 32)
  let area := ahciWriteArea32 area (entry + 4) (physical / 2 ^ 32)
  let area := ahciWriteArea32 area (entry + 8) 0
  ahciWriteArea32 area (entry + 12) (chunk - 1)

/-- The loop of `AhciDescribeBuffer`. -/
def ahciDescribeFrom (s : Machine) (supports64Bit : Bool) (base length : ℕ) (area : Bytes)
    (written offset : ℕ) : ℕ × Bytes :=
  if _hmore : offset < length then
    let address := (base + offset) % 2 ^ 64
    let physical := pagingTranslate s address
    let chunk := pageSize - address % pageSize
    if physical = 0 ∨ written ≥ ahciRegionCapacity then (0, area)
    else if supports64Bit = false ∧ physical + chunk > 2 ^ 32 then (0, area)
    else
      let chunk := min chunk (length - offset)
      ahciDescribeFrom s supports64Bit base length (ahciWriteRegion area written physical chunk)
        (written + 1) (offset + chunk)
  else (written, area)
termination_by length - offset
decreasing_by
  have hwithin : (base + offset) % 2 ^ 64 % pageSize < pageSize := Nat.mod_lt _ (by decide)
  omega

/-- `AhciDescribeBuffer`, which answers how many descriptors it has written into the port's page,
or zero. -/
def ahciDescribeBuffer (s : Machine) (supports64Bit : Bool) (area : Bytes) (buffer length : ℕ) :
    ℕ × Bytes :=
  ahciDescribeFrom s supports64Bit buffer length area 0 0

def pagingMapping (s : Machine) (address : ℕ) : Option ℕ :=
  let entry4 := s.entry s.activeRoot (pagingLevel4Index address)
  let entry3 := s.entry (entryAddress entry4) (pagingLevel3Index address)
  let entry2 := s.entry (entryAddress entry3) (pagingLevel2Index address)
  let entry1 := s.entry (entryAddress entry2) (pagingLevel1Index address)
  if s.activeRoot = 0 then none
  else if entry4 &&& pageEntryPresent = 0 then none
  else if entry3 &&& pageEntryPresent = 0 then none
  else if entry3 &&& pageEntryLarge ≠ 0 then some (entryAddress entry3 + address % 2 ^ 30)
  else if entry2 &&& pageEntryPresent = 0 then none
  else if entry2 &&& pageEntryLarge ≠ 0 then some (entryAddress entry2 + address % 2 ^ 21)
  else if entry1 &&& pageEntryPresent = 0 then none
  else some (entryAddress entry1 + address % pageSize)

variable {s : Machine} {supports64Bit : Bool} {area : Bytes}
  {address physical base length written offset chunk first last : ℕ}

theorem pagingTranslate_eq_getD (s : Machine) (address : ℕ) :
    pagingTranslate s address = (pagingMapping s address).getD 0 := by
  unfold pagingTranslate pagingMapping
  dsimp only
  split_ifs <;> rfl

theorem pagingMapping_of_translate (h : pagingTranslate s address ≠ 0) :
    pagingMapping s address = some (pagingTranslate s address) := by
  rw [pagingTranslate_eq_getD] at h ⊢
  cases hmapped : pagingMapping s address with
  | none => exact absurd (by rw [hmapped]; rfl) h
  | some physical => rfl

theorem pagingMapping_add {k : ℕ} (hwithin : address % pageSize + k < pageSize) :
    pagingMapping s (address + k) = (pagingMapping s address).map (· + k) := by
  unfold pageSize at hwithin
  have h4 : pagingLevel4Index (address + k) = pagingLevel4Index address := by
    unfold pagingLevel4Index
    omega
  have h3 : pagingLevel3Index (address + k) = pagingLevel3Index address := by
    unfold pagingLevel3Index
    omega
  have h2 : pagingLevel2Index (address + k) = pagingLevel2Index address := by
    unfold pagingLevel2Index
    omega
  have h1 : pagingLevel1Index (address + k) = pagingLevel1Index address := by
    unfold pagingLevel1Index
    omega
  have huge : (address + k) % 2 ^ 30 = address % 2 ^ 30 + k := by omega
  have hlarge : (address + k) % 2 ^ 21 = address % 2 ^ 21 + k := by omega
  have hpage : (address + k) % pageSize = address % pageSize + k := by
    unfold pageSize
    omega
  unfold pagingMapping
  rw [h4, h3, h2, h1, huge, hlarge, hpage]
  dsimp only
  split_ifs <;> simp only [Option.map_none, Option.map_some, Nat.add_assoc]

theorem pagingMapping_mod (h : pagingMapping s address = some physical) :
    physical % pageSize = address % pageSize ∧ physical < 2 ^ 64 := by
  have hentry : ∀ entry : BitVec 64,
      entryAddress entry % 4096 = 0 ∧ entryAddress entry < 2 ^ 52 := by
    intro entry
    constructor
    · rw [← entryAddress_aligned entry]
      exact Nat.mul_mod_left _ _
    · unfold entryAddress
      rw [BitVec.toNat_and]
      exact Nat.lt_of_le_of_lt Nat.and_le_right (by decide)
  unfold pagingMapping at h
  unfold pageSize at *
  dsimp only at h
  generalize s.entry s.activeRoot _ = entry4 at h
  generalize s.entry (entryAddress entry4) _ = entry3 at h
  generalize s.entry (entryAddress entry3) _ = entry2 at h
  generalize s.entry (entryAddress entry2) _ = entry1 at h
  have h3 := hentry entry3
  have h2 := hentry entry2
  have h1 := hentry entry1
  split_ifs at h <;> obtain rfl := Option.some.inj h <;> omega

structure AhciRegion where
  address : ℕ
  count : ℕ

def ahciRegion (area : Bytes) (i : ℕ) : AhciRegion where
  address := readField area (ahciAreaRegions + i * ahciRegionBytes) 4 +
    2 ^ 32 * readField area (ahciAreaRegions + i * ahciRegionBytes + 4) 4
  count := readField area (ahciAreaRegions + i * ahciRegionBytes + 12) 4

def AhciRegion.bytes (region : AhciRegion) : List ℕ :=
  (List.range (region.count + 1)).map (region.address + ·)

/-- A descriptor lies within a page, covers an even number of bytes, and none that the adaptor
cannot address. -/
structure AhciRegion.Sound (supports64Bit : Bool) (region : AhciRegion) : Prop where
  page : (region.address + region.count) / pageSize = region.address / pageSize
  even : 2 ∣ region.count + 1
  addressable : supports64Bit = false → region.address + region.count < 2 ^ 32

/-- Descriptors from a first up to a last are sound and are, in order, the bytes of a buffer from
an offset on. -/
structure Describes (s : Machine) (supports64Bit : Bool) (base length : ℕ) (area : Bytes)
    (offset first last : ℕ) : Prop where
  bytes : (List.range' first (last - first)).flatMap (fun i ↦ (ahciRegion area i).bytes.map some) =
    (List.range' offset (length - offset)).map fun k ↦ pagingMapping s ((base + k) % 2 ^ 64)
  sound : ∀ i, first ≤ i → i < last → (ahciRegion area i).Sound supports64Bit

/-- A byte that no descriptor is written for: one that is not mapped, one that is mapped to
physical address zero, or one that the adaptor cannot address. -/
def NotDescribed (s : Machine) (supports64Bit : Bool) (address : ℕ) : Prop :=
  pagingMapping s address = none ∨ pagingMapping s address = some 0 ∨
    supports64Bit = false ∧ ∃ physical ≥ 2 ^ 32, pagingMapping s address = some physical

theorem ahciWriteRegion_of_lt {position : ℕ}
    (h : position < ahciAreaRegions + written * ahciRegionBytes ∨
      ahciAreaRegions + (written + 1) * ahciRegionBytes ≤ position) :
    ahciWriteRegion area written physical chunk position = area position := by
  unfold ahciRegionBytes at h
  unfold ahciWriteRegion ahciWriteArea32 ahciRegionBytes
  rcases h with h | h
  · rw [writeField_of_lt (by omega), writeField_of_lt (by omega), writeField_of_lt (by omega),
      writeField_of_lt h]
  · rw [writeField_of_le (by omega), writeField_of_le (by omega), writeField_of_le (by omega),
      writeField_of_le (by omega)]

theorem ahciRegion_congr {area' : Bytes} {i : ℕ}
    (h : ∀ position, ahciAreaRegions + i * ahciRegionBytes ≤ position →
      position < ahciAreaRegions + (i + 1) * ahciRegionBytes → area position = area' position) :
    ahciRegion area i = ahciRegion area' i := by
  unfold ahciRegion
  unfold ahciRegionBytes at *
  congr 1
  · congr 1
    · exact readField_congr fun position hle hlt ↦ h position hle (by omega)
    · exact congrArg _ (readField_congr fun position hle hlt ↦ h position (by omega) (by omega))
  · exact readField_congr fun position hle hlt ↦ h position (by omega) (by omega)

theorem ahciRegion_write (hphysical : physical < 2 ^ 64) (hchunk : chunk ≤ pageSize) :
    ahciRegion (ahciWriteRegion area written physical chunk) written =
      ⟨physical, chunk - 1⟩ := by
  unfold pageSize at hchunk
  have hlow : physical % 2 ^ 32 < 256 ^ 4 := Nat.mod_lt _ (by decide)
  have hhigh : physical / 2 ^ 32 < 256 ^ 4 := by omega
  have hcount : chunk - 1 < 256 ^ 4 := by omega
  unfold ahciRegion ahciWriteRegion ahciWriteArea32
  rw [readField_writeField_of_disjoint (by omega), readField_writeField_of_disjoint (by omega),
    readField_writeField_of_disjoint (by omega), readField_writeField_of_lt hlow,
    readField_writeField_of_disjoint (by omega), readField_writeField_of_disjoint (by omega),
    readField_writeField_of_lt hhigh, readField_writeField_of_lt hcount,
    Nat.mod_add_div]

theorem describes_step (heven : 2 ∣ base) (hlength : 2 ∣ length) (hoffset : 2 ∣ offset)
    (hmore : offset < length)
    (hmapped : pagingMapping s ((base + offset) % 2 ^ 64) = some physical)
    (hchunk : chunk = min (pageSize - (base + offset) % 2 ^ 64 % pageSize) (length - offset))
    (hlow : ¬(supports64Bit = false ∧
      physical + (pageSize - (base + offset) % 2 ^ 64 % pageSize) > 2 ^ 32)) :
    (⟨physical, chunk - 1⟩ : AhciRegion).Sound supports64Bit ∧
      (⟨physical, chunk - 1⟩ : AhciRegion).bytes.map some =
        (List.range' offset chunk).map fun k ↦ pagingMapping s ((base + k) % 2 ^ 64) := by
  obtain ⟨hmod, -⟩ := pagingMapping_mod hmapped
  have hpage : (base + offset) % 2 ^ 64 % pageSize < pageSize := Nat.mod_lt _ (by decide)
  have hpositive : chunk - 1 + 1 = chunk := by omega
  constructor
  · constructor
    · unfold pageSize at *
      dsimp only
      omega
    · unfold pageSize at *
      dsimp only
      omega
    · intro hsmall
      have hbound := not_and.mp hlow hsmall
      dsimp only
      omega
  · unfold AhciRegion.bytes
    dsimp only
    rw [hpositive, List.map_map, List.range'_eq_map_range, List.map_map]
    refine List.map_congr_left fun k hk ↦ ?_
    have hless : k < chunk := List.mem_range.mp hk
    have hnext : (base + (offset + k)) % 2 ^ 64 = (base + offset) % 2 ^ 64 + k := by
      unfold pageSize at *
      omega
    change some (physical + k) = pagingMapping s ((base + (offset + k)) % 2 ^ 64)
    rw [hnext, pagingMapping_add (by omega), hmapped, Option.map_some]

theorem Describes.cons (h : Describes s supports64Bit base length area
      (offset + chunk) (written + 1) last) (hlast : written + 1 ≤ last)
    (hchunk : offset + chunk ≤ length)
    (hsound : (ahciRegion area written).Sound supports64Bit)
    (hbytes : (ahciRegion area written).bytes.map some =
      (List.range' offset chunk).map fun k ↦ pagingMapping s ((base + k) % 2 ^ 64)) :
    Describes s supports64Bit base length area offset written last := by
  constructor
  · have hregions : List.range' written (last - written) =
        written :: List.range' (written + 1) (last - (written + 1)) := by
      rw [← List.range'_succ]
      congr 1
      omega
    have hrest : List.range' offset (length - offset) = List.range' offset chunk ++
        List.range' (offset + chunk) (length - (offset + chunk)) := by
      rw [List.range'_append_1]
      congr 1
      omega
    rw [hregions, hrest, List.flatMap_cons, List.map_append, hbytes, h.bytes]
  · intro i hfirst hi
    rcases Nat.eq_or_lt_of_le hfirst with rfl | hfirst
    · exact hsound
    · exact h.sound i hfirst hi

theorem ahciDescribeFrom_spec (heven : 2 ∣ base) (hlength : 2 ∣ length)
    (hlong : length ≤ 16 * pageSize) (hoffset : 2 ∣ offset) (hle : offset ≤ length)
    (hwritten : written ≤ ahciRegionCapacity)
    (hfits : offset < length → pageSize * written ≤ offset + (pageSize - 2))
    (haligned : offset < length →
      written = 0 ∧ offset = 0 ∨ (base + offset) % 2 ^ 64 % pageSize = 0) :
    (∀ position, position < ahciAreaRegions + written * ahciRegionBytes ∨
        ahciAreaRegions + ahciRegionCapacity * ahciRegionBytes ≤ position →
      (ahciDescribeFrom s supports64Bit base length area written offset).2 position =
        area position) ∧
      ((ahciDescribeFrom s supports64Bit base length area written offset).1 = 0 ∧
          (∃ k < length, NotDescribed s supports64Bit ((base + k) % 2 ^ 64)) ∨
        written ≤ (ahciDescribeFrom s supports64Bit base length area written offset).1 ∧
          Describes s supports64Bit base length
            (ahciDescribeFrom s supports64Bit base length area written offset).2 offset written
            (ahciDescribeFrom s supports64Bit base length area written offset).1) := by
  fun_induction ahciDescribeFrom s supports64Bit base length area written offset with
  | case1 area written offset hmore address physical hrefused =>
      refine ⟨fun position _ ↦ rfl, Or.inl ⟨rfl, offset, hmore, ?_⟩⟩
      have hroom : ¬written ≥ ahciRegionCapacity := by
        have hbound := hfits hmore
        unfold pageSize ahciRegionCapacity at *
        omega
      have hzero : (pagingMapping s address).getD 0 = 0 := by
        rw [← pagingTranslate_eq_getD]
        exact hrefused.resolve_right hroom
      cases hmapped : pagingMapping s address with
      | none => exact Or.inl hmapped
      | some mapped =>
          rw [hmapped, Option.getD_some] at hzero
          exact Or.inr (Or.inl (hzero ▸ hmapped))
  | case2 area written offset hmore address physical room hnot hhigh =>
      have hmapped := pagingMapping_of_translate (not_or.mp hnot).1
      obtain ⟨hmod, -⟩ := pagingMapping_mod hmapped
      refine ⟨fun position _ ↦ rfl,
        Or.inl ⟨rfl, offset, hmore, Or.inr (Or.inr ⟨hhigh.1, physical, ?_, hmapped⟩)⟩⟩
      have hover : physical + (4096 - address % 4096) > 2 ^ 32 := hhigh.2
      change physical % 4096 = address % 4096 at hmod
      omega
  | case3 area written offset hmore address physical room hnot hlow chunk ih =>
      obtain ⟨hnonzero, hroom⟩ := not_or.mp hnot
      have hmapped := pagingMapping_of_translate hnonzero
      have hwithin : address % pageSize < pageSize := Nat.mod_lt _ (by decide)
      have hchunk : chunk = min (pageSize - address % pageSize) (length - offset) := rfl
      obtain ⟨hsound, hbytes⟩ :=
        describes_step heven hlength hoffset hmore hmapped hchunk hlow
      obtain ⟨hkeeps, hrest⟩ := ih (by unfold pageSize at *; omega) (by omega) (by omega)
        (by unfold pageSize at *; omega) (by unfold pageSize at *; omega)
      have hregion : ahciRegion (ahciDescribeFrom s supports64Bit base length
          (ahciWriteRegion area written physical chunk) (written + 1) (offset + chunk)).2 written =
            ⟨physical, chunk - 1⟩ := by
        rw [← ahciRegion_write (pagingMapping_mod hmapped).2 (by omega : chunk ≤ pageSize)]
        exact ahciRegion_congr fun position _ hlt ↦ hkeeps position (Or.inl hlt)
      constructor
      · intro position hout
        have hnext : written + 1 ≤ ahciRegionCapacity := by omega
        have hspace := Nat.mul_le_mul_right ahciRegionBytes hnext
        rw [Nat.succ_mul] at hspace
        rw [hkeeps position (by rw [Nat.succ_mul]; omega)]
        exact ahciWriteRegion_of_lt (by rw [Nat.succ_mul]; omega)
      · refine hrest.imp_right fun ⟨hlast, hdescribes⟩ ↦ ⟨by omega, ?_⟩
        refine hdescribes.cons hlast (by omega) ?_ ?_
        · rwa [hregion]
        · rwa [hregion]
  | case4 area written offset hmore =>
      have hend : length - offset = 0 := by omega
      refine ⟨fun position _ ↦ rfl, Or.inr ⟨Nat.le_refl _, ?_, fun i hi hlt ↦ by omega⟩⟩
      rw [hend, Nat.sub_self]
      rfl

structure AhciAdmits (buffer length : ℕ) : Prop where
  even : 2 ∣ buffer
  sectors : ∃ count, 0 < count ∧ count ≤ ahciMaximumSectors ∧ length = count * ahciSectorSize

variable {buffer : ℕ}

theorem AhciAdmits.of_sound {found : Bool} {device : Option AhciDevice} {lba : UInt64}
    {count : UInt32} {buffer : UInt64}
    (h : ahciRequestIsSound found device lba count buffer = true) :
    AhciAdmits buffer.toNat (count.toNat * ahciSectorSize) := by
  unfold ahciRequestIsSound at h
  cases device with
  | none => exact absurd h nofun
  | some device =>
      dsimp only at h
      split_ifs at h with hnull hkind hcount hextent
      obtain ⟨hsome, hmost⟩ := not_or.mp hcount
      have heven : buffer &&& 1 = 0 := of_decide_eq_true h
      refine ⟨Nat.dvd_of_mod_eq_zero ?_, count.toNat, ?_, Nat.not_lt.mp hmost, rfl⟩
      · rw [← Nat.and_one_is_mod]
        exact congrArg UInt64.toNat heven
      · exact Nat.pos_of_ne_zero fun hzero ↦ hsome (UInt32.toNat_inj.mp hzero)

/-- `AhciDescribeBuffer` describes exactly the caller's buffer, and writes nowhere else in the
port's page than where the descriptors go; or it answers zero, which it does only where there is a
byte of the buffer that is not mapped, that is mapped to physical address zero, or that the adaptor
cannot address. -/
theorem ahciDescribeBuffer_exact (s : Machine) (supports64Bit : Bool) (area : Bytes)
    (h : AhciAdmits buffer length) :
    (∀ position, position < ahciAreaRegions ∨ ahciAreaIdentity ≤ position →
        (ahciDescribeBuffer s supports64Bit area buffer length).2 position = area position) ∧
      ((ahciDescribeBuffer s supports64Bit area buffer length).1 = 0 ∧
          (∃ k < length, NotDescribed s supports64Bit ((buffer + k) % 2 ^ 64)) ∨
        0 < (ahciDescribeBuffer s supports64Bit area buffer length).1 ∧
          Describes s supports64Bit buffer length
            (ahciDescribeBuffer s supports64Bit area buffer length).2 0 0
            (ahciDescribeBuffer s supports64Bit area buffer length).1) := by
  obtain ⟨count, hsome, hmost, hlength⟩ := h.sectors
  unfold ahciMaximumSectors at hmost
  unfold ahciSectorSize at hlength
  obtain ⟨hkeeps, hanswer⟩ := @ahciDescribeFrom_spec s supports64Bit area buffer length 0 0 h.even
    (by omega) (by unfold pageSize; omega) (Nat.dvd_zero 2) (Nat.zero_le _) (Nat.zero_le _)
    (fun _ ↦ Nat.zero_le _) fun _ ↦ Or.inl ⟨rfl, rfl⟩
  unfold ahciDescribeBuffer
  constructor
  · intro position hout
    have hend : ahciAreaRegions + ahciRegionCapacity * ahciRegionBytes ≤ ahciAreaIdentity := by
      decide
    exact hkeeps position (hout.imp (by omega) hend.trans)
  · refine hanswer.imp_right fun ⟨_, hdescribes⟩ ↦ ⟨Nat.pos_of_ne_zero fun hzero ↦ ?_, hdescribes⟩
    have hbytes := congrArg List.length hdescribes.bytes
    rw [hzero, List.length_map, List.length_range'] at hbytes
    change 0 = length - 0 at hbytes
    omega

def lowMapped : Machine where
  frames := unavailableFrames 16
  memory frame position :=
    if frame = 1 ∧ position = 0 then 0x01
    else if frame = 1 ∧ position = 1 then 0x20
    else if frame = 2 ∧ position = 8 then 0x81
    else 0
  kernelRoot := pageSize
  activeRoot := pageSize

theorem lowMapped_describes :
    (ahciDescribeBuffer lowMapped false (fun _ ↦ 0) (2 ^ 30 + 3840) 512).1 = 2 := by
  have hfirst : pagingTranslate lowMapped ((2 ^ 30 + 3840 + 0) % 2 ^ 64) = 3840 := by
    decide +kernel
  have hsecond : pagingTranslate lowMapped ((2 ^ 30 + 3840 + (0 + 256)) % 2 ^ 64) = 4096 := by
    decide +kernel
  unfold ahciDescribeBuffer
  rw [ahciDescribeFrom, dif_pos (by decide)]
  dsimp only
  rw [hfirst, if_neg (by decide), if_neg (by decide)]
  change (ahciDescribeFrom _ _ _ _ _ (0 + 1) (0 + 256)).1 = 2
  rw [ahciDescribeFrom, dif_pos (by decide)]
  dsimp only
  rw [hsecond, if_neg (by decide), if_neg (by decide)]
  change (ahciDescribeFrom _ _ _ _ _ (0 + 1 + 1) (0 + 256 + 256)).1 = 2
  rw [ahciDescribeFrom, dif_neg (by decide)]

/-- A sector that is read across a page's end takes two descriptors. -/
theorem ahciDescribeBuffer_exact_two :
    Describes lowMapped false (2 ^ 30 + 3840) 512
      (ahciDescribeBuffer lowMapped false (fun _ ↦ 0) (2 ^ 30 + 3840) 512).2 0 0 2 := by
  have hanswer := (ahciDescribeBuffer_exact lowMapped false (fun _ ↦ 0)
    (⟨by decide, 1, by decide, by decide, rfl⟩ : AhciAdmits (2 ^ 30 + 3840) 512)).2
  rw [lowMapped_describes] at hanswer
  exact (hanswer.resolve_left fun h ↦ absurd h.1 (by decide)).2

/-- A page that is mapped to the first frame is refused as one that is not mapped. -/
theorem ahciDescribeBuffer_first_frame :
    AhciAdmits (2 ^ 30) 512 ∧
      (ahciDescribeBuffer lowMapped true (fun _ ↦ 0) (2 ^ 30) 512).1 = 0 ∧
      ∀ k < 512, pagingMapping lowMapped (2 ^ 30 + k) = some k := by
  have hfirst : pagingMapping lowMapped (2 ^ 30) = some 0 := by decide +kernel
  refine ⟨⟨by decide, 1, by decide, by decide, rfl⟩, ?_, fun k hk ↦ ?_⟩
  · have hzero : pagingTranslate lowMapped ((2 ^ 30 + 0) % 2 ^ 64) = 0 := by decide +kernel
    unfold ahciDescribeBuffer
    rw [ahciDescribeFrom, dif_pos (by decide)]
    dsimp only
    rw [if_pos (Or.inl hzero)]
  · rw [pagingMapping_add (by unfold pageSize; omega), hfirst, Option.map_some, Nat.zero_add]

end OxysOS.Drivers
