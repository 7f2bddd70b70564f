import OxysOS.Handoff.Multiboot2

/-!
# What the boot information parser reads

A tag that ends before the limit may be read as far as its own size and no
further.
-/

namespace OxysOS.Handoff

open OxysOS.Library
open OxysOS.Library.Traced

variable {memory : Bytes} {P : Effect → Prop} {header limit tag size entrySize turns : ℕ}
  {displacement room recorded : ℕ} {information information' : BootInformation}

/-! ## Tags -/

def tagType (memory : Bytes) (tag : ℕ) : ℕ := readField memory (advance tag 0) 4

def tagSize (memory : Bytes) (tag : ℕ) : ℕ := readField memory (advance tag 4) 4

theorem tagSize_lt (memory : Bytes) (tag : ℕ) : tagSize memory tag < 2 ^ 32 :=
  readField_lt memory (advance tag 4) 4

theorem advance_eq {pointer n : ℕ} (h : pointer + n < 2 ^ 64) : advance pointer n = pointer + n :=
  Nat.mod_eq_of_lt h

def Inside (memory : Bytes) (header limit : ℕ) : Effect → Prop
  | .read pointer displacement =>
      header ≤ advance pointer displacement ∧ advance pointer displacement < limit ∧
        (displacement < 8 ∨ displacement < tagSize memory pointer)
  | _ => True

structure Bounds (P : Effect → Prop) (tag size : ℕ) : Prop where
  read : ∀ i, P (.read tag i) ↔ i < size
  wrote : ∀ text, P (.wrote text)
  wroteHexadecimal : ∀ value, P (.wroteHexadecimal value)

@[simp] theorem ends_member {width v : ℕ} :
    Ends P (member memory tag displacement width) v ↔
      (∀ i, displacement ≤ i → i < displacement + width → P (.read tag i)) ∧
        readField memory (advance tag displacement) width = v := by
  simp only [member, ends_bind, ends_notes, List.forall_mem_map, List.mem_range'_1, ends_pure,
    exists_and_left, and_imp, exists_const]

namespace Bounds

variable (h : Bounds P tag size)
include h

@[simp] theorem ends_wrote {text : String} {u : Unit} : Ends P (kernelWriteString text) u := by
  simp [kernelWriteString, h.wrote]

theorem ends_read {width v : ℕ} (hwidth : 0 < width) :
    Ends P (member memory tag displacement width) v ↔
      displacement + width ≤ size ∧ readField memory (advance tag displacement) width = v := by
  simp only [ends_member, h.read]
  refine and_congr_left fun _ ↦ ⟨fun hall ↦ ?_, fun hle i _ hi ↦ by omega⟩
  have := hall (displacement + width - 1) (by omega) (by omega)
  omega

theorem ends_read_bind {α : Type} {width : ℕ} {next : ℕ → Traced Effect α} {a : α}
    (hwidth : 0 < width) :
    Ends P (member memory tag displacement width >>= next) a ↔
      displacement + width ≤ size ∧
        Ends P (next (readField memory (advance tag displacement) width)) a := by
  simp [h.ends_read hwidth, and_assoc]

theorem completes_read_bind {α : Type} {width : ℕ} {next : ℕ → Traced Effect α}
    (hwidth : 0 < width) :
    Completes P (member memory tag displacement width >>= next) ↔
      displacement + width ≤ size ∧
        Completes P (next (readField memory (advance tag displacement) width)) := by
  simp [completes_bind, h.ends_read hwidth, and_assoc]

@[simp] theorem ends_wrote_bind {α : Type} {text : String} {next : Unit → Traced Effect α} {a : α} :
    Ends P (kernelWriteString text >>= next) a ↔ Ends P (next ()) a := by
  simp only [ends_bind, h.ends_wrote, true_and]
  constructor
  · rintro ⟨_, hnext⟩
    exact hnext
  · exact fun hnext ↦ ⟨(), hnext⟩

@[simp] theorem completes_wrote_bind {α : Type} {text : String} {next : Unit → Traced Effect α} :
    Completes P (kernelWriteString text >>= next) ↔ Completes P (next ()) := by
  simp only [Completes, h.ends_wrote_bind]

end Bounds

/-! ## Strings -/

def StringWithin (memory : Bytes) (tag size displacement room : ℕ) : Prop :=
  displacement + room ≤ size ∨
    ∃ i, displacement ≤ i ∧ i < size ∧ memory (advance tag i) = 0

theorem readField_one (memory : Bytes) (offset : ℕ) :
    readField memory offset 1 = (memory offset).toNat := by
  simp [readField]

theorem readField_one_eq_zero (memory : Bytes) (offset : ℕ) :
    readField memory offset 1 = 0 ↔ memory offset = 0 := by
  rw [readField_one]
  exact ⟨fun h ↦ UInt8.toNat_inj.mp h, fun h ↦ by rw [h]; rfl⟩

theorem Bounds.completes_copyCharacters_succ (h : Bounds P tag size) :
    Completes P (copyCharacters memory tag displacement (room + 1)) ↔
      displacement < size ∧ (memory (advance tag displacement) = 0 ∨
        Completes P (copyCharacters memory tag (displacement + 1) room)) := by
  simp only [copyCharacters, h.completes_read_bind Nat.one_pos, completes_ite, completes_pure,
    completes_bind_pure, readField_one_eq_zero]
  refine and_congr_right fun _ ↦ ?_
  split_ifs with hzero <;> simp [hzero]

theorem Bounds.completes_copyCharacters (h : Bounds P tag size) :
    Completes P (copyCharacters memory tag displacement room) ↔
      room = 0 ∨ StringWithin memory tag size displacement room := by
  induction room generalizing displacement with
  | zero => simp [copyCharacters]
  | succ room ih =>
      rw [h.completes_copyCharacters_succ, ih]
      unfold StringWithin
      constructor
      · rintro ⟨hlt, hzero | rfl | hle | ⟨i, hi, hlt', hzero⟩⟩
        · exact Or.inr (Or.inr ⟨displacement, le_rfl, hlt, hzero⟩)
        · exact Or.inr (Or.inl hlt)
        · exact Or.inr (Or.inl (by omega))
        · exact Or.inr (Or.inr ⟨i, by omega, hlt', hzero⟩)
      · rintro (hnever | hle | ⟨i, hi, hlt', hzero⟩)
        · omega
        · exact ⟨by omega, Or.inr (Or.inr (Or.inl (by omega)))⟩
        · refine ⟨by omega, ?_⟩
          rcases hi.eq_or_lt with rfl | hlt
          · exact Or.inl hzero
          · exact Or.inr (Or.inr (Or.inr ⟨i, hlt, hlt', hzero⟩))

/-! ## Modules -/

def moduleStart (memory : Bytes) (tag : ℕ) : ℕ := readField memory (advance tag 8) 4

def moduleEnd (memory : Bytes) (tag : ℕ) : ℕ := readField memory (advance tag 12) 4

def RecordsModule (memory : Bytes) (tag recorded : ℕ) : Prop :=
  17 ≤ tagSize memory tag ∧ moduleStart memory tag < moduleEnd memory tag ∧
    recorded < bootModuleMaximum

instance : Decidable (RecordsModule memory tag recorded) := by
  unfold RecordsModule
  infer_instance

def modulesAfter (memory : Bytes) (tag recorded : ℕ) : ℕ :=
  if RecordsModule memory tag recorded then recorded + 1 else recorded

theorem Bounds.ends_read_four (h : Bounds P tag size) {α : Type} {next : ℕ → Traced Effect α}
    {a : α} : Ends P (member memory tag displacement 4 >>= next) a ↔
      displacement + 4 ≤ size ∧ Ends P (next (readField memory (advance tag displacement) 4)) a :=
  h.ends_read_bind (by decide)

theorem Bounds.completes_read_four (h : Bounds P tag size) {α : Type}
    {next : ℕ → Traced Effect α} :
    Completes P (member memory tag displacement 4 >>= next) ↔
      displacement + 4 ≤ size ∧
        Completes P (next (readField memory (advance tag displacement) 4)) :=
  h.completes_read_bind (by decide)

theorem Bounds.completes_copyString (h : Bounds P tag size) {capacity : ℕ}
    (hcapacity : 1 < capacity) :
    Completes P (multiboot2CopyString memory tag displacement capacity) ↔
      StringWithin memory tag size displacement (capacity - 1) := by
  unfold multiboot2CopyString
  rw [h.completes_copyCharacters, or_iff_right (by omega)]

theorem Bounds.of_ends_parseModule (h : Bounds P tag (tagSize memory tag))
    (hends : Ends P (multiboot2ParseModule memory tag information) information') :
    (RecordsModule memory tag information.modules.length →
        StringWithin memory tag (tagSize memory tag) 16 31) ∧
      information'.modules.length = modulesAfter memory tag information.modules.length := by
  simp only [multiboot2ParseModule, h.ends_read_four, ends_ite, h.ends_wrote_bind, ends_pure,
    ends_bind] at hends
  obtain ⟨-, hends⟩ := hends
  unfold modulesAfter
  split_ifs at hends with hshort hempty hfull
  · have hnot : ¬RecordsModule memory tag information.modules.length :=
      fun hrecords ↦ absurd hrecords.1 (not_le.mpr hshort)
    rw [if_neg hnot, ← hends]
    exact ⟨fun hrecords ↦ absurd hrecords hnot, rfl⟩
  · have hnot : ¬RecordsModule memory tag information.modules.length :=
      fun hrecords ↦ absurd hrecords.2.1 (not_lt.mpr hempty)
    rw [if_neg hnot, ← hends.2.2]
    exact ⟨fun hrecords ↦ absurd hrecords hnot, rfl⟩
  · have hnot : ¬RecordsModule memory tag information.modules.length :=
      fun hrecords ↦ absurd hrecords.2.2 (not_lt.mpr hfull)
    rw [if_neg hnot, ← hends.2.2]
    exact ⟨fun hrecords ↦ absurd hrecords hnot, rfl⟩
  · obtain ⟨-, -, name, hname, rfl⟩ := hends
    rw [if_pos ⟨not_lt.mp hshort, not_le.mp hempty, not_le.mp hfull⟩]
    exact ⟨fun _ ↦ (h.completes_copyString (by decide)).mp ⟨name, hname⟩, by simp⟩

theorem Bounds.completes_parseModule (h : Bounds P tag (tagSize memory tag))
    (hsize : 8 ≤ tagSize memory tag)
    (hwithin : RecordsModule memory tag information.modules.length →
      StringWithin memory tag (tagSize memory tag) 16 31) :
    Completes P (multiboot2ParseModule memory tag information) := by
  simp only [multiboot2ParseModule, h.completes_read_four, completes_ite, h.completes_wrote_bind,
    completes_pure, completes_bind_pure, h.completes_copyString (show 1 < 32 by decide)]
  refine ⟨hsize, ?_⟩
  change if tagSize memory tag < 17 then _ else _
  split_ifs with hshort hempty hfull
  · exact ⟨by omega, by omega, trivial⟩
  · exact ⟨by omega, by omega, trivial⟩
  · exact ⟨by omega, by omega,
      hwithin ⟨not_lt.mp hshort, not_le.mp hempty, not_le.mp hfull⟩⟩

/-! ## The memory map -/

theorem recordRegion_modules (region : BootMemoryRegion) :
    (recordRegion information region).modules = information.modules := by
  unfold recordRegion
  split_ifs <;> rfl

def EntriesWithin (tag size entrySize displacement : ℕ) : Prop :=
  tag + displacement + ((size - displacement) / entrySize + 1) * entrySize < 2 ^ 64

theorem entriesWithin_of_le (hpositive : 0 < entrySize) (h : displacement + entrySize ≤ size) :
    EntriesWithin tag size entrySize displacement ↔
      EntriesWithin tag size entrySize (displacement + entrySize) := by
  have hdiv : (size - displacement) / entrySize =
      (size - (displacement + entrySize)) / entrySize + 1 := by
    rw [← Nat.sub_sub, Nat.div_eq_sub_div hpositive (by omega)]
  unfold EntriesWithin
  rw [hdiv, Nat.succ_mul ((size - (displacement + entrySize)) / entrySize + 1)]
  omega

theorem entriesWithin_of_lt (h : size < displacement + entrySize) :
    EntriesWithin tag size entrySize displacement ↔
      tag + displacement + entrySize < 2 ^ 64 := by
  have hdiv : (size - displacement) / entrySize = 0 := by
    rcases Nat.eq_zero_or_pos entrySize with rfl | hpositive
    · exact Nat.div_zero _
    · exact Nat.div_eq_of_lt (by omega)
  unfold EntriesWithin
  rw [hdiv, Nat.zero_add, Nat.one_mul]

def afterEntry (memory : Bytes) (tag displacement : ℕ) (information : BootInformation) :
    BootInformation :=
  recordEntry information (readField memory (advance tag displacement) 8)
    (readField memory (advance tag (displacement + 8)) 8)
    (readField memory (advance tag (displacement + 16)) 4)

theorem afterEntry_modules :
    (afterEntry memory tag displacement information).modules = information.modules := by
  unfold afterEntry recordEntry
  split_ifs
  · exact recordRegion_modules _
  · rfl

theorem Bounds.ends_parseEntries_succ (h : Bounds P tag size) :
    Ends P (parseEntries memory tag size entrySize (turns + 1) displacement information)
        information' ↔
      if advance tag (displacement + entrySize) ≤ advance tag size then
        displacement + 20 ≤ size ∧
          Ends P (parseEntries memory tag size entrySize turns (displacement + entrySize)
            (afterEntry memory tag displacement information)) information'
      else information = information' := by
  simp only [parseEntries, ends_ite, h.ends_read_four, h.ends_read_bind (show 0 < 8 by decide),
    ends_pure]
  by_cases hle : advance tag (displacement + entrySize) ≤ advance tag size
  · rw [if_pos hle, if_pos hle]
    refine ⟨fun hends ↦ ⟨by omega, hends.2.2.2⟩, fun hends ↦ ?_⟩
    exact ⟨by omega, by omega, by omega, hends.2⟩
  · rw [if_neg hle, if_neg hle]

theorem Bounds.of_ends_parseEntries (h : Bounds P tag size) (htag : tag + size < 2 ^ 64)
    (_hsize : size < 2 ^ 32) (_hentry : entrySize < 2 ^ 32) (hpositive : 0 < entrySize)
    (_hdisplacement : displacement ≤ size + 16)
    (hends : Ends P (parseEntries memory tag size entrySize turns displacement information)
      information') :
    EntriesWithin tag size entrySize displacement ∧ information'.modules = information.modules := by
  induction turns generalizing displacement information with
  | zero => exact absurd hends not_ends_unending
  | succ turns ih =>
      rw [h.ends_parseEntries_succ] at hends
      by_cases hfits : displacement + entrySize ≤ size
      · rw [if_pos (by rw [advance_eq (by omega), advance_eq htag]; omega)] at hends
        obtain ⟨hwithin, hmodules⟩ := ih (by omega) hends.2
        exact ⟨(entriesWithin_of_le hpositive hfits).mpr hwithin,
          hmodules.trans afterEntry_modules⟩
      · rw [entriesWithin_of_lt (by omega)]
        by_cases hwraps : tag + displacement + entrySize < 2 ^ 64
        · rw [if_neg (by rw [advance_eq (by omega), advance_eq htag]; omega)] at hends
          exact ⟨hwraps, by rw [hends]⟩
        · -- the entry that wrapped leads to one that is read beyond the tag
          have hlow : ∀ n, displacement + entrySize ≤ n → n ≤ displacement + 2 * entrySize →
              advance tag n ≤ advance tag size := by
            intro n hle hge
            rw [advance_eq htag]
            unfold advance
            omega
          rw [if_pos (hlow _ le_rfl (by omega))] at hends
          cases turns with
          | zero => exact absurd hends.2 not_ends_unending
          | succ turns =>
              rw [h.ends_parseEntries_succ, if_pos (hlow _ (by omega) (by omega))] at hends
              omega

theorem Bounds.completes_parseEntries (h : Bounds P tag size) (htag : tag + size < 2 ^ 64)
    (hentry : 24 ≤ entrySize) (hwithin : EntriesWithin tag size entrySize displacement)
    (hturns : (size - displacement) / entrySize < turns) :
    Completes P (parseEntries memory tag size entrySize turns displacement information) := by
  induction turns generalizing displacement information with
  | zero => exact absurd hturns (Nat.not_lt_zero _)
  | succ turns ih =>
      simp only [Completes, h.ends_parseEntries_succ]
      by_cases hfits : displacement + entrySize ≤ size
      · rw [← Nat.sub_add_cancel (show entrySize ≤ size - displacement by omega),
          Nat.add_div_right _ (by omega), Nat.sub_sub] at hturns
        obtain ⟨information', hends⟩ := ih ((entriesWithin_of_le (by omega) hfits).mp hwithin)
          (by omega)
        refine ⟨information', ?_⟩
        rw [if_pos (by rw [advance_eq (by omega), advance_eq htag]; omega)]
        exact ⟨by omega, hends⟩
      · rw [entriesWithin_of_lt (by omega)] at hwithin
        refine ⟨information, ?_⟩
        rw [if_neg (by rw [advance_eq (by omega), advance_eq htag]; omega)]

def mapEntrySize (memory : Bytes) (tag : ℕ) : ℕ := readField memory (advance tag 8) 4

def MemoryMapWithin (memory : Bytes) (tag : ℕ) : Prop :=
  12 ≤ tagSize memory tag ∧ (24 ≤ mapEntrySize memory tag → mapEntrySize memory tag % 8 = 0 →
    EntriesWithin tag (tagSize memory tag) (mapEntrySize memory tag) 16)

theorem Bounds.of_ends_parseMemoryMap (h : Bounds P tag (tagSize memory tag))
    (htag : tag + tagSize memory tag < 2 ^ 64)
    (hends : Ends P (multiboot2ParseMemoryMap memory turns tag information) information') :
    MemoryMapWithin memory tag ∧ information'.modules = information.modules := by
  simp only [multiboot2ParseMemoryMap, h.ends_read_four, ends_ite, h.ends_wrote_bind,
    ends_pure] at hends
  obtain ⟨hsize, hends⟩ := hends
  change (if mapEntrySize memory tag < 24 ∨ mapEntrySize memory tag % 8 ≠ 0 then _ else _) at hends
  split_ifs at hends with hinvalid
  · refine ⟨⟨hsize, fun hleast hmultiple ↦ ?_⟩, by rw [hends]⟩
    rcases hinvalid with hless | hne
    · omega
    · exact absurd hmultiple hne
  · have hlt : mapEntrySize memory tag < 2 ^ 32 := readField_lt memory (advance tag 8) 4
    obtain ⟨hwithin, hmodules⟩ := h.of_ends_parseEntries htag (tagSize_lt memory tag) hlt
      (by omega) (by omega) hends.2
    exact ⟨⟨hsize, fun _ _ ↦ hwithin⟩, hmodules⟩

theorem Bounds.completes_parseMemoryMap (h : Bounds P tag (tagSize memory tag))
    (htag : tag + tagSize memory tag < 2 ^ 64) (hwithin : MemoryMapWithin memory tag)
    (hturns : tagSize memory tag ≤ turns) :
    Completes P (multiboot2ParseMemoryMap memory turns tag information) := by
  simp only [multiboot2ParseMemoryMap, h.completes_read_four, completes_ite,
    h.completes_wrote_bind, completes_pure]
  obtain ⟨hsize, hwithin⟩ := hwithin
  refine ⟨hsize, ?_⟩
  change if mapEntrySize memory tag < 24 ∨ mapEntrySize memory tag % 8 ≠ 0 then _ else _
  split_ifs with hinvalid
  · obtain ⟨hleast, hmultiple⟩ := not_or.mp hinvalid
    have hdiv := Nat.div_le_self (tagSize memory tag - 16) (mapEntrySize memory tag)
    exact ⟨by omega, h.completes_parseEntries htag (not_lt.mp hleast)
      (hwithin (not_lt.mp hleast) (not_not.mp hmultiple)) (Nat.lt_of_le_of_lt hdiv (by omega))⟩

/-! ## The other kinds -/

theorem Bounds.completes_parseColours (h : Bounds P tag size) (framebuffer : BootFramebuffer) :
    Completes P (parseColours memory tag size framebuffer) := by
  simp only [parseColours, h.completes_read_bind Nat.one_pos, completes_ite,
    h.completes_wrote_bind, completes_pure, ite_self, and_true]
  split_ifs
  omega

theorem Bounds.completes_parseFramebuffer (h : Bounds P tag (tagSize memory tag))
    (hsize : 8 ≤ tagSize memory tag) (framebuffer : BootFramebuffer) :
    Completes P (parseFramebuffer memory tag framebuffer) := by
  simp only [parseFramebuffer, h.completes_read_four, h.completes_read_bind Nat.one_pos,
    h.completes_read_bind (show 0 < 8 by decide), completes_ite, h.completes_wrote_bind,
    completes_pure]
  refine ⟨hsize, ?_⟩
  change if tagSize memory tag < 32 then _ else _
  split_ifs with hshort hnone hnarrow
  · exact ⟨by omega, by omega, by omega, by omega, by omega, trivial⟩
  · exact ⟨by omega, by omega, by omega, by omega, by omega, trivial⟩
  · refine ⟨by omega, by omega, by omega, by omega, by omega, by omega, ?_⟩
    unfold parseFramebufferKind
    split
    · exact h.completes_parseColours _
    all_goals simp [h.completes_wrote_bind]

theorem Bounds.completes_parseAcpiPointer (h : Bounds P tag (tagSize memory tag))
    (hsize : 8 ≤ tagSize memory tag) (extended : Bool) :
    Completes P (multiboot2ParseAcpiPointer memory tag extended information) := by
  simp only [multiboot2ParseAcpiPointer, h.completes_read_four, h.completes_read_bind Nat.one_pos,
    completes_ite, h.completes_wrote_bind, completes_pure, and_true]
  refine ⟨hsize, ?_⟩
  change if tagSize memory tag < _ then _ else _
  split_ifs <;> omega

theorem modules_of_ends_parseAcpiPointer {extended : Bool}
    (h : Bounds P tag (tagSize memory tag))
    (hends : Ends P (multiboot2ParseAcpiPointer memory tag extended information) information') :
    information'.modules = information.modules := by
  simp only [multiboot2ParseAcpiPointer, h.ends_read_four, h.ends_read_bind Nat.one_pos,
    ends_ite, h.ends_wrote_bind, ends_pure] at hends
  obtain ⟨-, hends⟩ := hends
  split_ifs at hends <;> first | rw [hends] | rw [← hends.2]

theorem Bounds.of_ends_parseElfSections (h : Bounds P tag (tagSize memory tag))
    (hends : Ends P (multiboot2ParseElfSections memory tag information) information') :
    16 ≤ tagSize memory tag ∧ information'.modules = information.modules := by
  simp only [multiboot2ParseElfSections, h.ends_read_four, ends_ite, h.ends_wrote_bind,
    ends_bind, ends_pure] at hends
  obtain ⟨hsize, hends⟩ := hends
  refine ⟨hsize, ?_⟩
  split_ifs at hends
  · obtain ⟨-, -, rfl⟩ := hends
    rfl
  · rw [← hends.2]

theorem Bounds.completes_parseElfSections (h : Bounds P tag (tagSize memory tag))
    (hsize : 16 ≤ tagSize memory tag) :
    Completes P (multiboot2ParseElfSections memory tag information) := by
  simp only [multiboot2ParseElfSections, h.completes_read_four, completes_ite,
    h.completes_wrote_bind, completes_bind, ends_note, h.wroteHexadecimal, completes_pure]
  refine ⟨hsize, ?_⟩
  split_ifs
  · exact ⟨(), trivial, trivial⟩
  · exact ⟨by omega, trivial⟩

/-! ## A tag -/

def WithinTag (memory : Bytes) (tag recorded : ℕ) : Prop :=
  match tagType memory tag with
  | 1 | 2 => StringWithin memory tag (tagSize memory tag) 8 127
  | 3 => RecordsModule memory tag recorded → StringWithin memory tag (tagSize memory tag) 16 31
  | 6 => MemoryMapWithin memory tag
  | 9 => 16 ≤ tagSize memory tag
  | _ => True

def recordedAfter (memory : Bytes) (tag recorded : ℕ) : ℕ :=
  if tagType memory tag = 3 then modulesAfter memory tag recorded else recorded

theorem Bounds.of_ends_interpretTag {answer : BootInformation × Bool}
    (h : Bounds P tag (tagSize memory tag)) (htag : tag + tagSize memory tag < 2 ^ 64)
    (hends : Ends P (interpretTag memory turns tag (tagType memory tag) information) answer) :
    WithinTag memory tag information.modules.length ∧
      answer.1.modules.length = recordedAfter memory tag information.modules.length := by
  unfold interpretTag at hends
  unfold WithinTag recordedAfter
  split at hends <;> rename_i htype <;>
    simp only [ends_bind, ends_pure, multiboot2ParseFramebuffer] at hends
  · obtain ⟨information', hends, rfl⟩ := hends
    obtain ⟨hwithin, hmodules⟩ := h.of_ends_parseMemoryMap htag hends
    simp [htype, hwithin, hmodules]
  · obtain ⟨_, ⟨_, -, rfl⟩, rfl⟩ := hends
    simp [htype]
  · obtain ⟨information', hends, rfl⟩ := hends
    obtain ⟨hwithin, hmodules⟩ := h.of_ends_parseModule hends
    simpa [htype, hmodules] using hwithin
  · obtain ⟨information', hends, rfl⟩ := hends
    obtain ⟨hwithin, hmodules⟩ := h.of_ends_parseElfSections hends
    simp [htype, hwithin, hmodules]
  · obtain ⟨information', hends, rfl⟩ := hends
    simp [htype, modules_of_ends_parseAcpiPointer h hends]
  · obtain ⟨information', hends, rfl⟩ := hends
    simp [htype, modules_of_ends_parseAcpiPointer h hends]
  · obtain ⟨name, hends, rfl⟩ := hends
    simpa [htype] using (h.completes_copyString (by decide)).mp ⟨name, hends⟩
  · obtain ⟨name, hends, rfl⟩ := hends
    simpa [htype] using (h.completes_copyString (by decide)).mp ⟨name, hends⟩
  · subst hends
    split <;> simp_all

theorem Bounds.completes_interpretTag (h : Bounds P tag (tagSize memory tag))
    (hsize : 8 ≤ tagSize memory tag) (htag : tag + tagSize memory tag < 2 ^ 64)
    (hturns : tagSize memory tag ≤ turns)
    (hwithin : WithinTag memory tag information.modules.length) :
    Completes P (interpretTag memory turns tag (tagType memory tag) information) := by
  unfold interpretTag
  unfold WithinTag at hwithin
  split <;> rename_i htype <;>
    simp only [htype, completes_bind_pure, completes_pure, multiboot2ParseFramebuffer] at hwithin ⊢
  · exact h.completes_parseMemoryMap htag hwithin hturns
  · exact h.completes_parseFramebuffer hsize _
  · exact h.completes_parseModule hsize hwithin
  · exact h.completes_parseElfSections hwithin
  · exact h.completes_parseAcpiPointer hsize false
  · exact h.completes_parseAcpiPointer hsize true
  · exact (h.completes_copyString (by decide)).mpr hwithin
  · exact (h.completes_copyString (by decide)).mpr hwithin

/-! ## The series of tags -/

structure Interpreted (memory : Bytes) (limit tag : ℕ) : Prop where
  header : tag + 8 ≤ limit
  least : 8 ≤ tagSize memory tag
  type : tagType memory tag ≠ 0

/-- The tags of a structure, each with how many modules are recorded before it. -/
inductive Met (memory : Bytes) (header limit : ℕ) : ℕ → ℕ → Prop
  | first : Met memory header limit (header + 8) 0
  | next {tag recorded : ℕ} : Met memory header limit tag recorded →
      Interpreted memory limit tag → tag + tagSize memory tag ≤ limit →
      Met memory header limit (tag + multiboot2AlignTagSize (tagSize memory tag))
        (recordedAfter memory tag recorded)

/-- A structure that begins at a whole tag and above which there is room for more. -/
structure Placed (header limit : ℕ) : Prop where
  aligned : header % 8 = 0
  header_le : header + 8 ≤ limit
  room : limit + 16 ≤ 2 ^ 64

theorem alignTagSize_eq (h : size + 7 < 2 ^ 32) :
    multiboot2AlignTagSize size = (size + 7) / 8 * 8 := by
  unfold multiboot2AlignTagSize
  rw [Nat.mod_eq_of_lt h]

theorem Met.bounds (h : Met memory header limit tag recorded) (hplaced : Placed header limit)
    (hlimit : limit < header + 2 ^ 31) :
    tag % 8 = 0 ∧ header + 8 ≤ tag ∧ tag ≤ limit + 7 := by
  have haligned := hplaced.aligned
  have hheader := hplaced.header_le
  induction h with
  | first => omega
  | next _ hinterpreted hfits ih =>
      have hleast := hinterpreted.least
      rw [alignTagSize_eq (by omega)]
      omega

/-- Every tag is read within itself, and none but the last is so large that its
end wraps. -/
def SeriesWithin (memory : Bytes) (header limit : ℕ) : Prop :=
  ∀ tag recorded, Met memory header limit tag recorded → Interpreted memory limit tag →
    tag + tagSize memory tag < 2 ^ 64 ∧
      (tag + tagSize memory tag ≤ limit → WithinTag memory tag recorded)

theorem inside_bounds (hplaced : Placed header limit) (htag : header ≤ tag)
    (hleast : 8 ≤ tagSize memory tag) (hfits : tag + tagSize memory tag ≤ limit) :
    Bounds (Inside memory header limit) tag (tagSize memory tag) where
  read i := by
    have hroom := hplaced.room
    constructor
    · rintro ⟨-, -, hi | hi⟩
      · exact Nat.lt_of_lt_of_le hi hleast
      · exact hi
    · intro hi
      have heq : advance tag i = tag + i := advance_eq (by omega)
      exact ⟨by omega, by omega, Or.inr hi⟩
  wrote _ := trivial
  wroteHexadecimal _ := trivial

theorem ends_header_bind (hplaced : Placed header limit) (htag : header ≤ tag)
    (hheader : tag + 8 ≤ limit) {α : Type} {next : ℕ → Traced Effect α} {a : α}
    (hwithin : displacement + 4 ≤ 8) :
    Ends (Inside memory header limit) (member memory tag displacement 4 >>= next) a ↔
      Ends (Inside memory header limit) (next (readField memory (advance tag displacement) 4))
        a := by
  have hroom := hplaced.room
  have hread : ∀ i, displacement ≤ i → i < displacement + 4 →
      Inside memory header limit (.read tag i) := by
    intro i _ hi
    have heq : advance tag i = tag + i := advance_eq (by omega)
    exact ⟨by omega, by omega, Or.inl (by omega)⟩
  simp only [ends_bind, ends_member]
  constructor
  · rintro ⟨_, ⟨-, rfl⟩, hends⟩
    exact hends
  · exact fun hends ↦ ⟨_, ⟨hread, rfl⟩, hends⟩

variable {found : Bool} {answer : BootInformation × Bool}

theorem ends_parseTags_of_lt (h : limit < advance tag 8) :
    Ends P (parseTags memory limit (turns + 1) tag information found) answer ↔
      (information, found) = answer := by
  simp [parseTags, h]

theorem ends_parseTags_succ (hplaced : Placed header limit) (htag : header ≤ tag)
    (hheader : tag + 8 ≤ limit) :
    Ends (Inside memory header limit)
        (parseTags memory limit (turns + 1) tag information found) answer ↔
      if tagSize memory tag < 8 ∨ limit < advance tag (tagSize memory tag) then
        (information, found) = answer
      else if tagType memory tag = 0 then (information, found) = answer
      else
        ∃ a, Ends (Inside memory header limit)
            (interpretTag memory turns tag (tagType memory tag) information) a ∧
          Ends (Inside memory header limit)
            (parseTags memory limit turns
              (advance tag (multiboot2AlignTagSize (tagSize memory tag))) a.1 (found || a.2))
            answer := by
  have hroom := hplaced.room
  have hbefore : ¬limit < advance tag 8 := by
    rw [advance_eq (by omega)]
    omega
  have hwrote : ∀ text u, Ends (Inside memory header limit) (kernelWriteString text) u :=
    fun text u ↦ by simp [kernelWriteString, Inside]
  simp only [parseTags, ends_ite, hbefore, if_false,
    ends_header_bind hplaced htag hheader (show 4 + 4 ≤ 8 by decide),
    ends_header_bind hplaced htag hheader (show 0 + 4 ≤ 8 by decide), ends_bind, hwrote,
    ends_pure, true_and, exists_const]
  exact Iff.rfl

theorem not_ends_of_lt (hplaced : Placed header limit) (htag : tag + 8 ≤ header) :
    ¬Ends (Inside memory header limit) (parseTags memory limit turns tag information found)
      answer := by
  have hroom := hplaced.room
  have hheader := hplaced.header_le
  cases turns with
  | zero => exact not_ends_unending
  | succ turns =>
      intro hends
      have hbefore : ¬limit < advance tag 8 := by
        rw [advance_eq (by omega)]
        omega
      simp only [parseTags, ends_ite, hbefore, if_false, ends_bind, ends_member] at hends
      obtain ⟨_, ⟨hread, -⟩, -⟩ := hends
      have hle := (hread 4 le_rfl (by decide)).1
      rw [advance_eq (by omega)] at hle
      omega

theorem not_ends_of_wraps (hplaced : Placed header limit) (hlimit : limit ≤ header + 2 ^ 31)
    (htag : header ≤ tag) (hinterpreted : Interpreted memory limit tag)
    (hwraps : 2 ^ 64 ≤ tag + tagSize memory tag) :
    ¬Ends (Inside memory header limit) (parseTags memory limit turns tag information found)
      answer := by
  have hroom := hplaced.room
  have hlt := tagSize_lt memory tag
  have hheader := hinterpreted.header
  induction turns generalizing information found with
  | zero => exact not_ends_unending
  | succ turns ih =>
      intro hends
      rw [ends_parseTags_succ hplaced htag hheader, if_neg, if_neg hinterpreted.type] at hends
      swap
      · have hlow : advance tag (tagSize memory tag) ≤ limit := by
          unfold advance
          omega
        exact not_or.mpr ⟨not_lt.mpr hinterpreted.least, not_lt.mpr hlow⟩
      obtain ⟨a, -, hends⟩ := hends
      rcases Nat.lt_or_ge (tagSize memory tag + 7) (2 ^ 32) with hsmall | hlarge
      · -- the next tag would be read near the bottom of the address space
        refine not_ends_of_lt hplaced ?_ hends
        rw [alignTagSize_eq hsmall]
        unfold advance
        omega
      · -- the size padded is nothing, and the same tag comes again
        have hnothing : multiboot2AlignTagSize (tagSize memory tag) = 0 := by
          unfold multiboot2AlignTagSize
          omega
        rw [hnothing, advance_eq (by omega), Nat.add_zero] at hends
        exact ih hends

theorem Met.ends (hplaced : Placed header limit) (hlimit : limit < header + 2 ^ 31)
    (hmet : Met memory header limit tag recorded)
    (hends : Ends (Inside memory header limit)
      (parseTags memory limit turns (header + 8) information found) answer)
    (hnone : information.modules = []) :
    ∃ turns' information' found', information'.modules.length = recorded ∧
      Ends (Inside memory header limit)
        (parseTags memory limit turns' tag information' found') answer := by
  have hroom := hplaced.room
  induction hmet with
  | first => exact ⟨turns, information, found, by rw [hnone]; rfl, hends⟩
  | @next tag recorded hmet hinterpreted hfits ih =>
      obtain ⟨turns', information', found', hrecorded, hends'⟩ := ih
      obtain ⟨-, hfirst, hlast⟩ := hmet.bounds hplaced hlimit
      cases turns' with
      | zero => exact absurd hends' not_ends_unending
      | succ turns' =>
          rw [ends_parseTags_succ hplaced (by omega) hinterpreted.header, if_neg,
            if_neg hinterpreted.type] at hends'
          swap
          · rw [advance_eq (by omega)]
            exact not_or.mpr ⟨not_lt.mpr hinterpreted.least, not_lt.mpr hfits⟩
          obtain ⟨a, hinterpret, hrest⟩ := hends'
          have hbounds := inside_bounds hplaced (by omega) hinterpreted.least hfits
          rw [alignTagSize_eq (by omega), advance_eq (by omega),
            ← alignTagSize_eq (by omega)] at hrest
          refine ⟨turns', a.1, _, ?_, hrest⟩
          rw [(hbounds.of_ends_interpretTag (by omega) hinterpret).2, hrecorded]

theorem seriesWithin_of_ends (hplaced : Placed header limit) (hlimit : limit < header + 2 ^ 31)
    (hends : Ends (Inside memory header limit)
      (parseTags memory limit turns (header + 8) information found) answer)
    (hnone : information.modules = []) : SeriesWithin memory header limit := by
  have hroom := hplaced.room
  intro tag recorded hmet hinterpreted
  obtain ⟨-, hfirst, -⟩ := hmet.bounds hplaced hlimit
  obtain ⟨turns', information', found', hrecorded, hends'⟩ :=
    hmet.ends hplaced hlimit hends hnone
  constructor
  · by_contra hwraps
    exact not_ends_of_wraps hplaced hlimit.le (by omega) hinterpreted (not_lt.mp hwraps) hends'
  · intro hfits
    cases turns' with
    | zero => exact absurd hends' not_ends_unending
    | succ turns' =>
        rw [ends_parseTags_succ hplaced (by omega) hinterpreted.header, if_neg,
          if_neg hinterpreted.type] at hends'
        swap
        · rw [advance_eq (by omega)]
          exact not_or.mpr ⟨not_lt.mpr hinterpreted.least, not_lt.mpr hfits⟩
        obtain ⟨a, hinterpret, -⟩ := hends'
        have hbounds := inside_bounds hplaced (by omega) hinterpreted.least hfits
        rw [← hrecorded]
        exact (hbounds.of_ends_interpretTag (by omega) hinterpret).1

theorem SeriesWithin.completes (h : SeriesWithin memory header limit)
    (hplaced : Placed header limit) (hlimit : limit < header + 2 ^ 31)
    (hmet : Met memory header limit tag information.modules.length)
    (hturns : limit + 8 < tag + turns) :
    Completes (Inside memory header limit)
      (parseTags memory limit turns tag information found) := by
  have hroom := hplaced.room
  induction turns generalizing tag information found with
  | zero =>
      have hlast := (hmet.bounds hplaced hlimit).2.2
      omega
  | succ turns ih =>
      obtain ⟨-, hfirst, hlast⟩ := hmet.bounds hplaced hlimit
      by_cases hheader : tag + 8 ≤ limit
      · simp only [Completes, ends_parseTags_succ hplaced (show header ≤ tag by omega) hheader]
        by_cases hmalformed : tagSize memory tag < 8 ∨ limit < advance tag (tagSize memory tag)
        · exact ⟨_, by rw [if_pos hmalformed]⟩
        by_cases htype : tagType memory tag = 0
        · exact ⟨_, by rw [if_neg hmalformed, if_pos htype]⟩
        have hinterpreted : Interpreted memory limit tag :=
          ⟨hheader, not_lt.mp fun hless ↦ hmalformed (Or.inl hless), htype⟩
        obtain ⟨hnowrap, hwithin⟩ := h tag _ hmet hinterpreted
        have hfits : tag + tagSize memory tag ≤ limit := by
          rw [← advance_eq hnowrap]
          exact not_lt.mp fun hless ↦ hmalformed (Or.inr hless)
        have hleast := hinterpreted.least
        have hbounds := inside_bounds hplaced (by omega) hleast hfits
        obtain ⟨a, hinterpret⟩ := hbounds.completes_interpretTag hleast hnowrap
          (show tagSize memory tag ≤ turns by omega) (hwithin hfits)
        have hnext : Met memory header limit (tag + multiboot2AlignTagSize (tagSize memory tag))
            a.1.modules.length := by
          rw [(hbounds.of_ends_interpretTag hnowrap hinterpret).2]
          exact hmet.next hinterpreted hfits
        have haligned : multiboot2AlignTagSize (tagSize memory tag) =
            (tagSize memory tag + 7) / 8 * 8 := alignTagSize_eq (by omega)
        obtain ⟨answer, hrest⟩ := ih hnext (by omega)
        refine ⟨answer, ?_⟩
        rw [if_neg hmalformed, if_neg htype, advance_eq (by omega)]
        exact ⟨a, hinterpret, hrest⟩
      · refine ⟨_, (ends_parseTags_of_lt ?_).mpr rfl⟩
        rw [advance_eq (by omega)]
        omega

/-! ## The whole structure -/

def totalSize (memory : Bytes) (informationAddress : ℕ) : ℕ :=
  readField memory (physicalToVirtual informationAddress) 4

/-- The parser comes to an end, and it has read nothing outside the structure nor,
of any tag, anything beyond the size the tag declares. -/
def ParsesInside (memory : Bytes) (kernelStart kernelEnd informationAddress : ℕ) : Prop :=
  ∃ turns, Completes
    (Inside memory (physicalToVirtual informationAddress)
      (physicalToVirtual informationAddress + totalSize memory informationAddress))
    (bootInformationParseMultiboot2 memory kernelStart kernelEnd turns informationAddress)

/-- A structure the parser accepts: it begins at a whole tag, and is of a size that is
plausible.  No structure reaches the top of the address space. -/
structure Accepted (memory : Bytes) (informationAddress : ℕ) : Prop where
  aligned : informationAddress % 8 = 0
  least : 8 ≤ totalSize memory informationAddress
  most : totalSize memory informationAddress ≤ multiboot2TotalSizeMaximum
  room : physicalToVirtual informationAddress + totalSize memory informationAddress + 16 ≤ 2 ^ 64

theorem Accepted.placed {informationAddress : ℕ} (h : Accepted memory informationAddress) :
    Placed (physicalToVirtual informationAddress)
      (physicalToVirtual informationAddress + totalSize memory informationAddress) where
  aligned := by
    have haligned := h.aligned
    unfold physicalToVirtual kernelVirtualBase
    omega
  header_le := by
    have hleast := h.least
    omega
  room := h.room

theorem completes_wrote {text : String} {b : Bool} {information : BootInformation} :
    Completes (Inside memory header limit) (do
      kernelWriteString text
      return (b, information)) := by
  simp [kernelWriteString, completes_bind, Inside]

theorem completes_bootInformationParse {kernelStart kernelEnd informationAddress : ℕ}
    (haccepted : Accepted memory informationAddress)
    (hlimit : physicalToVirtual informationAddress + totalSize memory informationAddress = limit)
    (hheader : physicalToVirtual informationAddress = header) :
    Completes (Inside memory header limit)
        (bootInformationParseMultiboot2 memory kernelStart kernelEnd turns informationAddress) ↔
      Completes (Inside memory header limit)
        (parseTags memory limit turns (header + 8)
          { BootInformation.initial with
            bootInformationStart := informationAddress
            bootInformationEnd := informationAddress + totalSize memory informationAddress
            kernelPhysicalStart := kernelStart
            kernelPhysicalEnd := kernelEnd } false) := by
  have hplaced := haccepted.placed
  rw [hlimit, hheader] at hplaced
  have hroom := hplaced.room
  have hleast := haccepted.least
  have hsize : ¬(totalSize memory informationAddress < 8 ∨
      multiboot2TotalSizeMaximum < totalSize memory informationAddress) :=
    not_or.mpr ⟨not_lt.mpr haccepted.least, not_lt.mpr haccepted.most⟩
  have hread : readField memory (advance header 0) 4 = totalSize memory informationAddress := by
    rw [advance_eq (by omega), Nat.add_zero, ← hheader, totalSize]
  unfold bootInformationParseMultiboot2
  rw [if_neg (by simp [haccepted.aligned]), hheader]
  simp only [Completes, ends_header_bind hplaced le_rfl hplaced.header_le (show 0 + 4 ≤ 8 by decide),
    hread, hsize, if_false]
  rw [advance_eq (by omega), advance_eq (by omega), ← hheader, hlimit]
  change Completes _ (_ >>= _) ↔ Completes _ _
  rw [completes_bind]
  refine exists_congr fun answer ↦ and_iff_left ?_
  rw [completes_ite]
  split_ifs
  · exact completes_wrote
  · exact completes_pure _

/-- The parser stays inside the structure and inside each of its tags exactly when
every tag it interprets bears what is read of it. -/
theorem parsesInside_iff (memory : Bytes) (kernelStart kernelEnd informationAddress : ℕ)
    (haccepted : Accepted memory informationAddress) :
    ParsesInside memory kernelStart kernelEnd informationAddress ↔
      SeriesWithin memory (physicalToVirtual informationAddress)
        (physicalToVirtual informationAddress + totalSize memory informationAddress) := by
  have hplaced := haccepted.placed
  have hmost : totalSize memory informationAddress ≤ 0x00100000 := haccepted.most
  have hlimit : physicalToVirtual informationAddress + totalSize memory informationAddress <
      physicalToVirtual informationAddress + 2 ^ 31 := by omega
  unfold ParsesInside
  simp only [completes_bootInformationParse haccepted rfl rfl]
  constructor
  · rintro ⟨turns, answer, hends⟩
    exact seriesWithin_of_ends hplaced hlimit hends rfl
  · intro hwithin
    exact ⟨totalSize memory informationAddress + 1,
      hwithin.completes hplaced hlimit Met.first (by omega)⟩

/-- A structure of sixteen bytes at `0x10000` whose one tag is of a given type, and
declares no more than its own header. -/
def oneTag (type : UInt8) : Bytes := fun i ↦
  if i = 0xFFFFFFFF80010000 then 16
  else if i = 0xFFFFFFFF80010008 then type
  else if i = 0xFFFFFFFF8001000C then 8
  else 0

theorem oneTag_accepted (type : UInt8) : Accepted (oneTag type) 0x10000 := by
  have htotal : totalSize (oneTag type) 0x10000 = 16 := by
    simp [totalSize, physicalToVirtual, kernelVirtualBase, readField, oneTag]
  refine ⟨by decide, ?_, ?_, ?_⟩ <;> rw [htotal] <;> decide

theorem parsesInside_iff_oneTag : ParsesInside (oneTag 0) 0 0 0x10000 := by
  refine (parsesInside_iff _ 0 0 0x10000 (oneTag_accepted 0)).mpr ?_
  intro tag recorded hmet hinterpreted
  -- the one tag ends the series
  have hend : tagType (oneTag 0) (physicalToVirtual 0x10000 + 8) = 0 := by decide
  have hfirst : tag = physicalToVirtual 0x10000 + 8 := by
    induction hmet with
    | first => rfl
    | next _ hbefore _ ih =>
        rw [ih hbefore] at hbefore
        exact absurd hend hbefore.type
  rw [hfirst] at hinterpreted
  exact absurd hend hinterpreted.type

/-- The size of the entries is read beyond a memory map that is only its header. -/
theorem shortMap_not_parsesInside : ∃ memory kernelStart kernelEnd informationAddress,
    Accepted memory informationAddress ∧
      ¬ParsesInside memory kernelStart kernelEnd informationAddress := by
  refine ⟨oneTag 6, 0, 0, 0x10000, oneTag_accepted 6, ?_⟩
  rintro ⟨turns, hcompletes⟩
  have hplaced := (oneTag_accepted 6).placed
  obtain ⟨answer, hends⟩ := (completes_bootInformationParse (oneTag_accepted 6) rfl rfl).mp hcompletes
  have hwithin := seriesWithin_of_ends hplaced (by decide) hends rfl
  have hinterpreted : Interpreted (oneTag 6)
      (physicalToVirtual 0x10000 + totalSize (oneTag 6) 0x10000)
      (physicalToVirtual 0x10000 + 8) := ⟨by decide, by decide, by decide⟩
  have hmap := (hwithin _ _ Met.first hinterpreted).2 (by decide)
  have hsize : 12 ≤ tagSize (oneTag 6) (physicalToVirtual 0x10000 + 8) := hmap.1
  revert hsize
  decide

end OxysOS.Handoff
