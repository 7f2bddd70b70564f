import OxysOS.Exec.ElfLoad

/-!
# The memory an image describes

What is read, through the tables, at each address of the user's half of a space
that an image has been loaded into.
-/

namespace OxysOS.Exec

open OxysOS.Library OxysOS.Mm Action

variable {space : AddressSpace} {image : Bytes} {segment other : ElfProgramHeader}
  {segments : List ElfProgramHeader} {done : List (ElfProgramHeader × ℕ)} {frame : ℕ → ℕ}
  {progress : ElfProgress} {start s : Machine} {page address length o : ℕ}

def translateIn (space : AddressSpace) (s : Machine) (address : ℕ) : ℕ :=
  pagingTranslate { s with activeRoot := space.root } address

def readIn (space : AddressSpace) (s : Machine) (address : ℕ) : UInt8 :=
  s.memory (frameIndexOf (translateIn space s address)) (translateIn space s address % pageSize)

def ElfProgramHeader.Contains (segment : ElfProgramHeader) (address : ℕ) : Prop :=
  segment.virtualAddress ≤ address ∧ address < segment.finish

def ElfProgramHeader.Touches (segment : ElfProgramHeader) (address : ℕ) : Prop :=
  ∃ a, segment.Contains a ∧ alignDown a = alignDown address

def TouchedBy (segments : List ElfProgramHeader) (address : ℕ) : Prop :=
  ∃ segment ∈ segments, segment.loads = true ∧ segment.Touches address

/-- The user's half holds what the segments describe and no more, and the rest
is as it was. -/
structure Describes (space : AddressSpace) (image : Bytes) (segments : List ElfProgramHeader)
    (start s : Machine) : Prop where
  byte : ∀ segment ∈ segments, segment.loads = true → ∀ address, segment.Contains address →
    readIn space s address =
      if address - segment.virtualAddress < segment.fileSize then
        image (segment.fileOffset + (address - segment.virtualAddress))
      else 0
  zero : ∀ address, address < syscallUserLimit → translateIn space s address ≠ 0 →
    (∀ segment ∈ segments, segment.loads = true → ¬segment.Contains address) →
    readIn space s address = 0
  mapped : ∀ address, address < syscallUserLimit →
    (translateIn space s address ≠ 0 ↔ TouchedBy segments address)
  user : ∀ address, address < syscallUserLimit → translateIn space s address ≠ 0 →
    pagingAddressPermits s space.root address pageEntryUser = true
  writable : ∀ address, address < syscallUserLimit →
    (pagingAddressPermits s space.root address pageEntryWritable = true ↔
      ∃ segment ∈ segments, segment.loads = true ∧ segment.Touches address ∧
        segment.isWritable = true)
  lower : ∀ segment ∈ segments, segment.loads = true → ∀ address, segment.Touches address →
    pageSize ≤ address ∧ address < syscallUserLimit
  own : ∀ address, address < syscallUserLimit → translateIn space s address ≠ 0 →
    Private space.user s (frameIndexOf (translateIn space s address)) ∧
      start.frames.isUsed (frameIndexOf (translateIn space s address)) = false
  apart : ∀ address other, address < syscallUserLimit → other < syscallUserLimit →
    translateIn space s address ≠ 0 → translateIn space s other ≠ 0 →
    frameIndexOf (translateIn space s address) = frameIndexOf (translateIn space s other) →
    alignDown address = alignDown other
  upper : ∀ i, pageTableUserEntryCount ≤ i →
    s.slot (frameIndexOf space.root) i = start.slot (frameIndexOf space.root) i
  elsewhere : ∀ n, start.frames.isUsed n = true →
    (∀ q, space.user.Within q → start.table space.user q ≠ some n) → s.memory n = start.memory n

theorem translateIn_eq_leaf (h : Hierarchy space.user s) (hroot : space.root ≠ 0)
    (haddress : address < 2 ^ 47) : translateIn space s address =
      if s.leaf space.user address &&& pageEntryPresent = 0 then 0
      else entryAddress (s.leaf space.user address) + address % pageSize := by
  have hactive : Hierarchy space.user { s with activeRoot := space.root } :=
    ⟨h.tree, h.used, h.plain, h.rights, h.sound⟩
  exact pagingTranslate_eq hactive (space.within_user haddress) rfl hroot

theorem readIn_congr (h : Hierarchy space.user start) (h' : Hierarchy space.user s)
    (hroot : space.root ≠ 0) (haddress : address < 2 ^ 47)
    (hleaf : s.leaf space.user address = start.leaf space.user address)
    (hmemory : s.memory (frameIndexOf (translateIn space start address)) =
      start.memory (frameIndexOf (translateIn space start address))) :
    readIn space s address = readIn space start address := by
  have heq : translateIn space s address = translateIn space start address := by
    rw [translateIn_eq_leaf h hroot haddress, translateIn_eq_leaf h' hroot haddress, hleaf]
  unfold readIn
  rw [heq, hmemory]

theorem permits_user (h : Hierarchy space.user s) (haddress : address < 2 ^ 47) :
    pagingAddressPermits s space.root address pageEntryUser =
      decide (s.leaf space.user address &&& pageEntryPresent ≠ 0 ∧
        s.leaf space.user address &&& pageEntryUser ≠ 0) := by
  have hrights : space.user.rights &&& pageEntryUser = pageEntryUser := by
    change (pageEntryWritable ||| pageEntryUser) &&& pageEntryUser = pageEntryUser
    decide
  have heq := pagingAddressPermits_eq h (space.within_user haddress) hrights
  change pagingAddressPermits s space.root address pageEntryUser = _ at heq
  rw [heq]

theorem touchedBy_alignDown :
    TouchedBy segments (alignDown address) ↔ TouchedBy segments address := by
  unfold TouchedBy ElfProgramHeader.Touches
  rw [alignDown_of_aligned (alignDown_aligned address)]

theorem mem_imageSteps {step : ElfProgramHeader × ℕ} : step ∈ imageSteps segments ↔
    step.1 ∈ segments ∧ step.1.loads = true ∧
      ∃ i, i < step.1.pageCount ∧ step.2 = step.1.firstPage + i * pageSize := by
  induction segments with
  | nil => simp [imageSteps]
  | cons segment segments ih =>
      rw [imageSteps]
      by_cases hloads : segment.loads = true
      · rw [if_pos hloads, List.mem_append, mem_pageSteps, ih, List.mem_cons]
        constructor
        · rintro (⟨rfl, hpage⟩ | ⟨hmem, hrest⟩)
          · exact ⟨Or.inl rfl, hloads, hpage⟩
          · exact ⟨Or.inr hmem, hrest⟩
        · rintro ⟨rfl | hmem, hrest⟩
          · exact Or.inl ⟨rfl, hrest.2⟩
          · exact Or.inr ⟨hmem, hrest⟩
      · rw [if_neg hloads, ih, List.mem_cons]
        constructor
        · rintro ⟨hmem, hrest⟩
          exact ⟨Or.inr hmem, hrest⟩
        · rintro ⟨rfl | hmem, hrest⟩
          · exact absurd hrest.1 hloads
          · exact ⟨hmem, hrest⟩

theorem page_of_between (haligned : page % pageSize = 0) (hfirst : segment.firstPage ≤ page)
    (hlast : page ≤ segment.lastPage) :
    ∃ i, i < segment.pageCount ∧ page = segment.firstPage + i * pageSize := by
  have hfirst' := alignDown_aligned segment.virtualAddress
  unfold ElfProgramHeader.pageCount
  unfold ElfProgramHeader.firstPage at hfirst ⊢
  unfold pageSize at haligned hfirst' ⊢
  exact ⟨(page - alignDown segment.virtualAddress) / 4096, by omega, by omega⟩

theorem touches_iff (hloads : segment.loads = true) : segment.Touches address ↔
    segment.firstPage ≤ alignDown address ∧ alignDown address ≤ segment.lastPage := by
  have hsize := (loads_iff segment).mp hloads
  unfold ElfProgramHeader.Touches ElfProgramHeader.Contains ElfProgramHeader.finish
    ElfProgramHeader.firstPage ElfProgramHeader.lastPage
  constructor
  · rintro ⟨a, ⟨hlow, hhigh⟩, heq⟩
    rw [← heq]
    exact ⟨alignDown_mono hlow, alignDown_mono (by omega)⟩
  · rintro ⟨hfirst, hlast⟩
    by_cases hbefore : alignDown address < segment.virtualAddress
    · refine ⟨segment.virtualAddress, ⟨le_rfl, by omega⟩, ?_⟩
      unfold alignDown pageSize at *
      omega
    · have hle := alignDown_le (segment.virtualAddress + (segment.memorySize - 1))
      refine ⟨alignDown address, ⟨by omega, by omega⟩, ?_⟩
      exact alignDown_of_aligned (alignDown_aligned address)

theorem mem_imageSteps_page : (segment, alignDown address) ∈ imageSteps segments ↔
    segment ∈ segments ∧ segment.loads = true ∧ segment.Touches address := by
  rw [mem_imageSteps]
  refine and_congr_right fun _ ↦ and_congr_right fun hloads ↦ ?_
  rw [touches_iff hloads]
  constructor
  · rintro ⟨i, hi, heq⟩
    dsimp only at hi heq
    rw [heq]
    exact ⟨Nat.le_add_right _ _, page_le_lastPage segment hi⟩
  · rintro ⟨hfirst, hlast⟩
    exact page_of_between (alignDown_aligned address) hfirst hlast

theorem touched_imageSteps :
    Touched (imageSteps segments) (alignDown address) ↔ TouchedBy segments address := by
  unfold Touched TouchedBy
  constructor
  · rintro ⟨step, hstep, heq⟩
    rw [← Prod.mk.eta (p := step), heq] at hstep
    exact ⟨step.1, mem_imageSteps_page.mp hstep⟩
  · rintro ⟨segment, h⟩
    exact ⟨(segment, alignDown address), mem_imageSteps_page.mpr h, rfl⟩

theorem SegmentsAdmitted.unique (h : SegmentsAdmitted segments length) (hsegment : segment ∈ segments)
    (hother : other ∈ segments) (hloads : segment.loads = true) (hloads' : other.loads = true)
    (hin : segment.Contains address) (hin' : other.Contains address) : segment = other := by
  by_contra hne
  have hsymm : Std.Symm fun first second : ElfProgramHeader ↦
      first.loads = true → second.loads = true →
        first.finish ≤ second.virtualAddress ∨ second.finish ≤ first.virtualAddress :=
    ⟨fun _ _ h hfirst hsecond ↦ (h hsecond hfirst).symm⟩
  have hpair := (h.ordered.imp fun {_ _} h hfirst hsecond ↦ Or.inl (h hfirst hsecond)).forall
    (R := fun first second : ElfProgramHeader ↦ first.loads = true → second.loads = true →
        first.finish ≤ second.virtualAddress ∨ second.finish ≤ first.virtualAddress)
    hsegment hother hne hloads hloads'
  unfold ElfProgramHeader.Contains at hin hin'
  omega

theorem byteIn_of_unbacked (h : ∀ step ∈ done, step.2 = page → ¬step.1.Backs (page + o)) :
    byteIn image done page o = 0 := by
  induction done using List.reverseRecOn with
  | nil => rfl
  | append_singleton done step ih =>
      have hlast := h step (by simp)
      have hrest := ih fun other hother ↦ h other (by simp [hother])
      change byteIn image (done ++ [(step.1, step.2)]) page o = 0
      rw [byteIn_concat, if_neg (fun hstep ↦ hlast hstep.1 hstep.2), hrest]

theorem byteIn_of_backed (hmem : (segment, page) ∈ done) (hbacks : segment.Backs (page + o))
    (h : ∀ step ∈ done, step.2 = page → step.1.Backs (page + o) → step.1 = segment) :
    byteIn image done page o = segment.fileByte image (page + o) := by
  induction done using List.reverseRecOn with
  | nil => cases hmem
  | append_singleton done step ih =>
      change byteIn image (done ++ [(step.1, step.2)]) page o = _
      rw [byteIn_concat]
      by_cases hlast : step.2 = page ∧ step.1.Backs (page + o)
      · rw [if_pos hlast, h step (by simp) hlast.1 hlast.2]
      · rw [if_neg hlast]
        apply ih
        · rw [List.mem_append, List.mem_singleton] at hmem
          rcases hmem with hmem | rfl
          · exact hmem
          · exact absurd ⟨rfl, hbacks⟩ hlast
        · exact fun other hother ↦ h other (by simp [hother])

theorem writableIn_iff : writableIn done page = true ↔
    ∃ segment, (segment, page) ∈ done ∧ segment.isWritable = true := by
  unfold writableIn
  rw [List.any_eq_true]
  constructor
  · rintro ⟨⟨segment, other⟩, hstep, heq⟩
    rw [decide_eq_true_eq] at heq
    dsimp only at heq
    rw [← heq.1]
    exact ⟨segment, hstep, heq.2⟩
  · rintro ⟨segment, hstep, hwritable⟩
    exact ⟨(segment, page), hstep, by simpa using hwritable⟩

theorem present_pageEntry (f : ℕ) (writable : Bool) :
    pageEntry f writable &&& pageEntryPresent ≠ 0 := present_leafEntry _ _

theorem pageEntry_user (f : ℕ) (writable : Bool) : pageEntry f writable &&& pageEntryUser ≠ 0 := by
  unfold pageEntry leafEntry
  rw [BitVec.or_assoc, and_or_of_and]
  · decide
  · cases writable <;> decide

theorem pageEntry_writable (f : ℕ) (writable : Bool) :
    pageEntry f writable &&& pageEntryWritable ≠ 0 ↔ writable = true := by
  unfold pageEntry leafEntry
  rw [BitVec.or_assoc]
  cases writable with
  | true =>
      rw [and_or_of_and (by decide)]
      decide
  | false =>
      rw [or_and_of_zero (by decide), BitVec.and_assoc]
      simp only [Bool.false_eq_true, iff_false, ne_eq, not_not]
      exact BitVec.and_zero

namespace Loaded

theorem leaf_of_touched (h : Loaded space image done frame progress start s)
    (htouched : Touched done (alignDown address)) : s.leaf space.user address =
      pageEntry (frame (alignDown address)) (writableIn done (alignDown address)) := by
  rw [← leaf_alignDown]
  exact h.leaf _ htouched

theorem translateIn_eq (h : Loaded space image done frame progress start s)
    (hroot : space.root ≠ 0) (haddress : address < 2 ^ 47) :
    (Touched done (alignDown address) ∧
        translateIn space s address = frame (alignDown address) * pageSize + address % pageSize) ∨
      (¬Touched done (alignDown address) ∧ translateIn space s address = 0) := by
  have heq := translateIn_eq_leaf h.hierarchy hroot haddress
  by_cases htouched : Touched done (alignDown address)
  · left
    refine ⟨htouched, ?_⟩
    rw [heq, h.leaf_of_touched htouched, if_neg (present_pageEntry _ _),
      entryAddress_pageEntry (h.frames _ htouched).2]
  · right
    rw [heq, h.absent address haddress htouched, if_pos zero_and_present]
    exact ⟨htouched, rfl⟩

theorem translateIn_parts (h : Loaded space image done frame progress start s)
    (hroot : space.root ≠ 0) (haddress : address < 2 ^ 47)
    (htouched : Touched done (alignDown address)) :
    frameIndexOf (translateIn space s address) = frame (alignDown address) ∧
      translateIn space s address % pageSize = address % pageSize ∧
      translateIn space s address ≠ 0 := by
  have heq := ((h.translateIn_eq hroot haddress).resolve_right fun hnot ↦ hnot.1 htouched).2
  have hframe := (h.frames _ htouched).1
  rw [heq]
  unfold frameIndexOf pageSize
  omega

theorem translateIn_ne_zero (h : Loaded space image done frame progress start s)
    (hroot : space.root ≠ 0) (haddress : address < 2 ^ 47) :
    translateIn space s address ≠ 0 ↔ Touched done (alignDown address) := by
  constructor
  · intro hne
    exact ((h.translateIn_eq hroot haddress).resolve_right fun hnot ↦ hne hnot.2).1
  · exact fun htouched ↦ (h.translateIn_parts hroot haddress htouched).2.2

theorem readIn_eq (h : Loaded space image done frame progress start s) (hroot : space.root ≠ 0)
    (haddress : address < 2 ^ 47) (htouched : Touched done (alignDown address)) :
    readIn space s address = byteIn image done (alignDown address) (address % pageSize) := by
  obtain ⟨hframe, hoffset, -⟩ := h.translateIn_parts hroot haddress htouched
  unfold readIn
  rw [hframe, hoffset]
  exact h.bytes _ _ htouched (Nat.mod_lt _ (by decide))

theorem permits_iff {permission : BitVec 64}
    (h : Loaded space image done frame progress start s) (haddress : address < 2 ^ 47)
    (hrights : (pageEntryWritable ||| pageEntryUser) &&& permission = permission) :
    pagingAddressPermits s space.root address permission = true ↔
      Touched done (alignDown address) ∧ pageEntry (frame (alignDown address))
        (writableIn done (alignDown address)) &&& permission ≠ 0 := by
  have heq := pagingAddressPermits_eq h.hierarchy (space.within_user haddress) hrights
  change pagingAddressPermits s space.root address permission = _ at heq
  rw [heq, decide_eq_true_eq]
  by_cases htouched : Touched done (alignDown address)
  · rw [h.leaf_of_touched htouched]
    exact ⟨fun hleaf ↦ ⟨htouched, hleaf.2⟩, fun hleaf ↦ ⟨present_pageEntry _ _, hleaf.2⟩⟩
  · rw [h.absent address haddress htouched]
    exact ⟨fun hleaf ↦ absurd zero_and_present hleaf.1, fun hleaf ↦ absurd hleaf.1 htouched⟩

end Loaded

theorem alignDown_add_mod (address : ℕ) : alignDown address + address % pageSize = address :=
  Nat.div_add_mod' address pageSize

theorem ElfProgramHeader.Backs.contains (h : segment.Backs address)
    (hfits : segment.fileSize ≤ segment.memorySize) : segment.Contains address := by
  obtain ⟨hlow, hhigh⟩ := h
  unfold ElfProgramHeader.Contains ElfProgramHeader.finish
  omega

theorem ElfProgramHeader.Contains.touches (h : segment.Contains address) :
    segment.Touches address := ⟨address, h, rfl⟩

theorem Loaded.describes (h : Loaded space image (imageSteps segments) frame progress start s)
    (hroot : space.root ≠ 0) (hadmitted : SegmentsAdmitted segments length) :
    Describes space image segments start s := by
  have hmapped : ∀ address, address < 2 ^ 47 →
      (translateIn space s address ≠ 0 ↔ TouchedBy segments address) := by
    intro address haddress
    rw [h.translateIn_ne_zero hroot haddress, touched_imageSteps]
  have hhigh : ∀ segment ∈ segments, segment.loads = true → ∀ address, segment.Touches address →
      pageSize ≤ address ∧ address < 2 ^ 47 := by
    intro segment hsegment hloads address htouches
    have htouched := touched_imageSteps.mpr ⟨segment, hsegment, hloads, htouches⟩
    obtain ⟨haligned, hlow, hlimit⟩ := h.pages _ htouched
    have hsum := alignDown_add_mod address
    unfold pageSize at haligned hlow hsum ⊢
    omega
  have hbacks : ∀ address, ∀ step ∈ imageSteps segments, step.1.Backs address →
      step.1 ∈ segments ∧ step.1.loads = true ∧ step.1.Contains address := by
    intro address step hstep hbacks
    obtain ⟨hmem, hloads, -⟩ := mem_imageSteps.mp hstep
    exact ⟨hmem, hloads, hbacks.contains (hadmitted.each _ hmem hloads).fits⟩
  constructor
  · intro segment hsegment hloads address hin
    have hlimit := (hhigh segment hsegment hloads address hin.touches).2
    rw [h.readIn_eq hroot hlimit (touched_imageSteps.mpr ⟨segment, hsegment, hloads, hin.touches⟩)]
    by_cases hfile : segment.Backs address
    · have hless : address - segment.virtualAddress < segment.fileSize := by
        obtain ⟨hlow, hend⟩ := hfile
        omega
      rw [if_pos hless, byteIn_of_backed
        (mem_imageSteps_page.mpr ⟨hsegment, hloads, hin.touches⟩)]
      · unfold ElfProgramHeader.fileByte
        rw [alignDown_add_mod]
      · rwa [alignDown_add_mod]
      · intro step hstep _ hstep'
        rw [alignDown_add_mod] at hstep'
        obtain ⟨hmem, hloads', hin'⟩ := hbacks address step hstep hstep'
        exact hadmitted.unique hmem hsegment hloads' hloads hin' hin
    · have hmore : ¬address - segment.virtualAddress < segment.fileSize := by
        intro hless
        exact hfile ⟨hin.1, by have hlow := hin.1; omega⟩
      rw [if_neg hmore, byteIn_of_unbacked]
      intro step hstep _ hstep'
      rw [alignDown_add_mod] at hstep'
      obtain ⟨hmem, hloads', hin'⟩ := hbacks address step hstep hstep'
      rw [hadmitted.unique hmem hsegment hloads' hloads hin' hin] at hstep'
      exact hfile hstep'
  · intro address haddress hne hnot
    have htouched := (h.translateIn_ne_zero hroot haddress).mp hne
    rw [h.readIn_eq hroot haddress htouched, byteIn_of_unbacked]
    intro step hstep _ hstep'
    rw [alignDown_add_mod] at hstep'
    obtain ⟨hmem, hloads', hin'⟩ := hbacks address step hstep hstep'
    exact hnot _ hmem hloads' hin'
  · exact hmapped
  · intro address haddress hne
    rw [h.permits_iff haddress (by decide)]
    exact ⟨(h.translateIn_ne_zero hroot haddress).mp hne, pageEntry_user _ _⟩
  · intro address haddress
    rw [h.permits_iff haddress (by decide), pageEntry_writable, writableIn_iff]
    constructor
    · rintro ⟨-, segment, hstep, hwritable⟩
      obtain ⟨hmem, hloads, htouches⟩ := mem_imageSteps_page.mp hstep
      exact ⟨segment, hmem, hloads, htouches, hwritable⟩
    · rintro ⟨segment, hmem, hloads, htouches, hwritable⟩
      exact ⟨touched_imageSteps.mpr ⟨segment, hmem, hloads, htouches⟩, segment,
        mem_imageSteps_page.mpr ⟨hmem, hloads, htouches⟩, hwritable⟩
  · exact hhigh
  · intro address haddress hne
    have htouched := (h.translateIn_ne_zero hroot haddress).mp hne
    rw [(h.translateIn_parts hroot haddress htouched).1]
    exact ⟨h.held _ htouched, h.fresh _ htouched⟩
  · intro address other haddress hother hne hne' heq
    have htouched := (h.translateIn_ne_zero hroot haddress).mp hne
    have htouched' := (h.translateIn_ne_zero hroot hother).mp hne'
    rw [(h.translateIn_parts hroot haddress htouched).1,
      (h.translateIn_parts hroot hother htouched').1] at heq
    exact h.apart _ _ htouched htouched' heq
  · exact h.upper
  · exact h.elsewhere

/-- An image that the loader accepts is in the space as the file describes it. -/
theorem elfLoad_describes {loaded : ElfImage} (h : EmptySpace space start)
    (hload : outcome (elfLoad space image length) start = (.ok (.ok loaded), s)) :
    ∃ header segments, elfValidate image length = .ok (header, segments) ∧
      Describes space image segments start s := by
  cases hvalid : elfValidate image length with
  | error result =>
      unfold elfLoad at hload
      rw [hvalid] at hload
      cases hload
  | ok answer =>
      obtain ⟨header, segments⟩ := answer
      obtain ⟨-, frame, progress, hloaded⟩ := (elfLoad_run h hvalid).answered loaded
        (congrArg Prod.fst hload)
      rw [hload] at hloaded
      exact ⟨header, segments, rfl, hloaded.describes h.made (elfValidate_ok hvalid).1⟩

def plainImage (address : ℕ) : Bytes :=
  [(0, 4, 0x464C457F), (4, 3, 0x010102), (16, 2, 2), (18, 2, 62), (20, 4, 1), (24, 8, address),
    (32, 8, 64), (52, 2, 64), (54, 2, 56), (56, 2, 1), (64, 4, 1), (68, 4, 7), (80, 8, address),
    (96, 8, 120), (104, 8, 240)].foldl
    (fun raw (field : ℕ × ℕ × ℕ) ↦ writeField raw field.1 field.2.1 field.2.2) fun _ ↦ 0

def createAndLoad (image : Bytes) (length : ℕ) : Kernel (Option (Except ElfResult ElfImage)) := do
  match ← addressSpaceCreate with
  | none => return none
  | some space => return some (← elfLoad space image length)

def isLoaded : Except String (Option (Except ElfResult ElfImage)) → Bool
  | .ok (some (.ok _)) => true
  | _ => false

theorem exists_answer (h : s.frames.Sound) {answer : Except ElfResult ElfImage}
    (hload : (outcome (createAndLoad image length) s).1 = .ok (some answer)) :
    ∃ space start s', EmptySpace space start ∧
      outcome (elfLoad space image length) start = (.ok answer, s') := by
  unfold createAndLoad at hload
  rw [outcome_bind] at hload
  rcases addressSpaceCreate_cases h with ⟨-, text, heq⟩ | ⟨space, start, heq, hempty, -⟩
  · rw [heq] at hload
    cases hload
  · rw [heq] at hload
    dsimp only at hload
    rw [outcome_bind] at hload
    refine ⟨space, start, ?_⟩
    generalize outcome (elfLoad space image length) start = loaded at hload ⊢
    rcases loaded with ⟨⟨text⟩ | ⟨result⟩, s'⟩
    · cases hload
    · cases hload
      exact ⟨s', hempty, rfl⟩

theorem exists_load (h : s.frames.Sound)
    (hload : isLoaded (outcome (createAndLoad image length) s).1 = true) :
    ∃ space start loaded s', EmptySpace space start ∧
      outcome (elfLoad space image length) start = (.ok (.ok loaded), s') := by
  rcases hanswer : (outcome (createAndLoad image length) s).1 with text | _ | ⟨result⟩ | ⟨loaded⟩
  all_goals rw [hanswer] at hload
  · cases hload
  · cases hload
  · cases hload
  · obtain ⟨space, start, s', hempty, hrun⟩ := exists_answer h hanswer
    exact ⟨space, start, loaded, s', hempty, hrun⟩

theorem elfLoad_describes_plain : ∃ space start loaded s, EmptySpace space start ∧
    outcome (elfLoad space (plainImage 0x400F80) 120) start = (.ok (.ok loaded), s) ∧
    ∃ header segments, elfValidate (plainImage 0x400F80) 120 = .ok (header, segments) ∧
      Describes space (plainImage 0x400F80) segments start s := by
  obtain ⟨machine, hsound, hloads⟩ := exists_bootMachine 280
    (fun s ↦ isLoaded (outcome (createAndLoad (plainImage 0x400F80) 120) s).1) (by decide +kernel)
  obtain ⟨space, start, loaded, s, hempty, hload⟩ := exists_load hsound hloads
  exact ⟨space, start, loaded, s, hempty, hload, elfLoad_describes hempty hload⟩

end OxysOS.Exec
