import OxysOS.Library.Placement
import OxysOS.Mm.FrameAccount

/-!
# Where the bitmap is placed

`PhysicalMemoryPlaceBitmap` takes, of the first usable region that has room, the
lowest page from which the bitmap meets neither the kernel nor the boot
information.
-/

namespace OxysOS.Mm

open OxysOS.Library

variable {information : BootInformation} {region : BootMemoryRegion} {n place candidate : ℕ}
  {start finish i : ℕ} {s : FrameAllocator}

/-- What is reported of a machine no address of which is in the upper half of
the range: nothing computed upon such an address wraps. -/
structure Reported (information : BootInformation) : Prop where
  highest : information.highestUsableAddress ≤ 2 ^ 63
  regions : ∀ region ∈ information.memoryRegions, region.type = .usable →
    region.baseAddress + region.length ≤ 2 ^ 63
  kernel : information.kernelPhysicalStart < information.kernelPhysicalEnd
  kernel_le : information.kernelPhysicalEnd ≤ 2 ^ 63
  boot : information.bootInformationStart < information.bootInformationEnd
  boot_le : information.bootInformationEnd ≤ 2 ^ 63
  modules : ∀ image ∈ information.modules, image.start < image.finish
  modules_le : ∀ image ∈ information.modules, image.finish ≤ 2 ^ 63

theorem pageSize_pos : 0 < pageSize := by decide

theorem alignUp_eq (h : start ≤ 2 ^ 63) : alignUp start = roundUp pageSize start := by
  have hsize : pageSize = 4096 := rfl
  unfold alignUp roundUp
  rw [Nat.mod_eq_of_lt (by omega)]

theorem roundUp_page_le (h : start ≤ 2 ^ 63) : roundUp pageSize start ≤ 2 ^ 63 :=
  roundUp_le pageSize_pos (by decide) h

theorem skip_page_le (hfinish : finish ≤ 2 ^ 63) (hcandidate : candidate ≤ 2 ^ 63) :
    skip pageSize n start finish candidate ≤ 2 ^ 63 := by
  unfold skip
  split_ifs
  · exact roundUp_page_le hfinish
  · exact hcandidate

theorem skip_page_eq (hfinish : finish ≤ 2 ^ 63) (hcandidate : candidate ≤ 2 ^ 63)
    (hn : n < 2 ^ 63) :
    (if candidate < finish ∧ start < (candidate + n) % 2 ^ 64 then alignUp finish else candidate) =
      skip pageSize n start finish candidate := by
  rw [Nat.mod_eq_of_lt (by omega), alignUp_eq hfinish]
  rfl

def passExtents (information : BootInformation) (n candidate : ℕ) : ℕ :=
  passOver pageSize n information.kernelPhysicalStart information.kernelPhysicalEnd
    information.bootInformationStart information.bootInformationEnd candidate

theorem passExtents_le (h : Reported information) (hcandidate : candidate ≤ 2 ^ 63) :
    passExtents information n candidate ≤ 2 ^ 63 :=
  skip_page_le h.boot_le (skip_page_le h.kernel_le hcandidate)

theorem advanceCandidate_eq (h : Reported information) (hcandidate : candidate ≤ 2 ^ 63)
    (hn : n < 2 ^ 63) :
    advanceCandidate information n candidate = passExtents information n candidate := by
  unfold advanceCandidate passExtents passOver
  rw [skip_page_eq h.kernel_le hcandidate hn,
    skip_page_eq h.boot_le (skip_page_le h.kernel_le hcandidate) hn]

/-- The bitmap may stand at a place of a region: upon a page above low memory,
within the region and what the kernel can address so early, and clear of the
kernel and the boot information. -/
structure Fits (information : BootInformation) (n : ℕ) (region : BootMemoryRegion)
    (place : ℕ) : Prop where
  usable : region.type = .usable
  page : pageSize ∣ place
  low : lowMemoryLimit ≤ place
  base : region.baseAddress ≤ place
  finish : place + n ≤ region.baseAddress + region.length
  addressable : place + n ≤ 0x40000000
  kernel : Apart place (place + n) information.kernelPhysicalStart information.kernelPhysicalEnd
  boot : Apart place (place + n) information.bootInformationStart information.bootInformationEnd

def clearPage (information : BootInformation) (n : ℕ) (region : BootMemoryRegion) : ℕ :=
  passExtents information n (passExtents information n
    (max (roundUp pageSize region.baseAddress) lowMemoryLimit))

theorem placeWithin_eq (h : Reported information) (hn : n < 2 ^ 63)
    (hregion : region ∈ information.memoryRegions) (husable : region.type = .usable) :
    placeWithin information n region =
      if region.baseAddress ≤ clearPage information n region ∧
          clearPage information n region + n ≤
            min (region.baseAddress + region.length) 0x40000000 then
        some (clearPage information n region)
      else none := by
  have hend := h.regions region hregion husable
  have hstart : max (roundUp pageSize region.baseAddress) lowMemoryLimit ≤ 2 ^ 63 :=
    max_le (roundUp_page_le (by omega)) (by decide)
  have hfirst := passExtents_le (n := n) h hstart
  have hclear : clearPage information n region ≤ 2 ^ 63 := passExtents_le h hfirst
  unfold placeWithin
  rw [if_neg (not_not.mpr husable), alignUp_eq (by omega)]
  dsimp only
  rw [advanceCandidate_eq h hstart hn, advanceCandidate_eq h hfirst hn]
  change (if region.baseAddress ≤ clearPage information n region ∧
    (clearPage information n region + n) % 2 ^ 64 ≤
      min ((region.baseAddress + region.length) % 2 ^ 64) 0x40000000 then _ else _) = _
  rw [Nat.mod_eq_of_lt (by omega), Nat.mod_eq_of_lt (by omega)]
  rfl

theorem Fits.clearPage_le (h : Reported information) (hn : 0 < n)
    (hfits : Fits information n region place) : clearPage information n region ≤ place := by
  have hstart : max (roundUp pageSize region.baseAddress) lowMemoryLimit ≤ place :=
    max_le (roundUp_le pageSize_pos hfits.page hfits.base) hfits.low
  have hpass : ∀ candidate ≤ place, passExtents information n candidate ≤ place :=
    fun candidate hle ↦ passOver_le pageSize_pos hn h.kernel h.boot hfits.page hle hfits.kernel
      hfits.boot
  exact hpass _ (hpass _ hstart)

theorem clearPage_spec (h : Reported information) (hn : 0 < n) (region : BootMemoryRegion) :
    pageSize ∣ clearPage information n region ∧
      max region.baseAddress lowMemoryLimit ≤ clearPage information n region ∧
      Apart (clearPage information n region) (clearPage information n region + n)
        information.kernelPhysicalStart information.kernelPhysicalEnd ∧
      Apart (clearPage information n region) (clearPage information n region + n)
        information.bootInformationStart information.bootInformationEnd := by
  have hround := le_roundUp pageSize_pos region.baseAddress
  have hstart : pageSize ∣ max (roundUp pageSize region.baseAddress) lowMemoryLimit := by
    rcases max_choice (roundUp pageSize region.baseAddress) lowMemoryLimit with heq | heq <;>
      rw [heq]
    · exact dvd_roundUp _ _
    · decide
  refine ⟨dvd_passOver (dvd_passOver hstart), ?_, ?_, ?_⟩
  · refine le_trans ?_ ((le_passOver pageSize_pos).trans (le_passOver pageSize_pos))
    exact max_le_max hround le_rfl
  · exact apart_passOver pageSize_pos hn h.boot (apart_skip pageSize_pos)
  · exact apart_skip pageSize_pos

theorem placeWithin_cases (h : Reported information) (hn : 0 < n) (hlt : n < 2 ^ 63)
    (hregion : region ∈ information.memoryRegions) :
    (∃ place, placeWithin information n region = some place ∧ Fits information n region place ∧
        ∀ other, Fits information n region other → place ≤ other) ∨
      placeWithin information n region = none ∧ ∀ place, ¬Fits information n region place := by
  by_cases husable : region.type = .usable
  · rw [placeWithin_eq h hlt hregion husable]
    obtain ⟨hpage, hlow, hkernel, hboot⟩ := clearPage_spec h hn region
    split_ifs with hroom
    · left
      refine ⟨_, rfl, ?_, fun other hfits ↦ hfits.clearPage_le h hn⟩
      exact ⟨husable, hpage, (le_max_right _ _).trans hlow, hroom.1,
        hroom.2.trans (min_le_left _ _), hroom.2.trans (min_le_right _ _), hkernel, hboot⟩
    · right
      refine ⟨rfl, fun place hfits ↦ hroom ⟨(le_max_left _ _).trans hlow, ?_⟩⟩
      have hle := hfits.clearPage_le h hn
      have hfinish := hfits.finish
      have haddressable := hfits.addressable
      exact le_min (by omega) (by omega)
  · right
    refine ⟨?_, fun place hfits ↦ husable hfits.usable⟩
    unfold placeWithin
    rw [if_pos husable]

def FirstFit (information : BootInformation) (n place : ℕ) : Prop :=
  ∃ before region after, information.memoryRegions = before ++ region :: after ∧
    (∀ other ∈ before, ∀ place', ¬Fits information n other place') ∧
      Fits information n region place ∧ ∀ place', Fits information n region place' → place ≤ place'

theorem FirstFit.fits (h : FirstFit information n place) :
    ∃ region ∈ information.memoryRegions, Fits information n region place := by
  obtain ⟨before, region, after, heq, -, hfits, -⟩ := h
  exact ⟨region, by simp [heq], hfits⟩

theorem firstFit_iff (h : Reported information) (hn : 0 < n) (hlt : n < 2 ^ 63) :
    FirstFit information n place ↔
      information.memoryRegions.findSome? (placeWithin information n) = some place := by
  rw [List.findSome?_eq_some_iff]
  constructor
  · rintro ⟨before, region, after, heq, hbefore, hfits, hleast⟩
    have hregion : region ∈ information.memoryRegions := by simp [heq]
    refine ⟨before, region, after, heq, ?_, fun other hother ↦ ?_⟩
    · rcases placeWithin_cases h hn hlt hregion with
        ⟨place', hplace, hfits', hleast'⟩ | ⟨-, hnone⟩
      · rw [hplace, le_antisymm (hleast' _ hfits) (hleast _ hfits')]
      · exact absurd hfits (hnone place)
    · have hmem : other ∈ information.memoryRegions := by simp [heq, hother]
      rcases placeWithin_cases h hn hlt hmem with ⟨place', -, hfits', -⟩ | ⟨hnone, -⟩
      · exact absurd hfits' (hbefore other hother place')
      · exact hnone
  · rintro ⟨before, region, after, heq, hplace, hbefore⟩
    have hregion : region ∈ information.memoryRegions := by simp [heq]
    refine ⟨before, region, after, heq, fun other hother ↦ ?_, ?_⟩
    · have hmem : other ∈ information.memoryRegions := by simp [heq, hother]
      rcases placeWithin_cases h hn hlt hmem with ⟨place', hsome, -, -⟩ | ⟨-, hnone⟩
      · rw [hbefore other hother] at hsome
        cases hsome
      · exact hnone
    · rcases placeWithin_cases h hn hlt hregion with ⟨place', hsome, hfits, hleast⟩ | ⟨hnone, -⟩
      · rw [hplace] at hsome
        cases hsome
        exact ⟨hfits, hleast⟩
      · rw [hplace] at hnone
        cases hnone

theorem FirstFit.placeBitmap_eq (h : Reported information) (hn : 0 < n) (hlt : n < 2 ^ 63)
    (hfirst : FirstFit information n place) :
    physicalMemoryPlaceBitmap information n = place := by
  unfold physicalMemoryPlaceBitmap
  rw [(firstFit_iff h hn hlt).mp hfirst]
  rfl

theorem firstFit_placeBitmap (h : Reported information) (hn : 0 < n) (hlt : n < 2 ^ 63)
    (hplace : physicalMemoryPlaceBitmap information n ≠ frameAllocationFailed) :
    FirstFit information n (physicalMemoryPlaceBitmap information n) := by
  unfold physicalMemoryPlaceBitmap at hplace ⊢
  cases hfind : information.memoryRegions.findSome? (placeWithin information n) with
  | none =>
      rw [hfind] at hplace
      exact absurd rfl hplace
  | some place => exact (firstFit_iff h hn hlt).mpr hfind

namespace FrameAllocator

theorem isUsed_foldl_markFree (indices : List ℕ) (s : FrameAllocator) (j : ℕ) :
    (indices.foldl FrameAllocator.markFree s).isUsed j = (s.isUsed j && decide (j ∉ indices)) := by
  induction indices generalizing s with
  | nil => simp
  | cons i rest ih =>
      rw [List.foldl_cons, ih, isUsed_markFree]
      by_cases hij : i = j
      · simp [hij]
      · simp [hij, Ne.symm hij]

theorem of_isUsed_releaseRange (hstart : start ≤ 2 ^ 63)
    (hclear : (s.releaseRange start finish).isUsed i = false) :
    s.isUsed i = false ∨ start ≤ i * pageSize ∧ (i + 1) * pageSize ≤ finish := by
  have hsize : pageSize = 4096 := rfl
  have hround := le_roundUp pageSize_pos start
  unfold releaseRange at hclear
  rw [alignUp_eq hstart] at hclear
  obtain ⟨k, hk⟩ := dvd_roundUp pageSize start
  generalize roundUp pageSize start = first at hclear hround hk
  dsimp only at hclear
  by_cases hempty : alignDown finish ≤ first
  · rw [if_pos hempty] at hclear
    exact Or.inl hclear
  by_cases hbeyond : s.frameCount ≤ frameIndexOf first
  · rw [if_neg hempty, if_pos hbeyond] at hclear
    exact Or.inl hclear
  rw [if_neg hempty, if_neg hbeyond, isUsed_foldl_markFree, Bool.and_eq_false_iff] at hclear
  refine hclear.imp id fun hmem ↦ ?_
  have hmem : i ∈ List.range' _ _ := not_not.mp (of_decide_eq_false hmem)
  rw [List.mem_range'_1] at hmem
  simp only [frameIndexOf, alignDown, hsize] at hmem hempty hk ⊢
  split at hmem <;> omega

theorem of_isUsed_markRange (hextent : start < finish) (hfinish : finish ≤ 2 ^ 63)
    (hi : i < s.frameCount) (hclear : (s.markRange start finish).isUsed i = false) :
    Apart (i * pageSize) ((i + 1) * pageSize) start finish := by
  have hsize : pageSize = 4096 := rfl
  have hround := le_roundUp pageSize_pos finish
  have hround' := roundUp_page_le hfinish
  unfold markRange at hclear
  rw [if_neg (by omega), alignUp_eq hfinish] at hclear
  generalize roundUp pageSize finish = last at hclear hround hround'
  dsimp only at hclear
  intro x hle hlt hstart hend
  simp only [frameIndexOf, alignDown, hsize] at hclear hle hlt
  by_cases hbeyond : s.frameCount ≤ start / 4096 * 4096 / 4096
  · omega
  rw [if_neg hbeyond, isUsed_foldl_markUsed, Bool.or_eq_false_iff] at hclear
  refine of_decide_eq_false hclear.2 ?_
  rw [List.mem_range'_1]
  split <;> omega

end FrameAllocator

def bitmapBytes (information : BootInformation) : ℕ :=
  (frameIndexOf (alignUp information.highestUsableAddress) + 63) / 64 * 8

def WithinUsable (information : BootInformation) (start finish : ℕ) : Prop :=
  ∃ region ∈ information.memoryRegions, region.type = .usable ∧ region.baseAddress ≤ start ∧
    finish ≤ region.baseAddress + region.length

def needed (information : BootInformation) : List (ℕ × ℕ) :=
  (information.kernelPhysicalStart, information.kernelPhysicalEnd) ::
    (information.bootInformationStart, information.bootInformationEnd) ::
      information.modules.map fun image ↦ (image.start, image.finish)

/-- The bitmap lies in usable memory and over nothing that is needed, and so does
every frame that is free, which has nothing in common with the bitmap either. -/
structure KeepsNeeded (information : BootInformation) (s : FrameAllocator) (place : ℕ) : Prop where
  bitmap_usable : WithinUsable information place (place + s.wordCount * 8)
  bitmap_apart : ∀ extent ∈ needed information,
    Apart place (place + s.wordCount * 8) extent.1 extent.2
  free_usable : ∀ i, s.isUsed i = false →
    WithinUsable information (i * pageSize) ((i + 1) * pageSize)
  free_apart : ∀ i, s.isUsed i = false →
    ∀ extent ∈ (place, place + s.wordCount * 8) :: needed information,
      Apart (i * pageSize) ((i + 1) * pageSize) extent.1 extent.2

def releasedFrames (information : BootInformation) : FrameAllocator :=
  information.memoryRegions.foldl releaseRegion
    (unavailableFrames (frameIndexOf (alignUp information.highestUsableAddress)))

theorem initialise_iff : physicalMemoryInitialise information = .ok s ↔
    information.highestUsableAddress ≠ 0 ∧
      physicalMemoryPlaceBitmap information (bitmapBytes information) ≠ frameAllocationFailed ∧
      reserveExtents information (physicalMemoryPlaceBitmap information (bitmapBytes information))
        (physicalMemoryPlaceBitmap information (bitmapBytes information) + bitmapBytes information)
        (releasedFrames information) = s := by
  unfold physicalMemoryInitialise
  by_cases hnone : information.highestUsableAddress = 0
  · simp [hnone]
  by_cases hfailed :
      physicalMemoryPlaceBitmap information (bitmapBytes information) = frameAllocationFailed
  · have hfailed' := hfailed
    unfold bitmapBytes at hfailed'
    simp [hnone, hfailed, unavailableFrames, hfailed']
  · have hfailed' := hfailed
    unfold bitmapBytes at hfailed'
    simp [hnone, unavailableFrames, hfailed', bitmapBytes, releasedFrames]

theorem bitmapBytes_pos (h : Reported information) (hsome : information.highestUsableAddress ≠ 0) :
    0 < bitmapBytes information ∧ bitmapBytes information < 2 ^ 63 := by
  have hsize : pageSize = 4096 := rfl
  have hround := le_roundUp pageSize_pos information.highestUsableAddress
  have hround' := roundUp_page_le h.highest
  obtain ⟨k, hk⟩ := dvd_roundUp pageSize information.highestUsableAddress
  unfold bitmapBytes frameIndexOf
  rw [alignUp_eq h.highest]
  generalize roundUp pageSize information.highestUsableAddress = last at *
  rw [hsize] at hk ⊢
  omega

theorem of_isUsed_releasedFrames (h : Reported information)
    (hclear : (releasedFrames information).isUsed i = false) :
    WithinUsable information (i * pageSize) ((i + 1) * pageSize) := by
  have hfold : ∀ (regions : List BootMemoryRegion) (s : FrameAllocator),
      (∀ region ∈ regions, region ∈ information.memoryRegions) →
      (regions.foldl releaseRegion s).isUsed i = false → s.isUsed i = false ∨
        WithinUsable information (i * pageSize) ((i + 1) * pageSize) := by
    intro regions
    induction regions with
    | nil => exact fun s _ hclear ↦ Or.inl hclear
    | cons region rest ih =>
        intro s hregions hclear
        have hregion := hregions region List.mem_cons_self
        rcases ih _ (fun other hother ↦ hregions other (List.mem_cons_of_mem _ hother)) hclear with
          hclear | hwithin
        · unfold releaseRegion at hclear
          split_ifs at hclear with husable
          · have hend := h.regions region hregion husable
            rw [Nat.mod_eq_of_lt (by omega)] at hclear
            refine (FrameAllocator.of_isUsed_releaseRange (by omega) hclear).imp id fun hle ↦ ?_
            exact ⟨region, hregion, husable, hle.1, hle.2⟩
          · exact Or.inl hclear
        · exact Or.inr hwithin
  refine (hfold _ _ (fun _ ↦ id) hclear).elim (fun hnever ↦ ?_) id
  have hused : (unavailableFrames
      (frameIndexOf (alignUp information.highestUsableAddress))).isUsed i = true :=
    Bitmap.test_of_full rfl
  rw [hused] at hnever
  cases hnever

theorem FrameAllocator.Reserves.clear {t : FrameAllocator} (h : FrameAllocator.Reserves s t)
    (hclear : t.isUsed i = false) : s.isUsed i = false := by
  by_contra hused
  rw [h.used i (by simpa using hused)] at hclear
  cases hclear

def reserve (s : FrameAllocator) (extents : List (ℕ × ℕ)) : FrameAllocator :=
  extents.foldl (fun s extent ↦ s.markRange extent.1 extent.2) s

theorem reserves_reserve (extents : List (ℕ × ℕ)) (s : FrameAllocator) :
    FrameAllocator.Reserves s (reserve s extents) := by
  induction extents generalizing s with
  | nil => exact FrameAllocator.Reserves.refl s
  | cons extent rest ih => exact (FrameAllocator.reserves_markRange s _ _).trans (ih _)

theorem apart_reserve (extents : List (ℕ × ℕ))
    (hextents : ∀ extent ∈ extents, extent.1 < extent.2 ∧ extent.2 ≤ 2 ^ 63)
    (hi : i < s.frameCount) (hclear : (reserve s extents).isUsed i = false) :
    ∀ extent ∈ extents, Apart (i * pageSize) ((i + 1) * pageSize) extent.1 extent.2 := by
  induction extents generalizing s with
  | nil => simp
  | cons first rest ih =>
      have hfirst := hextents first List.mem_cons_self
      have hreserves := FrameAllocator.reserves_markRange s first.1 first.2
      intro extent hextent
      rcases List.mem_cons.mp hextent with rfl | hextent
      · exact FrameAllocator.of_isUsed_markRange hfirst.1 hfirst.2 hi
          ((reserves_reserve rest _).clear hclear)
      · refine ih (fun other hother ↦ hextents other (List.mem_cons_of_mem _ hother)) ?_ hclear
          extent hextent
        rw [hreserves.same.frameCount]
        exact hi

theorem reserveExtents_eq (information : BootInformation) (start finish : ℕ)
    (s : FrameAllocator) : reserveExtents information start finish s =
      reserve s ((0, lowMemoryLimit) ::
        (information.kernelPhysicalStart, information.kernelPhysicalEnd) ::
        (information.bootInformationStart, information.bootInformationEnd) :: (start, finish) ::
        information.modules.map fun image ↦ (image.start, image.finish)) := by
  simp [reserveExtents, reserve, List.foldl_map]

theorem apart_reserveExtents (h : Reported information) (hextent : start < finish)
    (hfinish : finish ≤ 2 ^ 63) (hi : i < s.frameCount)
    (hclear : (reserveExtents information start finish s).isUsed i = false) :
    ∀ extent ∈ (start, finish) :: needed information,
      Apart (i * pageSize) ((i + 1) * pageSize) extent.1 extent.2 := by
  rw [reserveExtents_eq] at hclear
  have hall := apart_reserve _ ?_ hi hclear
  · intro extent hmem
    apply hall
    simp only [needed, List.mem_cons] at hmem ⊢
    tauto
  · intro extent hmem
    simp only [List.mem_cons, List.mem_map] at hmem
    rcases hmem with rfl | rfl | rfl | rfl | ⟨image, himage, rfl⟩
    · decide
    · exact ⟨h.kernel, h.kernel_le⟩
    · exact ⟨h.boot, h.boot_le⟩
    · exact ⟨hextent, hfinish⟩
    · exact ⟨h.modules image himage, h.modules_le image himage⟩

theorem wordCount_of_initialise (hok : physicalMemoryInitialise information = .ok s) :
    s.wordCount * 8 = bitmapBytes information := by
  obtain ⟨-, -, rfl⟩ := initialise_iff.mp hok
  obtain ⟨-, hsame⟩ := FrameAllocator.counted_releaseRegions information.memoryRegions
    (FrameAllocator.counted_unavailable
      (FrameAllocator.frameIndexOf_alignUp_addressable information.highestUsableAddress))
  rw [reserveExtents_eq, (reserves_reserve _ _).same.wordCount]
  exact congrArg (· * 8) hsame.wordCount

theorem firstFit_of_initialise (h : Reported information)
    (hok : physicalMemoryInitialise information = .ok s) :
    FirstFit information (bitmapBytes information)
      (physicalMemoryPlaceBitmap information (bitmapBytes information)) := by
  obtain ⟨hsome, hplace, -⟩ := initialise_iff.mp hok
  obtain ⟨hpositive, hlt⟩ := bitmapBytes_pos h hsome
  exact firstFit_placeBitmap h hpositive hlt hplace

theorem keepsNeeded_of_apart (h : Reported information)
    (hok : physicalMemoryInitialise information = .ok s)
    (hmodules : ∀ image ∈ information.modules,
      Apart (physicalMemoryPlaceBitmap information (bitmapBytes information))
        (physicalMemoryPlaceBitmap information (bitmapBytes information) +
          bitmapBytes information) image.start image.finish) :
    KeepsNeeded information s
      (physicalMemoryPlaceBitmap information (bitmapBytes information)) := by
  obtain ⟨hcounted, -, -⟩ := FrameAllocator.initialised hok
  obtain ⟨region, hregion, hfits⟩ := (firstFit_of_initialise h hok).fits
  obtain ⟨hsome, -, hs⟩ := initialise_iff.mp hok
  obtain ⟨hpositive, -⟩ := bitmapBytes_pos h hsome
  have hwords := wordCount_of_initialise hok
  generalize hplace : physicalMemoryPlaceBitmap information (bitmapBytes information) = place at *
  have hreserves : FrameAllocator.Reserves (releasedFrames information) s := by
    rw [← hs, reserveExtents_eq]
    exact reserves_reserve _ _
  constructor
  · rw [hwords]
    exact ⟨region, hregion, hfits.usable, hfits.base, hfits.finish⟩
  · rw [hwords]
    intro extent hextent
    simp only [needed, List.mem_cons, List.mem_map] at hextent
    rcases hextent with rfl | rfl | ⟨image, himage, rfl⟩
    · exact hfits.kernel
    · exact hfits.boot
    · exact hmodules image himage
  · exact fun i hclear ↦ of_isUsed_releasedFrames h (hreserves.clear hclear)
  · intro i hclear
    have hi : i < (releasedFrames information).frameCount := by
      rw [← hreserves.same.frameCount]
      exact hcounted.lt_of_clear hclear
    have haddressable := hfits.addressable
    rw [hwords]
    rw [← hs] at hclear
    exact apart_reserveExtents h (by omega) (by omega) hi hclear

/-- Initialisation keeps what is needed exactly when no module meets the run the bitmap is
given, which is the lowest that fits in the first usable region with room. -/
theorem keepsNeeded_iff (information : BootInformation) (h : Reported information) :
    (∀ s, physicalMemoryInitialise information = .ok s →
        KeepsNeeded information s
          (physicalMemoryPlaceBitmap information (bitmapBytes information))) ↔
      ∀ place, FirstFit information (bitmapBytes information) place →
        ∀ image ∈ information.modules,
          Apart place (place + bitmapBytes information) image.start image.finish := by
  constructor
  · intro hkeeps place hfirst image himage
    by_cases hnone : information.highestUsableAddress = 0
    · -- a machine without memory has a bitmap of no bytes
      have hbytes : bitmapBytes information = 0 := by
        unfold bitmapBytes
        rw [hnone]
        decide
      intro x hle hlt
      omega
    obtain ⟨hpositive, hlt⟩ := bitmapBytes_pos h hnone
    have hplace := hfirst.placeBitmap_eq h hpositive hlt
    have hlow : physicalMemoryPlaceBitmap information (bitmapBytes information) ≠
        frameAllocationFailed := by
      obtain ⟨region, -, hfits⟩ := hfirst.fits
      rw [hplace]
      exact Nat.ne_of_gt (Nat.lt_of_lt_of_le (by decide) hfits.low)
    have hok := initialise_iff.mpr ⟨hnone, hlow, rfl⟩
    have hapart := (hkeeps _ hok).bitmap_apart (image.start, image.finish)
      (by simp only [needed, List.mem_cons, List.mem_map]; exact Or.inr (Or.inr ⟨image, himage, rfl⟩))
    rw [wordCount_of_initialise hok, hplace] at hapart
    exact hapart
  · intro hmodules s hok
    exact keepsNeeded_of_apart h hok (hmodules _ (firstFit_of_initialise h hok))

def moduleAt (start : ℕ) : BootInformation where
  memoryRegions := [⟨0x100000, 0x7F00000, .usable⟩]
  highestUsableAddress := 0x8000000
  kernelPhysicalStart := 0x100000
  kernelPhysicalEnd := 0x200000
  bootInformationStart := 0x300000
  bootInformationEnd := 0x301000
  modules := [⟨start, start + 0x80000⟩]

theorem moduleAt_reported {start : ℕ} (h : start < 2 ^ 32) : Reported (moduleAt start) := by
  constructor <;> simp [moduleAt]
  omega

/-- A module well above the kernel is kept. -/
theorem keepsNeeded_iff_moduleAt : ∃ s, physicalMemoryInitialise (moduleAt 0x400000) = .ok s ∧
    KeepsNeeded (moduleAt 0x400000) s
      (physicalMemoryPlaceBitmap (moduleAt 0x400000) (bitmapBytes (moduleAt 0x400000))) := by
  have heq : physicalMemoryPlaceBitmap (moduleAt 0x400000) (bitmapBytes (moduleAt 0x400000)) =
      0x200000 := by decide
  obtain ⟨s, hok⟩ : ∃ s, physicalMemoryInitialise (moduleAt 0x400000) = .ok s := by
    refine ⟨_, initialise_iff.mpr ⟨by decide, ?_, rfl⟩⟩
    rw [heq]
    decide
  refine ⟨s, hok, ?_⟩
  refine (keepsNeeded_iff (moduleAt 0x400000) (moduleAt_reported (by decide))).mpr ?_ s hok
  intro place hfirst image himage
  have hplace := hfirst.placeBitmap_eq (moduleAt_reported (by decide)) (by decide) (by decide)
  have hbytes : bitmapBytes (moduleAt 0x400000) = 0x1000 := by decide
  simp only [moduleAt, List.mem_singleton] at himage
  subst himage
  rw [hbytes, ← hplace, heq]
  intro x hle hlt hle'
  dsimp only at hle'
  omega

/-- The bitmap is written over a module that stands where the kernel ends. -/
theorem moduleAt_overwritten : ∃ information s, Reported information ∧
    physicalMemoryInitialise information = .ok s ∧
      ¬KeepsNeeded information s
        (physicalMemoryPlaceBitmap information (bitmapBytes information)) := by
  have hplace : physicalMemoryPlaceBitmap (moduleAt 0x200000) (bitmapBytes (moduleAt 0x200000)) =
      0x200000 := by decide
  have hbytes : bitmapBytes (moduleAt 0x200000) = 0x1000 := by decide
  obtain ⟨s, hok⟩ : ∃ s, physicalMemoryInitialise (moduleAt 0x200000) = .ok s := by
    refine ⟨_, initialise_iff.mpr ⟨by decide, ?_, rfl⟩⟩
    rw [hplace]
    decide
  refine ⟨moduleAt 0x200000, s, moduleAt_reported (by decide), hok, fun hkeeps ↦ ?_⟩
  have hapart := hkeeps.bitmap_apart (0x200000, 0x280000) (by simp [needed, moduleAt])
  rw [wordCount_of_initialise hok, hplace, hbytes] at hapart
  exact hapart 0x200000 le_rfl (by decide) le_rfl (by decide)

end OxysOS.Mm
