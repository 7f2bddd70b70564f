import OxysOS.Exec.ElfMemory

/-!
# What an image is judged by

The entry is judged by the bounds of all that was loaded.
-/

namespace OxysOS.Exec

open OxysOS.Library OxysOS.Mm Action

variable {space : AddressSpace} {image : Bytes} {segment : ElfProgramHeader}
  {segments : List ElfProgramHeader} {start s : Machine} {length : ℕ}

/-- The space maps in `s` what it mapped in `start`. -/
structure MapsSame (space : AddressSpace) (start s : Machine) : Prop where
  user : ∀ address, address < 2 ^ 47 → s.leaf space.user address = start.leaf space.user address
  upper : ∀ i, pageTableUserEntryCount ≤ i →
    s.slot (frameIndexOf space.root) i = start.slot (frameIndexOf space.root) i

def HeldBySegment (segments : List ElfProgramHeader) (address : ℕ) : Prop :=
  ∃ segment ∈ segments, segment.loads = true ∧ segment.Contains address

/-- An image that is loaded is entered within a segment, and one that is refused
for anything but want of memory leaves the space as it was. -/
structure JudgedWhole (space : AddressSpace) (image : Bytes) (length : ℕ) (start : Machine) :
    Prop where
  entered : ∀ loaded s, outcome (elfLoad space image length) start = (.ok (.ok loaded), s) →
    ∃ header segments, elfValidate image length = .ok (header, segments) ∧
      HeldBySegment segments loaded.entry
  unchanged : ∀ answer s, outcome (elfLoad space image length) start = (.ok (.error answer), s) →
    answer ≠ .noMemory → MapsSame space start s

def HasFrames (space : AddressSpace) (segments : List ElfProgramHeader) (start : Machine) : Prop :=
  start.mappingCost space.user (pagesOf (imageSteps segments)) ≤ start.frames.freeFrames

theorem finish_le_imageHighest (hsegment : segment ∈ segments) (hloads : segment.loads = true) :
    segment.finish ≤ imageHighest segments := by
  induction segments with
  | nil => cases hsegment
  | cons first rest ih =>
      have hcons : imageHighest (first :: rest) =
          if first.loads then max first.finish (imageHighest rest) else imageHighest rest := rfl
      rw [hcons]
      rcases List.mem_cons.mp hsegment with rfl | hmem
      · rw [if_pos hloads]
        exact Nat.le_max_left _ _
      · have hle := ih hmem
        split
        · exact hle.trans (Nat.le_max_right _ _)
        · exact hle

theorem imageLowest_le (hpositive : ∀ segment ∈ segments, segment.loads = true →
    0 < segment.virtualAddress) (lowest : ℕ) :
    (lowest ≠ 0 → imageLowest segments lowest ≤ lowest) ∧
      ∀ segment ∈ segments, segment.loads = true →
        imageLowest segments lowest ≤ segment.virtualAddress := by
  induction segments generalizing lowest with
  | nil => simp [imageLowest]
  | cons first rest ih =>
      have hrest := ih fun segment hsegment ↦ hpositive segment (List.mem_cons_of_mem _ hsegment)
      by_cases hloads : first.loads = true
      · have hfirst := hpositive first List.mem_cons_self hloads
        have hcons : imageLowest (first :: rest) lowest = imageLowest rest
            (if lowest = 0 ∨ first.virtualAddress < lowest then first.virtualAddress
              else lowest) := by
          unfold imageLowest
          rw [List.foldl_cons, if_pos hloads]
        rw [hcons]
        generalize hnext : (if lowest = 0 ∨ first.virtualAddress < lowest then
          first.virtualAddress else lowest) = next
        have hnonzero : next ≠ 0 := by
          rw [← hnext]
          split <;> omega
        have hle : next ≤ first.virtualAddress ∧ (lowest ≠ 0 → next ≤ lowest) := by
          rw [← hnext]
          split <;> omega
        obtain ⟨hbelow, heach⟩ := hrest next
        refine ⟨fun hlowest ↦ (hbelow hnonzero).trans (hle.2 hlowest), ?_⟩
        intro segment hsegment hsegment'
        rcases List.mem_cons.mp hsegment with rfl | hmem
        · exact (hbelow hnonzero).trans hle.1
        · exact heach segment hmem hsegment'
      · have hcons : imageLowest (first :: rest) lowest = imageLowest rest lowest := by
          unfold imageLowest
          rw [List.foldl_cons, if_neg hloads]
        rw [hcons]
        refine ⟨(hrest lowest).1, fun segment hsegment hsegment' ↦ ?_⟩
        rcases List.mem_cons.mp hsegment with rfl | hmem
        · exact absurd hsegment' hloads
        · exact (hrest lowest).2 segment hmem hsegment'

theorem HeldBySegment.within {address : ℕ} (h : HeldBySegment segments address)
    (hadmitted : SegmentsAdmitted segments length) :
    ¬(address < imageLowest segments 0 ∨ imageHighest segments ≤ address) := by
  obtain ⟨segment, hsegment, hloads, hlow, hhigh⟩ := h
  have hpositive : ∀ other ∈ segments, other.loads = true → 0 < other.virtualAddress :=
    fun other hother hother' ↦
      (by decide : 0 < pageSize).trans_le (hadmitted.each other hother hother').low
  have hlowest := (imageLowest_le hpositive 0).2 segment hsegment hloads
  have hhighest := finish_le_imageHighest hsegment hloads
  omega

theorem starves_lt_mappingCost {r : PageRegion} {pages : List ℕ} (h : start.Starves r pages) :
    start.frames.freeFrames < start.mappingCost r pages := by
  obtain ⟨k, -, -, hmore⟩ := h
  exact hmore.trans_le (mappingCost_mono (List.take_subset _ _))

theorem Loaded.not_mapsSame {frame : ℕ → ℕ} {progress : ElfProgress} (hempty : EmptySpace space start)
    (h : Loaded space image (imageSteps segments) frame progress start s)
    (hadmitted : SegmentsAdmitted segments length)
    (hsome : ∃ segment ∈ segments, segment.loads = true) : ¬MapsSame space start s := by
  intro hsame
  obtain ⟨segment, hsegment, hloads⟩ := hsome
  have hhigh := (hadmitted.each segment hsegment hloads).high
  have hcontains : segment.Contains segment.virtualAddress := by
    have hsize : segment.memorySize ≠ 0 := by
      simp only [ElfProgramHeader.loads, decide_eq_true_eq] at hloads
      exact hloads.2
    unfold ElfProgramHeader.Contains ElfProgramHeader.finish
    omega
  have haddress : segment.virtualAddress < 2 ^ 47 :=
    hcontains.2.trans_le (hhigh.trans (by decide))
  have htouched : Touched (imageSteps segments) (alignDown segment.virtualAddress) :=
    touched_imageSteps.mpr ⟨segment, hsegment, hloads, hcontains.touches⟩
  have hleaf := hsame.user segment.virtualAddress haddress
  rw [hempty.empty _ (space.within_user haddress), h.leaf_of_touched htouched] at hleaf
  exact pageEntry_ne_zero _ _ hleaf

theorem outcome_elfLoad_of_error {result : ElfResult} (h : elfValidate image length = .error result) :
    outcome (elfLoad space image length) start = (.ok (.error result), start) := by
  unfold elfLoad
  rw [h]
  rfl

theorem judgedWhole_iff_heldBySegment {header : ElfHeader} (hempty : EmptySpace space start)
    (hvalid : elfValidate image length = .ok (header, segments))
    (hframes : HasFrames space segments start) :
    JudgedWhole space image length start ↔ HeldBySegment segments header.entry := by
  obtain ⟨hadmitted, hsome⟩ := elfValidate_ok hvalid
  rcases elfLoad_cases hempty hvalid with ⟨text, s, -, hstarves⟩ | ⟨s, -, -, hless⟩ |
    ⟨frame, progress, s, hloaded, -, -, heq⟩
  · exact absurd (starves_lt_mappingCost hstarves) (not_lt.mpr hframes)
  · exact absurd hless (not_lt.mpr hframes)
  · have hchanged := hloaded.not_mapsSame hempty hadmitted hsome
    by_cases hout : header.entry < imageLowest segments 0 ∨ imageHighest segments ≤ header.entry
    · rw [if_pos hout] at heq
      constructor
      · intro hwhole
        exact absurd (hwhole.unchanged _ _ heq (by decide)) hchanged
      · intro hheld
        exact absurd hout (hheld.within hadmitted)
    · rw [if_neg hout] at heq
      constructor
      · intro hwhole
        obtain ⟨header', segments', hvalid', hheld⟩ := hwhole.entered _ _ heq
        rw [hvalid] at hvalid'
        cases hvalid'
        exact hheld
      · intro hheld
        refine ⟨fun loaded s' heq' ↦ ?_, fun answer s' heq' ↦ ?_⟩
        · rw [heq] at heq'
          cases heq'
          exact ⟨header, segments, hvalid, hheld⟩
        · rw [heq] at heq'
          cases heq'

/-- An image is judged whole exactly when, if it passes its validation and
there are frames for all of it, its entry lies in a segment. -/
theorem judgedWhole_iff (space : AddressSpace) (image : Bytes) (length : ℕ) (start : Machine)
    (hempty : EmptySpace space start) :
    JudgedWhole space image length start ↔
      ∀ header segments, elfValidate image length = .ok (header, segments) →
        HasFrames space segments start → HeldBySegment segments header.entry := by
  constructor
  · intro hwhole header segments hvalid hframes
    exact (judgedWhole_iff_heldBySegment hempty hvalid hframes).mp hwhole
  · intro hheld
    cases hvalid : elfValidate image length with
    | error result =>
        have heq : outcome (elfLoad space image length) start = (.ok (.error result), start) :=
          outcome_elfLoad_of_error hvalid
        refine ⟨fun loaded s heq' ↦ ?_, fun answer s heq' _ ↦ ?_⟩
        · rw [heq] at heq'
          cases heq'
        · rw [heq] at heq'
          cases heq'
          exact ⟨fun _ _ ↦ rfl, fun _ _ ↦ rfl⟩
    | ok answer =>
        obtain ⟨header, segments⟩ := answer
        by_cases hframes : HasFrames space segments start
        · exact (judgedWhole_iff_heldBySegment hempty hvalid hframes).mpr
            (hheld header segments hvalid hframes)
        · rcases elfLoad_cases hempty hvalid with ⟨text, s, heq, -⟩ | ⟨s, heq, -⟩ |
            ⟨frame, progress, s, -, hcharged, -, -⟩
          · refine ⟨fun loaded s' heq' ↦ ?_, fun answer s' heq' ↦ ?_⟩ <;>
            · rw [heq] at heq'
              cases heq'
          · refine ⟨fun loaded s' heq' ↦ ?_, fun answer s' heq' hanswer ↦ ?_⟩
            · rw [heq] at heq'
              cases heq'
            · rw [heq] at heq'
              cases heq'
              exact absurd rfl hanswer
          · have hfree := hcharged.free
            exact absurd (show HasFrames space segments start by unfold HasFrames; omega) hframes

/-- An image of one segment at `0x400F80`, entered before it. -/
def strayImage : Bytes := writeField (plainImage 0x400F80) 24 8 0x400000

def isMisplaced : Except String (Option (Except ElfResult ElfImage)) → Bool
  | .ok (some (.error .badAddress)) => true
  | _ => false

theorem exists_refusal (h : s.frames.Sound)
    (hload : isMisplaced (outcome (createAndLoad image length) s).1 = true) :
    ∃ space start s', EmptySpace space start ∧
      outcome (elfLoad space image length) start = (.ok (.error .badAddress), s') := by
  rcases hanswer : (outcome (createAndLoad image length) s).1 with text | _ | ⟨result⟩ | ⟨loaded⟩
  all_goals rw [hanswer] at hload
  · cases hload
  · cases hload
  · cases result <;> first | exact exists_answer h hanswer | cases hload
  · cases hload

theorem exists_strayImage_refusal : ∃ space start s, EmptySpace space start ∧
    outcome (elfLoad space strayImage 120) start = (.ok (.error .badAddress), s) := by
  obtain ⟨machine, hsound, hrefused⟩ := exists_bootMachine 280
    (fun s ↦ isMisplaced (outcome (createAndLoad strayImage 120) s).1) (by decide +kernel)
  exact exists_refusal hsound hrefused

theorem judgedWhole_iff_strayImage : ∃ space start, EmptySpace space start ∧
    (JudgedWhole space strayImage 120 start ↔
      ∀ header segments, elfValidate strayImage 120 = .ok (header, segments) →
        HasFrames space segments start → HeldBySegment segments header.entry) := by
  obtain ⟨space, start, -, hempty, -⟩ := exists_strayImage_refusal
  exact ⟨space, start, hempty, judgedWhole_iff space strayImage 120 start hempty⟩

theorem strayImage_valid : (elfValidate strayImage 120).isOk = true := by
  decide +kernel

/-- It is refused with its pages mapped. -/
theorem strayImage_not_judgedWhole : ∃ space start s, EmptySpace space start ∧
    outcome (elfLoad space strayImage 120) start = (.ok (.error .badAddress), s) ∧
      ¬MapsSame space start s ∧ ¬JudgedWhole space strayImage 120 start := by
  obtain ⟨space, start, s, hempty, hrefused⟩ := exists_strayImage_refusal
  have hchanged : ¬MapsSame space start s := by
    cases hvalid : elfValidate strayImage 120 with
    | error result =>
        have hok := strayImage_valid
        rw [hvalid] at hok
        cases hok
    | ok answer =>
        obtain ⟨header, segments⟩ := answer
        obtain ⟨hadmitted, hsome⟩ := elfValidate_ok hvalid
        rcases elfLoad_cases hempty hvalid with ⟨text, s', heq, -⟩ | ⟨s', heq, -⟩ |
          ⟨frame, progress, s', hloaded, -, -, heq⟩
        · rw [hrefused] at heq
          cases heq
        · rw [hrefused] at heq
          cases heq
        · obtain rfl : s = s' := congrArg Prod.snd (hrefused.symm.trans heq)
          exact hloaded.not_mapsSame hempty hadmitted hsome
  exact ⟨space, start, s, hempty, hrefused, hchanged,
    fun hwhole ↦ hchanged (hwhole.unchanged _ _ hrefused (by decide))⟩

end OxysOS.Exec
