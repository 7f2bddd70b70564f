import OxysOS.Exec.ElfLoaded

/-!
# What the loader comes to

The loops take the pages of the segments that occupy memory in turn.  Either all
are loaded, or the frames run out: at a page, which is an answer, or at a table,
which is a panic.
-/

namespace OxysOS.Exec

open OxysOS.Library OxysOS.Mm Action

variable {space : AddressSpace} {image : Bytes} {segment : ElfProgramHeader}
  {segments : List ElfProgramHeader} {done rest : List (ElfProgramHeader × ℕ)} {frame : ℕ → ℕ}
  {progress : ElfProgress} {start s : Machine} {page count length : ℕ}

def pageSteps (segment : ElfProgramHeader) : ℕ → ℕ → List (ElfProgramHeader × ℕ)
  | 0, _ => []
  | count + 1, page => (segment, page) :: pageSteps segment count (page + pageSize)

def ElfProgramHeader.pageCount (segment : ElfProgramHeader) : ℕ :=
  (segment.lastPage - segment.firstPage) / pageSize + 1

def imageSteps : List ElfProgramHeader → List (ElfProgramHeader × ℕ)
  | [] => []
  | segment :: rest =>
      if segment.loads then
        pageSteps segment segment.pageCount segment.firstPage ++ imageSteps rest
      else imageSteps rest

def imageHighest (segments : List ElfProgramHeader) : ℕ :=
  segments.foldr (fun segment highest ↦
    if segment.loads then max segment.finish highest else highest) 0

/-- The lowest address once the segments that occupy memory are recorded after
those that left it at `lowest`, nothing being recorded where it is zero. -/
def imageLowest (segments : List ElfProgramHeader) (lowest : ℕ) : ℕ :=
  segments.foldl (fun lowest segment ↦
    if segment.loads then
      if lowest = 0 ∨ segment.virtualAddress < lowest then segment.virtualAddress else lowest
    else lowest) lowest

def pagesOf (steps : List (ElfProgramHeader × ℕ)) : List ℕ := steps.map Prod.snd

/-- What a loop of the loader comes to that has `steps` to take after those of
`done`, and leaves `lowest` and `highest` as the bounds of what is loaded. -/
structure LoadRun (space : AddressSpace) (image : Bytes) (start : Machine)
    (steps : List (ElfProgramHeader × ℕ)) (lowest highest : ℕ)
    (result : Except String (Except ElfResult ElfProgress) × Machine) : Prop where
  panicked : ∀ text, result.1 = .error text →
    ∀ rest, start.Starves space.user (pagesOf (steps ++ rest))
  refused : ∀ answer, result.1 = .ok (.error answer) → answer = .noMemory ∧
    ∀ rest, ¬start.Starves space.user (pagesOf (steps ++ rest)) ∧
      start.frames.freeFrames < start.mappingCost space.user (pagesOf (steps ++ rest))
  answered : ∀ progress, result.1 = .ok (.ok progress) → progress.loaded.lowest = lowest ∧
    progress.loaded.highest = highest ∧ Charged space.user (pagesOf steps) start result.2 ∧
    ∃ frame, Loaded space image steps frame progress start result.2

theorem mem_pageSteps {step : ElfProgramHeader × ℕ} : step ∈ pageSteps segment count page ↔
    step.1 = segment ∧ ∃ i, i < count ∧ step.2 = page + i * pageSize := by
  induction count generalizing page with
  | zero => simp [pageSteps]
  | succ count ih =>
      rw [pageSteps, List.mem_cons, ih]
      constructor
      · rintro (rfl | ⟨hsegment, i, hi, heq⟩)
        · exact ⟨rfl, 0, Nat.succ_pos count, by simp⟩
        · exact ⟨hsegment, i + 1, by omega, by rw [heq, Nat.add_mul]; omega⟩
      · rintro ⟨hsegment, i, hi, heq⟩
        cases i with
        | zero =>
            left
            rw [Nat.zero_mul, Nat.add_zero] at heq
            exact Prod.ext hsegment heq
        | succ i =>
            right
            exact ⟨hsegment, i, by omega, by rw [heq, Nat.add_mul]; omega⟩

theorem elfLoadPages_run (segment : ElfProgramHeader) (count : ℕ)
    (h : Loaded space image done frame progress start s)
    (hcharged : Charged space.user (pagesOf done) start s)
    (hpages : ∀ i, i < count → UserPage (page + i * pageSize))
    (hlast : ∀ q, Touched done q → q ≤ page) :
    LoadRun space image start (done ++ pageSteps segment count page) progress.loaded.lowest
      progress.loaded.highest (outcome (elfLoadPages space image segment count page progress) s) := by
  induction count generalizing page done frame progress s with
  | zero =>
      rw [pageSteps, List.append_nil]
      refine ⟨?_, ?_, ?_⟩
      · rintro text heq
        cases heq
      · rintro answer heq
        cases heq
      · rintro progress' heq
        cases heq
        exact ⟨rfl, rfl, hcharged, frame, h⟩
  | succ count ih =>
      have hpage : UserPage page := by simpa using hpages 0 (Nat.succ_pos count)
      have hwithin := space.within_user hpage.high
      have hsteps : ∀ more, pagesOf (done ++ pageSteps segment (count + 1) page ++ more) =
          pagesOf done ++
            page :: pagesOf (pageSteps segment count (page + pageSize) ++ more) := by
        intro more
        unfold pagesOf
        simp [pageSteps]
      rw [elfLoadPages, outcome_bind]
      rcases elfLoadPage_cases segment h hpage hlast with
        ⟨text, s', heq, hnew, hfree, hfew⟩ | ⟨heq, hnew, hfree⟩ |
        ⟨frame', progress', s', heq, hloaded, hspends, hhighest, hlowest⟩
      · rw [heq]
        refine ⟨fun text' _ more ↦ ?_, ?_, ?_⟩
        · rw [hsteps]
          exact hcharged.starves (mt touched_iff.mpr hnew) hwithin hfree hfew
        · rintro answer heq
          cases heq
        · rintro progress' heq
          cases heq
      · rw [heq]
        refine ⟨?_, fun answer hanswer ↦ ?_, ?_⟩
        · rintro text heq
          cases heq
        · cases hanswer
          refine ⟨rfl, fun more ↦ ?_⟩
          rw [hsteps]
          exact ⟨hcharged.not_starves_of_free hfree,
            hcharged.lt_mappingCost (mt touched_iff.mpr hnew) hwithin hfree⟩
        · rintro progress' heq
          cases heq
      · rw [heq, ← hhighest, ← hlowest]
        have hcharged' : Charged space.user (pagesOf (done ++ [(segment, page)])) start s' := by
          unfold pagesOf
          rw [List.map_append]
          exact hcharged.concat hspends hwithin
        have hrest := ih hloaded hcharged'
          (fun i hi ↦ show UserPage (page + pageSize + i * pageSize) by
            have hnext := hpages (i + 1) (by omega)
            rwa [Nat.add_mul, Nat.one_mul, Nat.add_comm (i * pageSize), ← Nat.add_assoc] at hnext)
          (fun q hq ↦ by
            rcases touched_concat.mp hq with hq | rfl
            · exact (hlast q hq).trans (Nat.le_add_right _ _)
            · exact Nat.le_add_right _ _)
        rwa [List.append_assoc] at hrest

theorem loads_iff (segment : ElfProgramHeader) :
    segment.loads = true ↔ ¬(segment.type ≠ elfSegmentLoad ∨ segment.memorySize = 0) := by
  unfold ElfProgramHeader.loads
  simp

theorem touched_append {q : ℕ} : Touched (done ++ rest) q ↔ Touched done q ∨ Touched rest q := by
  rw [touched_iff, touched_iff, touched_iff, List.map_append, List.mem_append]

theorem touched_pageSteps {q : ℕ} (hq : Touched (pageSteps segment count page) q) :
    ∃ i, i < count ∧ q = page + i * pageSize := by
  obtain ⟨step, hstep, rfl⟩ := hq
  exact (mem_pageSteps.mp hstep).2

theorem page_le_lastPage (segment : ElfProgramHeader) {i : ℕ} (hi : i < segment.pageCount) :
    segment.firstPage + i * pageSize ≤ segment.lastPage := by
  unfold ElfProgramHeader.pageCount at hi
  have hle : segment.firstPage ≤ segment.lastPage := by
    unfold ElfProgramHeader.firstPage ElfProgramHeader.lastPage alignDown
    exact Nat.mul_le_mul_right _ (Nat.div_le_div_right (Nat.le_add_right _ _))
  have hmul : i * pageSize ≤ (segment.lastPage - segment.firstPage) / pageSize * pageSize :=
    Nat.mul_le_mul_right _ (by omega)
  have hdiv := Nat.div_mul_le_self (segment.lastPage - segment.firstPage) pageSize
  omega

theorem alignDown_le (address : ℕ) : alignDown address ≤ address := Nat.div_mul_le_self _ _

theorem alignDown_aligned (address : ℕ) : alignDown address % pageSize = 0 :=
  Nat.mul_mod_left _ _

theorem alignDown_mono {a b : ℕ} (h : a ≤ b) : alignDown a ≤ alignDown b :=
  Nat.mul_le_mul_right _ (Nat.div_le_div_right h)

theorem ElfProgramHeader.lastPage_lt (hloads : segment.loads = true) : segment.lastPage < segment.finish := by
  have hsize := (loads_iff segment).mp hloads
  have hle := alignDown_le (segment.virtualAddress + (segment.memorySize - 1))
  unfold ElfProgramHeader.lastPage ElfProgramHeader.finish
  omega

theorem ElfProgramHeader.Admitted.userPage (h : segment.Admitted length)
    (hloads : segment.loads = true) {i : ℕ} (hi : i < segment.pageCount) :
    UserPage (segment.firstPage + i * pageSize) where
  aligned := by
    have haligned := alignDown_aligned segment.virtualAddress
    unfold ElfProgramHeader.firstPage
    rw [Nat.add_mul_mod_self_right, haligned]
  low := by
    have hlow : alignDown pageSize ≤ segment.firstPage := alignDown_mono h.low
    exact hlow.trans (Nat.le_add_right _ _)
  high := (page_le_lastPage segment hi).trans_lt
    ((ElfProgramHeader.lastPage_lt hloads).trans_le h.high)

theorem SegmentsAdmitted.lastPage_le {other : ElfProgramHeader}
    (h : SegmentsAdmitted (segment :: segments) length) (hloads : segment.loads = true)
    (hother : other ∈ segments) (hother' : other.loads = true) :
    segment.lastPage ≤ other.firstPage := by
  have hsize := (loads_iff segment).mp hloads
  have hfinish := (List.pairwise_cons.mp h.ordered).1 other hother hloads hother'
  unfold ElfProgramHeader.finish at hfinish
  exact alignDown_mono (by omega)

theorem outcome_elfLoadSegment : outcome (elfLoadSegment space image segment progress) s =
    match outcome (elfLoadPages space image segment segment.pageCount segment.firstPage progress) s
      with
    | (.ok (.ok progress), s') =>
        (.ok (.ok { progress with loaded := progress.loaded.extend segment }), s')
    | (.ok (.error result), s') => (.ok (.error result), s')
    | (.error text, s') => (.error text, s') := by
  unfold elfLoadSegment ElfProgramHeader.pageCount
  dsimp only
  rw [outcome_bind]
  rcases outcome (elfLoadPages _ _ _ _ _ _) s with ⟨⟨text⟩ | ⟨⟨result⟩ | ⟨progress'⟩⟩, s'⟩ <;> rfl

theorem elfLoadSegments_run (h : Loaded space image done frame progress start s)
    (hcharged : Charged space.user (pagesOf done) start s)
    (hadmitted : SegmentsAdmitted segments length)
    (hlast : ∀ segment ∈ segments, segment.loads = true → ∀ q, Touched done q →
      q ≤ segment.firstPage) :
    LoadRun space image start (done ++ imageSteps segments)
      (imageLowest segments progress.loaded.lowest)
      (max progress.loaded.highest (imageHighest segments))
      (outcome (elfLoadSegments space image segments progress) s) := by
  induction segments generalizing done frame progress s with
  | nil =>
      rw [imageSteps, List.append_nil]
      refine ⟨?_, ?_, ?_⟩
      · rintro text heq
        cases heq
      · rintro answer heq
        cases heq
      · rintro progress' heq
        cases heq
        exact ⟨rfl, (Nat.max_eq_left (Nat.zero_le _)).symm, hcharged, frame, h⟩
  | cons segment segments ih =>
      have hrest : SegmentsAdmitted segments length :=
        ⟨fun other hother ↦ hadmitted.each other (List.mem_cons_of_mem _ hother),
          (List.pairwise_cons.mp hadmitted.ordered).2⟩
      rw [elfLoadSegments, imageSteps]
      by_cases hloads : segment.loads = true
      · have hthis := hadmitted.each segment List.mem_cons_self hloads
        have hrun := elfLoadPages_run segment segment.pageCount h hcharged
          (fun i hi ↦ hthis.userPage hloads hi)
          (hlast segment List.mem_cons_self hloads)
        have hhighest : ∀ highest, max (max highest segment.finish) (imageHighest segments) =
            max highest (imageHighest (segment :: segments)) := by
          intro highest
          unfold imageHighest
          rw [List.foldr_cons, if_pos hloads, Nat.max_assoc]
        have hlowest : ∀ loaded : ElfImage, imageLowest segments (loaded.extend segment).lowest =
            imageLowest (segment :: segments) loaded.lowest := by
          intro loaded
          unfold imageLowest
          rw [List.foldl_cons, if_pos hloads]
          rfl
        rw [if_neg ((loads_iff segment).mp hloads), if_pos hloads, ← List.append_assoc,
          outcome_bind, outcome_elfLoadSegment]
        cases heq : outcome (elfLoadPages space image segment segment.pageCount segment.firstPage
            progress) s with
        | mk answer s' =>
            rw [heq] at hrun
            cases answer with
            | error text =>
                refine ⟨fun text _ more ↦ ?_, ?_, ?_⟩
                · rw [List.append_assoc]
                  exact hrun.panicked _ rfl _
                · rintro answer heq
                  cases heq
                · rintro progress' heq
                  cases heq
            | ok answer =>
                cases answer with
                | error result =>
                    obtain ⟨hanswer, hnot⟩ := hrun.refused result rfl
                    refine ⟨?_, fun answer heq ↦ ?_, ?_⟩
                    · rintro text heq
                      cases heq
                    · cases heq
                      refine ⟨hanswer, fun more ↦ ?_⟩
                      rw [List.append_assoc]
                      exact hnot _
                    · rintro progress' heq
                      cases heq
                | ok progress' =>
                    obtain ⟨hlow, hsame, hcharged', frame', hloaded⟩ :=
                      hrun.answered progress' rfl
                    have hstill : Loaded space image (done ++ _) frame'
                        { progress' with loaded := progress'.loaded.extend segment } start s' :=
                      { hloaded with shared := hloaded.shared }
                    have hnext := ih hstill hcharged' hrest
                      (fun other hother hother' q hq ↦ by
                        rcases touched_append.mp hq with hq | hq
                        · exact hlast other (List.mem_cons_of_mem _ hother) hother' q hq
                        · obtain ⟨i, hi, rfl⟩ := touched_pageSteps hq
                          exact (page_le_lastPage segment hi).trans
                            (hadmitted.lastPage_le hloads hother hother'))
                    rw [← hhighest, ← hsame, ← hlow, ← hlowest]
                    exact hnext
      · rw [if_pos (not_not.mp (mt (loads_iff segment).mpr hloads)), if_neg hloads]
        have hhighest : imageHighest (segment :: segments) = imageHighest segments := by
          unfold imageHighest
          rw [List.foldr_cons, if_neg hloads]
        have hlowest : imageLowest (segment :: segments) progress.loaded.lowest =
            imageLowest segments progress.loaded.lowest := by
          unfold imageLowest
          rw [List.foldl_cons, if_neg hloads]
        rw [hhighest, hlowest]
        exact ih h hcharged hrest fun other hother ↦ hlast other (List.mem_cons_of_mem _ hother)

structure Loads (space : AddressSpace) (image : Bytes) (length : ℕ) (start : Machine)
    (segments : List ElfProgramHeader)
    (result : Except String (Except ElfResult ElfImage) × Machine) : Prop where
  panicked : (∃ text, result.1 = .error text) ↔
    start.Starves space.user (pagesOf (imageSteps segments))
  answered : ∀ loaded, result.1 = .ok (.ok loaded) → loaded.highest = imageHighest segments ∧
    ∃ frame progress, Loaded space image (imageSteps segments) frame progress start result.2

theorem Loaded.of_empty (image : Bytes) (h : EmptySpace space s) :
    Loaded space image [] (fun _ ↦ 0) ⟨0, 0, ⟨0, 0, 0, 0, 0⟩⟩ s s where
  hierarchy := h.hierarchy
  used _ hn := hn
  absent address haddress _ := h.empty address (space.within_user haddress)
  leaf _ h := by simp [Touched] at h
  held _ h := by simp [Touched] at h
  bytes _ _ h := by simp [Touched] at h
  apart _ _ h := by simp [Touched] at h
  frames _ h := by simp [Touched] at h
  fresh _ h := by simp [Touched] at h
  pages _ h := by simp [Touched] at h
  made _ _ _ hn := Or.inl hn
  elsewhere _ _ _ := rfl
  upper _ _ := rfl
  shared := Or.inl ⟨rfl, rfl⟩

theorem elfLoad_cases {header : ElfHeader} (h : EmptySpace space s)
    (hvalid : elfValidate image length = .ok (header, segments)) :
    (∃ text s', outcome (elfLoad space image length) s = (.error text, s') ∧
      s.Starves space.user (pagesOf (imageSteps segments))) ∨
    (∃ s', outcome (elfLoad space image length) s = (.ok (.error .noMemory), s') ∧
      ¬s.Starves space.user (pagesOf (imageSteps segments)) ∧
      s.frames.freeFrames < s.mappingCost space.user (pagesOf (imageSteps segments))) ∨
    ∃ frame progress s', Loaded space image (imageSteps segments) frame progress s s' ∧
      Charged space.user (pagesOf (imageSteps segments)) s s' ∧
      progress.loaded.highest = imageHighest segments ∧
      outcome (elfLoad space image length) s =
        (.ok (if header.entry < imageLowest segments 0 ∨ imageHighest segments ≤ header.entry then
          .error .badAddress else .ok { progress.loaded with entry := header.entry }), s') := by
  have hrun := elfLoadSegments_run (Loaded.of_empty image h) Charged.refl
    (elfValidate_ok hvalid).1 (fun _ _ _ q hq ↦ by simp [Touched] at hq)
  rw [List.nil_append, Nat.zero_max] at hrun
  unfold elfLoad
  rw [hvalid]
  dsimp only
  rw [outcome_bind]
  generalize outcome (elfLoadSegments space image segments ⟨0, 0, ⟨0, 0, 0, 0, 0⟩⟩) s = result
    at hrun ⊢
  rcases result with ⟨⟨text⟩ | ⟨⟨answer⟩ | ⟨progress⟩⟩, s'⟩
  · left
    have hstarves := hrun.panicked text rfl []
    rw [List.append_nil] at hstarves
    exact ⟨text, s', rfl, hstarves⟩
  · right
    left
    obtain ⟨rfl, hshort⟩ := hrun.refused answer rfl
    have hthis := hshort []
    rw [List.append_nil] at hthis
    exact ⟨s', rfl, hthis⟩
  · right
    right
    obtain ⟨hlowest, hhighest, hcharged, frame, hloaded⟩ := hrun.answered progress rfl
    refine ⟨frame, progress, s', hloaded, hcharged, hhighest, ?_⟩
    dsimp only
    rw [hlowest, hhighest]
    split <;> rfl

theorem elfLoad_run {header : ElfHeader} (h : EmptySpace space s)
    (hvalid : elfValidate image length = .ok (header, segments)) :
    Loads space image length s segments (outcome (elfLoad space image length) s) := by
  rcases elfLoad_cases h hvalid with ⟨text, s', heq, hstarves⟩ | ⟨s', heq, hnot, -⟩ |
    ⟨frame, progress, s', hloaded, hcharged, hhighest, heq⟩
  · rw [heq]
    refine ⟨⟨fun _ ↦ hstarves, fun _ ↦ ⟨text, rfl⟩⟩, ?_⟩
    rintro loaded hloaded
    cases hloaded
  · rw [heq]
    constructor
    · refine ⟨?_, fun hstarves ↦ absurd hstarves hnot⟩
      rintro ⟨text, htext⟩
      cases htext
    · rintro loaded hloaded
      cases hloaded
  · rw [heq]
    constructor
    · refine ⟨?_, fun hstarves ↦ absurd hstarves hcharged.not_starves⟩
      rintro ⟨text, htext⟩
      cases htext
    · intro loaded hanswer
      dsimp only at hanswer
      split at hanswer
      · cases hanswer
      · cases hanswer
        exact ⟨hhighest, frame, progress, hloaded⟩

end OxysOS.Exec
