import OxysOS.Exec.Elf
import OxysOS.Mm.PageFrames

/-!
# The segments and the pages of an image

The segments of a valid image lie within the file and the user's half, above the first page,
in ascending order and apart.  The pages that have been loaded are kept in order with the
segments they were loaded for, and what a page holds and allows follows from that list.
-/

namespace OxysOS.Exec

open OxysOS.Library OxysOS.Mm

variable {image : Bytes} {length count offset : ℕ} {segment : ElfProgramHeader}
  {segments : List ElfProgramHeader} {previousEnd nextEnd : Option ℕ}

def ElfProgramHeader.loads (segment : ElfProgramHeader) : Bool :=
  segment.type = elfSegmentLoad ∧ segment.memorySize ≠ 0

def ElfProgramHeader.finish (segment : ElfProgramHeader) : ℕ :=
  segment.virtualAddress + segment.memorySize

structure ElfProgramHeader.Admitted (segment : ElfProgramHeader) (length : ℕ) : Prop where
  inFile : segment.fileOffset + segment.fileSize ≤ length
  fits : segment.fileSize ≤ segment.memorySize
  low : pageSize ≤ segment.virtualAddress
  high : segment.finish ≤ syscallUserLimit

structure SegmentsAdmitted (segments : List ElfProgramHeader) (length : ℕ) : Prop where
  each : ∀ segment ∈ segments, segment.loads → segment.Admitted length
  ordered : segments.Pairwise fun first second ↦
    first.loads → second.loads → first.finish ≤ second.virtualAddress

theorem elfAdmitSegment_ok (h : elfAdmitSegment segment length previousEnd = .ok nextEnd) :
    (segment.loads = true ∧ segment.Admitted length ∧ nextEnd = some segment.finish ∧
        ∀ finish, previousEnd = some finish → finish ≤ segment.virtualAddress) ∨
      (segment.loads = false ∧ nextEnd = previousEnd) := by
  unfold elfAdmitSegment at h
  unfold ElfProgramHeader.loads
  split at h
  · rename_i htype
    split at h
    · cases h
    · cases h
      exact Or.inr ⟨by simp [htype], rfl⟩
  rename_i htype
  have htype' : segment.type = elfSegmentLoad := not_not.mp htype
  split at h
  · cases h
  rename_i hfile
  split at h
  · cases h
  rename_i hfits
  split at h
  · cases h
  rename_i hspace
  split at h
  · cases h
  rename_i hlow
  split at h
  · rename_i hempty
    cases h
    exact Or.inr ⟨by simp [hempty], rfl⟩
  rename_i hsize
  split at h
  · cases h
  rename_i hafter
  cases h
  left
  have hfile' : segment.fileOffset ≤ length ∧ segment.fileSize ≤ length - segment.fileOffset := by
    simpa [elfRangeIsWithinFile] using hfile
  have hspace' : segment.virtualAddress < syscallUserLimit ∧
      segment.memorySize ≤ syscallUserLimit - segment.virtualAddress := by
    unfold elfRangeIsWithinUserSpace at hspace
    split at hspace
    · exact absurd (fun h ↦ by cases h) hspace
    · exact ⟨by omega, by simpa using hspace⟩
  refine ⟨by simp [htype', hsize], ⟨by omega, by omega, by omega, ?_⟩, rfl, ?_⟩
  · unfold ElfProgramHeader.finish
    omega
  · intro finish hfinish
    rw [hfinish] at hafter
    simpa using hafter

theorem elfReadSegmentsFrom_ok
    (h : elfReadSegmentsFrom image length count offset previousEnd = .ok segments) :
    SegmentsAdmitted segments length ∧
      (∀ segment ∈ segments, segment.loads →
        ∀ finish, previousEnd = some finish → finish ≤ segment.virtualAddress) ∧
      (previousEnd = none → ∃ segment ∈ segments, segment.loads) := by
  induction count generalizing offset previousEnd segments with
  | zero =>
      unfold elfReadSegmentsFrom at h
      split at h
      · rename_i hsome
        cases h
        refine ⟨⟨by simp, List.Pairwise.nil⟩, by simp, fun hnone ↦ ?_⟩
        rw [hnone] at hsome
        cases hsome
      · cases h
  | succ count ih =>
      unfold elfReadSegmentsFrom at h
      dsimp only at h
      generalize elfReadProgramHeader image offset = segment at h
      cases hchecked : elfAdmitSegment segment length previousEnd with
      | error result =>
          rw [hchecked] at h
          cases h
      | ok nextEnd =>
          rw [hchecked] at h
          cases hrest : elfReadSegmentsFrom image length count (offset + elfProgramHeaderBytes)
              nextEnd with
          | error result =>
              have h' : Except.bind (elfReadSegmentsFrom image length count
                  (offset + elfProgramHeaderBytes) nextEnd) (fun rest ↦ .ok (segment :: rest)) =
                  .ok segments := h
              rw [hrest] at h'
              cases h'
          | ok rest =>
              have h' : Except.bind (elfReadSegmentsFrom image length count
                  (offset + elfProgramHeaderBytes) nextEnd) (fun rest ↦ .ok (segment :: rest)) =
                  .ok segments := h
              rw [hrest] at h'
              cases h'
              obtain ⟨⟨heach, hordered⟩, hafter, hsome⟩ := ih hrest
              rcases elfAdmitSegment_ok hchecked with ⟨hloads, hadmitted, rfl, hprevious⟩ | ⟨hnot, rfl⟩
              · refine ⟨⟨?_, ?_⟩, ?_, fun _ ↦ ⟨segment, List.mem_cons_self, hloads⟩⟩
                · intro other hother hother'
                  rcases List.mem_cons.mp hother with rfl | hother
                  · exact hadmitted
                  · exact heach other hother hother'
                · refine List.pairwise_cons.mpr ⟨fun other hother _ hother' ↦ ?_, hordered⟩
                  exact hafter other hother hother' _ rfl
                · intro other hother hother' finish hfinish
                  rcases List.mem_cons.mp hother with rfl | hother
                  · exact hprevious finish hfinish
                  · have hle := hafter other hother hother' _ rfl
                    have hfirst := hprevious finish hfinish
                    unfold ElfProgramHeader.finish at hle
                    omega
              · refine ⟨⟨?_, ?_⟩, ?_, fun hnone ↦ ?_⟩
                · intro other hother hother'
                  rcases List.mem_cons.mp hother with rfl | hother
                  · rw [hnot] at hother'
                    cases hother'
                  · exact heach other hother hother'
                · refine List.pairwise_cons.mpr ⟨fun other _ hloads ↦ ?_, hordered⟩
                  rw [hnot] at hloads
                  cases hloads
                · intro other hother hother' finish hfinish
                  rcases List.mem_cons.mp hother with rfl | hother
                  · rw [hnot] at hother'
                    cases hother'
                  · exact hafter other hother hother' finish hfinish
                · obtain ⟨other, hother, hloads⟩ := hsome hnone
                  exact ⟨other, List.mem_cons_of_mem _ hother, hloads⟩

theorem elfValidate_ok {header : ElfHeader} (h : elfValidate image length = .ok (header, segments)) :
    SegmentsAdmitted segments length ∧ ∃ segment ∈ segments, segment.loads := by
  have hbind : (elfDecode image length).bind (fun header ↦
      (elfReadSegments image length header).bind fun segments ↦ .ok (header, segments)) =
      .ok (header, segments) := h
  cases hdecode : elfDecode image length with
  | error result =>
      rw [hdecode] at hbind
      cases hbind
  | ok header' =>
      rw [hdecode] at hbind
      dsimp only [Except.bind] at hbind
      cases hread : elfReadSegments image length header' with
      | error result =>
          rw [hread] at hbind
          cases hbind
      | ok segments' =>
          rw [hread] at hbind
          cases hbind
          unfold elfReadSegments at hread
          split at hread
          · cases hread
          split at hread
          · cases hread
          split at hread
          · cases hread
          split at hread
          · cases hread
          split at hread
          · cases hread
          obtain ⟨hadmitted, -, hsome⟩ := elfReadSegmentsFrom_ok hread
          exact ⟨hadmitted, hsome rfl⟩

end OxysOS.Exec

namespace OxysOS.Exec

open OxysOS.Library OxysOS.Mm Action

variable {image : Bytes} {segment : ElfProgramHeader}
  {done : List (ElfProgramHeader × ℕ)} {page address o : ℕ}

def ElfProgramHeader.Backs (segment : ElfProgramHeader) (address : ℕ) : Prop :=
  segment.virtualAddress ≤ address ∧ address < segment.virtualAddress + segment.fileSize

instance (segment : ElfProgramHeader) (address : ℕ) : Decidable (segment.Backs address) :=
  inferInstanceAs (Decidable (_ ∧ _))

def ElfProgramHeader.fileByte (segment : ElfProgramHeader) (image : Bytes) (address : ℕ) :
    UInt8 :=
  image (segment.fileOffset + (address - segment.virtualAddress))

def byteIn (image : Bytes) (done : List (ElfProgramHeader × ℕ)) (page o : ℕ) : UInt8 :=
  done.foldl (fun byte step ↦
    if step.2 = page ∧ step.1.Backs (page + o) then step.1.fileByte image (page + o) else byte) 0

def writableIn (done : List (ElfProgramHeader × ℕ)) (page : ℕ) : Bool :=
  done.any fun step ↦ step.2 = page ∧ step.1.isWritable

theorem byteIn_concat (other : ℕ) : byteIn image (done ++ [(segment, page)]) other o =
    if page = other ∧ segment.Backs (other + o) then segment.fileByte image (other + o)
    else byteIn image done other o := by
  unfold byteIn
  rw [List.foldl_append]
  rfl

theorem byteIn_of_absent (h : ∀ step ∈ done, step.2 ≠ page) : byteIn image done page o = 0 := by
  induction done using List.reverseRecOn with
  | nil => rfl
  | append_singleton done step ih =>
      have hlast : step.2 ≠ page := h step (by simp)
      have hrest := ih fun other hother ↦ h other (by simp [hother])
      change byteIn image (done ++ [(step.1, step.2)]) page o = 0
      rw [byteIn_concat, if_neg (fun h ↦ hlast h.1), hrest]

theorem writableIn_concat (other : ℕ) : writableIn (done ++ [(segment, page)]) other =
    (writableIn done other || decide (page = other ∧ segment.isWritable = true)) := by
  unfold writableIn
  rw [List.any_append]
  simp

theorem writableIn_of_absent (h : ∀ step ∈ done, step.2 ≠ page) : writableIn done page = false := by
  unfold writableIn
  rw [List.any_eq_false]
  intro step hstep
  simp [h step hstep]

theorem elfCopySegment_eq (ho : o < pageSize) (bytes : Bytes) :
    elfCopySegment image segment page bytes o =
      if segment.Backs (page + o) then segment.fileByte image (page + o) else bytes o := by
  unfold elfCopySegment
  dsimp only
  by_cases hbacked : segment.Backs (page + o)
  · obtain ⟨hstart, hend⟩ := id hbacked
    rw [if_pos hbacked]
    unfold ElfProgramHeader.fileByte
    by_cases hbefore : segment.virtualAddress < page
    · simp only [if_pos hbefore]
      rw [if_pos (by omega), splice_of_mem (Nat.zero_le o)]
      · congr 1
        omega
      · split <;> omega
    · simp only [if_neg hbefore]
      rw [if_pos (by omega), splice_of_mem (by omega)]
      · congr 1
        omega
      · split <;> omega
  · have hout : page + o < segment.virtualAddress ∨
        segment.virtualAddress + segment.fileSize ≤ page + o := by
      by_contra hin
      exact hbacked ⟨by omega, by omega⟩
    rw [if_neg hbacked]
    by_cases hbefore : segment.virtualAddress < page
    · simp only [if_pos hbefore]
      split
      · apply splice_of_le
        split <;> omega
      · rfl
    · simp only [if_neg hbefore]
      split
      · rcases hout with hout | hout
        · exact splice_of_lt (by omega)
        · apply splice_of_le
          split <;> omega
      · rfl

end OxysOS.Exec
