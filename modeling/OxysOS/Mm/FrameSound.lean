import OxysOS.Mm.FrameAccount

/-!
# What the rest of the kernel relies upon of the frame allocator

A frame allocated was clear and is then held once; an allocation fails only
where no frame is clear; and a release takes one holder away, the frame going
back with the last.
-/

namespace OxysOS.Mm.FrameAllocator

open OxysOS.Library

variable {s t : FrameAllocator} {i j : ℕ}

/-- A machine of at most 52 bits of address, whose allocator keeps its
accounts and issues no low memory. -/
structure Sound (s : FrameAllocator) : Prop where
  counted : Counted s
  references : ReferencesAgree s
  low : LowReserved s
  machine : s.frameCount ≤ 2 ^ 40

def holders (s : FrameAllocator) (i : ℕ) : ℕ := s.referenceCount (i * pageSize)

theorem frameIndexOf_mul_pageSize (i : ℕ) : frameIndexOf (i * pageSize) = i :=
  Nat.mul_div_cancel i (by decide)

theorem holders_of_none (h : s.references = none) (hi : i < s.frameCount) :
    s.holders i = if s.isUsed i then 1 else 0 := by
  unfold holders referenceCount
  rw [frameIndexOf_mul_pageSize, if_neg (by omega), h]

theorem holders_of_some {table : ℕ → ℕ} (h : s.references = some table) (hi : i < s.frameCount) :
    s.holders i = table i := by
  unfold holders referenceCount
  rw [frameIndexOf_mul_pageSize, if_neg (by omega), h]

theorem holders_of_le (hi : s.frameCount ≤ i) : s.holders i = 0 := by
  unfold holders referenceCount
  rw [frameIndexOf_mul_pageSize, if_pos hi]

namespace Sound

theorem of_initialise {information : BootInformation}
    (h : physicalMemoryInitialise information = .ok s) (hcount : s.frameCount ≤ 2 ^ 40) :
    Sound s := by
  obtain ⟨hcounted, hnone, hlow⟩ := initialised h
  refine ⟨hcounted, fun table htable ↦ ?_, hlow, hcount⟩
  rw [hnone] at htable
  cases htable

theorem holders_ne_zero (h : Sound s) (hi : i < s.frameCount) :
    s.holders i ≠ 0 ↔ s.isUsed i = true := by
  cases hreferences : s.references with
  | none =>
      rw [holders_of_none hreferences hi]
      cases s.isUsed i <;> simp
  | some table =>
      rw [holders_of_some hreferences hi]
      exact h.references table hreferences i hi

theorem lt_of_clear (h : Sound s) (hclear : s.isUsed i = false) : i < s.frameCount :=
  h.counted.lt_of_clear hclear

theorem free_pos (h : Sound s) (hclear : s.isUsed i = false) : 0 < s.freeFrames := by
  rw [h.counted.clear]
  exact tally_pos ((h.lt_of_clear hclear).trans_le h.counted.words) hclear

theorem allocate_cases (h : Sound s) :
    (s.freeFrames = 0 ∧ s.allocate = (frameAllocationFailed, s)) ∨
      ∃ i, s.allocate = (i * pageSize, s.issue i) ∧ s.isUsed i = false ∧ i < s.frameCount ∧
        frameIndexOf lowMemoryLimit ≤ i ∧ 0 < s.freeFrames := by
  have hlimit : s.limitIndex (frameAddressOf s.frameCount) = s.frameCount := by
    unfold limitIndex frameAddressOf alignDown
    rw [Nat.mod_eq_of_lt h.counted.addressable, Nat.mul_div_cancel _ (by decide),
      frameIndexOf_mul_pageSize, min_self]
  rcases allocateBelow_cases s (frameAddressOf s.frameCount) with
    ⟨i, heq, hclear, hlt, hge⟩ | ⟨heq, hfull⟩
  · right
    rw [hlimit] at hlt
    refine ⟨i, ?_, hclear, hlt, hge h.low.hint, h.free_pos hclear⟩
    have haddress : frameAddressOf i = i * pageSize := Nat.mod_eq_of_lt
      ((Nat.mul_le_mul_right pageSize hlt.le).trans_lt h.counted.addressable)
    rw [← haddress]
    exact heq
  · left
    rw [hlimit] at hfull
    refine ⟨?_, heq⟩
    rw [h.counted.clear]
    apply tally_eq_zero
    intro i _ hclear
    have hused : s.isUsed i = true := by
      by_cases hlow : i < frameIndexOf lowMemoryLimit
      · exact h.low.used i hlow
      · exact hfull i (by omega) (h.lt_of_clear hclear)
    rw [hclear] at hused
    cases hused

theorem issue (h : Sound s) (hlow : frameIndexOf lowMemoryLimit ≤ i) : Sound (s.issue i) where
  counted := h.counted.issue i
  references := h.references.issue i
  low := h.low.issue hlow
  machine := by
    rw [frameCount_issue]
    exact h.machine

end Sound

theorem freeFrames_issue (hclear : s.isUsed i = false) :
    (s.issue i).freeFrames = s.freeFrames - 1 := by
  change (s.markUsed i).freeFrames = _
  unfold markUsed
  rw [hclear]
  rfl

theorem references_issue (s : FrameAllocator) (i : ℕ) :
    (s.issue i).references = s.references.map fun table ↦ Function.update table i 1 := by
  change (s.markUsed i).references.map _ = _
  rw [(sameFrame_markUsed s i).references]

theorem holders_issue (hi : i < s.frameCount) :
    (s.issue i).holders j = if j = i then 1 else s.holders j := by
  by_cases hj : j < s.frameCount
  · have hj' : j < (s.issue i).frameCount := by rwa [frameCount_issue]
    have hreferences' := references_issue s i
    cases hreferences : s.references with
    | none =>
        rw [hreferences] at hreferences'
        rw [holders_of_none hreferences' hj', holders_of_none hreferences hj, isUsed_issue]
        by_cases hji : j = i
        · simp [hji]
        · simp [hji, Ne.symm hji]
    | some table =>
        rw [hreferences] at hreferences'
        rw [holders_of_some hreferences' hj', holders_of_some hreferences hj]
        by_cases hji : j = i
        · simp [hji]
        · simp [hji]
  · have hle : s.frameCount ≤ j := Nat.le_of_not_lt hj
    have hne : j ≠ i := by omega
    rw [if_neg hne, holders_of_le hle]
    exact holders_of_le (by rwa [frameCount_issue])

structure Released (s t : FrameAllocator) (i : ℕ) : Prop where
  sound : Sound t
  frameCount : t.frameCount = s.frameCount
  holders : ∀ j, t.holders j = if j = i then s.holders i - 1 else s.holders j
  isUsed : ∀ j, t.isUsed j = if j = i ∧ s.holders i = 1 then false else s.isUsed j
  freeFrames : t.freeFrames = if s.holders i = 1 then s.freeFrames + 1 else s.freeFrames

theorem freeFrames_restore (hused : s.isUsed i = true) :
    (s.restore i).freeFrames = s.freeFrames + 1 := by
  change (s.markFree i).freeFrames = _
  unfold markFree
  rw [if_pos hused]

theorem Sound.free (h : Sound s) (hi : i < s.frameCount) (hused : s.isUsed i = true)
    (hlow : frameIndexOf lowMemoryLimit ≤ i) :
    ∃ t, s.free (i * pageSize) = .ok t ∧ Released s t i := by
  have hindex := frameIndexOf_mul_pageSize i
  have hholders : s.holders i ≠ 0 := (h.holders_ne_zero hi).mpr hused
  have haligned : isPageAligned (i * pageSize) = true := by
    unfold isPageAligned
    rw [Nat.mul_mod_left]
    rfl
  have hanswer : ∃ t, s.free (i * pageSize) = .ok t := by
    unfold FrameAllocator.free
    rw [if_neg (by simp [haligned])]
    dsimp only
    rw [hindex, if_neg (by omega), if_neg (by simp [hused])]
    cases hreferences : s.references with
    | none => exact ⟨_, rfl⟩
    | some table =>
        rw [holders_of_some hreferences hi] at hholders
        dsimp only
        rw [if_neg hholders]
        split <;> exact ⟨_, rfl⟩
  obtain ⟨t, ht⟩ := hanswer
  have hcases := free_cases ht
  rw [hindex] at hcases
  obtain ⟨-, -, -, hcases⟩ := hcases
  have hsound : Sound t := by
    refine ⟨h.counted.free ht, h.references.free ht, h.low.free ht (by rwa [hindex]), ?_⟩
    rcases hcases with ⟨-, rfl⟩ | ⟨table, -, -, ⟨-, rfl⟩ | ⟨-, rfl⟩⟩
    · rw [frameCount_restore]
      exact h.machine
    · exact h.machine
    · rw [frameCount_restore]
      exact h.machine
  refine ⟨t, ht, ?_⟩
  rcases hcases with ⟨hnone, rfl⟩ | ⟨table, htable, hzero, ⟨hone, rfl⟩ | ⟨hone, rfl⟩⟩
  · have hone : s.holders i = 1 := by rw [holders_of_none hnone hi, if_pos hused]
    have hnone' : (s.restore i).references = none := by
      rw [← hnone]
      exact (sameFrame_markFree s i).references
    refine ⟨hsound, frameCount_restore s i, fun j ↦ ?_, fun j ↦ ?_, ?_⟩
    · by_cases hj : j < s.frameCount
      · rw [holders_of_none hnone' (by rwa [frameCount_restore]), isUsed_restore, hone,
          holders_of_none hnone hj]
        by_cases hji : j = i
        · simp [hji]
        · simp [hji, Ne.symm hji]
      · have hle : s.frameCount ≤ j := Nat.le_of_not_lt hj
        have hne : j ≠ i := by omega
        rw [if_neg hne, holders_of_le hle]
        exact holders_of_le (by rwa [frameCount_restore])
    · rw [isUsed_restore, hone]
      by_cases hji : j = i
      · simp [hji]
      · simp [hji, Ne.symm hji]
    · rw [freeFrames_restore hused, if_pos hone]
  · have hmany : s.holders i ≠ 1 := by rwa [holders_of_some htable hi]
    refine ⟨hsound, rfl, fun j ↦ ?_, fun j ↦ ?_, ?_⟩
    · by_cases hj : j < s.frameCount
      · have hreferences' : (s.setReference table i (table i - 1)).references =
            some (Function.update table i (table i - 1)) := rfl
        rw [holders_of_some hreferences' hj, holders_of_some htable hj, holders_of_some htable hi]
        by_cases hji : j = i
        · simp [hji]
        · simp [hji]
      · have hle : s.frameCount ≤ j := Nat.le_of_not_lt hj
        have hne : j ≠ i := by omega
        rw [if_neg hne, holders_of_le hle]
        exact holders_of_le hle
    · rw [if_neg (by simp [hmany])]
      rfl
    · rw [if_neg hmany]
      rfl
  · have hone' : s.holders i = 1 := by rwa [holders_of_some htable hi]
    have hreferences' : ((s.setReference table i 0).restore i).references =
        some (Function.update table i 0) := (sameFrame_markFree _ i).references
    refine ⟨hsound, frameCount_restore _ i, fun j ↦ ?_, fun j ↦ ?_, ?_⟩
    · by_cases hj : j < s.frameCount
      · rw [holders_of_some hreferences' (by rw [frameCount_restore]; exact hj),
          holders_of_some htable hj, hone']
        by_cases hji : j = i
        · simp [hji]
        · simp [hji]
      · have hle : s.frameCount ≤ j := Nat.le_of_not_lt hj
        have hne : j ≠ i := by omega
        rw [if_neg hne, holders_of_le hle]
        exact holders_of_le (by rw [frameCount_restore]; exact hle)
    · rw [isUsed_restore, hone']
      by_cases hji : j = i
      · simp [hji]
      · simp [hji, Ne.symm hji]
    · rw [freeFrames_restore (by exact hused), if_pos hone']
      rfl

end OxysOS.Mm.FrameAllocator
