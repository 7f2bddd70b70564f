import OxysOS.Library.Tally
import OxysOS.Mm.Frames

/-!
# The account of the frame allocator

The free count is the number of clear bits and a frame's count stands exactly
while its bit is set; each operation of `kernel/mm/pmm.c` preserves both.
-/

namespace OxysOS.Mm

open OxysOS.Library

namespace FrameAllocator

variable {s t : FrameAllocator} {i j turns index last limit frame : ℕ}

theorem isUsed_markUsed (s : FrameAllocator) (i j : ℕ) :
    (s.markUsed i).isUsed j = (s.isUsed j || decide (i = j)) := by
  unfold markUsed
  by_cases hused : s.isUsed i = true
  · rw [if_pos hused]
    by_cases hij : i = j
    · subst hij
      simp [hused]
    · simp [hij]
  · rw [if_neg hused]
    exact Bitmap.test_set s.bitmap i j

theorem isUsed_markFree (s : FrameAllocator) (i j : ℕ) :
    (s.markFree i).isUsed j = (s.isUsed j && decide (i ≠ j)) := by
  unfold markFree
  by_cases hused : s.isUsed i = true
  · rw [if_pos hused]
    exact Bitmap.test_clear s.bitmap i j
  · rw [if_neg hused]
    by_cases hij : i = j
    · subst hij
      simpa using hused
    · simp [hij]

structure SameFrame (s t : FrameAllocator) : Prop where
  frameCount : t.frameCount = s.frameCount
  wordCount : t.wordCount = s.wordCount
  searchHint : t.searchHint = s.searchHint
  references : t.references = s.references

theorem sameFrame_markUsed (s : FrameAllocator) (i : ℕ) : SameFrame s (s.markUsed i) := by
  unfold markUsed
  split <;> exact ⟨rfl, rfl, rfl, rfl⟩

theorem sameFrame_markFree (s : FrameAllocator) (i : ℕ) : SameFrame s (s.markFree i) := by
  unfold markFree
  split <;> exact ⟨rfl, rfl, rfl, rfl⟩

structure Counted (s : FrameAllocator) : Prop where
  words : s.frameCount ≤ 64 * s.wordCount
  addressable : s.frameCount * pageSize < 2 ^ 64
  beyond : ∀ i, s.frameCount ≤ i → s.isUsed i = true
  clear : s.freeFrames = tally (64 * s.wordCount) fun i ↦ s.isUsed i = false

def ReferencesAgree (s : FrameAllocator) : Prop :=
  ∀ table, s.references = some table → ∀ i, i < s.frameCount → (table i ≠ 0 ↔ s.isUsed i = true)

structure LowReserved (s : FrameAllocator) : Prop where
  used : ∀ i, i < frameIndexOf lowMemoryLimit → s.isUsed i = true
  hint : frameIndexOf lowMemoryLimit ≤ s.searchHint

theorem Counted.lt_of_clear (h : Counted s) (hclear : s.isUsed i = false) :
    i < s.frameCount := by
  by_contra hge
  have hused := h.beyond i (by omega)
  simp [hclear] at hused

theorem Counted.markUsed (h : Counted s) (i : ℕ) : Counted (s.markUsed i) := by
  have hsame := sameFrame_markUsed s i
  constructor
  · rw [hsame.frameCount, hsame.wordCount]
    exact h.words
  · rw [hsame.frameCount]
    exact h.addressable
  · intro j hj
    rw [hsame.frameCount] at hj
    rw [isUsed_markUsed, h.beyond j hj, Bool.true_or]
  · rw [hsame.wordCount]
    by_cases hused : s.isUsed i = true
    · have hself : s.markUsed i = s := if_pos hused
      rw [hself]
      exact h.clear
    · have hclear : s.isUsed i = false := by simpa using hused
      have hfree : (s.markUsed i).freeFrames = s.freeFrames - 1 := by
        unfold FrameAllocator.markUsed
        rw [if_neg hused]
      have hbound : i < 64 * s.wordCount := (h.lt_of_clear hclear).trans_le h.words
      have htally : tally (64 * s.wordCount) (fun j ↦ s.isUsed j = false) =
          tally (64 * s.wordCount) (fun j ↦ (s.markUsed i).isUsed j = false) + 1 := by
        apply tally_insert hbound
        · simp [isUsed_markUsed]
        · intro j _
          rw [isUsed_markUsed]
          by_cases hij : i = j
          · subst hij
            simp [hclear]
          · simp [hij, Ne.symm hij]
      rw [hfree, h.clear, htally, Nat.add_sub_cancel]

theorem Counted.markFree (h : Counted s) (hi : i < s.frameCount) : Counted (s.markFree i) := by
  have hsame := sameFrame_markFree s i
  constructor
  · rw [hsame.frameCount, hsame.wordCount]
    exact h.words
  · rw [hsame.frameCount]
    exact h.addressable
  · intro j hj
    rw [hsame.frameCount] at hj
    have hne : i ≠ j := by omega
    simp [isUsed_markFree, h.beyond j hj, hne]
  · rw [hsame.wordCount]
    by_cases hused : s.isUsed i = true
    · have hfree : (s.markFree i).freeFrames = s.freeFrames + 1 := by
        unfold FrameAllocator.markFree
        rw [if_pos hused]
      have htally : tally (64 * s.wordCount) (fun j ↦ (s.markFree i).isUsed j = false) =
          tally (64 * s.wordCount) (fun j ↦ s.isUsed j = false) + 1 := by
        apply tally_insert (hi.trans_le h.words)
        · simp [hused]
        · intro j _
          rw [isUsed_markFree]
          by_cases hij : i = j
          · subst hij
            simp
          · simp [hij, Ne.symm hij]
      rw [hfree, h.clear, htally]
    · have hself : s.markFree i = s := if_neg hused
      rw [hself]
      exact h.clear

theorem isUsed_foldl_markUsed (indices : List ℕ) (s : FrameAllocator) (j : ℕ) :
    (indices.foldl FrameAllocator.markUsed s).isUsed j = (s.isUsed j || decide (j ∈ indices)) := by
  induction indices generalizing s with
  | nil => simp
  | cons i rest ih =>
      rw [List.foldl_cons, ih, isUsed_markUsed]
      by_cases hij : i = j
      · subst hij
        simp
      · simp [hij, Ne.symm hij]

theorem sameFrame_foldl {mark : FrameAllocator → ℕ → FrameAllocator}
    (hmark : ∀ s i, SameFrame s (mark s i)) (indices : List ℕ) (s : FrameAllocator) :
    SameFrame s (indices.foldl mark s) := by
  induction indices generalizing s with
  | nil => exact ⟨rfl, rfl, rfl, rfl⟩
  | cons i rest ih =>
      have hfirst := hmark s i
      have hrest := ih (mark s i)
      exact ⟨hrest.frameCount.trans hfirst.frameCount, hrest.wordCount.trans hfirst.wordCount,
        hrest.searchHint.trans hfirst.searchHint, hrest.references.trans hfirst.references⟩

theorem Counted.foldl_markUsed (h : Counted s) (indices : List ℕ) :
    Counted (indices.foldl FrameAllocator.markUsed s) := by
  induction indices generalizing s with
  | nil => exact h
  | cons i rest ih => exact ih (h.markUsed i)

theorem Counted.foldl_markFree (h : Counted s) {indices : List ℕ}
    (hbound : ∀ i ∈ indices, i < s.frameCount) :
    Counted (indices.foldl FrameAllocator.markFree s) := by
  induction indices generalizing s with
  | nil => exact h
  | cons i rest ih =>
      apply ih (h.markFree (hbound i List.mem_cons_self))
      intro j hj
      rw [(sameFrame_markFree s i).frameCount]
      exact hbound j (List.mem_cons_of_mem i hj)

structure Reserves (s t : FrameAllocator) : Prop where
  same : SameFrame s t
  counted : Counted s → Counted t
  used : ∀ i, s.isUsed i = true → t.isUsed i = true

theorem Reserves.refl (s : FrameAllocator) : Reserves s s :=
  ⟨⟨rfl, rfl, rfl, rfl⟩, id, fun _ h ↦ h⟩

theorem Reserves.trans {r : FrameAllocator} (h : Reserves r s) (h' : Reserves s t) :
    Reserves r t where
  same := ⟨h'.same.frameCount.trans h.same.frameCount, h'.same.wordCount.trans h.same.wordCount,
    h'.same.searchHint.trans h.same.searchHint, h'.same.references.trans h.same.references⟩
  counted hr := h'.counted (h.counted hr)
  used i hi := h'.used i (h.used i hi)

theorem reserves_markRange (s : FrameAllocator) (start finish : ℕ) :
    Reserves s (s.markRange start finish) := by
  have hfold : ∀ indices : List ℕ, Reserves s (indices.foldl FrameAllocator.markUsed s) := by
    intro indices
    refine ⟨sameFrame_foldl sameFrame_markUsed indices s, fun h ↦ h.foldl_markUsed indices, ?_⟩
    intro i hi
    rw [isUsed_foldl_markUsed, hi, Bool.true_or]
  unfold markRange
  split
  · exact Reserves.refl s
  · dsimp only
    split
    · exact Reserves.refl s
    · exact hfold _

theorem Counted.releaseRange (h : Counted s) (start finish : ℕ) :
    Counted (s.releaseRange start finish) ∧ SameFrame s (s.releaseRange start finish) := by
  unfold FrameAllocator.releaseRange
  dsimp only
  split
  · exact ⟨h, rfl, rfl, rfl, rfl⟩
  · split
    · exact ⟨h, rfl, rfl, rfl, rfl⟩
    · rename_i hfirst
      refine ⟨h.foldl_markFree ?_, sameFrame_foldl sameFrame_markFree _ s⟩
      intro i hi
      rw [List.mem_range'_1] at hi
      split at hi <;> omega

theorem markRange_low (h : Counted s) (hi : i < frameIndexOf lowMemoryLimit) :
    (s.markRange 0 lowMemoryLimit).isUsed i = true := by
  by_cases hcount : s.frameCount ≤ i
  · exact (reserves_markRange s 0 lowMemoryLimit).used i (h.beyond i hcount)
  · have hfirst : frameIndexOf (alignDown 0) = 0 := by decide
    have hlast : frameIndexOf ((alignUp lowMemoryLimit + (2 ^ 64 - 1)) % 2 ^ 64) + 1 =
        frameIndexOf lowMemoryLimit := by decide
    unfold markRange
    rw [if_neg (by decide)]
    dsimp only
    rw [if_neg (by omega), isUsed_foldl_markUsed, hfirst]
    have hmem : i ∈ List.range' 0
        ((if s.frameCount ≤ frameIndexOf ((alignUp lowMemoryLimit + (2 ^ 64 - 1)) % 2 ^ 64) then
          s.frameCount - 1
        else frameIndexOf ((alignUp lowMemoryLimit + (2 ^ 64 - 1)) % 2 ^ 64)) + 1 - 0) := by
      rw [List.mem_range'_1]
      split <;> omega
    rw [decide_eq_true hmem, Bool.or_true]

theorem counted_unavailable {frameCount : ℕ} (h : frameCount * pageSize < 2 ^ 64) :
    Counted (unavailableFrames frameCount) := by
  have hused : ∀ i, (unavailableFrames frameCount).isUsed i = true := fun i ↦
    Bitmap.test_of_full rfl
  constructor
  · change frameCount ≤ 64 * ((frameCount + 63) / 64)
    omega
  · exact h
  · exact fun i _ ↦ hused i
  · symm
    apply tally_eq_zero
    intro i _
    simp [hused i]

theorem counted_releaseRegions (regions : List BootMemoryRegion) (h : Counted s) :
    Counted (regions.foldl releaseRegion s) ∧ SameFrame s (regions.foldl releaseRegion s) := by
  induction regions generalizing s with
  | nil => exact ⟨h, rfl, rfl, rfl, rfl⟩
  | cons region rest ih =>
      have hregion : Counted (releaseRegion s region) ∧ SameFrame s (releaseRegion s region) := by
        unfold releaseRegion
        split
        · exact h.releaseRange _ _
        · exact ⟨h, rfl, rfl, rfl, rfl⟩
      obtain ⟨hcounted, hsame⟩ := ih hregion.1
      exact ⟨hcounted, hsame.frameCount.trans hregion.2.frameCount,
        hsame.wordCount.trans hregion.2.wordCount, hsame.searchHint.trans hregion.2.searchHint,
        hsame.references.trans hregion.2.references⟩

theorem reserves_modules (modules : List BootModule) (s : FrameAllocator) :
    Reserves s (modules.foldl (fun s image ↦ s.markRange image.start image.finish) s) := by
  induction modules generalizing s with
  | nil => exact Reserves.refl s
  | cons image rest ih => exact (reserves_markRange s image.start image.finish).trans (ih _)

theorem reserves_extents (information : BootInformation) (bitmapStart bitmapEnd : ℕ)
    (s : FrameAllocator) :
    Reserves (s.markRange 0 lowMemoryLimit)
      (reserveExtents information bitmapStart bitmapEnd s) := by
  unfold reserveExtents
  dsimp only
  apply ((reserves_markRange _ _ _).trans ((reserves_markRange _ _ _).trans
    (reserves_markRange _ _ _))).trans
  exact reserves_modules _ _

theorem frameIndexOf_alignUp_addressable (value : ℕ) :
    frameIndexOf (alignUp value) * pageSize < 2 ^ 64 := by
  have hmod : (value + (pageSize - 1)) % 2 ^ 64 < 2 ^ 64 := Nat.mod_lt _ (by decide)
  unfold frameIndexOf alignUp
  rw [Nat.mul_div_cancel _ (by decide)]
  exact (Nat.div_mul_le_self _ _).trans_lt hmod

theorem initialised {information : BootInformation}
    (h : physicalMemoryInitialise information = .ok s) :
    Counted s ∧ s.references = none ∧ LowReserved s := by
  unfold physicalMemoryInitialise at h
  split at h
  · cases h
  · dsimp only at h
    split at h
    · cases h
    · have hstart := counted_unavailable
        (frameIndexOf_alignUp_addressable information.highestUsableAddress)
      obtain ⟨hcounted, hsame⟩ := counted_releaseRegions information.memoryRegions hstart
      cases h
      have hlow := reserves_markRange
        (information.memoryRegions.foldl releaseRegion (unavailableFrames
          (frameIndexOf (alignUp information.highestUsableAddress)))) 0 lowMemoryLimit
      have hextents := reserves_extents information
        (physicalMemoryPlaceBitmap information ((unavailableFrames
          (frameIndexOf (alignUp information.highestUsableAddress))).wordCount * 8))
        (physicalMemoryPlaceBitmap information ((unavailableFrames
          (frameIndexOf (alignUp information.highestUsableAddress))).wordCount * 8) +
          (unavailableFrames
            (frameIndexOf (alignUp information.highestUsableAddress))).wordCount * 8)
        (information.memoryRegions.foldl releaseRegion (unavailableFrames
          (frameIndexOf (alignUp information.highestUsableAddress))))
      have hall := hlow.trans hextents
      refine ⟨hall.counted hcounted, ?_, ?_, ?_⟩
      · exact hall.same.references.trans hsame.references
      · exact fun i hi ↦ hextents.used i (markRange_low hcounted hi)
      · rw [hall.same.searchHint, hsame.searchHint]
        exact le_rfl

theorem search_some (h : s.search turns index last = some i) :
    index ≤ i ∧ i < last ∧ s.isUsed i = false := by
  induction turns generalizing index with
  | zero => cases h
  | succ turns ih =>
      unfold search at h
      split at h
      · cases h
      · split at h
        · obtain ⟨hge, hlt, hclear⟩ := ih h
          exact ⟨by omega, hlt, hclear⟩
        · split at h
          · obtain ⟨hge, hlt, hclear⟩ := ih h
            exact ⟨by omega, hlt, hclear⟩
          · rename_i hlast _ hused
            cases h
            exact ⟨le_rfl, by omega, by simpa using hused⟩

theorem search_none (h : s.search turns index last = none) (hturns : last - index ≤ turns)
    (hge : index ≤ i) (hlt : i < last) : s.isUsed i = true := by
  induction turns generalizing index with
  | zero => omega
  | succ turns ih =>
      unfold search at h
      split at h
      · omega
      · split at h
        · rename_i hfull
          by_cases hword : i < index + 64
          · apply Bitmap.test_of_full
            have hsame : i / 64 = index / 64 := by omega
            rw [hsame]
            exact hfull.2
          · exact ih h (by omega) (by omega)
        · split at h
          · rename_i hused
            by_cases heq : index = i
            · rw [← heq]
              exact hused
            · exact ih h (by omega) (by omega)
          · cases h

theorem isUsed_issue (s : FrameAllocator) (i j : ℕ) :
    (s.issue i).isUsed j = (s.isUsed j || decide (i = j)) := isUsed_markUsed s i j

theorem isUsed_restore (s : FrameAllocator) (i j : ℕ) :
    (s.restore i).isUsed j = (s.isUsed j && decide (i ≠ j)) := isUsed_markFree s i j

@[simp] theorem isUsed_setReference (s : FrameAllocator) (table : ℕ → ℕ) (i count j : ℕ) :
    (s.setReference table i count).isUsed j = s.isUsed j := rfl

theorem frameCount_issue (s : FrameAllocator) (i : ℕ) :
    (s.issue i).frameCount = s.frameCount := (sameFrame_markUsed s i).frameCount

theorem frameCount_restore (s : FrameAllocator) (i : ℕ) :
    (s.restore i).frameCount = s.frameCount := (sameFrame_markFree s i).frameCount

theorem allocateBelow_cases (s : FrameAllocator) (limit : ℕ) :
    (∃ i, s.allocateBelow limit = (frameAddressOf i, s.issue i) ∧ s.isUsed i = false ∧
      i < s.limitIndex limit ∧
      (frameIndexOf lowMemoryLimit ≤ s.searchHint → frameIndexOf lowMemoryLimit ≤ i)) ∨
    (s.allocateBelow limit = (frameAllocationFailed, s) ∧
      ∀ i, frameIndexOf lowMemoryLimit ≤ i → i < s.limitIndex limit → s.isUsed i = true) := by
  unfold allocateBelow
  dsimp only
  generalize hstart : s.startIndex limit = start
  unfold startIndex at hstart
  have hhint : frameIndexOf lowMemoryLimit ≤ s.searchHint → frameIndexOf lowMemoryLimit ≤ start := by
    intro hle
    rw [← hstart]
    split <;> omega
  have hbelow : start = frameIndexOf lowMemoryLimit ∨ start < s.limitIndex limit := by
    rw [← hstart]
    split <;> omega
  cases hfirst : s.search (s.limitIndex limit - start) start (s.limitIndex limit) with
  | some i =>
      obtain ⟨hge, hlt, hclear⟩ := search_some hfirst
      exact Or.inl ⟨i, rfl, hclear, hlt, fun hle ↦ (hhint hle).trans hge⟩
  | none =>
      cases hsecond : s.search (start - frameIndexOf lowMemoryLimit)
          (frameIndexOf lowMemoryLimit) start with
      | some i =>
          obtain ⟨hge, hlt, hclear⟩ := search_some hsecond
          exact Or.inl ⟨i, rfl, hclear, by omega, fun _ ↦ hge⟩
      | none =>
          refine Or.inr ⟨rfl, fun i hlow hlt ↦ ?_⟩
          by_cases hside : start ≤ i
          · exact search_none hfirst le_rfl hside hlt
          · exact search_none hsecond le_rfl hlow (by omega)

theorem Counted.issue (h : Counted s) (i : ℕ) : Counted (s.issue i) :=
  let h' := h.markUsed i
  ⟨h'.words, h'.addressable, h'.beyond, h'.clear⟩

theorem Counted.restore (h : Counted s) (hi : i < s.frameCount) : Counted (s.restore i) :=
  let h' := h.markFree hi
  ⟨h'.words, h'.addressable, h'.beyond, h'.clear⟩

theorem ReferencesAgree.issue (h : ReferencesAgree s) (i : ℕ) : ReferencesAgree (s.issue i) := by
  intro table htable j hj
  rw [frameCount_issue] at hj
  rw [isUsed_issue]
  have hmap : (s.issue i).references = s.references.map fun table ↦ Function.update table i 1 := by
    change (s.markUsed i).references.map _ = _
    rw [(sameFrame_markUsed s i).references]
  rw [hmap] at htable
  obtain ⟨before, hbefore, rfl⟩ := Option.map_eq_some_iff.mp htable
  by_cases hij : i = j
  · subst hij
    simp
  · rw [Function.update_of_ne (Ne.symm hij), h before hbefore j hj]
    simp [hij]

theorem LowReserved.issue (h : LowReserved s) (hi : frameIndexOf lowMemoryLimit ≤ i) :
    LowReserved (s.issue i) where
  used j hj := by rw [isUsed_issue, h.used j hj, Bool.true_or]
  hint := by
    change frameIndexOf lowMemoryLimit ≤ i + 1
    omega

theorem LowReserved.restore (h : LowReserved s) (hi : frameIndexOf lowMemoryLimit ≤ i) :
    LowReserved (s.restore i) where
  used j hj := by
    have hne : i ≠ j := by omega
    simp [isUsed_restore, h.used j hj, hne]
  hint := by
    change frameIndexOf lowMemoryLimit ≤ min i (s.markFree i).searchHint
    rw [(sameFrame_markFree s i).searchHint]
    exact le_min hi h.hint

theorem free_cases (h : s.free frame = .ok t) :
    isPageAligned frame = true ∧ frameIndexOf frame < s.frameCount ∧
      s.isUsed (frameIndexOf frame) = true ∧
      ((s.references = none ∧ t = s.restore (frameIndexOf frame)) ∨
        ∃ table, s.references = some table ∧ table (frameIndexOf frame) ≠ 0 ∧
          ((table (frameIndexOf frame) ≠ 1 ∧
              t = s.setReference table (frameIndexOf frame) (table (frameIndexOf frame) - 1)) ∨
            (table (frameIndexOf frame) = 1 ∧
              t = (s.setReference table (frameIndexOf frame) 0).restore
                (frameIndexOf frame)))) := by
  unfold free at h
  split at h
  · cases h
  rename_i haligned
  dsimp only at h
  split at h
  · cases h
  rename_i hrange
  split at h
  · cases h
  rename_i hused
  refine ⟨by simpa using haligned, by omega, by simpa using hused, ?_⟩
  cases hreferences : s.references with
  | none =>
      rw [hreferences] at h
      cases h
      exact Or.inl ⟨rfl, rfl⟩
  | some table =>
      rw [hreferences] at h
      dsimp only at h
      split at h
      · cases h
      rename_i hzero
      refine Or.inr ⟨table, rfl, hzero, ?_⟩
      split at h
      · rename_i hone
        cases h
        exact Or.inl ⟨by omega, rfl⟩
      · rename_i hone
        have hlast : table (frameIndexOf frame) = 1 := by omega
        cases h
        rw [hlast]
        exact Or.inr ⟨rfl, rfl⟩

theorem Counted.free (h : Counted s) (hfree : s.free frame = .ok t) : Counted t := by
  obtain ⟨-, hrange, -, ⟨-, rfl⟩ | ⟨table, -, -, ⟨-, rfl⟩ | ⟨-, rfl⟩⟩⟩ := free_cases hfree
  · exact h.restore hrange
  · exact ⟨h.words, h.addressable, h.beyond, h.clear⟩
  · have hbare : Counted (s.setReference table (frameIndexOf frame) 0) :=
      ⟨h.words, h.addressable, h.beyond, h.clear⟩
    exact hbare.restore hrange

theorem ReferencesAgree.free (h : ReferencesAgree s) (hfree : s.free frame = .ok t) :
    ReferencesAgree t := by
  obtain ⟨-, hrange, hused, ⟨hnone, rfl⟩ | ⟨table, htable, hzero, ⟨hone, rfl⟩ | ⟨hone, rfl⟩⟩⟩ :=
    free_cases hfree
  · intro table htable
    have hsame : (s.restore (frameIndexOf frame)).references = s.references :=
      (sameFrame_markFree s _).references
    rw [hsame, hnone] at htable
    cases htable
  · intro after hafter j hj
    cases hafter
    by_cases hij : j = frameIndexOf frame
    · subst hij
      have hused' : s.isUsed (frameIndexOf frame) = true := hused
      change Function.update table _ _ _ ≠ 0 ↔ s.isUsed _ = true
      rw [Function.update_self]
      exact ⟨fun _ ↦ hused', fun _ ↦ by omega⟩
    · rw [Function.update_of_ne hij]
      exact h table htable j hj
  · intro after hafter j hj
    rw [frameCount_restore] at hj
    rw [isUsed_restore]
    have hsame : ((s.setReference table (frameIndexOf frame) 0).restore
        (frameIndexOf frame)).references =
        some (Function.update table (frameIndexOf frame) 0) :=
      (sameFrame_markFree _ _).references
    rw [hsame] at hafter
    cases hafter
    by_cases hij : j = frameIndexOf frame
    · subst hij
      simp
    · rw [Function.update_of_ne hij, h table htable j hj]
      simp [Ne.symm hij]

theorem LowReserved.free (h : LowReserved s) (hfree : s.free frame = .ok t)
    (hlow : frameIndexOf lowMemoryLimit ≤ frameIndexOf frame) : LowReserved t := by
  obtain ⟨-, -, -, ⟨-, rfl⟩ | ⟨table, -, -, ⟨-, rfl⟩ | ⟨-, rfl⟩⟩⟩ := free_cases hfree
  · exact h.restore hlow
  · exact ⟨h.used, h.hint⟩
  · have hbare : LowReserved (s.setReference table (frameIndexOf frame) 0) := ⟨h.used, h.hint⟩
    exact hbare.restore hlow

theorem referenceIncrement_cases (h : s.referenceIncrement frame = .ok t) :
    ∃ table, s.references = some table ∧ table (frameIndexOf frame) ≠ 0 ∧
      frameIndexOf frame < s.frameCount ∧ table (frameIndexOf frame) ≠ 65535 ∧
      t = s.setReference table (frameIndexOf frame) (table (frameIndexOf frame) + 1) := by
  unfold referenceIncrement at h
  split at h
  · cases h
  dsimp only at h
  split at h
  · cases h
  rename_i hrange
  cases hreferences : s.references with
  | none =>
      rw [hreferences] at h
      cases h
  | some table =>
      rw [hreferences] at h
      dsimp only at h
      split at h
      · cases h
      rename_i hzero
      split at h
      · cases h
      rename_i hfull
      cases h
      exact ⟨table, rfl, hzero, by omega, hfull, rfl⟩

theorem ReferencesAgree.referenceIncrement (h : ReferencesAgree s)
    (hincrement : s.referenceIncrement frame = .ok t) : ReferencesAgree t := by
  obtain ⟨table, htable, hzero, hrange, -, rfl⟩ := referenceIncrement_cases hincrement
  intro after hafter j hj
  cases hafter
  by_cases hij : j = frameIndexOf frame
  · subst hij
    rw [Function.update_self, isUsed_setReference, ← h table htable _ hrange]
    exact ⟨fun _ ↦ hzero, fun _ ↦ by omega⟩
  · rw [Function.update_of_ne hij]
    exact h table htable j hj

theorem referenceInitialise_cases {granted : Bool} (h : s.referenceInitialise granted = .ok t) :
    t = s ∨ (s.references = none ∧
      t = { s with references := some fun index ↦
          if index < s.frameCount ∧ s.isUsed index then 1 else 0 }) := by
  unfold referenceInitialise at h
  split at h
  · cases h
    exact Or.inl rfl
  · rename_i hnone
    split at h
    · cases h
    · cases h
      exact Or.inr ⟨hnone, rfl⟩

end FrameAllocator

end OxysOS.Mm
