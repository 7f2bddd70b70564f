import OxysOS.Mm.PagingTree

/-!
# What the paging code reads of a hierarchy

Translation, permission and the withdrawal of a page are each a matter of the
page's leaf.
-/

namespace OxysOS.Mm

open OxysOS.Library Action

variable {r : PageRegion} {s s' : Machine} {address : ℕ} {permission : BitVec 64}

structure Descent (r : PageRegion) (s : Machine) (address : ℕ) (e4 e3 e2 e1 : BitVec 64) :
    Prop where
  level4 : e4 = s.entry r.root (pagingLevel4Index address)
  level3 : e3 = s.entry (entryAddress e4) (pagingLevel3Index address)
  level2 : e2 = s.entry (entryAddress e3) (pagingLevel2Index address)
  level1 : e1 = s.entry (entryAddress e2) (pagingLevel1Index address)

namespace Descent

variable {e4 e3 e2 e1 : BitVec 64}

theorem table3 (h : Descent r s address e4 e3 e2 e1) (h4 : e4 &&& pageEntryPresent ≠ 0) :
    s.table r ((pagePath address).take 1) = some (frameIndexOf (entryAddress e4)) := by
  change (pageLink (s.slot (frameIndexOf r.root) (pagingLevel4Index address))).bind some = _
  rw [Option.bind_fun_some, h.level4]
  exact pageLink_of_present (by rwa [h.level4] at h4)

theorem table2 (h : Descent r s address e4 e3 e2 e1) (h4 : e4 &&& pageEntryPresent ≠ 0)
    (h3 : e3 &&& pageEntryPresent ≠ 0) :
    s.table r ((pagePath address).take 2) = some (frameIndexOf (entryAddress e3)) := by
  have hstep : (pagePath address).take 2 =
      (pagePath address).take 1 ++ [pagingLevel3Index address] := rfl
  rw [hstep, Machine.table_concat, h.table3 h4]
  change pageLink (s.entry (entryAddress e4) (pagingLevel3Index address)) = _
  rw [← h.level3]
  exact pageLink_of_present h3

theorem table1 (h : Descent r s address e4 e3 e2 e1) (h4 : e4 &&& pageEntryPresent ≠ 0)
    (h3 : e3 &&& pageEntryPresent ≠ 0) (h2 : e2 &&& pageEntryPresent ≠ 0) :
    s.table r (pagePath address) = some (frameIndexOf (entryAddress e2)) := by
  have hstep : pagePath address =
      (pagePath address).take 2 ++ [pagingLevel2Index address] := rfl
  rw [hstep, Machine.table_concat, h.table2 h4 h3]
  change pageLink (s.entry (entryAddress e3) (pagingLevel2Index address)) = _
  rw [← h.level2]
  exact pageLink_of_present h2

theorem leaf_eq (h : Descent r s address e4 e3 e2 e1) (h4 : e4 &&& pageEntryPresent ≠ 0)
    (h3 : e3 &&& pageEntryPresent ≠ 0) (h2 : e2 &&& pageEntryPresent ≠ 0) :
    s.leaf r address = e1 := by
  unfold Machine.leaf
  rw [Machine.leafAt_of_some (h.table1 h4 h3 h2), h.level1]
  rfl

theorem leaf_eq_zero (h : Descent r s address e4 e3 e2 e1)
    (habsent : e4 &&& pageEntryPresent = 0 ∨ e3 &&& pageEntryPresent = 0 ∨
      e2 &&& pageEntryPresent = 0) : s.leaf r address = 0 := by
  apply Machine.leafAt_of_none
  by_cases h4 : e4 &&& pageEntryPresent = 0
  · change (pageLink (s.slot (frameIndexOf r.root) (pagingLevel4Index address))).bind _ = none
    have hlink : pageLink (s.slot (frameIndexOf r.root) (pagingLevel4Index address)) = none :=
      pageLink_eq_none.mpr (by rwa [h.level4] at h4)
    rw [hlink]
    rfl
  by_cases h3 : e3 &&& pageEntryPresent = 0
  · have hstep : pagePath address = (pagePath address).take 1 ++ [pagingLevel3Index address] ++
        [pagingLevel2Index address] := rfl
    rw [hstep, Machine.table_concat, Machine.table_concat, h.table3 h4]
    have hlink : pageLink (s.slot (frameIndexOf (entryAddress e4))
        (pagingLevel3Index address)) = none :=
      pageLink_eq_none.mpr (by rwa [h.level3] at h3)
    rw [Option.bind_some, hlink]
    rfl
  have h2 : e2 &&& pageEntryPresent = 0 :=
    (habsent.resolve_left h4).resolve_left h3
  have hstep : pagePath address = (pagePath address).take 2 ++ [pagingLevel2Index address] := rfl
  rw [hstep, Machine.table_concat, h.table2 h4 h3, Option.bind_some]
  exact pageLink_eq_none.mpr (by rwa [h.level2] at h2)

theorem upon (h : Descent r s address e4 e3 e2 e1) (hh : Hierarchy r s)
    (haddress : r.Within (pagePath address)) :
    (e4 &&& pageEntryPresent ≠ 0 → e4 &&& r.rights = r.rights) ∧
      (e4 &&& pageEntryPresent ≠ 0 → e3 &&& pageEntryPresent ≠ 0 →
        e3 &&& pageEntryLarge = 0 ∧ e3 &&& r.rights = r.rights) ∧
      (e4 &&& pageEntryPresent ≠ 0 → e3 &&& pageEntryPresent ≠ 0 →
        e2 &&& pageEntryPresent ≠ 0 → e2 &&& pageEntryLarge = 0 ∧ e2 &&& r.rights = r.rights) := by
  have hw1 : r.Within ([] ++ [pagingLevel4Index address]) := haddress.take 1
  have hw2 : r.Within ((pagePath address).take 1 ++ [pagingLevel3Index address]) := haddress.take 2
  have hw3 : r.Within ((pagePath address).take 2 ++ [pagingLevel2Index address]) := haddress
  refine ⟨fun h4 ↦ ?_, fun h4 h3 ↦ ?_, fun h4 h3 h2 ↦ ?_⟩
  · rw [h.level4] at h4 ⊢
    exact hh.rights [] _ _ hw1 rfl h4
  · have htable := h.table3 h4
    rw [h.level3] at h3 ⊢
    exact ⟨hh.plain _ _ _ hw2 htable h3, hh.rights _ _ _ hw2 htable h3⟩
  · have htable := h.table2 h4 h3
    rw [h.level2] at h2 ⊢
    exact ⟨hh.plain _ _ _ hw3 htable h2, hh.rights _ _ _ hw3 htable h2⟩

end Descent

theorem pagingTranslate_eq (h : Hierarchy r s) (haddress : r.Within (pagePath address))
    (hactive : s.activeRoot = r.root) (hroot : r.root ≠ 0) :
    pagingTranslate s address =
      if s.leaf r address &&& pageEntryPresent = 0 then 0
      else entryAddress (s.leaf r address) + address % pageSize := by
  unfold pagingTranslate
  rw [hactive]
  dsimp only
  generalize h4 : s.entry r.root (pagingLevel4Index address) = e4
  generalize h3 : s.entry (entryAddress e4) (pagingLevel3Index address) = e3
  generalize h2 : s.entry (entryAddress e3) (pagingLevel2Index address) = e2
  generalize h1 : s.entry (entryAddress e2) (pagingLevel1Index address) = e1
  have hdescent : Descent r s address e4 e3 e2 e1 := ⟨h4.symm, h3.symm, h2.symm, h1.symm⟩
  obtain ⟨-, hplain3, hplain2⟩ := hdescent.upon h haddress
  rw [if_neg hroot]
  by_cases hp4 : e4 &&& pageEntryPresent = 0
  · rw [if_pos hp4, hdescent.leaf_eq_zero (Or.inl hp4), if_pos zero_and_present]
  by_cases hp3 : e3 &&& pageEntryPresent = 0
  · rw [if_neg hp4, if_pos hp3, hdescent.leaf_eq_zero (Or.inr (Or.inl hp3)),
      if_pos zero_and_present]
  rw [if_neg hp4, if_neg hp3, if_neg (by simp [(hplain3 hp4 hp3).1])]
  by_cases hp2 : e2 &&& pageEntryPresent = 0
  · rw [if_pos hp2, hdescent.leaf_eq_zero (Or.inr (Or.inr hp2)), if_pos zero_and_present]
  rw [if_neg hp2, if_neg (by simp [(hplain2 hp4 hp3 hp2).1]), hdescent.leaf_eq hp4 hp3 hp2]

theorem pagingAddressPermits_eq (h : Hierarchy r s) (haddress : r.Within (pagePath address))
    (hrights : r.rights &&& permission = permission) :
    pagingAddressPermits s r.root address permission =
      decide (s.leaf r address &&& pageEntryPresent ≠ 0 ∧ s.leaf r address &&& permission ≠ 0) := by
  unfold pagingAddressPermits
  dsimp only
  generalize h4 : s.entry r.root (pagingLevel4Index address) = e4
  generalize h3 : s.entry (entryAddress e4) (pagingLevel3Index address) = e3
  generalize h2 : s.entry (entryAddress e3) (pagingLevel2Index address) = e2
  generalize h1 : s.entry (entryAddress e2) (pagingLevel1Index address) = e1
  have hdescent : Descent r s address e4 e3 e2 e1 := ⟨h4.symm, h3.symm, h2.symm, h1.symm⟩
  obtain ⟨hrights4, hplain3, hplain2⟩ := hdescent.upon h haddress
  have hpermits : ∀ e : BitVec 64, e &&& r.rights = r.rights → permission &&& e = permission := by
    intro e he
    rw [BitVec.and_comm, ← hrights, ← BitVec.and_assoc, he]
  have habsent : s.leaf r address = 0 → ¬(s.leaf r address &&& pageEntryPresent ≠ 0 ∧
      s.leaf r address &&& permission ≠ 0) := by
    intro hzero hleaf
    rw [hzero] at hleaf
    exact hleaf.1 zero_and_present
  by_cases hp4 : e4 &&& pageEntryPresent = 0
  · rw [if_pos hp4, decide_eq_false (habsent (hdescent.leaf_eq_zero (Or.inl hp4)))]
  by_cases hp3 : e3 &&& pageEntryPresent = 0
  · rw [if_neg hp4, if_pos hp3, decide_eq_false (habsent (hdescent.leaf_eq_zero (Or.inr (Or.inl hp3))))]
  by_cases hp2 : e2 &&& pageEntryPresent = 0
  · rw [if_neg hp4, if_neg hp3, if_pos hp2,
      decide_eq_false (habsent (hdescent.leaf_eq_zero (Or.inr (Or.inr hp2))))]
  rw [if_neg hp4, if_neg hp3, if_neg hp2, if_neg (by simp [(hplain2 hp4 hp3 hp2).1]),
    hdescent.leaf_eq hp4 hp3 hp2]
  by_cases hp1 : e1 &&& pageEntryPresent = 0
  · rw [if_pos hp1, decide_eq_false (fun h ↦ h.1 hp1)]
  · rw [if_neg hp1, hpermits e4 (hrights4 hp4), hpermits e3 (hplain3 hp4 hp3).2,
      hpermits e2 (hplain2 hp4 hp3 hp2).2, BitVec.and_comm permission e1, BitVec.and_assoc,
      BitVec.and_self]
    simp only [ne_eq, hp1, not_false_eq_true, true_and]

structure Clears (r : PageRegion) (address : ℕ) (s s' : Machine) : Prop where
  grows : Grows r (fun _ ↦ False) s s'
  tables : ∀ q, r.Within q → s'.table r q = s.table r q
  leaf : ∀ other, r.Within (pagePath other) →
    s'.leaf r other = if SamePage other address then 0 else s.leaf r other
  frames : s'.frames = s.frames

theorem Clears.of_write {table : ℕ} (h : Hierarchy r s) (haddress : r.Within (pagePath address))
    (htable : s.table r (pagePath address) = some (frameIndexOf table)) :
    Clears r address s (s.writeEntry table (pagingLevel1Index address) 0) := by
  obtain ⟨hgrows, htables, hleaf⟩ := h.writeLeaf (i := pagingLevel1Index address) 0
    haddress rfl htable
  refine ⟨hgrows, htables, fun other hother ↦ ?_, Machine.frames_writeEntry⟩
  unfold Machine.leaf
  rw [hleaf _ _ hother rfl]
  simp only [samePage_iff]

theorem pagingUnmapPageIn_eq (h : Hierarchy r s) (haddress : r.Within (pagePath address)) :
    ∃ s', outcome (pagingUnmapPageIn r.root address) s =
        (.ok (if s.leaf r address &&& pageEntryPresent = 0 then frameAllocationFailed
          else entryAddress (s.leaf r address)), s') ∧
      ((s.leaf r address &&& pageEntryPresent = 0 ∧ s' = s) ∨
        (s.leaf r address &&& pageEntryPresent ≠ 0 ∧ Clears r address s s')) := by
  unfold pagingUnmapPageIn
  rw [outcome_bind, outcome_get]
  dsimp only
  generalize h4 : s.entry r.root (pagingLevel4Index address) = e4
  generalize h3 : s.entry (entryAddress e4) (pagingLevel3Index address) = e3
  generalize h2 : s.entry (entryAddress e3) (pagingLevel2Index address) = e2
  generalize h1 : s.entry (entryAddress e2) (pagingLevel1Index address) = e1
  have hdescent : Descent r s address e4 e3 e2 e1 := ⟨h4.symm, h3.symm, h2.symm, h1.symm⟩
  obtain ⟨-, hplain3, hplain2⟩ := hdescent.upon h haddress
  have habsent : ∀ (hzero : s.leaf r address = 0), s.leaf r address &&& pageEntryPresent = 0 := by
    intro hzero
    rw [hzero]
    exact zero_and_present
  by_cases hp4 : e4 &&& pageEntryPresent = 0
  · have hleaf := habsent (hdescent.leaf_eq_zero (Or.inl hp4))
    rw [if_pos hp4, if_pos hleaf]
    exact ⟨s, rfl, Or.inl ⟨hleaf, rfl⟩⟩
  by_cases hp3 : e3 &&& pageEntryPresent = 0
  · have hleaf := habsent (hdescent.leaf_eq_zero (Or.inr (Or.inl hp3)))
    rw [if_neg hp4, if_pos hp3, if_pos hleaf]
    exact ⟨s, rfl, Or.inl ⟨hleaf, rfl⟩⟩
  rw [if_neg hp4, if_neg hp3, if_neg (by simp [(hplain3 hp4 hp3).1])]
  by_cases hp2 : e2 &&& pageEntryPresent = 0
  · have hleaf := habsent (hdescent.leaf_eq_zero (Or.inr (Or.inr hp2)))
    rw [if_pos hp2, if_pos hleaf]
    exact ⟨s, rfl, Or.inl ⟨hleaf, rfl⟩⟩
  rw [if_neg hp2, if_neg (by simp [(hplain2 hp4 hp3 hp2).1]), hdescent.leaf_eq hp4 hp3 hp2]
  by_cases hp1 : e1 &&& pageEntryPresent = 0
  · rw [if_pos hp1, if_pos hp1]
    exact ⟨s, rfl, Or.inl ⟨hp1, rfl⟩⟩
  · rw [if_neg hp1, if_neg hp1]
    exact ⟨_, rfl, Or.inr ⟨hp1, Clears.of_write h haddress (hdescent.table1 hp4 hp3 hp2)⟩⟩

end OxysOS.Mm
