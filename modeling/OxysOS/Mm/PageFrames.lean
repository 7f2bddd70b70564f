import OxysOS.Mm.AddressSpace

/-!
# Pages that a space has of its own

A frame that a leaf for the user names is the page's own where it is held once
and is no table.  A clear frame that is taken and filled becomes such a frame
and disturbs nothing.
-/

namespace OxysOS.Mm

open OxysOS.Library

variable {r : PageRegion} {s s' t : Machine} {page address f n : ℕ} {made : List ℕ → Prop}

def pageEntry (frame : ℕ) (writable : Bool) : BitVec 64 :=
  leafEntry (frame * pageSize)
    (if writable then pageEntryUser ||| pageEntryWritable else pageEntryUser)

theorem present_leafEntry (physical : ℕ) (flags : BitVec 64) :
    leafEntry physical flags &&& pageEntryPresent ≠ 0 := by
  unfold leafEntry
  rw [and_or_of_and BitVec.and_self]
  decide

theorem pageEntry_ne_zero (frame : ℕ) (writable : Bool) : pageEntry frame writable ≠ 0 := by
  intro heq
  have hpresent : pageEntry frame writable &&& pageEntryPresent ≠ 0 := present_leafEntry _ _
  rw [heq] at hpresent
  exact hpresent zero_and_present

theorem entryAddress_pageEntry (hf : f < 2 ^ 40) (writable : Bool) :
    entryAddress (pageEntry f writable) = f * pageSize := by
  unfold pageEntry leafEntry
  rw [address_and_mask hf, BitVec.or_assoc]
  apply address_of_flags hf
  cases writable <;> decide

theorem samePage_user (haddress : address < 2 ^ 47) (hpage : page < 2 ^ 47)
    (haligned : page % pageSize = 0) : SamePage address page ↔ alignDown address = page := by
  unfold SamePage alignDown
  unfold pageSize at haligned ⊢
  omega

theorem leaf_of_samePage {other : ℕ} (h : SamePage address other) :
    s.leaf r address = s.leaf r other := by
  obtain ⟨hpath, hindex⟩ := (samePage_iff _ _).mp h
  unfold Machine.leaf
  rw [hpath, hindex]

theorem leaf_alignDown (s : Machine) (r : PageRegion) (address : ℕ) :
    s.leaf r (alignDown address) = s.leaf r address := by
  apply leaf_of_samePage
  unfold SamePage alignDown pageSize
  omega

theorem alignDown_of_aligned (h : page % pageSize = 0) : alignDown page = page :=
  Nat.div_mul_cancel (Nat.dvd_of_mod_eq_zero h)

theorem missing_eq_zero (address : ℕ) (hleaf : s.leaf r address ≠ 0) :
    s.missing r address = 0 ∧ ∀ q ∈ tablePaths address, s.table r q ≠ none := by
  have hfull : s.table r (pagePath address) ≠ none := fun hnone ↦
    hleaf (Machine.leafAt_of_none hnone)
  have hshorter : ∀ p i, s.table r (p ++ [i]) ≠ none → s.table r p ≠ none := by
    intro p i hne hnone
    rw [Machine.table_concat, hnone] at hne
    exact hne rfl
  have htwo : s.table r ((pagePath address).take 2) ≠ none := hshorter _ _ hfull
  have hone : s.table r ((pagePath address).take 1) ≠ none := hshorter _ _ htwo
  have hall : ∀ q ∈ tablePaths address, s.table r q ≠ none := by
    intro q hq
    unfold tablePaths at hq
    simp only [List.mem_cons, List.not_mem_nil, or_false] at hq
    rcases hq with rfl | rfl | rfl
    · exact hone
    · exact htwo
    · exact hfull
  refine ⟨?_, hall⟩
  apply List.countP_eq_zero.mpr
  intro q hq
  simpa using hall q hq

structure Private (r : PageRegion) (s : Machine) (f : ℕ) : Prop where
  used : s.frames.isUsed f = true
  once : s.frames.holders f = 1
  outside : ∀ q, r.Within q → s.table r q ≠ some f

theorem Private.grows (h : Private r s f) (hgrows : Grows r made s s') : Private r s' f where
  used := hgrows.used f h.used
  once := by rw [hgrows.holders f h.used, h.once]
  outside q hq hn := h.outside q hq (hgrows.old hq hn h.used)

theorem Hierarchy.alterFrame (h : Hierarchy r s) (hf : Private r s f) (g : Bytes → Bytes) :
    Hierarchy r (s.alterFrame (f * pageSize) g) ∧ SameLeaves r s (s.alterFrame (f * pageSize) g) ∧
      ∀ n, Private r s n → Private r (s.alterFrame (f * pageSize) g) n := by
  have hindex := frameIndexOf_mul f
  generalize ht : s.alterFrame (f * pageSize) g = t
  have hframes : t.frames = s.frames := by rw [← ht, Machine.alterFrame, Machine.frames_writeFrame]
  obtain ⟨hhierarchy, htables, hleaves⟩ := h.elsewhere t
    (fun q n hq hn ↦ by
      rw [← ht]
      apply Machine.memory_writeFrame_of_ne
      rw [hindex]
      exact fun heq ↦ hf.outside q hq (heq ▸ hn))
    (fun q n hq hn ↦ by rw [hframes]; exact h.used q n hq hn)
    (by rw [hframes]; exact h.sound)
  refine ⟨hhierarchy, hleaves, fun n hn ↦ ?_⟩
  refine ⟨by rw [hframes, hn.used], by rw [hframes, hn.once], fun q hq ↦ ?_⟩
  rw [htables q hq]
  exact hn.outside q hq

theorem Private.memory (h : Private r s f) (hgrows : Grows r made s s') :
    s'.memory f = s.memory f := hgrows.data f h.used h.outside

theorem Private.lt (h : Private r s f) : f < s.frames.frameCount := by
  by_contra hle
  have honce := h.once
  rw [FrameAllocator.holders_of_le (Nat.le_of_not_lt hle)] at honce
  cases honce

structure Supplied (r : PageRegion) (f : ℕ) (s t : Machine) : Prop where
  hierarchy : Hierarchy r t
  tables : ∀ q, r.Within q → t.table r q = s.table r q
  leaves : SameLeaves r s t
  own : Private r t f
  others : ∀ n, Private r s n → Private r t n
  free : t.frames.freeFrames = s.frames.freeFrames - 1

theorem Hierarchy.supply (h : Hierarchy r s) (hclear : s.frames.isUsed f = false)
    (hlow : frameIndexOf lowMemoryLimit ≤ f) (hframes : t.frames = s.frames.issue f)
    (hmemory : ∀ n, n ≠ f → t.memory n = s.memory n) : Supplied r f s t := by
  have hcount := h.sound.lt_of_clear hclear
  have hnot : ∀ q, r.Within q → s.table r q ≠ some f := by
    intro q hq hn
    have hused := h.used q f hq hn
    rw [hclear] at hused
    cases hused
  have hused : ∀ n, s.frames.isUsed n = true → t.frames.isUsed n = true := by
    intro n hn
    rw [hframes, FrameAllocator.isUsed_issue, hn, Bool.true_or]
  obtain ⟨hhierarchy, htables, hleaves⟩ := h.elsewhere _
    (fun q n hq hn ↦ hmemory n fun heq ↦ hnot q hq (heq ▸ hn))
    (fun q n hq hn ↦ hused n (h.used q n hq hn)) (by rw [hframes]; exact h.sound.issue hlow)
  refine ⟨hhierarchy, htables, hleaves, ⟨?_, ?_, ?_⟩, ?_, ?_⟩
  · rw [hframes, FrameAllocator.isUsed_issue]
    simp
  · rw [hframes, FrameAllocator.holders_issue hcount, if_pos rfl]
  · intro q hq
    rw [htables q hq]
    exact hnot q hq
  · intro n hn
    have hne : n ≠ f := by
      rintro rfl
      have hold := hn.used
      rw [hclear] at hold
      cases hold
    refine ⟨hused n hn.used, ?_, fun q hq ↦ ?_⟩
    · rw [hframes, FrameAllocator.holders_issue hcount, if_neg hne, hn.once]
    · rw [htables q hq]
      exact hn.outside q hq
  · rw [hframes]
    exact FrameAllocator.freeFrames_issue hclear

structure Bystander (r : PageRegion) (s : Machine) (n : ℕ) : Prop where
  used : s.frames.isUsed n = true
  outside : ∀ q, r.Within q → s.table r q ≠ some n

structure Untouched (r : PageRegion) (n : ℕ) (s t : Machine) : Prop where
  bystander : Bystander r t n
  memory : t.memory n = s.memory n
  holders : t.frames.holders n = s.frames.holders n

theorem Private.bystander (h : Private r s f) : Bystander r s f := ⟨h.used, h.outside⟩

theorem Untouched.refl (h : Bystander r s n) : Untouched r n s s := ⟨h, rfl, rfl⟩

theorem Untouched.trans (h : Untouched r n s t) (h' : Untouched r n t s') : Untouched r n s s' :=
  ⟨h'.bystander, h'.memory.trans h.memory, h'.holders.trans h.holders⟩

theorem Bystander.grows (h : Bystander r s n) (hgrows : Grows r made s s') : Untouched r n s s' where
  bystander := ⟨hgrows.used n h.used, fun q hq hn ↦ h.outside q hq (hgrows.old hq hn h.used)⟩
  memory := hgrows.data n h.used h.outside
  holders := hgrows.holders n h.used

theorem Bystander.issue (h : Bystander r s n) (hclear : s.frames.isUsed f = false)
    (hcount : f < s.frames.frameCount) (hframes : t.frames = s.frames.issue f)
    (hmemory : ∀ n, n ≠ f → t.memory n = s.memory n)
    (htables : ∀ q, r.Within q → t.table r q = s.table r q) : Untouched r n s t := by
  have hne : n ≠ f := by
    rintro rfl
    have hused := h.used
    rw [hclear] at hused
    cases hused
  refine ⟨⟨?_, fun q hq ↦ ?_⟩, hmemory n hne, ?_⟩
  · rw [hframes, FrameAllocator.isUsed_issue, h.used, Bool.true_or]
  · rw [htables q hq]
    exact h.outside q hq
  · rw [hframes, FrameAllocator.holders_issue hcount, if_neg hne]

end OxysOS.Mm
