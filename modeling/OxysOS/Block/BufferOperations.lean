import OxysOS.Block.BufferInvariant

/-!
# The operations of the buffer cache preserve its invariant

Each operation of `buffer.c` is followed through its exits.
-/

namespace OxysOS.Block

open OxysOS.Library

theorem Placed.of_sameRecency {s s' : System} (h : Placed s) (hsame : SameButRecency s s')
    (hrecency : WholeRecency s') : Placed s' where
  identified i := by rw [hsame.table, h.identified]
  unique i j d b hi hj := by
    simp only [Holds, hsame.table] at hi hj
    exact h.unique i j d b hi hj
  recency := hrecency
  chained bucket := by
    obtain ⟨cells, hnodup, hchain, hmember⟩ := h.chained bucket
    have hnext : s'.hashNext = s.hashNext := funext hsame.hashNext
    refine ⟨cells, hnodup, by rw [hnext, hsame.buckets]; exact hchain, fun i ↦ ?_⟩
    simp only [hmember i, bucketAt, hsame.table]
  linked_eq i := by rw [hsame.linked, hsame.table, h.linked_eq]

theorem Sound.of_placed {s s' : System} {written : Written} (h : Sound s written)
    (hplaced : Placed s') (htable : s'.table = s.table) (hmedium : s'.medium = s.medium) :
    Sound s' written where
  toPlaced := hplaced
  held_valid i := by rw [htable]; exact h.held_valid i
  contents i d b hi := by
    rw [view, hmedium, htable]
    exact h.contents i d b (by simpa only [Holds, htable] using hi)
  dirty_written i d b hi := by
    rw [htable]
    exact h.dirty_written i d b (by simpa only [Holds, htable] using hi)
  medium_written d b c hc := by
    simpa only [Holds, htable, hmedium] using h.medium_written d b c hc

theorem Sound.touch {s : System} {written : Written} (h : Sound s written) (index : Index) :
    Sound (bufferTouch s index) written :=
  have hsame := (SameButRecency.refl s).touch index
  h.of_placed (h.toPlaced.of_sameRecency hsame h.recency.touch) hsame.table hsame.medium

theorem Sound.demote {s : System} {written : Written} (h : Sound s written) (index : Index) :
    Sound (bufferDemote s index) written :=
  have hsame := (SameButRecency.refl s).demote index
  h.of_placed (h.toPlaced.of_sameRecency hsame h.recency.demote) hsame.table hsame.medium

theorem Sound.putBuffer {s : System} {written : Written} (h : Sound s written) {index : Index}
    {buffer : Buffer} (hvalid : buffer.valid = (s.table index).valid)
    (hdevice : buffer.device = (s.table index).device)
    (hblock : buffer.valid = true → buffer.block = (s.table index).block)
    (hheld : buffer.references ≠ 0 → buffer.valid = true)
    (hcontents : buffer.valid = true →
      buffer.data = (s.table index).data ∧ buffer.dirty = (s.table index).dirty) :
    Sound (s.putBuffer index buffer) written := by
  have hid := SameIdentity.putBuffer s index buffer hvalid hdevice hblock
  have hfields : ∀ i d b, Holds s i d b →
      ((s.putBuffer index buffer).table i).data = (s.table i).data ∧
        ((s.putBuffer index buffer).table i).dirty = (s.table i).dirty := by
    intro i d b hi
    by_cases hindex : i = index
    · subst hindex
      rw [table_putBuffer_self]
      exact hcontents (hvalid.trans hi.1)
    · rw [table_putBuffer_of_ne s index i buffer hindex]
      exact ⟨rfl, rfl⟩
  refine ⟨h.toPlaced.of_sameIdentity hid rfl rfl rfl rfl, ?_, ?_, ?_, ?_⟩
  · intro i hi
    by_cases hindex : i = index
    · subst hindex
      rw [table_putBuffer_self] at hi ⊢
      exact hheld hi
    · rw [table_putBuffer_of_ne s index i buffer hindex] at hi ⊢
      exact h.held_valid i hi
  · intro i d b hi
    have hi := (hid.holds_iff i d b).mp hi
    rw [(hfields i d b hi).1]
    exact h.contents i d b hi
  · intro i d b hi hdirty
    have hi := (hid.holds_iff i d b).mp hi
    rw [(hfields i d b hi).2] at hdirty
    exact h.dirty_written i d b hi hdirty
  · intro d b c hc
    rcases h.medium_written d b c hc with hmedium | ⟨i, hi, hdirty⟩
    · exact Or.inl hmedium
    · exact Or.inr ⟨i, (hid.holds_iff i d b).mpr hi, (hfields i d b hi).2.trans hdirty⟩

theorem Sound.claim {s : System} {written : Written} (h : Sound s written)
    (transfer : Transfer) :
    Sound (bufferClaim s transfer).2 written ∧ SameHolders s (bufferClaim s transfer).2 ∧
      ∀ i, (bufferClaim s transfer).1 = some i →
        (s.table i).references = 0 ∧
          ∃ buffer : Buffer, buffer.references = 0 ∧
            (bufferClaim s transfer).2.table i = emptied buffer := by
  unfold bufferClaim
  rcases h.recency.follow_newer fun current ↦ (s.table current).references == 0 with
    ⟨index, hfollow, hstop⟩ | ⟨hfollow, -⟩
  · have hfree : (s.table index).references = 0 := by simpa using hstop
    rw [hfollow]
    by_cases hvalid : (s.table index).valid = true
    · simp only [hvalid, if_true]
      obtain ⟨hsound, hsame, hstill, hclean⟩ := h.writeBack index transfer
      cases hwrite : bufferWriteBack s index transfer with
      | mk succeeded s' =>
          simp only [hwrite] at hsound hsame hstill hclean
          cases succeeded with
          | false => exact ⟨hsound, hsame, fun i hi ↦ by cases hi⟩
          | true =>
              have hfree' : (s'.table index).references = 0 := by rw [hsame.references, hfree]
              refine ⟨hsound.discard (hstill.trans hvalid) (hclean rfl hvalid) hfree',
                hsame.trans (SameHolders.discard hfree'), fun i hi ↦ ?_⟩
              cases hi
              exact ⟨hfree, s'.table index, hfree', discard_table_self s' index⟩
    · have hvalid' : (s.table index).valid = false := by simpa using hvalid
      simp only [hvalid', Bool.false_eq_true, if_false]
      -- an entry that holds nothing has no identity to lose
      have hdevice : (s.table index).device = none := by
        simpa [hvalid'] using h.identified index
      have hempty : ∀ {p : Prop}, (emptied (s.table index)).valid = true → p := by
        intro p hp
        cases hp
      refine ⟨h.putBuffer hvalid'.symm hdevice.symm hempty (fun hheld ↦ absurd hfree hheld) hempty,
        SameHolders.putBuffer hvalid'.symm hdevice.symm hempty rfl, fun i hi ↦ ?_⟩
      cases hi
      exact ⟨hfree, s.table index, hfree, table_putBuffer_self s index _⟩
  · rw [hfollow]
    exact ⟨h, SameHolders.refl s, fun i hi ↦ by cases hi⟩

theorem Sound.enter {s : System} {written : Written} (h : Sound s written) {index : Index}
    {d : DeviceAddress} {b : UInt64} (hinvalid : (s.table index).valid = false)
    (hnone : ∀ i, ¬ Holds s i d b) :
    Sound (bufferLink (s.putBuffer index
      { device := some d, block := b, data := s.medium d b, references := 1,
        valid := true, dirty := false }) index) written := by
  let buffer : Buffer :=
    { device := some d, block := b, data := s.medium d b, references := 1,
      valid := true, dirty := false }
  let s₁ := s.putBuffer index buffer
  have hself : s₁.table index = buffer := table_putBuffer_self s index buffer
  have hother : ∀ i, i ≠ index → s₁.table i = s.table i :=
    fun i hi ↦ table_putBuffer_of_ne s index i buffer hi
  have hholds : ∀ i d' b', Holds s₁ i d' b' → i ≠ index ∧ Holds s i d' b' ∨
      i = index ∧ d' = d ∧ b' = b := by
    intro i d' b' hi
    by_cases hindex : i = index
    · subst hindex
      obtain ⟨-, hdevice, hblock⟩ := hi
      rw [hself] at hdevice hblock
      exact Or.inr ⟨rfl, (Option.some.inj hdevice).symm, hblock.symm⟩
    · rw [Holds, hother i hindex] at hi
      exact Or.inl ⟨hindex, hi⟩
  have hsame : SameButChains s₁ (bufferLink s₁ index) := SameButChains.link s₁ index
  -- the entry stood in no chain, being invalid
  have hchained : ChainedBy s₁ fun i bucket ↦ (s.table i).valid = true ∧ bucketAt s i = bucket := by
    intro bucket
    obtain ⟨cells, hcells⟩ := h.chained bucket
    exact ⟨cells, hcells⟩
  have hunlinked : ∀ bucket, ¬ ((s.table index).valid = true ∧ bucketAt s index = bucket) := by
    simp [hinvalid]
  have hlink := hchained.link hunlinked
  have hplaced : Placed (bufferLink s₁ index) := by
    refine ⟨fun i ↦ ?_, fun i j d' b' hi hj ↦ ?_, ?_, fun bucket ↦ ?_, fun i ↦ ?_⟩
    · rw [hsame.table]
      by_cases hi : i = index
      · subst hi; rw [hself]; rfl
      · rw [hother i hi, h.identified]
    · rcases hholds i d' b' hi with ⟨-, hi'⟩ | ⟨rfl, rfl, rfl⟩ <;>
        rcases hholds j d' b' hj with ⟨-, hj'⟩ | ⟨rfl, hd, hb⟩
      · exact h.unique i j d' b' hi' hj'
      · subst hd hb
        exact absurd hi' (hnone i)
      · exact absurd hj' (hnone j)
      · rfl
    · exact (h.recency.of_entries_eq rfl rfl rfl : WholeRecency s₁).of_same hsame
    · obtain ⟨cells, hnodup, hchain, hmember⟩ := hlink bucket
      refine ⟨cells, hnodup, hchain, fun i ↦ ?_⟩
      rw [hmember i]
      dsimp only [bucketAt]
      rw [hsame.table]
      by_cases hi : i = index
      · subst hi
        rw [hself]
        simp [hinvalid, buffer, eq_comm]
      · simp [hi, hother i hi]
    · rw [bufferLink_linked, hsame.table]
      change ((s.entries i).linked || decide (i = index)) = _
      rw [h.linked_eq]
      by_cases hi : i = index
      · subst hi; rw [hself]; simp [buffer]
      · simp [hi, hother i hi]
  have hmedium : (bufferLink s₁ index).medium = s.medium := rfl
  have htable : (bufferLink s₁ index).table = s₁.table := rfl
  change Sound (bufferLink s₁ index) written
  refine ⟨hplaced, fun i hi ↦ ?_, fun i d' b' hi ↦ ?_, fun i d' b' hi hdirty ↦ ?_,
    fun d' b' c hc ↦ ?_⟩
  · rw [htable] at hi ⊢
    by_cases hindex : i = index
    · subst hindex; rw [hself]
    · rw [hother i hindex] at hi ⊢
      exact h.held_valid i hi
  · rw [view, hmedium, htable]
    rcases hholds i d' b' hi with ⟨hindex, hi⟩ | ⟨rfl, rfl, rfl⟩
    · rw [hother i hindex]
      exact h.contents i d' b' hi
    · rw [hself]
      exact h.medium_eq_view hnone
  · rw [htable] at hdirty
    rcases hholds i d' b' hi with ⟨hindex, hi⟩ | ⟨rfl, rfl, rfl⟩
    · rw [hother i hindex] at hdirty
      exact h.dirty_written i d' b' hi hdirty
    · rw [hself] at hdirty
      cases hdirty
  · rw [hmedium]
    rcases h.medium_written d' b' c hc with hmedium | ⟨i, hi, hdirty⟩
    · exact Or.inl hmedium
    · have hindex : i ≠ index := by
        rintro rfl
        rw [hi.1] at hinvalid
        cases hinvalid
      refine Or.inr ⟨i, ?_, ?_⟩
      · rw [Holds, htable, hother i hindex]
        exact hi
      · rw [htable, hother i hindex]
        exact hdirty

def KeepsHeld (s s' : System) : Prop :=
  ∀ i d b, (s.table i).references ≠ 0 → Holds s i d b → Holds s' i d b

theorem Placed.find {s : System} (h : Placed s) (d : DeviceAddress) (b : UInt64) :
    (∃ i, bufferFind s (some d) b = some i ∧ Holds s i d b) ∨
      bufferFind s (some d) b = none ∧ ∀ i, ¬ Holds s i d b := by
  rcases h.chained.follow_bucket (bufferBucketOf (some d) b)
      (fun current ↦ (s.table current).valid && ((s.table current).device == some d) &&
        ((s.table current).block == b)) with ⟨i, hfollow, hstop, -⟩ | ⟨hfollow, hnone⟩
  · refine Or.inl ⟨i, hfollow, ?_⟩
    simp only [Bool.and_eq_true, beq_iff_eq] at hstop
    exact ⟨hstop.1.1, hstop.1.2, hstop.2⟩
  · refine Or.inr ⟨hfollow, fun i hi ↦ ?_⟩
    have hbucket : bucketAt s i = bufferBucketOf (some d) b := by
      rw [bucketAt, hi.2.1, hi.2.2]
    have := hnone i ⟨hi.1, hbucket⟩
    simp [hi.1, hi.2.1, hi.2.2] at this

theorem Sound.hold {s : System} {written : Written} (h : Sound s written) {index : Index}
    (hvalid : (s.table index).valid = true) :
    Sound (bufferHold s index) written ∧
      ∀ i d b, Holds (bufferHold s index) i d b ↔ Holds s i d b := by
  have htable : (bufferTouch s index).table = s.table :=
    ((SameButRecency.refl s).touch index).table
  constructor
  · refine (h.touch index).putBuffer rfl rfl (fun _ ↦ rfl) (fun _ ↦ ?_) fun _ ↦ ⟨rfl, rfl⟩
    change ((bufferTouch s index).table index).valid = true
    rw [htable]
    exact hvalid
  · intro i d b
    have hid := SameIdentity.putBuffer (bufferTouch s index) index
      { (bufferTouch s index).table index with
        references := ((bufferTouch s index).table index).references + 1 } rfl rfl fun _ ↦ rfl
    refine (hid.holds_iff i d b).trans ?_
    rw [Holds, Holds, htable]

theorem blockRead_cases (s : System) (d : DeviceAddress) (b : UInt64) (into : Sector)
    (read : Transfer) :
    (∃ left, blockRead s (some d) b into read = (false, left)) ∨
      blockRead s (some d) b into read = (true, s.medium d b) := by
  unfold blockRead
  cases hadmits : blockAdmits s (some d) b false with
  | none => exact Or.inl ⟨into, rfl⟩
  | some address =>
      obtain rfl := blockAdmits_eq hadmits
      cases read with
      | succeeded => exact Or.inr rfl
      | failed left => exact Or.inl ⟨left, rfl⟩

/-- What `BufferGet` promises of its answer. -/
structure Got (s : System) (written : Written) (device : Option DeviceAddress) (b : UInt64)
    (answer : Option Index × System) : Prop where
  sound : Sound answer.2 written
  keeps : KeepsHeld s answer.2
  holds : ∀ i, answer.1 = some i → ∃ d, device = some d ∧ Holds answer.2 i d b

theorem Sound.fill {s : System} {written : Written} (h : Sound s written) {index : Index}
    {buffer : Buffer} (hreferences : buffer.references = 0)
    (hempty : s.table index = emptied buffer) {d : DeviceAddress} {b : UInt64}
    (hnone : ∀ i, ¬ Holds s i d b) (read : Transfer) :
    Got s written (some d) b (bufferFill s index (some d) b read) := by
  have hinvalid : (s.table index).valid = false := by rw [hempty]; rfl
  unfold bufferFill
  rcases blockRead_cases s d b (s.table index).data read with ⟨left, hread⟩ | hread
  · rw [hread]
    have hfalse : ∀ {p : Prop}, (s.table index).valid = true → p := by
      intro p hp
      rw [hinvalid] at hp
      cases hp
    have hdevice : none = (s.table index).device := by rw [hempty]; rfl
    have hzero : (s.table index).references = 0 := by rw [hempty]; exact hreferences
    refine ⟨h.putBuffer rfl hdevice hfalse (fun hheld ↦ absurd hzero hheld) hfalse, ?_,
      fun i hi ↦ by cases hi⟩
    refine SameHolders.holds ?_
    exact SameHolders.putBuffer rfl hdevice hfalse rfl
  · rw [hread]
    have hentered := h.enter hinvalid hnone
    have htable := ((SameButRecency.refl _).touch index :
      SameButRecency (bufferLink (s.putBuffer index
        { device := some d, block := b, data := s.medium d b, references := 1,
          valid := true, dirty := false }) index) _).table
    refine ⟨hentered.touch index, fun i d' b' _ hi ↦ ?_, fun i hi ↦ ⟨d, rfl, ?_⟩⟩
    · have hindex : i ≠ index := by
        rintro rfl
        rw [hi.1] at hinvalid
        cases hinvalid
      rw [Holds, htable]
      change Holds (s.putBuffer index _) i d' b'
      rw [Holds, table_putBuffer_of_ne s index i _ hindex]
      exact hi
    · cases hi
      rw [Holds, htable]
      change Holds (s.putBuffer index _) index d b
      rw [Holds, table_putBuffer_self]
      exact ⟨rfl, rfl, rfl⟩

theorem Sound.get {s : System} {written : Written} (h : Sound s written)
    (device : Option DeviceAddress) (b : UInt64) (writeBack read : Transfer) :
    Got s written device b (bufferGet s device b writeBack read) := by
  have hrefuse : Got s written device b (none, s) :=
    ⟨h, fun _ _ _ _ hi ↦ hi, fun i hi ↦ by cases hi⟩
  unfold bufferGet
  cases device with
  | none => exact hrefuse
  | some d =>
      dsimp only
      by_cases hready : !s.ready
      · rw [if_pos hready]
        exact hrefuse
      by_cases hsize : (s.devices d).blockSize ≠ bufferBlockSize
      · rw [if_neg hready, if_pos hsize]
        exact hrefuse
      rw [if_neg hready, if_neg hsize]
      rcases h.find d b with ⟨index, hfind, hholds⟩ | ⟨hfind, hnone⟩
      · rw [hfind]
        obtain ⟨hsound, hiff⟩ := h.hold hholds.1
        refine ⟨hsound, fun i d b _ hi ↦ (hiff i d b).mpr hi, fun i hi ↦ ?_⟩
        cases hi
        exact ⟨d, rfl, (hiff _ _ _).mpr hholds⟩
      · rw [hfind]
        obtain ⟨hsound, hsame, hanswer⟩ := h.claim writeBack
        cases hclaim : bufferClaim s writeBack with
        | mk claimed s₁ =>
            rw [hclaim] at hsound hsame hanswer
            cases claimed with
            | none => exact ⟨hsound, hsame.holds, fun i hi ↦ by cases hi⟩
            | some index =>
                obtain ⟨-, buffer, hreferences, hempty⟩ := hanswer index rfl
                have hfilled := hsound.fill hreferences hempty
                  (fun i hi ↦ hnone i (hsame.holds_of i d b hi)) read
                refine ⟨hfilled.sound, fun i d' b' hheld hi ↦ ?_, hfilled.holds⟩
                have hheld' : (s₁.table i).references ≠ 0 := by
                  rw [hsame.references]
                  exact hheld
                exact hfilled.keeps i d' b' hheld' (hsame.holds i d' b' hheld hi)

theorem Sound.release {s : System} {written : Written} (h : Sound s written)
    (buffer : Option Index) :
    Sound (bufferRelease s buffer) written ∧ KeepsHeld s (bufferRelease s buffer) := by
  cases buffer with
  | none => exact ⟨h, fun _ _ _ _ hi ↦ hi⟩
  | some index =>
      unfold bufferRelease
      dsimp only
      split_ifs with hheld
      · exact ⟨h, fun _ _ _ _ hi ↦ hi⟩
      · have hvalid := h.held_valid index hheld
        refine ⟨h.putBuffer rfl rfl (fun _ ↦ rfl) (fun _ ↦ hvalid) fun _ ↦ ⟨rfl, rfl⟩, ?_⟩
        intro i d b _ hi
        have hid := SameIdentity.putBuffer s index
          { s.table index with references := (s.table index).references - 1 }
          rfl rfl fun _ ↦ rfl
        exact (hid.holds_iff i d b).mpr hi

def bufferWrite (s : System) (index : Index) (change : Sector → Sector) : System :=
  bufferMarkDirty (bufferModify s index change) (some index)

def recordWrite (s : System) (written : Written) (index : Index)
    (change : Sector → Sector) : Written :=
  let buffer := s.table index
  match buffer.valid, buffer.device with
  | true, some d =>
      Function.update written d
        (Function.update (written d) buffer.block (some (change buffer.data)))
  | _, _ => written

theorem recordWrite_of_holds {s : System} {written : Written} {index : Index}
    {change : Sector → Sector} {d : DeviceAddress} {b : UInt64} (h : Holds s index d b) :
    recordWrite s written index change d b = some (change (s.table index).data) := by
  simp [recordWrite, h.1, h.2.1, h.2.2]

theorem recordWrite_of_not_holds {s : System} {written : Written} {index : Index}
    {change : Sector → Sector} {d : DeviceAddress} {b : UInt64} (h : ¬ Holds s index d b) :
    recordWrite s written index change d b = written d b := by
  cases hvalid : (s.table index).valid with
  | false => simp [recordWrite, hvalid]
  | true =>
      cases hdevice : (s.table index).device with
      | none => simp [recordWrite, hvalid, hdevice]
      | some d' =>
          by_cases hd : d = d'
          · subst hd
            have hb : b ≠ (s.table index).block := fun hb ↦ h ⟨hvalid, hdevice, hb.symm⟩
            simp [recordWrite, hvalid, hdevice, hb]
          · simp [recordWrite, hvalid, hdevice, hd]

theorem Sound.write {s : System} {written : Written} (h : Sound s written) (index : Index)
    (change : Sector → Sector) :
    Sound (bufferWrite s index change) (recordWrite s written index change) ∧
      KeepsHeld s (bufferWrite s index change) := by
  by_cases hvalid : (s.table index).valid = true
  · obtain ⟨d, b, hindex⟩ := h.exists_holds hvalid
    have hstate : bufferWrite s index change = s.putBuffer index
        { s.table index with data := change (s.table index).data, dirty := true } := by
      simp [bufferWrite, bufferModify, bufferMarkDirty, System.putBuffer, hvalid]
    rw [hstate]
    have hid := SameIdentity.putBuffer s index
      { s.table index with data := change (s.table index).data, dirty := true }
      rfl rfl fun _ ↦ rfl
    refine ⟨⟨h.toPlaced.of_sameIdentity hid rfl rfl rfl rfl, fun i hi ↦ ?_, fun i d' b' hi ↦ ?_,
      fun i d' b' hi hdirty ↦ ?_, fun d' b' c hc ↦ ?_⟩,
      fun i d b _ hi ↦ (hid.holds_iff i d b).mpr hi⟩
    · by_cases hne : i = index
      · subst hne
        rw [table_putBuffer_self]
        exact hvalid
      · rw [table_putBuffer_of_ne s index i _ hne] at hi ⊢
        exact h.held_valid i hi
    · have hheld := (hid.holds_iff i d' b').mp hi
      by_cases hne : i = index
      · subst hne
        rw [table_putBuffer_self, view, recordWrite_of_holds hheld]
        rfl
      · have hother : ¬ Holds s index d' b' := fun hj ↦ hne (h.unique i index d' b' hheld hj)
        rw [table_putBuffer_of_ne s index i _ hne, view, recordWrite_of_not_holds hother]
        exact h.contents i d' b' hheld
    · have hheld := (hid.holds_iff i d' b').mp hi
      by_cases hne : i = index
      · subst hne
        rw [recordWrite_of_holds hheld]
        rfl
      · have hother : ¬ Holds s index d' b' := fun hj ↦ hne (h.unique i index d' b' hheld hj)
        rw [table_putBuffer_of_ne s index i _ hne] at hdirty
        rw [recordWrite_of_not_holds hother]
        exact h.dirty_written i d' b' hheld hdirty
    · by_cases hj : Holds s index d' b'
      · refine Or.inr ⟨index, (hid.holds_iff index d' b').mpr hj, ?_⟩
        rw [table_putBuffer_self]
      · rw [recordWrite_of_not_holds hj] at hc
        rcases h.medium_written d' b' c hc with hmedium | ⟨i, hi, hdirty⟩
        · exact Or.inl hmedium
        · have hne : i ≠ index := by
            rintro rfl
            exact hj hi
          refine Or.inr ⟨i, (hid.holds_iff i d' b').mpr hi, ?_⟩
          rw [table_putBuffer_of_ne s index i _ hne]
          exact hdirty
  · -- a buffer that holds nothing is not marked, and nothing is recorded of it
    have hstate : bufferWrite s index change = s.putBuffer index
        { s.table index with data := change (s.table index).data } := by
      simp [bufferWrite, bufferModify, bufferMarkDirty, System.putBuffer, hvalid]
    have hwritten : recordWrite s written index change = written := by
      funext d b
      exact recordWrite_of_not_holds fun hi ↦ hvalid hi.1
    rw [hstate, hwritten]
    refine ⟨h.putBuffer rfl rfl (fun _ ↦ rfl) (h.held_valid index) fun hi ↦ absurd hi hvalid, ?_⟩
    refine SameHolders.holds ?_
    exact SameHolders.putBuffer rfl rfl (fun _ ↦ rfl) rfl

theorem Sound.flush {s : System} {written : Written} (h : Sound s written)
    (buffer : Option Index) (transfer : Transfer) :
    Sound (bufferFlush s buffer transfer).2 written ∧
      SameHolders s (bufferFlush s buffer transfer).2 := by
  cases buffer with
  | none => exact ⟨h, SameHolders.refl s⟩
  | some index => exact ⟨(h.writeBack index transfer).1, (h.writeBack index transfer).2.1⟩

theorem Sound.syncLoop {s : System} {written : Written} (h : Sound s written)
    (transfers : Index → Transfer) (indices : List Index) :
    Sound (bufferSyncLoop transfers indices s).2 written ∧
      SameHolders s (bufferSyncLoop transfers indices s).2 := by
  induction indices generalizing s with
  | nil => exact ⟨h, SameHolders.refl s⟩
  | cons index rest ih =>
      obtain ⟨hsound, hsame, -⟩ := h.writeBack index (transfers index)
      obtain ⟨hsound', hsame'⟩ := ih hsound
      exact ⟨hsound', hsame.trans hsame'⟩

theorem Sound.sync {s : System} {written : Written} (h : Sound s written)
    (transfers : Index → Transfer) :
    Sound (bufferSync s transfers).2 written ∧ SameHolders s (bufferSync s transfers).2 := by
  unfold bufferSync
  exact h.syncLoop transfers _

def Unheld (s : System) (d : DeviceAddress) : Prop :=
  ∀ i b, Holds s i d b → (s.table i).references = 0

theorem Unheld.of_sameHolders {s s' : System} {d : DeviceAddress} (h : Unheld s d)
    (hsame : SameHolders s s') : Unheld s' d := by
  intro i b hi
  rw [hsame.references]
  exact h i b (hsame.holds_of i d b hi)

theorem Sound.invalidateEntry {s : System} {written : Written} (h : Sound s written)
    {d : DeviceAddress} (hunheld : Unheld s d) (index : Index) (transfer : Transfer) :
    Sound (bufferInvalidateEntry s d index transfer).2 written ∧
      SameHolders s (bufferInvalidateEntry s d index transfer).2 := by
  unfold bufferInvalidateEntry
  by_cases hdevice : (s.table index).device = some d
  · have hvalid : (s.table index).valid = true := by rw [h.identified, hdevice]; rfl
    have hfree := hunheld index _ ⟨hvalid, hdevice, rfl⟩
    rw [if_neg (not_not.mpr hdevice)]
    obtain ⟨hsound, hsame, hstill, hclean⟩ := h.writeBack index transfer
    cases hwrite : bufferWriteBack s index transfer with
    | mk succeeded s₁ =>
        rw [hwrite] at hsound hsame hstill hclean
        cases succeeded with
        | false => exact ⟨hsound, hsame⟩
        | true =>
            have hfree₁ : (s₁.table index).references = 0 := by rw [hsame.references, hfree]
            have hdiscard := hsound.discard (hstill.trans hvalid) (hclean rfl hvalid) hfree₁
            have hmoved : SameHolders (Block.discard s₁ index)
                (bufferDemote (Block.discard s₁ index) index) :=
              SameHolders.of_table_eq ((SameButRecency.refl _).demote index).table
            exact ⟨hdiscard.demote index,
              (hsame.trans (SameHolders.discard hfree₁)).trans hmoved⟩
  · rw [if_pos hdevice]
    exact ⟨h, SameHolders.refl s⟩

theorem Sound.invalidateLoop {s : System} {written : Written} (h : Sound s written)
    {d : DeviceAddress} (hunheld : Unheld s d) (transfers : Index → Transfer)
    (indices : List Index) :
    Sound (bufferInvalidateLoop d transfers indices s).2 written ∧
      SameHolders s (bufferInvalidateLoop d transfers indices s).2 := by
  induction indices generalizing s with
  | nil => exact ⟨h, SameHolders.refl s⟩
  | cons index rest ih =>
      obtain ⟨hsound, hsame⟩ := h.invalidateEntry hunheld index (transfers index)
      obtain ⟨hsound', hsame'⟩ := ih hsound (hunheld.of_sameHolders hsame)
      exact ⟨hsound', hsame.trans hsame'⟩

theorem Sound.invalidateDevice {s : System} {written : Written} (h : Sound s written)
    (device : Option DeviceAddress) (transfers : Index → Transfer) :
    Sound (bufferInvalidateDevice s device transfers).2 written ∧
      SameHolders s (bufferInvalidateDevice s device transfers).2 := by
  cases device with
  | none => exact ⟨h, SameHolders.refl s⟩
  | some d =>
      unfold bufferInvalidateDevice
      dsimp only
      split_ifs with hheld
      · exact ⟨h, SameHolders.refl s⟩
      · refine h.invalidateLoop (fun i b hi ↦ ?_) transfers _
        by_contra hreferences
        apply hheld
        simp only [deviceIsHeld, List.any_eq_true]
        exact ⟨i, List.mem_finRange i, by simp [hi.2.1, hreferences]⟩

/-- The entries that a pass of `BufferInitialise` has been over. -/
structure Initialised (s : System) (done : List Index) : Prop where
  buckets : ∀ bucket, s.buckets bucket = none
  recency : IsRecency s done
  empty : ∀ i ∈ done, (s.table i).valid = false ∧ (s.table i).device = none ∧
    (s.table i).references = 0 ∧ (s.entries i).linked = false

theorem Initialised.loop {s : System} {done : List Index} (h : Initialised s done)
    (indices : List Index) (hfresh : (indices.reverse ++ done).Nodup) :
    Initialised (bufferInitialiseLoop indices s) (indices.reverse ++ done) := by
  induction indices generalizing s done with
  | nil => exact h
  | cons index rest ih =>
      rw [List.reverse_cons, List.append_assoc] at hfresh ⊢
      refine ih ?_ hfresh
      have hindex : index ∉ done :=
        (List.nodup_cons.mp (List.nodup_append.mp hfresh).2.1).1
      let s₁ := s.putBuffer index
        { s.table index with device := none, block := 0, references := 0,
                             valid := false, dirty := false }
      let s₂ := s₁.putEntry index
        { hashNext := none, older := none, newer := none, linked := false, listed := false }
      have hsame : SameButRecency s₂ (bufferTouch s₂ index) := (SameButRecency.refl s₂).touch index
      have hother : ∀ i, i ≠ index → s₂.table i = s.table i ∧ s₂.entries i = s.entries i := by
        intro i hi
        simp [s₂, s₁, System.putBuffer, System.putEntry, hi]
      have hself : (s₂.table index).valid = false ∧ (s₂.table index).device = none ∧
          (s₂.table index).references = 0 ∧ (s₂.entries index).linked = false := by
        simp [s₂, s₁, System.putBuffer, System.putEntry]
      have hrecency : IsRecency s₂ done := by
        have hdone : ∀ i ∈ done, s₂.entries i = s.entries i := fun i hi ↦
          (hother i (ne_of_mem_of_not_mem hi hindex)).2
        refine ⟨h.recency.nodup, h.recency.deque.congr ?_ ?_, ?_⟩ <;> intro i hi
        · rw [System.older, System.older, hdone i hi]
        · rw [System.newer, System.newer, hdone i hi]
        · rw [System.listed, hdone i hi]
          exact h.recency.listed i hi
      have hlisted : s₂.listed index = false := by
        simp [s₂, System.listed, System.putEntry]
      refine ⟨fun bucket ↦ ?_, hrecency.touch_of_unlisted hlisted, fun i hi ↦ ?_⟩
      · change (bufferTouch s₂ index).buckets bucket = none
        rw [hsame.buckets]
        exact h.buckets bucket
      · change ((bufferTouch s₂ index).table i).valid = false ∧ _
        rw [hsame.table, hsame.linked]
        by_cases hne : i = index
        · subst hne
          exact hself
        · rw [(hother i hne).1, (hother i hne).2]
          exact h.empty i ((List.mem_cons.mp hi).resolve_left hne)

theorem Initialised.sound {s : System} {done : List Index} (h : Initialised s done)
    (hall : ∀ i, i ∈ done) (ready : Bool) :
    Sound { s with ready := ready } fun _ _ ↦ none := by
  have hnone : ∀ i d b, ¬ Holds s i d b := by
    intro i d b hi
    rw [Holds, (h.empty i (hall i)).1] at hi
    cases hi.1
  refine ⟨⟨fun i ↦ ?_, fun i j d b hi ↦ absurd hi (hnone i d b), ?_, fun bucket ↦ ?_, fun i ↦ ?_⟩,
    fun i hi ↦ absurd (h.empty i (hall i)).2.2.1 hi, fun i d b hi ↦ absurd hi (hnone i d b),
    fun i d b hi ↦ absurd hi (hnone i d b), fun d b c hc ↦ by cases hc⟩
  · change (s.table i).valid = (s.table i).device.isSome
    rw [(h.empty i (hall i)).1, (h.empty i (hall i)).2.1]
    rfl
  · exact ⟨done, ⟨h.recency.nodup, h.recency.deque, h.recency.listed⟩, hall⟩
  · refine ⟨[], List.nodup_nil, h.buckets bucket, fun i ↦ ?_⟩
    simp [(h.empty i (hall i)).1]
  · change (s.entries i).linked = (s.table i).valid
    rw [(h.empty i (hall i)).1, (h.empty i (hall i)).2.2.2]

theorem Initialised.whole (s : System) :
    Initialised (bufferInitialiseLoop (List.finRange bufferCapacity)
      { s with buckets := fun _ ↦ none, newest := none, oldest := none })
      (List.finRange bufferCapacity).reverse := by
  have hstart : Initialised { s with buckets := fun _ ↦ none, newest := none, oldest := none }
      [] := by
    refine ⟨fun _ ↦ rfl, ⟨List.nodup_nil, ⟨rfl, rfl, ?_, ?_⟩, ?_⟩, ?_⟩ <;> simp
  have hall := hstart.loop (List.finRange bufferCapacity) (by simp [List.nodup_finRange])
  rwa [List.append_nil] at hall

theorem Sound.initialise (s : System) : Sound (bufferInitialise s) fun _ _ ↦ none :=
  (Initialised.whole s).sound (by simp) true

end OxysOS.Block
