import OxysOS.Block.BufferLists

/-!
# The invariant of the buffer cache

`Sound` relates a state of the cache to the contents last written through it.
The steps of which the operations are made preserve it: a write-back, the
discarding of a clean entry and the entering of a block just read.
-/

namespace OxysOS.Block

open OxysOS.Library

abbrev Written := DeviceAddress → UInt64 → Option Sector

def Holds (s : System) (i : Index) (d : DeviceAddress) (b : UInt64) : Prop :=
  (s.table i).valid = true ∧ (s.table i).device = some d ∧ (s.table i).block = b

def view (s : System) (written : Written) (d : DeviceAddress) (b : UInt64) : Sector :=
  (written d b).getD (s.medium d b)

structure Placed (s : System) : Prop where
  identified : ∀ i, (s.table i).valid = (s.table i).device.isSome
  unique : ∀ i j d b, Holds s i d b → Holds s j d b → i = j
  recency : WholeRecency s
  chained : ChainedBy s fun i bucket ↦ (s.table i).valid = true ∧ bucketAt s i = bucket
  linked_eq : ∀ i, (s.entries i).linked = (s.table i).valid

structure Sound (s : System) (written : Written) : Prop extends Placed s where
  held_valid : ∀ i, (s.table i).references ≠ 0 → (s.table i).valid = true
  contents : ∀ i d b, Holds s i d b → (s.table i).data = view s written d b
  dirty_written : ∀ i d b, Holds s i d b → (s.table i).dirty = true → (written d b).isSome
  medium_written : ∀ d b c, written d b = some c →
    s.medium d b = c ∨ ∃ i, Holds s i d b ∧ (s.table i).dirty = true

structure SameHolders (s s' : System) : Prop where
  references : ∀ i, (s'.table i).references = (s.table i).references
  holds : ∀ i d b, (s.table i).references ≠ 0 → Holds s i d b → Holds s' i d b
  holds_of : ∀ i d b, Holds s' i d b → Holds s i d b

namespace SameHolders

theorem refl (s : System) : SameHolders s s :=
  ⟨fun _ ↦ rfl, fun _ _ _ _ h ↦ h, fun _ _ _ h ↦ h⟩

theorem trans {s s' s'' : System} (h : SameHolders s s') (h' : SameHolders s' s'') :
    SameHolders s s'' where
  references i := (h'.references i).trans (h.references i)
  holds i d b hi hheld := h'.holds i d b (by rw [h.references]; exact hi) (h.holds i d b hi hheld)
  holds_of i d b hi := h.holds_of i d b (h'.holds_of i d b hi)

theorem of_table_eq {s s' : System} (h : s'.table = s.table) : SameHolders s s' where
  references i := by rw [h]
  holds i d b _ hheld := by simpa [Holds, h] using hheld
  holds_of i d b hheld := by simpa [Holds, h] using hheld

end SameHolders

section Update

variable (s : System) (index i : Index) (buffer : Buffer)

theorem table_putBuffer_self : (s.putBuffer index buffer).table index = buffer :=
  Function.update_self _ _ _

theorem table_putBuffer_of_ne (h : i ≠ index) :
    (s.putBuffer index buffer).table i = s.table i := Function.update_of_ne h _ _

end Update

def SameIdentity (s s' : System) : Prop :=
  ∀ i, (s'.table i).valid = (s.table i).valid ∧ (s'.table i).device = (s.table i).device ∧
    ((s.table i).valid = true → (s'.table i).block = (s.table i).block)

theorem SameIdentity.holds_iff {s s' : System} (h : SameIdentity s s') (i : Index)
    (d : DeviceAddress) (b : UInt64) : Holds s' i d b ↔ Holds s i d b := by
  obtain ⟨hvalid, hdevice, hblock⟩ := h i
  rw [Holds, Holds, hvalid, hdevice]
  refine and_congr_right fun hi ↦ ?_
  rw [hblock hi]

theorem SameIdentity.putBuffer (s : System) (index : Index) (buffer : Buffer)
    (hvalid : buffer.valid = (s.table index).valid)
    (hdevice : buffer.device = (s.table index).device)
    (hblock : buffer.valid = true → buffer.block = (s.table index).block) :
    SameIdentity s (s.putBuffer index buffer) := by
  intro i
  by_cases hi : i = index
  · subst hi
    rw [table_putBuffer_self]
    exact ⟨hvalid, hdevice, fun hi ↦ hblock (hvalid.trans hi)⟩
  · rw [table_putBuffer_of_ne s index i buffer hi]
    exact ⟨rfl, rfl, fun _ ↦ rfl⟩

theorem SameHolders.putBuffer {s : System} {index : Index} {buffer : Buffer}
    (hvalid : buffer.valid = (s.table index).valid)
    (hdevice : buffer.device = (s.table index).device)
    (hblock : buffer.valid = true → buffer.block = (s.table index).block)
    (hreferences : buffer.references = (s.table index).references) :
    SameHolders s (s.putBuffer index buffer) := by
  have hid := SameIdentity.putBuffer s index buffer hvalid hdevice hblock
  refine ⟨fun i ↦ ?_, fun i d b _ hi ↦ (hid.holds_iff i d b).mpr hi,
    fun i d b hi ↦ (hid.holds_iff i d b).mp hi⟩
  by_cases hi : i = index
  · subst hi
    rw [table_putBuffer_self, hreferences]
  · rw [table_putBuffer_of_ne s index i buffer hi]

theorem Placed.of_sameIdentity {s s' : System} (h : Placed s) (hid : SameIdentity s s')
    (hentries : s'.entries = s.entries) (hbuckets : s'.buckets = s.buckets)
    (hnewest : s'.newest = s.newest) (holdest : s'.oldest = s.oldest) : Placed s' where
  identified i := by rw [(hid i).1, (hid i).2.1, h.identified]
  unique i j d b hi hj := h.unique i j d b ((hid.holds_iff i d b).mp hi) ((hid.holds_iff j d b).mp hj)
  recency := h.recency.of_entries_eq hentries hnewest holdest
  chained bucket := by
    obtain ⟨cells, hnodup, hchain, hmember⟩ := h.chained bucket
    have hnext : s'.hashNext = s.hashNext := by funext i; simp only [System.hashNext, hentries]
    refine ⟨cells, hnodup, by rw [hnext, hbuckets]; exact hchain, fun i ↦ ?_⟩
    rw [hmember i]
    dsimp only
    rw [(hid i).1]
    refine and_congr_right fun hi ↦ ?_
    rw [bucketAt, bucketAt, (hid i).2.1, (hid i).2.2 hi]
  linked_eq i := by rw [hentries, (hid i).1, h.linked_eq]

theorem Holds.device_eq {s : System} {i : Index} {d d' : DeviceAddress} {b b' : UInt64}
    (h : Holds s i d b) (h' : Holds s i d' b') : d = d' ∧ b = b' :=
  ⟨Option.some.inj (h.2.1.symm.trans h'.2.1), h.2.2.symm.trans h'.2.2⟩

theorem Sound.exists_holds {s : System} {written : Written} (h : Sound s written) {i : Index}
    (hi : (s.table i).valid = true) : ∃ d b, Holds s i d b := by
  obtain ⟨d, hd⟩ := Option.isSome_iff_exists.mp ((h.identified i).symm.trans hi)
  exact ⟨d, _, hi, hd, rfl⟩

theorem Sound.medium_eq_view {s : System} {written : Written} (h : Sound s written)
    {d : DeviceAddress} {b : UInt64} (hnone : ∀ i, ¬ Holds s i d b) :
    s.medium d b = view s written d b := by
  unfold view
  cases hwritten : written d b with
  | none => rfl
  | some c =>
      rcases h.medium_written d b c hwritten with hmedium | ⟨i, hi, _⟩
      · exact hmedium
      · exact absurd hi (hnone i)

theorem medium_putMedium_self (s : System) (d : DeviceAddress) (b : UInt64) (c : Sector) :
    (s.putMedium d b c).medium d b = c := by
  simp [System.putMedium]

theorem medium_putMedium_of_ne (s : System) {d d' : DeviceAddress} {b b' : UInt64} (c : Sector)
    (h : ¬ (d' = d ∧ b' = b)) : (s.putMedium d b c).medium d' b' = s.medium d' b' := by
  by_cases hd : d' = d
  · subst hd
    have hb : b' ≠ b := fun hb ↦ h ⟨rfl, hb⟩
    simp [System.putMedium, hb]
  · simp [System.putMedium, hd]

theorem blockAdmits_eq {s : System} {d address : DeviceAddress} {b : UInt64} {writing : Bool}
    (h : blockAdmits s (some d) b writing = some address) : address = d := by
  unfold blockAdmits at h
  dsimp only at h
  split_ifs at h
  exact (Option.some.inj h).symm

theorem blockWrite_cases (s : System) {device : Option DeviceAddress} {d : DeviceAddress}
    (hdevice : device = some d) (b : UInt64) (data : Sector) (transfer : Transfer) :
    blockWrite s device b data transfer = (false, s) ∨
      (∃ left, blockWrite s device b data transfer = (false, s.putMedium d b left)) ∨
        blockWrite s device b data transfer = (true, s.putMedium d b data) := by
  subst hdevice
  unfold blockWrite
  cases hadmits : blockAdmits s (some d) b true with
  | none => exact Or.inl rfl
  | some address =>
      obtain rfl := blockAdmits_eq hadmits
      cases transfer with
      | succeeded => exact Or.inr (Or.inr rfl)
      | failed left => exact Or.inr (Or.inl ⟨left, rfl⟩)

theorem bufferWriteBack_cases {s : System} {written : Written} (h : Sound s written)
    (index : Index) (transfer : Transfer) :
    (bufferWriteBack s index transfer = (true, s) ∧
        ¬ ((s.table index).valid = true ∧ (s.table index).dirty = true)) ∨
      bufferWriteBack s index transfer = (false, s) ∨
      ∃ d b, Holds s index d b ∧ (s.table index).dirty = true ∧
        ((∃ left, bufferWriteBack s index transfer = (false, s.putMedium d b left)) ∨
          bufferWriteBack s index transfer =
            (true, (s.putMedium d b (s.table index).data).putBuffer index
              { s.table index with dirty := false })) := by
  by_cases hvalid : (s.table index).valid = true
  · by_cases hdirty : (s.table index).dirty = true
    · obtain ⟨d, b, hholds⟩ := h.exists_holds hvalid
      have hguard : ¬ ((!(s.table index).valid || !(s.table index).dirty) = true) := by
        simp [hvalid, hdirty]
      unfold bufferWriteBack
      dsimp only
      rw [if_neg hguard]
      obtain rfl := hholds.2.2
      rcases blockWrite_cases s hholds.2.1 (s.table index).block (s.table index).data transfer with
        hwrite | ⟨left, hwrite⟩ | hwrite
      · rw [hwrite]
        exact Or.inr (Or.inl rfl)
      · rw [hwrite]
        exact Or.inr (Or.inr ⟨d, _, hholds, hdirty, Or.inl ⟨left, rfl⟩⟩)
      · rw [hwrite]
        exact Or.inr (Or.inr ⟨d, _, hholds, hdirty, Or.inr rfl⟩)
    · exact Or.inl ⟨by simp [bufferWriteBack, hdirty], fun hboth ↦ hdirty hboth.2⟩
  · exact Or.inl ⟨by simp [bufferWriteBack, hvalid], fun hboth ↦ hvalid hboth.1⟩

theorem Sound.putMedium_of_dirty {s : System} {written : Written} (h : Sound s written)
    {i : Index} {d : DeviceAddress} {b : UInt64} (hi : Holds s i d b)
    (hdirty : (s.table i).dirty = true) (left : Sector) :
    Sound (s.putMedium d b left) written where
  toPlaced := h.toPlaced.of_sameIdentity (fun _ ↦ ⟨rfl, rfl, fun _ ↦ rfl⟩) rfl rfl rfl rfl
  held_valid := h.held_valid
  contents j d' b' hj := by
    have hdata := h.contents j d' b' hj
    change (s.table j).data = _
    rw [hdata]
    unfold view
    by_cases hsame : d' = d ∧ b' = b
    · obtain ⟨rfl, rfl⟩ := hsame
      obtain ⟨c, hc⟩ := Option.isSome_iff_exists.mp (h.dirty_written i d' b' hi hdirty)
      simp [hc]
    · rw [medium_putMedium_of_ne s left hsame]
  dirty_written := h.dirty_written
  medium_written d' b' c hc := by
    by_cases hsame : d' = d ∧ b' = b
    · obtain ⟨rfl, rfl⟩ := hsame
      exact Or.inr ⟨i, hi, hdirty⟩
    · rw [medium_putMedium_of_ne s left hsame]
      exact h.medium_written d' b' c hc

theorem Sound.markClean {s : System} {written : Written} (h : Sound s written)
    {i : Index} {d : DeviceAddress} {b : UInt64} (hi : Holds s i d b)
    (hmedium : s.medium d b = (s.table i).data) :
    Sound (s.putBuffer i { s.table i with dirty := false }) written := by
  have hid := SameIdentity.putBuffer s i { s.table i with dirty := false } rfl rfl fun _ ↦ rfl
  refine ⟨h.toPlaced.of_sameIdentity hid rfl rfl rfl rfl, ?_, ?_, ?_, ?_⟩
  · intro j hj
    by_cases hji : j = i
    · subst hji
      rw [table_putBuffer_self] at hj ⊢
      exact h.held_valid j hj
    · rw [table_putBuffer_of_ne s i j _ hji] at hj ⊢
      exact h.held_valid j hj
  · intro j d' b' hj
    have hdata := h.contents j d' b' ((hid.holds_iff j d' b').mp hj)
    by_cases hji : j = i
    · subst hji
      rw [table_putBuffer_self]
      exact hdata
    · rw [table_putBuffer_of_ne s i j _ hji]
      exact hdata
  · intro j d' b' hj hdirty
    by_cases hji : j = i
    · subst hji
      simp [table_putBuffer_self] at hdirty
    · rw [table_putBuffer_of_ne s i j _ hji] at hdirty
      exact h.dirty_written j d' b' ((hid.holds_iff j d' b').mp hj) hdirty
  · intro d' b' c hc
    rcases h.medium_written d' b' c hc with hclean | ⟨j, hj, hdirty⟩
    · exact Or.inl hclean
    · by_cases hji : j = i
      · subst hji
        obtain ⟨rfl, rfl⟩ := hj.device_eq hi
        left
        have hview := h.contents j d' b' hj
        change s.medium d' b' = c
        rw [hmedium, hview, view, hc]
        rfl
      · refine Or.inr ⟨j, (hid.holds_iff j d' b').mpr hj, ?_⟩
        rw [table_putBuffer_of_ne s i j _ hji]
        exact hdirty

theorem Sound.writeBack {s : System} {written : Written} (h : Sound s written)
    (index : Index) (transfer : Transfer) :
    Sound (bufferWriteBack s index transfer).2 written ∧
      SameHolders s (bufferWriteBack s index transfer).2 ∧
      ((bufferWriteBack s index transfer).2.table index).valid = (s.table index).valid ∧
      ((bufferWriteBack s index transfer).1 = true → (s.table index).valid = true →
        ((bufferWriteBack s index transfer).2.table index).dirty = false) := by
  rcases bufferWriteBack_cases h index transfer with
    ⟨heq, hclean⟩ | heq | ⟨d, b, hholds, hdirty, ⟨left, heq⟩ | heq⟩
  · rw [heq]
    refine ⟨h, SameHolders.refl s, rfl, fun _ hvalid ↦ ?_⟩
    simpa [hvalid] using hclean
  · rw [heq]
    exact ⟨h, SameHolders.refl s, rfl, fun hfalse ↦ by cases hfalse⟩
  · rw [heq]
    exact ⟨h.putMedium_of_dirty hholds hdirty left, SameHolders.of_table_eq rfl, rfl,
      fun hfalse ↦ by cases hfalse⟩
  · rw [heq]
    have hmedium := h.putMedium_of_dirty hholds hdirty (s.table index).data
    have hclean := hmedium.markClean hholds (medium_putMedium_self s d b _)
    have hmoved : SameHolders s (s.putMedium d b (s.table index).data) :=
      SameHolders.of_table_eq rfl
    refine ⟨hclean, hmoved.trans (SameHolders.putBuffer rfl rfl (fun _ ↦ rfl) rfl), ?_,
      fun _ _ ↦ ?_⟩ <;>
      simp only [table_putBuffer_self]

def discard (s : System) (index : Index) : System :=
  let s' := bufferUnlink s index
  s'.putBuffer index (emptied (s'.table index))

theorem discard_table_of_ne (s : System) {index i : Index} (hi : i ≠ index) :
    (discard s index).table i = s.table i := by
  rw [discard, table_putBuffer_of_ne _ index i _ hi, (SameButChains.unlink s index).table]

theorem discard_table_self (s : System) (index : Index) :
    (discard s index).table index = emptied (s.table index) := by
  rw [discard, table_putBuffer_self, (SameButChains.unlink s index).table]

theorem holds_discard_iff {s : System} {index i : Index} {d : DeviceAddress} {b : UInt64} :
    Holds (discard s index) i d b ↔ Holds s i d b ∧ i ≠ index := by
  by_cases hi : i = index
  · subst hi
    simp [Holds, discard_table_self, emptied]
  · simp [Holds, discard_table_of_ne s hi, hi]

theorem Placed.discard {s : System} (h : Placed s) {index : Index}
    (hvalid : (s.table index).valid = true) : Placed (discard s index) where
  identified i := by
    by_cases hi : i = index
    · subst hi; rw [discard_table_self]; rfl
    · rw [discard_table_of_ne s hi, h.identified]
  unique i j d b hi hj := h.unique i j d b (holds_discard_iff.mp hi).1 (holds_discard_iff.mp hj).1
  recency := (h.recency.of_same (SameButChains.unlink s index)).of_entries_eq rfl rfl rfl
  chained bucket := by
    have hlinked : (s.entries index).linked = true := (h.linked_eq index).trans hvalid
    have hunlink := h.chained.unlink hlinked ⟨hvalid, rfl⟩
      fun i bucket bucket' hi hi' ↦ hi.2.symm.trans hi'.2
    obtain ⟨cells, hnodup, hchain, hmember⟩ := hunlink bucket
    refine ⟨cells, hnodup, hchain, fun i ↦ ?_⟩
    rw [hmember i]
    by_cases hi : i = index
    · subst hi
      simp [discard_table_self, emptied]
    · simp [bucketAt, discard_table_of_ne s hi, hi]
  linked_eq i := by
    change ((bufferUnlink s index).entries i).linked = _
    rw [bufferUnlink_linked, h.linked_eq]
    by_cases hi : i = index
    · subst hi; simp [discard_table_self, emptied]
    · simp [discard_table_of_ne s hi, hi]

theorem Sound.discard {s : System} {written : Written} (h : Sound s written) {index : Index}
    (hvalid : (s.table index).valid = true) (hclean : (s.table index).dirty = false)
    (hfree : (s.table index).references = 0) : Sound (discard s index) written := by
  have hmedium : (Block.discard s index).medium = s.medium :=
    (SameButChains.unlink s index).medium
  refine ⟨h.toPlaced.discard hvalid, ?_, ?_, ?_, ?_⟩
  · intro i hi
    by_cases hindex : i = index
    · subst hindex
      rw [discard_table_self] at hi
      exact absurd hfree hi
    · rw [discard_table_of_ne s hindex] at hi ⊢
      exact h.held_valid i hi
  · intro i d b hi
    obtain ⟨hi, hindex⟩ := holds_discard_iff.mp hi
    rw [discard_table_of_ne s hindex, h.contents i d b hi, view, view, hmedium]
  · intro i d b hi hdirty
    obtain ⟨hi, hindex⟩ := holds_discard_iff.mp hi
    rw [discard_table_of_ne s hindex] at hdirty
    exact h.dirty_written i d b hi hdirty
  · intro d b c hc
    rw [hmedium]
    rcases h.medium_written d b c hc with hmedium | ⟨i, hi, hdirty⟩
    · exact Or.inl hmedium
    · have hindex : i ≠ index := by
        rintro rfl
        rw [hclean] at hdirty
        cases hdirty
      refine Or.inr ⟨i, holds_discard_iff.mpr ⟨hi, hindex⟩, ?_⟩
      rw [discard_table_of_ne s hindex]
      exact hdirty

theorem SameHolders.discard {s : System} {index : Index}
    (hfree : (s.table index).references = 0) : SameHolders s (discard s index) where
  references i := by
    by_cases hi : i = index
    · subst hi; rw [discard_table_self]; rfl
    · rw [discard_table_of_ne s hi]
  holds i d b hheld hi := by
    refine holds_discard_iff.mpr ⟨hi, ?_⟩
    rintro rfl
    exact hheld hfree
  holds_of _ _ _ hi := (holds_discard_iff.mp hi).1

end OxysOS.Block
