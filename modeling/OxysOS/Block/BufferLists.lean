import OxysOS.Block.Buffer

/-!
# The linked structures of the buffer cache

What each operation on the recency list and on the hash chains leaves alone, and
what list its links describe afterwards.  `WellLinked` is what holds between
operations.
-/

namespace OxysOS.Block

open OxysOS.Library

structure SameButRecency (s s' : System) : Prop where
  table : s'.table = s.table
  buckets : s'.buckets = s.buckets
  ready : s'.ready = s.ready
  devices : s'.devices = s.devices
  medium : s'.medium = s.medium
  hashNext : ∀ i, (s'.entries i).hashNext = (s.entries i).hashNext
  linked : ∀ i, (s'.entries i).linked = (s.entries i).linked

structure SameButChains (s s' : System) : Prop where
  table : s'.table = s.table
  newest : s'.newest = s.newest
  oldest : s'.oldest = s.oldest
  ready : s'.ready = s.ready
  devices : s'.devices = s.devices
  medium : s'.medium = s.medium
  older : ∀ i, (s'.entries i).older = (s.entries i).older
  newer : ∀ i, (s'.entries i).newer = (s.entries i).newer
  listed : ∀ i, (s'.entries i).listed = (s.entries i).listed

namespace SameButRecency

theorem refl (s : System) : SameButRecency s s :=
  ⟨rfl, rfl, rfl, rfl, rfl, fun _ ↦ rfl, fun _ ↦ rfl⟩

theorem trans {s s' s'' : System} (h : SameButRecency s s') (h' : SameButRecency s' s'') :
    SameButRecency s s'' where
  table := h'.table.trans h.table
  buckets := h'.buckets.trans h.buckets
  ready := h'.ready.trans h.ready
  devices := h'.devices.trans h.devices
  medium := h'.medium.trans h.medium
  hashNext i := (h'.hashNext i).trans (h.hashNext i)
  linked i := (h'.linked i).trans (h.linked i)

theorem putEntry {s s' : System} (h : SameButRecency s s') (index : Index)
    (entry : BufferEntry) (hnext : entry.hashNext = (s'.entries index).hashNext)
    (hlinked : entry.linked = (s'.entries index).linked) :
    SameButRecency s (s'.putEntry index entry) := by
  refine h.trans ⟨rfl, rfl, rfl, rfl, rfl, fun i ↦ ?_, fun i ↦ ?_⟩
  · by_cases hi : i = index
    · subst hi; simp [System.putEntry, hnext]
    · simp [System.putEntry, hi]
  · by_cases hi : i = index
    · subst hi; simp [System.putEntry, hlinked]
    · simp [System.putEntry, hi]

theorem setNewest {s s' : System} (h : SameButRecency s s') (index : Option Index) :
    SameButRecency s (s'.setNewest index) :=
  h.trans ⟨rfl, rfl, rfl, rfl, rfl, fun _ ↦ rfl, fun _ ↦ rfl⟩

theorem setOldest {s s' : System} (h : SameButRecency s s') (index : Option Index) :
    SameButRecency s (s'.setOldest index) :=
  h.trans ⟨rfl, rfl, rfl, rfl, rfl, fun _ ↦ rfl, fun _ ↦ rfl⟩

theorem setOlder {s s' : System} (h : SameButRecency s s') (index value : Option Index) :
    SameButRecency s (setOlder s' index value) := by
  cases index with
  | none => exact h
  | some i => exact h.putEntry i _ rfl rfl

theorem setNewer {s s' : System} (h : SameButRecency s s') (index value : Option Index) :
    SameButRecency s (setNewer s' index value) := by
  cases index with
  | none => exact h
  | some i => exact h.putEntry i _ rfl rfl

theorem detach {s s' : System} (h : SameButRecency s s') (index : Index) :
    SameButRecency s (bufferDetach s' index) := by
  unfold bufferDetach
  dsimp only
  split
  · exact h
  · refine putEntry ?_ _ _ rfl rfl
    apply setOldest
    apply setNewer
    apply setNewest
    exact h.setOlder _ _

theorem touch {s s' : System} (h : SameButRecency s s') (index : Index) :
    SameButRecency s (bufferTouch s' index) := by
  unfold bufferTouch
  dsimp only
  apply setOldest
  refine putEntry ?_ _ _ rfl rfl
  apply setNewest
  apply setNewer
  exact (h.detach index).putEntry index _ rfl rfl

theorem demote {s s' : System} (h : SameButRecency s s') (index : Index) :
    SameButRecency s (bufferDemote s' index) := by
  unfold bufferDemote
  dsimp only
  apply setNewest
  refine putEntry ?_ _ _ rfl rfl
  apply setOldest
  apply setOlder
  exact (h.detach index).putEntry index _ rfl rfl

end SameButRecency

def System.older (s : System) (i : Index) : Option Index := (s.entries i).older

def System.newer (s : System) (i : Index) : Option Index := (s.entries i).newer

def System.listed (s : System) (i : Index) : Bool := (s.entries i).listed

structure IsRecency (s : System) (cells : List Index) : Prop where
  nodup : cells.Nodup
  deque : IsDeque s.older s.newer s.newest s.oldest cells
  listed : ∀ i ∈ cells, s.listed i = true

section Links

variable (s : System) (index : Index) (entry : BufferEntry) (cell value : Option Index)

@[simp] theorem older_putEntry :
    (s.putEntry index entry).older = Function.update s.older index entry.older := by
  funext j
  by_cases hj : j = index
  · subst hj; simp [System.older, System.putEntry]
  · simp [System.older, System.putEntry, hj]

@[simp] theorem newer_putEntry :
    (s.putEntry index entry).newer = Function.update s.newer index entry.newer := by
  funext j
  by_cases hj : j = index
  · subst hj; simp [System.newer, System.putEntry]
  · simp [System.newer, System.putEntry, hj]

@[simp] theorem listed_putEntry :
    (s.putEntry index entry).listed = Function.update s.listed index entry.listed := by
  funext j
  by_cases hj : j = index
  · subst hj; simp [System.listed, System.putEntry]
  · simp [System.listed, System.putEntry, hj]

@[simp] theorem entries_older (i : Index) : (s.entries i).older = s.older i := rfl

@[simp] theorem entries_newer (i : Index) : (s.entries i).newer = s.newer i := rfl

@[simp] theorem entries_listed (i : Index) : (s.entries i).listed = s.listed i := rfl

@[simp] theorem newest_putEntry : (s.putEntry index entry).newest = s.newest := rfl

@[simp] theorem oldest_putEntry : (s.putEntry index entry).oldest = s.oldest := rfl

@[simp] theorem older_setNewest : (s.setNewest value).older = s.older := rfl

@[simp] theorem newer_setNewest : (s.setNewest value).newer = s.newer := rfl

@[simp] theorem listed_setNewest : (s.setNewest value).listed = s.listed := rfl

@[simp] theorem newest_setNewest : (s.setNewest value).newest = value := rfl

@[simp] theorem oldest_setNewest : (s.setNewest value).oldest = s.oldest := rfl

@[simp] theorem older_setOldest : (s.setOldest value).older = s.older := rfl

@[simp] theorem newer_setOldest : (s.setOldest value).newer = s.newer := rfl

@[simp] theorem listed_setOldest : (s.setOldest value).listed = s.listed := rfl

@[simp] theorem newest_setOldest : (s.setOldest value).newest = s.newest := rfl

@[simp] theorem oldest_setOldest : (s.setOldest value).oldest = value := rfl

@[simp] theorem older_setOlder : (setOlder s cell value).older = relink s.older cell value := by
  cases cell <;> simp [setOlder]

@[simp] theorem newer_setOlder : (setOlder s cell value).newer = s.newer := by
  cases cell with
  | none => rfl
  | some i => simp [setOlder]

@[simp] theorem listed_setOlder : (setOlder s cell value).listed = s.listed := by
  cases cell with
  | none => rfl
  | some i => simp [setOlder]

@[simp] theorem newest_setOlder : (setOlder s cell value).newest = s.newest := by
  cases cell <;> rfl

@[simp] theorem oldest_setOlder : (setOlder s cell value).oldest = s.oldest := by
  cases cell <;> rfl

@[simp] theorem newer_setNewer : (setNewer s cell value).newer = relink s.newer cell value := by
  cases cell <;> simp [setNewer]

@[simp] theorem older_setNewer : (setNewer s cell value).older = s.older := by
  cases cell with
  | none => rfl
  | some i => simp [setNewer]

@[simp] theorem listed_setNewer : (setNewer s cell value).listed = s.listed := by
  cases cell with
  | none => rfl
  | some i => simp [setNewer]

@[simp] theorem newest_setNewer : (setNewer s cell value).newest = s.newest := by
  cases cell <;> rfl

@[simp] theorem oldest_setNewer : (setNewer s cell value).oldest = s.oldest := by
  cases cell <;> rfl

end Links

namespace IsRecency

variable {s : System} {cells : List Index} {index : Index}

theorem of_same {s' : System} (h : IsRecency s cells) (hsame : SameButChains s s') :
    IsRecency s' cells where
  nodup := h.nodup
  deque := by
    have holder : s'.older = s.older := funext hsame.older
    have hnewer : s'.newer = s.newer := funext hsame.newer
    rw [holder, hnewer, hsame.newest, hsame.oldest]
    exact h.deque
  listed i hi := (hsame.listed i).trans (h.listed i hi)

theorem detach {before after : List Index}
    (h : IsRecency s (before ++ index :: after)) :
    IsRecency (bufferDetach s index) (before ++ after) := by
  have hlisted : s.listed index = true := h.listed index (by simp)
  have hnodup := List.nodup_cons.mp (List.nodup_middle.mp h.nodup)
  unfold bufferDetach
  simp only [entries_listed, hlisted, Bool.not_true, Bool.false_eq_true, if_false]
  refine ⟨hnodup.2, ?_, ?_⟩
  · have := h.deque.detach h.nodup
    simpa using this
  · intro i hmem
    have hi : i ≠ index := ne_of_mem_of_not_mem hmem hnodup.1
    have := h.listed i (by simp only [List.mem_append, List.mem_cons] at hmem ⊢; tauto)
    simpa [hi] using this

theorem notMem_of_unlisted (h : IsRecency s cells) (hlisted : s.listed index = false) :
    index ∉ cells := by
  intro hmem
  rw [h.listed index hmem] at hlisted
  cases hlisted

theorem touch_of_unlisted (h : IsRecency s cells) (hlisted : s.listed index = false) :
    IsRecency (bufferTouch s index) (index :: cells) := by
  have hindex := h.notMem_of_unlisted hlisted
  have hdetach : bufferDetach s index = s := by simp [bufferDetach, hlisted]
  unfold bufferTouch
  rw [hdetach]
  refine ⟨List.nodup_cons.mpr ⟨hindex, h.nodup⟩, ?_, ?_⟩
  · have := h.deque.pushNewest hindex
    simpa using this
  · intro i hmem
    by_cases hi : i = index
    · subst hi; simp
    · have := h.listed i ((List.mem_cons.mp hmem).resolve_left hi)
      simpa [hi] using this

theorem demote_of_unlisted (h : IsRecency s cells) (hlisted : s.listed index = false) :
    IsRecency (bufferDemote s index) (cells ++ [index]) := by
  have hindex := h.notMem_of_unlisted hlisted
  have hdetach : bufferDetach s index = s := by simp [bufferDetach, hlisted]
  unfold bufferDemote
  rw [hdetach]
  refine ⟨?_, ?_, ?_⟩
  · rw [List.nodup_append_comm]
    exact List.nodup_cons.mpr ⟨hindex, h.nodup⟩
  · have := h.deque.pushOldest hindex
    simpa using this
  · intro i hmem
    by_cases hi : i = index
    · subst hi; simp
    · have := h.listed i (by simpa [hi] using hmem)
      simpa [hi] using this

end IsRecency

def WholeRecency (s : System) : Prop :=
  ∃ cells, IsRecency s cells ∧ ∀ i, i ∈ cells

theorem bufferDetach_listed (s : System) (index : Index) :
    (bufferDetach s index).listed index = false := by
  unfold bufferDetach
  dsimp only
  split
  · rename_i hlisted
    simpa using hlisted
  · simp

theorem bufferDetach_detach (s : System) (index : Index) :
    bufferDetach (bufferDetach s index) index = bufferDetach s index := by
  conv_lhs => rw [bufferDetach]
  simp [bufferDetach_listed]

namespace WholeRecency

variable {s : System} {index : Index}

theorem of_same {s' : System} (h : WholeRecency s) (hsame : SameButChains s s') :
    WholeRecency s' := by
  obtain ⟨cells, hcells, hall⟩ := h
  exact ⟨cells, hcells.of_same hsame, hall⟩

theorem of_entries_eq {s' : System} (h : WholeRecency s) (hentries : s'.entries = s.entries)
    (hnewest : s'.newest = s.newest) (holdest : s'.oldest = s.oldest) : WholeRecency s' := by
  obtain ⟨cells, hcells, hall⟩ := h
  have holder : s'.older = s.older := by funext i; simp only [System.older, hentries]
  have hnewer : s'.newer = s.newer := by funext i; simp only [System.newer, hentries]
  have hlisted : s'.listed = s.listed := by funext i; simp only [System.listed, hentries]
  refine ⟨cells, ⟨hcells.nodup, ?_, ?_⟩, hall⟩
  · rw [holder, hnewer, hnewest, holdest]
    exact hcells.deque
  · rw [hlisted]
    exact hcells.listed

theorem exists_detach (index : Index) (h : WholeRecency s) :
    ∃ cells, IsRecency (bufferDetach s index) cells ∧ ∀ i, i ≠ index → i ∈ cells := by
  obtain ⟨cells, hcells, hall⟩ := h
  obtain ⟨before, after, rfl⟩ := List.append_of_mem (hall index)
  refine ⟨before ++ after, hcells.detach, fun i hi ↦ ?_⟩
  have := hall i
  simpa [hi] using this

theorem touch (h : WholeRecency s) : WholeRecency (bufferTouch s index) := by
  obtain ⟨cells, hcells, hall⟩ := exists_detach index h
  have htouch : bufferTouch (bufferDetach s index) index = bufferTouch s index := by
    simp only [bufferTouch, bufferDetach_detach]
  rw [← htouch]
  refine ⟨index :: cells, hcells.touch_of_unlisted (bufferDetach_listed s index), fun i ↦ ?_⟩
  by_cases hi : i = index
  · simp [hi]
  · exact List.mem_cons_of_mem _ (hall i hi)

theorem demote (h : WholeRecency s) : WholeRecency (bufferDemote s index) := by
  obtain ⟨cells, hcells, hall⟩ := exists_detach index h
  have hdemote : bufferDemote (bufferDetach s index) index = bufferDemote s index := by
    simp only [bufferDemote, bufferDetach_detach]
  rw [← hdemote]
  refine ⟨cells ++ [index], hcells.demote_of_unlisted (bufferDetach_listed s index), fun i ↦ ?_⟩
  by_cases hi : i = index
  · simp [hi]
  · exact List.mem_append_left _ (hall i hi)

theorem follow_newer (h : WholeRecency s) (stop : Index → Bool) :
    (∃ i, follow (fun current ↦ (s.entries current).newer) stop bufferCapacity s.oldest = some i ∧
        stop i = true) ∨
      (follow (fun current ↦ (s.entries current).newer) stop bufferCapacity s.oldest = none ∧
        ∀ i, stop i = false) := by
  obtain ⟨cells, hcells, hall⟩ := h
  have hlength : cells.reverse.length ≤ bufferCapacity := by
    have := hcells.nodup.length_le_card
    simpa using this
  have hfollow := hcells.deque.newerChain.follow_eq_find? stop hlength
  have hlinks : (fun current ↦ (s.entries current).newer) = s.newer := rfl
  rw [hlinks, hfollow]
  cases hfind : cells.reverse.find? stop with
  | some i => exact Or.inl ⟨i, rfl, List.find?_some hfind⟩
  | none =>
      refine Or.inr ⟨rfl, fun i ↦ ?_⟩
      have := List.find?_eq_none.mp hfind i (by simpa using hall i)
      simpa using this

end WholeRecency

def System.hashNext (s : System) (i : Index) : Option Index := (s.entries i).hashNext

def ChainedBy (s : System) (member : Index → Bucket → Prop) : Prop :=
  ∀ bucket, ∃ cells : List Index, cells.Nodup ∧
    IsChain s.hashNext (s.buckets bucket) cells ∧ ∀ i, i ∈ cells ↔ member i bucket

theorem hashNext_putEntry (s : System) (index : Index) (entry : BufferEntry) :
    (s.putEntry index entry).hashNext = Function.update s.hashNext index entry.hashNext := by
  funext j
  by_cases hj : j = index
  · subst hj; simp [System.hashNext, System.putEntry]
  · simp [System.hashNext, System.putEntry, hj]

theorem bufferLink_hashNext (s : System) (index : Index) :
    (bufferLink s index).hashNext =
      Function.update s.hashNext index (s.buckets (bucketAt s index)) :=
  hashNext_putEntry s index _

theorem bufferLink_buckets (s : System) (index : Index) :
    (bufferLink s index).buckets =
      Function.update s.buckets (bucketAt s index) (some index) := rfl

theorem bufferLink_linked (s : System) (index i : Index) :
    ((bufferLink s index).entries i).linked = ((s.entries i).linked || decide (i = index)) := by
  by_cases hi : i = index
  · subst hi; simp [bufferLink, System.putEntry]
  · simp [bufferLink, System.putEntry, hi]

theorem SameButChains.link (s : System) (index : Index) :
    SameButChains s (bufferLink s index) := by
  refine ⟨rfl, rfl, rfl, rfl, rfl, rfl, fun i ↦ ?_, fun i ↦ ?_, fun i ↦ ?_⟩ <;>
    by_cases hi : i = index <;> simp [bufferLink, System.putEntry, hi]

/-- The state between the two halves of `BufferUnlink`: the chain passes over
the entry, whose own link still stands. -/
def bypass (s : System) (index : Index) : System :=
  if s.buckets (bucketAt s index) = some index then
    { s with
      buckets := Function.update s.buckets (bucketAt s index) (s.entries index).hashNext }
  else
    match predecessor s (bucketAt s index) index with
    | none => s
    | some current =>
        s.putEntry current { s.entries current with hashNext := (s.entries index).hashNext }

theorem bufferUnlink_eq (s : System) (index : Index) (h : (s.entries index).linked = true) :
    bufferUnlink s index =
      (bypass s index).putEntry index
        { (bypass s index).entries index with hashNext := none, linked := false } := by
  simp only [bufferUnlink, h, Bool.not_true, Bool.false_eq_true, if_false]
  rfl

theorem SameButChains.bypass (s : System) (index : Index) :
    SameButChains s (bypass s index) := by
  unfold Block.bypass
  split
  · exact ⟨rfl, rfl, rfl, rfl, rfl, rfl, fun _ ↦ rfl, fun _ ↦ rfl, fun _ ↦ rfl⟩
  · split
    · exact ⟨rfl, rfl, rfl, rfl, rfl, rfl, fun _ ↦ rfl, fun _ ↦ rfl, fun _ ↦ rfl⟩
    · rename_i current _
      refine ⟨rfl, rfl, rfl, rfl, rfl, rfl, fun i ↦ ?_, fun i ↦ ?_, fun i ↦ ?_⟩ <;>
        by_cases hi : i = current <;> simp [System.putEntry, hi]

theorem SameButChains.unlink (s : System) (index : Index) :
    SameButChains s (bufferUnlink s index) := by
  by_cases h : (s.entries index).linked = true
  · rw [bufferUnlink_eq s index h]
    have hsame := SameButChains.bypass s index
    refine ⟨hsame.table, hsame.newest, hsame.oldest, hsame.ready, hsame.devices, hsame.medium,
      fun i ↦ ?_, fun i ↦ ?_, fun i ↦ ?_⟩ <;> by_cases hi : i = index
    · subst hi; simpa [System.putEntry] using hsame.older i
    · simpa [System.putEntry, hi] using hsame.older i
    · subst hi; simpa [System.putEntry] using hsame.newer i
    · simpa [System.putEntry, hi] using hsame.newer i
    · subst hi; simpa [System.putEntry] using hsame.listed i
    · simpa [System.putEntry, hi] using hsame.listed i
  · simp only [bufferUnlink, h, Bool.not_false, if_true]
    exact ⟨rfl, rfl, rfl, rfl, rfl, rfl, fun _ ↦ rfl, fun _ ↦ rfl, fun _ ↦ rfl⟩

theorem bypass_linked (s : System) (index i : Index) :
    ((bypass s index).entries i).linked = (s.entries i).linked := by
  unfold bypass
  split
  · rfl
  · split
    · rfl
    · rename_i current _
      by_cases hi : i = current <;> simp [System.putEntry, hi]

theorem bufferUnlink_linked (s : System) (index i : Index) :
    ((bufferUnlink s index).entries i).linked = ((s.entries i).linked && decide (i ≠ index)) := by
  by_cases h : (s.entries index).linked = true
  · rw [bufferUnlink_eq s index h]
    by_cases hi : i = index
    · subst hi; simp [System.putEntry]
    · simp [System.putEntry, hi, bypass_linked]
  · by_cases hi : i = index
    · subst hi; simp [bufferUnlink, h]
    · simp [bufferUnlink, h, hi]

namespace ChainedBy

variable {s : System} {member : Index → Bucket → Prop} {index : Index}

theorem follow_bucket (h : ChainedBy s member) (bucket : Bucket) (stop : Index → Bool) :
    (∃ i, follow (fun current ↦ (s.entries current).hashNext) stop bufferCapacity
        (s.buckets bucket) = some i ∧ stop i = true ∧ member i bucket) ∨
      (follow (fun current ↦ (s.entries current).hashNext) stop bufferCapacity
        (s.buckets bucket) = none ∧ ∀ i, member i bucket → stop i = false) := by
  obtain ⟨cells, hnodup, hchain, hmember⟩ := h bucket
  have hlength : cells.length ≤ bufferCapacity := by
    have := hnodup.length_le_card
    simpa using this
  have hlinks : (fun current ↦ (s.entries current).hashNext) = s.hashNext := rfl
  rw [hlinks, hchain.follow_eq_find? stop hlength]
  cases hfind : cells.find? stop with
  | some i =>
      exact Or.inl ⟨i, rfl, List.find?_some hfind, (hmember i).mp (List.mem_of_find?_eq_some hfind)⟩
  | none =>
      refine Or.inr ⟨rfl, fun i hi ↦ ?_⟩
      simpa using List.find?_eq_none.mp hfind i ((hmember i).mpr hi)

theorem link (h : ChainedBy s member) (hindex : ∀ bucket, ¬ member index bucket) :
    ChainedBy (bufferLink s index)
      (fun i bucket ↦ member i bucket ∨ i = index ∧ bucket = bucketAt s index) := by
  intro bucket
  obtain ⟨cells, hnodup, hchain, hmember⟩ := h bucket
  have hfresh : index ∉ cells := fun hmem ↦ hindex bucket ((hmember index).mp hmem)
  rw [bufferLink_hashNext, bufferLink_buckets]
  by_cases hbucket : bucket = bucketAt s index
  · subst hbucket
    refine ⟨index :: cells, List.nodup_cons.mpr ⟨hfresh, hnodup⟩, ?_, fun i ↦ ?_⟩
    · rw [Function.update_self]
      exact hchain.push hfresh
    · simp [hmember, or_comm]
  · refine ⟨cells, hnodup, ?_, fun i ↦ ?_⟩
    · rw [Function.update_of_ne hbucket]
      refine hchain.congr fun i hi ↦ ?_
      rw [Function.update_of_ne (ne_of_mem_of_not_mem hi hfresh)]
    · simp [hmember, hbucket]

theorem unlink (h : ChainedBy s member) (hlinked : (s.entries index).linked = true)
    (hindex : member index (bucketAt s index))
    (hone : ∀ i bucket bucket', member i bucket → member i bucket' → bucket = bucket') :
    ChainedBy (bufferUnlink s index) (fun i bucket ↦ member i bucket ∧ i ≠ index) := by
  obtain ⟨cells, hnodup, hchain, hmember⟩ := h (bucketAt s index)
  obtain ⟨before, after, rfl⟩ := List.append_of_mem ((hmember index).mpr hindex)
  rw [bufferUnlink_eq s index hlinked]
  -- it is enough to know the chain that passes over the entry
  suffices hbypass : ∀ bucket, ∃ cells : List Index, cells.Nodup ∧
      IsChain (bypass s index).hashNext ((bypass s index).buckets bucket) cells ∧
        ∀ i, i ∈ cells ↔ member i bucket ∧ i ≠ index by
    intro bucket
    obtain ⟨rest, hrestNodup, hrest, hrestMember⟩ := hbypass bucket
    refine ⟨rest, hrestNodup, ?_, hrestMember⟩
    rw [hashNext_putEntry]
    refine hrest.congr fun i hi ↦ ?_
    rw [Function.update_of_ne ((hrestMember i).mp hi).2]
  intro bucket
  have hfresh := List.nodup_cons.mp (List.nodup_middle.mp hnodup)
  rcases List.eq_nil_or_concat before with rfl | ⟨front, p, rfl⟩
  · -- the entry heads its bucket
    have hhead : s.buckets (bucketAt s index) = some index := hchain.1
    have hnext : (bypass s index).hashNext = s.hashNext := by
      rw [bypass, if_pos hhead]
      rfl
    have hbuckets : (bypass s index).buckets =
        Function.update s.buckets (bucketAt s index) (s.hashNext index) := by
      rw [bypass, if_pos hhead]
      rfl
    rw [hnext, hbuckets]
    by_cases hbucket : bucket = bucketAt s index
    · subst hbucket
      refine ⟨after, hfresh.2, ?_, fun i ↦ ?_⟩
      · rw [Function.update_self]
        exact hchain.2
      · rw [← hmember i]
        constructor
        · exact fun hi ↦ ⟨List.mem_cons_of_mem _ hi, ne_of_mem_of_not_mem hi hfresh.1⟩
        · exact fun hi ↦ (List.mem_cons.mp hi.1).resolve_left hi.2
    · obtain ⟨rest, hrestNodup, hrest, hrestMember⟩ := h bucket
      refine ⟨rest, hrestNodup, ?_, fun i ↦ ?_⟩
      · rw [Function.update_of_ne hbucket]
        exact hrest
      · rw [hrestMember i]
        refine ⟨fun hi ↦ ⟨hi, ?_⟩, And.left⟩
        rintro rfl
        exact hbucket (hone i _ _ hi hindex)
  · -- some entry precedes it, and takes over its link
    rw [List.concat_eq_append, List.append_assoc, List.cons_append, List.nil_append] at *
    have hp : member p (bucketAt s index) := (hmember p).mp (by simp)
    have hhead : s.buckets (bucketAt s index) ≠ some index := by
      rw [hchain.start_eq]
      intro hstart
      cases front with
      | nil => simp_all
      | cons k front => simp_all
    have hpredecessor : predecessor s (bucketAt s index) index = some p := by
      have hlength : (front ++ p :: index :: after).length ≤ bufferCapacity := by
        have := hnodup.length_le_card
        simpa using this
      exact (hchain.follow_eq_find? _ hlength).trans (hchain.find?_next_eq hnodup)
    have hstate : bypass s index =
        s.putEntry p { s.entries p with hashNext := s.hashNext index } := by
      rw [bypass, if_neg hhead, hpredecessor]
      rfl
    rw [hstate, hashNext_putEntry]
    by_cases hbucket : bucket = bucketAt s index
    · subst hbucket
      refine ⟨front ++ p :: after, ?_, hchain.unlink hnodup, fun i ↦ ?_⟩
      · have := hfresh.2
        simpa using this
      · rw [← hmember i]
        have hne : i ∈ front ++ p :: after → i ≠ index := by
          rintro hi rfl
          exact hfresh.1 (by simpa using hi)
        constructor
        · intro hi
          refine ⟨?_, hne hi⟩
          simp only [List.mem_append, List.mem_cons] at hi ⊢
          tauto
        · rintro ⟨hi, hne⟩
          simp only [List.mem_append, List.mem_cons] at hi ⊢
          tauto
    · obtain ⟨rest, hrestNodup, hrest, hrestMember⟩ := h bucket
      refine ⟨rest, hrestNodup, ?_, fun i ↦ ?_⟩
      · refine hrest.congr fun i hi ↦ ?_
        rw [Function.update_of_ne]
        rintro rfl
        exact hbucket (hone i _ _ ((hrestMember i).mp hi) hp)
      · rw [hrestMember i]
        refine ⟨fun hi ↦ ⟨hi, ?_⟩, And.left⟩
        rintro rfl
        exact hbucket (hone i _ _ hi hindex)

end ChainedBy

end OxysOS.Block
