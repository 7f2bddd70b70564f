import OxysOS.Block.BufferOperations

/-!
# When the buffer cache can answer

A run of the cache is a sequence of operations whose transfers may each fail,
and beside the state the contents last written to each block.

A miss takes the least recently used of the entries that nobody holds, and is
refused if that one cannot be written back.  So when `BufferGet` answers is a
condition upon that one entry.
-/

namespace OxysOS.Block

open OxysOS.Library

/-- An operation upon the cache, with the outcomes of its transfers. -/
inductive Operation where
  | get (device : Option DeviceAddress) (block : UInt64) (writeBack read : Transfer)
  | write (index : Index) (change : Sector → Sector)
  | release (buffer : Option Index)
  | flush (buffer : Option Index) (transfer : Transfer)
  | sync (transfers : Index → Transfer)
  | invalidateDevice (device : Option DeviceAddress) (transfers : Index → Transfer)

structure History where
  system : System
  written : Written

namespace History

def step (history : History) : Operation → History
  | .get device block writeBack read =>
      { history with system := (bufferGet history.system device block writeBack read).2 }
  | .write index change =>
      { system := bufferWrite history.system index change,
        written := recordWrite history.system history.written index change }
  | .release buffer => { history with system := bufferRelease history.system buffer }
  | .flush buffer transfer =>
      { history with system := (bufferFlush history.system buffer transfer).2 }
  | .sync transfers => { history with system := (bufferSync history.system transfers).2 }
  | .invalidateDevice device transfers =>
      { history with system := (bufferInvalidateDevice history.system device transfers).2 }

/-- The cache as `BufferInitialise` leaves it, before anything is written. -/
def start (s : System) : History :=
  { system := bufferInitialise s, written := fun _ _ ↦ none }

def run (history : History) (operations : List Operation) : History :=
  operations.foldl step history

end History

theorem Sound.step {history : History} (h : Sound history.system history.written)
    (operation : Operation) :
    Sound (history.step operation).system (history.step operation).written ∧
      KeepsHeld history.system (history.step operation).system := by
  cases operation with
  | get device block writeBack read =>
      have hgot := h.get device block writeBack read
      exact ⟨hgot.sound, hgot.keeps⟩
  | write index change => exact h.write index change
  | release buffer => exact h.release buffer
  | flush buffer transfer =>
      obtain ⟨hsound, hsame⟩ := h.flush buffer transfer
      exact ⟨hsound, hsame.holds⟩
  | sync transfers =>
      obtain ⟨hsound, hsame⟩ := h.sync transfers
      dsimp only [History.step]
      exact ⟨hsound, hsame.holds⟩
  | invalidateDevice device transfers =>
      obtain ⟨hsound, hsame⟩ := h.invalidateDevice device transfers
      exact ⟨hsound, hsame.holds⟩

theorem Sound.run {history : History} (h : Sound history.system history.written)
    (operations : List Operation) :
    Sound (history.run operations).system (history.run operations).written := by
  induction operations generalizing history with
  | nil => exact h
  | cons operation rest ih => exact ih (h.step operation).1

end OxysOS.Block

namespace OxysOS.Block

open OxysOS.Library

/-- The least recently used of the entries that nobody holds. -/
def NextClaimed (s : System) (i : Index) : Prop :=
  ∃ newer older, IsRecency s (newer ++ i :: older) ∧ (s.table i).references = 0 ∧
    ∀ j ∈ older, (s.table j).references ≠ 0

def Reusable (s : System) (i : Index) (transfer : Transfer) : Prop :=
  (s.table i).valid = false ∨ (s.table i).dirty = false ∨
    blockAdmits s (s.table i).device (s.table i).block true ≠ none ∧ transfer = .succeeded

structure Readable (s : System) (d : DeviceAddress) (b : UInt64) (read : Transfer) : Prop where
  blockSize : (s.devices d).blockSize = bufferBlockSize
  admitted : blockAdmits s (some d) b false ≠ none
  succeeds : read = .succeeded

theorem bufferWriteBack_iff (s : System) (i : Index) (transfer : Transfer) :
    (bufferWriteBack s i transfer).1 = true ↔ Reusable s i transfer := by
  unfold bufferWriteBack Reusable blockWrite
  cases hvalid : (s.table i).valid with
  | false => simp [hvalid]
  | true =>
      cases hdirty : (s.table i).dirty with
      | false => simp [hdirty]
      | true =>
          cases hadmits : blockAdmits s (s.table i).device (s.table i).block true with
          | none => simp [hvalid, hdirty, hadmits]
          | some address => cases transfer <;> simp [hvalid, hdirty, hadmits]

theorem NextClaimed.follow_eq {s : System} {i : Index} (h : NextClaimed s i) :
    follow (fun current ↦ (s.entries current).newer)
      (fun current ↦ (s.table current).references == 0) bufferCapacity s.oldest = some i := by
  obtain ⟨newer, older, hrecency, hfree, hheld⟩ := h
  have hlength : (newer ++ i :: older).reverse.length ≤ bufferCapacity := by
    rw [List.length_reverse]
    simpa using hrecency.nodup.length_le_card
  have hfollow := hrecency.deque.newerChain.follow_eq_find?
    (fun current ↦ (s.table current).references == 0) hlength
  refine hfollow.trans ?_
  have hskip : older.reverse.find? (fun current ↦ (s.table current).references == 0) = none := by
    simpa using hheld
  simp [List.find?_append, hskip, hfree]

theorem WholeRecency.exists_nextClaimed {s : System} (h : WholeRecency s) {i : Index}
    (hi : (s.table i).references = 0) : ∃ j, NextClaimed s j := by
  obtain ⟨cells, hcells, hall⟩ := h
  have hfound : (cells.reverse.find? fun j ↦ (s.table j).references == 0).isSome := by
    simp only [List.find?_isSome, List.mem_reverse]
    exact ⟨i, hall i, by simpa using hi⟩
  obtain ⟨j, hj⟩ := Option.isSome_iff_exists.mp hfound
  obtain ⟨hfree, older, newer, hreverse, hheld⟩ := List.find?_eq_some_iff_append.mp hj
  have heq : cells = newer.reverse ++ j :: older.reverse := by
    simpa using congrArg List.reverse hreverse
  refine ⟨j, newer.reverse, older.reverse, heq ▸ hcells, by simpa using hfree, fun k hk ↦ ?_⟩
  simpa using hheld k (List.mem_reverse.mp hk)

theorem bufferClaim_isSome_iff {s : System} (h : WholeRecency s) (transfer : Transfer) :
    (bufferClaim s transfer).1.isSome = true ↔ ∃ i, NextClaimed s i ∧ Reusable s i transfer := by
  by_cases hfree : ∃ i, (s.table i).references = 0
  · obtain ⟨i, hi⟩ := hfree
    obtain ⟨j, hj⟩ := h.exists_nextClaimed hi
    have hunique : ∀ k, NextClaimed s k → k = j := fun k hk ↦
      Option.some.inj (hk.follow_eq.symm.trans hj.follow_eq)
    have hiff : (bufferClaim s transfer).1.isSome = true ↔ Reusable s j transfer := by
      unfold bufferClaim
      rw [hj.follow_eq]
      cases hvalid : (s.table j).valid with
      | false => simp [hvalid, Reusable]
      | true =>
          rw [← bufferWriteBack_iff]
          cases hwrite : bufferWriteBack s j transfer with
          | mk succeeded s' => cases succeeded <;> simp [hvalid, hwrite]
    rw [hiff]
    constructor
    · intro hreusable
      exact ⟨j, hj, hreusable⟩
    · rintro ⟨k, hk, hreusable⟩
      rwa [hunique k hk] at hreusable
  · constructor
    · intro hsome
      rcases h.follow_newer fun current ↦ (s.table current).references == 0 with
        ⟨i, -, hstop⟩ | ⟨hfollow, -⟩
      · exact absurd ⟨i, by simpa using hstop⟩ hfree
      · rw [bufferClaim, hfollow] at hsome
        cases hsome
    · rintro ⟨i, ⟨_, _, _, hi, _⟩, _⟩
      exact absurd ⟨i, hi⟩ hfree

structure SameDevices (s s' : System) : Prop where
  ready : s'.ready = s.ready
  devices : s'.devices = s.devices

namespace SameDevices

theorem refl (s : System) : SameDevices s s := ⟨rfl, rfl⟩

theorem trans {s s' s'' : System} (h : SameDevices s s') (h' : SameDevices s' s'') :
    SameDevices s s'' :=
  ⟨h'.ready.trans h.ready, h'.devices.trans h.devices⟩

theorem putBuffer (s : System) (index : Index) (buffer : Buffer) :
    SameDevices s (s.putBuffer index buffer) := ⟨rfl, rfl⟩

theorem touch (s : System) (index : Index) : SameDevices s (bufferTouch s index) :=
  ⟨((SameButRecency.refl s).touch index).ready, ((SameButRecency.refl s).touch index).devices⟩

theorem demote (s : System) (index : Index) : SameDevices s (bufferDemote s index) :=
  ⟨((SameButRecency.refl s).demote index).ready, ((SameButRecency.refl s).demote index).devices⟩

theorem unlink (s : System) (index : Index) : SameDevices s (bufferUnlink s index) :=
  ⟨(SameButChains.unlink s index).ready, (SameButChains.unlink s index).devices⟩

theorem writeBack (s : System) (index : Index) (transfer : Transfer) :
    SameDevices s (bufferWriteBack s index transfer).2 := by
  unfold bufferWriteBack blockWrite
  dsimp only
  split
  · exact refl s
  · cases blockAdmits s (s.table index).device (s.table index).block true with
    | none => exact refl s
    | some address => cases transfer <;> exact ⟨rfl, rfl⟩

theorem claim (s : System) (transfer : Transfer) : SameDevices s (bufferClaim s transfer).2 := by
  unfold bufferClaim
  split
  · exact refl s
  · rename_i index _
    split
    · have hwrite := writeBack s index transfer
      cases hresult : bufferWriteBack s index transfer with
      | mk succeeded s' =>
          rw [hresult] at hwrite
          cases succeeded with
          | false => exact hwrite
          | true => exact hwrite.trans ((unlink s' index).trans (putBuffer _ _ _))
    · exact putBuffer s index _

theorem fill (s : System) (index : Index) (device : Option DeviceAddress) (block : UInt64)
    (read : Transfer) : SameDevices s (bufferFill s index device block read).2 := by
  unfold bufferFill
  cases blockRead s device block (s.table index).data read with
  | mk succeeded contents =>
      cases succeeded with
      | false => exact putBuffer s index _
      | true =>
          have htouch := touch (bufferLink (s.putBuffer index
            { device := device, block := block, data := contents, references := 1,
              valid := true, dirty := false }) index) index
          exact ⟨htouch.ready, htouch.devices⟩

theorem get (s : System) (device : Option DeviceAddress) (block : UInt64)
    (writeBack read : Transfer) : SameDevices s (bufferGet s device block writeBack read).2 := by
  unfold bufferGet
  cases device with
  | none => exact refl s
  | some d =>
      dsimp only
      split_ifs
      · exact refl s
      · exact refl s
      · cases bufferFind s (some d) block with
        | some index => exact (touch s index).trans (putBuffer _ index _)
        | none =>
            have hclaim := claim s writeBack
            cases hresult : bufferClaim s writeBack with
            | mk claimed s' =>
                rw [hresult] at hclaim
                cases claimed with
                | none => exact hclaim
                | some index => exact hclaim.trans (fill s' index _ _ _)

theorem release (s : System) (buffer : Option Index) : SameDevices s (bufferRelease s buffer) := by
  unfold bufferRelease
  cases buffer with
  | none => exact refl s
  | some index =>
      dsimp only
      split_ifs
      · exact refl s
      · exact putBuffer s index _

theorem write (s : System) (index : Index) (change : Sector → Sector) :
    SameDevices s (bufferWrite s index change) := by
  unfold bufferWrite bufferMarkDirty
  dsimp only
  split_ifs <;> exact ⟨rfl, rfl⟩

theorem syncLoop (transfers : Index → Transfer) (indices : List Index) (s : System) :
    SameDevices s (bufferSyncLoop transfers indices s).2 := by
  induction indices generalizing s with
  | nil => exact refl s
  | cons index rest ih => exact (writeBack s index (transfers index)).trans (ih _)

theorem sync (s : System) (transfers : Index → Transfer) :
    SameDevices s (bufferSync s transfers).2 := by
  unfold bufferSync
  exact syncLoop transfers _ s

theorem invalidateEntry (s : System) (device : DeviceAddress) (index : Index)
    (transfer : Transfer) : SameDevices s (bufferInvalidateEntry s device index transfer).2 := by
  unfold bufferInvalidateEntry
  split_ifs
  · exact refl s
  · have hwrite := writeBack s index transfer
    cases hresult : bufferWriteBack s index transfer with
    | mk succeeded s' =>
        rw [hresult] at hwrite
        cases succeeded with
        | false => exact hwrite
        | true =>
            exact hwrite.trans ((unlink s' index).trans ((putBuffer _ index _).trans (demote _ _)))

theorem invalidateLoop (device : DeviceAddress) (transfers : Index → Transfer)
    (indices : List Index) (s : System) :
    SameDevices s (bufferInvalidateLoop device transfers indices s).2 := by
  induction indices generalizing s with
  | nil => exact refl s
  | cons index rest ih => exact (invalidateEntry s device index _).trans (ih _)

theorem invalidateDevice (s : System) (device : Option DeviceAddress)
    (transfers : Index → Transfer) :
    SameDevices s (bufferInvalidateDevice s device transfers).2 := by
  unfold bufferInvalidateDevice
  cases device with
  | none => exact refl s
  | some d =>
      dsimp only
      split_ifs
      · exact refl s
      · exact invalidateLoop d transfers _ s

theorem step (history : History) (operation : Operation) :
    SameDevices history.system (history.step operation).system := by
  cases operation with
  | get device block writeBack read => exact get _ device block writeBack read
  | write index change => exact write _ index change
  | release buffer => exact release _ buffer
  | flush buffer transfer =>
      cases buffer with
      | none => exact refl _
      | some index => exact writeBack _ index transfer
  | sync transfers =>
      dsimp only [History.step]
      exact sync _ transfers
  | invalidateDevice device transfers => exact invalidateDevice _ device transfers

theorem run (history : History) (operations : List Operation) :
    SameDevices history.system (history.run operations).system := by
  induction operations generalizing history with
  | nil => exact refl _
  | cons operation rest ih => exact (step history operation).trans (ih _)

theorem initialiseLoop (indices : List Index) (s : System) :
    (bufferInitialiseLoop indices s).devices = s.devices := by
  induction indices generalizing s with
  | nil => rfl
  | cons index rest ih =>
      rw [bufferInitialiseLoop, ih, (touch _ index).devices]
      rfl

end SameDevices

theorem Sound.get_isSome_iff {s : System} {written : Written} (h : Sound s written)
    (hready : s.ready = true) {d : DeviceAddress} {b : UInt64} {read : Transfer}
    (hreadable : Readable s d b read) (writeBack : Transfer) :
    (bufferGet s (some d) b writeBack read).1.isSome = true ↔
      (∃ i, Holds s i d b) ∨ ∃ i, NextClaimed s i ∧ Reusable s i writeBack := by
  rw [← bufferClaim_isSome_iff h.recency]
  unfold bufferGet
  rcases h.find d b with ⟨index, hfind, hholds⟩ | ⟨hfind, hnone⟩
  · simp only [hready, hreadable.blockSize, hfind]
    simpa using Or.inl ⟨index, hholds⟩
  · have hclaim := SameDevices.claim s writeBack
    have habsent : ¬ ∃ i, Holds s i d b := fun ⟨i, hi⟩ ↦ hnone i hi
    simp only [hready, hreadable.blockSize, hfind, habsent, false_or]
    cases hresult : bufferClaim s writeBack with
    | mk claimed s' =>
        rw [hresult] at hclaim
        cases claimed with
        | none => simp
        | some index =>
            have hadmits : blockAdmits s' (some d) b false ≠ none := by
              have hsame : s'.devices = s.devices := hclaim.devices
              have hadmitted := hreadable.admitted
              unfold blockAdmits at hadmitted ⊢
              rwa [hsame]
            obtain ⟨address, haddress⟩ := Option.ne_none_iff_exists'.mp hadmits
            simp [bufferFill, blockRead, haddress, hreadable.succeeds]

theorem bufferInitialise_devices (s : System) : (bufferInitialise s).devices = s.devices := by
  unfold bufferInitialise
  dsimp only
  rw [SameDevices.initialiseLoop]

theorem History.run_sound (s : System) (operations : List Operation) :
    Sound ((History.start s).run operations).system ((History.start s).run operations).written := by
  apply Sound.run
  exact Sound.initialise s

theorem History.run_ready (s : System) (operations : List Operation) :
    ((History.start s).run operations).system.ready = true :=
  (SameDevices.run (History.start s) operations).ready

theorem History.run_devices (s : System) (operations : List Operation) :
    ((History.start s).run operations).system.devices = s.devices :=
  (SameDevices.run (History.start s) operations).devices.trans (bufferInitialise_devices s)

/-- In every state the cache can reach, `BufferGet` of a block that its own
device can read answers with an entry holding the block exactly when the block
is held already or the least recently used of the entries nobody holds is
unused, clean or can be written back. -/
theorem bufferGet_available_iff (s : System) (operations : List Operation) (d : DeviceAddress)
    (b : UInt64) (writeBack read : Transfer)
    (hreadable : Readable ((History.start s).run operations).system d b read) :
    (∃ i s', bufferGet ((History.start s).run operations).system (some d) b writeBack read =
        (some i, s') ∧ Holds s' i d b) ↔
      (∃ i, Holds ((History.start s).run operations).system i d b) ∨
        ∃ i, NextClaimed ((History.start s).run operations).system i ∧
          Reusable ((History.start s).run operations).system i writeBack := by
  have hsound := History.run_sound s operations
  rw [← hsound.get_isSome_iff (History.run_ready s operations) hreadable writeBack]
  constructor
  · rintro ⟨i, s', hget, -⟩
    simp [hget]
  · intro hsome
    obtain ⟨i, hi⟩ := Option.isSome_iff_exists.mp hsome
    obtain ⟨d', hd, hholds⟩ := (hsound.get (some d) b writeBack read).holds i hi
    cases hd
    exact ⟨i, _, Prod.ext hi rfl, hholds⟩

def plainDevice : BlockDevice :=
  { blockSize := bufferBlockSize, blockCount := 2000, readOnly := false, registered := true }

/-- The tables before `BufferInitialise`, all the devices being plain. -/
def plainSystem : System where
  table _ := { device := none, block := 0, data := fun _ ↦ 0, references := 0, valid := false,
               dirty := false }
  entries _ := { hashNext := none, older := none, newer := none, linked := false, listed := false }
  buckets _ := none
  newest := none
  oldest := none
  ready := false
  devices _ := plainDevice
  medium _ _ := fun _ ↦ 0

theorem plainSystem_readable (operations : List Operation) {d : DeviceAddress} {b : UInt64}
    (hb : b < 2000) : Readable ((History.start plainSystem).run operations).system d b
      .succeeded := by
  have hdevices : ((History.start plainSystem).run operations).system.devices d = plainDevice := by
    rw [History.run_devices]
    rfl
  have hlarge : ¬ (2000 : UInt64) ≤ b := UInt64.not_le.mpr hb
  have hleft : ¬ 2000 - b < 1 := by
    rw [UInt64.lt_iff_toNat_lt, UInt64.toNat_sub_of_le _ _ (UInt64.le_of_lt hb)]
    have := UInt64.lt_iff_toNat_lt.mp hb
    simp at this ⊢
    omega
  refine ⟨by rw [hdevices]; rfl, ?_, rfl⟩
  simp [blockAdmits, hdevices, plainDevice, hlarge, hleft]

/-- The first request of all is answered. -/
theorem bufferGet_available_iff_start :
    (∃ i s', bufferGet ((History.start plainSystem).run []).system (some 1) 5 .succeeded
        .succeeded = (some i, s') ∧ Holds s' i 1 5) ↔
      (∃ i, Holds ((History.start plainSystem).run []).system i 1 5) ∨
        ∃ i, NextClaimed ((History.start plainSystem).run []).system i ∧
          Reusable ((History.start plainSystem).run []).system i .succeeded :=
  bufferGet_available_iff plainSystem [] 1 5 .succeeded .succeeded
    (plainSystem_readable [] (by decide))

def sweptDevice (k : ℕ) : DeviceAddress := if k = 0 then 0 else 1

def sweep (n : ℕ) : List Operation :=
  (List.range n).map fun k ↦ .get (some (sweptDevice k)) k.toUInt64 .succeeded .succeeded

def afterSweep : List Operation :=
  sweep 64 ++ [.write 0 id, .release (some 0), .release (some 1)]

/-- The first `k` requests of the sweep have been answered, by the entries in
their order; each is still held. -/
structure Swept (s : System) (k : ℕ) : Prop where
  recency : IsRecency s
    (((List.finRange bufferCapacity).take k).reverse ++
      ((List.finRange bufferCapacity).drop k).reverse)
  unused : ∀ i : Index, k ≤ i.val → (s.table i).valid = false ∧ (s.table i).references = 0
  used : ∀ i : Index, i.val < k → (s.table i).valid = true ∧ (s.table i).references = 1 ∧
    (s.table i).dirty = false ∧ (s.table i).device = some (sweptDevice i) ∧
      (s.table i).block = i.val.toUInt64

theorem IsRecency.touch {s : System} {before after : List Index} {index : Index}
    (h : IsRecency s (before ++ index :: after)) :
    IsRecency (bufferTouch s index) (index :: (before ++ after)) := by
  have htouch : bufferTouch (bufferDetach s index) index = bufferTouch s index := by
    simp only [bufferTouch, bufferDetach_detach]
  rw [← htouch]
  exact h.detach.touch_of_unlisted (bufferDetach_listed s index)

theorem IsRecency.of_entries_eq {s s' : System} {cells : List Index} (h : IsRecency s cells)
    (hentries : s'.entries = s.entries) (hnewest : s'.newest = s.newest)
    (holdest : s'.oldest = s.oldest) : IsRecency s' cells := by
  have holder : s'.older = s.older := by funext i; simp only [System.older, hentries]
  have hnewer : s'.newer = s.newer := by funext i; simp only [System.newer, hentries]
  have hlisted : s'.listed = s.listed := by funext i; simp only [System.listed, hentries]
  refine ⟨h.nodup, ?_, ?_⟩
  · rw [holder, hnewer, hnewest, holdest]
    exact h.deque
  · rw [hlisted]
    exact h.listed

theorem Sound.get_unused {s : System} {written : Written} (h : Sound s written)
    (hready : s.ready = true) {d : DeviceAddress} {b : UInt64} (writeBack : Transfer)
    (hreadable : Readable s d b .succeeded) (hnone : ∀ i, ¬ Holds s i d b) {i : Index}
    {newer : List Index} (hrecency : IsRecency s (newer ++ [i]))
    (hfree : (s.table i).references = 0) (hinvalid : (s.table i).valid = false) :
    ∃ s', bufferGet s (some d) b writeBack .succeeded = (some i, s') ∧
      IsRecency s' (i :: newer) ∧ (∀ j, j ≠ i → s'.table j = s.table j) ∧
        s'.table i = { device := some d, block := b, data := s.medium d b, references := 1,
                       valid := true, dirty := false } := by
  have hfind : bufferFind s (some d) b = none := by
    rcases h.find d b with ⟨j, -, hj⟩ | ⟨hfind, -⟩
    · exact absurd hj (hnone j)
    · exact hfind
  have hfollow := NextClaimed.follow_eq (s := s) (i := i)
    ⟨newer, [], hrecency, hfree, by simp⟩
  obtain ⟨address, hadmits⟩ := Option.ne_none_iff_exists'.mp hreadable.admitted
  obtain rfl := blockAdmits_eq hadmits
  let buffer : Buffer := { device := some address, block := b, data := s.medium address b,
                           references := 1, valid := true, dirty := false }
  let s₁ := s.putBuffer i (emptied (s.table i))
  let s₂ := bufferLink (s₁.putBuffer i buffer) i
  have hadmits₁ : blockAdmits s₁ (some address) b false = some address := hadmits
  have hclaim : bufferClaim s writeBack = (some i, s₁) := by
    rw [bufferClaim, hfollow]
    simp [hinvalid, s₁]
  have hfill : bufferFill s₁ i (some address) b .succeeded = (some i, bufferTouch s₂ i) := by
    rw [bufferFill, blockRead, hadmits₁]
    rfl
  have hget : bufferGet s (some address) b writeBack .succeeded = (some i, bufferTouch s₂ i) := by
    simp only [bufferGet, hready, hreadable.blockSize, hfind, hclaim, hfill]
    simp
  have htable : (bufferTouch s₂ i).table = (s₁.putBuffer i buffer).table :=
    ((SameButRecency.refl s₂).touch i).table
  refine ⟨_, hget, ?_, fun j hj ↦ ?_, ?_⟩
  · have hlisted : IsRecency (s₁.putBuffer i buffer) (newer ++ [i]) :=
      hrecency.of_entries_eq rfl rfl rfl
    simpa using (hlisted.of_same (SameButChains.link _ i)).touch
  · simp [htable, s₁, System.putBuffer, hj]
  · simp [htable, s₁, System.putBuffer, buffer]

theorem Initialised.swept {s : System}
    (h : Initialised s (List.finRange bufferCapacity).reverse) (ready : Bool) :
    Swept { s with ready := ready } 0 := by
  refine ⟨?_, fun i _ ↦ ?_, fun i hi ↦ absurd hi (Nat.not_lt_zero _)⟩
  · rw [List.take_zero, List.drop_zero, List.reverse_nil, List.nil_append]
    exact ⟨h.recency.nodup, h.recency.deque, h.recency.listed⟩
  · obtain ⟨hvalid, -, hreferences, -⟩ := h.empty i (by simp)
    exact ⟨hvalid, hreferences⟩

theorem Swept.start (s : System) : Swept (bufferInitialise s) 0 :=
  (Initialised.whole s).swept true

theorem Swept.not_holds {s : System} {k : ℕ} (h : Swept s k) (hk : k < bufferCapacity)
    (i : Index) : ¬ Holds s i (sweptDevice k) k.toUInt64 := by
  rintro ⟨hvalid, -, hblock⟩
  by_cases hi : i.val < k
  · have hsame := congrArg UInt64.toNat ((h.used i hi).2.2.2.2.symm.trans hblock)
    have hcapacity : bufferCapacity < 2 ^ 64 := by decide
    simp only [Nat.toUInt64, UInt64.toNat_ofNat'] at hsame
    omega
  · rw [(h.unused i (not_lt.mp hi)).1] at hvalid
    cases hvalid

theorem Swept.step {s : System} {written : Written} {k : ℕ} (h : Swept s k)
    (hsound : Sound s written) (hready : s.ready = true) (hk : k < bufferCapacity)
    (hreadable : Readable s (sweptDevice k) k.toUInt64 .succeeded) :
    Swept (bufferGet s (some (sweptDevice k)) k.toUInt64 .succeeded .succeeded).2 (k + 1) := by
  have hlength : k < (List.finRange bufferCapacity).length := by simpa using hk
  have hdrop : (List.finRange bufferCapacity).drop k =
      ⟨k, hk⟩ :: (List.finRange bufferCapacity).drop (k + 1) := by
    rw [List.drop_eq_getElem_cons hlength]
    simp
  have htake : (List.finRange bufferCapacity).take (k + 1) =
      (List.finRange bufferCapacity).take k ++ [⟨k, hk⟩] := by
    rw [List.take_add_one, List.getElem?_eq_getElem hlength]
    simp
  have hrecency := h.recency
  rw [hdrop, List.reverse_cons, ← List.append_assoc] at hrecency
  obtain ⟨hinvalid, hfree⟩ := h.unused ⟨k, hk⟩ le_rfl
  obtain ⟨s', hget, hrecency', hother, hself⟩ :=
    hsound.get_unused hready .succeeded hreadable (h.not_holds hk) hrecency hfree hinvalid
  rw [hget]
  refine ⟨?_, fun i hi ↦ ?_, fun i hi ↦ ?_⟩
  · rw [htake]
    simpa using hrecency'
  · have hne : i ≠ ⟨k, hk⟩ := by
      rintro rfl
      exact absurd hi (Nat.not_succ_le_self k)
    rw [hother i hne]
    exact h.unused i (Nat.le_of_succ_le hi)
  · rcases Nat.lt_succ_iff_lt_or_eq.mp hi with hlt | heq
    · have hne : i ≠ ⟨k, hk⟩ := by
        rintro rfl
        simp at hlt
      rw [hother i hne]
      exact h.used i hlt
    · have hi' : i = ⟨k, hk⟩ := Fin.ext heq
      subst hi'
      rw [hself]
      exact ⟨rfl, rfl, rfl, rfl, rfl⟩

theorem swept_sweep {n : ℕ} (hn : n ≤ bufferCapacity) :
    Swept ((History.start plainSystem).run (sweep n)).system n := by
  induction n with
  | zero => exact Swept.start plainSystem
  | succ k ih =>
      have hk : k < bufferCapacity := hn
      have hrun : (History.start plainSystem).run (sweep (k + 1)) =
          ((History.start plainSystem).run (sweep k)).step
            (.get (some (sweptDevice k)) k.toUInt64 .succeeded .succeeded) := by
        simp [sweep, History.run, List.range_succ]
      rw [hrun]
      refine (ih hk.le).step (History.run_sound _ _) (History.run_ready _ _) hk
        (plainSystem_readable _ ?_)
      have hcapacity : bufferCapacity < 2000 := by decide
      rw [UInt64.lt_iff_toNat_lt]
      simp
      omega

structure SweptAside (s : System) : Prop where
  next : NextClaimed s 0
  dirty : (s.table 0).valid = true ∧ (s.table 0).dirty = true ∧ (s.table 0).device = some 0
  clean : (s.table 1).references = 0 ∧ (s.table 1).dirty = false
  absent : ∀ i, ¬ Holds s i 1 64

theorem Swept.aside {s : System} (h : Swept s bufferCapacity) :
    SweptAside (bufferRelease (bufferRelease (bufferWrite s 0 id) (some 0)) (some 1)) := by
  obtain ⟨hvalid₀, hheld₀, -, hdevice₀, -⟩ := h.used 0 (by decide)
  obtain ⟨hvalid₁, hheld₁, hdirty₁, -, -⟩ := h.used 1 (by decide)
  let s₁ := s.putBuffer 0 { s.table 0 with dirty := true }
  have hwrite : bufferWrite s 0 id = s₁ := by
    simp [bufferWrite, bufferMarkDirty, bufferModify, System.putBuffer, hvalid₀, s₁]
  let s₂ := s₁.putBuffer 0 { s₁.table 0 with references := 0 }
  have hfirst : bufferRelease s₁ (some 0) = s₂ := by
    simp [bufferRelease, System.putBuffer, hheld₀, s₁, s₂]
  let s₃ := s₂.putBuffer 1 { s₂.table 1 with references := 0 }
  have hsecond : bufferRelease s₂ (some 1) = s₃ := by
    simp [bufferRelease, System.putBuffer, hheld₁, s₁, s₂, s₃]
  rw [hwrite, hfirst, hsecond]
  have hother : ∀ i, (s₃.table i).valid = (s.table i).valid ∧
      (s₃.table i).block = (s.table i).block := by
    intro i
    by_cases h₁ : i = 1
    · subst h₁
      simp [s₁, s₂, s₃, System.putBuffer]
    · by_cases h₀ : i = 0
      · subst h₀
        simp [s₁, s₂, s₃, System.putBuffer]
      · simp [s₁, s₂, s₃, System.putBuffer, h₀, h₁]
  refine ⟨⟨((List.finRange bufferCapacity).drop 1).reverse, [], ?_, ?_, by simp⟩, ?_, ?_, ?_⟩
  · have hrecency : IsRecency s₃ _ := h.recency.of_entries_eq rfl rfl rfl
    have hcells : (List.finRange bufferCapacity) = 0 :: (List.finRange bufferCapacity).drop 1 := by
      decide
    rw [List.take_of_length_le (by simp), List.drop_eq_nil_of_le (by simp), List.reverse_nil,
      List.append_nil, hcells, List.reverse_cons] at hrecency
    exact hrecency
  · simp [s₁, s₂, s₃, System.putBuffer]
  · simpa [s₁, s₂, s₃, System.putBuffer, hvalid₀, sweptDevice] using hdevice₀
  · simpa [s₁, s₂, s₃, System.putBuffer] using hdirty₁
  · rintro i ⟨-, -, hblock⟩
    rw [(hother i).2, (h.used i i.isLt).2.2.2.2] at hblock
    have hsame := congrArg UInt64.toNat hblock
    have hlt : i.val < 64 := i.isLt
    simp only [Nat.toUInt64, UInt64.toNat_ofNat'] at hsame
    have h64 : (64 : UInt64).toNat = 64 := rfl
    omega

theorem SweptAside.get_eq_none {s : System} {written : Written} (h : SweptAside s)
    (hsound : Sound s written) (hready : s.ready = true) (hreadable : Readable s 1 64 .succeeded)
    (left : Sector) : (bufferGet s (some 1) 64 (.failed left) .succeeded).1 = none := by
  rw [← Option.not_isSome_iff_eq_none, hsound.get_isSome_iff hready hreadable]
  rintro (⟨i, hi⟩ | ⟨i, hnext, hreusable⟩)
  · exact h.absent i hi
  · have hi : i = 0 := Option.some.inj (hnext.follow_eq.symm.trans h.next.follow_eq)
    subst hi
    rcases hreusable with hinvalid | hclean | ⟨-, hsucceeded⟩
    · rw [h.dirty.1] at hinvalid
      cases hinvalid
    · rw [h.dirty.2.1] at hclean
      cases hclean
    · cases hsucceeded

theorem History.run_aside (history : History) (operations : List Operation) :
    (history.run (operations ++ [.write 0 id, .release (some 0), .release (some 1)])).system =
      bufferRelease (bufferRelease (bufferWrite (history.run operations).system 0 id) (some 0))
        (some 1) := by
  simp only [History.run, List.foldl_append, List.foldl_cons, List.foldl_nil]
  rfl

/-- Sixty-four blocks have been asked for; the oldest entry is a modified block
of the device at 0, and the next is unmodified and held by nobody.  While the
device at 0 fails its writes, no further block of the device at 1 can be had. -/
theorem bufferGet_behind_failing_device :
    ((((History.start plainSystem).run afterSweep).system.table 1).references = 0 ∧
        (((History.start plainSystem).run afterSweep).system.table 1).dirty = false) ∧
      (((History.start plainSystem).run afterSweep).system.table 0).device = some 0 ∧
        Readable ((History.start plainSystem).run afterSweep).system 1 64 .succeeded ∧
          ∀ left, (bufferGet ((History.start plainSystem).run afterSweep).system (some 1) 64
            (.failed left) .succeeded).1 = none := by
  have haside : SweptAside ((History.start plainSystem).run afterSweep).system := by
    rw [afterSweep, History.run_aside]
    exact (swept_sweep le_rfl).aside
  have hreadable := plainSystem_readable afterSweep (d := 1) (b := 64) (by decide)
  exact ⟨haside.clean, haside.dirty.2.2, hreadable,
    haside.get_eq_none (History.run_sound _ _) (History.run_ready _ _) hreadable⟩

end OxysOS.Block
