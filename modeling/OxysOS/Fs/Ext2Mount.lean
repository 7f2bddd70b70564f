import Mathlib.Data.Nat.Notation
import OxysOS.Fs.Vfs.Standing

/-!
# An EXT2 volume as a mount

The parsed superblock of `include/oxys/fs/ext2.h`, and the two operations of
`kernel/fs/ext2_vfs.c` that attach a volume to a mount and release it.  A mount
holds the address of the parsed superblock in the kernel heap; the heap, the
devices and the buffer cache may fail any operation whenever it is called.
-/

namespace OxysOS.Fs

def ext2RootInode : ℕ := 2

def ext2ValidFs : UInt16 := 1

/-- `Ext2Superblock`, without the fields that are only reported. -/
structure Ext2Superblock where
  inodeCount : ℕ
  blockCount : ℕ
  freeBlockCount : ℕ
  freeInodeCount : ℕ
  firstDataBlock : ℕ
  blockSize : ℕ
  blocksPerGroup : ℕ
  inodesPerGroup : ℕ
  mountCount : UInt16
  state : UInt16
  revision : ℕ
  firstInode : ℕ
  inodeSize : ℕ
  featureIncompatible : ℕ
  groupCount : ℕ
  sectorsPerBlock : ℕ
  readOnly : Bool

end OxysOS.Fs

namespace OxysOS.Fs

open OxysOS.Library OxysOS.Mm OxysOS.Block Action

variable {ω κ : Type}

/-- What `ext2_vfs.c` calls of the heap, the format and the buffer cache, its own
operations upon names and contents as they may be, and what else the layer
calls. -/
structure Ext2Medium (ω κ : Type) where
  kernelAllocateZeroed : ω → Option κ × ω
  kernelFree : κ → ω → ω
  volume : ω → κ → Ext2Superblock
  putVolume : κ → Ext2Superblock → ω → ω
  ext2ReadSuperblock : DeviceAddress → κ → ω → Bool × ω
  ext2VerifyGroupDescriptors : DeviceAddress → κ → ω → Bool × ω
  ext2WriteSuperblock : DeviceAddress → κ → ω → Bool × ω
  bufferSync : ω → Bool × ω
  names : VfsFilesystemOperations ω κ
  allocate : ω → Bool × ω
  blockFindByName : ω → Name → Option DeviceAddress

def Ext2Superblock.opened (superblock : Ext2Superblock) : Ext2Superblock :=
  { superblock with
    state := superblock.state &&& ~~~ext2ValidFs
    mountCount :=
      if superblock.mountCount < 0xFFFF then superblock.mountCount + 1
      else superblock.mountCount }

def Ext2Superblock.closed (superblock : Ext2Superblock) : Ext2Superblock :=
  { superblock with state := superblock.state ||| ext2ValidFs }

def ext2MarkOpen (medium : Ext2Medium ω κ) (device : DeviceAddress) (volume : κ) (world : ω) :
    Bool × ω :=
  let (written, world) :=
    medium.ext2WriteSuperblock device volume
      (medium.putVolume volume (medium.volume world volume).opened world)
  if written then medium.bufferSync world else (false, world)

/-- The end of `Ext2VfsMount`, the volume having been read and verified. -/
def ext2VfsOpenVolume (medium : Ext2Medium ω κ) (device : DeviceAddress) (volume : κ)
    (world : ω) : Except VfsError Unit × MountContents κ × ω :=
  let superblock := medium.volume world volume
  let contents : MountContents κ :=
    { context := some volume
      rootNumber := UInt64.ofNat ext2RootInode
      blockSize := UInt32.ofNat superblock.blockSize
      readOnly := superblock.readOnly }
  if superblock.readOnly then (.ok (), contents, world)
  else
    match ext2MarkOpen medium device volume world with
    | (true, world) => (.ok (), contents, world)
    | (false, world) =>
        (.error .medium, { contents with context := none }, medium.kernelFree volume world)

def ext2VfsMount (medium : Ext2Medium ω κ) (mount : VfsMount κ) (device : DeviceAddress)
    (readOnly : Bool) (world : ω) : Except VfsError Unit × MountContents κ × ω :=
  match medium.kernelAllocateZeroed world with
  | (none, world) => (.error .noResource, mount.toMountContents, world)
  | (some volume, world) =>
      match medium.ext2ReadSuperblock device volume world with
      | (false, world) => (.error .medium, mount.toMountContents, medium.kernelFree volume world)
      | (true, world) =>
          match medium.ext2VerifyGroupDescriptors device volume world with
          | (false, world) =>
              (.error .medium, mount.toMountContents, medium.kernelFree volume world)
          | (true, world) =>
              ext2VfsOpenVolume medium device volume
                (if readOnly then
                  medium.putVolume volume { medium.volume world volume with readOnly := true } world
                else world)

def ext2MarkClean (medium : Ext2Medium ω κ) (device : DeviceAddress) (volume : κ) (world : ω) :
    Bool × ω :=
  if (medium.volume world volume).readOnly then (true, world)
  else
    medium.ext2WriteSuperblock device volume
      (medium.putVolume volume (medium.volume world volume).closed world)

/-- `Ext2VfsUnmount`.  The volume is released whether or not it could be
written. -/
def ext2VfsUnmount (medium : Ext2Medium ω κ) (mount : VfsMount κ) (world : ω) :
    Except VfsError Unit × MountContents κ × ω :=
  match mount.context with
  | none => (.error .invalid, mount.toMountContents, world)
  | some volume =>
      let (written, world) := ext2MarkClean medium mount.device volume world
      let (synced, world) := medium.bufferSync world
      (if written && synced then .ok () else .error .medium,
        { mount.toMountContents with context := none }, medium.kernelFree volume world)

def ext2VfsSync (medium : Ext2Medium ω κ) (_ : VfsMount κ) (world : ω) :
    Except VfsError Unit × ω :=
  let (synced, world) := medium.bufferSync world
  (if synced then .ok () else .error .medium, world)

def ext2VfsReleaseNode (medium : Ext2Medium ω κ) (_ : VfsMount κ) (node : VfsNode κ) (world : ω) :
    ω :=
  match node.context with
  | none => world
  | some inode => medium.kernelFree inode world

def ext2VfsOperations (medium : Ext2Medium ω κ) : VfsFilesystemOperations ω κ :=
  { medium.names with
    mount := ext2VfsMount medium
    unmount := ext2VfsUnmount medium
    releaseNode := some (ext2VfsReleaseNode medium)
    sync := some (ext2VfsSync medium) }

def ext2Beneath (medium : Ext2Medium ω κ) : Beneath ω κ where
  operations _ := ext2VfsOperations medium
  allocate := medium.allocate
  bufferSync := medium.bufferSync
  blockFindByName := medium.blockFindByName

variable {medium : Ext2Medium ω κ} {s t : Vfs ω κ} {m k : MountIndex} {n : NodeIndex}

theorem ext2VfsOpenVolume_context {device : DeviceAddress} {volume : κ} {world world' : ω}
    {contents : MountContents κ}
    (h : ext2VfsOpenVolume medium device volume world = (.ok (), contents, world')) :
    contents.context = some volume := by
  unfold ext2VfsOpenVolume at h
  dsimp only at h
  split at h
  · cases h
    rfl
  · split at h
    · cases h
      rfl
    · cases h

theorem ext2_attachesContext :
    AttachesContext (ext2Beneath medium) := by
  intro i mount device readOnly world contents world' h
  change ext2VfsMount medium mount device readOnly world = _ at h
  unfold ext2VfsMount at h
  split at h
  · cases h
  · split at h
    · cases h
    · split at h
      · cases h
      · rw [ext2VfsOpenVolume_context h]
        rfl

structure Gone (s t : Vfs ω κ) (m : MountIndex) : Prop where
  free : (t.mount m).mounted = false
  uncovered : ∀ c, (s.mount m).covered = some c → (t.node c).inUse = true →
    (t.node c).mounted = none ∧ (t.node c).references + 1 = (s.node c).references
  released : ∀ c, (s.mount m).covered = some c → (s.node c).references = 1 →
    (t.node c).inUse = false
  device : vfsDeviceIsMounted t (s.mount m).device = false

structure Intact (s t : Vfs ω κ) (m : MountIndex) : Prop where
  mount_eq : t.mount m = s.mount m
  root : ∃ r, (t.mount m).root = some r ∧ (t.node r).inUse = true ∧ (t.node r).mount = m
  covered : ∀ c, (t.mount m).covered = some c →
    (t.node c).inUse = true ∧ (t.node c).mounted = some m
  context : (t.mount m).context.isSome

def UsableOrGone (s t : Vfs ω κ) : Prop :=
  ∀ m, (s.mount m).mounted = true → Gone s t m ∨ Intact s t m

theorem Balanced.intact (h : Balanced t) (hm : (t.mount m).mounted = true)
    (hmount : t.mount m = s.mount m) (hcontext : (t.mount m).context.isSome) : Intact s t m := by
  obtain ⟨r, hr⟩ := Option.isSome_iff_exists.mp (h.rooted m hm)
  refine ⟨hmount, ⟨r, hr, h.ledger.inUse_of_root h.tables hm hr, h.ledger.rootOf m r hm hr⟩,
    fun c hc ↦ ⟨h.ledger.inUse_of_covered h.tables hm hc, h.ledger.covering m c hm hc⟩, hcontext⟩

theorem Withdrawn.holders_covered (h : Withdrawn s m t) (hs : Balanced s)
    (hm : (s.mount m).mounted = true) (hidle : vfsMountIsBusy s m = false)
    (hc : (s.mount m).covered = some n) : holders t n + 1 = holders s n := by
  have hbound := hs.tables.mountBounded m hm
  have hmount : ∀ k, k ≠ m → t.mount k = s.mount k := fun k hk ↦ h.mount_eq hk
  have hfree := h.free
  have hcapacity : t.mounts.capacity = s.mounts.capacity := by
    rw [h.tables_eq.mounts]
    rfl
  have hnotRoot : (s.mount m).root ≠ some n := fun hroot ↦
    hs.covered_elsewhere hidle hm hc (hs.ledger.rootOf m n hm hroot)
  have hfiles : openFiles t n = openFiles s n := by
    have hfile : ∀ i, t.file i = s.file i := fun i ↦ by rw [h.tables_eq.file_eq]; rfl
    have hcount : t.files.capacity = s.files.capacity := by rw [h.tables_eq.files]; rfl
    simp only [openFiles, hfile, hcount]
  have hroots := tally_update (p := fun j ↦ (s.mount j).mounted = true ∧
    (s.mount j).root = some n) (q := fun j ↦ (t.mount j).mounted = true ∧
    (t.mount j).root = some n) hbound fun j hj ↦ by rw [hmount j hj]
  have hcovering := tally_update (p := fun j ↦ (s.mount j).mounted = true ∧
    (s.mount j).covered = some n) (q := fun j ↦ (t.mount j).mounted = true ∧
    (t.mount j).covered = some n) hbound fun j hj ↦ by rw [hmount j hj]
  simp only [hfree, Bool.false_eq_true, false_and, if_false, hm, hc, hnotRoot, and_false,
    and_self, if_true] at hroots hcovering
  unfold holders rootMounts coveringMounts
  rw [hcapacity, hfiles]
  omega

theorem Withdrawn.gone (h : Withdrawn s m t) (hs : Balanced s) (hstanding : Standing s)
    (hm : (s.mount m).mounted = true) (hidle : vfsMountIsBusy s m = false) : Gone s t m := by
  refine ⟨h.free, fun c hc huse ↦ ⟨?_, ?_⟩, fun c hc hlast ↦ ?_, ?_⟩
  · by_contra hmounted
    obtain ⟨k, hk⟩ := Option.ne_none_iff_exists'.mp hmounted
    obtain ⟨hstands, hcovers⟩ := h.ledger.crossing c k huse hk
    obtain ⟨hkm, hstands', hmount⟩ := h.back hstands
    rw [hmount] at hcovers
    have hnamed := hs.ledger.covering k c hstands' hcovers
    rw [hs.ledger.covering m c hm hc] at hnamed
    exact hkm (Option.some.inj hnamed).symm
  · have hbefore := hs.ledger.counted c (hs.ledger.inUse_of_covered hs.tables hm hc)
    have hafter := h.ledger.counted c huse
    have hholders := h.holders_covered hs hm hidle hc
    rw [Multiset.count_zero] at hbefore hafter
    omega
  · by_contra huse
    rw [Bool.not_eq_false] at huse
    have hbefore := hs.ledger.counted c (hs.ledger.inUse_of_covered hs.tables hm hc)
    have hafter := h.ledger.counted c huse
    have hpositive := h.ledger.positive c huse
    have hholders := h.holders_covered hs hm hidle hc
    rw [Multiset.count_zero] at hbefore hafter
    omega
  · rw [Bool.eq_false_iff]
    intro hdevice
    obtain ⟨k, hk, hsame⟩ := (vfsDeviceIsMounted_iff h.tables).mp hdevice
    obtain ⟨hkm, hk', hmount⟩ := h.back hk
    rw [hmount] at hsame
    exact hkm (hstanding.apart k m hk' hm hsame)

def ReleaseWritten (medium : Ext2Medium ω κ) (mount : VfsMount κ) (world : ω) : Prop :=
  ∀ volume, mount.context = some volume →
    (ext2MarkClean medium mount.device volume world).1 = true ∧
      (medium.bufferSync (ext2MarkClean medium mount.device volume world).2).1 = true

/-- If an unmount comes to release a volume, the volume and the buffer cache are
written. -/
def TeardownWritten (medium : Ext2Medium ω κ) (s : Vfs ω κ) (point : Option Name) : Prop :=
  ∀ m, ToWithdraw s point m →
    ReleaseWritten medium (s.mount m) (teardownWorld (ext2Beneath medium) s m)

/-- The states that calls bring the layer to, whatever fails beneath it in the
mean time, so long as every volume released is written. -/
inductive WrittenRun (medium : Ext2Medium ω κ) : Vfs ω κ → Prop where
  | initialised (s : Vfs ω κ) : WrittenRun medium (vfsInitialise s)
  | elapsed {s : Vfs ω κ} (world : ω) : WrittenRun medium s →
      WrittenRun medium { s with world := world }
  | called {s : Vfs ω κ} (call : VfsCall) : WrittenRun medium s →
      (∀ point, call = .unmount point → TeardownWritten medium s point) →
      WrittenRun medium (after (ext2Beneath medium) s call)

theorem unmountAnswer_contents :
    (unmountAnswer (ext2Beneath medium) s m).2.1.context = none := by
  change (ext2VfsUnmount medium (s.mount m) _).2.1.context = none
  unfold ext2VfsUnmount
  cases hcontext : (s.mount m).context with
  | none => exact hcontext
  | some volume => rfl

theorem unmountAnswer_ok_iff (hcontext : (s.mount m).context.isSome) :
    (unmountAnswer (ext2Beneath medium) s m).1 = .ok () ↔
      ReleaseWritten medium (s.mount m) (teardownWorld (ext2Beneath medium) s m) := by
  obtain ⟨volume, hvolume⟩ := Option.isSome_iff_exists.mp hcontext
  change (ext2VfsUnmount medium (s.mount m) _).1 = .ok () ↔ _
  generalize teardownWorld (ext2Beneath medium) s m = world
  unfold ext2VfsUnmount ReleaseWritten
  rw [hvolume]
  simp only [Option.some.injEq, forall_eq']
  cases (ext2MarkClean medium (s.mount m).device volume world).1 <;>
    cases (medium.bufferSync (ext2MarkClean medium (s.mount m).device volume world).2).1 <;> simp

theorem not_teardownFails (hs : Balanced s)
    (hcontext : ∀ m, (s.mount m).mounted = true → (s.mount m).context.isSome)
    {point : Option Name} (hwritten : TeardownWritten medium s point) :
    ¬TeardownFails (ext2Beneath medium) s (.unmount point) := by
  rintro ⟨m, code, hfound, hfails⟩
  have hm := outcome_mountToWithdraw_iff.mp hfound
  have hok := (unmountAnswer_ok_iff (hcontext m hm.mounted)).mpr (hwritten m hm)
  have hteardown : Triple (fun t ↦ t = s) (vfsWithdraw (ext2Beneath medium) m) _ _ :=
    triple_withdraw hs hm.mounted hm.idle
  have hrefused := ((hteardown s rfl).2 code hfails).1
  rw [hok] at hrefused
  cases hrefused

theorem WrittenRun.reachable (h : WrittenRun medium s) : Reachable (ext2Beneath medium) s := by
  induction h with
  | initialised s => exact .initialised s
  | elapsed world _ ih => exact .elapsed world ih
  | called call _ hwritten ih =>
      refine .called call ih ?_
      cases call with
      | unmount point =>
          exact not_teardownFails ih.balanced (ih.context ext2_attachesContext)
            (hwritten point rfl)
      | _ => exact id

/-- After an unmount every mount that stood is usable or gone exactly when what
the unmount released was written; otherwise the slot stands without a volume. -/
theorem WrittenRun.usableOrGone_iff (h : WrittenRun medium s) (point : Option Name) :
    UsableOrGone s (after (ext2Beneath medium) s (.unmount point)) ↔
      TeardownWritten medium s point := by
  have hreached := h.reachable
  have hs := hreached.balanced
  have hcontext : ∀ m, (s.mount m).mounted = true → (s.mount m).context.isSome :=
    hreached.context ext2_attachesContext
  change UsableOrGone s (outcome (vfsUnmount (ext2Beneath medium) point) s).2 ↔ _
  rcases outcome_unmount (ext2Beneath medium) s point with ⟨m, hm, heq⟩ | ⟨hnone, heq, -⟩
  · rw [heq]
    have hcondition : TeardownWritten medium s point ↔
        (unmountAnswer (ext2Beneath medium) s m).1 = .ok () := by
      rw [unmountAnswer_ok_iff (hcontext m hm.mounted)]
      refine ⟨fun hwritten ↦ hwritten m hm, fun hwritten k hk ↦ ?_⟩
      rwa [hk.unique hm]
    rw [hcondition]
    have hteardown : Triple (fun t ↦ t = s) (vfsWithdraw (ext2Beneath medium) m) _ _ :=
      triple_withdraw hs hm.mounted hm.idle
    rcases hteardown.cases rfl with
      ⟨_, t, hwithdraw, hok, hwithdrawn⟩ | ⟨code, t, hwithdraw, hrefused, hleft⟩
    · rw [hwithdraw]
      refine iff_of_true (fun k hk ↦ ?_) hok
      by_cases hkm : k = m
      · subst hkm
        exact Or.inl (hwithdrawn.gone hs hreached.standing hk hm.idle)
      · have hmount := hwithdrawn.mount_eq hkm
        refine Or.inr (hwithdrawn.toBalanced.intact ?_ hmount ?_)
        · rw [hmount]
          exact hk
        · rw [hmount]
          exact hcontext k hk
    · rw [hwithdraw]
      refine iff_of_false (fun husable ↦ ?_) ?_
      · rcases husable m hm.mounted with hgone | hintact
        · have hfree := hgone.free
          change (t.mount m).mounted = false at hfree
          rw [hleft] at hfree
          rw [hm.mounted] at hfree
          cases hfree
        · have hlost := hintact.context
          change (t.mount m).context.isSome = true at hlost
          rw [hleft] at hlost
          change (unmountAnswer (ext2Beneath medium) s m).2.1.context.isSome = true at hlost
          rw [unmountAnswer_contents] at hlost
          cases hlost
      · rw [hrefused]
        exact fun hok ↦ by cases hok
  · rw [heq]
    refine iff_of_true (fun k hk ↦ Or.inr ?_) fun m hm ↦ absurd ⟨m, hm⟩ hnone
    exact hs.intact hk rfl (hcontext k hk)

/-! ## A disk that comes to fail

One volume upon one disk, whose writes succeed until the disk fails. -/

structure FailingDisk where
  failed : Bool
  superblock : Ext2Superblock

def failingMedium : Ext2Medium FailingDisk Unit where
  kernelAllocateZeroed world := (some (), world)
  kernelFree _ world := world
  volume world _ := world.superblock
  putVolume _ superblock world := { world with superblock := superblock }
  ext2ReadSuperblock _ _ world := (!world.failed, world)
  ext2VerifyGroupDescriptors _ _ world := (!world.failed, world)
  ext2WriteSuperblock _ _ world := (!world.failed, world)
  bufferSync world := (!world.failed, world)
  names := flatOperations
  allocate world := (true, world)
  blockFindByName _ name := name.head?.map UInt8.toUInt64

def smallVolume : Ext2Superblock where
  inodeCount := 16
  blockCount := 64
  freeBlockCount := 32
  freeInodeCount := 4
  firstDataBlock := 1
  blockSize := 1024
  blocksPerGroup := 8192
  inodesPerGroup := 16
  mountCount := 0
  state := 1
  revision := 0
  firstInode := 11
  inodeSize := 128
  featureIncompatible := 0
  groupCount := 1
  sectorsPerBlock := 2
  readOnly := false

def diskMounted (failed : Bool) : Vfs FailingDisk Unit :=
  let registered := after (ext2Beneath failingMedium) (flatVfs ⟨false, smallVolume⟩)
    (.registerFilesystem (some [101]) 0)
  let mounted := after (ext2Beneath failingMedium) registered
    (.mountVolume (some [1]) (some [separator]) (some [101]) false)
  { mounted with world := { mounted.world with failed := failed } }

theorem diskMounted_run (failed : Bool) : WrittenRun failingMedium (diskMounted failed) := by
  refine .elapsed _ (.called _ (.called _ (.initialised _) ?_) ?_)
  · exact fun point h ↦ by cases h
  · exact fun point h ↦ by cases h

/-- An unmount that is written lets the mount go. -/
theorem usableOrGone_written :
    UsableOrGone (diskMounted false)
      (after (ext2Beneath failingMedium) (diskMounted false) (.unmount (some [separator]))) := by
  refine ((diskMounted_run false).usableOrGone_iff _).mpr fun m hm volume hvolume ↦ ?_
  have hslot : m = 0 := hm.unique ⟨_, rfl, by decide +kernel⟩
  subst hslot
  cases volume
  decide +kernel

/-- Upon a disk that has failed an unmount leaves a mount that stands and has
lost its volume. -/
theorem usableOrGone_fails :
    ¬ ∀ s, WrittenRun failingMedium s → ∀ point,
      UsableOrGone s (after (ext2Beneath failingMedium) s (.unmount point)) := by
  intro husable
  let t := after (ext2Beneath failingMedium) (diskMounted true) (.unmount (some [separator]))
  have hleft : (t.mount 0).mounted = true ∧ (t.mount 0).context = none := by decide +kernel
  rcases husable _ (diskMounted_run true) (some [separator]) 0 (by decide +kernel) with
    hgone | hintact
  · exact absurd (hgone.free.symm.trans hleft.1) Bool.false_ne_true
  · have hcontext := hintact.context
    rw [hleft.2] at hcontext
    cases hcontext

end OxysOS.Fs
