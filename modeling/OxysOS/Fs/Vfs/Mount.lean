import OxysOS.Fs.Vfs.Namespace

/-!
# The mount table

`kernel/fs/vfs/mount.c`: a volume is joined to the tree at the node its mount
covers, and is withdrawn when nothing upon it is held.
-/

namespace OxysOS.Fs

open OxysOS.Library OxysOS.Mm OxysOS.Block

variable {ω κ : Type}

def vfsInitialise (s : Vfs ω κ) : Vfs ω κ :=
  { s with
    filesystems := { s.filesystems with entry := fun _ ↦ ⟨[], 0, false⟩ }
    mounts := { s.mounts with entry := fun _ ↦ .zero }
    nodes := { s.nodes with entry := fun _ ↦ .zero }
    files := { s.files with entry := fun _ ↦ .zero }
    rootMount := none }

def vfsFindFilesystem (s : Vfs ω κ) (name : Name) : Option VfsFilesystem :=
  (s.filesystems.find fun filesystem ↦ filesystem.registered && filesystem.name == name).map
    s.filesystems.entry

/-- `VfsRegisterFilesystem`; the operations that are not optional are present
by their type. -/
def vfsRegisterFilesystem (beneath : Beneath ω κ) (name : Option Name) (operations : ℕ) :
    VfsAction ω κ Unit := do
  match name with
  | none => throw .invalid
  | some name =>
      let s ← get
      if name.length = 0 ∨ vfsTypeNameMaximum < name.length then throw .invalid
      else if (vfsFindFilesystem s name).isSome then throw .exists
      else
        match s.filesystems.find fun filesystem ↦ !filesystem.registered with
        | some index =>
            set { s with filesystems := s.filesystems.put index ⟨name, operations, true⟩ }
        | none =>
            let (grown, world) := growth beneath s.filesystems.chunkCount s.world
            if grown then
              set { s with
                filesystems := (s.filesystems.grow ⟨[], 0, false⟩).put s.filesystems.capacity
                  ⟨name, operations, true⟩,
                world := world }
            else
              set { s with world := world }
              throw .noResource

def vfsDeviceIsMounted (s : Vfs ω κ) (device : DeviceAddress) : Bool :=
  (s.mounts.find fun mount ↦ mount.mounted && mount.device == device).isSome

/-- The search of `VfsMountVolume` for a slot of the mount table. -/
def vfsFreeMount (beneath : Beneath ω κ) : VfsAction ω κ MountIndex := do
  let s ← get
  match s.mounts.find fun mount ↦ !mount.mounted with
  | some index => return index
  | none =>
      let (grown, world) := growth beneath s.mounts.chunkCount s.world
      if grown then
        set { s with mounts := s.mounts.grow .zero, world := world }
        return s.mounts.capacity
      else
        set { s with world := world }
        throw .noResource

def vfsCoveredNode (beneath : Beneath ω κ) (point : Name) :
    VfsAction ω κ (Option NodeIndex) := do
  let s ← get
  if s.rootMount.isNone then
    if point = [separator] then return none else throw .invalid
  else
    let covered ← vfsWalkFrom beneath none point true
    let s ← get
    if (s.node covered).type ≠ .directory then releaseAndRefuse beneath covered .notDirectory
    else if (s.node covered).mounted.isSome then releaseAndRefuse beneath covered .busy
    else return some covered

def VfsMount.prepared (point type : Name) (operations : ℕ) (device : DeviceAddress)
    (readOnly : Bool) : VfsMount κ :=
  { VfsMount.zero with
    point := point.take vfsPathMaximum
    type := type.take vfsTypeNameMaximum
    operations := operations
    device := device
    readOnly := readOnly }

def callMount (index : MountIndex)
    (operation : VfsMount κ → ω → Except VfsError Unit × MountContents κ × ω) :
    VfsAction ω κ Unit := do
  let s ← get
  let (answer, contents, world) := operation (s.mount index) s.world
  set { s.putMount index { s.mount index with toMountContents := contents } with world := world }
  match answer with
  | .ok _ => return
  | .error code => throw code

/-- The exit of `VfsMountVolume` for want of a root that is a directory. -/
def vfsAbandonMount (beneath : Beneath ω κ) (index : MountIndex) (covered : Option NodeIndex)
    (operations : VfsFilesystemOperations ω κ) (code : VfsError) : VfsAction ω κ Unit := do
  let _ ← Action.attempt (callMount index operations.unmount)
  modify fun s ↦ s.putMount index { s.mount index with mounted := false }
  vfsNodeRelease beneath covered
  modify fun s ↦ s.putMount index .zero
  throw code

def vfsStandMount (index : MountIndex) (covered : Option NodeIndex) (root : NodeIndex) :
    VfsAction ω κ Unit := do
  modify fun s ↦ s.putMount index { s.mount index with root := some root, covered := covered }
  match covered with
  | some covered => modify fun s ↦ s.putNode covered { s.node covered with mounted := some index }
  | none => modify fun s ↦ { s with rootMount := some index }

/-- The end of `VfsMountVolume`, with the slot and the covered node found. -/
def vfsRaiseMount (beneath : Beneath ω κ) (index : MountIndex) (covered : Option NodeIndex)
    (prepared : VfsMount κ) : VfsAction ω κ Unit := do
  let operations := beneath.operations prepared.operations
  modify fun s ↦ s.putMount index prepared
  match ← Action.attempt (callMount index fun mount world ↦
      operations.mount mount prepared.device prepared.readOnly world) with
  | .error code => do
      vfsNodeRelease beneath covered
      modify fun s ↦ s.putMount index .zero
      throw code
  | .ok _ => do
      modify fun s ↦ s.putMount index
        { s.mount index with readOnly := prepared.readOnly || (s.mount index).readOnly,
                             mounted := true }
      let s ← get
      match ← Action.attempt (vfsNodeAcquire beneath index (s.mount index).rootNumber) with
      | .error code => vfsAbandonMount beneath index covered operations code
      | .ok root => do
          let s ← get
          if (s.node root).type = .directory then vfsStandMount index covered root
          else do
            vfsNodeRelease beneath (some root)
            vfsAbandonMount beneath index covered operations .notDirectory

def vfsMountVolume (beneath : Beneath ω κ) (deviceName point type : Option Name)
    (readOnly : Bool) : VfsAction ω κ Unit := do
  match deviceName, point, type with
  | some deviceName, some point, some type =>
      let point ← vfsPathLength point
      let s ← get
      match vfsFindFilesystem s type, beneath.blockFindByName s.world deviceName with
      | none, _ => throw .unsupported
      | some _, none => throw .notFound
      | some filesystem, some device =>
          if vfsDeviceIsMounted s device then throw .busy
          else
            let index ← vfsFreeMount beneath
            let covered ← vfsCoveredNode beneath point
            vfsRaiseMount beneath index covered
              (VfsMount.prepared point type filesystem.operations device readOnly)
  | _, _, _ => throw .invalid

def vfsMountIsBusy (s : Vfs ω κ) (index : MountIndex) : Bool :=
  (s.files.find fun file ↦ file.isOpen &&
      file.node.any fun node ↦ (s.node node).mount == index).isSome ||
    ((List.range s.nodes.capacity).any fun node ↦
      (s.node node).inUse && (s.node node).mount == index &&
        (if (s.mount index).root == some node then decide (1 < (s.node node).references)
         else true)) ||
    ((List.range s.mounts.capacity).any fun other ↦
      (s.mount other).mounted && other != index &&
        (s.mount other).covered.any fun node ↦ (s.node node).mount == index)

/-- The mount `VfsUnmount` finds: the first that bears the point. -/
def vfsMountNamed (s : Vfs ω κ) (point : Name) : Option MountIndex :=
  s.mounts.find fun mount ↦ mount.mounted && mount.point == point

def vfsSyncMount (beneath : Beneath ω κ) (index : MountIndex) : VfsAction ω κ Unit := do
  let s ← get
  match (beneath.operations (s.mount index).operations).sync with
  | none => return
  | some sync => set { s with world := (sync (s.mount index) s.world).2 }

def vfsUncover (covered : Option NodeIndex) : VfsAction ω κ Unit :=
  match covered with
  | none => return
  | some covered => modify fun s ↦ s.putNode covered { s.node covered with mounted := none }

/-- The teardown of `VfsUnmount`, the mount being held by nothing. -/
def vfsWithdraw (beneath : Beneath ω κ) (index : MountIndex) : VfsAction ω κ Unit := do
  vfsSyncMount beneath index
  let s ← get
  let mount := s.mount index
  vfsNodeRelease beneath mount.root
  vfsUncover mount.covered
  callMount index (beneath.operations mount.operations).unmount
  vfsNodeRelease beneath mount.covered
  modify fun s ↦
    { s.putMount index .zero with
      rootMount := if s.rootMount = some index then none else s.rootMount }

/-- The beginning of `VfsUnmount`: the mount that is to be withdrawn. -/
def vfsMountToWithdraw (point : Option Name) : VfsAction ω κ MountIndex := do
  let point ← vfsPathLength point
  let s ← get
  match vfsMountNamed s point with
  | none => throw .notFound
  | some index => if vfsMountIsBusy s index then throw .busy else return index

def vfsUnmount (beneath : Beneath ω κ) (point : Option Name) : VfsAction ω κ Unit := do
  let index ← vfsMountToWithdraw point
  vfsWithdraw beneath index

end OxysOS.Fs
