import OxysOS.Block.Buffer
import OxysOS.Library.Action
import OxysOS.Mm.Table

/-!
# The state of the virtual filesystem layer

The tables of `kernel/fs/vfs/internal.h`, the node, the mount and the open
file of `vfs.h`, and the vector of operations one filesystem supplies.  What
lies beneath is a parameter: a state `ω` that the filesystems, the heap and the
devices share, and a type `κ` of the descriptions a filesystem attaches.

A table is addressed by index, and a string is its bytes before the terminator.
-/

namespace OxysOS.Fs

open OxysOS.Library OxysOS.Mm OxysOS.Block

abbrev NodeIndex := ℕ

abbrev MountIndex := ℕ

abbrev FileIndex := ℕ

abbrev PipeIndex := ℕ

abbrev Name := List UInt8

/-- `VFS_PATH_SEPARATOR` -/
def separator : UInt8 := 47

def dot : UInt8 := 46

def vfsNameMaximum : ℕ := 255

def vfsPathMaximum : ℕ := 1023

def vfsTypeNameMaximum : ℕ := 15

def vfsSymlinkMaximum : ℕ := 255

def vfsSymlinkDepthMaximum : ℕ := 8

def vfsPipeBufferSize : ℕ := 4096

inductive VfsNodeType where
  | unknown
  | regular
  | directory
  | symbolicLink
  | characterDevice
  | blockDevice
  | fifo
  | socket
  deriving DecidableEq, Repr

inductive VfsError where
  | none
  | notFound
  | exists
  | notDirectory
  | isDirectory
  | notEmpty
  | readOnly
  | invalid
  | tooLong
  | tooManyLinks
  | noSpace
  | noResource
  | busy
  | crossesMount
  | unsupported
  | medium
  | brokenPipe
  | interrupted
  deriving DecidableEq, Repr

structure NodeContents (κ : Type) where
  type : VfsNodeType
  permissions : UInt16
  uid : UInt16
  gid : UInt16
  size : UInt64
  linkCount : UInt64
  blockCount : UInt64
  accessTime : UInt32
  modifyTime : UInt32
  changeTime : UInt32
  context : Option κ

/-- `VfsNode`.  A reference is an open file, one of a mount's two, or one of a
walk in progress, so their number is bounded by the tables and cannot wrap. -/
structure VfsNode (κ : Type) extends NodeContents κ where
  mount : MountIndex
  number : UInt64
  references : ℕ
  mounted : Option MountIndex
  inUse : Bool

structure MountContents (κ : Type) where
  context : Option κ
  rootNumber : UInt64
  blockSize : UInt32
  readOnly : Bool

/-- `VfsMount`; the operations are those of a registered filesystem. -/
structure VfsMount (κ : Type) extends MountContents κ where
  point : Name
  type : Name
  operations : ℕ
  device : DeviceAddress
  root : Option NodeIndex
  covered : Option NodeIndex
  mounted : Bool

structure VfsFile where
  node : Option NodeIndex
  position : UInt64
  flags : UInt32
  holders : UInt32
  isOpen : Bool
  pipe : Option PipeIndex

structure VfsPipe where
  buffer : Fin vfsPipeBufferSize → UInt8
  readIndex : UInt64
  writeIndex : UInt64
  readers : UInt32
  writers : UInt32
  inUse : Bool

structure VfsFilesystem where
  name : Name
  operations : ℕ
  registered : Bool

/-! The entries of a zeroed chunk. -/

def VfsNode.zero {κ : Type} : VfsNode κ where
  type := .unknown
  permissions := 0
  uid := 0
  gid := 0
  size := 0
  linkCount := 0
  blockCount := 0
  accessTime := 0
  modifyTime := 0
  changeTime := 0
  context := none
  mount := 0
  number := 0
  references := 0
  mounted := none
  inUse := false

def VfsMount.zero {κ : Type} : VfsMount κ where
  context := none
  rootNumber := 0
  blockSize := 0
  readOnly := false
  point := []
  type := []
  operations := 0
  device := 0
  root := none
  covered := none
  mounted := false

def VfsFile.zero : VfsFile where
  node := none
  position := 0
  flags := 0
  holders := 0
  isOpen := false
  pipe := none

def VfsPipe.zero : VfsPipe where
  buffer := fun _ ↦ 0
  readIndex := 0
  writeIndex := 0
  readers := 0
  writers := 0
  inUse := false

abbrev NodeOperation (ω κ α : Type) :=
  VfsMount κ → VfsNode κ → ω → Except VfsError α × NodeContents κ × ω

/-- `VfsFilesystemOperations`, as far as the layer's naming operations call
upon it.  An operation a filesystem does not offer is absent. -/
structure VfsFilesystemOperations (ω κ : Type) where
  mount : VfsMount κ → DeviceAddress → Bool → ω → Except VfsError Unit × MountContents κ × ω
  unmount : VfsMount κ → ω → Except VfsError Unit × MountContents κ × ω
  readNode : UInt64 → NodeOperation ω κ Unit
  releaseNode : Option (VfsMount κ → VfsNode κ → ω → ω)
  lookup : Name → NodeOperation ω κ UInt64
  truncate : Option (UInt64 → NodeOperation ω κ Unit)
  readLink : Option (ℕ → NodeOperation ω κ Name)
  create : Option (Name → VfsNodeType → UInt16 → NodeOperation ω κ UInt64)
  createDirectory : Option (Name → UInt16 → NodeOperation ω κ UInt64)
  link : Option (Name → VfsNode κ → VfsMount κ → VfsNode κ → ω →
    Except VfsError Unit × NodeContents κ × NodeContents κ × ω)
  unlink : Option (Name → NodeOperation ω κ Unit)
  removeDirectory : Option (Name → NodeOperation ω κ Unit)
  sync : Option (VfsMount κ → ω → Except VfsError Unit × ω)

/-- Everything the layer calls that is not its own: the filesystems, the heap
that a table grows from, the buffer cache and the register of devices. -/
structure Beneath (ω κ : Type) where
  operations : ℕ → VfsFilesystemOperations ω κ
  allocate : ω → Bool × ω
  bufferSync : ω → Bool × ω
  blockFindByName : ω → Name → Option DeviceAddress

structure Vfs (ω κ : Type) where
  filesystems : GrowingTable VfsFilesystem
  mounts : GrowingTable (VfsMount κ)
  nodes : GrowingTable (VfsNode κ)
  files : GrowingTable VfsFile
  pipes : GrowingTable VfsPipe
  rootMount : Option MountIndex
  world : ω

abbrev VfsAction (ω κ α : Type) := Action (Vfs ω κ) VfsError α

variable {ω κ α : Type}

namespace Vfs

def node (s : Vfs ω κ) (index : NodeIndex) : VfsNode κ := s.nodes.entry index

def mount (s : Vfs ω κ) (index : MountIndex) : VfsMount κ := s.mounts.entry index

def file (s : Vfs ω κ) (index : FileIndex) : VfsFile := s.files.entry index

def mountOf (s : Vfs ω κ) (index : NodeIndex) : VfsMount κ := s.mount (s.node index).mount

def putNode (s : Vfs ω κ) (index : NodeIndex) (node : VfsNode κ) : Vfs ω κ :=
  { s with nodes := s.nodes.put index node }

def putMount (s : Vfs ω κ) (index : MountIndex) (mount : VfsMount κ) : Vfs ω κ :=
  { s with mounts := s.mounts.put index mount }

def putFile (s : Vfs ω κ) (index : FileIndex) (file : VfsFile) : Vfs ω κ :=
  { s with files := s.files.put index file }

def putPipe (s : Vfs ω κ) (index : PipeIndex) (pipe : VfsPipe) : Vfs ω κ :=
  { s with pipes := s.pipes.put index pipe }

end Vfs

def growth (beneath : Beneath ω κ) (chunkCount : ℕ) (world : ω) : Bool × ω :=
  if growingTableDirectoryCapacity ≤ chunkCount then (false, world)
  else beneath.allocate world

def callNode (index : NodeIndex) (operation : NodeOperation ω κ α) : VfsAction ω κ α := do
  let s ← get
  let (answer, contents, world) := operation (s.mountOf index) (s.node index) s.world
  set { s.putNode index { s.node index with toNodeContents := contents } with world := world }
  match answer with
  | .ok a => return a
  | .error code => throw code

end OxysOS.Fs
