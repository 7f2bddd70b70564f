import OxysOS.Fs.Vfs.Layer

/-!
# The node cache

`kernel/fs/vfs/node.c`: a node comes into existence only through
`vfsNodeAcquire`, which searches before it allocates, and is released with its
last reference.
-/

namespace OxysOS.Fs

open OxysOS.Library OxysOS.Mm OxysOS.Block

variable {ω κ : Type}

def vfsNodeHold (index : NodeIndex) : VfsAction ω κ Unit :=
  modify fun s ↦ s.putNode index { s.node index with references := (s.node index).references + 1 }

def vfsNodeSlot (beneath : Beneath ω κ) : VfsAction ω κ NodeIndex := do
  let s ← get
  match s.nodes.find fun node ↦ !node.inUse with
  | some index => return index
  | none =>
      let (grown, world) := growth beneath s.nodes.chunkCount s.world
      if grown then
        set { s with nodes := s.nodes.grow .zero, world := world }
        return s.nodes.capacity
      else
        set { s with world := world }
        throw .noResource

def VfsNode.taken (mount : MountIndex) (number : UInt64) : VfsNode κ :=
  { VfsNode.zero with mount := mount, number := number, references := 1, inUse := true }

/-- The end of `VfsNodeAcquire`, no node standing for the file yet. -/
def vfsNodeRead (beneath : Beneath ω κ) (mount : MountIndex) (number : UInt64) :
    VfsAction ω κ NodeIndex := do
  let available ← vfsNodeSlot beneath
  modify fun s ↦ s.putNode available (VfsNode.taken mount number)
  let s ← get
  let operations := beneath.operations (s.mount mount).operations
  match ← Action.attempt (callNode available (operations.readNode number)) with
  | .ok _ => return available
  | .error code =>
      modify fun s ↦ s.putNode available { s.node available with inUse := false, references := 0 }
      throw code

def vfsNodeAcquire (beneath : Beneath ω κ) (mount : MountIndex) (number : UInt64) :
    VfsAction ω κ NodeIndex := do
  let s ← get
  match s.nodes.find fun node ↦ node.inUse && node.mount == mount && node.number == number with
  | some index =>
      vfsNodeHold index
      return index
  | none => vfsNodeRead beneath mount number

def vfsNodeRelease (beneath : Beneath ω κ) (node : Option NodeIndex) : VfsAction ω κ Unit := do
  match node with
  | none => return
  | some index =>
      let s ← get
      if !(s.node index).inUse || (s.node index).references == 0 then
        return
      else if 1 < (s.node index).references then
        set (s.putNode index { s.node index with references := (s.node index).references - 1 })
      else
        -- the last reference: the filesystem gives back its description first
        let released := { s.node index with references := 0 }
        let world :=
          match (beneath.operations (s.mountOf index).operations).releaseNode with
          | none => s.world
          | some releaseNode => releaseNode (s.mountOf index) released s.world
        set { s.putNode index { released with inUse := false, context := none, mounted := none } with
          world := world }

structure VfsAttributes where
  number : UInt64
  type : VfsNodeType
  permissions : UInt16
  uid : UInt16
  gid : UInt16
  size : UInt64
  linkCount : UInt64
  blockCount : UInt64
  accessTime : UInt32
  modifyTime : UInt32
  changeTime : UInt32
  blockSize : UInt32

def vfsNodeAttributes (s : Vfs ω κ) (index : NodeIndex) : VfsAttributes :=
  let node := s.node index
  { number := node.number
    type := node.type
    permissions := node.permissions
    uid := node.uid
    gid := node.gid
    size := node.size
    linkCount := node.linkCount
    blockCount := node.blockCount
    accessTime := node.accessTime
    modifyTime := node.modifyTime
    changeTime := node.changeTime
    blockSize := (s.mount node.mount).blockSize }

end OxysOS.Fs
