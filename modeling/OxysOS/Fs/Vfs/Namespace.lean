import OxysOS.Fs.Vfs.File

/-!
# The operations that name a file

`kernel/fs/vfs/namespace.c`: each resolves a path, or the directory that holds
its last component, and acts through the node it then holds.
-/

namespace OxysOS.Fs

open OxysOS.Library OxysOS.Mm OxysOS.Block

variable {ω κ α : Type}

def vfsStatCommon (beneath : Beneath ω κ) (path : Option Name) (follow : Bool) :
    VfsAction ω κ VfsAttributes := do
  let node ← vfsResolveCounted beneath path follow
  let s ← get
  let attributes := vfsNodeAttributes s node
  vfsNodeRelease beneath (some node)
  return attributes

def vfsStat (beneath : Beneath ω κ) (path : Option Name) : VfsAction ω κ VfsAttributes :=
  vfsStatCommon beneath path true

def vfsStatLink (beneath : Beneath ω κ) (path : Option Name) : VfsAction ω κ VfsAttributes :=
  vfsStatCommon beneath path false

def actAndRelease (beneath : Beneath ω κ) (node : NodeIndex) (operation : NodeOperation ω κ α) :
    VfsAction ω κ α := do
  let outcome ← Action.attempt (callNode node operation)
  vfsNodeRelease beneath (some node)
  match outcome with
  | .error code => throw code
  | .ok a => return a

def vfsTruncate (beneath : Beneath ω κ) (path : Option Name) (size : UInt64) :
    VfsAction ω κ Unit := do
  let node ← vfsResolveCounted beneath path true
  let s ← get
  if (s.node node).type = .directory then releaseAndRefuse beneath node .isDirectory
  else if !vfsWritable s node then releaseAndRefuse beneath node .readOnly
  else
    match (beneath.operations (s.mountOf node).operations).truncate with
    | none => releaseAndRefuse beneath node .unsupported
    | some truncate => actAndRelease beneath node (truncate size)

def vfsReadLink (beneath : Beneath ω κ) (path : Option Name) (capacity : ℕ) :
    VfsAction ω κ Name := do
  if capacity = 0 then throw .invalid
  else
    let node ← vfsResolveCounted beneath path false
    let s ← get
    if (s.node node).type ≠ .symbolicLink then releaseAndRefuse beneath node .invalid
    else
      match (beneath.operations (s.mountOf node).operations).readLink with
      | none => releaseAndRefuse beneath node .unsupported
      | some readLink => actAndRelease beneath node (readLink capacity)

def alterDirectory (beneath : Beneath ω κ) (parent : NodeIndex) (operation : NodeOperation ω κ α) :
    VfsAction ω κ Unit := do
  let s ← get
  let durable := vfsMountIsDurable s (s.node parent).mount
  let _ ← actAndRelease beneath parent operation
  vfsSyncWhere beneath durable

def vfsCreateDirectory (beneath : Beneath ω κ) (path : Option Name) (permissions : UInt16) :
    VfsAction ω κ Unit := do
  let (parent, name) ← vfsResolveParent beneath path
  let s ← get
  if !vfsWritable s parent then releaseAndRefuse beneath parent .readOnly
  else
    match (beneath.operations (s.mountOf parent).operations).createDirectory with
    | none => releaseAndRefuse beneath parent .unsupported
    | some create => alterDirectory beneath parent (create name permissions)

/-- `VfsResolveForRemoval`, answering with the parent, the child and the name. -/
def vfsResolveForRemoval (beneath : Beneath ω κ) (path : Option Name) :
    VfsAction ω κ (NodeIndex × NodeIndex × Name) := do
  let (parent, name) ← vfsResolveParent beneath path
  let s ← get
  if !vfsWritable s parent then releaseAndRefuse beneath parent .readOnly
  else
    match ← Action.attempt
        (callNode parent ((beneath.operations (s.mountOf parent).operations).lookup name)) with
    | .error code => releaseAndRefuse beneath parent code
    | .ok number =>
        match ← Action.attempt (vfsNodeAcquire beneath (s.node parent).mount number) with
        | .error code => releaseAndRefuse beneath parent code
        | .ok child =>
            let s ← get
            if 1 < (s.node child).references then do
              vfsNodeRelease beneath (some child)
              releaseAndRefuse beneath parent .busy
            else return (parent, child, name)

/-- What `VfsUnlink` and `VfsRemoveDirectory` do in common once the child is
held: the child is judged by its type, released, and its name removed. -/
def removeName (beneath : Beneath ω κ) (path : Option Name)
    (refusal : VfsNodeType → Option VfsError)
    (choose : VfsFilesystemOperations ω κ → Option (Name → NodeOperation ω κ Unit)) :
    VfsAction ω κ Unit := do
  let (parent, child, name) ← vfsResolveForRemoval beneath path
  let s ← get
  match refusal (s.node child).type with
  | some code => do
      vfsNodeRelease beneath (some child)
      releaseAndRefuse beneath parent code
  | none =>
      match choose (beneath.operations (s.mountOf parent).operations) with
      | none => do
          vfsNodeRelease beneath (some child)
          releaseAndRefuse beneath parent .unsupported
      | some remove => do
          vfsNodeRelease beneath (some child)
          alterDirectory beneath parent (remove name)

def vfsUnlink (beneath : Beneath ω κ) (path : Option Name) : VfsAction ω κ Unit :=
  removeName beneath path (fun type ↦ if type = .directory then some .isDirectory else none)
    VfsFilesystemOperations.unlink

def vfsRemoveDirectory (beneath : Beneath ω κ) (path : Option Name) : VfsAction ω κ Unit :=
  removeName beneath path (fun type ↦ if type ≠ .directory then some .notDirectory else none)
    VfsFilesystemOperations.removeDirectory

def releaseBothAndRefuse (beneath : Beneath ω κ) (parent target : NodeIndex) (code : VfsError) :
    VfsAction ω κ α := do
  vfsNodeRelease beneath (some parent)
  releaseAndRefuse beneath target code

def vfsLink (beneath : Beneath ω κ) (existing name : Option Name) : VfsAction ω κ Unit := do
  let target ← vfsResolveCounted beneath existing false
  let s ← get
  if (s.node target).type = .directory then releaseAndRefuse beneath target .isDirectory
  else
    match ← Action.attempt (vfsResolveParent beneath name) with
    | .error code => releaseAndRefuse beneath target code
    | .ok (parent, component) =>
        let s ← get
        if (s.node parent).mount ≠ (s.node target).mount then
          releaseBothAndRefuse beneath parent target .crossesMount
        else if !vfsWritable s parent then releaseBothAndRefuse beneath parent target .readOnly
        else
          match (beneath.operations (s.mountOf parent).operations).link with
          | none => releaseBothAndRefuse beneath parent target .unsupported
          | some link =>
              let durable := vfsMountIsDurable s (s.node parent).mount
              let (answer, parentContents, targetContents, world) :=
                link component (s.node parent) (s.mountOf parent) (s.node target) s.world
              let s := s.putNode parent { s.node parent with toNodeContents := parentContents }
              let s := s.putNode target { s.node target with toNodeContents := targetContents }
              set { s with world := world }
              vfsNodeRelease beneath (some parent)
              vfsNodeRelease beneath (some target)
              match answer with
              | .error code => throw code
              | .ok _ => vfsSyncWhere beneath durable

end OxysOS.Fs
