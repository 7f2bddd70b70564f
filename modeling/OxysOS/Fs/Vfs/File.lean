import OxysOS.Fs.Vfs.Path

/-!
# Open files and the names of files

`kernel/fs/vfs/file.c`, `namespace.c` and the creation and release of an end
in `pipe.c`.  What is opened is named by its index in the open-file table.
-/

namespace OxysOS.Fs

open OxysOS.Library OxysOS.Mm OxysOS.Block

variable {ω κ : Type}

def vfsOpenRead : UInt32 := 0x0001

def vfsOpenWrite : UInt32 := 0x0002

def vfsOpenCreate : UInt32 := 0x0004

def vfsOpenExclusive : UInt32 := 0x0008

def vfsOpenTruncate : UInt32 := 0x0010

def vfsOpenAppend : UInt32 := 0x0020

def vfsOpenDirectory : UInt32 := 0x0040

def vfsOpenNoFollow : UInt32 := 0x0080

def vfsMountIsDurable (s : Vfs ω κ) (mount : MountIndex) : Bool :=
  s.rootMount != some mount && !(s.mount mount).readOnly

/-- The loop of `VfsSync` -/
def vfsSyncMounts (beneath : Beneath ω κ) (s : Vfs ω κ) : List MountIndex → ω → Bool × ω
  | [], world => (true, world)
  | index :: rest, world =>
      let mount := s.mount index
      let (written, world₁) :=
        match mount.mounted, (beneath.operations mount.operations).sync with
        | true, some sync =>
            let (answer, world₁) := sync mount world
            (answer.isOk, world₁)
        | _, _ => (true, world)
      let (succeeded, world₂) := vfsSyncMounts beneath s rest world₁
      (written && succeeded, world₂)

def vfsSync (beneath : Beneath ω κ) : VfsAction ω κ Unit := do
  let s ← get
  let (outcome, world₁) := vfsSyncMounts beneath s (List.range s.mounts.capacity) s.world
  let (written, world₂) := beneath.bufferSync world₁
  set { s with world := world₂ }
  if written && outcome then return else throw .medium

def vfsSyncWhere (beneath : Beneath ω κ) (durable : Bool) : VfsAction ω κ Unit := do
  if durable then
    let _ ← Action.attempt (vfsSync beneath)
    return
  else return

def vfsFileOf (descriptor : ℤ) : VfsAction ω κ FileIndex := do
  let s ← get
  if descriptor < 0 ∨ s.files.capacity ≤ descriptor.toNat then throw .invalid
  else if (s.file descriptor.toNat).isOpen then return descriptor.toNat
  else throw .invalid

/-- The search of `VfsOpen` and `VfsPipeFreeFile` for a slot that is not open. -/
def vfsFreeFile (beneath : Beneath ω κ) : VfsAction ω κ FileIndex := do
  let s ← get
  match s.files.find fun file ↦ !file.isOpen with
  | some index => return index
  | none =>
      let (grown, world) := growth beneath s.files.chunkCount s.world
      if grown then
        set { s with files := s.files.grow .zero, world := world }
        return s.files.capacity
      else
        set { s with world := world }
        throw .noResource

def vfsCreateAndAcquire (beneath : Beneath ω κ) (path : Option Name) (permissions : UInt16) :
    VfsAction ω κ NodeIndex := do
  let (parent, name) ← vfsResolveParent beneath path
  let s ← get
  if !vfsWritable s parent then releaseAndRefuse beneath parent .readOnly
  else
    match (beneath.operations (s.mountOf parent).operations).create with
    | none => releaseAndRefuse beneath parent .unsupported
    | some create =>
        match ← Action.attempt (callNode parent (create name .regular permissions)) with
        | .error code => releaseAndRefuse beneath parent code
        | .ok number =>
            let node ← Action.attempt (vfsNodeAcquire beneath (s.node parent).mount number)
            vfsNodeRelease beneath (some parent)
            match node with
            | .error code => throw code
            | .ok node => return node

/-- The node `VfsOpen` is to open: the one the path names, or one created for
want of it. -/
def vfsOpenNode (beneath : Beneath ω κ) (path : Option Name) (flags : UInt32)
    (permissions : UInt16) : VfsAction ω κ NodeIndex := do
  match ← Action.attempt (vfsResolveCounted beneath path (flags &&& vfsOpenNoFollow == 0)) with
  | .ok node =>
      if flags &&& (vfsOpenCreate ||| vfsOpenExclusive) = vfsOpenCreate ||| vfsOpenExclusive then
        releaseAndRefuse beneath node .exists
      else return node
  | .error code =>
      if flags &&& vfsOpenCreate ≠ 0 ∧ code = .notFound then
        vfsCreateAndAcquire beneath path permissions
      else throw code

/-- The judgement `VfsOpen` makes of the node before it truncates it. -/
def vfsOpenRefusal (s : Vfs ω κ) (node : NodeIndex) (flags : UInt32) : Option VfsError :=
  if (s.node node).type = .symbolicLink then some .invalid
  else if flags &&& vfsOpenDirectory ≠ 0 ∧ (s.node node).type ≠ .directory then some .notDirectory
  else if (s.node node).type = .directory ∧ flags &&& vfsOpenWrite ≠ 0 then some .isDirectory
  else if flags &&& vfsOpenWrite ≠ 0 ∧ vfsWritable s node = false then some .readOnly
  else none

/-- `VfsOpen`; a refusal stands for `VFS_NO_DESCRIPTOR`. -/
def vfsOpen (beneath : Beneath ω κ) (path : Option Name) (flags : UInt32)
    (permissions : UInt16) : VfsAction ω κ FileIndex := do
  if flags &&& (vfsOpenRead ||| vfsOpenWrite) = 0 then throw .invalid
  else if flags &&& vfsOpenExclusive ≠ 0 ∧ flags &&& vfsOpenCreate = 0 then throw .invalid
  else if flags &&& (vfsOpenTruncate ||| vfsOpenAppend) ≠ 0 ∧ flags &&& vfsOpenWrite = 0 then
    throw .invalid
  else
    let descriptor ← vfsFreeFile beneath
    let node ← vfsOpenNode beneath path flags permissions
    let s ← get
    match vfsOpenRefusal s node flags with
    | some code => releaseAndRefuse beneath node code
    | none =>
        let truncated ←
          (if flags &&& vfsOpenTruncate ≠ 0 ∧ (s.node node).size ≠ 0 then
            match (beneath.operations (s.mountOf node).operations).truncate with
            | none => pure (Except.error VfsError.unsupported)
            | some truncate => Action.attempt (callNode node (truncate 0))
          else pure (Except.ok ()))
        match truncated with
        | .error code => releaseAndRefuse beneath node code
        | .ok _ =>
            modify fun s ↦ s.putFile descriptor
              { s.file descriptor with node := some node, position := 0, flags := flags,
                                       isOpen := true, holders := 1 }
            return descriptor

def vfsHold (descriptor : ℤ) : VfsAction ω κ Unit := do
  let index ← vfsFileOf descriptor
  modify fun s ↦ s.putFile index { s.file index with holders := (s.file index).holders + 1 }

def vfsPipeReleaseEnd (s : Vfs ω κ) (file : VfsFile) : Vfs ω κ :=
  match file.pipe with
  | none => s
  | some index =>
      let pipe := s.pipes.entry index
      let pipe :=
        if file.flags &&& vfsOpenRead ≠ 0 then
          if 0 < pipe.readers then { pipe with readers := pipe.readers - 1 } else pipe
        else if 0 < pipe.writers then { pipe with writers := pipe.writers - 1 }
        else pipe
      s.putPipe index
        (if pipe.readers = 0 ∧ pipe.writers = 0 then { pipe with inUse := false } else pipe)

def vfsClose (beneath : Beneath ω κ) (descriptor : ℤ) : VfsAction ω κ Unit := do
  let index ← vfsFileOf descriptor
  let s ← get
  let file := s.file index
  if 1 < file.holders then
    set (s.putFile index { file with holders := file.holders - 1 })
  else
    if file.pipe.isSome then
      set (vfsPipeReleaseEnd s file)
    else
      let durable := file.flags &&& vfsOpenWrite != 0 &&
        file.node.all fun node ↦ vfsMountIsDurable s (s.node node).mount
      vfsNodeRelease beneath file.node
      vfsSyncWhere beneath durable
    modify fun s ↦ s.putFile index .zero

def vfsFreePipe (beneath : Beneath ω κ) : VfsAction ω κ PipeIndex := do
  let s ← get
  match s.pipes.find fun pipe ↦ !pipe.inUse with
  | some index => return index
  | none =>
      let (grown, world) := growth beneath s.pipes.chunkCount s.world
      if grown then
        set { s with pipes := s.pipes.grow .zero, world := world }
        return s.pipes.capacity
      else
        set { s with world := world }
        throw .noResource

/-- `VfsPipeCreate`, answering with the end that reads and the end that
writes. -/
def vfsPipeCreate (beneath : Beneath ω κ) : VfsAction ω κ (FileIndex × FileIndex) := do
  let pipe ← vfsFreePipe beneath
  let reader ← vfsFreeFile beneath
  -- the reader's slot is put aside while the writer's is looked for
  modify fun s ↦ s.putFile reader { s.file reader with isOpen := true }
  let writer ← Action.attempt (vfsFreeFile beneath)
  modify fun s ↦ s.putFile reader { s.file reader with isOpen := false }
  match writer with
  | .error code => throw code
  | .ok writer =>
      modify fun s ↦ s.putPipe pipe { VfsPipe.zero with readers := 1, writers := 1, inUse := true }
      modify fun s ↦ s.putFile reader
        { VfsFile.zero with flags := vfsOpenRead, holders := 1, pipe := some pipe, isOpen := true }
      modify fun s ↦ s.putFile writer
        { VfsFile.zero with flags := vfsOpenWrite, holders := 1, pipe := some pipe, isOpen := true }
      return (reader, writer)

end OxysOS.Fs
