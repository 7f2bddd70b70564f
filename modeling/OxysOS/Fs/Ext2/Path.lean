import OxysOS.Fs.Vfs.Links

/-!
# The resolution of a path within a volume

`kernel/fs/ext2/path.c`.  What is read of the volume is a parameter: an inode, the entry of a name,
and the target of a symbolic link.  A path and a target are the bytes before the one that ends them.
-/

namespace OxysOS.Fs.Ext2

open OxysOS.Library Action

variable {σ ι : Type}

def ext2PathMaximum : ℕ := 4096

def ext2SymlinkDepthMaximum : ℕ := 8

def ext2RootInode : UInt32 := 2

def ext2FtUnknown : UInt8 := 0

def ext2FileTypeOfMode (mode : UInt16) : UInt8 :=
  match mode &&& 0xF000 with
  | 0x8000 => 1
  | 0x4000 => 2
  | 0x2000 => 3
  | 0x6000 => 4
  | 0x1000 => 5
  | 0xC000 => 6
  | 0xA000 => 7
  | _ => ext2FtUnknown

def ext2InodeIsDirectory (mode : UInt16) : Bool := mode &&& 0xF000 == 0x4000

def ext2InodeIsSymbolicLink (mode : UInt16) : Bool := mode &&& 0xF000 == 0xA000

/-- Why a path is refused, or that what is read of the volume for it is. -/
inductive Ext2PathError
  | notAbsolute
  | tooManyLinks
  | tooLong
  | empty
  | againstNoDirectory
  | componentNoDirectory
  | contradictsInode
  | assertsDirectory
  | unread
  deriving DecidableEq, Repr

/-- What the resolver uses of an `Ext2DirectoryEntry`. -/
structure PathEntry where
  inode : UInt32
  fileType : UInt8

/-- `Ext2ReadInode`, `Ext2DirectoryFind` and `Ext2ReadSymbolicLink` of a volume, whose inodes are
of type `ι`. -/
structure Ext2Lookup (σ ι : Type) where
  mode : ι → UInt16
  readInode : UInt32 → Action σ Ext2PathError ι
  directoryFind : ι → List UInt8 → Action σ Ext2PathError PathEntry
  readSymbolicLink : ι → Action σ Ext2PathError (List UInt8)

structure PathFrame (ι : Type) where
  current : ι
  path : List UInt8
  followLast : Bool
  assertsDirectory : Bool

/-- The beginning of `Ext2ResolveFrom`, after its depth has been found no greater than its
bound. -/
def ext2ResolveBegin (volume : Ext2Lookup σ ι) (start : Option ι) (path : List UInt8)
    (followLast : Bool) : Action σ Ext2PathError (PathFrame ι) := do
  if ext2PathMaximum < path.length then throw .tooLong
  else if path.length = 0 then throw .empty
  else
    let current ← (if path.head? = some separator then volume.readInode ext2RootInode
      else match start with
        | some start => pure start
        | none => throw .notAbsolute)
    if ext2InodeIsDirectory (volume.mode current) then
      return ⟨current, path, followLast, path.getLast? = some separator⟩
    else throw .againstNoDirectory

/-- One pass of the loop of `Ext2ResolveFrom`, or its end. -/
def ext2ResolveStep (volume : Ext2Lookup σ ι) (frame : PathFrame ι) :
    Action σ Ext2PathError (Advance (PathFrame ι) (List UInt8) ι) :=
  match frame.path.dropWhile (· == separator) with
  | [] =>
      if frame.assertsDirectory && !ext2InodeIsDirectory (volume.mode frame.current) then
        throw .assertsDirectory
      else return .ended frame.current
  | path@(_ :: _) => do
      let name := path.takeWhile (· != separator)
      let rest := path.dropWhile (· != separator)
      let last := rest.all (· == separator)
      if !ext2InodeIsDirectory (volume.mode frame.current) then throw .componentNoDirectory
      else
        let entry ← volume.directoryFind frame.current name
        let next ← volume.readInode entry.inode
        if entry.fileType ≠ ext2FtUnknown ∧
            entry.fileType ≠ ext2FileTypeOfMode (volume.mode next) then
          throw .contradictsInode
        else if ext2InodeIsSymbolicLink (volume.mode next) ∧
            (!last || frame.followLast || frame.assertsDirectory) then
          let target ← volume.readSymbolicLink next
          return .link { frame with path := rest } target
        else return .onward { frame with current := next, path := rest }

def PathFrame.Left (frame : PathFrame ι) : Advance (PathFrame ι) (List UInt8) ι → Prop
  | .ended _ => True
  | .onward next | .link next _ => next.path.length < frame.path.length

theorem ext2ResolveStep_left (volume : Ext2Lookup σ ι) (frame : PathFrame ι) :
    Triple (fun _ ↦ True) (ext2ResolveStep volume frame) (fun advance _ ↦ frame.Left advance)
      fun _ _ ↦ True := by
  unfold ext2ResolveStep
  cases hpath : frame.path.dropWhile (· == separator) with
  | nil =>
      exact Triple.ite (fun _ ↦ Triple.throw fun _ _ ↦ trivial) fun _ ↦
        Triple.pure fun _ _ ↦ trivial
  | cons first rest =>
      have hshorter := component_shorter hpath
      refine Triple.ite (fun _ ↦ Triple.throw fun _ _ ↦ trivial) fun _ ↦ ?_
      refine (Triple.any _).bind fun entry ↦ (Triple.any _).bind fun next ↦ ?_
      refine Triple.ite (fun _ ↦ Triple.throw fun _ _ ↦ trivial) fun _ ↦
        Triple.ite (fun _ ↦ ?_) fun _ ↦ ?_
      · exact (Triple.any _).bind fun _ ↦ Triple.pure fun _ _ ↦ hshorter
      · exact Triple.pure fun _ _ ↦ hshorter

/-- `Ext2ResolveFrom`, as walks that wait for one another. -/
def ext2Walker (volume : Ext2Lookup σ ι) :
    Walker σ Ext2PathError (PathFrame ι) (List UInt8) ι where
  step := ext2ResolveStep volume
  enter frame target := ext2ResolveBegin volume (some frame.current) target true
  resume frame resolved := return { frame with current := resolved }
  abandon _ s := s
  tooMany := .tooManyLinks
  size frame := frame.path.length
  onward_lt {frame s _ _} h :=
    (ext2ResolveStep_left volume frame s trivial).1 _ (congrArg Prod.fst h)
  link_lt {frame s _ _ _} h :=
    (ext2ResolveStep_left volume frame s trivial).1 _ (congrArg Prod.fst h)
  resume_le h := by
    cases h
    exact le_rfl

/-- `Ext2ResolvePath`, and `Ext2ResolvePathNoFollow`, until the walk begins. -/
def ext2ResolvePathBegin (volume : Ext2Lookup σ ι) (path : List UInt8) (followLast : Bool) :
    Action σ Ext2PathError (PathFrame ι) :=
  if path.head? ≠ some separator then throw .notAbsolute
  else ext2ResolveBegin volume none path followLast

/-- `Ext2ResolvePath`, with how many links it follows. -/
def ext2ResolvePath (volume : Ext2Lookup σ ι) (path : List UInt8) (s : σ) :
    Walked σ Ext2PathError ι :=
  (ext2Walker volume).resolve ext2SymlinkDepthMaximum (ext2ResolvePathBegin volume path true) s

/-- A resolution follows eight links at most and is refused where the path leads through more, of
the whole tree of mounts and of one volume alike, when and only when the path leads through no
more, or the first nine that it leads through are each in the target of the one before. -/
theorem resolve_bounded_iff {ω κ : Type} (beneath : Beneath ω κ) (path : Option Name) (t : Vfs ω κ)
    (volume : Ext2Lookup σ ι) (name : List UInt8) (s : σ) :
    ((vfsResolveWalked beneath path true t).outcome = outcome (vfsResolve beneath path) t ∧
        ((vfsWalker beneath).Bounded vfsSymlinkDepthMaximum (vfsResolveBegin path true) t ↔
          (vfsWalker beneath).FewOrNested vfsSymlinkDepthMaximum (vfsResolveBegin path true) t)) ∧
      ((ext2Walker volume).Bounded ext2SymlinkDepthMaximum
          (ext2ResolvePathBegin volume name true) s ↔
        (ext2Walker volume).FewOrNested ext2SymlinkDepthMaximum
          (ext2ResolvePathBegin volume name true) s) :=
  ⟨⟨outcome_vfsResolveWalked beneath path true t, Walker.bounded_iff _ _ _ t⟩,
    Walker.bounded_iff _ _ _ s⟩

/-- A volume whose root holds a link `l` to the root. -/
def rootLink : Ext2Lookup Unit UInt32 where
  mode number := if number = ext2RootInode then 0x41ED else 0xA1FF
  readInode number := pure number
  directoryFind _ name :=
    if name = [0x6C] then pure ⟨12, 7⟩ else if name = [0x2E] then pure ⟨2, 2⟩ else throw .unread
  readSymbolicLink _ := pure [0x2E]

def nineLinks : List UInt8 := (List.replicate 9 [0x2F, 0x6C]).flatten

/-- The nine links are followed one after another, and the path is not refused. -/
theorem ext2ResolvePath_unbounded :
    (ext2ResolvePath rootLink nineLinks ()).answer = .ok ext2RootInode ∧
      (ext2ResolvePath rootLink nineLinks ()).links = 9 ∧
        ¬(ext2Walker rootLink).Bounded ext2SymlinkDepthMaximum
          (ext2ResolvePathBegin rootLink nineLinks true) () := by
  have hlinks : (ext2ResolvePath rootLink nineLinks ()).links = 9 := by decide +kernel
  refine ⟨rfl, hlinks, fun h ↦ ?_⟩
  exact absurd (hlinks.symm.trans_le h.1) (by decide)

end OxysOS.Fs.Ext2
