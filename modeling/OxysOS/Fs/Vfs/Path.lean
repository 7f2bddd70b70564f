import OxysOS.Fs.Vfs.Node
import Mathlib.Data.List.DropRight

/-!
# The resolution of a path

`kernel/fs/vfs/path.c`.  A position within a path is what remains of the path
there.  The two loops over mounts run for the capacity of the mount table, and
`triple_crossMountsEnds` and `triple_leaveMountsEnds` show that it is enough.
-/

namespace OxysOS.Fs

open OxysOS.Library OxysOS.Mm OxysOS.Block

variable {ω κ α : Type}

/-- `VfsPathLength`; an absent string is `none`. -/
def vfsPathLength (path : Option Name) : VfsAction ω κ Name :=
  match path with
  | none => throw .invalid
  | some path =>
      if path.length = 0 then throw .invalid
      else if vfsPathMaximum < path.length then throw .tooLong
      else return path

def vfsComponentIsDot (name : Name) : Bool := name == [dot] || name == [dot, dot]

def releaseAndRefuse (beneath : Beneath ω κ) (index : NodeIndex) (code : VfsError) :
    VfsAction ω κ α := do
  vfsNodeRelease beneath (some index)
  throw code

def vfsLeaveMounts (beneath : Beneath ω κ) : ℕ → NodeIndex → VfsAction ω κ NodeIndex
  | 0, current => return current
  | fuel + 1, current => do
      let s ← get
      match (s.mountOf current).root == some current, (s.mountOf current).covered with
      | true, some covered =>
          vfsNodeHold covered
          vfsNodeRelease beneath (some current)
          vfsLeaveMounts beneath fuel covered
      | _, _ => return current

def vfsCrossMounts (beneath : Beneath ω κ) : ℕ → NodeIndex → VfsAction ω κ NodeIndex
  | 0, child => return child
  | fuel + 1, child => do
      let s ← get
      match (s.node child).mounted.bind fun mount ↦ (s.mount mount).root with
      | some root =>
          vfsNodeHold root
          vfsNodeRelease beneath (some child)
          vfsCrossMounts beneath fuel root
      | none => return child

/-- Following a symbolic link found within `current`; `follow` resolves its
target. -/
def vfsFollowLink (beneath : Beneath ω κ) (follow : NodeIndex → Name → VfsAction ω κ NodeIndex)
    (current child : NodeIndex) : VfsAction ω κ NodeIndex := do
  let s ← get
  match (beneath.operations (s.mountOf child).operations).readLink with
  | none => do
      vfsNodeRelease beneath (some child)
      releaseAndRefuse beneath current .unsupported
  | some readLink =>
      match ← Action.attempt (callNode child (readLink (vfsSymlinkMaximum + 1))) with
      | .error code => do
          vfsNodeRelease beneath (some child)
          releaseAndRefuse beneath current code
      | .ok target =>
          if target.length = 0 then do
            vfsNodeRelease beneath (some child)
            releaseAndRefuse beneath current .invalid
          else do
            vfsNodeRelease beneath (some child)
            match ← Action.attempt (follow current target) with
            | .error code => releaseAndRefuse beneath current code
            | .ok resolved => return resolved

/-- One pass of the loop of `VfsWalk`, with the component it has taken from
the path: `current` gives way to what the component names. -/
def vfsWalkComponent (beneath : Beneath ω κ)
    (follow : NodeIndex → Name → VfsAction ω κ NodeIndex)
    (name : Name) (mustFollow : Bool) (current : NodeIndex) : VfsAction ω κ NodeIndex := do
  if vfsNameMaximum < name.length then
    releaseAndRefuse beneath current .tooLong
  else
    let s ← get
    if (s.node current).type ≠ .directory then
      releaseAndRefuse beneath current .notDirectory
    else
      let current ←
        (if name = [dot, dot] then vfsLeaveMounts beneath s.mounts.capacity current
        else pure current)
      let s ← get
      match ← Action.attempt
          (callNode current ((beneath.operations (s.mountOf current).operations).lookup name)) with
      | .error code => releaseAndRefuse beneath current code
      | .ok number =>
          match ← Action.attempt (vfsNodeAcquire beneath (s.node current).mount number) with
          | .error code => releaseAndRefuse beneath current code
          | .ok child =>
              let s ← get
              let child ← vfsCrossMounts beneath s.mounts.capacity child
              let s ← get
              let child ←
                (if (s.node child).type = .symbolicLink ∧ mustFollow then
                  vfsFollowLink beneath follow current child
                else pure child)
              vfsNodeRelease beneath (some current)
              return child

/-- The end of `VfsWalk`, the path being exhausted. -/
def vfsWalkEnd (beneath : Beneath ω κ) (current : NodeIndex) (assertsDirectory : Bool) :
    VfsAction ω κ NodeIndex := do
  let s ← get
  if assertsDirectory ∧ (s.node current).type ≠ .directory then
    releaseAndRefuse beneath current .notDirectory
  else return current

/-- The loop of `VfsWalk`.  Every pass takes at least one byte of the path, so
the path is exhausted when as many passes as it has bytes have been made. -/
def vfsWalkLoop (beneath : Beneath ω κ) (follow : NodeIndex → Name → VfsAction ω κ NodeIndex)
    (followLast : Bool) : ℕ → NodeIndex → Name → Bool → VfsAction ω κ NodeIndex
  | 0, current, _, assertsDirectory => vfsWalkEnd beneath current assertsDirectory
  | fuel + 1, current, path, assertsDirectory =>
      match path.dropWhile (· == separator) with
      | [] => vfsWalkEnd beneath current assertsDirectory
      | path@(_ :: _) => do
          let name := path.takeWhile (· != separator)
          let rest := path.dropWhile (· != separator)
          let last := (rest.dropWhile (· == separator)).isEmpty
          let assertsDirectory := last && !rest.isEmpty
          let child ← vfsWalkComponent beneath follow name
            (!last || followLast || assertsDirectory) current
          vfsWalkLoop beneath follow followLast fuel child rest assertsDirectory

/-- `VfsWalk`.  The first argument is how many more links may be followed,
counting this entry: the source's depth subtracted from one more than its
bound. -/
def vfsWalk (beneath : Beneath ω κ) :
    ℕ → Option NodeIndex → Name → Bool → VfsAction ω κ NodeIndex
  | 0, _, _, _ => throw .tooManyLinks
  | links + 1, start, path, followLast => do
      if vfsPathMaximum < path.length then throw .tooLong
      else
        let s ← get
        let first :=
          if path.head? = some separator then
            s.rootMount.bind fun mount ↦ (s.mount mount).root
          else start
        match first with
        | none => throw (if path.head? = some separator then .notFound else .invalid)
        | some current =>
            vfsNodeHold current
            vfsWalkLoop beneath (fun current target ↦ vfsWalk beneath links (some current) target true)
              followLast path.length current path false

def vfsWalkFrom (beneath : Beneath ω κ) (start : Option NodeIndex) (path : Name)
    (followLast : Bool) : VfsAction ω κ NodeIndex :=
  vfsWalk beneath (vfsSymlinkDepthMaximum + 1) start path followLast

def vfsResolveCounted (beneath : Beneath ω κ) (path : Option Name) (followLast : Bool) :
    VfsAction ω κ NodeIndex := do
  let path ← vfsPathLength path
  if path.head? ≠ some separator then throw .invalid
  else vfsWalkFrom beneath none path followLast

def vfsResolve (beneath : Beneath ω κ) (path : Option Name) : VfsAction ω κ NodeIndex :=
  vfsResolveCounted beneath path true

def finalComponent (path : Name) : Name := path.rtakeWhile (· != separator)

def vfsResolveParent (beneath : Beneath ω κ) (path : Option Name) :
    VfsAction ω κ (NodeIndex × Name) := do
  let path ← vfsPathLength path
  if path.head? ≠ some separator then throw .invalid
  else if path.getLast? = some separator then throw .invalid
  else
    let name := finalComponent path
    if vfsNameMaximum < name.length then throw .tooLong
    else if vfsComponentIsDot name then throw .invalid
    else
      let parent ← vfsWalkFrom beneath none (path.take (path.length - name.length)) true
      let s ← get
      if (s.node parent).type ≠ .directory then
        releaseAndRefuse beneath parent .notDirectory
      else return (parent, name)

def vfsWritable (s : Vfs ω κ) (index : NodeIndex) : Bool := !(s.mountOf index).readOnly

end OxysOS.Fs
