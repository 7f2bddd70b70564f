import OxysOS.Fs.Vfs.Path
import OxysOS.Library.Strings
import OxysOS.Library.Walker

/-!
# The links of a path

`vfsWalk` follows a link by walking its target from where the link stands.  Here the walk is
given as a `Walker`, which counts the links that it follows.
-/

namespace OxysOS.Fs

open OxysOS.Library Action

variable {ω κ α β : Type}

structure WalkFrame where
  current : NodeIndex
  path : Name
  followLast : Bool
  assertsDirectory : Bool

/-- The target of a symbolic link found within `current`. -/
def vfsLinkTarget (beneath : Beneath ω κ) (current child : NodeIndex) : VfsAction ω κ Name := do
  let s ← get
  match (beneath.operations (s.mountOf child).operations).readLink with
  | none => do
      vfsNodeRelease beneath (some child)
      releaseAndRefuse beneath current .unsupported
  | some readLink =>
      match ← Action.attempt (callNode child (readLink (vfsSymlinkMaximum + 1))) with
      | .error code => do
          vfsNodeRelease beneath (some child)
          releaseAndRefuse beneath current code
      | .ok target =>
          if target.length = 0 then do
            vfsNodeRelease beneath (some child)
            releaseAndRefuse beneath current .invalid
          else do
            vfsNodeRelease beneath (some child)
            return target

def vfsWalkFind (beneath : Beneath ω κ) (name : Name) (mustFollow : Bool) (current : NodeIndex) :
    VfsAction ω κ (NodeIndex × (NodeIndex ⊕ Name)) := do
  if vfsNameMaximum < name.length then
    releaseAndRefuse beneath current .tooLong
  else
    let s ← get
    if (s.node current).type ≠ .directory then
      releaseAndRefuse beneath current .notDirectory
    else
      let current ←
        (if name = [dot, dot] then vfsLeaveMounts beneath s.mounts.capacity current
        else pure current)
      let s ← get
      match ← Action.attempt
          (callNode current ((beneath.operations (s.mountOf current).operations).lookup name)) with
      | .error code => releaseAndRefuse beneath current code
      | .ok number =>
          match ← Action.attempt (vfsNodeAcquire beneath (s.node current).mount number) with
          | .error code => releaseAndRefuse beneath current code
          | .ok child =>
              let s ← get
              let child ← vfsCrossMounts beneath s.mounts.capacity child
              let s ← get
              if (s.node child).type = .symbolicLink ∧ mustFollow then
                let target ← vfsLinkTarget beneath current child
                return (current, .inr target)
              else return (current, .inl child)

theorem releaseAndRefuse_bind (beneath : Beneath ω κ) (index : NodeIndex) (code : VfsError)
    (next : α → VfsAction ω κ β) :
    releaseAndRefuse beneath index code >>= next = releaseAndRefuse beneath index code := by
  unfold releaseAndRefuse
  rw [bind_assoc]
  rfl

theorem vfsFollowLink_eq (beneath : Beneath ω κ)
    (follow : NodeIndex → Name → VfsAction ω κ NodeIndex) (current child : NodeIndex) :
    vfsFollowLink beneath follow current child = do
      let target ← vfsLinkTarget beneath current child
      match ← Action.attempt (follow current target) with
      | .error code => releaseAndRefuse beneath current code
      | .ok resolved => return resolved := by
  unfold vfsFollowLink vfsLinkTarget
  simp only [bind_assoc]
  refine bind_congr fun s ↦ ?_
  cases (beneath.operations (s.mountOf child).operations).readLink with
  | none => simp only [bind_assoc, releaseAndRefuse_bind]
  | some readLink =>
      simp only [bind_assoc]
      refine bind_congr fun answer ↦ ?_
      cases answer with
      | error code => simp only [bind_assoc, releaseAndRefuse_bind]
      | ok target =>
          by_cases hempty : target.length = 0
          · simp only [hempty, if_true, bind_assoc, releaseAndRefuse_bind]
          · simp only [hempty, if_false, bind_assoc, pure_bind] <;> rfl

theorem vfsWalkComponent_eq (beneath : Beneath ω κ)
    (follow : NodeIndex → Name → VfsAction ω κ NodeIndex) (name : Name) (mustFollow : Bool)
    (current : NodeIndex) :
    vfsWalkComponent beneath follow name mustFollow current = do
      match ← vfsWalkFind beneath name mustFollow current with
      | (current, .inl child) => do
          vfsNodeRelease beneath (some current)
          return child
      | (current, .inr target) =>
          match ← Action.attempt (follow current target) with
          | .error code => releaseAndRefuse beneath current code
          | .ok resolved => do
              vfsNodeRelease beneath (some current)
              return resolved := by
  unfold vfsWalkComponent vfsWalkFind
  by_cases hlong : vfsNameMaximum < name.length
  · simp only [hlong, if_true, releaseAndRefuse_bind]
  · simp only [hlong, if_false, bind_assoc]
    refine bind_congr fun s ↦ ?_
    by_cases htype : (s.node current).type ≠ .directory
    · rw [if_pos htype, if_pos htype, releaseAndRefuse_bind]
    · rw [if_neg htype, if_neg htype]
      simp only [bind_assoc]
      refine bind_congr fun current ↦ ?_
      refine bind_congr fun s ↦ ?_
      refine bind_congr fun answer ↦ ?_
      cases answer with
      | error code => simp only [releaseAndRefuse_bind]
      | ok number =>
          simp only [bind_assoc]
          refine bind_congr fun answer ↦ ?_
          cases answer with
          | error code => simp only [releaseAndRefuse_bind]
          | ok child =>
              simp only [bind_assoc]
              refine bind_congr fun s ↦ ?_
              refine bind_congr fun child ↦ ?_
              refine bind_congr fun s ↦ ?_
              by_cases hlink : (s.node child).type = .symbolicLink ∧ mustFollow
              · simp only [if_pos hlink, vfsFollowLink_eq, bind_assoc, pure_bind]
                refine bind_congr fun target ↦ ?_
                refine bind_congr fun answer ↦ ?_
                cases answer with
                | error code => simp only [releaseAndRefuse_bind]
                | ok resolved => simp only [pure_bind]
              · simp only [if_neg hlink, pure_bind]

/-- The beginning of `VfsWalk`, after its depth has been found no greater than its bound. -/
def vfsWalkBegin (start : Option NodeIndex) (path : Name) (followLast : Bool) :
    VfsAction ω κ WalkFrame := do
  if vfsPathMaximum < path.length then throw .tooLong
  else
    let s ← get
    let first :=
      if path.head? = some separator then
        s.rootMount.bind fun mount ↦ (s.mount mount).root
      else start
    match first with
    | none => throw (if path.head? = some separator then .notFound else .invalid)
    | some current =>
        vfsNodeHold current
        return ⟨current, path, followLast, false⟩

/-- One pass of the loop of `VfsWalk`, or its end. -/
def vfsWalkStep (beneath : Beneath ω κ) (frame : WalkFrame) :
    VfsAction ω κ (Advance WalkFrame Name NodeIndex) :=
  match frame.path.dropWhile (· == separator) with
  | [] => do
      let node ← vfsWalkEnd beneath frame.current frame.assertsDirectory
      return .ended node
  | path@(_ :: _) => do
      let name := path.takeWhile (· != separator)
      let rest := path.dropWhile (· != separator)
      let last := (rest.dropWhile (· == separator)).isEmpty
      let assertsDirectory := last && !rest.isEmpty
      match ← vfsWalkFind beneath name (!last || frame.followLast || assertsDirectory)
          frame.current with
      | (current, .inl child) => do
          vfsNodeRelease beneath (some current)
          return .onward ⟨child, rest, frame.followLast, assertsDirectory⟩
      | (current, .inr target) =>
          return .link ⟨current, rest, frame.followLast, assertsDirectory⟩ target

def WalkFrame.Left (frame : WalkFrame) : Advance WalkFrame Name NodeIndex → Prop
  | .ended _ => True
  | .onward next | .link next _ =>
      next.path.length < frame.path.length ∧ next.followLast = frame.followLast

theorem vfsWalkStep_left (beneath : Beneath ω κ) (frame : WalkFrame) :
    Triple (fun _ ↦ True) (vfsWalkStep beneath frame) (fun advance _ ↦ frame.Left advance)
      fun _ _ ↦ True := by
  unfold vfsWalkStep
  cases hpath : frame.path.dropWhile (· == separator) with
  | nil => exact (Triple.any _).bind fun _ ↦ Triple.pure fun _ _ ↦ trivial
  | cons first rest =>
      have hshorter := component_shorter hpath
      refine (Triple.any _).bind fun found ↦ ?_
      rcases found with ⟨current, child | target⟩
      · exact (Triple.any _).bind fun _ ↦ Triple.pure fun _ _ ↦ ⟨hshorter, rfl⟩
      · exact Triple.pure fun _ _ ↦ ⟨hshorter, rfl⟩

theorem left_of_step {beneath : Beneath ω κ} {frame : WalkFrame} {s s' : Vfs ω κ}
    {advance : Advance WalkFrame Name NodeIndex}
    (h : outcome (vfsWalkStep beneath frame) s = (.ok advance, s')) : frame.Left advance :=
  (vfsWalkStep_left beneath frame s trivial).1 _ (congrArg Prod.fst h)

/-- `VfsWalk`, as walks that wait for one another. -/
def vfsWalker (beneath : Beneath ω κ) : Walker (Vfs ω κ) VfsError WalkFrame Name NodeIndex where
  step := vfsWalkStep beneath
  enter frame target := vfsWalkBegin (some frame.current) target true
  resume frame resolved := do
    vfsNodeRelease beneath (some frame.current)
    return { frame with current := resolved }
  abandon frame s := (outcome (vfsNodeRelease beneath (some frame.current)) s).2
  tooMany := .tooManyLinks
  size frame := frame.path.length
  onward_lt h := (left_of_step h).1
  link_lt h := (left_of_step h).1
  resume_le {frame result s next s'} h := by
    rw [outcome_bind] at h
    cases hrelease : outcome (vfsNodeRelease beneath (some frame.current)) s with
    | mk answer s'' =>
        rw [hrelease] at h
        cases answer with
        | ok released =>
            cases h
            exact le_rfl
        | error code => cases h

variable {beneath : Beneath ω κ}

theorem vfsWalkLoop_succ (beneath : Beneath ω κ)
    (follow : NodeIndex → Name → VfsAction ω κ NodeIndex) (fuel : ℕ) (frame : WalkFrame) :
    vfsWalkLoop beneath follow frame.followLast (fuel + 1) frame.current frame.path
        frame.assertsDirectory = (do
      match ← vfsWalkStep beneath frame with
      | .ended node => return node
      | .onward next =>
          vfsWalkLoop beneath follow frame.followLast fuel next.current next.path
            next.assertsDirectory
      | .link next target =>
          match ← Action.attempt (follow next.current target) with
          | .error code => releaseAndRefuse beneath next.current code
          | .ok resolved => do
              vfsNodeRelease beneath (some next.current)
              vfsWalkLoop beneath follow frame.followLast fuel resolved next.path
                next.assertsDirectory) := by
  rw [vfsWalkLoop, vfsWalkStep]
  cases hpath : frame.path.dropWhile (· == separator) with
  | nil => simp only [bind_assoc, pure_bind, bind_pure]
  | cons first rest =>
      simp only [vfsWalkComponent_eq, bind_assoc]
      refine bind_congr fun found ↦ ?_
      rcases found with ⟨current, child | target⟩
      · simp only [bind_assoc, pure_bind]
      · simp only [bind_assoc, pure_bind]
        refine bind_congr fun answer ↦ ?_
        cases answer with
        | error code => simp only [releaseAndRefuse_bind]
        | ok resolved => simp only [bind_assoc, pure_bind]

theorem vfsWalkLoop_zero (beneath : Beneath ω κ)
    (follow : NodeIndex → Name → VfsAction ω κ NodeIndex) {frame : WalkFrame}
    (h : frame.path = []) :
    vfsWalkLoop beneath follow frame.followLast 0 frame.current frame.path
        frame.assertsDirectory = (do
      match ← vfsWalkStep beneath frame with
      | .ended node => return node
      | .onward next => return next.current
      | .link next _ => return next.current) := by
  rw [vfsWalkLoop, vfsWalkStep, h]
  simp only [List.dropWhile_nil, bind_assoc, pure_bind, bind_pure]

theorem outcome_vfsNodeRelease (beneath : Beneath ω κ) (index : NodeIndex) (s : Vfs ω κ) :
    outcome (vfsNodeRelease beneath (some index)) s =
      (.ok (), (outcome (vfsNodeRelease beneath (some index)) s).2) := by
  have hrelease : Triple (fun t ↦ t = s) (vfsNodeRelease beneath (some index))
      (fun _ _ ↦ True) fun _ _ ↦ False :=
    Triple.get fun _ _ ↦ Triple.ite (fun _ ↦ Triple.pure fun _ _ ↦ trivial) fun _ ↦
      Triple.ite (fun _ ↦ Triple.set fun _ _ ↦ trivial) fun _ ↦ Triple.set fun _ _ ↦ trivial
  rcases hrelease.cases rfl with ⟨released, s', h, -⟩ | ⟨_, _, _, h⟩
  · rw [h]
  · exact h.elim

theorem outcome_releaseAndRefuse (beneath : Beneath ω κ) (index : NodeIndex) (code : VfsError)
    (s : Vfs ω κ) : outcome (releaseAndRefuse beneath index code : VfsAction ω κ α) s =
      (.error code, (outcome (vfsNodeRelease beneath (some index)) s).2) := by
  unfold releaseAndRefuse
  rw [outcome_bind, outcome_vfsNodeRelease]
  rfl

theorem outcome_vfsWalkLoop {follow : NodeIndex → Name → VfsAction ω κ NodeIndex}
    {follow' : WalkFrame → Name → Vfs ω κ → Walked (Vfs ω κ) VfsError NodeIndex}
    (hfollow : ∀ frame target s,
      outcome (follow frame.current target) s = (follow' frame target s).outcome)
    (fuel : ℕ) (frame : WalkFrame) (s : Vfs ω κ) (h : frame.path.length ≤ fuel) :
    outcome (vfsWalkLoop beneath follow frame.followLast fuel frame.current frame.path
        frame.assertsDirectory) s =
      ((vfsWalker beneath).loop follow' (fuel + 1) frame s).outcome := by
  induction fuel generalizing frame s with
  | zero =>
      have hpath : frame.path = [] := List.length_eq_zero_iff.mp (Nat.le_zero.mp h)
      rw [vfsWalkLoop_zero beneath follow hpath, outcome_bind]
      cases hstep : outcome (vfsWalkStep beneath frame) s with
      | mk answer s' =>
          have hstep' : outcome ((vfsWalker beneath).step frame) s = (answer, s') := hstep
          rcases answer with code | node | next | ⟨next, target⟩
          · simp [Walker.loop, hstep', Walked.outcome]
          · simp [Walker.loop, hstep', Walked.outcome]
          · have hleft := (left_of_step hstep).1
            omega
          · have hleft := (left_of_step hstep).1
            omega
  | succ fuel ih =>
      rw [vfsWalkLoop_succ, outcome_bind]
      cases hstep : outcome (vfsWalkStep beneath frame) s with
      | mk answer s' =>
          have hstep' : outcome ((vfsWalker beneath).step frame) s = (answer, s') := hstep
          rcases answer with code | node | next | ⟨next, target⟩
          · simp [Walker.loop, hstep', Walked.outcome]
          · simp [Walker.loop, hstep', Walked.outcome]
          · obtain ⟨hleft, hlast⟩ := left_of_step hstep
            rw [Walker.loop]
            simp only [hstep']
            rw [← hlast]
            exact ih next s' (by omega)
          · obtain ⟨hleft, hlast⟩ := left_of_step hstep
            rw [Walker.loop]
            simp only [hstep']
            rw [outcome_bind, outcome_attempt, hfollow next target s']
            cases follow' next target s' with
            | mk answer s'' links =>
                cases answer with
                | error code => exact outcome_releaseAndRefuse beneath next.current code s''
                | ok resolved =>
                    have hresume : outcome ((vfsWalker beneath).resume next resolved) s'' =
                        (.ok { next with current := resolved },
                          (outcome (vfsNodeRelease beneath (some next.current)) s'').2) := by
                      change outcome (_ >>= _) s'' = _
                      rw [outcome_bind, outcome_vfsNodeRelease]
                      rfl
                    simp only [Walked.outcome, Walker.back, hresume]
                    rw [outcome_bind, outcome_vfsNodeRelease, ← hlast]
                    exact ih { next with current := resolved } _ (by simpa using by omega)

theorem vfsWalk_succ (beneath : Beneath ω κ) (nested : ℕ) (start : Option NodeIndex) (path : Name)
    (followLast : Bool) : vfsWalk beneath (nested + 1) start path followLast = (do
      let frame ← vfsWalkBegin start path followLast
      vfsWalkLoop beneath (fun current target ↦ vfsWalk beneath nested (some current) target true)
        frame.followLast frame.path.length frame.current frame.path frame.assertsDirectory) := by
  rw [vfsWalk, vfsWalkBegin]
  by_cases hlong : vfsPathMaximum < path.length
  · rw [if_pos hlong, if_pos hlong]
    rfl
  · rw [if_neg hlong, if_neg hlong, bind_assoc]
    refine bind_congr fun s ↦ ?_
    generalize (if path.head? = some separator then s.rootMount.bind fun mount ↦ (s.mount mount).root
      else start) = first
    cases first with
    | none => rfl
    | some current => simp only [bind_assoc, pure_bind]

theorem outcome_vfsWalk (beneath : Beneath ω κ) (nested : ℕ) (frame : WalkFrame) (target : Name)
    (s : Vfs ω κ) : outcome (vfsWalk beneath nested (some frame.current) target true) s =
      ((vfsWalker beneath).follow nested frame target s).outcome := by
  induction nested generalizing frame target s with
  | zero => rfl
  | succ nested ih =>
      have henter : (vfsWalker beneath).enter frame target =
          vfsWalkBegin (some frame.current) target true := rfl
      rw [vfsWalk_succ, outcome_bind, Walker.follow, henter]
      cases outcome (vfsWalkBegin (some frame.current) target true) s with
      | mk answer s' =>
          cases answer with
          | error code => rfl
          | ok inner => exact outcome_vfsWalkLoop ih _ inner s' le_rfl

/-- `VfsResolveCounted`, until the walk begins. -/
def vfsResolveBegin (path : Option Name) (followLast : Bool) : VfsAction ω κ WalkFrame := do
  let path ← vfsPathLength path
  if path.head? ≠ some separator then throw .invalid
  else vfsWalkBegin none path followLast

/-- `VfsResolveCounted`, with how many links it follows. -/
def vfsResolveWalked (beneath : Beneath ω κ) (path : Option Name) (followLast : Bool)
    (s : Vfs ω κ) : Walked (Vfs ω κ) VfsError NodeIndex :=
  (vfsWalker beneath).resolve vfsSymlinkDepthMaximum (vfsResolveBegin path followLast) s

theorem outcome_vfsResolveWalked (beneath : Beneath ω κ) (path : Option Name) (followLast : Bool)
    (s : Vfs ω κ) : (vfsResolveWalked beneath path followLast s).outcome =
      outcome (vfsResolveCounted beneath path followLast) s := by
  have hbegin : vfsResolveCounted beneath path followLast = (do
      let frame ← vfsResolveBegin path followLast
      vfsWalkLoop beneath (fun current target ↦
          vfsWalk beneath vfsSymlinkDepthMaximum (some current) target true)
        frame.followLast frame.path.length frame.current frame.path frame.assertsDirectory) := by
    unfold vfsResolveCounted vfsResolveBegin vfsWalkFrom
    rw [bind_assoc]
    refine bind_congr fun path ↦ ?_
    by_cases hrelative : path.head? ≠ some separator
    · rw [if_pos hrelative, if_pos hrelative]
      rfl
    · rw [if_neg hrelative, if_neg hrelative, vfsWalk_succ]
  rw [hbegin, outcome_bind]
  unfold vfsResolveWalked Walker.resolve
  cases outcome (vfsResolveBegin path followLast) s with
  | mk answer s' =>
      cases answer with
      | error code => rfl
      | ok frame =>
          exact (outcome_vfsWalkLoop (fun frame target s ↦ outcome_vfsWalk beneath _ frame target s)
            _ frame s' le_rfl).symm

end OxysOS.Fs
