import OxysOS.Fs.Vfs.WalkLedger

/-!
# What resolving a path leaves as it was

What a volume holds is observed of the state beneath the layer: the names in
every directory, and the sizes of the files.  An action of the layer that calls
only operations that promise to keep it keeps it too.
-/

namespace OxysOS.Fs

open OxysOS.Library OxysOS.Mm OxysOS.Block Action

variable {ω κ α β θ : Type}

/-- What the filesystems promise of the names and the sizes: reading alters
neither, a refusal alters neither, and a creation that succeeds is seen. -/
structure Observed (beneath : Beneath ω κ) (observe : ω → θ) : Prop where
  allocate : ∀ w, observe (beneath.allocate w).2 = observe w
  readNode : ∀ i number mount node w,
    observe ((beneath.operations i).readNode number mount node w).2.2 = observe w
  releaseNode : ∀ i release, (beneath.operations i).releaseNode = some release →
    ∀ mount node w, observe (release mount node w) = observe w
  lookup : ∀ i name mount node w,
    observe ((beneath.operations i).lookup name mount node w).2.2 = observe w
  readLink : ∀ i readLink, (beneath.operations i).readLink = some readLink →
    ∀ capacity mount node w, observe (readLink capacity mount node w).2.2 = observe w
  refusedCreate : ∀ i create, (beneath.operations i).create = some create →
    ∀ name type permissions mount node w code,
      (create name type permissions mount node w).1 = .error code →
        observe (create name type permissions mount node w).2.2 = observe w
  created : ∀ i create, (beneath.operations i).create = some create →
    ∀ name type permissions mount node w number,
      (create name type permissions mount node w).1 = .ok number →
        observe (create name type permissions mount node w).2.2 ≠ observe w
  refusedTruncate : ∀ i truncate, (beneath.operations i).truncate = some truncate →
    ∀ size mount node w code, (truncate size mount node w).1 = .error code →
      observe (truncate size mount node w).2.2 = observe w

def Seen (observe : ω → θ) (o : θ) (s : Vfs ω κ) : Prop := observe s.world = o

/-- The action leaves what is observed as it was, however it ends. -/
def Quiet (observe : ω → θ) (action : VfsAction ω κ α) : Prop :=
  ∀ o, Triple (Seen observe o) action (fun _ ↦ Seen observe o) fun _ ↦ Seen observe o

variable {beneath : Beneath ω κ} {observe : ω → θ} {o : θ} {action : VfsAction ω κ α}
  {next : α → VfsAction ω κ β} {n : NodeIndex}

namespace Quiet

theorem pure (a : α) : Quiet observe (Pure.pure a : VfsAction ω κ α) :=
  fun _ ↦ Triple.pure fun _ hs ↦ hs

theorem throw (code : VfsError) : Quiet observe (MonadExcept.throw code : VfsAction ω κ α) :=
  fun _ ↦ Triple.throw fun _ hs ↦ hs

theorem bind (h : Quiet observe action) (hnext : ∀ a, Quiet observe (next a)) :
    Quiet observe (action >>= next) :=
  fun o ↦ (h o).bind fun a ↦ hnext a o

theorem attempt (h : Quiet observe action) : Quiet observe (attempt action) :=
  fun o ↦ Triple.attempt (h o)

theorem ite {c : Prop} [Decidable c] {other : VfsAction ω κ α} (hthen : Quiet observe action)
    (helse : Quiet observe other) : Quiet observe (if c then action else other) :=
  fun o ↦ Triple.ite (fun _ ↦ hthen o) fun _ ↦ helse o

theorem get {body : Vfs ω κ → VfsAction ω κ α} (h : ∀ s, Quiet observe (body s)) :
    Quiet observe (MonadState.get >>= body) :=
  fun o ↦ Triple.get fun s hs ↦ (h s o).pre fun _ ht ↦ ht ▸ hs

theorem modify {f : Vfs ω κ → Vfs ω κ} (h : ∀ s, (f s).world = s.world) :
    Quiet observe (modify f : VfsAction ω κ PUnit) :=
  fun _ ↦ Triple.modify fun s hs ↦ (congrArg observe (h s)).trans hs

theorem set_of_get {o : θ} {s t : Vfs ω κ} (hs : Seen observe o s)
    (h : observe t.world = observe s.world) {rest : VfsAction ω κ α} (hrest : Quiet observe rest) :
    Triple (fun r ↦ r = s) (set t >>= fun _ ↦ rest) (fun _ ↦ Seen observe o)
      fun _ ↦ Seen observe o :=
  (Triple.set fun _ _ ↦ h.trans hs).bind fun _ ↦ hrest o

theorem callNode {operation : NodeOperation ω κ α}
    (h : ∀ mount node w, observe (operation mount node w).2.2 = observe w) :
    Quiet observe (callNode n operation) := by
  intro o
  refine Triple.of_eq fun s hs ↦ ?_
  rw [outcome_callNode]
  have hkept := (h (s.mountOf n) (s.node n) s.world).trans hs
  cases (operation (s.mountOf n) (s.node n) s.world).1 with
  | ok a => exact Or.inl ⟨a, _, rfl, hkept⟩
  | error code => exact Or.inr ⟨code, _, rfl, hkept⟩

end Quiet

theorem Observed.growth (h : Observed beneath observe) (chunkCount : ℕ) (w : ω) :
    observe (growth beneath chunkCount w).2 = observe w := by
  unfold Fs.growth
  split_ifs
  · rfl
  · exact h.allocate w

theorem quiet_hold : Quiet observe (vfsNodeHold n : VfsAction ω κ Unit) := Quiet.modify fun _ ↦ rfl

theorem quiet_release (h : Observed beneath observe) (node : Option NodeIndex) :
    Quiet observe (vfsNodeRelease beneath node) := by
  cases node with
  | none => exact Quiet.pure _
  | some n =>
      intro o
      refine Triple.get fun s hs ↦ Triple.ite (fun _ ↦ ?_) fun _ ↦ Triple.ite (fun _ ↦ ?_) fun _ ↦ ?_
      · exact Triple.pure fun t ht ↦ ht ▸ hs
      · exact Triple.set fun _ _ ↦ hs
      · refine Triple.set fun _ _ ↦ ?_
        change observe _ = o
        cases hrelease : (beneath.operations (s.mountOf n).operations).releaseNode with
        | none => exact hs
        | some release => exact (h.releaseNode _ _ hrelease _ _ _).trans hs

theorem quiet_releaseAndRefuse (h : Observed beneath observe) (n : NodeIndex) (code : VfsError) :
    Quiet observe (releaseAndRefuse beneath n code : VfsAction ω κ α) :=
  (quiet_release h (some n)).bind fun _ ↦ Quiet.throw code

theorem quiet_nodeSlot (h : Observed beneath observe) : Quiet observe (vfsNodeSlot beneath) := by
  intro o
  refine Triple.get fun s hs ↦ ?_
  cases s.nodes.find fun node ↦ !node.inUse with
  | some available => exact Triple.pure fun t ht ↦ ht ▸ hs
  | none =>
      have hgrowth := h.growth s.nodes.chunkCount s.world
      exact Triple.ite (fun _ ↦ Quiet.set_of_get hs hgrowth (Quiet.pure _))
        fun _ ↦ Quiet.set_of_get hs hgrowth (Quiet.throw _)

theorem quiet_nodeRead (h : Observed beneath observe) (mount : MountIndex) (number : UInt64) :
    Quiet observe (vfsNodeRead beneath mount number) := by
  refine (quiet_nodeSlot h).bind fun available ↦ ?_
  refine Quiet.bind (Quiet.modify ?_) fun _ ↦ Quiet.get fun s ↦ ?_
  · exact fun _ ↦ rfl
  refine (Quiet.callNode fun _ _ _ ↦ h.readNode _ _ _ _ _).attempt.bind fun answer ↦ ?_
  cases answer with
  | ok _ => exact Quiet.pure _
  | error code =>
      refine Quiet.bind (Quiet.modify ?_) fun _ ↦ Quiet.throw code
      exact fun _ ↦ rfl

theorem quiet_acquire (h : Observed beneath observe) (mount : MountIndex) (number : UInt64) :
    Quiet observe (vfsNodeAcquire beneath mount number) := by
  refine Quiet.get fun s ↦ ?_
  cases s.nodes.find fun node ↦ node.inUse && node.mount == mount && node.number == number with
  | some index => exact quiet_hold.bind fun _ ↦ Quiet.pure _
  | none => exact quiet_nodeRead h mount number

theorem quiet_leaveMounts (h : Observed beneath observe) (fuel : ℕ) (n : NodeIndex) :
    Quiet observe (vfsLeaveMounts beneath fuel n) := by
  induction fuel generalizing n with
  | zero => exact Quiet.pure _
  | succ fuel ih =>
      refine Quiet.get fun s ↦ ?_
      split
      · exact quiet_hold.bind fun _ ↦ (quiet_release h _).bind fun _ ↦ ih _
      · exact Quiet.pure _

theorem quiet_crossMounts (h : Observed beneath observe) (fuel : ℕ) (n : NodeIndex) :
    Quiet observe (vfsCrossMounts beneath fuel n) := by
  induction fuel generalizing n with
  | zero => exact Quiet.pure _
  | succ fuel ih =>
      refine Quiet.get fun s ↦ ?_
      split
      · exact quiet_hold.bind fun _ ↦ (quiet_release h _).bind fun _ ↦ ih _
      · exact Quiet.pure _

variable {follow : NodeIndex → Name → VfsAction ω κ NodeIndex}

theorem quiet_followLink (h : Observed beneath observe)
    (hfollow : ∀ start target, Quiet observe (follow start target)) (current child : NodeIndex) :
    Quiet observe (vfsFollowLink beneath follow current child) := by
  have hexit : ∀ code, Quiet observe (do
      vfsNodeRelease beneath (some child)
      releaseAndRefuse beneath current code : VfsAction ω κ NodeIndex) :=
    fun code ↦ (quiet_release h _).bind fun _ ↦ quiet_releaseAndRefuse h current code
  refine Quiet.get fun s ↦ ?_
  split
  · exact hexit _
  · rename_i readLink hreadLink
    refine (Quiet.callNode fun _ _ _ ↦ h.readLink _ _ hreadLink _ _ _ _).attempt.bind fun answer ↦ ?_
    cases answer with
    | error code => exact hexit code
    | ok target =>
        refine Quiet.ite (hexit _) ((quiet_release h _).bind fun _ ↦ ?_)
        refine (hfollow current target).attempt.bind fun answer ↦ ?_
        cases answer with
        | error code => exact quiet_releaseAndRefuse h current code
        | ok resolved => exact Quiet.pure _

theorem quiet_walkComponent (h : Observed beneath observe)
    (hfollow : ∀ start target, Quiet observe (follow start target)) (name : Name)
    (mustFollow : Bool) (current : NodeIndex) :
    Quiet observe (vfsWalkComponent beneath follow name mustFollow current) := by
  unfold vfsWalkComponent
  refine Quiet.ite (quiet_releaseAndRefuse h _ _) (Quiet.get fun s ↦ ?_)
  refine Quiet.ite (quiet_releaseAndRefuse h _ _) ?_
  refine (Quiet.ite (quiet_leaveMounts h _ _) (Quiet.pure _)).bind fun current ↦ ?_
  refine Quiet.get fun s ↦ ?_
  refine (Quiet.callNode fun _ _ _ ↦ h.lookup _ _ _ _ _).attempt.bind fun answer ↦ ?_
  cases answer with
  | error code => exact quiet_releaseAndRefuse h _ _
  | ok number =>
      refine (quiet_acquire h _ _).attempt.bind fun answer ↦ ?_
      cases answer with
      | error code => exact quiet_releaseAndRefuse h _ _
      | ok child =>
          refine Quiet.get fun s ↦ (quiet_crossMounts h _ _).bind fun child ↦ Quiet.get fun s ↦ ?_
          refine (Quiet.ite (quiet_followLink h hfollow _ _) (Quiet.pure _)).bind fun child ↦ ?_
          exact (quiet_release h _).bind fun _ ↦ Quiet.pure _

theorem quiet_walkEnd (h : Observed beneath observe) (current : NodeIndex)
    (assertsDirectory : Bool) : Quiet observe (vfsWalkEnd beneath current assertsDirectory) :=
  Quiet.get fun _ ↦ Quiet.ite (quiet_releaseAndRefuse h _ _) (Quiet.pure _)

theorem quiet_walkLoop (h : Observed beneath observe)
    (hfollow : ∀ start target, Quiet observe (follow start target)) (followLast : Bool) (fuel : ℕ)
    (current : NodeIndex) (path : Name) (assertsDirectory : Bool) :
    Quiet observe (vfsWalkLoop beneath follow followLast fuel current path assertsDirectory) := by
  induction fuel generalizing current path assertsDirectory with
  | zero => exact quiet_walkEnd h _ _
  | succ fuel ih =>
      unfold vfsWalkLoop
      split
      · exact quiet_walkEnd h _ _
      · exact (quiet_walkComponent h hfollow _ _ _).bind fun child ↦ ih _ _ _

theorem quiet_walk (h : Observed beneath observe) (links : ℕ) (start : Option NodeIndex)
    (path : Name) (followLast : Bool) :
    Quiet observe (vfsWalk beneath links start path followLast) := by
  induction links generalizing start path followLast with
  | zero => exact Quiet.throw _
  | succ links ih =>
      unfold vfsWalk
      refine Quiet.ite (Quiet.throw _) (Quiet.get fun s ↦ ?_)
      dsimp only
      split
      · exact Quiet.throw _
      · exact quiet_hold.bind fun _ ↦ quiet_walkLoop h (fun _ _ ↦ ih _ _ _) _ _ _ _ _

theorem quiet_pathLength (path : Option Name) :
    Quiet observe (vfsPathLength path : VfsAction ω κ Name) := by
  cases path with
  | none => exact Quiet.throw _
  | some path => exact Quiet.ite (Quiet.throw _) (Quiet.ite (Quiet.throw _) (Quiet.pure _))

theorem quiet_resolveCounted (h : Observed beneath observe) (path : Option Name)
    (followLast : Bool) : Quiet observe (vfsResolveCounted beneath path followLast) :=
  (quiet_pathLength path).bind fun _ ↦ Quiet.ite (Quiet.throw _) (quiet_walk h _ _ _ _)

theorem quiet_resolveParent (h : Observed beneath observe) (path : Option Name) :
    Quiet observe (vfsResolveParent beneath path) := by
  refine (quiet_pathLength path).bind fun path ↦ ?_
  refine Quiet.ite (Quiet.throw _) (Quiet.ite (Quiet.throw _) ?_)
  refine Quiet.ite (Quiet.throw _) (Quiet.ite (Quiet.throw _) ?_)
  refine (quiet_walk h _ _ _ _).bind fun parent ↦ Quiet.get fun s ↦ ?_
  exact Quiet.ite (quiet_releaseAndRefuse h _ _) (Quiet.pure _)

theorem quiet_freeFile (h : Observed beneath observe) : Quiet observe (vfsFreeFile beneath) := by
  intro o
  refine Triple.get fun s hs ↦ ?_
  cases s.files.find fun file ↦ !file.isOpen with
  | some index => exact Triple.pure fun t ht ↦ ht ▸ hs
  | none =>
      have hgrowth := h.growth s.files.chunkCount s.world
      exact Triple.ite (fun _ ↦ Quiet.set_of_get hs hgrowth (Quiet.pure _))
        fun _ ↦ Quiet.set_of_get hs hgrowth (Quiet.throw _)

end OxysOS.Fs
