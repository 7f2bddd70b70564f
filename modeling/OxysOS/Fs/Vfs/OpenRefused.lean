import OxysOS.Fs.Vfs.Balance
import OxysOS.Fs.Vfs.Links
import OxysOS.Fs.Vfs.Quiet

/-!
# An open that is refused

`VfsOpen` reserves its descriptor before it creates the file, so that a full
table leaves nothing behind.  What it asks of the node once the file is created
it asks too late: a refusal then leaves the file upon the volume.
-/

namespace OxysOS.Fs

open OxysOS.Library OxysOS.Mm OxysOS.Block Action

variable {ω κ α θ : Type} {beneath : Beneath ω κ} {observe : ω → θ} {o : θ}
  {path : Option Name} {flags : UInt32} {permissions : UInt16} {s s₁ : Vfs ω κ}

structure Creation where
  parent : NodeIndex
  mount : MountIndex
  number : UInt64

/-- `VfsCreateAndAcquire` as far as the file's creation. -/
def createNamed (beneath : Beneath ω κ) (path : Option Name) (permissions : UInt16) :
    VfsAction ω κ Creation := do
  let (parent, name) ← vfsResolveParent beneath path
  let s ← get
  if !vfsWritable s parent then releaseAndRefuse beneath parent .readOnly
  else
    match (beneath.operations (s.mountOf parent).operations).create with
    | none => releaseAndRefuse beneath parent .unsupported
    | some create =>
        match ← Action.attempt (callNode parent (create name .regular permissions)) with
        | .error code => releaseAndRefuse beneath parent code
        | .ok number => return ⟨parent, (s.node parent).mount, number⟩

/-- The end of `VfsCreateAndAcquire`. -/
def acquireCreated (beneath : Beneath ω κ) (creation : Creation) : VfsAction ω κ NodeIndex := do
  let node ← Action.attempt (vfsNodeAcquire beneath creation.mount creation.number)
  vfsNodeRelease beneath (some creation.parent)
  match node with
  | .error code => throw code
  | .ok node => return node

/-- The end of `VfsOpen`, the node found. -/
def openNode (beneath : Beneath ω κ) (flags : UInt32) (descriptor : FileIndex)
    (node : NodeIndex) : VfsAction ω κ FileIndex := do
  let s ← get
  match vfsOpenRefusal s node flags with
  | some code => releaseAndRefuse beneath node code
  | none =>
      let truncated ←
        (if flags &&& vfsOpenTruncate ≠ 0 ∧ (s.node node).size ≠ 0 then
          match (beneath.operations (s.mountOf node).operations).truncate with
          | none => pure (Except.error VfsError.unsupported)
          | some truncate => Action.attempt (callNode node (truncate 0))
        else pure (Except.ok ()))
      match truncated with
      | .error code => releaseAndRefuse beneath node code
      | .ok _ =>
          modify fun s ↦ s.putFile descriptor
            { s.file descriptor with node := some node, position := 0, flags := flags,
                                     isOpen := true, holders := 1 }
          return descriptor

/-- Whether the flags are ones `VfsOpen` refuses before it does anything. -/
def flagsInvalid (flags : UInt32) : Prop :=
  flags &&& (vfsOpenRead ||| vfsOpenWrite) = 0 ∨
    flags &&& vfsOpenExclusive ≠ 0 ∧ flags &&& vfsOpenCreate = 0 ∨
    flags &&& (vfsOpenTruncate ||| vfsOpenAppend) ≠ 0 ∧ flags &&& vfsOpenWrite = 0

instance : Decidable (flagsInvalid flags) := by
  unfold flagsInvalid
  infer_instance

/-- `VfsOpen` as far as the creation of a file.  It is refused where nothing is
created, whatever becomes of the open. -/
def openCreation (beneath : Beneath ω κ) (path : Option Name) (flags : UInt32)
    (permissions : UInt16) : VfsAction ω κ (FileIndex × Creation) := do
  if flagsInvalid flags then throw .invalid
  else
    let descriptor ← vfsFreeFile beneath
    match ← Action.attempt (vfsResolveCounted beneath path (flags &&& vfsOpenNoFollow == 0)) with
    | .ok _ => throw .exists
    | .error code =>
        if flags &&& vfsOpenCreate ≠ 0 ∧ code = .notFound then do
          let creation ← createNamed beneath path permissions
          return (descriptor, creation)
        else throw code

theorem vfsCreateAndAcquire_eq : vfsCreateAndAcquire beneath path permissions =
    (createNamed beneath path permissions >>= acquireCreated beneath) := by
  unfold vfsCreateAndAcquire createNamed
  rw [bind_assoc]
  refine bind_congr fun ⟨parent, name⟩ ↦ ?_
  rw [bind_assoc]
  refine bind_congr fun s ↦ ?_
  by_cases hwritable : (!vfsWritable s parent) = true
  · rw [if_pos hwritable, if_pos hwritable, releaseAndRefuse_bind]
  rw [if_neg hwritable, if_neg hwritable]
  cases (beneath.operations (s.mountOf parent).operations).create with
  | none => exact (releaseAndRefuse_bind beneath _ _ _).symm
  | some create =>
      dsimp only
      rw [bind_assoc]
      refine bind_congr fun answer ↦ ?_
      cases answer with
      | error code => exact (releaseAndRefuse_bind beneath _ _ _).symm
      | ok number => rw [pure_bind]; rfl

theorem vfsOpen_eq : vfsOpen beneath path flags permissions =
    (if flagsInvalid flags then throw .invalid
    else do
      let descriptor ← vfsFreeFile beneath
      match ← Action.attempt (vfsResolveCounted beneath path (flags &&& vfsOpenNoFollow == 0)) with
      | .ok node =>
          if flags &&& (vfsOpenCreate ||| vfsOpenExclusive) =
              vfsOpenCreate ||| vfsOpenExclusive then
            releaseAndRefuse beneath node .exists
          else openNode beneath flags descriptor node
      | .error code =>
          if flags &&& vfsOpenCreate ≠ 0 ∧ code = .notFound then do
            let creation ← createNamed beneath path permissions
            let node ← acquireCreated beneath creation
            openNode beneath flags descriptor node
          else throw code) := by
  unfold vfsOpen
  by_cases hneither : flags &&& (vfsOpenRead ||| vfsOpenWrite) = 0
  · rw [if_pos hneither, if_pos (show flagsInvalid flags from Or.inl hneither)]
  by_cases hexclusive : flags &&& vfsOpenExclusive ≠ 0 ∧ flags &&& vfsOpenCreate = 0
  · rw [if_neg hneither, if_pos hexclusive,
      if_pos (show flagsInvalid flags from Or.inr (Or.inl hexclusive))]
  by_cases hwrite : flags &&& (vfsOpenTruncate ||| vfsOpenAppend) ≠ 0 ∧ flags &&& vfsOpenWrite = 0
  · rw [if_neg hneither, if_neg hexclusive, if_pos hwrite,
      if_pos (show flagsInvalid flags from Or.inr (Or.inr hwrite))]
  have hvalid : ¬flagsInvalid flags := by
    rintro (h | h | h)
    · exact hneither h
    · exact hexclusive h
    · exact hwrite h
  rw [if_neg hneither, if_neg hexclusive, if_neg hwrite, if_neg hvalid]
  refine bind_congr fun descriptor ↦ ?_
  unfold vfsOpenNode
  rw [bind_assoc]
  refine bind_congr fun answer ↦ ?_
  cases answer with
  | ok node =>
      dsimp only
      by_cases hexists : flags &&& (vfsOpenCreate ||| vfsOpenExclusive) =
          vfsOpenCreate ||| vfsOpenExclusive
      · rw [if_pos hexists, if_pos hexists, releaseAndRefuse_bind]
      · rw [if_neg hexists, if_neg hexists, pure_bind]
        rfl
  | error code =>
      dsimp only
      by_cases hcreates : flags &&& vfsOpenCreate ≠ 0 ∧ code = .notFound
      · rw [if_pos hcreates, if_pos hcreates, vfsCreateAndAcquire_eq, bind_assoc]
        rfl
      · rw [if_neg hcreates, if_neg hcreates]
        rfl

def QuietRefusal (observe : ω → θ) (action : VfsAction ω κ α) : Prop :=
  ∀ o, Triple (Seen observe o) action (fun _ _ ↦ True) fun _ ↦ Seen observe o

theorem Quiet.refusal {action : VfsAction ω κ α} (h : Quiet observe action) :
    QuietRefusal observe action :=
  fun o ↦ (h o).post fun _ _ _ ↦ trivial

theorem quiet_acquireCreated (h : Observed beneath observe) (creation : Creation) :
    Quiet observe (acquireCreated beneath creation) := by
  refine (quiet_acquire h _ _).attempt.bind fun answer ↦ (quiet_release h _).bind fun _ ↦ ?_
  cases answer with
  | error code => exact Quiet.throw code
  | ok node => exact Quiet.pure node

def Answered (observe : ω → θ) (o : θ) (A : Vfs ω κ → Prop) : Except VfsError α → Vfs ω κ → Prop
  | .ok _ => A
  | .error _ => Seen observe o

theorem triple_attemptCall {n : NodeIndex} {operation : NodeOperation ω κ α}
    {A : Vfs ω κ → Prop}
    (hrefused : ∀ mount node w code, (operation mount node w).1 = .error code →
      observe (operation mount node w).2.2 = observe w)
    (hanswered : ∀ s a, Seen observe o s →
      (operation (s.mountOf n) (s.node n) s.world).1 = .ok a →
        A (outcome (callNode n operation) s).2) :
    Triple (Seen observe o) (Action.attempt (callNode n operation)) (Answered observe o A)
      fun _ _ ↦ False := by
  refine Triple.attempt (Triple.of_eq fun s hs ↦ ?_)
  have hstate := hanswered s
  rw [outcome_callNode] at hstate ⊢
  cases hanswer : (operation (s.mountOf n) (s.node n) s.world).1 with
  | ok a => exact Or.inl ⟨a, _, rfl, hstate a hs hanswer⟩
  | error code => exact Or.inr ⟨code, _, rfl, (hrefused _ _ _ code hanswer).trans hs⟩

theorem quietRefusal_openNode (h : Observed beneath observe) (descriptor : FileIndex)
    (node : NodeIndex) : QuietRefusal observe (openNode beneath flags descriptor node) := by
  intro o
  refine Triple.get fun s hs ↦ ?_
  have hstart : ∀ t : Vfs ω κ, t = s → Seen observe o t := fun t ht ↦ ht ▸ hs
  cases vfsOpenRefusal s node flags with
  | some code => exact ((quiet_releaseAndRefuse h node code).refusal o).pre hstart
  | none =>
      have htruncated : Triple (fun t ↦ t = s)
          (if flags &&& vfsOpenTruncate ≠ 0 ∧ (s.node node).size ≠ 0 then
            match (beneath.operations (s.mountOf node).operations).truncate with
            | none => pure (Except.error VfsError.unsupported)
            | some truncate => Action.attempt (callNode node (truncate 0))
          else pure (Except.ok ()))
          (Answered observe o fun _ ↦ True) fun _ ↦ Seen observe o := by
        refine Triple.ite (fun _ ↦ ?_) fun _ ↦ Triple.pure fun _ _ ↦ trivial
        cases htruncate : (beneath.operations (s.mountOf node).operations).truncate with
        | none => exact Triple.pure fun t ht ↦ hstart t ht
        | some truncate =>
            exact (triple_attemptCall (fun _ _ _ _ ↦ h.refusedTruncate _ _ htruncate _ _ _ _ _)
              fun _ _ _ _ ↦ True.intro).weaken hstart (fun _ _ ht ↦ ht) fun _ _ hnever ↦ hnever.elim
      refine htruncated.bind fun answer ↦ ?_
      cases answer with
      | error code => exact (quiet_releaseAndRefuse h node code).refusal o
      | ok _ =>
          refine Triple.bind (Q := fun _ _ ↦ True) (Triple.modify fun _ _ ↦ trivial) fun _ ↦ ?_
          exact Triple.pure fun _ _ ↦ trivial

theorem triple_createNamed (h : Observed beneath observe) :
    Triple (Seen observe o) (createNamed beneath path permissions)
      (fun _ s ↦ observe s.world ≠ o) fun _ ↦ Seen observe o := by
  have hrefuse : ∀ {parent : NodeIndex} {code : VfsError},
      Triple (Seen observe o) (releaseAndRefuse beneath parent code : VfsAction ω κ Creation)
        (fun _ s ↦ observe s.world ≠ o) fun _ ↦ Seen observe o :=
    (quiet_release h _ o).bind fun _ ↦ Triple.throw fun _ hs ↦ hs
  refine (quiet_resolveParent h path o).bind fun ⟨parent, name⟩ ↦ ?_
  refine Triple.look fun s hs ↦ ?_
  refine Triple.ite (fun _ ↦ hrefuse) fun _ ↦ ?_
  cases hcreate : (beneath.operations (s.mountOf parent).operations).create with
  | none => exact hrefuse
  | some create =>
      refine ((triple_attemptCall (A := fun s ↦ observe s.world ≠ o)
        (fun _ _ _ _ ↦ h.refusedCreate _ _ hcreate _ _ _ _ _ _ _) ?_).weaken (fun _ ht ↦ ht)
        (fun _ _ ht ↦ ht) fun _ _ hnever ↦ hnever.elim).bind fun answer ↦ ?_
      · intro t number ht hanswer
        rw [outcome_callNode]
        exact fun hsame ↦ h.created _ _ hcreate _ _ _ _ _ _ _ hanswer (hsame.trans ht.symm)
      · cases answer with
        | error code => exact hrefuse
        | ok number => exact Triple.pure fun _ ht ↦ ht

/-- The file just created can be opened as the flags ask: its node is had, is
judged fit, and is truncated where it must be. -/
def OpensCreated (beneath : Beneath ω κ) (flags : UInt32) (creation : Creation)
    (s : Vfs ω κ) : Prop :=
  ∃ node t, outcome (acquireCreated beneath creation) s = (.ok node, t) ∧
    vfsOpenRefusal t node flags = none ∧
      (flags &&& vfsOpenTruncate ≠ 0 → (t.node node).size ≠ 0 →
        ∃ truncate, (beneath.operations (t.mountOf node).operations).truncate = some truncate ∧
          ∃ a, (truncate 0 (t.mountOf node) (t.node node) t.world).1 = .ok a)

theorem openNode_refused_iff (descriptor : FileIndex) (node : NodeIndex) :
    (∃ code s', outcome (openNode beneath flags descriptor node) s = (.error code, s')) ↔
      ¬(vfsOpenRefusal s node flags = none ∧
        (flags &&& vfsOpenTruncate ≠ 0 → (s.node node).size ≠ 0 →
          ∃ truncate, (beneath.operations (s.mountOf node).operations).truncate = some truncate ∧
            ∃ a, (truncate 0 (s.mountOf node) (s.node node) s.world).1 = .ok a)) := by
  unfold openNode
  rw [outcome_bind, outcome_get]
  cases hrefusal : vfsOpenRefusal s node flags with
  | some code => simp [hrefusal, outcome_releaseAndRefuse]
  | none =>
      simp only [hrefusal]
      rw [outcome_bind]
      by_cases htruncates : flags &&& vfsOpenTruncate ≠ 0 ∧ (s.node node).size ≠ 0
      · rw [if_pos htruncates]
        cases htruncate : (beneath.operations (s.mountOf node).operations).truncate with
        | none => simp [outcome_releaseAndRefuse, htruncates.1, htruncates.2]
        | some truncate =>
            dsimp only
            rw [outcome_attempt, outcome_callNode]
            cases hanswer : (truncate 0 (s.mountOf node) (s.node node) s.world).1 with
            | error code =>
                simp [outcome_releaseAndRefuse, htruncates.1, htruncates.2, hanswer]
            | ok a =>
                refine ⟨fun ⟨code, s', heq⟩ ↦ ?_, fun hrefused ↦ (hrefused ?_).elim⟩
                · cases heq
                · exact ⟨trivial, fun _ _ ↦ ⟨truncate, rfl, a, hanswer⟩⟩
      · rw [if_neg htruncates]
        refine ⟨fun ⟨code, s', heq⟩ ↦ ?_, fun hrefused ↦ (hrefused ?_).elim⟩
        · cases heq
        · exact ⟨trivial, fun hflag hsize ↦ (htruncates ⟨hflag, hsize⟩).elim⟩

theorem Quiet.kept {action : VfsAction ω κ α} (h : Quiet observe action)
    {answer : Except VfsError α} {s s' : Vfs ω κ} (houtcome : outcome action s = (answer, s')) :
    observe s'.world = observe s.world := by
  rcases (h (observe s.world)).cases rfl with ⟨a, t, heq, hseen⟩ | ⟨code, t, heq, hseen⟩
  · rw [heq, Prod.mk.injEq] at houtcome
    exact houtcome.2 ▸ hseen
  · rw [heq, Prod.mk.injEq] at houtcome
    exact houtcome.2 ▸ hseen

theorem QuietRefusal.kept {action : VfsAction ω κ α} (h : QuietRefusal observe action)
    {code : VfsError} {s s' : Vfs ω κ} (houtcome : outcome action s = (.error code, s')) :
    observe s'.world = observe s.world := by
  have hseen := (h (observe s.world) s rfl).2 code
  rw [houtcome] at hseen
  exact hseen rfl

theorem vfsOpen_of_creation_refused (h : Observed beneath observe) {code code' : VfsError}
    {s s₁ s' : Vfs ω κ}
    (hcreation : outcome (openCreation beneath path flags permissions) s = (.error code, s₁))
    (hopen : outcome (vfsOpen beneath path flags permissions) s = (.error code', s')) :
    observe s'.world = observe s.world := by
  rw [vfsOpen_eq] at hopen
  unfold openCreation at hcreation
  by_cases hinvalid : flagsInvalid flags
  · rw [if_pos hinvalid] at hopen
    cases hopen
    rfl
  rw [if_neg hinvalid] at hopen hcreation
  rw [outcome_bind] at hopen hcreation
  cases hfree : outcome (vfsFreeFile beneath) s with
  | mk answer t =>
      have hkeptFree := (quiet_freeFile h).kept hfree
      rw [hfree] at hopen hcreation
      cases answer with
      | error code => cases hopen; exact hkeptFree
      | ok descriptor =>
          dsimp only at hopen hcreation
          rw [outcome_bind, outcome_attempt] at hopen hcreation
          cases hresolve : outcome
              (vfsResolveCounted beneath path (flags &&& vfsOpenNoFollow == 0)) t with
          | mk answer u =>
              have hkept := ((quiet_resolveCounted h path _).kept hresolve).trans hkeptFree
              rw [hresolve] at hopen hcreation
              cases answer with
              | ok node =>
                  dsimp only at hopen
                  split_ifs at hopen
                  · exact ((quiet_releaseAndRefuse h node .exists).kept hopen).trans hkept
                  · exact ((quietRefusal_openNode h descriptor node).kept hopen).trans hkept
              | error code =>
                  dsimp only at hopen hcreation
                  split_ifs at hopen hcreation with hcreates
                  · rw [outcome_bind] at hopen hcreation
                    cases hcreate : outcome (createNamed beneath path permissions) u with
                    | mk answer v =>
                        rw [hcreate] at hopen hcreation
                        cases answer with
                        | ok creation => cases hcreation
                        | error code =>
                            cases hopen
                            have hseen : Triple (Seen observe (observe u.world))
                                (createNamed beneath path permissions) _ _ := triple_createNamed h
                            have hleft := (hseen u rfl).2 code'
                            rw [hcreate] at hleft
                            exact (hleft rfl).trans hkept
                  · cases hopen
                    exact hkept

theorem vfsOpen_of_created {descriptor : FileIndex} {creation : Creation} {s s₁ : Vfs ω κ}
    (hcreation : outcome (openCreation beneath path flags permissions) s =
      (.ok (descriptor, creation), s₁)) :
    outcome (vfsOpen beneath path flags permissions) s =
      outcome (acquireCreated beneath creation >>= openNode beneath flags descriptor) s₁ := by
  rw [vfsOpen_eq]
  unfold openCreation at hcreation
  by_cases hinvalid : flagsInvalid flags
  · rw [if_pos hinvalid] at hcreation
    cases hcreation
  rw [if_neg hinvalid] at hcreation ⊢
  rw [outcome_bind] at hcreation ⊢
  cases hfree : outcome (vfsFreeFile beneath) s with
  | mk answer t =>
      rw [hfree] at hcreation
      cases answer with
      | error code => cases hcreation
      | ok first =>
          dsimp only at hcreation ⊢
          rw [outcome_bind, outcome_attempt] at hcreation ⊢
          cases hresolve : outcome
              (vfsResolveCounted beneath path (flags &&& vfsOpenNoFollow == 0)) t with
          | mk answer u =>
              rw [hresolve] at hcreation
              cases answer with
              | ok node => cases hcreation
              | error code =>
                  dsimp only at hcreation ⊢
                  split_ifs at hcreation ⊢ with hcreates
                  · rw [outcome_bind] at hcreation ⊢
                    cases hcreate : outcome (createNamed beneath path permissions) u with
                    | mk answer v =>
                        rw [hcreate] at hcreation
                        cases answer with
                        | error code => cases hcreation
                        | ok made => cases hcreation; rfl
                  · cases hcreation

theorem openCreation_seen (h : Observed beneath observe) {descriptor : FileIndex}
    {creation : Creation} {s s₁ : Vfs ω κ}
    (hcreation : outcome (openCreation beneath path flags permissions) s =
      (.ok (descriptor, creation), s₁)) : observe s₁.world ≠ observe s.world := by
  have hseen : Triple (Seen observe (observe s.world))
      (openCreation beneath path flags permissions)
      (fun _ t ↦ observe t.world ≠ observe s.world) fun _ _ ↦ True := by
    refine Triple.ite (fun _ ↦ Triple.throw fun _ _ ↦ trivial) fun _ ↦ ?_
    refine ((quiet_freeFile h _).weaken (fun _ ht ↦ ht) (fun _ _ ht ↦ ht)
      fun _ _ _ ↦ trivial).bind fun first ↦ ?_
    refine ((quiet_resolveCounted h path _).attempt _ |>.weaken (fun _ ht ↦ ht)
      (fun _ _ ht ↦ ht) fun _ _ _ ↦ trivial).bind fun answer ↦ ?_
    cases answer with
    | ok node => exact Triple.throw fun _ _ ↦ trivial
    | error code =>
        refine Triple.ite (fun _ ↦ ?_) fun _ ↦ Triple.throw fun _ _ ↦ trivial
        refine ((triple_createNamed h).weaken (fun _ ht ↦ ht) (fun _ _ ht ↦ ht)
          fun _ _ _ ↦ trivial).bind fun made ↦ Triple.pure fun _ ht ↦ ht
  have hleft := (hseen s rfl).1 (descriptor, creation)
  rw [hcreation] at hleft
  exact hleft rfl

/-- An open that is refused leaves the names and the sizes as they were exactly
where a file it creates can be opened as it was asked to be. -/
theorem vfsOpen_refused_quiet_iff (h : Observed beneath observe) (s : Vfs ω κ)
    (path : Option Name) (flags : UInt32) (permissions : UInt16) :
    (∀ code s', outcome (vfsOpen beneath path flags permissions) s = (.error code, s') →
      observe s'.world = observe s.world) ↔
    ∀ descriptor creation s₁,
      outcome (openCreation beneath path flags permissions) s = (.ok (descriptor, creation), s₁) →
        OpensCreated beneath flags creation s₁ := by
  refine ⟨fun hquiet descriptor creation s₁ hcreation ↦ ?_, fun hopens code s' hopen ↦ ?_⟩
  · have hseen := openCreation_seen h hcreation
    have hrest := vfsOpen_of_created hcreation
    rw [outcome_bind] at hrest
    cases hacquire : outcome (acquireCreated beneath creation) s₁ with
    | mk answer t =>
        have hkept := (quiet_acquireCreated h creation).kept hacquire
        rw [hacquire] at hrest
        cases answer with
        | error code => exact absurd (hkept.symm.trans (hquiet code t hrest)) hseen
        | ok node =>
            refine ⟨node, t, hacquire, Classical.byContradiction fun hunfit ↦ ?_⟩
            obtain ⟨code, s', hrefused⟩ :=
              (openNode_refused_iff descriptor node).mpr hunfit
            have hkeptNode := (quietRefusal_openNode h descriptor node).kept hrefused
            exact hseen ((hkeptNode.trans hkept).symm.trans
              (hquiet code s' (hrest.trans hrefused)))
  · cases hcreation : outcome (openCreation beneath path flags permissions) s with
    | mk answer s₁ =>
        cases answer with
        | error code => exact vfsOpen_of_creation_refused h hcreation hopen
        | ok made =>
            obtain ⟨descriptor, creation⟩ := made
            obtain ⟨node, t, hacquire, hfit⟩ := hopens descriptor creation s₁ hcreation
            rw [vfsOpen_of_created hcreation, outcome_bind, hacquire] at hopen
            exact ((openNode_refused_iff descriptor node).mp ⟨code, s', hopen⟩ hfit).elim

/-! ## A filesystem that creates

Beneath the layer is the list of the files created, each numbered by its place
in it. -/

def listedNumber (names : List Name) (name : Name) : UInt64 :=
  16 + (names.idxOf name).toUInt64

def listedOperations : VfsFilesystemOperations (List Name) Unit where
  __ := flatOperations
  readNode number _ node names :=
    (.ok (), { node.toNodeContents with
      type := if number = 4 ∨ 16 ≤ number then .regular else .directory }, names)
  lookup name _ node names :=
    (if name ∈ names then .ok (listedNumber names name) else flatLookup node.number name,
      node.toNodeContents, names)
  create := some fun name _ _ _ node names ↦
    if name ∈ names then (.error .exists, node.toNodeContents, names)
    else (.ok (listedNumber names name), node.toNodeContents, names ++ [name])

def listedBeneath : Beneath (List Name) Unit where
  operations _ := listedOperations
  allocate names := (true, names)
  bufferSync names := (true, names)
  blockFindByName _ name := name.head?.map UInt8.toUInt64

def listedMounted : Vfs (List Name) Unit :=
  after listedBeneath (after listedBeneath (flatVfs []) (.registerFilesystem (some [102]) 0))
    (.mountVolume (some [1]) (some [separator]) (some [102]) false)

theorem listedMounted_reachable : Reachable listedBeneath listedMounted :=
  .called _ (.called _ (.initialised _) id) id

theorem observed_listed : Observed listedBeneath id where
  allocate _ := rfl
  readNode _ _ _ _ _ := rfl
  releaseNode _ _ hrelease := by cases hrelease
  lookup _ _ _ _ _ := rfl
  readLink _ _ hreadLink := by cases hreadLink
  refusedCreate _ _ hcreate := by
    rintro name type permissions mount node names code hrefused
    cases hcreate
    by_cases hname : name ∈ names
    · simp [hname]
    · simp [hname] at hrefused
  created _ _ hcreate := by
    rintro name type permissions mount node names number hcreated
    cases hcreate
    by_cases hname : name ∈ names
    · simp [hname] at hcreated
    · simp [hname]
  refusedTruncate _ _ htruncate := by cases htruncate

/-- The file `/b` is created and opened. -/
theorem vfsOpen_refused_quiet_iff_listed :
    (∀ code s', outcome (vfsOpen listedBeneath (some [separator, 98])
        (vfsOpenRead ||| vfsOpenCreate) 0) listedMounted = (.error code, s') →
      id s'.world = id listedMounted.world) ↔
    ∀ descriptor creation s₁, outcome (openCreation listedBeneath (some [separator, 98])
        (vfsOpenRead ||| vfsOpenCreate) 0) listedMounted = (.ok (descriptor, creation), s₁) →
      OpensCreated listedBeneath (vfsOpenRead ||| vfsOpenCreate) creation s₁ :=
  vfsOpen_refused_quiet_iff observed_listed listedMounted _ _ _

/-- The file `/b` is asked for as a directory to be created: the open is
refused, and a file of that name is left. -/
theorem vfsOpen_refused_creates :
    ∃ s code s', Reachable listedBeneath s ∧
      outcome (vfsOpen listedBeneath (some [separator, 98])
        (vfsOpenRead ||| vfsOpenCreate ||| vfsOpenDirectory) 0) s = (.error code, s') ∧
      s.world = [] ∧ s'.world = [[98]] := by
  let opened := outcome (vfsOpen listedBeneath (some [separator, 98])
    (vfsOpenRead ||| vfsOpenCreate ||| vfsOpenDirectory) 0) listedMounted
  have hrefused : opened.1.toOption = none := by decide +kernel
  cases hopened : opened with
  | mk answer s' =>
      rw [hopened] at hrefused
      cases answer with
      | ok descriptor => cases hrefused
      | error code =>
          refine ⟨listedMounted, code, s', listedMounted_reachable, hopened, ?_, ?_⟩
          · decide +kernel
          · have hleft : opened.2.world = [[98]] := by decide +kernel
            rwa [hopened] at hleft

end OxysOS.Fs
