import OxysOS.Fs.Vfs.WalkLedger

/-!
# The operations upon names and open files keep the ledger

Every operation of `namespace.c` and `file.c` begins and ends with nothing in
hand, whichever of its exits it leaves by.
-/

namespace OxysOS.Fs

open OxysOS.Library OxysOS.Mm OxysOS.Block Action

variable {ω κ α : Type}

structure Balanced (s : Vfs ω κ) : Prop where
  ledger : Ledger s 0
  tables : Tables s
  rooted : ∀ m, (s.mount m).mounted = true → (s.mount m).root.isSome

variable {beneath : Beneath ω κ} {s₀ s₁ : Vfs ω κ} {hand : Multiset NodeIndex} {n : ℕ}
  {E : VfsError → Vfs ω κ → Prop}

theorem Balanced.holding {s : Vfs ω κ} (h : Balanced s) : Holding s 0 s :=
  ⟨h.ledger, SameTables.refl s⟩

theorem Balanced.of_holding {s : Vfs ω κ} (h : Balanced s₀) (hs : Holding s₀ 0 s) :
    Balanced s where
  ledger := hs.1
  tables := hs.tables h.tables
  rooted m := by rw [hs.2.mount_eq]; exact h.rooted m

structure Steady (s₁ s : Vfs ω κ) : Prop extends Balanced s where
  mounts : s.mounts = s₁.mounts
  rootMount : s.rootMount = s₁.rootMount

theorem Balanced.steady {s : Vfs ω κ} (h : Balanced s) : Steady s s := ⟨h, rfl, rfl⟩

theorem Steady.keep {s s' : Vfs ω κ} (h : Steady s₁ s) (hbalanced : Balanced s')
    (hmounts : s'.mounts = s.mounts) (hroot : s'.rootMount = s.rootMount) : Steady s₁ s' :=
  ⟨hbalanced, hmounts.trans h.mounts, hroot.trans h.rootMount⟩

theorem Steady.of_holding {s : Vfs ω κ} (h : Steady s₁ s₀) (hs : Holding s₀ 0 s) :
    Steady s₁ s :=
  h.keep (h.toBalanced.of_holding hs) hs.2.mounts hs.2.rootMount

theorem triple_steady {action : VfsAction ω κ α}
    (h : ∀ s₀ : Vfs ω κ, Tables s₀ → Triple (Holding s₀ 0) action (fun _ ↦ Holding s₀ 0)
      (fun _ ↦ Holding s₀ 0)) :
    Triple (Steady s₁) action (fun _ ↦ Steady s₁) (fun _ ↦ Steady s₁) := by
  refine Triple.intro fun s hs ↦ (h s hs.tables).weaken ?_ ?_ ?_
  · rintro t rfl
    exact hs.holding
  · exact fun _ t ht ↦ hs.of_holding ht
  · exact fun _ t ht ↦ hs.of_holding ht

theorem triple_pathLength {P : Vfs ω κ → Prop} (path : Option Name) :
    Triple P (vfsPathLength path) (fun _ ↦ P) (fun _ ↦ P) := by
  unfold vfsPathLength
  cases path with
  | none => exact Triple.throw fun _ hs ↦ hs
  | some path =>
      refine Triple.ite (fun _ ↦ Triple.throw fun _ hs ↦ hs) fun _ ↦ ?_
      exact Triple.ite (fun _ ↦ Triple.throw fun _ hs ↦ hs) fun _ ↦ Triple.pure fun _ hs ↦ hs

theorem triple_walkFrom (ht : Tables s₀) {path : Name} {followLast : Bool} :
    Triple (Holding s₀ hand) (vfsWalkFrom beneath none path followLast)
      (fun k ↦ Holding s₀ (k ::ₘ hand)) (fun _ ↦ Holding s₀ hand) :=
  triple_walk ht _ fun _ h ↦ by cases h

theorem triple_resolveCounted (ht : Tables s₀) {path : Option Name} {followLast : Bool} :
    Triple (Holding s₀ hand) (vfsResolveCounted beneath path followLast)
      (fun k ↦ Holding s₀ (k ::ₘ hand)) (fun _ ↦ Holding s₀ hand) :=
  (triple_pathLength path).bind fun _ ↦
    Triple.ite (fun _ ↦ Triple.throw fun _ hs ↦ hs) fun _ ↦ triple_walkFrom ht

theorem triple_resolveParent (ht : Tables s₀) {path : Option Name} :
    Triple (Holding s₀ hand) (vfsResolveParent beneath path)
      (fun answer ↦ Holding s₀ (answer.1 ::ₘ hand)) (fun _ ↦ Holding s₀ hand) := by
  refine (triple_pathLength path).bind fun path ↦ ?_
  refine Triple.ite (fun _ ↦ Triple.throw fun _ hs ↦ hs) fun _ ↦ ?_
  refine Triple.ite (fun _ ↦ Triple.throw fun _ hs ↦ hs) fun _ ↦ ?_
  refine Triple.ite (fun _ ↦ Triple.throw fun _ hs ↦ hs) fun _ ↦ ?_
  refine Triple.ite (fun _ ↦ Triple.throw fun _ hs ↦ hs) fun _ ↦ ?_
  refine (triple_walkFrom ht).bind fun parent ↦ Triple.look fun s hs ↦ ?_
  exact Triple.ite (fun _ ↦ triple_releaseAndRefuse ht) fun _ ↦ Triple.pure fun _ hs ↦ hs

theorem triple_actAndRelease (ht : Tables s₀) {operation : NodeOperation ω κ α} :
    Triple (Holding s₀ (n ::ₘ hand)) (actAndRelease beneath n operation)
      (fun _ ↦ Holding s₀ hand) (fun _ ↦ Holding s₀ hand) := by
  refine (Triple.attempt (Q := fun _ ↦ Holding s₀ (n ::ₘ hand)) (triple_callNode ht)).bind
    fun answer ↦ (triple_release ht).bind fun _ ↦ ?_
  cases answer with
  | error code => exact Triple.throw fun _ hs ↦ hs
  | ok a => exact Triple.pure fun _ hs ↦ hs

theorem triple_syncWhere (ht : Tables s₀) {durable : Bool} :
    Triple (Holding s₀ hand) (vfsSyncWhere beneath durable) (fun _ ↦ Holding s₀ hand) E := by
  refine Triple.ite (fun _ ↦ ?_) fun _ ↦ Triple.pure fun _ hs ↦ hs
  refine (Triple.attempt (Q := fun _ ↦ Holding s₀ hand) ?_).bind fun _ ↦ Triple.pure fun _ hs ↦ hs
  refine Triple.get fun s hs ↦ ?_
  refine (Triple.set (Q := fun _ ↦ Holding s₀ hand) fun _ _ ↦ hs.world ht _).bind fun _ ↦ ?_
  exact Triple.ite (fun _ ↦ Triple.pure fun _ hs ↦ hs) fun _ ↦ Triple.throw fun _ hs ↦ hs

theorem triple_alterDirectory (ht : Tables s₀) {operation : NodeOperation ω κ α} :
    Triple (Holding s₀ (n ::ₘ hand)) (alterDirectory beneath n operation)
      (fun _ ↦ Holding s₀ hand) (fun _ ↦ Holding s₀ hand) := by
  refine Triple.look fun s hs ↦ ?_
  exact (triple_actAndRelease ht).bind fun _ ↦ triple_syncWhere ht

theorem triple_stat {path : Option Name} {follow : Bool} :
    Triple (Steady s₁) (vfsStatCommon beneath path follow) (fun _ ↦ Steady s₁)
      (fun _ ↦ Steady s₁) := by
  refine triple_steady fun s₀ ht ↦ (triple_resolveCounted ht).bind fun node ↦ ?_
  refine Triple.look fun s hs ↦ ?_
  exact (triple_release ht).bind fun _ ↦ Triple.pure fun _ hs ↦ hs

theorem triple_truncate {path : Option Name} {size : UInt64} :
    Triple (Steady s₁) (vfsTruncate beneath path size) (fun _ ↦ Steady s₁) (fun _ ↦ Steady s₁) := by
  refine triple_steady fun s₀ ht ↦ (triple_resolveCounted ht).bind fun node ↦ ?_
  refine Triple.look fun s hs ↦ ?_
  refine Triple.ite (fun _ ↦ triple_releaseAndRefuse ht) fun _ ↦ ?_
  refine Triple.ite (fun _ ↦ triple_releaseAndRefuse ht) fun _ ↦ ?_
  split
  · exact triple_releaseAndRefuse ht
  · exact triple_actAndRelease ht

theorem triple_readLink {path : Option Name} {capacity : ℕ} :
    Triple (Steady s₁) (vfsReadLink beneath path capacity) (fun _ ↦ Steady s₁)
      (fun _ ↦ Steady s₁) := by
  refine triple_steady fun s₀ ht ↦ Triple.ite (fun _ ↦ Triple.throw fun _ hs ↦ hs) fun _ ↦ ?_
  refine (triple_resolveCounted ht).bind fun node ↦ Triple.look fun s hs ↦ ?_
  refine Triple.ite (fun _ ↦ triple_releaseAndRefuse ht) fun _ ↦ ?_
  split
  · exact triple_releaseAndRefuse ht
  · exact triple_actAndRelease ht

theorem triple_createDirectory {path : Option Name} {permissions : UInt16} :
    Triple (Steady s₁) (vfsCreateDirectory beneath path permissions) (fun _ ↦ Steady s₁)
      (fun _ ↦ Steady s₁) := by
  refine triple_steady fun s₀ ht ↦ (triple_resolveParent ht).bind fun answer ↦ ?_
  obtain ⟨parent, name⟩ := answer
  refine Triple.look fun s hs ↦ ?_
  refine Triple.ite (fun _ ↦ triple_releaseAndRefuse ht) fun _ ↦ ?_
  split
  · exact triple_releaseAndRefuse ht
  · exact triple_alterDirectory ht

theorem triple_resolveForRemoval (ht : Tables s₀) {path : Option Name} :
    Triple (Holding s₀ hand) (vfsResolveForRemoval beneath path)
      (fun answer ↦ Holding s₀ (answer.2.1 ::ₘ answer.1 ::ₘ hand)) (fun _ ↦ Holding s₀ hand) := by
  refine (triple_resolveParent ht).bind fun answer ↦ ?_
  obtain ⟨parent, name⟩ := answer
  refine Triple.look fun s hs ↦ ?_
  refine Triple.ite (fun _ ↦ triple_releaseAndRefuse ht) fun _ ↦ ?_
  refine (Triple.attempt (Q := fun _ ↦ Holding s₀ (parent ::ₘ hand)) (triple_callNode ht)).bind
    fun answer ↦ ?_
  cases answer with
  | error code => exact triple_releaseAndRefuse ht
  | ok number =>
      refine (triple_acquire ht hs.standing).attempt_answered.bind fun answer ↦ ?_
      cases answer with
      | error code => exact triple_releaseAndRefuse ht
      | ok child =>
          refine Triple.look fun s hs ↦ ?_
          refine Triple.ite (fun _ ↦ ?_) fun _ ↦ Triple.pure fun _ hs ↦ hs
          exact (triple_release ht).bind fun _ ↦ triple_releaseAndRefuse ht

theorem triple_removeName {path : Option Name} {refusal : VfsNodeType → Option VfsError}
    {choose : VfsFilesystemOperations ω κ → Option (Name → NodeOperation ω κ Unit)} :
    Triple (Steady s₁) (removeName beneath path refusal choose) (fun _ ↦ Steady s₁)
      (fun _ ↦ Steady s₁) := by
  refine triple_steady fun s₀ ht ↦ (triple_resolveForRemoval ht).bind fun answer ↦ ?_
  obtain ⟨parent, child, name⟩ := answer
  refine Triple.look fun s hs ↦ ?_
  split
  · exact (triple_release ht).bind fun _ ↦ triple_releaseAndRefuse ht
  · split
    · exact (triple_release ht).bind fun _ ↦ triple_releaseAndRefuse ht
    · exact (triple_release ht).bind fun _ ↦ triple_alterDirectory ht

theorem triple_unlink {path : Option Name} :
    Triple (Steady s₁) (vfsUnlink beneath path) (fun _ ↦ Steady s₁) (fun _ ↦ Steady s₁) := by
  unfold vfsUnlink
  exact triple_removeName

theorem triple_removeDirectory {path : Option Name} :
    Triple (Steady s₁) (vfsRemoveDirectory beneath path) (fun _ ↦ Steady s₁)
      (fun _ ↦ Steady s₁) := by
  unfold vfsRemoveDirectory
  exact triple_removeName

theorem triple_releaseBothAndRefuse (ht : Tables s₀) {parent target : NodeIndex}
    {code : VfsError} {Q : α → Vfs ω κ → Prop} :
    Triple (Holding s₀ (parent ::ₘ target ::ₘ hand))
      (releaseBothAndRefuse beneath parent target code) Q (fun _ ↦ Holding s₀ hand) :=
  (triple_release ht).bind fun _ ↦ triple_releaseAndRefuse ht

theorem triple_link {existing name : Option Name} :
    Triple (Steady s₁) (vfsLink beneath existing name) (fun _ ↦ Steady s₁) (fun _ ↦ Steady s₁) := by
  refine triple_steady fun s₀ ht ↦ (triple_resolveCounted ht).bind fun target ↦ ?_
  refine Triple.look fun s hs ↦ ?_
  refine Triple.ite (fun _ ↦ triple_releaseAndRefuse ht) fun _ ↦ ?_
  refine (triple_resolveParent ht).attempt_answered.bind fun answer ↦ ?_
  cases answer with
  | error code => exact triple_releaseAndRefuse ht
  | ok found =>
      obtain ⟨parent, component⟩ := found
      refine Triple.look fun s hs ↦ ?_
      refine Triple.ite (fun _ ↦ triple_releaseBothAndRefuse ht) fun _ ↦ ?_
      refine Triple.ite (fun _ ↦ triple_releaseBothAndRefuse ht) fun _ ↦ ?_
      split
      · exact triple_releaseBothAndRefuse ht
      · -- the filesystem rewrites the fields of both nodes
        refine (Triple.set (Q := fun _ ↦ Holding s₀ (parent ::ₘ target ::ₘ 0)) ?_).bind fun _ ↦ ?_
        · intro _ _
          exact ((Holding.contents hs parent _).contents target _).world ht _
        refine (triple_release ht).bind fun _ ↦ (triple_release ht).bind fun _ ↦ ?_
        split
        · exact Triple.throw fun _ hs ↦ hs
        · exact triple_syncWhere ht

end OxysOS.Fs
