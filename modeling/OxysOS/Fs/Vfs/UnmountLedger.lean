import OxysOS.Fs.Vfs.MountLedger

/-!
# Withdrawing a mount keeps the ledger

A mount that is not busy holds the last reference upon its root, and gives its
two references back one at a time, what it covered passing into the hand.
-/

namespace OxysOS.Fs

open OxysOS.Library OxysOS.Mm OxysOS.Block Action

variable {ω κ : Type}

variable {beneath : Beneath ω κ} {s₀ s : Vfs ω κ} {hand : Multiset NodeIndex} {n m : ℕ}
  {E : VfsError → Vfs ω κ → Prop}

theorem Balanced.root_of_idle (h : Balanced s) (hidle : vfsMountIsBusy s m = false)
    (hn : (s.node n).inUse = true) (hnm : (s.node n).mount = m) :
    (s.mount m).root = some n ∧ (s.node n).references = 1 := by
  have hpositive := h.ledger.positive n hn
  unfold vfsMountIsBusy at hidle
  simp only [Bool.or_eq_false_iff] at hidle
  have hnode := List.any_eq_false.mp hidle.1.2 n (List.mem_range.mpr (h.ledger.bounded n hn))
  simp only [hn, hnm, beq_self_eq_true, Bool.true_and] at hnode
  by_cases hroot : (s.mount m).root = some n
  · rw [hroot] at hnode
    simp only [beq_self_eq_true, if_true, decide_eq_true_eq] at hnode
    exact ⟨hroot, by omega⟩
  · simp [hroot] at hnode

theorem Balanced.covered_elsewhere (h : Balanced s) (hidle : vfsMountIsBusy s m = false)
    (hm : (s.mount m).mounted = true) (hcovered : (s.mount m).covered = some n) :
    (s.node n).mount ≠ m := by
  intro hnm
  have hn := h.ledger.inUse_of_covered h.tables hm hcovered
  obtain ⟨hroot, hreferences⟩ := h.root_of_idle hidle hn hnm
  -- the mount would hold the node twice
  have hcounted := h.ledger.counted n hn
  have hroots : 0 < rootMounts s n := tally_pos (h.tables.mountBounded m hm) ⟨hm, hroot⟩
  have hcovering : 0 < coveringMounts s n := tally_pos (h.tables.mountBounded m hm) ⟨hm, hcovered⟩
  unfold holders at hcounted
  omega

theorem Ledger.unroot (h : Ledger s hand) (hm : m < s.mounts.capacity)
    (hmounted : (s.mount m).mounted = true) (hroot : (s.mount m).root = some n) :
    Ledger (s.putMount m { s.mount m with root := none }) (n ::ₘ hand) := by
  have hback : ∀ m' k,
      ((s.putMount m { s.mount m with root := none }).mount m').mounted = true →
      ((s.putMount m { s.mount m with root := none }).mount m').covered = some k →
      (s.mount m').mounted = true ∧ (s.mount m').covered = some k := by
    intro m' k hstands hcovers
    by_cases hmm : m' = m
    · subst hmm
      rw [putMount_mount_self] at hstands hcovers
      exact ⟨hstands, hcovers⟩
    · rw [putMount_mount_of_ne hmm] at hstands hcovers
      exact ⟨hstands, hcovers⟩
  refine h.remount (SameButMount.putMount s m _) hm (fun k ↦ ?_) ?_ ?_ ?_ ?_
    (h.forest.of_fewer (fun _ ↦ rfl) hback)
  · rw [putMount_mount_self, Multiset.count_cons]
    unfold mountHolds
    rw [hroot]
    simp only [hmounted, true_and, Option.some.injEq, reduceCtorEq, if_false, eq_comm (a := k)]
    omega
  · rw [putMount_mount_self]
    exact fun _ _ _ ↦ hmounted
  · intro r _ hr
    rw [putMount_mount_self] at hr
    cases hr
  · intro k m' hk hk'
    obtain ⟨hstands, hcovers⟩ := h.crossing k m' hk hk'
    by_cases hmm : m' = m
    · subst hmm
      rw [putMount_mount_self]
      exact ⟨hstands, hcovers⟩
    · rw [putMount_mount_of_ne hmm]
      exact ⟨hstands, hcovers⟩
  · intro m' k hstands hcovered
    exact h.covering m' k (hback m' k hstands hcovered).1 (hback m' k hstands hcovered).2

theorem Ledger.lower {s' : Vfs ω κ} (h : Ledger s 0) (hsame : SameButMount m s s')
    (hm : m < s.mounts.capacity) (hmounted : (s.mount m).mounted = true)
    (hroot : (s.mount m).root = none) (hmounted' : (s'.mount m).mounted = true)
    (hbare : (s'.mount m).root = none ∧ (s'.mount m).covered = none)
    (hnode : ∀ k, (s'.node k).mounted =
      if (s.mount m).covered = some k then none else (s.node k).mounted) :
    Ledger s' (toHand (s.mount m).covered) := by
  have hback : ∀ m' k, (s'.mount m').mounted = true → (s'.mount m').covered = some k →
      m' ≠ m ∧ (s.mount m').mounted = true ∧ (s.mount m').covered = some k := by
    intro m' k hstands hcovered
    have hmm : m' ≠ m := by
      rintro rfl
      rw [hbare.2] at hcovered
      cases hcovered
    rw [hsame.other m' hmm] at hstands hcovered
    exact ⟨hmm, hstands, hcovered⟩
  have hforest : Forest s' := h.forest.of_fewer (fun k ↦ by rw [hsame.node k])
    fun m' k hstands hcovered ↦ (hback m' k hstands hcovered).2
  refine h.remount hsame hm (fun k ↦ ?_) (fun _ _ _ ↦ hmounted') ?_ ?_ ?_ hforest
  · rw [Bare.holds fun _ ↦ hbare, count_toHand, mountHolds, hroot]
    simp [hmounted]
  · intro r _ hr
    rw [hbare.1] at hr
    cases hr
  · intro k m' hk hk'
    rw [hnode] at hk'
    by_cases hck : (s.mount m).covered = some k
    · rw [if_pos hck] at hk'
      cases hk'
    · rw [if_neg hck] at hk'
      obtain ⟨hstands, hcovers⟩ := h.crossing k m' hk hk'
      have hmm : m' ≠ m := by
        rintro rfl
        exact hck hcovers
      rw [hsame.other m' hmm]
      exact ⟨hstands, hcovers⟩
  · intro m' k hstands hcovered
    obtain ⟨hmm, hstands', hcovered'⟩ := hback m' k hstands hcovered
    have hk := h.covering m' k hstands' hcovered'
    have hck : (s.mount m).covered ≠ some k := fun hck ↦ by
      rw [h.covering m k hmounted hck] at hk
      exact hmm (Option.some.inj hk).symm
    rw [hnode, if_neg hck]
    exact hk

def Vfs.withdrawn (s : Vfs ω κ) (m : MountIndex) : Vfs ω κ :=
  { s.putMount m .zero with rootMount := if s.rootMount = some m then none else s.rootMount }

theorem Balanced.tables_withdrawn (h : Balanced s) (hm : (s.mount m).mounted = true) :
    Tables (s.withdrawn m) := by
  have hother : ∀ k, k ≠ m → (s.withdrawn m).mount k = s.mount k := fun k hk ↦
    putMount_mount_of_ne hk
  have hstands : ∀ k, ((s.withdrawn m).mount k).mounted = true → k ≠ m := by
    rintro k hk rfl
    have hzero : (s.withdrawn k).mount k = .zero := putMount_mount_self
    rw [hzero] at hk
    cases hk
  refine ⟨fun k hk ↦ ?_, fun k hk ↦ ?_, h.tables.fileBounded, h.tables.closed, h.tables.either⟩
  · rw [hother k (hstands k hk)] at hk
    exact h.tables.mountBounded k hk
  · have hroot : (if s.rootMount = some m then none else s.rootMount) = some k := hk
    by_cases hrm : s.rootMount = some m
    · rw [if_pos hrm] at hroot
      cases hroot
    · rw [if_neg hrm] at hroot
      have hkm : k ≠ m := by
        rintro rfl
        exact hrm hroot
      rw [hother k hkm]
      exact h.tables.rootMounted k hroot

structure Rootless (s : Vfs ω κ) (m : MountIndex) (t : Vfs ω κ) : Prop where
  ledger : Ledger (t.under (s.putMount m { s.mount m with root := none })) 0
  same : SameTables s t
  apart : Among (fun _ mount _ ↦ mount ≠ m) none t

def Vfs.written (beneath : Beneath ω κ) (s : Vfs ω κ) (m : MountIndex) : Vfs ω κ :=
  match (beneath.operations (s.mount m).operations).sync with
  | none => s
  | some sync => { s with world := (sync (s.mount m) s.world).2 }

def teardownWorld (beneath : Beneath ω κ) (s : Vfs ω κ) (m : MountIndex) : ω :=
  match (s.mount m).root, (beneath.operations (s.mount m).operations).releaseNode with
  | some root, some releaseNode =>
      releaseNode (s.mount m) { s.node root with references := 0 } (s.written beneath m).world
  | _, _ => (s.written beneath m).world

def unmountAnswer (beneath : Beneath ω κ) (s : Vfs ω κ) (m : MountIndex) :
    Except VfsError Unit × MountContents κ × ω :=
  (beneath.operations (s.mount m).operations).unmount (s.mount m) (teardownWorld beneath s m)

theorem Vfs.written_under (m : MountIndex) (u : Vfs ω κ) :
    (s.written beneath m).under u = { s.under u with world := (s.written beneath m).world } := by
  unfold Vfs.written
  cases (beneath.operations (s.mount m).operations).sync <;> rfl

theorem SameTables.written (m : MountIndex) : SameTables s (s.written beneath m) := by
  unfold Vfs.written
  cases (beneath.operations (s.mount m).operations).sync <;> exact ⟨rfl, rfl, rfl, rfl, rfl⟩

@[simp] theorem written_node (m : MountIndex) : (s.written beneath m).node n = s.node n := by
  unfold Vfs.written
  cases (beneath.operations (s.mount m).operations).sync <;> rfl

theorem triple_syncMount (m : MountIndex) :
    Triple (fun t ↦ t = s) (vfsSyncMount beneath m) (fun _ t ↦ t = s.written beneath m) E := by
  refine Triple.get fun t ht ↦ ?_
  subst ht
  unfold Vfs.written
  cases (beneath.operations (t.mount m).operations).sync with
  | none => exact Triple.pure fun _ h ↦ h
  | some sync => exact Triple.set fun _ _ ↦ rfl

theorem triple_releaseWorld {t : Vfs ω κ} (huse : (t.node n).inUse = true)
    (hreferences : (t.node n).references = 1) :
    Triple (fun t' ↦ t' = t) (vfsNodeRelease beneath (some n))
      (fun _ t' ↦ t'.world =
        match (beneath.operations (t.mountOf n).operations).releaseNode with
        | none => t.world
        | some releaseNode => releaseNode (t.mountOf n) { t.node n with references := 0 } t.world)
      E := by
  refine Triple.get fun t' ht' ↦ ?_
  subst ht'
  refine Triple.ite (fun hguard ↦ ?_) fun _ ↦ Triple.ite (fun hmany ↦ ?_) fun _ ↦ ?_
  · simp [huse, hreferences] at hguard
  · omega
  · exact Triple.set fun _ _ ↦ rfl

theorem triple_releaseRoot (hs : Balanced s) (hm : (s.mount m).mounted = true)
    (hidle : vfsMountIsBusy s m = false) :
    Triple (fun t ↦ t = s.written beneath m) (vfsNodeRelease beneath (s.mount m).root)
      (fun _ t ↦ Rootless s m t ∧ t.world = teardownWorld beneath s m) E := by
  obtain ⟨root, hroot⟩ := Option.isSome_iff_exists.mp (hs.rooted m hm)
  have hbound := hs.tables.mountBounded m hm
  have huse := hs.ledger.inUse_of_root hs.tables hm hroot
  have hupon := hs.ledger.rootOf m root hm hroot
  have hlast := (hs.root_of_idle hidle huse hupon).2
  have htables : Tables (s.putMount m { s.mount m with root := none }) :=
    hs.tables.putMount hbound fun _ ↦ hm
  have hsame : SameTables s (s.written beneath m) := SameTables.written m
  have hrootless : Triple (fun t ↦ t = s.written beneath m) (vfsNodeRelease beneath (some root))
      (fun _ ↦ Rootless s m) E := by
    refine (triple_releaseLast s htables).weaken ?_
      (fun _ t ht ↦ ⟨ht.1.1.1, ht.1.2, ht.2⟩) fun _ _ h ↦ h
    rintro _ rfl
    refine ⟨⟨⟨?_, ⟨rfl, rfl, rfl, rfl, rfl⟩⟩, hsame⟩, ?_, fun k hk hkr hkm ↦ ?_⟩
    · rw [Vfs.written_under]
      exact (hs.ledger.unroot hbound hm hroot).of_files rfl rfl fun _ ↦ rfl
    · rw [written_node]
      exact hlast
    · rw [written_node] at hk hkm
      exact hkr (hroot.symm.trans (hs.root_of_idle hidle hk hkm).1)
  rw [hroot]
  refine (hrootless.and (triple_releaseWorld (E := E) ?_ ?_)).weaken (fun _ h ↦ ⟨h, h⟩) ?_ fun _ _ h ↦ h.1
  · rw [written_node]
    exact huse
  · rw [written_node]
    exact hlast
  · rintro _ t ⟨ht, hworld⟩
    refine ⟨ht, hworld.trans ?_⟩
    unfold teardownWorld
    rw [hroot, Vfs.mountOf, hsame.mount_eq, written_node, hupon]
    cases (beneath.operations (s.mount m).operations).releaseNode <;> rfl

structure Lowered (s : Vfs ω κ) (m : MountIndex) (t : Vfs ω κ) : Prop where
  ledger : Ledger (t.under (s.withdrawn m)) (toHand (s.mount m).covered)
  aside : SameTables (s.putMount m .zero) (t.putMount m .zero)

theorem Rootless.uncover {t t' : Vfs ω κ} (h : Rootless s m t) (hs : Balanced s)
    (hm : (s.mount m).mounted = true) (hsame : SameTables t t')
    (hcapacity : t'.nodes.capacity = t.nodes.capacity)
    (hnode : ∀ k, t'.node k = { t.node k with mounted := (t'.node k).mounted })
    (hmounted : ∀ k, (t'.node k).mounted =
      if (s.mount m).covered = some k then none else (t.node k).mounted) : Lowered s m t' := by
  have hbound := hs.tables.mountBounded m hm
  let rootless : Vfs ω κ := s.putMount m { s.mount m with root := none }
  let bare : Vfs ω κ := s.putMount m { s.mount m with root := none, covered := none }
  have hslot : (t.under rootless).mount m = { s.mount m with root := none } :=
    putMount_mount_self
  have hslot' : (t'.under bare).mount m = { s.mount m with root := none, covered := none } :=
    putMount_mount_self
  have hsame' : SameButMount m (t.under rootless) (t'.under bare) := by
    refine ⟨rfl, hcapacity, rfl, hnode, fun k hk ↦ ?_⟩
    exact (putMount_mount_of_ne hk).trans (putMount_mount_of_ne hk).symm
  have hlowered : Ledger (t'.under bare) (toHand (s.mount m).covered) := by
    have hlower := h.ledger.lower hsame' hbound (by rw [hslot]; exact hm) (by rw [hslot])
      (by rw [hslot']; exact hm) (by rw [hslot']; exact ⟨rfl, rfl⟩) (by rw [hslot]; exact hmounted)
    rw [hslot] at hlower
    exact hlower
  have hcleared : Ledger ((t'.under bare).putMount m .zero) (toHand (s.mount m).covered) := by
    refine hlowered.putBare hbound (fun _ ↦ ?_) Bare.zero fun k hk hkm ↦ ?_
    · rw [hslot']
      exact ⟨rfl, rfl⟩
    · have huse : (t'.node k).inUse = true := hk
      have hupon : (t'.node k).mount = m := hkm
      rw [hnode k] at huse hupon
      exact absurd hupon (h.apart k huse (by simp))
  refine ⟨hcleared.of_files rfl ?_ fun _ ↦ rfl, (h.same.trans hsame).putMount m .zero⟩
  change (s.putMount m .zero).mounts = (bare.putMount m .zero).mounts
  rw [putMount_putMount]

theorem triple_uncover (hs : Balanced s) (hm : (s.mount m).mounted = true) (world : ω) :
    Triple (fun t ↦ Rootless s m t ∧ t.world = world) (vfsUncover (s.mount m).covered)
      (fun _ t ↦ Lowered s m t ∧ SameTables s t ∧ t.world = world) E := by
  refine Triple.intro fun t ⟨ht, hworld⟩ ↦ ?_
  cases hcovered : (s.mount m).covered with
  | none =>
      refine Triple.pure ?_
      rintro t' rfl
      refine ⟨ht.uncover hs hm (SameTables.refl t') rfl (fun _ ↦ rfl) fun k ↦ ?_, ht.same, hworld⟩
      rw [hcovered]
      rfl
  | some c =>
      refine Triple.modify ?_
      rintro t' rfl
      have hsame := SameTables.putNode t' c { t'.node c with mounted := none }
      refine ⟨ht.uncover hs hm hsame rfl (fun k ↦ ?_) fun k ↦ ?_, ht.same.trans hsame, hworld⟩
      · by_cases hk : k = c
        · subst hk
          rw [putNode_node_self]
        · rw [putNode_node_of_ne _ _ _ _ hk]
      · rw [hcovered]
        by_cases hk : k = c
        · subst hk
          rw [putNode_node_self, if_pos rfl]
        · rw [putNode_node_of_ne _ _ _ _ hk, if_neg fun h ↦ hk (Option.some.inj h).symm]

theorem triple_releaseCoveredUnder (s₀ : Vfs ω κ) {u : Vfs ω κ} (hu : Tables u)
    {covered : Option NodeIndex} :
    Triple (fun t ↦ Holding u (toHand covered) (t.under u) ∧ SameTables s₀ t)
      (vfsNodeRelease beneath covered)
      (fun _ t ↦ Holding u 0 (t.under u) ∧ SameTables s₀ t) E := by
  cases covered with
  | none => exact Triple.pure fun _ h ↦ h
  | some c => exact triple_releaseUnder s₀ 0 hu

structure Withdrawn (s : Vfs ω κ) (m : MountIndex) (t : Vfs ω κ) : Prop extends Balanced t where
  tables_eq : SameTables (s.withdrawn m) t

theorem triple_withdraw (hs : Balanced s) (hm : (s.mount m).mounted = true)
    (hidle : vfsMountIsBusy s m = false) :
    Triple (fun t ↦ t = s) (vfsWithdraw beneath m)
      (fun _ t ↦ (unmountAnswer beneath s m).1 = .ok () ∧ Withdrawn s m t)
      (fun code t ↦ (unmountAnswer beneath s m).1 = .error code ∧
        t.mount m = { s.mount m with toMountContents := (unmountAnswer beneath s m).2.1 }) := by
  have hwritten : (s.written beneath m).mount m = s.mount m := (SameTables.written m).mount_eq m
  refine (triple_syncMount m).bind fun _ ↦ Triple.get fun t ht ↦ ?_
  subst ht
  dsimp only
  rw [hwritten]
  refine (triple_releaseRoot hs hm hidle).bind fun _ ↦ (triple_uncover hs hm _).bind fun _ ↦ ?_
  refine (triple_callMountOf (Q := fun _ t ↦ (unmountAnswer beneath s m).1 = .ok () ∧
    Lowered s m t) ?_).bind fun _ ↦ ?_
  · rintro t ⟨hlowered, hsame, hworld⟩
    rw [hsame.mount_eq, hworld]
    change Answered _ _ (unmountAnswer beneath s m).1 _
    cases hanswer : (unmountAnswer beneath s m).1 with
    | ok a =>
        refine ⟨rfl, hlowered.ledger.of_files rfl rfl fun _ ↦ rfl, hlowered.aside.trans ?_⟩
        let filled : VfsMount κ :=
          { s.mount m with toMountContents := (unmountAnswer beneath s m).2.1 }
        have hput : (t.putMount m filled).putMount m .zero = t.putMount m .zero :=
          putMount_putMount _
        have hmounts := congrArg Vfs.mounts hput
        exact ⟨rfl, hmounts, rfl, rfl, rfl⟩
    | error code => exact ⟨rfl, putMount_mount_self⟩
  have htables := hs.tables_withdrawn hm
  refine Triple.intro fun t hwithdrawn ↦ ?_
  obtain ⟨hanswer, ht⟩ := hwithdrawn
  refine ((triple_releaseCoveredUnder t htables).pre (S := fun t' ↦ t' = t) ?_).bind
    fun _ ↦ Triple.modify ?_
  · rintro t' rfl
    exact ⟨⟨ht.ledger, ⟨rfl, rfl, rfl, rfl, rfl⟩⟩, SameTables.refl t'⟩
  · rintro t' ⟨hholding, hsame⟩
    have haside := ht.aside.trans (hsame.putMount m .zero)
    have heq : t'.withdrawn m = t'.under (s.withdrawn m) := by
      have hroot : t'.rootMount = s.rootMount := haside.rootMount
      have hmounts : (t'.putMount m .zero).mounts = (s.putMount m .zero).mounts := haside.mounts
      have hfilesystems : t'.filesystems = s.filesystems := haside.filesystems
      have hfiles : t'.files = s.files := haside.files
      have hpipes : t'.pipes = s.pipes := haside.pipes
      change Vfs.mk t'.filesystems (t'.putMount m .zero).mounts t'.nodes t'.files t'.pipes
          (if t'.rootMount = some m then none else t'.rootMount) t'.world =
        Vfs.mk s.filesystems (s.putMount m .zero).mounts t'.nodes s.files s.pipes
          (if s.rootMount = some m then none else s.rootMount) t'.world
      rw [hfilesystems, hmounts, hfiles, hpipes, hroot]
    change _ ∧ Withdrawn s m (t'.withdrawn m)
    rw [heq]
    refine ⟨hanswer, ⟨hholding.1, hholding.tables htables, fun k hk ↦ ?_⟩,
      ⟨rfl, rfl, rfl, rfl, rfl⟩⟩
    change ((s.putMount m .zero).mount k).mounted = true at hk
    change ((s.putMount m .zero).mount k).root.isSome
    by_cases hkm : k = m
    · subst hkm
      rw [putMount_mount_self] at hk
      cases hk
    · rw [putMount_mount_of_ne hkm] at hk ⊢
      exact hs.rooted k hk

end OxysOS.Fs
