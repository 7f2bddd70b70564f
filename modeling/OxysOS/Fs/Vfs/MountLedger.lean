import OxysOS.Fs.Vfs.FileLedger

/-!
# Mounting and unmounting keep the ledger

A mount takes over two references: that of the walk that found the directory
it covers, and that of the acquisition of its root.  Until it does, and again
once it has given them back, its slot is bare.
-/

namespace OxysOS.Fs

open OxysOS.Library OxysOS.Mm OxysOS.Block Action

variable {ω κ α : Type}

variable {beneath : Beneath ω κ} {s₀ s₁ : Vfs ω κ} {hand : Multiset NodeIndex} {n m : ℕ}
  {E : VfsError → Vfs ω κ → Prop}

structure SameStanding (s s' : Vfs ω κ) : Prop where
  mount : ∀ k, (s.mount k).mounted = true ∨ (s'.mount k).mounted = true → s'.mount k = s.mount k
  rootMount : s'.rootMount = s.rootMount

namespace SameStanding

variable {s s' s'' : Vfs ω κ}

theorem refl (s : Vfs ω κ) : SameStanding s s := ⟨fun _ _ ↦ rfl, rfl⟩

theorem trans (h : SameStanding s s') (h' : SameStanding s' s'') : SameStanding s s'' := by
  refine ⟨fun k hk ↦ ?_, h'.rootMount.trans h.rootMount⟩
  rcases hk with hk | hk
  · have hmount := h.mount k (Or.inl hk)
    rw [h'.mount k (Or.inl (by rw [hmount]; exact hk)), hmount]
  · have hmount := h'.mount k (Or.inr hk)
    rw [hmount, h.mount k (Or.inr (by rw [← hmount]; exact hk))]

theorem mounted_eq (h : SameStanding s s') (k : MountIndex) :
    (s'.mount k).mounted = (s.mount k).mounted := by
  cases hk : (s.mount k).mounted with
  | true => rw [h.mount k (Or.inl hk), hk]
  | false =>
      cases hk' : (s'.mount k).mounted with
      | true =>
          rw [← h.mount k (Or.inr hk'), hk'] at hk
          exact hk
      | false => rfl

theorem of_eq (hmounts : s'.mounts = s.mounts) (hroot : s'.rootMount = s.rootMount) :
    SameStanding s s' :=
  ⟨fun k _ ↦ by rw [Vfs.mount, Vfs.mount, hmounts], hroot⟩

end SameStanding

structure Settled (s₁ s : Vfs ω κ) : Prop extends Balanced s where
  standing : SameStanding s₁ s
  files : s.files = s₁.files

theorem Balanced.settled {s : Vfs ω κ} (h : Balanced s) : Settled s s :=
  ⟨h, SameStanding.refl s, rfl⟩

theorem Settled.trans {s₂ s : Vfs ω κ} (h : Settled s₁ s₂) (h' : Settled s₂ s) : Settled s₁ s :=
  ⟨h'.toBalanced, h.standing.trans h'.standing, h'.files.trans h.files⟩

theorem Settled.of_holding {s : Vfs ω κ} (h : Settled s₁ s₀) (hs : Holding s₀ 0 s) :
    Settled s₁ s :=
  h.trans ⟨h.toBalanced.of_holding hs, SameStanding.of_eq hs.2.mounts hs.2.rootMount, hs.2.files⟩

def mountHolds (mount : VfsMount κ) (k : NodeIndex) : ℕ :=
  (if mount.mounted = true ∧ mount.root = some k then 1 else 0) +
    (if mount.mounted = true ∧ mount.covered = some k then 1 else 0)

structure SameButMount (m : MountIndex) (s s' : Vfs ω κ) : Prop where
  files : s'.files = s.files
  nodesCapacity : s'.nodes.capacity = s.nodes.capacity
  mountsCapacity : s'.mounts.capacity = s.mounts.capacity
  node : ∀ k, s'.node k = { s.node k with mounted := (s'.node k).mounted }
  other : ∀ k, k ≠ m → s'.mount k = s.mount k

theorem Ledger.remount {s s' : Vfs ω κ} {hand' : Multiset NodeIndex} (h : Ledger s hand)
    (hsame : SameButMount m s s') (hm : m < s.mounts.capacity)
    (hsum : ∀ k, mountHolds (s'.mount m) k + hand'.count k =
      mountHolds (s.mount m) k + hand.count k)
    (hstanding : ∀ k, (s.node k).inUse = true → (s.node k).mount = m →
      (s'.mount m).mounted = true)
    (hroot : ∀ r, (s'.mount m).mounted = true → (s'.mount m).root = some r →
      (s.node r).mount = m)
    (hcrossing : ∀ k m', (s.node k).inUse = true → (s'.node k).mounted = some m' →
      (s'.mount m').mounted = true ∧ (s'.mount m').covered = some k)
    (hcovering : ∀ m' k, (s'.mount m').mounted = true → (s'.mount m').covered = some k →
      (s'.node k).mounted = some m') (hforest : Forest s') :
    Ledger s' hand' := by
  have hinUse : ∀ k, (s'.node k).inUse = (s.node k).inUse := fun k ↦ by rw [hsame.node k]
  have hreferences : ∀ k, (s'.node k).references = (s.node k).references := fun k ↦ by
    rw [hsame.node k]
  have hmount : ∀ k, (s'.node k).mount = (s.node k).mount := fun k ↦ by rw [hsame.node k]
  have hnumber : ∀ k, (s'.node k).number = (s.node k).number := fun k ↦ by rw [hsame.node k]
  have hholders : ∀ k, holders s' k + hand'.count k = holders s k + hand.count k := by
    intro k
    have hfile : ∀ i, s'.file i = s.file i := fun i ↦ by rw [Vfs.file, Vfs.file, hsame.files]
    have hfiles : openFiles s' k = openFiles s k := by
      simp only [openFiles, hsame.files, hfile]
    have hroots := tally_update (p := fun j ↦ (s.mount j).mounted = true ∧
      (s.mount j).root = some k) (q := fun j ↦ (s'.mount j).mounted = true ∧
      (s'.mount j).root = some k) hm fun j hj ↦ by rw [hsame.other j hj]
    have hcovered := tally_update (p := fun j ↦ (s.mount j).mounted = true ∧
      (s.mount j).covered = some k) (q := fun j ↦ (s'.mount j).mounted = true ∧
      (s'.mount j).covered = some k) hm fun j hj ↦ by rw [hsame.other j hj]
    have := hsum k
    unfold mountHolds at this
    unfold holders rootMounts coveringMounts
    rw [hfiles, hsame.mountsCapacity]
    omega
  refine ⟨fun k hk ↦ ?_, fun k hk ↦ ?_, fun k hk ↦ ?_, fun k hk ↦ ?_, fun k l hk hl ↦ ?_,
    fun k hk ↦ ?_, fun m' r hm' hr ↦ ?_, fun k m' hk ↦ ?_, hcovering, hforest⟩
  · rw [hinUse] at hk
    rw [hreferences, hholders, h.counted k hk]
  · rw [hinUse] at hk
    rw [hreferences]
    exact h.positive k hk
  · rw [hinUse] at hk
    obtain ⟨hnone, hhand⟩ := h.idle k hk
    have hcount := Multiset.count_eq_zero.mpr hhand
    have := hholders k
    exact ⟨by omega, Multiset.count_eq_zero.mp (by omega)⟩
  · rw [hinUse] at hk
    rw [hsame.nodesCapacity]
    exact h.bounded k hk
  · rw [hinUse] at hk hl
    rw [hmount, hmount, hnumber, hnumber]
    exact h.unique k l hk hl
  · rw [hinUse] at hk
    rw [Vfs.mountOf, hmount]
    by_cases hkm : (s.node k).mount = m
    · rw [hkm]
      exact hstanding k hk hkm
    · rw [hsame.other _ hkm]
      exact h.standing k hk
  · rw [hmount]
    by_cases hmm : m' = m
    · subst hmm
      exact hroot r hm' hr
    · rw [hsame.other m' hmm] at hm' hr
      exact h.rootOf m' r hm' hr
  · rw [hinUse] at hk
    exact hcrossing k m' hk

theorem Forest.of_fewer {s s' : Vfs ω κ} (h : Forest s)
    (hmount : ∀ k, (s'.node k).mount = (s.node k).mount)
    (hfewer : ∀ k c, (s'.mount k).mounted = true → (s'.mount k).covered = some c →
      (s.mount k).mounted = true ∧ (s.mount k).covered = some c) : Forest s' := by
  obtain ⟨rank, hrank⟩ := h
  refine ⟨rank, fun k c hk hc ↦ ?_⟩
  rw [hmount]
  exact hrank k c (hfewer k c hk hc).1 (hfewer k c hk hc).2

def Bare (mount : VfsMount κ) : Prop :=
  mount.mounted = true → mount.root = none ∧ mount.covered = none

theorem Bare.holds {mount : VfsMount κ} (h : Bare mount) (k : NodeIndex) :
    mountHolds mount k = 0 := by
  unfold mountHolds
  by_cases hmounted : mount.mounted = true
  · rw [(h hmounted).1, (h hmounted).2]
    simp
  · simp [hmounted]

theorem Bare.zero : Bare (VfsMount.zero : VfsMount κ) := fun h ↦ by cases h

section PutMount

variable {s : Vfs ω κ} {mount : VfsMount κ}

@[simp] theorem putMount_mount_self : (s.putMount m mount).mount m = mount :=
  Function.update_self _ _ _

theorem putMount_mount_of_ne {k : MountIndex} (h : k ≠ m) :
    (s.putMount m mount).mount k = s.mount k := Function.update_of_ne h _ _

theorem SameButMount.putMount (s : Vfs ω κ) (m : MountIndex) (mount : VfsMount κ) :
    SameButMount m s (s.putMount m mount) :=
  ⟨rfl, rfl, rfl, fun _ ↦ rfl, fun _ hk ↦ putMount_mount_of_ne hk⟩

theorem Ledger.putBare (h : Ledger s hand) (hm : m < s.mounts.capacity)
    (hbefore : Bare (s.mount m)) (hafter : Bare mount)
    (hstanding : ∀ k, (s.node k).inUse = true → (s.node k).mount = m → mount.mounted = true) :
    Ledger (s.putMount m mount) hand := by
  -- what a mount covers afterwards it covered before
  have hcovers : ∀ m' k, ((s.putMount m mount).mount m').mounted = true →
      ((s.putMount m mount).mount m').covered = some k →
      (s.mount m').mounted = true ∧ (s.mount m').covered = some k := by
    intro m' k hmounted hcovered
    by_cases hmm : m' = m
    · subst hmm
      rw [putMount_mount_self] at hmounted hcovered
      rw [(hafter hmounted).2] at hcovered
      cases hcovered
    · rw [putMount_mount_of_ne hmm] at hmounted hcovered
      exact ⟨hmounted, hcovered⟩
  refine h.remount (SameButMount.putMount s m mount) hm ?_ ?_ ?_ ?_ ?_
    (h.forest.of_fewer (fun _ ↦ rfl) hcovers)
  · intro k
    rw [putMount_mount_self, hafter.holds, hbefore.holds]
  · rw [putMount_mount_self]
    exact hstanding
  · intro r hmounted hroot
    rw [putMount_mount_self] at hmounted hroot
    rw [(hafter hmounted).1] at hroot
    cases hroot
  · intro k m' hk hmounted
    obtain ⟨hstands, hcovered⟩ := h.crossing k m' hk hmounted
    have hmm : m' ≠ m := by
      rintro rfl
      rw [(hbefore hstands).2] at hcovered
      cases hcovered
    rw [putMount_mount_of_ne hmm]
    exact ⟨hstands, hcovered⟩
  · intro m' k hmounted hcovered
    obtain ⟨hstands, hcovers'⟩ := hcovers m' k hmounted hcovered
    exact h.covering m' k hstands hcovers'

theorem Tables.putMount (ht : Tables s) (hm : m < s.mounts.capacity)
    (hroot : s.rootMount = some m → mount.mounted = true) : Tables (s.putMount m mount) where
  mountBounded k hk := by
    by_cases hkm : k = m
    · rw [hkm]
      exact hm
    · rw [putMount_mount_of_ne hkm] at hk
      exact ht.mountBounded k hk
  rootMounted k hk := by
    by_cases hkm : k = m
    · subst hkm
      rw [putMount_mount_self]
      exact hroot hk
    · rw [putMount_mount_of_ne hkm]
      exact ht.rootMounted k hk
  fileBounded := ht.fileBounded
  closed := ht.closed
  either := ht.either

end PutMount

theorem Balanced.growMounts {s : Vfs ω κ} (h : Balanced s) (world : ω) :
    Balanced { s with mounts := s.mounts.grow .zero, world := world } := by
  let s' : Vfs ω κ := { s with mounts := s.mounts.grow .zero, world := world }
  have hbelow : ∀ k, (s.mount k).mounted = true → s'.mount k = s.mount k := fun k hk ↦
    s.mounts.grow_entry_of_lt _ (h.tables.mountBounded k hk)
  have hmounted : ∀ k, (s'.mount k).mounted = true → (s.mount k).mounted = true := by
    intro k hk
    by_cases hbound : k < s.mounts.capacity
    · rwa [show s'.mount k = s.mount k from s.mounts.grow_entry_of_lt _ hbound] at hk
    · rw [show s'.mount k = .zero from s.mounts.grow_entry_of_le _ (Nat.not_lt.mp hbound)] at hk
      cases hk
  have hback : ∀ k, (s'.mount k).mounted = true → s'.mount k = s.mount k := fun k hk ↦
    hbelow k (hmounted k hk)
  have hholders : ∀ n, holders s' n = holders s n := by
    intro n
    have hcount : ∀ field : VfsMount κ → Option NodeIndex,
        tally s'.mounts.capacity (fun k ↦ (s'.mount k).mounted = true ∧
          field (s'.mount k) = some n) =
        tally s.mounts.capacity fun k ↦ (s.mount k).mounted = true ∧
          field (s.mount k) = some n := by
      intro field
      refine (tally_extend (s.mounts.capacity_le_grow .zero) fun k hk hstands ↦ ?_).trans
        (tally_congr fun k hk ↦ ?_)
      · exact absurd (h.tables.mountBounded k (hmounted k hstands.1)) (Nat.not_lt.mpr hk)
      · rw [show s'.mount k = s.mount k from s.mounts.grow_entry_of_lt _ hk]
    have hroots : rootMounts s' n = rootMounts s n := hcount VfsMount.root
    have hcovering : coveringMounts s' n = coveringMounts s n := hcount VfsMount.covered
    have hfiles : openFiles s' n = openFiles s n := rfl
    unfold holders
    rw [hroots, hcovering, hfiles]
  refine ⟨⟨fun n hn ↦ ?_, h.ledger.positive, fun n hn ↦ ?_, h.ledger.bounded, h.ledger.unique,
    fun n hn ↦ ?_, fun k r hk hr ↦ ?_, fun n k hn hk ↦ ?_, fun k n hk hn ↦ ?_,
    h.ledger.forest.of_fewer (fun _ ↦ rfl) fun k c hk hc ↦ ?_⟩,
    ⟨fun k hk ↦ ?_, fun k hk ↦ ?_, h.tables.fileBounded, h.tables.closed, h.tables.either⟩,
    fun k hk ↦ ?_⟩
  · rw [hholders]
    exact h.ledger.counted n hn
  · rw [hholders]
    exact h.ledger.idle n hn
  · have hstanding := h.ledger.standing n hn
    rw [show s'.mountOf n = s.mountOf n from hbelow _ hstanding]
    exact hstanding
  · rw [hback k hk] at hr
    exact h.ledger.rootOf k r (hmounted k hk) hr
  · obtain ⟨hstands, hcovered⟩ := h.ledger.crossing n k hn hk
    rw [hbelow k hstands]
    exact ⟨hstands, hcovered⟩
  · rw [hback k hk] at hn
    exact h.ledger.covering k n (hmounted k hk) hn
  · rw [hback k hk] at hc
    exact ⟨hmounted k hk, hc⟩
  · exact lt_of_lt_of_le (h.tables.mountBounded k (hmounted k hk)) (s.mounts.capacity_le_grow _)
  · have hstands := h.tables.rootMounted k hk
    rw [hbelow k hstands]
    exact hstands
  · rw [hback k hk]
    exact h.rooted k (hmounted k hk)

theorem Balanced.standing_growMounts {s : Vfs ω κ} (h : Balanced s) (world : ω) :
    SameStanding s { s with mounts := s.mounts.grow .zero, world := world } := by
  refine ⟨fun k hk ↦ ?_, rfl⟩
  by_cases hbound : k < s.mounts.capacity
  · exact s.mounts.grow_entry_of_lt _ hbound
  · rcases hk with hk | hk
    · exact absurd (h.tables.mountBounded k hk) hbound
    · change ((s.mounts.grow .zero).entry k).mounted = true at hk
      rw [s.mounts.grow_entry_of_le _ (Nat.not_lt.mp hbound)] at hk
      cases hk

theorem triple_freeMount :
    Triple (Settled s₁) (vfsFreeMount beneath)
      (fun m s ↦ Settled s₁ s ∧ (s.mount m).mounted = false ∧ m < s.mounts.capacity)
      (fun _ ↦ Settled s₁) := by
  refine Triple.get fun s hs ↦ ?_
  cases hfind : s.mounts.find fun mount ↦ !mount.mounted with
  | some m =>
      obtain ⟨hbound, hfree⟩ := GrowingTable.find_some hfind
      refine Triple.pure ?_
      rintro t rfl
      exact ⟨hs, by simpa [Vfs.mount] using hfree, hbound⟩
  | none =>
      dsimp only
      refine Triple.ite (fun _ ↦ ?_) fun _ ↦ ?_
      · let s' := { s with
          mounts := s.mounts.grow .zero, world := (growth beneath s.mounts.chunkCount s.world).2 }
        refine (Triple.set (Q := fun _ t ↦ t = s') fun _ _ ↦ rfl).bind fun _ ↦ Triple.pure ?_
        rintro t rfl
        refine ⟨⟨hs.growMounts _, hs.standing.trans (hs.standing_growMounts _), hs.files⟩, ?_,
          s.mounts.capacity_lt_grow _⟩
        change ((s.mounts.grow .zero).entry s.mounts.capacity).mounted = false
        rw [s.mounts.grow_entry_of_le _ le_rfl]
        rfl
      · refine (Triple.set (Q := fun _ ↦ Settled s₁) ?_).bind fun _ ↦ Triple.throw fun _ ht ↦ ht
        exact fun _ _ ↦ hs.of_holding (hs.holding.world hs.tables _)

def toHand : Option NodeIndex → Multiset NodeIndex
  | none => 0
  | some covered => covered ::ₘ 0

theorem count_toHand (covered : Option NodeIndex) (k : NodeIndex) :
    (toHand covered).count k = if covered = some k then 1 else 0 := by
  cases covered with
  | none => simp [toHand]
  | some c => simp [toHand, Multiset.count_singleton, eq_comm]

structure Coverable (s₀ : Vfs ω κ) (covered : Option NodeIndex) (s : Vfs ω κ) : Prop where
  holding : Holding s₀ (toHand covered) s
  free : ∀ c, covered = some c → (s.node c).mounted = none
  first : covered = none → s₀.rootMount = none

theorem triple_coveredNode (ht : Tables s₀) {point : Name} :
    Triple (Holding s₀ 0) (vfsCoveredNode beneath point) (Coverable s₀)
      (fun _ ↦ Holding s₀ 0) := by
  refine Triple.look fun s hs ↦ ?_
  refine Triple.ite (fun hnone ↦ ?_) fun _ ↦ ?_
  · refine Triple.ite (fun _ ↦ Triple.pure fun t hholding ↦ ?_) fun _ ↦ Triple.throw fun _ h ↦ h
    refine ⟨hholding, fun c hc ↦ (by cases hc), fun _ ↦ ?_⟩
    rw [← hs.2.rootMount]
    exact Option.isNone_iff_eq_none.mp hnone
  · refine (triple_walkFrom ht).bind fun covered ↦ Triple.get fun s hs ↦ ?_
    have hrefuse : ∀ code, Triple (fun t ↦ t = s) (releaseAndRefuse beneath covered code)
        (Coverable s₀) (fun _ ↦ Holding s₀ 0) := fun code ↦
      (triple_releaseAndRefuse ht).pre (by rintro t rfl; exact hs)
    refine Triple.ite (fun _ ↦ hrefuse _) fun _ ↦ ?_
    refine Triple.ite (fun _ ↦ hrefuse _) fun hfree ↦ Triple.pure ?_
    rintro t rfl
    refine ⟨hs, fun c hc ↦ ?_, fun hnone ↦ by cases hnone⟩
    cases hc
    simpa using hfree

section Slot

variable {s t : Vfs ω κ} {mount : VfsMount κ}

theorem putMount_putMount (mount' : VfsMount κ) :
    (s.putMount m mount).putMount m mount' = s.putMount m mount' := by
  unfold Vfs.putMount GrowingTable.put
  simp

theorem putMount_self : s.putMount m (s.mount m) = s := by
  unfold Vfs.putMount GrowingTable.put Vfs.mount
  simp

theorem SameTables.putMount (h : SameTables s t) (m : MountIndex) (mount : VfsMount κ) :
    SameTables (s.putMount m mount) (t.putMount m mount) :=
  ⟨h.filesystems, congrArg (fun mounts ↦ mounts.put m mount) h.mounts, h.files, h.pipes,
    h.rootMount⟩

end Slot

structure Raising (s₀ : Vfs ω κ) (m : MountIndex) (mounted : Bool) (hand : Multiset NodeIndex)
    (s : Vfs ω κ) : Prop where
  ledger : Ledger s hand
  aside : SameTables (s₀.putMount m .zero) (s.putMount m .zero)
  mounted_eq : (s.mount m).mounted = mounted
  bare : (s.mount m).root = none ∧ (s.mount m).covered = none

namespace Raising

variable {s t : Vfs ω κ} {mounted : Bool} {mount : VfsMount κ}

theorem capacity_eq (h : Raising s₀ m mounted hand s) :
    s.mounts.capacity = s₀.mounts.capacity := by
  have := congrArg GrowingTable.capacity h.aside.mounts
  exact this

theorem rest (h : Raising s₀ m mounted hand s) {k : MountIndex} (hk : k ≠ m) :
    s.mount k = s₀.mount k := by
  have := h.aside.mount_eq k
  rwa [putMount_mount_of_ne hk, putMount_mount_of_ne hk] at this

theorem tables (h : Raising s₀ m mounted hand s) (ht : Tables s₀) (hm : m < s₀.mounts.capacity)
    (hfree : (s₀.mount m).mounted = false) : Tables s := by
  have hroot : s₀.rootMount ≠ some m := fun hroot ↦ by
    have := ht.rootMounted m hroot
    rw [hfree] at this
    cases this
  have hzeroed : Tables (s.putMount m .zero) :=
    h.aside.tables (ht.putMount hm fun hsome ↦ absurd hsome hroot)
  have hback : Tables ((s.putMount m .zero).putMount m (s.mount m)) := by
    refine hzeroed.putMount ?_ fun hsome ↦ absurd (h.aside.rootMount.symm.trans hsome) hroot
    rw [← h.capacity_eq] at hm
    exact hm
  rwa [putMount_putMount, putMount_self] at hback

theorem of_holding (h : Raising s₀ m mounted hand s) {hand' : Multiset NodeIndex}
    (ht : Holding s hand' t) : Raising s₀ m mounted hand' t where
  ledger := ht.1
  aside := h.aside.trans (ht.2.putMount m .zero)
  mounted_eq := by rw [ht.2.mount_eq]; exact h.mounted_eq
  bare := by rw [ht.2.mount_eq]; exact h.bare

theorem putMount {mounted' : Bool} (h : Raising s₀ m mounted hand s)
    (hm : m < s₀.mounts.capacity) (mount : VfsMount κ) (hmounted : mount.mounted = mounted')
    (hbare : mount.root = none ∧ mount.covered = none)
    (hstanding : ∀ k, (s.node k).inUse = true → (s.node k).mount = m → mount.mounted = true) :
    Raising s₀ m mounted' hand (s.putMount m mount) where
  ledger := h.ledger.putBare (by rw [h.capacity_eq]; exact hm) (fun _ ↦ h.bare) (fun _ ↦ hbare)
    hstanding
  aside := by rw [putMount_putMount]; exact h.aside
  mounted_eq := by rw [putMount_mount_self]; exact hmounted
  bare := by rw [putMount_mount_self]; exact hbare

theorem contents (h : Raising s₀ m mounted hand s) (hm : m < s₀.mounts.capacity)
    (contents : MountContents κ) (world : ω) :
    Raising s₀ m mounted hand
      { s.putMount m { s.mount m with toMountContents := contents } with world := world } := by
  have hput := h.putMount hm { s.mount m with toMountContents := contents } rfl h.bare
    fun k hk hkm ↦ by
      have := h.ledger.standing k hk
      rwa [Vfs.mountOf, hkm] at this
  exact ⟨hput.ledger.of_files rfl rfl fun _ ↦ rfl, hput.aside.trans ⟨rfl, rfl, rfl, rfl, rfl⟩,
    hput.mounted_eq.trans h.mounted_eq, hput.bare⟩

theorem apart (h : Raising s₀ m false hand s) {k : NodeIndex} (hk : (s.node k).inUse = true) :
    (s.node k).mount ≠ m := by
  rintro rfl
  have := h.ledger.standing k hk
  rw [Vfs.mountOf, h.mounted_eq] at this
  cases this

theorem settled (h : Raising s₀ m false 0 s) (hs₀ : Balanced s₀)
    (hm : m < s₀.mounts.capacity) (hfree : (s₀.mount m).mounted = false) :
    Settled s₀ (s.putMount m .zero) := by
  have hzeroed := h.putMount hm .zero rfl ⟨rfl, rfl⟩ fun k hk hkm ↦ absurd hkm (h.apart hk)
  refine ⟨⟨hzeroed.ledger, hzeroed.tables hs₀.tables hm hfree, fun k hk ↦ ?_⟩,
    ⟨fun k hk ↦ ?_, h.aside.rootMount⟩, h.aside.files⟩
  · have hkm : k ≠ m := by
      rintro rfl
      rw [putMount_mount_self] at hk
      cases hk
    rw [hzeroed.rest hkm] at hk ⊢
    exact hs₀.rooted k hk
  · have hkm : k ≠ m := by
      rintro rfl
      rw [putMount_mount_self, hfree] at hk
      rcases hk with hk | hk <;> cases hk
    exact hzeroed.rest hkm

end Raising

theorem outcome_callMount
    (operation : VfsMount κ → ω → Except VfsError Unit × MountContents κ × ω) (s : Vfs ω κ) :
    outcome (callMount m operation) s =
      ((operation (s.mount m) s.world).1,
        { s.putMount m { s.mount m with
            toMountContents := (operation (s.mount m) s.world).2.1 } with
          world := (operation (s.mount m) s.world).2.2 }) := by
  unfold callMount
  rw [outcome_bind, outcome_get]
  dsimp only
  rw [outcome_bind, outcome_set]
  cases (operation (s.mount m) s.world).1 <;> rfl

theorem triple_callMount {P : Vfs ω κ → Prop}
    {operation : VfsMount κ → ω → Except VfsError Unit × MountContents κ × ω}
    (hP : ∀ s contents world, P s →
      P { s.putMount m { s.mount m with toMountContents := contents } with world := world }) :
    Triple P (callMount m operation) (fun _ ↦ P) (fun _ ↦ P) := by
  refine Triple.of_eq fun s hs ↦ ?_
  rw [outcome_callMount]
  have hkept := hP s (operation (s.mount m) s.world).2.1 (operation (s.mount m) s.world).2.2 hs
  cases (operation (s.mount m) s.world).1 with
  | ok a => exact Or.inl ⟨a, _, rfl, hkept⟩
  | error code => exact Or.inr ⟨code, _, rfl, hkept⟩

theorem triple_callMountOf {P : Vfs ω κ → Prop} {Q : Unit → Vfs ω κ → Prop}
    {operation : VfsMount κ → ω → Except VfsError Unit × MountContents κ × ω}
    (h : ∀ s, P s →
      Answered Q E (operation (s.mount m) s.world).1 { s.putMount m { s.mount m with
        toMountContents := (operation (s.mount m) s.world).2.1 } with
          world := (operation (s.mount m) s.world).2.2 }) :
    Triple P (callMount m operation) Q E := by
  refine Triple.of_eq fun s hs ↦ ?_
  rw [outcome_callMount]
  have hanswer := h s hs
  cases hoperation : (operation (s.mount m) s.world).1 with
  | ok a =>
      rw [hoperation] at hanswer
      exact Or.inl ⟨a, _, rfl, hanswer⟩
  | error code =>
      rw [hoperation] at hanswer
      exact Or.inr ⟨code, _, rfl, hanswer⟩

theorem triple_releaseLast (s₀ : Vfs ω κ) {u : Vfs ω κ} (hu : Tables u)
    {old : NodeIndex → MountIndex → Option MountIndex → Prop} :
    Triple (fun t ↦ (Holding u (n ::ₘ hand) (t.under u) ∧ SameTables s₀ t) ∧
        (t.node n).references = 1 ∧ Among old (some n) t)
      (vfsNodeRelease beneath (some n))
      (fun _ t ↦ (Holding u hand (t.under u) ∧ SameTables s₀ t) ∧ Among old none t) E := by
  refine Triple.get fun t ⟨⟨hholding, hsame⟩, hreferences, hamong⟩ ↦ ?_
  have huse : (t.node n).inUse = true := hholding.inUse
  refine Triple.ite (fun hguard ↦ ?_) fun _ ↦ Triple.ite (fun hmany ↦ ?_) fun hlast ↦ ?_
  · simp [huse, hreferences] at hguard
  · omega
  · refine Triple.set fun _ _ ↦ ⟨⟨?_, ?_⟩, hamong.idle rfl⟩
    · have hlast' : ((t.under u).node n).references ≤ 1 := Nat.not_lt.mp hlast
      exact (hholding.putNode (hholding.1.free hlast' (hholding.tables hu) _ rfl)).world hu _
    · exact hsame.trans ⟨rfl, rfl, rfl, rfl, rfl⟩

theorem SameTables.under_eq {s t : Vfs ω κ} (h : SameTables s t) : t.under s = t := by
  unfold Vfs.under
  rw [← h.filesystems, ← h.mounts, ← h.files, ← h.pipes, ← h.rootMount]

theorem Ledger.raise {s s' : Vfs ω κ} {root : NodeIndex} {covered : Option NodeIndex}
    (h : Ledger s (root ::ₘ toHand covered)) (hsame : SameButMount m s s')
    (hm : m < s.mounts.capacity) (hbare : Bare (s.mount m))
    (hmounted : (s'.mount m).mounted = true) (hroot : (s'.mount m).root = some root)
    (hcovered : (s'.mount m).covered = covered) (hupon : (s.node root).mount = m)
    (hfree : ∀ c, covered = some c → (s.node c).mounted = none)
    (hnode : ∀ k, (s'.node k).mounted = if covered = some k then some m else (s.node k).mounted)
    (hbelow : ∀ m' c, (s'.mount m').mounted = true → (s'.mount m').covered = some c →
      (s.node c).mount ≠ m) :
    Ledger s' 0 := by
  have hforest : Forest s' := by
    -- the new mount ranks above the one it stands upon, and nothing stands upon it
    obtain ⟨rank, hrank⟩ := h.forest
    refine ⟨Function.update rank m (covered.elim 0 fun c ↦ rank (s.node c).mount + 1),
      fun m' c hm' hc ↦ ?_⟩
    have hmount : (s'.node c).mount = (s.node c).mount := by rw [hsame.node c]
    rw [hmount, Function.update_of_ne (hbelow m' c hm' hc)]
    by_cases hmm : m' = m
    · subst hmm
      rw [hcovered.symm.trans hc, Function.update_self]
      exact Nat.lt_succ_self _
    · rw [hsame.other m' hmm] at hm' hc
      rw [Function.update_of_ne hmm]
      exact hrank m' c hm' hc
  refine h.remount hsame hm (fun k ↦ ?_) (fun _ _ _ ↦ hmounted) ?_ ?_ ?_ hforest
  · rw [hbare.holds, Multiset.count_cons, count_toHand, mountHolds, hroot, hcovered]
    simp only [hmounted, true_and, Option.some.injEq, Multiset.count_zero, eq_comm (a := k)]
    omega
  · intro r _ hr
    rw [hroot] at hr
    cases hr
    exact hupon
  · intro k m' hk hk'
    rw [hnode] at hk'
    by_cases hck : covered = some k
    · rw [if_pos hck] at hk'
      cases hk'
      exact ⟨hmounted, hcovered.trans hck⟩
    · rw [if_neg hck] at hk'
      obtain ⟨hstands, hcovers⟩ := h.crossing k m' hk hk'
      have hmm : m' ≠ m := by
        rintro rfl
        rw [(hbare hstands).2] at hcovers
        cases hcovers
      rw [hsame.other m' hmm]
      exact ⟨hstands, hcovers⟩
  · intro m' k hstands hcovers
    rw [hnode]
    by_cases hmm : m' = m
    · subst hmm
      rw [if_pos (hcovered.symm.trans hcovers)]
    · rw [hsame.other m' hmm] at hstands hcovers
      have hk := h.covering m' k hstands hcovers
      have hck : covered ≠ some k := fun hck ↦ by
        rw [hfree k hck] at hk
        cases hk
      rw [if_neg hck]
      exact hk

theorem triple_releaseCovered (ht : Tables s₀) {covered : Option NodeIndex} :
    Triple (Holding s₀ (toHand covered)) (vfsNodeRelease beneath covered)
      (fun _ ↦ Holding s₀ 0) E := by
  cases covered with
  | none => exact Triple.pure fun _ h ↦ h
  | some c => exact (triple_release ht : Triple (Holding s₀ (c ::ₘ 0)) _ (fun _ ↦ Holding s₀ 0) E)

theorem triple_giveUp (hs₀ : Balanced s₀) (hm : m < s₀.mounts.capacity)
    (hfree : (s₀.mount m).mounted = false) {covered : Option NodeIndex} {code : VfsError}
    {Q : α → Vfs ω κ → Prop} :
    Triple (Raising s₀ m false (toHand covered))
      (do
        vfsNodeRelease beneath covered
        modify fun s ↦ s.putMount m .zero
        throw code)
      Q (fun _ ↦ Settled s₀) := by
  refine Triple.intro fun s hs ↦ ?_
  refine ((triple_releaseCovered (hs.tables hs₀.tables hm hfree)).pre (S := fun t ↦ t = s)
    ?_).bind fun _ ↦ (Triple.modify (Q := fun _ ↦ Settled s₀) fun t ht ↦ ?_).bind fun _ ↦
      Triple.throw fun _ h ↦ h
  · rintro t rfl
    exact ⟨hs.ledger, SameTables.refl t⟩
  · exact (hs.of_holding ht).settled hs₀ hm hfree

def Uncovered (covered : Option NodeIndex) (s : Vfs ω κ) : Prop :=
  ∀ c, covered = some c → (s.node c).mounted = none

def Elsewhere (m : MountIndex) (covered : Option NodeIndex) (k : NodeIndex)
    (mount : MountIndex) (mounted : Option MountIndex) : Prop :=
  mount ≠ m ∧ (covered = some k → mounted = none)

theorem triple_abandonMount (hs₀ : Balanced s₀) (hm : m < s₀.mounts.capacity)
    (hfree : (s₀.mount m).mounted = false) {covered : Option NodeIndex}
    {operations : VfsFilesystemOperations ω κ} {code : VfsError} {Q : Unit → Vfs ω κ → Prop} :
    Triple (fun s ↦ Raising s₀ m true (toHand covered) s ∧ Among (Elsewhere m covered) none s)
      (vfsAbandonMount beneath m covered operations code) Q (fun _ ↦ Settled s₀) := by
  refine (Triple.attempt (Q := fun _ s ↦ Raising s₀ m true (toHand covered) s ∧
    Among (Elsewhere m covered) none s) (triple_callMount ?_)).bind fun _ ↦ ?_
  · exact fun s contents world hs ↦ ⟨hs.1.contents hm contents world, hs.2⟩
  refine (Triple.modify (Q := fun _ ↦ Raising s₀ m false (toHand covered)) ?_).bind fun _ ↦
    triple_giveUp hs₀ hm hfree
  rintro s ⟨hraising, hamong⟩
  exact hraising.putMount hm _ rfl hraising.bare fun k hk hkm ↦
    absurd hkm (hamong k hk (by simp)).1

structure Stood (t : Vfs ω κ) (m : MountIndex) (covered : Option NodeIndex) (root : NodeIndex)
    (t' : Vfs ω κ) : Prop extends Balanced t' where
  mounts : t'.mounts =
    (t.putMount m { t.mount m with root := some root, covered := covered }).mounts
  rootMount : t'.rootMount = if covered.isNone then some m else t.rootMount

theorem Raising.stand {s t : Vfs ω κ} {covered : Option NodeIndex} {root : NodeIndex}
    (h : Raising s₀ m true (toHand covered) s) (hs₀ : Balanced s₀)
    (hm : m < s₀.mounts.capacity) (hfree : (s₀.mount m).mounted = false)
    (hfirst : covered = none → s₀.rootMount = none)
    (ht : Fresh s (toHand covered) m (Elsewhere m covered) root t) :
    Triple (fun t' ↦ t' = t) (vfsStandMount m covered root : VfsAction ω κ Unit)
      (fun _ ↦ Stood t m covered root) E := by
  have hraising := h.of_holding ht.holding
  have htables := hraising.tables hs₀.tables hm hfree
  have hm' : m < t.mounts.capacity := by rw [hraising.capacity_eq]; exact hm
  have hinHand : ∀ c, covered = some c → (t.node c).inUse = true := by
    rintro c rfl
    exact ht.holding.1.inUse_of_mem (by simp [toHand])
  -- the root is held once, so it is not what the mount covers
  have hrootNe : ∀ c, covered = some c → root ≠ c := by
    rintro c rfl rfl
    have hcounted := ht.holding.1.counted root ht.holding.inUse
    rw [ht.references_eq, Multiset.count_cons_self, count_toHand, if_pos rfl] at hcounted
    omega
  have huncovered : ∀ c, covered = some c → (t.node c).mounted = none := fun c hc ↦
    (ht.among c (hinHand c hc) fun h ↦ hrootNe c hc (Option.some.inj h)).2 hc
  let mount : VfsMount κ := { t.mount m with root := some root, covered := covered }
  have hmounted : mount.mounted = true := hraising.mounted_eq
  have htables' : Tables (t.putMount m mount) := htables.putMount hm' fun _ ↦ hmounted
  have hrooted : ∀ k, ((t.putMount m mount).mount k).mounted = true →
      ((t.putMount m mount).mount k).root.isSome := by
    intro k hk
    by_cases hkm : k = m
    · subst hkm
      rw [putMount_mount_self]
      rfl
    · rw [putMount_mount_of_ne hkm, hraising.rest hkm] at hk ⊢
      exact hs₀.rooted k hk
  have hraise : ∀ s', SameButMount m t s' → s'.mount m = mount →
      (∀ k, (s'.node k).mounted = if covered = some k then some m else (t.node k).mounted) →
      Ledger s' 0 := by
    intro s' hsame hslot hnode
    refine ht.holding.1.raise hsame hm' (fun _ ↦ hraising.bare) ?_ ?_ ?_ ht.mount_eq huncovered
      hnode ?_
    · rw [hslot]
      exact hmounted
    · rw [hslot]
    · rw [hslot]
    · intro m' c hm' hc
      have helsewhere : ∀ k, (t.node k).inUse = true → root ≠ k → (t.node k).mount ≠ m :=
        fun k hk hrk ↦ (ht.among k hk fun h ↦ hrk (Option.some.inj h)).1
      by_cases hmm : m' = m
      · subst hmm
        rw [hslot] at hc
        exact helsewhere c (hinHand c hc) (hrootNe c hc)
      · rw [hsame.other m' hmm] at hm' hc
        have hpositive := holders_pos_of_covered htables hm' hc
        refine helsewhere c (ht.holding.1.inUse_of_holders hpositive) ?_
        rintro rfl
        have hcounted := ht.holding.1.counted root ht.holding.inUse
        rw [ht.references_eq, Multiset.count_cons_self] at hcounted
        omega
  refine (Triple.modify (Q := fun _ t' ↦ t' = t.putMount m mount) ?_).bind fun _ ↦ ?_
  · rintro t' rfl
    rfl
  cases covered with
  | none =>
      refine Triple.modify ?_
      rintro t' rfl
      refine ⟨⟨hraise _ ?_ ?_ ?_, ⟨htables'.mountBounded, ?_, htables'.fileBounded,
        htables'.closed, htables'.either⟩, hrooted⟩, rfl, rfl⟩
      · exact ⟨rfl, rfl, rfl, fun _ ↦ rfl, fun _ hk ↦ putMount_mount_of_ne hk⟩
      · exact putMount_mount_self
      · exact fun _ ↦ rfl
      · rintro k ⟨⟩
        change ((t.putMount m mount).mount m).mounted = true
        rw [putMount_mount_self]
        exact hmounted
  | some c =>
      refine Triple.modify ?_
      rintro t' rfl
      let node : VfsNode κ := { t.node c with mounted := some m }
      change Stood t m (some c) root ((t.putMount m mount).putNode c node)
      have hself : ∀ k, (((t.putMount m mount).putNode c node).node k) =
          if some c = some k then node else t.node k := by
        intro k
        by_cases hk : k = c
        · subst hk
          rw [putNode_node_self, if_pos rfl]
        · rw [putNode_node_of_ne _ _ _ _ hk, if_neg fun h ↦ hk (Option.some.inj h).symm]
          rfl
      refine ⟨⟨hraise _ ⟨rfl, rfl, rfl, fun k ↦ ?_, fun _ hk ↦ putMount_mount_of_ne hk⟩ ?_
        fun k ↦ ?_, (SameTables.putNode _ c node).tables htables', hrooted⟩, rfl, rfl⟩
      · rw [hself]
        by_cases hk : some c = some k
        · rw [if_pos hk]
          cases hk
          rfl
        · rw [if_neg hk]
      · exact putMount_mount_self
      · rw [hself]
        by_cases hk : some c = some k
        · rw [if_pos hk, if_pos hk]
        · rw [if_neg hk, if_neg hk]

structure Filled (beneath : Beneath ω κ) (prepared mount : VfsMount κ) : Prop where
  point : mount.point = prepared.point
  device : mount.device = prepared.device
  operations : mount.operations = prepared.operations
  opened : ∃ world contents world',
    (beneath.operations prepared.operations).mount prepared prepared.device prepared.readOnly
      world = (.ok (), contents, world') ∧ mount.context = contents.context

def SlotFilled (beneath : Beneath ω κ) (prepared : VfsMount κ) (m : MountIndex) (s : Vfs ω κ) :
    Prop :=
  Filled beneath prepared (s.mount m)

theorem SlotFilled.of_same {prepared : VfsMount κ} {s t : Vfs ω κ}
    (h : SlotFilled beneath prepared m s) (hsame : SameTables s t) :
    SlotFilled beneath prepared m t := by
  unfold SlotFilled
  rw [hsame.mount_eq]
  exact h

structure Joined (beneath : Beneath ω κ) (s : Vfs ω κ) (m : MountIndex) (prepared : VfsMount κ)
    (t : Vfs ω κ) : Prop extends Balanced t where
  free : (s.mount m).mounted = false
  mounted : (t.mount m).mounted = true
  filled : SlotFilled beneath prepared m t
  other : ∀ k, k ≠ m → (s.mount k).mounted = true ∨ (t.mount k).mounted = true →
    t.mount k = s.mount k
  first : (t.mount m).covered = none → s.rootMount = none
  rootMount : t.rootMount = if (t.mount m).covered.isNone then some m else s.rootMount

theorem Stood.joined {prepared : VfsMount κ} {covered : Option NodeIndex} {root : NodeIndex}
    {t t' : Vfs ω κ} (h : Stood t m covered root t') (hraising : Raising s₀ m true hand t)
    (hfree : (s₀.mount m).mounted = false) (hfirst : covered = none → s₀.rootMount = none)
    (hfilled : SlotFilled beneath prepared m t) : Joined beneath s₀ m prepared t' := by
  have hslot : t'.mount m = { t.mount m with root := some root, covered := covered } := by
    rw [Vfs.mount, h.mounts]
    exact putMount_mount_self
  have hroot : t.rootMount = s₀.rootMount := hraising.aside.rootMount
  refine ⟨h.toBalanced, hfree, ?_, ?_, fun k hk _ ↦ ?_, ?_, ?_⟩
  · rw [hslot]
    exact hraising.mounted_eq
  · unfold SlotFilled
    rw [hslot]
    exact ⟨hfilled.point, hfilled.device, hfilled.operations, hfilled.opened⟩
  · rw [← hraising.rest hk, Vfs.mount, h.mounts]
    exact putMount_mount_of_ne hk
  · rw [hslot]
    exact hfirst
  · rw [hslot, h.rootMount, hroot]

theorem Joined.after_standing {prepared : VfsMount κ} {s t : Vfs ω κ}
    (h : Joined beneath s₀ m prepared t) (hs : SameStanding s s₀) :
    Joined beneath s m prepared t where
  toBalanced := h.toBalanced
  free := by rw [← hs.mounted_eq]; exact h.free
  mounted := h.mounted
  filled := h.filled
  other k hk hstands := by
    have hmounted := hs.mounted_eq k
    by_cases hk₀ : (s₀.mount k).mounted = true
    · rw [h.other k hk (Or.inl hk₀), hs.mount k (Or.inr hk₀)]
    · rcases hstands with hstands | hstands
      · exact absurd (hmounted.trans hstands) hk₀
      · have hmount := h.other k hk (Or.inr hstands)
        rw [hmount] at hstands
        exact absurd hstands hk₀
  first hcovered := by rw [← hs.rootMount]; exact h.first hcovered
  rootMount := by rw [← hs.rootMount]; exact h.rootMount

theorem triple_raiseMount (hs₀ : Balanced s₀) (hm : m < s₀.mounts.capacity)
    (hfree : (s₀.mount m).mounted = false) {covered : Option NodeIndex} {prepared : VfsMount κ}
    (hprepared : prepared.mounted = false)
    (hbare : prepared.root = none ∧ prepared.covered = none) :
    Triple (Coverable s₀ covered) (vfsRaiseMount beneath m covered prepared)
      (fun _ ↦ Joined beneath s₀ m prepared) (fun _ ↦ Settled s₀) := by
  refine Triple.intro fun s₁ hcoverable ↦ ?_
  refine (Triple.modify (Q := fun _ s ↦ Raising s₀ m false (toHand covered) s ∧
    Uncovered covered s ∧ s.mount m = prepared) ?_).bind fun _ ↦ ?_
  · rintro t rfl
    refine ⟨⟨?_, ?_, ?_, ?_⟩, hcoverable.free, putMount_mount_self⟩
    · have hslot : (t.mount m).mounted = false := by
        rw [hcoverable.holding.2.mount_eq]
        exact hfree
      have hm' : m < t.mounts.capacity := by
        rw [hcoverable.holding.2.mounts]
        exact hm
      refine hcoverable.holding.1.putBare hm' ?_ (fun _ ↦ hbare) fun k hk hkm ↦ ?_
      · intro hmounted
        rw [hslot] at hmounted
        cases hmounted
      · have := hcoverable.holding.1.standing k hk
        rw [Vfs.mountOf, hkm, hslot] at this
        cases this
    · rw [putMount_putMount]
      exact hcoverable.holding.2.putMount m .zero
    · rw [putMount_mount_self]
      exact hprepared
    · rw [putMount_mount_self]
      exact hbare
  refine (Triple.attempt (Q := fun answer s ↦ Raising s₀ m false (toHand covered) s ∧
    Uncovered covered s ∧ (answer = .ok () → SlotFilled beneath prepared m s))
      (triple_callMountOf ?_)).bind fun answer ↦ ?_
  · rintro s ⟨hraising, huncovered, hslot⟩
    rw [hslot]
    have hkept := fun contents world ↦ hslot ▸ hraising.contents hm contents world
    cases hanswer : ((beneath.operations prepared.operations).mount prepared prepared.device
        prepared.readOnly s.world).1 with
    | ok a =>
        refine ⟨hkept _ _, huncovered, fun _ ↦ ?_⟩
        unfold SlotFilled
        change Filled beneath prepared ((s.putMount m _).mount m)
        rw [putMount_mount_self]
        exact ⟨rfl, rfl, rfl, s.world, _, _, Prod.ext hanswer rfl, rfl⟩
    | error code => exact ⟨hkept _ _, huncovered, fun hnot ↦ by cases hnot⟩
  split
  · exact (triple_giveUp hs₀ hm hfree).pre fun _ h ↦ h.1
  refine (Triple.modify (Q := fun _ s ↦ Raising s₀ m true (toHand covered) s ∧
    Among (Elsewhere m covered) none s ∧ SlotFilled beneath prepared m s) ?_).bind fun _ ↦ ?_
  · rintro s ⟨hraising, huncovered, hfilled⟩
    obtain ⟨hpoint, hdevice, hoperations, hopened⟩ := hfilled rfl
    refine ⟨hraising.putMount hm _ rfl hraising.bare fun _ _ _ ↦ rfl, fun k hk _ ↦ ?_, ?_⟩
    · exact ⟨hraising.apart hk, fun hck ↦ huncovered k hck⟩
    · unfold SlotFilled
      rw [putMount_mount_self]
      exact ⟨hpoint, hdevice, hoperations, hopened⟩
  refine Triple.get fun s hs ↦ ?_
  obtain ⟨hraising, hamong, hfilled⟩ := hs
  have htables := hraising.tables hs₀.tables hm hfree
  have hacquire := fun number ↦ @triple_acquireFirst _ _ beneath s (toHand covered)
    (Elsewhere m covered) htables m number hraising.mounted_eq fun _ _ _ h ↦ h.1
  refine ((hacquire _).attempt_answered.pre (S := fun t ↦ t = s) ?_).bind fun answer ↦ ?_
  · rintro t rfl
    exact ⟨⟨hraising.ledger, SameTables.refl t⟩, hamong⟩
  cases answer with
  | error code =>
      exact (triple_abandonMount hs₀ hm hfree).pre fun t ht ↦ ⟨hraising.of_holding ht.1, ht.2⟩
  | ok root =>
      refine Triple.get fun t ht ↦ Triple.ite (fun _ ↦ ?_) fun _ ↦ ?_
      · refine (hraising.stand hs₀ hm hfree hcoverable.first ht).post fun _ t' ht' ↦ ?_
        exact ht'.joined (hraising.of_holding ht.holding) hfree hcoverable.first
          (hfilled.of_same ht.holding.2)
      · have hfresh : Fresh s (toHand covered) m (Elsewhere m covered) root t := ht
        have hrelease : Triple (fun t' ↦ t' = t) (vfsNodeRelease beneath (some root))
            (fun _ t' ↦ (Holding s (toHand covered) (t'.under s) ∧ SameTables s t') ∧
              Among (Elsewhere m covered) none t') fun _ ↦ Settled s₀ := by
          refine (triple_releaseLast s htables).pre ?_
          rintro t' rfl
          refine ⟨⟨?_, hfresh.holding.2⟩, hfresh.references_eq, hfresh.among⟩
          rw [hfresh.holding.2.under_eq]
          exact hfresh.holding
        refine hrelease.bind fun _ ↦ (triple_abandonMount hs₀ hm hfree).pre ?_
        rintro t' ⟨⟨hholding, hsame⟩, hamong'⟩
        rw [hsame.under_eq] at hholding
        exact ⟨hraising.of_holding hholding, hamong'⟩

theorem triple_mountVolume {s : Vfs ω κ} (hs : Balanced s)
    {deviceName point type : Option Name} {readOnly : Bool} :
    Triple (fun t ↦ t = s) (vfsMountVolume beneath deviceName point type readOnly)
      (fun _ t ↦ ∃ m prepared, Joined beneath s m prepared t ∧
        vfsDeviceIsMounted s prepared.device = false)
      (fun _ ↦ Settled s) := by
  have hrefused : ∀ t, t = s → Settled s t := by
    rintro t rfl
    exact hs.settled
  unfold vfsMountVolume
  split
  · refine (triple_pathLength _).weaken (fun _ h ↦ h) (fun _ _ h ↦ h)
      (fun _ ↦ hrefused) |>.bind fun point ↦ Triple.get fun t ht ↦ ?_
    subst ht
    split
    · exact Triple.throw fun _ ↦ hrefused _
    · exact Triple.throw fun _ ↦ hrefused _
    · rename_i filesystem device _ _
      refine Triple.ite (fun _ ↦ Triple.throw fun _ ↦ hrefused _) fun hdevice ↦ ?_
      refine (triple_freeMount.pre hrefused).bind fun m ↦ Triple.intro fun s₀ ⟨hs₀, hfree, hm⟩ ↦ ?_
      refine ((triple_coveredNode hs₀.tables).weaken (S := fun t ↦ t = s₀)
        (by rintro t rfl; exact hs₀.holding) (fun _ _ h ↦ h)
          fun _ t h ↦ hs₀.of_holding h).bind fun covered ↦ ?_
      refine (triple_raiseMount hs₀.toBalanced hm hfree rfl ⟨rfl, rfl⟩).weaken (fun _ h ↦ h) ?_ ?_
      · exact fun _ t ht ↦ ⟨m, _, ht.after_standing hs₀.standing,
          Bool.eq_false_of_not_eq_true hdevice⟩
      · exact fun _ t ht ↦ hs₀.trans ht
  · exact Triple.throw fun _ ↦ hrefused _

end OxysOS.Fs
