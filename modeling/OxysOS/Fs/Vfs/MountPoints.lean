import OxysOS.Fs.Vfs.Standing

/-!
# Mount points along a run

A mount is found through the node it covers and is withdrawn by the string it
was joined with.  Two mounts never cover one node, but the strings say nothing
of that: a mount joined above another hides it, and the same string may then
name a new directory.
-/

namespace OxysOS.Fs

open OxysOS.Library OxysOS.Mm OxysOS.Block Action

variable {ω κ : Type} {beneath : Beneath ω κ} {s t : Vfs ω κ} {m k : MountIndex}

structure Unaltered (s t : Vfs ω κ) : Prop where
  standing : SameStanding s t
  files : t.files = s.files
  inUse : ∀ n, (t.node n).inUse = (s.node n).inUse
  references : ∀ n, (s.node n).inUse = true → (t.node n).references = (s.node n).references

theorem Settled.holders_eq (h : Settled s t) (hs : Balanced s) (n : NodeIndex) :
    holders t n = holders s n := by
  have hfile : ∀ i, t.file i = s.file i := fun i ↦ by rw [Vfs.file, Vfs.file, h.files]
  have hfiles : openFiles t n = openFiles s n := by simp only [openFiles, hfile, h.files]
  -- the two tables may differ in their room, so both are counted up to the larger
  have hcount : ∀ field : VfsMount κ → Option NodeIndex,
      tally t.mounts.capacity (fun k ↦ (t.mount k).mounted = true ∧
        field (t.mount k) = some n) =
      tally s.mounts.capacity fun k ↦ (s.mount k).mounted = true ∧
        field (s.mount k) = some n := by
    intro field
    refine (tally_extend (le_max_left _ s.mounts.capacity) fun k hk hstands ↦ ?_).symm.trans
      ((tally_congr fun k _ ↦ ?_).trans
        (tally_extend (le_max_right t.mounts.capacity _) fun k hk hstands ↦ ?_))
    · exact absurd (h.tables.mountBounded k hstands.1) (Nat.not_lt.mpr hk)
    · rw [h.standing.mounted_eq]
      refine and_congr_right fun hk ↦ ?_
      rw [h.standing.mount k (Or.inl hk)]
    · exact absurd (hs.tables.mountBounded k hstands.1) (Nat.not_lt.mpr hk)
  have hroots : rootMounts t n = rootMounts s n := hcount VfsMount.root
  have hcovering : coveringMounts t n = coveringMounts s n := hcount VfsMount.covered
  unfold holders
  rw [hroots, hcovering, hfiles]

theorem Balanced.inUse_iff (h : Balanced s) (n : NodeIndex) :
    (s.node n).inUse = true ↔ 0 < holders s n := by
  refine ⟨fun huse ↦ ?_, h.ledger.inUse_of_holders⟩
  have hcounted := h.ledger.counted n huse
  have hpositive := h.ledger.positive n huse
  rw [Multiset.count_zero] at hcounted
  omega

theorem Settled.unaltered (h : Settled s t) (hs : Balanced s) : Unaltered s t := by
  have huse : ∀ n, (t.node n).inUse = (s.node n).inUse := by
    intro n
    rw [Bool.eq_iff_iff, h.inUse_iff, hs.inUse_iff, h.holders_eq hs]
  refine ⟨h.standing, h.files, huse, fun n hn ↦ ?_⟩
  rw [h.ledger.counted n ((huse n).trans hn), hs.ledger.counted n hn, h.holders_eq hs]

theorem releaseAndRefuse_refuses {α : Type} (n : NodeIndex) (code : VfsError) (s : Vfs ω κ) :
    (outcome (releaseAndRefuse beneath n code : VfsAction ω κ α) s).1 = .error code := by
  have hrelease : Triple (fun _ ↦ True) (vfsNodeRelease beneath (some n)) (fun _ _ ↦ True)
      (fun _ _ ↦ False) := by
    refine Triple.get fun s _ ↦ ?_
    refine Triple.ite (fun _ ↦ Triple.pure fun _ _ ↦ trivial) fun _ ↦ ?_
    exact Triple.ite (fun _ ↦ Triple.set fun _ _ ↦ trivial) fun _ ↦ Triple.set fun _ _ ↦ trivial
  unfold releaseAndRefuse
  rw [outcome_bind]
  rcases hrelease.cases (s := s) trivial with ⟨_, t, heq, -⟩ | ⟨_, _, -, hfalse⟩
  · rw [heq]
    rfl
  · exact hfalse.elim

structure ReachesCovered (beneath : Beneath ω κ) (s : Vfs ω κ) (deviceName point type : Name) :
    Prop where
  nonempty : 0 < point.length
  short : point.length ≤ vfsPathMaximum
  registered : (vfsFindFilesystem s type).isSome
  device : ∃ device, beneath.blockFindByName s.world deviceName = some device ∧
    vfsDeviceIsMounted s device = false
  root : s.rootMount.isSome
  walked : ∃ m s₀ n t, outcome (vfsFreeMount beneath) s = (.ok m, s₀) ∧
    outcome (vfsWalkFrom beneath none point true) s₀ = (.ok n, t) ∧
    (t.node n).type = .directory ∧ (t.node n).mounted.isSome

theorem ReachesCovered.busy {deviceName point type : Name}
    (h : ReachesCovered beneath s deviceName point type) (hs : Balanced s) (readOnly : Bool) :
    (outcome (vfsMountVolume beneath (some deviceName) (some point) (some type) readOnly) s).1 =
      .error .busy := by
  obtain ⟨filesystem, hfilesystem⟩ := Option.isSome_iff_exists.mp h.registered
  obtain ⟨device, hdevice, hfree⟩ := h.device
  obtain ⟨m, s₀, n, t, hslot, hwalk, hdirectory, hmounted⟩ := h.walked
  have hroot : s₀.rootMount.isNone = false := by
    have hkept : s₀.rootMount = s.rootMount := by
      have hslots : Triple (Settled s) (vfsFreeMount beneath) _ _ := triple_freeMount
      rcases hslots.cases hs.settled with
        ⟨_, _, heq, hsettled, -⟩ | ⟨_, _, heq, -⟩
      · rw [hslot] at heq
        cases heq
        exact hsettled.standing.rootMount
      · rw [hslot] at heq
        cases heq
    rw [hkept]
    simpa using h.root
  have hempty : ¬ point.length = 0 := Nat.pos_iff_ne_zero.mp h.nonempty
  have hlong : ¬ vfsPathMaximum < point.length := Nat.not_lt.mpr h.short
  have hcovered : (outcome (vfsCoveredNode beneath point) s₀).1 = .error .busy := by
    unfold vfsCoveredNode
    rw [outcome_bind, outcome_get]
    simp only [hroot, Bool.false_eq_true, if_false]
    rw [outcome_bind, hwalk]
    dsimp only
    rw [outcome_bind, outcome_get]
    simp only [hdirectory, ne_eq, not_true, if_false, hmounted, if_true]
    exact releaseAndRefuse_refuses n .busy t
  have hrefused : ∀ next : Option NodeIndex → VfsAction ω κ Unit,
      (outcome (vfsCoveredNode beneath point >>= next) s₀).1 = .error .busy := by
    intro next
    rw [outcome_bind]
    cases hcase : outcome (vfsCoveredNode beneath point) s₀ with
    | mk answer t' =>
        rw [hcase] at hcovered
        cases hcovered
        rfl
  unfold vfsMountVolume vfsPathLength
  simp only [hempty, hlong, if_false, pure_bind]
  rw [outcome_bind, outcome_get]
  simp only [hfilesystem, hdevice, hfree, Bool.false_eq_true, if_false]
  rw [outcome_bind, hslot]
  exact hrefused _

end OxysOS.Fs
