import OxysOS.Fs.Vfs.Balance

/-!
# The mount table along a run

What the counts of `Ledger` do not say of the mounts: no two stand upon one
device, only the mount at the root of the tree covers nothing, and each keeps
the description its filesystem attached when it was joined.
-/

namespace OxysOS.Fs

open OxysOS.Library OxysOS.Mm OxysOS.Block Action

variable {ω κ : Type} {beneath : Beneath ω κ} {s t : Vfs ω κ} {m k : MountIndex}

theorem vfsDeviceIsMounted_iff (ht : Tables s) {device : DeviceAddress} :
    vfsDeviceIsMounted s device = true ↔
      ∃ m, (s.mount m).mounted = true ∧ (s.mount m).device = device := by
  unfold vfsDeviceIsMounted
  constructor
  · intro h
    obtain ⟨m, hm⟩ := Option.isSome_iff_exists.mp h
    have htest := (GrowingTable.find_some hm).2
    simp only [Bool.and_eq_true, beq_iff_eq] at htest
    exact ⟨m, htest⟩
  · rintro ⟨m, hm, hdevice⟩
    by_contra hnone
    have hfind := Option.not_isSome_iff_eq_none.mp hnone
    have htest := GrowingTable.find_none hfind (ht.mountBounded m hm)
    simp only [Bool.and_eq_false_iff, beq_eq_false_iff_ne] at htest
    rcases htest with htest | htest
    · exact absurd (htest.symm.trans hm) Bool.false_ne_true
    · exact htest hdevice

structure Standing (s : Vfs ω κ) : Prop where
  apart : ∀ m k, (s.mount m).mounted = true → (s.mount k).mounted = true →
    (s.mount m).device = (s.mount k).device → m = k
  coverless : ∀ m, (s.mount m).mounted = true → (s.mount m).covered = none →
    s.rootMount = some m

theorem SameStanding.back (h : SameStanding s t) (hm : (t.mount m).mounted = true) :
    (s.mount m).mounted = true ∧ t.mount m = s.mount m :=
  ⟨(h.mounted_eq m).symm.trans hm, h.mount m (Or.inr hm)⟩

theorem Joined.back {prepared : VfsMount κ} (h : Joined beneath s k prepared t) (hmk : m ≠ k)
    (hm : (t.mount m).mounted = true) : (s.mount m).mounted = true ∧ t.mount m = s.mount m := by
  have hmount := h.other m hmk (Or.inr hm)
  exact ⟨by rw [← hmount]; exact hm, hmount⟩

theorem Withdrawn.mount_eq (h : Withdrawn s k t) (hmk : m ≠ k) : t.mount m = s.mount m := by
  rw [h.tables_eq.mount_eq]
  exact putMount_mount_of_ne hmk

theorem Withdrawn.free (h : Withdrawn s k t) : (t.mount k).mounted = false := by
  have hzero : (s.withdrawn k).mount k = .zero := putMount_mount_self
  rw [h.tables_eq.mount_eq, hzero]
  rfl

theorem Withdrawn.back (h : Withdrawn s k t) (hm : (t.mount m).mounted = true) :
    m ≠ k ∧ (s.mount m).mounted = true ∧ t.mount m = s.mount m := by
  have hmk : m ≠ k := by
    rintro rfl
    rw [h.free] at hm
    cases hm
  have hmount := h.mount_eq hmk
  exact ⟨hmk, by rw [← hmount]; exact hm, hmount⟩

theorem Standing.same (h : Standing s) (hsame : SameStanding s t) : Standing t := by
  refine ⟨fun m k hm hk ↦ ?_, fun m hm ↦ ?_⟩
  · obtain ⟨hm', hmount⟩ := hsame.back hm
    obtain ⟨hk', hmount'⟩ := hsame.back hk
    rw [hmount, hmount']
    exact h.apart m k hm' hk'
  · obtain ⟨hm', hmount⟩ := hsame.back hm
    rw [hmount, hsame.rootMount]
    exact h.coverless m hm'

theorem Standing.joined {prepared : VfsMount κ} (h : Standing s) (hs : Tables s)
    (hjoined : Joined beneath s k prepared t)
    (hdevice : vfsDeviceIsMounted s prepared.device = false) : Standing t := by
  -- nothing stood upon the device of the mount that is joined
  have hfresh : ∀ m, m ≠ k → (t.mount m).mounted = true →
      (t.mount m).device ≠ (t.mount k).device := by
    intro m hmk hm hsame
    obtain ⟨hm', hmount⟩ := hjoined.back hmk hm
    have hfilled : (t.mount k).device = prepared.device := hjoined.filled.device
    rw [hmount, hfilled] at hsame
    rw [(vfsDeviceIsMounted_iff hs).mpr ⟨m, hm', hsame⟩] at hdevice
    cases hdevice
  refine ⟨fun m l hm hl hsame ↦ ?_, fun m hm hcovered ↦ ?_⟩
  · by_cases hmk : m = k <;> by_cases hlk : l = k
    · rw [hmk, hlk]
    · subst hmk
      exact absurd hsame.symm (hfresh l hlk hl)
    · subst hlk
      exact absurd hsame (hfresh m hmk hm)
    · obtain ⟨hm', hmount⟩ := hjoined.back hmk hm
      obtain ⟨hl', hmount'⟩ := hjoined.back hlk hl
      rw [hmount, hmount'] at hsame
      exact h.apart m l hm' hl' hsame
  · rw [hjoined.rootMount]
    by_cases hmk : m = k
    · subst hmk
      rw [hcovered]
      rfl
    · obtain ⟨hm', hmount⟩ := hjoined.back hmk hm
      rw [hmount] at hcovered
      have hroot := h.coverless m hm' hcovered
      cases hnew : (t.mount k).covered with
      | none =>
          rw [hjoined.first hnew] at hroot
          cases hroot
      | some c => exact hroot

theorem Standing.withdrawn (h : Standing s) (hwithdrawn : Withdrawn s k t) : Standing t := by
  refine ⟨fun m l hm hl hsame ↦ ?_, fun m hm hcovered ↦ ?_⟩
  · obtain ⟨-, hm', hmount⟩ := hwithdrawn.back hm
    obtain ⟨-, hl', hmount'⟩ := hwithdrawn.back hl
    rw [hmount, hmount'] at hsame
    exact h.apart m l hm' hl' hsame
  · obtain ⟨hmk, hm', hmount⟩ := hwithdrawn.back hm
    rw [hmount] at hcovered
    have hroot := h.coverless m hm' hcovered
    rw [hwithdrawn.tables_eq.rootMount]
    change (if s.rootMount = some k then none else s.rootMount) = some m
    rw [hroot, if_neg fun heq ↦ hmk (Option.some.inj heq)]

theorem Standing.change (h : Standing s) (hs : Balanced s) (hchange : MountChange beneath s t) :
    Standing t := by
  cases hchange with
  | none _ hsame => exact h.same hsame
  | joined m prepared hjoined hdevice => exact h.joined hs.tables hjoined hdevice
  | withdrawn m hwithdrawn => exact h.withdrawn hwithdrawn

theorem Reachable.standing (h : Reachable beneath s) : Standing s := by
  induction h with
  | initialised s => exact ⟨fun m _ hm ↦ (by cases hm), fun m hm ↦ (by cases hm)⟩
  | elapsed world _ ih => exact ⟨ih.apart, ih.coverless⟩
  | called call hreached hsound ih =>
      exact ih.change hreached.balanced (hreached.balanced.change call hsound)

def AttachesContext (beneath : Beneath ω κ) : Prop :=
  ∀ i mount device readOnly world contents world',
    (beneath.operations i).mount mount device readOnly world = (.ok (), contents, world') →
      contents.context.isSome

theorem context_change (hattaches : AttachesContext beneath)
    (h : ∀ m, (s.mount m).mounted = true → (s.mount m).context.isSome)
    (hchange : MountChange beneath s t) (hm : (t.mount m).mounted = true) :
    (t.mount m).context.isSome := by
  cases hchange with
  | none _ hsame =>
      obtain ⟨hm', hmount⟩ := hsame.back hm
      rw [hmount]
      exact h m hm'
  | joined k prepared hjoined =>
      by_cases hmk : m = k
      · subst hmk
        obtain ⟨world, contents, world', hopened, hcontext⟩ := hjoined.filled.opened
        rw [hcontext]
        exact hattaches _ _ _ _ _ _ _ hopened
      · obtain ⟨hm', hmount⟩ := hjoined.back hmk hm
        rw [hmount]
        exact h m hm'
  | withdrawn k hwithdrawn =>
      obtain ⟨-, hm', hmount⟩ := hwithdrawn.back hm
      rw [hmount]
      exact h m hm'

theorem Reachable.context (hattaches : AttachesContext beneath) (h : Reachable beneath s) :
    ∀ m, (s.mount m).mounted = true → (s.mount m).context.isSome := by
  induction h with
  | initialised s => exact fun m hm ↦ (by cases hm)
  | elapsed world _ ih => exact ih
  | called call hreached hsound ih =>
      exact fun m hm ↦ context_change hattaches ih (hreached.balanced.change call hsound) hm

end OxysOS.Fs
