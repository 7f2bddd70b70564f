import OxysOS.Fs.Vfs.UnmountLedger

/-!
# References balance along every run

The operations that take and give back references, in any order and by any of
their exits, keep one node to a file and every count equal to what holds the
node, unless a filesystem refuses a teardown to let the volume go.
-/

namespace OxysOS.Fs

open OxysOS.Library OxysOS.Mm OxysOS.Block Action

variable {ω κ : Type}

inductive VfsCall where
  | registerFilesystem (name : Option Name) (operations : ℕ)
  | openFile (path : Option Name) (flags : UInt32) (permissions : UInt16)
  | hold (descriptor : ℤ)
  | close (descriptor : ℤ)
  | stat (path : Option Name)
  | statLink (path : Option Name)
  | truncate (path : Option Name) (size : UInt64)
  | createDirectory (path : Option Name) (permissions : UInt16)
  | unlink (path : Option Name)
  | removeDirectory (path : Option Name)
  | link (existing name : Option Name)
  | readLink (path : Option Name) (capacity : ℕ)
  | mountVolume (deviceName point type : Option Name) (readOnly : Bool)
  | unmount (point : Option Name)
  | pipeCreate

def perform (beneath : Beneath ω κ) : VfsCall → VfsAction ω κ Unit
  | .registerFilesystem name operations => vfsRegisterFilesystem beneath name operations
  | .openFile path flags permissions => do let _ ← vfsOpen beneath path flags permissions
  | .hold descriptor => vfsHold descriptor
  | .close descriptor => vfsClose beneath descriptor
  | .stat path => do let _ ← vfsStat beneath path
  | .statLink path => do let _ ← vfsStatLink beneath path
  | .truncate path size => vfsTruncate beneath path size
  | .createDirectory path permissions => vfsCreateDirectory beneath path permissions
  | .unlink path => vfsUnlink beneath path
  | .removeDirectory path => vfsRemoveDirectory beneath path
  | .link existing name => vfsLink beneath existing name
  | .readLink path capacity => do let _ ← vfsReadLink beneath path capacity
  | .mountVolume deviceName point type readOnly =>
      vfsMountVolume beneath deviceName point type readOnly
  | .unmount point => vfsUnmount beneath point
  | .pipeCreate => do let _ ← vfsPipeCreate beneath

def after (beneath : Beneath ω κ) (s : Vfs ω κ) (call : VfsCall) : Vfs ω κ :=
  (outcome (perform beneath call) s).2

def TeardownFails (beneath : Beneath ω κ) (s : Vfs ω κ) : VfsCall → Prop
  | .unmount point => ∃ index code,
      (outcome (vfsMountToWithdraw point) s).1 = .ok index ∧
        (outcome (vfsWithdraw beneath index) s).1 = .error code
  | _ => False

/-- The states that calls bring the layer to from its initialisation.  What
lies beneath may change between them. -/
inductive Reachable (beneath : Beneath ω κ) : Vfs ω κ → Prop where
  | initialised (s : Vfs ω κ) : Reachable beneath (vfsInitialise s)
  | elapsed {s : Vfs ω κ} (world : ω) : Reachable beneath s →
      Reachable beneath { s with world := world }
  | called {s : Vfs ω κ} (call : VfsCall) : Reachable beneath s →
      ¬TeardownFails beneath s call → Reachable beneath (after beneath s call)

variable {beneath : Beneath ω κ} {s s₁ : Vfs ω κ}

theorem Balanced.initialise (s : Vfs ω κ) : Balanced (vfsInitialise s) := by
  have hholders : ∀ n, holders (vfsInitialise s) n = 0 := by
    intro n
    have hfiles : openFiles (vfsInitialise s) n = 0 := tally_eq_zero fun i _ h ↦ by cases h.1
    have hroots : rootMounts (vfsInitialise s) n = 0 := tally_eq_zero fun i _ h ↦ by cases h.1
    have hcovering : coveringMounts (vfsInitialise s) n = 0 :=
      tally_eq_zero fun i _ h ↦ by cases h.1
    unfold holders
    omega
  refine ⟨⟨fun n hn ↦ ?_, fun n hn ↦ ?_, fun n _ ↦ ⟨hholders n, by simp⟩, fun n hn ↦ ?_,
    fun n _ hn ↦ ?_, fun n hn ↦ ?_, fun m _ hm ↦ ?_, fun n _ hn ↦ ?_, fun m _ hm ↦ ?_,
    ⟨fun _ ↦ 0, fun m _ hm ↦ ?_⟩⟩, ⟨fun m hm ↦ ?_, fun m hm ↦ ?_, fun i hi ↦ ?_,
    fun _ _ ↦ ⟨rfl, rfl⟩, fun i hi ↦ ?_⟩, fun m hm ↦ ?_⟩
  all_goals first | cases hn | cases hm | cases hi

theorem triple_registerFilesystem {name : Option Name} {operations : ℕ} :
    Triple (Steady s₁) (vfsRegisterFilesystem beneath name operations) (fun _ ↦ Steady s₁)
      (fun _ ↦ Steady s₁) := by
  unfold vfsRegisterFilesystem
  split
  · exact Triple.throw fun _ h ↦ h
  refine Triple.look fun s hs ↦ ?_
  refine Triple.ite (fun _ ↦ Triple.throw fun _ h ↦ h) fun _ ↦ ?_
  refine Triple.ite (fun _ ↦ Triple.throw fun _ h ↦ h) fun _ ↦ ?_
  split
  · exact Triple.set fun _ _ ↦ hs.keep (hs.of_eq rfl rfl rfl rfl) rfl rfl
  · dsimp only
    refine Triple.ite (fun _ ↦ Triple.set fun _ _ ↦ hs.keep (hs.of_eq rfl rfl rfl rfl) rfl rfl) fun _ ↦ ?_
    refine (Triple.set (Q := fun _ ↦ Steady s₁) fun _ _ ↦ ?_).bind fun _ ↦
      Triple.throw fun _ h ↦ h
    exact hs.keep (hs.of_eq rfl rfl rfl rfl) rfl rfl

def ToWithdraw (s : Vfs ω κ) (point : Option Name) (m : MountIndex) : Prop :=
  ∃ path, point = some path ∧ 0 < path.length ∧ path.length ≤ vfsPathMaximum ∧
    vfsMountNamed s path = some m ∧ vfsMountIsBusy s m = false

theorem outcome_mountToWithdraw_state (point : Option Name) :
    (outcome (vfsMountToWithdraw point) s).2 = s := by
  have hkept : Triple (fun t ↦ t = s) (vfsMountToWithdraw point) (fun _ t ↦ t = s)
      (fun _ t ↦ t = s) := by
    refine (triple_pathLength _).bind fun path ↦ Triple.get fun t ht ↦ ?_
    subst ht
    split
    · exact Triple.throw fun _ h ↦ h
    · exact Triple.ite (fun _ ↦ Triple.throw fun _ h ↦ h) fun _ ↦ Triple.pure fun _ h ↦ h
  rcases hkept.cases rfl with ⟨m, t, heq, rfl⟩ | ⟨code, t, heq, rfl⟩ <;> rw [heq]

theorem outcome_mountToWithdraw_iff {point : Option Name} {m : MountIndex} :
    (outcome (vfsMountToWithdraw point) s).1 = .ok m ↔ ToWithdraw s point m := by
  unfold vfsMountToWithdraw vfsPathLength ToWithdraw
  cases point with
  | none => simp
  | some path =>
      by_cases hempty : path.length = 0
      · simp [hempty]
      · by_cases hlong : vfsPathMaximum < path.length
        · have hbound : ¬ path.length ≤ vfsPathMaximum := Nat.not_le.mpr hlong
          simp [hempty, hlong, hbound]
        · simp only [hempty, hlong, if_false, outcome_bind, outcome_pure, outcome_get,
            Option.some.injEq, exists_eq_left']
          have hpositive : 0 < path.length := Nat.pos_of_ne_zero hempty
          have hbound : path.length ≤ vfsPathMaximum := Nat.not_lt.mp hlong
          cases hnamed : vfsMountNamed s path with
          | none => simp
          | some k =>
              simp only [Option.some.injEq, hpositive, hbound, true_and]
              by_cases hbusy : vfsMountIsBusy s k = true
              · rw [if_pos hbusy]
                refine iff_of_false (fun h ↦ by cases h) ?_
                rintro ⟨rfl, hidle⟩
                rw [hbusy] at hidle
                cases hidle
              · rw [if_neg hbusy, outcome_pure, Except.ok.injEq]
                rw [Bool.not_eq_true] at hbusy
                constructor
                · rintro rfl
                  exact ⟨rfl, hbusy⟩
                · exact fun h ↦ h.1

theorem ToWithdraw.mounted {point : Option Name} {m : MountIndex} (h : ToWithdraw s point m) :
    (s.mount m).mounted = true := by
  obtain ⟨path, -, -, -, hnamed, -⟩ := h
  have htest := (GrowingTable.find_some hnamed).2
  simp only [Bool.and_eq_true] at htest
  exact htest.1

theorem ToWithdraw.idle {point : Option Name} {m : MountIndex} (h : ToWithdraw s point m) :
    vfsMountIsBusy s m = false := by
  obtain ⟨path, -, -, -, -, hidle⟩ := h
  exact hidle

theorem ToWithdraw.unique {point : Option Name} {m k : MountIndex} (h : ToWithdraw s point m)
    (h' : ToWithdraw s point k) : m = k := by
  obtain ⟨path, hpath, -, -, hnamed, -⟩ := h
  obtain ⟨path', hpath', -, -, hnamed', -⟩ := h'
  cases hpath.symm.trans hpath'
  exact Option.some.inj (hnamed.symm.trans hnamed')

theorem outcome_unmount (beneath : Beneath ω κ) (s : Vfs ω κ) (point : Option Name) :
    (∃ m, ToWithdraw s point m ∧
      outcome (vfsUnmount beneath point) s = outcome (vfsWithdraw beneath m) s) ∨
    (¬ ∃ m, ToWithdraw s point m) ∧ (outcome (vfsUnmount beneath point) s).2 = s ∧
      ∃ code, (outcome (vfsUnmount beneath point) s).1 = .error code := by
  have hstate := outcome_mountToWithdraw_state (s := s) point
  unfold vfsUnmount
  rw [outcome_bind]
  cases hfound : outcome (vfsMountToWithdraw point) s with
  | mk answer t =>
      rw [hfound] at hstate
      subst hstate
      cases answer with
      | ok m => exact Or.inl ⟨m, outcome_mountToWithdraw_iff.mp (by rw [hfound]), rfl⟩
      | error code =>
          refine Or.inr ⟨?_, rfl, code, rfl⟩
          rintro ⟨m, hm⟩
          have := outcome_mountToWithdraw_iff.mpr hm
          rw [hfound] at this
          cases this

/-- A volume is joined, one is withdrawn, or the standing mounts are as they
were. -/
inductive MountChange (beneath : Beneath ω κ) (s t : Vfs ω κ) : Prop where
  | none (h : Balanced t) (hsame : SameStanding s t)
  | joined (m : MountIndex) (prepared : VfsMount κ) (h : Joined beneath s m prepared t)
      (hdevice : vfsDeviceIsMounted s prepared.device = false)
  | withdrawn (m : MountIndex) (h : Withdrawn s m t) (hstood : (s.mount m).mounted = true)

theorem MountChange.balanced {t : Vfs ω κ} (h : MountChange beneath s t) : Balanced t := by
  cases h with
  | none h => exact h
  | joined m prepared h => exact h.toBalanced
  | withdrawn m h => exact h.toBalanced

theorem Triple.outcome_of {α : Type} {P Q : Vfs ω κ → Prop} {action : VfsAction ω κ α}
    (h : Triple P action (fun _ ↦ Q) (fun _ ↦ Q)) (hs : P s) : Q (outcome action s).2 := by
  rcases h.cases hs with ⟨_, t, heq, ht⟩ | ⟨_, t, heq, ht⟩ <;> rw [heq] <;> exact ht

theorem Balanced.change_of_steady {α : Type} {action : VfsAction ω κ α} (hs : Balanced s)
    (h : Triple (Steady s) action (fun _ ↦ Steady s) (fun _ ↦ Steady s)) :
    MountChange beneath s (outcome action s).2 :=
  let hsteady := Triple.outcome_of h hs.steady
  .none hsteady.toBalanced (SameStanding.of_eq hsteady.mounts hsteady.rootMount)

theorem Balanced.change_mountVolume (hs : Balanced s) (deviceName point type : Option Name)
    (readOnly : Bool) :
    MountChange beneath s
      (outcome (vfsMountVolume beneath deviceName point type readOnly) s).2 := by
  refine Triple.outcome_of ((triple_mountVolume hs).weaken (fun _ h ↦ h) ?_ ?_) rfl
  · rintro _ t ⟨m, prepared, hjoined, hdevice⟩
    exact .joined m prepared hjoined hdevice
  · exact fun _ t h ↦ .none h.toBalanced h.standing

theorem Balanced.change_unmount (hs : Balanced s) (point : Option Name)
    (hsound : ¬TeardownFails beneath s (.unmount point)) :
    MountChange beneath s (outcome (vfsUnmount beneath point) s).2 := by
  rcases outcome_unmount beneath s point with ⟨m, hm, heq⟩ | ⟨-, heq, -⟩
  · rw [heq]
    have hteardown : Triple (fun t ↦ t = s) (vfsWithdraw beneath m) _ _ :=
      triple_withdraw hs hm.mounted hm.idle
    rcases hteardown.cases rfl with ⟨_, t, hwithdraw, -, hwithdrawn⟩ | ⟨code, t, hwithdraw, -⟩
    · rw [hwithdraw]
      exact .withdrawn m hwithdrawn hm.mounted
    · refine absurd ⟨m, code, outcome_mountToWithdraw_iff.mpr hm, ?_⟩ hsound
      rw [hwithdraw]
  · rw [heq]
    exact .none hs (SameStanding.refl s)

theorem Balanced.change (hs : Balanced s) (call : VfsCall)
    (hsound : ¬TeardownFails beneath s call) : MountChange beneath s (after beneath s call) := by
  have hforget : ∀ {α : Type} {action : VfsAction ω κ α},
      Triple (Steady s) action (fun _ ↦ Steady s) (fun _ ↦ Steady s) →
      Triple (Steady s) (do let _ ← action) (fun _ ↦ Steady s) (fun _ ↦ Steady s) :=
    fun h ↦ h.bind fun _ ↦ Triple.pure fun _ h ↦ h
  unfold after
  cases call with
  | registerFilesystem name operations => exact hs.change_of_steady triple_registerFilesystem
  | openFile path flags permissions => exact hs.change_of_steady (hforget triple_open)
  | hold descriptor => exact hs.change_of_steady triple_holdFile
  | close descriptor => exact hs.change_of_steady triple_close
  | stat path => exact hs.change_of_steady (hforget triple_stat)
  | statLink path => exact hs.change_of_steady (hforget triple_stat)
  | truncate path size => exact hs.change_of_steady triple_truncate
  | createDirectory path permissions => exact hs.change_of_steady triple_createDirectory
  | unlink path => exact hs.change_of_steady triple_unlink
  | removeDirectory path => exact hs.change_of_steady triple_removeDirectory
  | link existing name => exact hs.change_of_steady triple_link
  | readLink path capacity => exact hs.change_of_steady (hforget triple_readLink)
  | mountVolume deviceName point type readOnly => exact hs.change_mountVolume _ _ _ _
  | unmount point => exact hs.change_unmount point hsound
  | pipeCreate => exact hs.change_of_steady (hforget triple_pipeCreate)

theorem Reachable.balanced (h : Reachable beneath s) : Balanced s := by
  induction h with
  | initialised s => exact Balanced.initialise s
  | elapsed world _ ih => exact ih.of_eq rfl rfl rfl rfl
  | called call _ hsound ih => exact (ih.change call hsound).balanced

/-- In every state reached there is one node to a file, its count is the number
of those that hold it, and it is in use exactly while something does. -/
theorem Reachable.references_balance (h : Reachable beneath s) :
    (∀ n k, (s.node n).inUse = true → (s.node k).inUse = true →
      (s.node n).mount = (s.node k).mount → (s.node n).number = (s.node k).number → n = k) ∧
    (∀ n, (s.node n).inUse = true →
      (s.node n).references = openFiles s n + (rootMounts s n + coveringMounts s n)) ∧
    ∀ n, (s.node n).inUse = true ↔ 0 < openFiles s n + (rootMounts s n + coveringMounts s n) := by
  have hledger := h.balanced.ledger
  have hcounted : ∀ n, (s.node n).inUse = true →
      (s.node n).references = openFiles s n + (rootMounts s n + coveringMounts s n) := by
    intro n hn
    have := hledger.counted n hn
    rwa [Multiset.count_zero] at this
  refine ⟨hledger.unique, hcounted, fun n ↦ ⟨fun hn ↦ ?_, hledger.inUse_of_holders⟩⟩
  rw [← hcounted n hn]
  exact hledger.positive n hn

/-! ## A filesystem of three directories and a file

Directory 2 is the root and names directory 3 `m` and file 4 `a`; directory 3
names directory 5 `m`. -/

def flatLookup (directory : UInt64) (name : Name) : Except VfsError UInt64 :=
  if name = [dot] then .ok directory
  else if name = [dot, dot] then .ok 2
  else if directory = 2 ∧ name = [109] then .ok 3
  else if directory = 2 ∧ name = [97] then .ok 4
  else if directory = 3 ∧ name = [109] then .ok 5
  else .error .notFound

def flatOperations : VfsFilesystemOperations ω Unit where
  mount mount _ readOnly world :=
    (.ok (), { mount.toMountContents with
      context := some (), rootNumber := 2, blockSize := 1024, readOnly := readOnly }, world)
  unmount mount world := (.ok (), { mount.toMountContents with context := none }, world)
  readNode number _ node world :=
    (.ok (), { node.toNodeContents with
      type := if number = 4 then .regular else .directory }, world)
  releaseNode := none
  lookup name _ node world := (flatLookup node.number name, node.toNodeContents, world)
  truncate := none
  readLink := none
  create := none
  createDirectory := none
  link := none
  unlink := none
  removeDirectory := none
  sync := none

def flatBeneath : Beneath Unit Unit where
  operations _ := flatOperations
  allocate world := (true, world)
  bufferSync world := (true, world)
  blockFindByName _ name := name.head?.map UInt8.toUInt64

def flatVfs (world : ω) : Vfs ω Unit :=
  vfsInitialise
    { filesystems := ⟨4, by decide, 1, fun _ ↦ ⟨[], 0, false⟩⟩
      mounts := ⟨4, by decide, 1, fun _ ↦ .zero⟩
      nodes := ⟨4, by decide, 1, fun _ ↦ .zero⟩
      files := ⟨4, by decide, 1, fun _ ↦ .zero⟩
      pipes := ⟨4, by decide, 1, fun _ ↦ .zero⟩
      rootMount := none
      world := world }

def flatMounted : Vfs Unit Unit :=
  after flatBeneath (after flatBeneath (flatVfs ()) (.registerFilesystem (some [102]) 0))
    (.mountVolume (some [1]) (some [separator]) (some [102]) false)

theorem flatMounted_reachable : Reachable flatBeneath flatMounted :=
  .called _ (.called _ (.initialised _) id) id

/-- The file `/a` is opened twice, and its node is held by both openings. -/
theorem references_balance_opened :
    let opening : VfsCall := .openFile (some [separator, 97]) vfsOpenRead 0
    let s := after flatBeneath (after flatBeneath flatMounted opening) opening
    (s.node 1).references = 2 ∧
      (s.node 1).references = openFiles s 1 + (rootMounts s 1 + coveringMounts s 1) := by
  intro opening s
  have hreached : Reachable flatBeneath s := .called _ (.called _ flatMounted_reachable id) id
  exact ⟨by decide +kernel, hreached.references_balance.2.1 1 (by decide +kernel)⟩

end OxysOS.Fs
