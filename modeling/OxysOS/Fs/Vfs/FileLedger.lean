import OxysOS.Fs.Vfs.NameLedger

/-!
# Opening and closing keep the ledger

An open file takes over the reference in hand when it is opened, and gives it
back when the last of its holders closes it.
-/

namespace OxysOS.Fs

open OxysOS.Library OxysOS.Mm OxysOS.Block Action

variable {ω κ : Type}

variable {beneath : Beneath ω κ} {s₀ s₁ : Vfs ω κ} {hand : Multiset NodeIndex} {n : ℕ}
  {E : VfsError → Vfs ω κ → Prop}

theorem Ledger.of_files {s s' : Vfs ω κ} {hand' : Multiset NodeIndex} (h : Ledger s hand)
    (hnodes : s'.nodes = s.nodes) (hmounts : s'.mounts = s.mounts)
    (hsum : ∀ k, openFiles s' k + hand'.count k = openFiles s k + hand.count k) :
    Ledger s' hand' := by
  have hnode : ∀ k, s'.node k = s.node k := fun k ↦ by rw [Vfs.node, Vfs.node, hnodes]
  have hmount : ∀ m, s'.mount m = s.mount m := fun m ↦ by rw [Vfs.mount, Vfs.mount, hmounts]
  have hholders : ∀ k, holders s' k + hand'.count k = holders s k + hand.count k := by
    intro k
    have hroots : rootMounts s' k = rootMounts s k := by
      simp only [rootMounts, hmounts, hmount]
    have hcovering : coveringMounts s' k = coveringMounts s k := by
      simp only [coveringMounts, hmounts, hmount]
    have := hsum k
    unfold holders
    omega
  refine ⟨fun k hk ↦ ?_, fun k ↦ ?_, fun k hk ↦ ?_, fun k ↦ ?_, fun k l ↦ ?_, fun k ↦ ?_,
    fun m r ↦ ?_, fun k m ↦ ?_, fun m k ↦ ?_, ?_⟩
  · rw [hnode] at hk ⊢
    rw [hholders, h.counted k hk]
  · rw [hnode]
    exact h.positive k
  · rw [hnode] at hk
    obtain ⟨hnone, hhand⟩ := h.idle k hk
    have hcount := Multiset.count_eq_zero.mpr hhand
    have := hholders k
    exact ⟨by omega, Multiset.count_eq_zero.mp (by omega)⟩
  · rw [hnode, hnodes]
    exact h.bounded k
  · rw [hnode, hnode]
    exact h.unique k l
  · rw [Vfs.mountOf, hnode, hmount]
    exact h.standing k
  · rw [hmount, hnode]
    exact h.rootOf m r
  · rw [hnode, hmount]
    exact h.crossing k m
  · rw [hmount, hnode]
    exact h.covering m k
  · unfold Forest
    simp only [hmount, hnode]
    exact h.forest

theorem Balanced.of_eq {s s' : Vfs ω κ} (h : Balanced s) (hnodes : s'.nodes = s.nodes)
    (hmounts : s'.mounts = s.mounts) (hfiles : s'.files = s.files)
    (hroot : s'.rootMount = s.rootMount) : Balanced s' := by
  have hmount : ∀ m, s'.mount m = s.mount m := fun m ↦ by rw [Vfs.mount, Vfs.mount, hmounts]
  have hfile : ∀ i, s'.file i = s.file i := fun i ↦ by rw [Vfs.file, Vfs.file, hfiles]
  refine ⟨h.ledger.of_files hnodes hmounts fun k ↦ ?_, ⟨fun m ↦ ?_, fun m ↦ ?_, fun i ↦ ?_,
    fun i ↦ ?_, fun i ↦ ?_⟩, fun m ↦ ?_⟩
  · simp only [openFiles, hfiles, hfile]
  · rw [hmount, hmounts]
    exact h.tables.mountBounded m
  · rw [hmount, hroot]
    exact h.tables.rootMounted m
  · rw [hfile, hfiles]
    exact h.tables.fileBounded i
  · rw [hfile]
    exact h.tables.closed i
  · rw [hfile]
    exact h.tables.either i
  · rw [hmount]
    exact h.rooted m

abbrev Upon (file : VfsFile) (k : NodeIndex) : Prop := file.isOpen = true ∧ file.node = some k

section PutFile

variable {s : Vfs ω κ} {i : FileIndex} {file : VfsFile}

@[simp] theorem putFile_file_self : (s.putFile i file).file i = file := Function.update_self _ _ _

theorem putFile_file_of_ne {j : FileIndex} (h : j ≠ i) : (s.putFile i file).file j = s.file j :=
  Function.update_of_ne h _ _

theorem openFiles_putFile (file : VfsFile) (hi : i < s.files.capacity) (k : NodeIndex) :
    openFiles (s.putFile i file) k + (if Upon (s.file i) k then 1 else 0) =
      openFiles s k + (if Upon file k then 1 else 0) := by
  have hupdate := tally_update (p := fun j ↦ Upon (s.file j) k)
    (q := fun j ↦ Upon ((s.putFile i file).file j) k) hi fun j hj ↦ by
      rw [putFile_file_of_ne hj]
  simp only [putFile_file_self] at hupdate
  exact hupdate

theorem Tables.putFile (ht : Tables s) (hi : i < s.files.capacity)
    (hclosed : file.isOpen = false → file.node = none ∧ file.pipe = none)
    (heither : file.isOpen = true → file.pipe.isSome → file.node = none) :
    Tables (s.putFile i file) where
  mountBounded := ht.mountBounded
  rootMounted := ht.rootMounted
  fileBounded j hj := by
    by_cases hji : j = i
    · rw [hji]
      exact hi
    · rw [putFile_file_of_ne hji] at hj
      exact ht.fileBounded j hj
  closed j := by
    by_cases hji : j = i
    · subst hji
      rw [putFile_file_self]
      exact hclosed
    · rw [putFile_file_of_ne hji]
      exact ht.closed j
  either j := by
    by_cases hji : j = i
    · subst hji
      rw [putFile_file_self]
      exact heither
    · rw [putFile_file_of_ne hji]
      exact ht.either j

theorem Balanced.putFile (h : Balanced s) (hi : i < s.files.capacity)
    (hclosed : file.isOpen = false → file.node = none ∧ file.pipe = none)
    (heither : file.isOpen = true → file.pipe.isSome → file.node = none)
    (hupon : ∀ k, Upon (s.file i) k ↔ Upon file k) : Balanced (s.putFile i file) where
  ledger := h.ledger.of_files rfl rfl fun k ↦ by
    have hopen := openFiles_putFile file hi k
    simp only [hupon k] at hopen
    omega
  tables := h.tables.putFile hi hclosed heither
  rooted := h.rooted

end PutFile

def Grown (s s' : Vfs ω κ) : Prop :=
  s.files.capacity ≤ s'.files.capacity ∧ ∀ i, i < s.files.capacity → s'.file i = s.file i

theorem Balanced.grow {s : Vfs ω κ} (h : Balanced s) (world : ω) :
    Balanced { s with files := s.files.grow .zero, world := world } := by
  let s' : Vfs ω κ := { s with files := s.files.grow .zero, world := world }
  have hbelow : ∀ i, i < s.files.capacity → s'.file i = s.file i := fun i hi ↦
    s.files.grow_entry_of_lt _ hi
  have habove : ∀ i, s.files.capacity ≤ i → s'.file i = .zero := fun i hi ↦
    s.files.grow_entry_of_le _ hi
  have hopen : ∀ k, openFiles s' k = openFiles s k := by
    intro k
    refine (tally_extend (s.files.capacity_le_grow .zero) fun i hi ↦ ?_).trans
      (tally_congr fun i hi ↦ ?_)
    · rw [habove i hi]
      simp [VfsFile.zero]
    · rw [hbelow i hi]
  have hledger : Ledger s' 0 := h.ledger.of_files rfl rfl fun k ↦ by rw [hopen]
  have htables : Tables s' := by
    refine ⟨h.tables.mountBounded, h.tables.rootMounted, fun i hi ↦ ?_, fun i hi ↦ ?_,
      fun i hi ↦ ?_⟩
    · by_contra hbound
      rw [habove i (le_trans (s.files.capacity_le_grow .zero) (Nat.not_lt.mp hbound))] at hi
      cases hi
    · by_cases hbound : i < s.files.capacity
      · rw [hbelow i hbound] at hi ⊢
        exact h.tables.closed i hi
      · rw [habove i (Nat.not_lt.mp hbound)]
        exact ⟨rfl, rfl⟩
    · by_cases hbound : i < s.files.capacity
      · rw [hbelow i hbound] at hi ⊢
        exact h.tables.either i hi
      · rw [habove i (Nat.not_lt.mp hbound)] at hi
        cases hi
  exact ⟨hledger, htables, h.rooted⟩

theorem triple_freeFileKeeping {F : Vfs ω κ → Prop} (hF : ∀ s s', Grown s s' → F s → F s') :
    Triple (fun s ↦ Steady s₁ s ∧ F s) (vfsFreeFile beneath)
      (fun i s ↦ (Steady s₁ s ∧ F s) ∧ (s.file i).isOpen = false ∧ i < s.files.capacity)
      (fun _ s ↦ Steady s₁ s ∧ F s) := by
  refine Triple.get fun s ⟨hs, hfact⟩ ↦ ?_
  cases hfind : s.files.find fun file ↦ !file.isOpen with
  | some i =>
      obtain ⟨hbound, hfree⟩ := GrowingTable.find_some hfind
      refine Triple.pure ?_
      rintro t rfl
      exact ⟨⟨hs, hfact⟩, by simpa [Vfs.file] using hfree, hbound⟩
  | none =>
      dsimp only
      refine Triple.ite (fun _ ↦ ?_) fun _ ↦ ?_
      · let s' := { s with
          files := s.files.grow .zero, world := (growth beneath s.files.chunkCount s.world).2 }
        have hgrown : Grown s s' :=
          ⟨s.files.capacity_le_grow _, fun i hi ↦ s.files.grow_entry_of_lt _ hi⟩
        refine (Triple.set (Q := fun _ t ↦ t = s') fun _ _ ↦ rfl).bind fun _ ↦ Triple.pure ?_
        rintro t rfl
        refine ⟨⟨hs.keep (hs.grow _) rfl rfl, hF s s' hgrown hfact⟩, ?_, s.files.capacity_lt_grow _⟩
        change ((s.files.grow .zero).entry s.files.capacity).isOpen = false
        rw [s.files.grow_entry_of_le _ le_rfl]
        rfl
      · refine (Triple.set (Q := fun _ s ↦ Steady s₁ s ∧ F s) ?_).bind fun _ ↦
          Triple.throw fun _ ht ↦ ht
        exact fun _ _ ↦ ⟨hs.of_holding (hs.holding.world hs.tables _),
          hF s _ ⟨le_rfl, fun _ _ ↦ rfl⟩ hfact⟩

theorem triple_freeFile :
    Triple (Steady s₁) (vfsFreeFile beneath)
      (fun i s ↦ Steady s₁ s ∧ (s.file i).isOpen = false ∧ i < s.files.capacity)
      (fun _ ↦ Steady s₁) :=
  (triple_freeFileKeeping (F := fun _ ↦ True) fun _ _ _ h ↦ h).weaken (fun _ h ↦ ⟨h, trivial⟩)
    (fun _ _ h ↦ ⟨h.1.1, h.2⟩) fun _ _ h ↦ h.1

theorem triple_createAndAcquire (ht : Tables s₀) {path : Option Name} {permissions : UInt16} :
    Triple (Holding s₀ hand) (vfsCreateAndAcquire beneath path permissions)
      (fun k ↦ Holding s₀ (k ::ₘ hand)) (fun _ ↦ Holding s₀ hand) := by
  refine (triple_resolveParent ht).bind fun answer ↦ ?_
  obtain ⟨parent, name⟩ := answer
  refine Triple.look fun s hs ↦ ?_
  refine Triple.ite (fun _ ↦ triple_releaseAndRefuse ht) fun _ ↦ ?_
  split
  · exact triple_releaseAndRefuse ht
  · refine (Triple.attempt (Q := fun _ ↦ Holding s₀ (parent ::ₘ hand)) (triple_callNode ht)).bind
      fun answer ↦ ?_
    cases answer with
    | error code => exact triple_releaseAndRefuse ht
    | ok number =>
        refine (triple_acquire ht hs.standing).attempt_answered.bind fun answer ↦ ?_
        cases answer with
        | error code => exact (triple_release ht).bind fun _ ↦ Triple.throw fun _ hs ↦ hs
        | ok node =>
            exact ((triple_release ht).pre fun _ ↦ Holding.swap).bind fun _ ↦
              Triple.pure fun _ hs ↦ hs

theorem triple_openNode (ht : Tables s₀) {path : Option Name} {flags : UInt32}
    {permissions : UInt16} :
    Triple (Holding s₀ hand) (vfsOpenNode beneath path flags permissions)
      (fun k ↦ Holding s₀ (k ::ₘ hand)) (fun _ ↦ Holding s₀ hand) := by
  refine (triple_resolveCounted ht).attempt_answered.bind fun answer ↦ ?_
  cases answer with
  | error code =>
      exact Triple.ite (fun _ ↦ triple_createAndAcquire ht) fun _ ↦ Triple.throw fun _ hs ↦ hs
  | ok node =>
      exact Triple.ite (fun _ ↦ triple_releaseAndRefuse ht) fun _ ↦ Triple.pure fun _ hs ↦ hs

theorem Balanced.openFile (h : Balanced s₀) {s : Vfs ω κ} (hs : Holding s₀ (n ::ₘ 0) s)
    {i : FileIndex} (hfree : (s₀.file i).isOpen = false) (hi : i < s₀.files.capacity)
    {file : VfsFile} (hopen : file.isOpen = true) (hnode : file.node = some n)
    (hpipe : file.pipe = none) : Balanced (s.putFile i file) := by
  have htables := hs.tables h.tables
  have hi' : i < s.files.capacity := by rw [hs.2.files]; exact hi
  have hfree' : (s.file i).isOpen = false := by rw [hs.2.file_eq]; exact hfree
  refine ⟨hs.1.of_files rfl rfl fun k ↦ ?_, htables.putFile hi' ?_ ?_, ?_⟩
  · have hcount := openFiles_putFile file hi' k
    have hbefore : ¬ Upon (s.file i) k := fun hupon ↦ by
      have := hupon.1
      rw [hfree'] at this
      cases this
    rw [if_neg hbefore] at hcount
    by_cases hk : k = n
    · subst hk
      rw [if_pos ⟨hopen, hnode⟩] at hcount
      rw [Multiset.count_cons_self, Multiset.count_zero]
      omega
    · have hafter : ¬ Upon file k := fun hupon ↦ hk (Option.some.inj (hupon.2.symm.trans hnode))
      rw [if_neg hafter] at hcount
      rw [Multiset.count_cons_of_ne hk]
      omega
  · intro hclosed
    rw [hopen] at hclosed
    cases hclosed
  · intro _ hsome
    rw [hpipe] at hsome
    cases hsome
  · intro m hm
    change (s.mount m).mounted = true at hm
    change (s.mount m).root.isSome
    rw [hs.2.mount_eq] at hm ⊢
    exact h.rooted m hm

theorem triple_open {path : Option Name} {flags : UInt32} {permissions : UInt16} :
    Triple (Steady s₁) (vfsOpen beneath path flags permissions) (fun _ ↦ Steady s₁)
      (fun _ ↦ Steady s₁) := by
  unfold vfsOpen
  refine Triple.ite (fun _ ↦ Triple.throw fun _ hs ↦ hs) fun _ ↦ ?_
  refine Triple.ite (fun _ ↦ Triple.throw fun _ hs ↦ hs) fun _ ↦ ?_
  refine Triple.ite (fun _ ↦ Triple.throw fun _ hs ↦ hs) fun _ ↦ ?_
  refine triple_freeFile.bind fun i ↦ Triple.intro fun s₀ hs₀ ↦ ?_
  obtain ⟨hbalanced, hfree, hbound⟩ := hs₀
  have ht := hbalanced.tables
  have hrefused : ∀ s, Holding s₀ 0 s → Steady s₁ s := fun s hs ↦ hbalanced.of_holding hs
  refine (((triple_openNode ht).weaken (S := fun t ↦ t = s₀)
    (by rintro t rfl; exact hbalanced.holding) (fun _ _ h ↦ h)
      fun _ t h ↦ hrefused t h)).bind fun node ↦ ?_
  refine Triple.look fun s hs ↦ ?_
  have hgiveUp : ∀ {code : VfsError}, Triple (Holding s₀ (node ::ₘ 0))
      (releaseAndRefuse beneath node code) (fun _ : FileIndex ↦ Steady s₁) (fun _ ↦ Steady s₁) :=
    (triple_releaseAndRefuse ht).weaken (fun _ h ↦ h) (fun _ _ h ↦ h) fun _ t h ↦ hrefused t h
  split
  · exact hgiveUp
  · refine (Triple.ite (Q := fun _ ↦ Holding s₀ (node ::ₘ 0)) (fun _ ↦ ?_)
      fun _ ↦ Triple.pure fun _ h ↦ h).bind fun truncated ↦ ?_
    · split
      · exact Triple.pure fun _ h ↦ h
      · exact Triple.attempt (triple_callNode ht)
    · split
      · exact hgiveUp
      · refine (Triple.modify (Q := fun _ ↦ Steady s₁) fun t hholding ↦ ?_).bind fun _ ↦
          Triple.pure fun _ h ↦ h
        refine hbalanced.keep (hbalanced.openFile hholding hfree hbound rfl rfl ?_)
          hholding.2.mounts hholding.2.rootMount
        change (t.file i).pipe = none
        rw [hholding.2.file_eq]
        exact (ht.closed i hfree).2

theorem triple_fileOf {P : Vfs ω κ → Prop} (descriptor : ℤ) :
    Triple P (vfsFileOf descriptor) (fun i s ↦ P s ∧ (s.file i).isOpen = true) (fun _ ↦ P) := by
  refine Triple.get fun s hs ↦ ?_
  refine Triple.pre (P := fun t ↦ t = s) ?_ fun _ h ↦ h
  refine Triple.ite (fun _ ↦ Triple.throw fun t h ↦ h ▸ hs) fun _ ↦ ?_
  refine Triple.ite (fun hopen ↦ Triple.pure fun t h ↦ ?_) fun _ ↦ Triple.throw fun t h ↦ h ▸ hs
  subst h
  exact ⟨hs, hopen⟩

theorem triple_holdFile {descriptor : ℤ} :
    Triple (Steady s₁) (vfsHold descriptor : VfsAction ω κ Unit) (fun _ ↦ Steady s₁)
      (fun _ ↦ Steady s₁) := by
  refine (triple_fileOf descriptor).bind fun i ↦ Triple.modify ?_
  rintro s ⟨hbalanced, hopen⟩
  refine hbalanced.keep (hbalanced.putFile (hbalanced.tables.fileBounded i hopen) ?_ ?_
    fun _ ↦ Iff.rfl) rfl rfl
  · exact hbalanced.tables.closed i
  · exact hbalanced.tables.either i

def Vfs.under (t u : Vfs ω κ) : Vfs ω κ :=
  { u with nodes := t.nodes, world := t.world }

theorem triple_releaseUnder (s₀ : Vfs ω κ) (hand : Multiset NodeIndex) {u : Vfs ω κ}
    (hu : Tables u) :
    Triple (fun t ↦ Holding u (n ::ₘ hand) (t.under u) ∧ SameTables s₀ t)
      (vfsNodeRelease beneath (some n))
      (fun _ t ↦ Holding u hand (t.under u) ∧ SameTables s₀ t) E := by
  refine Triple.get fun t ⟨hholding, hsame⟩ ↦ ?_
  have huse : (t.node n).inUse = true := hholding.inUse
  have hpositive : 0 < (t.node n).references := hholding.1.positive n huse
  refine Triple.ite (fun hguard ↦ ?_) fun _ ↦ Triple.ite (fun hmany ↦ ?_) fun hlast ↦ ?_
  · simp only [huse, Bool.not_true, Bool.false_or, beq_iff_eq] at hguard
    omega
  · refine Triple.set fun _ _ ↦ ⟨hholding.putNode (hholding.1.drop hmany), ?_⟩
    exact hsame.trans (SameTables.putNode t n _)
  · refine Triple.set fun _ _ ↦ ⟨?_, ?_⟩
    · have hlast' : ((t.under u).node n).references ≤ 1 := Nat.not_lt.mp hlast
      exact (hholding.putNode (hholding.1.free hlast' (hholding.tables hu) _ rfl)).world hu _
    · exact hsame.trans ⟨rfl, rfl, rfl, rfl, rfl⟩

theorem triple_syncWhereUnder (s₀ : Vfs ω κ) (hand : Multiset NodeIndex) {u : Vfs ω κ}
    (hu : Tables u) {durable : Bool} :
    Triple (fun t ↦ Holding u hand (t.under u) ∧ SameTables s₀ t) (vfsSyncWhere beneath durable)
      (fun _ t ↦ Holding u hand (t.under u) ∧ SameTables s₀ t) E := by
  refine Triple.ite (fun _ ↦ ?_) fun _ ↦ Triple.pure fun _ hs ↦ hs
  refine (Triple.attempt
    (Q := fun _ t ↦ Holding u hand (t.under u) ∧ SameTables s₀ t) ?_).bind
      fun _ ↦ Triple.pure fun _ hs ↦ hs
  refine Triple.get fun t ht ↦ ?_
  refine (Triple.set (Q := fun _ t ↦ Holding u hand (t.under u) ∧ SameTables s₀ t) ?_).bind
    fun _ ↦ ?_
  · exact fun _ _ ↦ ⟨ht.1.world hu _, ht.2.trans ⟨rfl, rfl, rfl, rfl, rfl⟩⟩
  exact Triple.ite (fun _ ↦ Triple.pure fun _ hs ↦ hs) fun _ ↦ Triple.throw fun _ hs ↦ hs

theorem Balanced.closing (h : Balanced s₀) {i : FileIndex} (hopen : (s₀.file i).isOpen = true)
    (hnode : (s₀.file i).node = some n) :
    Ledger (s₀.putFile i .zero) (n ::ₘ 0) ∧ Tables (s₀.putFile i .zero) := by
  have hi := h.tables.fileBounded i hopen
  refine ⟨h.ledger.of_files rfl rfl fun k ↦ ?_,
    h.tables.putFile hi (fun _ ↦ ⟨rfl, rfl⟩) fun hzero ↦ by cases hzero⟩
  have hcount := openFiles_putFile .zero hi k
  have hafter : ¬ Upon .zero k := fun hupon ↦ by cases hupon.1
  rw [if_neg hafter] at hcount
  by_cases hk : k = n
  · subst hk
    rw [if_pos ⟨hopen, hnode⟩] at hcount
    rw [Multiset.count_cons_self, Multiset.count_zero]
    omega
  · have hbefore : ¬ Upon (s₀.file i) k := fun hupon ↦
      hk (Option.some.inj (hupon.2.symm.trans hnode))
    rw [if_neg hbefore] at hcount
    rw [Multiset.count_cons_of_ne hk]
    omega

theorem Balanced.pipeReleaseEnd {s : Vfs ω κ} (h : Balanced s) (file : VfsFile) :
    Balanced (vfsPipeReleaseEnd s file) := by
  unfold vfsPipeReleaseEnd
  cases file.pipe with
  | none => exact h
  | some pipe => exact h.of_eq rfl rfl rfl rfl

theorem vfsPipeReleaseEnd_putFile (s : Vfs ω κ) (file zero : VfsFile) (i : FileIndex) :
    (vfsPipeReleaseEnd s file).putFile i zero = vfsPipeReleaseEnd (s.putFile i zero) file := by
  unfold vfsPipeReleaseEnd
  cases file.pipe <;> rfl

def Nodeless (i : FileIndex) (s : Vfs ω κ) : Prop :=
  i < s.files.capacity ∧ (s.file i).node = none

theorem Nodeless.putFile {s : Vfs ω κ} {i j : FileIndex} (h : Nodeless j s) {file : VfsFile}
    (hnode : file.node = none) : Nodeless j (s.putFile i file) := by
  refine ⟨h.1, ?_⟩
  by_cases hj : j = i
  · rw [hj, putFile_file_self]
    exact hnode
  · rw [putFile_file_of_ne hj]
    exact h.2

theorem Balanced.putNodeless {s : Vfs ω κ} (h : Balanced s) {i : FileIndex} (hi : Nodeless i s)
    {file : VfsFile} (hnode : file.node = none) (hpipe : file.isOpen = false → file.pipe = none) :
    Balanced (s.putFile i file) := by
  refine h.putFile hi.1 (fun hclosed ↦ ⟨hnode, hpipe hclosed⟩) (fun _ _ ↦ hnode) fun k ↦ ?_
  refine iff_of_false (fun hupon ↦ ?_) fun hupon ↦ ?_
  · cases hi.2.symm.trans hupon.2
  · cases hnode.symm.trans hupon.2

theorem Steady.putNodeless {s : Vfs ω κ} (h : Steady s₁ s) {i : FileIndex} (hi : Nodeless i s)
    {file : VfsFile} (hnode : file.node = none) (hpipe : file.isOpen = false → file.pipe = none) :
    Steady s₁ (s.putFile i file) :=
  h.keep (h.toBalanced.putNodeless hi hnode hpipe) rfl rfl

theorem Balanced.zeroFile {s : Vfs ω κ} (h : Balanced s) {i : FileIndex}
    (hi : i < s.files.capacity) (hnode : (s.file i).node = none) :
    Balanced (s.putFile i .zero) :=
  h.putNodeless ⟨hi, hnode⟩ rfl fun _ ↦ rfl

theorem triple_close {descriptor : ℤ} :
    Triple (Steady s₁) (vfsClose beneath descriptor) (fun _ ↦ Steady s₁) (fun _ ↦ Steady s₁) := by
  refine (triple_fileOf descriptor).bind fun i ↦ Triple.get fun s ⟨hs, hopen⟩ ↦ ?_
  have hi := hs.tables.fileBounded i hopen
  have hzero : Triple (fun t ↦ Steady s₁ (t.putFile i .zero))
      (modify fun t ↦ t.putFile i .zero : VfsAction ω κ Unit) (fun _ ↦ Steady s₁)
        fun _ ↦ Steady s₁ := Triple.modify fun _ h ↦ h
  refine Triple.ite (fun _ ↦ ?_) fun _ ↦ ?_
  · refine Triple.set fun _ _ ↦ hs.keep (hs.putFile hi ?_ ?_ fun _ ↦ Iff.rfl) rfl rfl
    · exact hs.tables.closed i
    · exact hs.tables.either i
  refine Triple.ite (fun hpipe ↦ ?_) fun hpipe ↦ ?_
  · -- an end of a pipe is upon no node
    have hnode : (s.file i).node = none := hs.tables.either i hopen hpipe
    refine Triple.bind (Triple.set fun _ _ ↦ ?_) fun _ ↦ hzero
    rw [vfsPipeReleaseEnd_putFile]
    refine hs.keep ((hs.zeroFile hi hnode).pipeReleaseEnd _) ?_ ?_ <;>
      · unfold vfsPipeReleaseEnd
        cases (s.file i).pipe <;> rfl
  · -- the release and the writing back leave what zeroing the slot then makes balanced
    have hend : ∀ t, Holding (s.putFile i .zero) 0 (t.under (s.putFile i .zero)) ∧ SameTables s t →
        Tables (s.putFile i .zero) → Steady s₁ (t.putFile i .zero) := by
      rintro t ⟨hholding, hsame⟩ htables
      have heq : t.putFile i .zero = t.under (s.putFile i .zero) := by
        unfold Vfs.putFile Vfs.under
        rw [← hsame.filesystems, ← hsame.mounts, ← hsame.files, ← hsame.pipes, ← hsame.rootMount]
      rw [heq]
      exact hs.keep ⟨hholding.1, hholding.tables htables, hs.rooted⟩ rfl rfl
    cases hnode : (s.file i).node with
    | none =>
        have hzeroed := hs.zeroFile hi hnode
        refine (Triple.pure fun t h ↦ h).bind fun _ ↦
          ((triple_syncWhereUnder s 0 hzeroed.tables).pre
            (S := fun t ↦ t = s) ?_).bind fun _ ↦ hzero.pre fun t h ↦ hend t h hzeroed.tables
        rintro t rfl
        exact ⟨⟨hzeroed.ledger, ⟨rfl, rfl, rfl, rfl, rfl⟩⟩, SameTables.refl t⟩
    | some n =>
        obtain ⟨hledger, htables⟩ := hs.closing hopen hnode
        refine ((triple_releaseUnder s 0 htables).pre
          (S := fun t ↦ t = s) ?_).bind fun _ ↦
            (triple_syncWhereUnder s 0 htables).bind fun _ ↦ hzero.pre fun t h ↦ hend t h htables
        rintro t rfl
        exact ⟨⟨hledger, ⟨rfl, rfl, rfl, rfl, rfl⟩⟩, SameTables.refl t⟩

theorem triple_freePipe :
    Triple (Steady s₁) (vfsFreePipe beneath) (fun _ ↦ Steady s₁) (fun _ ↦ Steady s₁) := by
  refine Triple.get fun s hs ↦ ?_
  cases s.pipes.find fun pipe ↦ !pipe.inUse with
  | some pipe => exact Triple.pure fun t h ↦ h ▸ hs
  | none =>
      dsimp only
      refine Triple.ite (fun _ ↦ ?_) fun _ ↦ ?_
      · refine (Triple.set (Q := fun _ ↦ Steady s₁) ?_).bind fun _ ↦ Triple.pure fun _ h ↦ h
        exact fun _ _ ↦ hs.keep (hs.of_eq rfl rfl rfl rfl) rfl rfl
      · refine (Triple.set (Q := fun _ ↦ Steady s₁) ?_).bind fun _ ↦ Triple.throw fun _ h ↦ h
        exact fun _ _ ↦ hs.keep (hs.of_eq rfl rfl rfl rfl) rfl rfl

structure Readying (reader : FileIndex) (s : Vfs ω κ) : Prop where
  nodeless : Nodeless reader s
  pipeless : (s.file reader).pipe = none

theorem triple_pipeCreate :
    Triple (Steady s₁) (vfsPipeCreate beneath) (fun _ ↦ Steady s₁) (fun _ ↦ Steady s₁) := by
  refine triple_freePipe.bind fun pipe ↦ ?_
  refine triple_freeFile.bind fun reader ↦ ?_
  refine (Triple.modify (Q := fun _ s ↦ Steady s₁ s ∧ Readying reader s) ?_).bind fun _ ↦ ?_
  · rintro s ⟨hs, hfree, hbound⟩
    obtain ⟨hnode, hpipe⟩ := hs.tables.closed reader hfree
    have hnodeless : Nodeless reader s := ⟨hbound, hnode⟩
    refine ⟨hs.putNodeless hnodeless hnode (fun hclosed ↦ by cases hclosed),
      hnodeless.putFile hnode, ?_⟩
    rw [putFile_file_self]
    exact hpipe
  refine (Triple.attempt (Q := fun answer s ↦ (Steady s₁ s ∧ Readying reader s) ∧
    ∀ writer, answer = .ok writer → Nodeless writer s) ?_).bind fun answer ↦ ?_
  · refine (triple_freeFileKeeping (F := Readying reader) ?_).weaken (fun _ h ↦ h) ?_ ?_
    · rintro s s' ⟨hle, hkept⟩ ⟨⟨hbound, hnode⟩, hpipe⟩
      refine ⟨⟨lt_of_lt_of_le hbound hle, ?_⟩, ?_⟩ <;> rw [hkept reader hbound]
      · exact hnode
      · exact hpipe
    · rintro writer s ⟨hs, hfree, hbound⟩
      refine ⟨hs, fun w hw ↦ ?_⟩
      cases hw
      exact ⟨hbound, (hs.1.tables.closed writer hfree).1⟩
    · rintro code s hs
      exact ⟨hs, fun w hw ↦ by cases hw⟩
  refine (Triple.modify (Q := fun _ s ↦ (Steady s₁ s ∧ Nodeless reader s) ∧
    ∀ writer, answer = .ok writer → Nodeless writer s) ?_).bind fun _ ↦ ?_
  · rintro s ⟨⟨hs, hnodeless, hpipe⟩, hwriter⟩
    exact ⟨⟨hs.putNodeless hnodeless hnodeless.2 fun _ ↦ hpipe, hnodeless.putFile hnodeless.2⟩,
      fun w hw ↦ (hwriter w hw).putFile hnodeless.2⟩
  cases answer with
  | error code => exact Triple.throw fun s hs ↦ hs.1.1
  | ok writer =>
      refine (Triple.modify (Q := fun _ s ↦ Steady s₁ s ∧ Nodeless reader s ∧ Nodeless writer s)
        fun s hs ↦ ?_).bind fun _ ↦ ?_
      · exact ⟨hs.1.1.keep (hs.1.1.of_eq rfl rfl rfl rfl) rfl rfl, hs.1.2, hs.2 writer rfl⟩
      refine (Triple.modify (Q := fun _ s ↦ Steady s₁ s ∧ Nodeless writer s) fun s hs ↦
        ⟨hs.1.putNodeless hs.2.1 rfl (fun hclosed ↦ by cases hclosed),
          hs.2.2.putFile rfl⟩).bind fun _ ↦ ?_
      refine (Triple.modify (Q := fun _ ↦ Steady s₁) fun s hs ↦
        hs.1.putNodeless hs.2 rfl fun hclosed ↦ by cases hclosed).bind fun _ ↦
          Triple.pure fun _ h ↦ h

end OxysOS.Fs
