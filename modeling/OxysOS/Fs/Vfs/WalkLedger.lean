import OxysOS.Fs.Vfs.Ledger

/-!
# A walk keeps the ledger

Of the primitives of `node.c` and `path.c` holding adds a reference in hand,
releasing takes one away, and the others leave them as they were.  A walk that
succeeds has one more in hand, upon its node, and one that is refused none.
-/

namespace OxysOS.Fs

open OxysOS.Library OxysOS.Mm OxysOS.Block Action

variable {ω κ α : Type}

def Holding (s₀ : Vfs ω κ) (hand : Multiset NodeIndex) (s : Vfs ω κ) : Prop :=
  Ledger s hand ∧ SameTables s₀ s

variable {beneath : Beneath ω κ} {s₀ : Vfs ω κ} {hand : Multiset NodeIndex} {n : ℕ}
  {E : VfsError → Vfs ω κ → Prop}

theorem Holding.tables {s : Vfs ω κ} (h : Holding s₀ hand s) (ht : Tables s₀) : Tables s :=
  h.2.tables ht

theorem Holding.putNode {s : Vfs ω κ} {hand' : Multiset NodeIndex} (h : Holding s₀ hand s)
    {node : VfsNode κ} (hledger : Ledger (s.putNode n node) hand') :
    Holding s₀ hand' (s.putNode n node) :=
  ⟨hledger, h.2.trans (SameTables.putNode s n node)⟩

theorem Holding.contents {s : Vfs ω κ} (h : Holding s₀ hand s) (n : NodeIndex)
    (contents : NodeContents κ) :
    Holding s₀ hand (s.putNode n { s.node n with toNodeContents := contents }) :=
  h.putNode (h.1.contents contents)

theorem Holding.world {s : Vfs ω κ} (h : Holding s₀ hand s) (ht : Tables s₀) (world : ω) :
    Holding s₀ hand { s with world := world } :=
  ⟨h.1.of_nodes (h.tables ht) ⟨rfl, rfl, rfl, rfl, rfl⟩ (fun _ ↦ rfl) (fun _ _ ↦ rfl) le_rfl,
    h.2.trans ⟨rfl, rfl, rfl, rfl, rfl⟩⟩

theorem Holding.swap {s : Vfs ω κ} {k : NodeIndex} (h : Holding s₀ (n ::ₘ k ::ₘ hand) s) :
    Holding s₀ (k ::ₘ n ::ₘ hand) s := by
  rw [Multiset.cons_swap]
  exact h

theorem Holding.inUse {s : Vfs ω κ} (h : Holding s₀ (n ::ₘ hand) s) :
    (s.node n).inUse = true :=
  h.1.inUse_of_mem (Multiset.mem_cons_self n hand)

theorem Holding.standing {s : Vfs ω κ} (h : Holding s₀ (n ::ₘ hand) s) :
    (s₀.mount (s.node n).mount).mounted = true := by
  rw [← h.2.mount_eq]
  exact h.1.standing n h.inUse

theorem triple_hold {s : Vfs ω κ} (hs : Holding s₀ hand s) (huse : (s.node n).inUse = true) :
    Triple (fun t ↦ t = s) (vfsNodeHold n) (fun _ ↦ Holding s₀ (n ::ₘ hand)) E := by
  refine Triple.modify ?_
  rintro t rfl
  exact hs.putNode (hs.1.hold huse)

theorem triple_release (ht : Tables s₀) :
    Triple (Holding s₀ (n ::ₘ hand)) (vfsNodeRelease beneath (some n))
      (fun _ ↦ Holding s₀ hand) E := by
  refine Triple.get fun s hs ↦ ?_
  have huse := hs.inUse
  have hpositive := hs.1.positive n huse
  refine Triple.ite (fun hguard ↦ ?_) fun _ ↦ Triple.ite (fun hmany ↦ ?_) fun hlast ↦ ?_
  · simp only [huse, Bool.not_true, Bool.false_or, beq_iff_eq] at hguard
    omega
  · refine Triple.set fun _ _ ↦ ?_
    exact hs.putNode (hs.1.drop hmany)
  · refine Triple.set fun _ _ ↦ ?_
    exact (hs.putNode (hs.1.free (by omega) (hs.tables ht) _ rfl)).world ht _

theorem triple_releaseAndRefuse (ht : Tables s₀) {code : VfsError}
    {Q : α → Vfs ω κ → Prop} :
    Triple (Holding s₀ (n ::ₘ hand)) (releaseAndRefuse beneath n code) Q
      (fun _ ↦ Holding s₀ hand) :=
  (triple_release ht).bind fun _ ↦ Triple.throw fun _ hs ↦ hs

theorem outcome_callNode (operation : NodeOperation ω κ α) (s : Vfs ω κ) :
    outcome (callNode n operation) s =
      ((operation (s.mountOf n) (s.node n) s.world).1,
        { s.putNode n { s.node n with
            toNodeContents := (operation (s.mountOf n) (s.node n) s.world).2.1 } with
          world := (operation (s.mountOf n) (s.node n) s.world).2.2 }) := by
  unfold callNode
  rw [outcome_bind, outcome_get]
  dsimp only
  rw [outcome_bind, outcome_set]
  cases (operation (s.mountOf n) (s.node n) s.world).1 <;> rfl

theorem triple_callNode_of (ht : Tables s₀) {operation : NodeOperation ω κ α}
    {F : Vfs ω κ → Prop} (hF : ∀ s contents world, F s →
      F { s.putNode n { s.node n with toNodeContents := contents } with world := world }) :
    Triple (fun s ↦ Holding s₀ hand s ∧ F s) (callNode n operation)
      (fun _ s ↦ Holding s₀ hand s ∧ F s) (fun _ s ↦ Holding s₀ hand s ∧ F s) := by
  refine Triple.of_eq fun s hs ↦ ?_
  rw [outcome_callNode]
  have hkept := (hs.1.contents n (operation (s.mountOf n) (s.node n) s.world).2.1).world ht
    (operation (s.mountOf n) (s.node n) s.world).2.2
  have hfact := hF s (operation (s.mountOf n) (s.node n) s.world).2.1
    (operation (s.mountOf n) (s.node n) s.world).2.2 hs.2
  cases (operation (s.mountOf n) (s.node n) s.world).1 with
  | ok a => exact Or.inl ⟨a, _, rfl, hkept, hfact⟩
  | error code => exact Or.inr ⟨code, _, rfl, hkept, hfact⟩

theorem triple_callNode (ht : Tables s₀) {operation : NodeOperation ω κ α} :
    Triple (Holding s₀ hand) (callNode n operation) (fun _ ↦ Holding s₀ hand)
      (fun _ ↦ Holding s₀ hand) :=
  (triple_callNode_of ht (F := fun _ ↦ True) fun _ _ _ h ↦ h).weaken (fun _ hs ↦ ⟨hs, trivial⟩)
    (fun _ _ hs ↦ hs.1) fun _ _ hs ↦ hs.1

def Unread (mount : MountIndex) (number : UInt64) (s : Vfs ω κ) : Prop :=
  ∀ k, (s.node k).inUse = true → ¬ ((s.node k).mount = mount ∧ (s.node k).number = number)

def Among (old : NodeIndex → MountIndex → Option MountIndex → Prop) (except : Option NodeIndex)
    (s : Vfs ω κ) : Prop :=
  ∀ k, (s.node k).inUse = true → except ≠ some k → old k (s.node k).mount (s.node k).mounted

variable {old : NodeIndex → MountIndex → Option MountIndex → Prop}

theorem Among.putNode {s : Vfs ω κ} (h : Among old none s) (node : VfsNode κ) :
    Among old (some n) (s.putNode n node) := by
  intro k huse hne
  have hk : k ≠ n := fun hk ↦ hne (congrArg some hk.symm)
  rw [putNode_node_of_ne s n k node hk] at huse ⊢
  exact h k huse (by simp)

theorem Among.idle {s : Vfs ω κ} (h : Among old (some n) s) {node : VfsNode κ}
    (hidle : node.inUse = false) : Among old none (s.putNode n node) := by
  intro k huse _
  by_cases hk : k = n
  · subst hk
    rw [putNode_node_self, hidle] at huse
    cases huse
  · rw [putNode_node_of_ne s n k node hk] at huse ⊢
    exact h k huse fun hne ↦ hk (Option.some.inj hne).symm

theorem triple_nodeSlot (ht : Tables s₀) (mount : MountIndex) (number : UInt64) :
    Triple (fun s ↦ Holding s₀ hand s ∧ Unread mount number s ∧ Among old none s)
      (vfsNodeSlot beneath)
      (fun available s ↦ Holding s₀ hand s ∧ Unread mount number s ∧ Among old none s ∧
        (s.node available).inUse = false ∧ available < s.nodes.capacity)
      (fun _ s ↦ Holding s₀ hand s ∧ Among old none s) := by
  refine Triple.get fun s hs ↦ ?_
  cases hfind : s.nodes.find fun node ↦ !node.inUse with
  | some available =>
      obtain ⟨hbound, hidle⟩ := GrowingTable.find_some hfind
      refine Triple.pure ?_
      rintro t rfl
      exact ⟨hs.1, hs.2.1, hs.2.2, by simpa using hidle, hbound⟩
  | none =>
      dsimp only
      refine Triple.ite (fun _ ↦ ?_) fun _ ↦ ?_
      · -- every node in use stands below the old capacity, where nothing changes
        have hbelow : ∀ k, (s.node k).inUse = true → (s.nodes.grow .zero).entry k = s.node k :=
          fun k hk ↦ s.nodes.grow_entry_of_lt _ (hs.1.1.bounded k hk)
        have huse : ∀ k, ((s.nodes.grow .zero).entry k).inUse = (s.node k).inUse := by
          intro k
          by_cases hk : (s.node k).inUse = true
          · rw [hbelow k hk]
          · by_cases hbound : k < s.nodes.capacity
            · rw [s.nodes.grow_entry_of_lt _ hbound]
              rfl
            · rw [s.nodes.grow_entry_of_le _ (Nat.not_lt.mp hbound)]
              simpa [VfsNode.zero] using hk
        let s' := { s with
          nodes := s.nodes.grow .zero, world := (growth beneath s.nodes.chunkCount s.world).2 }
        have hsame : SameTables s s' := ⟨rfl, rfl, rfl, rfl, rfl⟩
        have hledger : Ledger s' hand := hs.1.1.of_nodes (hs.1.tables ht) hsame huse hbelow
          (s.nodes.capacity_le_grow _)
        have hunread : Unread mount number s' := by
          intro k hk
          have hk' : (s.node k).inUse = true := (huse k).symm.trans hk
          rw [show s'.node k = s.node k from hbelow k hk']
          exact hs.2.1 k hk'
        have hamong : Among old none s' := by
          intro k hk
          have hk' : (s.node k).inUse = true := (huse k).symm.trans hk
          rw [show s'.node k = s.node k from hbelow k hk']
          exact hs.2.2 k hk'
        have hfree : (s'.node s.nodes.capacity).inUse = false := by
          change ((s.nodes.grow .zero).entry s.nodes.capacity).inUse = false
          rw [s.nodes.grow_entry_of_le _ le_rfl]
          rfl
        refine (Triple.set (Q := fun _ t ↦ t = s') fun _ _ ↦ rfl).bind fun _ ↦ Triple.pure ?_
        rintro t rfl
        exact ⟨⟨hledger, hs.1.2.trans hsame⟩, hunread, hamong, hfree, s.nodes.capacity_lt_grow _⟩
      · refine (Triple.set (Q := fun _ s ↦ Holding s₀ hand s ∧ Among old none s) ?_).bind
          fun _ ↦ Triple.throw fun _ ht ↦ ht
        exact fun _ _ ↦ ⟨hs.1.world ht _, hs.2.2⟩

structure Fresh (s₀ : Vfs ω κ) (hand : Multiset NodeIndex) (mount : MountIndex)
    (old : NodeIndex → MountIndex → Option MountIndex → Prop) (n : NodeIndex)
    (s : Vfs ω κ) : Prop where
  holding : Holding s₀ (n ::ₘ hand) s
  mount_eq : (s.node n).mount = mount
  mounted_eq : (s.node n).mounted = none
  references_eq : (s.node n).references = 1
  among : Among old (some n) s

theorem triple_nodeRead (ht : Tables s₀)
    (old : NodeIndex → MountIndex → Option MountIndex → Prop) {mount : MountIndex}
    {number : UInt64} (hmount : (s₀.mount mount).mounted = true) :
    Triple (fun s ↦ Holding s₀ hand s ∧ Unread mount number s ∧ Among old none s)
      (vfsNodeRead beneath mount number) (Fresh s₀ hand mount old)
      (fun _ s ↦ Holding s₀ hand s ∧ Among old none s) := by
  refine (triple_nodeSlot ht mount number).bind fun available ↦ ?_
  refine (Triple.modify (Q := fun _ ↦ Fresh s₀ hand mount old available) ?_).bind fun _ ↦ ?_
  · rintro s ⟨hholding, hunread, hamong, hidle, hbound⟩
    have hstanding : (s.mount mount).mounted = true := by rw [hholding.2.mount_eq, hmount]
    refine ⟨hholding.putNode (hholding.1.take (hholding.tables ht) hidle hbound hstanding hunread),
      ?_, ?_, ?_, hamong.putNode _⟩ <;> rw [putNode_node_self] <;> rfl
  refine Triple.get fun s hs ↦ ?_
  -- the filesystem fills the slot, or it is given back
  have hcall : Triple (fun t ↦ t = s)
      (attempt (callNode available
        ((beneath.operations (s.mount mount).operations).readNode number)))
      (fun _ ↦ Fresh s₀ hand mount old available) fun _ _ ↦ False := by
    refine Triple.attempt ?_
    let F : Vfs ω κ → Prop := fun t ↦ (t.node available).mount = mount ∧
      (t.node available).mounted = none ∧ (t.node available).references = 1 ∧
        Among old (some available) t
    refine Triple.weaken (P := fun t ↦ Holding s₀ (available ::ₘ hand) t ∧ F t)
      (triple_callNode_of ht ?_) ?_ ?_ ?_
    · rintro t contents world ⟨hmount, hmounted, hreferences, hamong⟩
      have hself : ({ t.putNode available { t.node available with toNodeContents := contents } with
          world := world } : Vfs ω κ).node available =
            { t.node available with toNodeContents := contents } :=
        putNode_node_self t available _
      refine ⟨?_, ?_, ?_, fun k huse hne ↦ ?_⟩
      · rw [hself, hmount]
      · rw [hself, hmounted]
      · rw [hself, hreferences]
      · have hk : k ≠ available := fun hk ↦ hne (congrArg some hk.symm)
        have hother : ({ t.putNode available { t.node available with
            toNodeContents := contents } with world := world } : Vfs ω κ).node k = t.node k :=
          putNode_node_of_ne t available k _ hk
        rw [hother] at huse ⊢
        exact hamong k huse hne
    · rintro t rfl
      exact ⟨hs.holding, hs.mount_eq, hs.mounted_eq, hs.references_eq, hs.among⟩
    · rintro _ t ⟨hholding, hmount, hmounted, hreferences, hamong⟩
      exact ⟨hholding, hmount, hmounted, hreferences, hamong⟩
    · rintro _ t ⟨hholding, hmount, hmounted, hreferences, hamong⟩
      exact ⟨hholding, hmount, hmounted, hreferences, hamong⟩
  refine (hcall.weaken (fun _ h ↦ h) (fun _ _ h ↦ h) fun _ _ h ↦ h.elim).bind fun answer ↦ ?_
  cases answer with
  | ok _ => exact Triple.pure fun t ht ↦ ht
  | error code =>
      refine (Triple.modify (Q := fun _ s ↦ Holding s₀ hand s ∧ Among old none s) ?_).bind
        fun _ ↦ Triple.throw fun _ ht ↦ ht
      intro t hfresh
      refine ⟨?_, hfresh.among.idle rfl⟩
      exact hfresh.holding.putNode
        (hfresh.holding.1.free hfresh.references_eq.le (hfresh.holding.tables ht) _ rfl)

theorem triple_acquire (ht : Tables s₀) {mount : MountIndex} {number : UInt64}
    (hmount : (s₀.mount mount).mounted = true) :
    Triple (Holding s₀ hand) (vfsNodeAcquire beneath mount number)
      (fun n ↦ Holding s₀ (n ::ₘ hand)) (fun _ ↦ Holding s₀ hand) := by
  refine Triple.get fun s hs ↦ ?_
  cases hfind : s.nodes.find
      fun node ↦ node.inUse && node.mount == mount && node.number == number with
  | some index =>
      -- the file has a node already
      obtain ⟨-, hnode⟩ := GrowingTable.find_some hfind
      simp only [Bool.and_eq_true, beq_iff_eq, nodes_entry] at hnode
      exact (triple_hold hs hnode.1.1).bind fun _ ↦ Triple.pure fun _ ht ↦ ht
  | none =>
      have hunread : Unread mount number s := by
        intro k hk hfile
        have := GrowingTable.find_none hfind (hs.1.bounded k hk)
        simp [hk, hfile.1, hfile.2] at this
      refine (triple_nodeRead ht (fun _ _ _ ↦ True) hmount).weaken ?_
        (fun _ _ h ↦ h.holding) fun _ _ h ↦ h.1
      rintro t rfl
      exact ⟨hs, hunread, fun _ _ _ ↦ trivial⟩

theorem triple_acquireFirst (ht : Tables s₀) {mount : MountIndex} {number : UInt64}
    (hmount : (s₀.mount mount).mounted = true)
    (hold : ∀ k mount' mounted, old k mount' mounted → mount' ≠ mount) :
    Triple (fun s ↦ Holding s₀ hand s ∧ Among old none s) (vfsNodeAcquire beneath mount number)
      (Fresh s₀ hand mount old) (fun _ s ↦ Holding s₀ hand s ∧ Among old none s) := by
  refine Triple.get fun s hs ↦ ?_
  have hnone : ∀ k, (s.node k).inUse = true → (s.node k).mount ≠ mount := fun k hk ↦
    hold k _ _ (hs.2 k hk (by simp))
  cases hfind : s.nodes.find
      fun node ↦ node.inUse && node.mount == mount && node.number == number with
  | some index =>
      obtain ⟨-, hnode⟩ := GrowingTable.find_some hfind
      simp only [Bool.and_eq_true, beq_iff_eq, nodes_entry] at hnode
      exact absurd hnode.1.2 (hnone index hnode.1.1)
  | none =>
      refine (triple_nodeRead ht old hmount).pre ?_
      rintro t rfl
      exact ⟨hs.1, fun k hk hfile ↦ hnone k hk hfile.1, hs.2⟩

theorem triple_leaveMounts (ht : Tables s₀) (fuel : ℕ) :
    Triple (Holding s₀ (n ::ₘ hand)) (vfsLeaveMounts beneath fuel n)
      (fun k ↦ Holding s₀ (k ::ₘ hand)) E := by
  induction fuel generalizing n with
  | zero => exact Triple.pure fun _ hs ↦ hs
  | succ fuel ih =>
      refine Triple.get fun s hs ↦ ?_
      split
      · rename_i covered _ hcovered
        have hstanding := hs.1.standing n hs.inUse
        have huse := hs.1.inUse_of_covered (hs.tables ht) hstanding hcovered
        refine (triple_hold hs huse).bind fun _ ↦ ?_
        exact ((triple_release ht).pre fun _ ↦ Holding.swap).bind fun _ ↦ ih
      · exact Triple.pure fun t ht ↦ ht ▸ hs

theorem triple_crossMounts (ht : Tables s₀) (fuel : ℕ) :
    Triple (Holding s₀ (n ::ₘ hand)) (vfsCrossMounts beneath fuel n)
      (fun k ↦ Holding s₀ (k ::ₘ hand)) E := by
  induction fuel generalizing n with
  | zero => exact Triple.pure fun _ hs ↦ hs
  | succ fuel ih =>
      refine Triple.get fun s hs ↦ ?_
      split
      · rename_i root hroot
        obtain ⟨mount, hmounted, hroot⟩ := Option.bind_eq_some_iff.mp hroot
        have hstanding := (hs.1.crossing n mount hs.inUse hmounted).1
        have huse := hs.1.inUse_of_root (hs.tables ht) hstanding hroot
        refine (triple_hold hs huse).bind fun _ ↦ ?_
        exact ((triple_release ht).pre fun _ ↦ Holding.swap).bind fun _ ↦ ih
      · exact Triple.pure fun t ht ↦ ht ▸ hs

def Resolves (s₀ : Vfs ω κ) (follow : NodeIndex → Name → VfsAction ω κ NodeIndex) : Prop :=
  ∀ hand start target, Triple (Holding s₀ (start ::ₘ hand)) (follow start target)
    (fun k ↦ Holding s₀ (k ::ₘ start ::ₘ hand)) (fun _ ↦ Holding s₀ (start ::ₘ hand))

variable {follow : NodeIndex → Name → VfsAction ω κ NodeIndex}

theorem triple_followLink (ht : Tables s₀) (hfollow : Resolves s₀ follow) {current child : ℕ} :
    Triple (Holding s₀ (child ::ₘ current ::ₘ hand)) (vfsFollowLink beneath follow current child)
      (fun k ↦ Holding s₀ (k ::ₘ current ::ₘ hand)) (fun _ ↦ Holding s₀ hand) := by
  -- either way out gives up the child first and then the directory
  have hexit : ∀ {code : VfsError} {Q : NodeIndex → Vfs ω κ → Prop},
      Triple (Holding s₀ (child ::ₘ current ::ₘ hand))
        (do
          vfsNodeRelease beneath (some child)
          releaseAndRefuse beneath current code)
        Q (fun _ ↦ Holding s₀ hand) :=
    (triple_release ht).bind fun _ ↦ triple_releaseAndRefuse ht
  refine Triple.get fun s hs ↦ ?_
  split
  · refine hexit.pre ?_
    rintro t rfl
    exact hs
  · refine ((Triple.attempt (Q := fun _ ↦ Holding s₀ (child ::ₘ current ::ₘ hand))
      (triple_callNode ht)).pre (S := fun t ↦ t = s) ?_).bind fun answer ↦ ?_
    · rintro t rfl
      exact hs
    cases answer with
    | error code => exact hexit
    | ok target =>
        refine Triple.ite (fun _ ↦ hexit) fun _ ↦ ?_
        refine (triple_release ht).bind fun _ ↦ ?_
        refine (hfollow hand current target).attempt_answered.bind fun answer ↦ ?_
        cases answer with
        | error code => exact triple_releaseAndRefuse ht
        | ok resolved => exact Triple.pure fun _ hs ↦ hs

theorem triple_walkComponent (ht : Tables s₀) (hfollow : Resolves s₀ follow) {name : Name}
    {mustFollow : Bool} {current : NodeIndex} :
    Triple (Holding s₀ (current ::ₘ hand))
      (vfsWalkComponent beneath follow name mustFollow current)
      (fun k ↦ Holding s₀ (k ::ₘ hand)) (fun _ ↦ Holding s₀ hand) := by
  unfold vfsWalkComponent
  refine Triple.ite (fun _ ↦ triple_releaseAndRefuse ht) fun _ ↦ ?_
  refine Triple.look fun s hs ↦ ?_
  refine Triple.ite (fun _ ↦ triple_releaseAndRefuse ht) fun _ ↦ ?_
  refine (Triple.ite (Q := fun k ↦ Holding s₀ (k ::ₘ hand))
    (fun _ ↦ triple_leaveMounts ht s.mounts.capacity) fun _ ↦ Triple.pure fun _ hs ↦ hs).bind
      fun current ↦ ?_
  refine Triple.look fun s hs ↦ ?_
  refine (Triple.attempt (Q := fun _ ↦ Holding s₀ (current ::ₘ hand)) (triple_callNode ht)).bind
    fun answer ↦ ?_
  cases answer with
  | error code => exact triple_releaseAndRefuse ht
  | ok number =>
      refine (triple_acquire ht hs.standing).attempt_answered.bind fun answer ↦ ?_
      cases answer with
      | error code => exact triple_releaseAndRefuse ht
      | ok child =>
          refine Triple.look fun s hs ↦ ?_
          refine (triple_crossMounts ht s.mounts.capacity).bind fun child ↦ ?_
          refine Triple.look fun s hs ↦ ?_
          refine (Triple.ite (Q := fun k ↦ Holding s₀ (k ::ₘ current ::ₘ hand))
            (fun _ ↦ triple_followLink ht hfollow) fun _ ↦ Triple.pure fun _ hs ↦ hs).bind
              fun child ↦ ?_
          exact ((triple_release ht).pre fun _ ↦ Holding.swap).bind fun _ ↦
            Triple.pure fun _ hs ↦ hs

theorem triple_walkEnd (ht : Tables s₀) {current : NodeIndex} {assertsDirectory : Bool} :
    Triple (Holding s₀ (current ::ₘ hand)) (vfsWalkEnd beneath current assertsDirectory)
      (fun k ↦ Holding s₀ (k ::ₘ hand)) (fun _ ↦ Holding s₀ hand) := by
  refine Triple.look fun s hs ↦ ?_
  exact Triple.ite (fun _ ↦ triple_releaseAndRefuse ht) fun _ ↦ Triple.pure fun _ hs ↦ hs

theorem triple_walkLoop (ht : Tables s₀) (hfollow : Resolves s₀ follow) {followLast : Bool}
    (fuel : ℕ) {current : NodeIndex} {path : Name} {assertsDirectory : Bool} :
    Triple (Holding s₀ (current ::ₘ hand))
      (vfsWalkLoop beneath follow followLast fuel current path assertsDirectory)
      (fun k ↦ Holding s₀ (k ::ₘ hand)) (fun _ ↦ Holding s₀ hand) := by
  induction fuel generalizing current path assertsDirectory with
  | zero => exact triple_walkEnd ht
  | succ fuel ih =>
      unfold vfsWalkLoop
      split
      · exact triple_walkEnd ht
      · exact (triple_walkComponent ht hfollow).bind fun child ↦ ih

theorem triple_walk (ht : Tables s₀) (links : ℕ) {start : Option NodeIndex} {path : Name} {followLast : Bool}
    (hstart : ∀ n, start = some n → n ∈ hand) :
    Triple (Holding s₀ hand) (vfsWalk beneath links start path followLast)
      (fun k ↦ Holding s₀ (k ::ₘ hand)) (fun _ ↦ Holding s₀ hand) := by
  induction links generalizing hand start path followLast with
  | zero => exact Triple.throw fun _ hs ↦ hs
  | succ links ih =>
      unfold vfsWalk
      refine Triple.ite (fun _ ↦ Triple.throw fun _ hs ↦ hs) fun _ ↦ ?_
      refine Triple.get fun s hs ↦ ?_
      dsimp only
      split
      · exact Triple.throw fun _ h ↦ h ▸ hs
      · rename_i current hfirst
        have huse : (s.node current).inUse = true := by
          by_cases hhead : path.head? = some separator
          · rw [if_pos hhead] at hfirst
            obtain ⟨mount, hmount, hroot⟩ := Option.bind_eq_some_iff.mp hfirst
            exact hs.1.inUse_of_root (hs.tables ht) ((hs.tables ht).rootMounted mount hmount) hroot
          · rw [if_neg hhead] at hfirst
            exact hs.1.inUse_of_mem (hstart current hfirst)
        refine (triple_hold hs huse).bind fun _ ↦ triple_walkLoop ht ?_ _
        intro hand' start' target
        refine ih ?_
        rintro k ⟨⟩
        exact Multiset.mem_cons_self _ _

end OxysOS.Fs
