import OxysOS.Fs.Vfs.Mount
import OxysOS.Library.Tally
import Mathlib.Data.Multiset.Count

/-!
# The ledger of references

Every reference upon a node belongs to an open file, to a mount that has the
node for its root or covers it, or to the operation in progress, whose
references are kept in hand as a multiset.  `Ledger` says that the counts of
the nodes are exactly these.
-/

namespace OxysOS.Fs

open OxysOS.Library OxysOS.Mm OxysOS.Block

variable {ω κ : Type}

def openFiles (s : Vfs ω κ) (n : NodeIndex) : ℕ :=
  tally s.files.capacity fun i ↦ (s.file i).isOpen = true ∧ (s.file i).node = some n

def rootMounts (s : Vfs ω κ) (n : NodeIndex) : ℕ :=
  tally s.mounts.capacity fun m ↦ (s.mount m).mounted = true ∧ (s.mount m).root = some n

def coveringMounts (s : Vfs ω κ) (n : NodeIndex) : ℕ :=
  tally s.mounts.capacity fun m ↦ (s.mount m).mounted = true ∧ (s.mount m).covered = some n

def holders (s : Vfs ω κ) (n : NodeIndex) : ℕ :=
  openFiles s n + (rootMounts s n + coveringMounts s n)

def Forest (s : Vfs ω κ) : Prop :=
  ∃ rank : MountIndex → ℕ, ∀ m n, (s.mount m).mounted = true → (s.mount m).covered = some n →
    rank (s.node n).mount < rank m

structure Ledger (s : Vfs ω κ) (hand : Multiset NodeIndex) : Prop where
  counted : ∀ n, (s.node n).inUse = true → (s.node n).references = holders s n + hand.count n
  positive : ∀ n, (s.node n).inUse = true → 0 < (s.node n).references
  idle : ∀ n, (s.node n).inUse = false → holders s n = 0 ∧ n ∉ hand
  bounded : ∀ n, (s.node n).inUse = true → n < s.nodes.capacity
  unique : ∀ n k, (s.node n).inUse = true → (s.node k).inUse = true →
    (s.node n).mount = (s.node k).mount → (s.node n).number = (s.node k).number → n = k
  standing : ∀ n, (s.node n).inUse = true → (s.mountOf n).mounted = true
  rootOf : ∀ m r, (s.mount m).mounted = true → (s.mount m).root = some r → (s.node r).mount = m
  crossing : ∀ n m, (s.node n).inUse = true → (s.node n).mounted = some m →
    (s.mount m).mounted = true ∧ (s.mount m).covered = some n
  covering : ∀ m n, (s.mount m).mounted = true → (s.mount m).covered = some n →
    (s.node n).mounted = some m
  forest : Forest s

structure Tables (s : Vfs ω κ) : Prop where
  mountBounded : ∀ m, (s.mount m).mounted = true → m < s.mounts.capacity
  rootMounted : ∀ m, s.rootMount = some m → (s.mount m).mounted = true
  fileBounded : ∀ i, (s.file i).isOpen = true → i < s.files.capacity
  closed : ∀ i, (s.file i).isOpen = false → (s.file i).node = none ∧ (s.file i).pipe = none
  either : ∀ i, (s.file i).isOpen = true → (s.file i).pipe.isSome → (s.file i).node = none

structure SameTables (s s' : Vfs ω κ) : Prop where
  filesystems : s'.filesystems = s.filesystems
  mounts : s'.mounts = s.mounts
  files : s'.files = s.files
  pipes : s'.pipes = s.pipes
  rootMount : s'.rootMount = s.rootMount

namespace SameTables

theorem refl (s : Vfs ω κ) : SameTables s s := ⟨rfl, rfl, rfl, rfl, rfl⟩

theorem trans {s s' s'' : Vfs ω κ} (h : SameTables s s') (h' : SameTables s' s'') :
    SameTables s s'' where
  filesystems := h'.filesystems.trans h.filesystems
  mounts := h'.mounts.trans h.mounts
  files := h'.files.trans h.files
  pipes := h'.pipes.trans h.pipes
  rootMount := h'.rootMount.trans h.rootMount

theorem mount_eq {s s' : Vfs ω κ} (h : SameTables s s') (m : MountIndex) :
    s'.mount m = s.mount m := by
  rw [Vfs.mount, Vfs.mount, h.mounts]

theorem file_eq {s s' : Vfs ω κ} (h : SameTables s s') (i : FileIndex) :
    s'.file i = s.file i := by
  rw [Vfs.file, Vfs.file, h.files]

theorem holders_eq {s s' : Vfs ω κ} (h : SameTables s s') (n : NodeIndex) :
    holders s' n = holders s n := by
  simp only [holders, openFiles, rootMounts, coveringMounts, h.mount_eq, h.file_eq, h.mounts,
    h.files]

theorem tables {s s' : Vfs ω κ} (h : SameTables s s') (ht : Tables s) : Tables s' where
  mountBounded m := by rw [h.mount_eq, h.mounts]; exact ht.mountBounded m
  rootMounted m := by rw [h.mount_eq, h.rootMount]; exact ht.rootMounted m
  fileBounded i := by rw [h.file_eq, h.files]; exact ht.fileBounded i
  closed i := by rw [h.file_eq]; exact ht.closed i
  either i := by rw [h.file_eq]; exact ht.either i

theorem putNode (s : Vfs ω κ) (n : NodeIndex) (node : VfsNode κ) :
    SameTables s (s.putNode n node) := ⟨rfl, rfl, rfl, rfl, rfl⟩

end SameTables

section Holders

variable {s : Vfs ω κ} {n : NodeIndex}

theorem holders_pos_of_root (ht : Tables s) {m : MountIndex} (hm : (s.mount m).mounted = true)
    (hroot : (s.mount m).root = some n) : 0 < holders s n := by
  have : 0 < rootMounts s n := tally_pos (ht.mountBounded m hm) ⟨hm, hroot⟩
  unfold holders
  omega

theorem holders_pos_of_covered (ht : Tables s) {m : MountIndex} (hm : (s.mount m).mounted = true)
    (hcovered : (s.mount m).covered = some n) : 0 < holders s n := by
  have : 0 < coveringMounts s n := tally_pos (ht.mountBounded m hm) ⟨hm, hcovered⟩
  unfold holders
  omega

end Holders

section Node

variable (s : Vfs ω κ) (n k : NodeIndex) (node : VfsNode κ)

@[simp] theorem nodes_entry : s.nodes.entry n = s.node n := rfl

@[simp] theorem putNode_node_self : (s.putNode n node).node n = node :=
  Function.update_self _ _ _

theorem putNode_node_of_ne (h : k ≠ n) : (s.putNode n node).node k = s.node k :=
  Function.update_of_ne h _ _

@[simp] theorem putNode_mount (m : MountIndex) : (s.putNode n node).mount m = s.mount m := rfl

@[simp] theorem putNode_capacity : (s.putNode n node).nodes.capacity = s.nodes.capacity := rfl

theorem putNode_mountOf_of_ne (h : k ≠ n) : (s.putNode n node).mountOf k = s.mountOf k := by
  rw [Vfs.mountOf, putNode_node_of_ne s n k node h]
  rfl

end Node

namespace Ledger

variable {s : Vfs ω κ} {hand : Multiset NodeIndex} {n : NodeIndex}

theorem inUse_of_mem (h : Ledger s hand) (hn : n ∈ hand) : (s.node n).inUse = true := by
  by_contra hidle
  exact (h.idle n (by simpa using hidle)).2 hn

theorem inUse_of_holders (h : Ledger s hand) (hn : 0 < holders s n) :
    (s.node n).inUse = true := by
  by_contra hidle
  have := (h.idle n (by simpa using hidle)).1
  omega

theorem inUse_of_root (h : Ledger s hand) (ht : Tables s) {m : MountIndex}
    (hm : (s.mount m).mounted = true) (hroot : (s.mount m).root = some n) :
    (s.node n).inUse = true :=
  h.inUse_of_holders (holders_pos_of_root ht hm hroot)

theorem inUse_of_covered (h : Ledger s hand) (ht : Tables s) {m : MountIndex}
    (hm : (s.mount m).mounted = true) (hcovered : (s.mount m).covered = some n) :
    (s.node n).inUse = true :=
  h.inUse_of_holders (holders_pos_of_covered ht hm hcovered)

theorem of_nodes {s' : Vfs ω κ} (h : Ledger s hand) (ht : Tables s) (hsame : SameTables s s')
    (huse : ∀ n, (s'.node n).inUse = (s.node n).inUse)
    (hnode : ∀ n, (s.node n).inUse = true → s'.node n = s.node n)
    (hcapacity : s.nodes.capacity ≤ s'.nodes.capacity) : Ledger s' hand := by
  refine ⟨fun n hn ↦ ?_, fun n hn ↦ ?_, fun n hn ↦ ?_, fun n hn ↦ ?_, fun n k hn hk ↦ ?_,
    fun n hn ↦ ?_, fun m r hm hr ↦ ?_, fun n m hn ↦ ?_, fun m n hm hn ↦ ?_, ?_⟩
  · rw [huse] at hn
    rw [hnode n hn, hsame.holders_eq, h.counted n hn]
  · rw [huse] at hn
    rw [hnode n hn]
    exact h.positive n hn
  · rw [huse] at hn
    rw [hsame.holders_eq]
    exact h.idle n hn
  · rw [huse] at hn
    exact lt_of_lt_of_le (h.bounded n hn) hcapacity
  · rw [huse] at hn hk
    rw [hnode n hn, hnode k hk]
    exact h.unique n k hn hk
  · rw [huse] at hn
    rw [Vfs.mountOf, hnode n hn, hsame.mount_eq]
    exact h.standing n hn
  · rw [hsame.mount_eq] at hm hr
    rw [hnode r (h.inUse_of_root ht hm hr)]
    exact h.rootOf m r hm hr
  · rw [huse] at hn
    rw [hsame.mount_eq, hnode n hn]
    exact h.crossing n m hn
  · rw [hsame.mount_eq] at hm hn
    rw [hnode n (h.inUse_of_covered ht hm hn)]
    exact h.covering m n hm hn
  · obtain ⟨rank, hrank⟩ := h.forest
    refine ⟨rank, fun m n hm hn ↦ ?_⟩
    rw [hsame.mount_eq] at hm hn
    rw [hnode n (h.inUse_of_covered ht hm hn)]
    exact hrank m n hm hn

theorem putNode {hand' : Multiset NodeIndex} (h : Ledger s hand) (node : VfsNode κ)
    (hhand : ∀ k, k ≠ n → hand'.count k = hand.count k)
    (hcounted : node.inUse = true → node.references = holders s n + hand'.count n)
    (hpositive : node.inUse = true → 0 < node.references)
    (hidle : node.inUse = false → holders s n = 0 ∧ n ∉ hand')
    (hbounded : node.inUse = true → n < s.nodes.capacity)
    (hunique : node.inUse = true → ∀ k, k ≠ n → (s.node k).inUse = true →
      ¬ ((s.node k).mount = node.mount ∧ (s.node k).number = node.number))
    (hstanding : node.inUse = true → (s.mount node.mount).mounted = true)
    (hroot : ∀ m, (s.mount m).mounted = true → (s.mount m).root = some n → node.mount = m)
    (hcrossing : node.inUse = true → ∀ m, node.mounted = some m →
      (s.mount m).mounted = true ∧ (s.mount m).covered = some n)
    (hcovering : ∀ m, (s.mount m).mounted = true → (s.mount m).covered = some n →
      node.mounted = some m ∧ node.mount = (s.node n).mount) :
    Ledger (s.putNode n node) hand' := by
  have hholders : ∀ k, holders (s.putNode n node) k = holders s k :=
    (SameTables.putNode s n node).holders_eq
  refine ⟨fun k ↦ ?_, fun k ↦ ?_, fun k ↦ ?_, fun k ↦ ?_, fun k l ↦ ?_, fun k ↦ ?_,
    fun m k hm ↦ ?_, fun k m ↦ ?_, fun m k hm ↦ ?_, ?_⟩
  · rw [hholders]
    by_cases hk : k = n
    · subst hk
      rw [putNode_node_self]
      exact hcounted
    · rw [putNode_node_of_ne s n k node hk, hhand k hk]
      exact h.counted k
  · by_cases hk : k = n
    · subst hk
      rw [putNode_node_self]
      exact hpositive
    · rw [putNode_node_of_ne s n k node hk]
      exact h.positive k
  · rw [hholders]
    by_cases hk : k = n
    · subst hk
      rw [putNode_node_self]
      exact hidle
    · rw [putNode_node_of_ne s n k node hk]
      intro hidle
      refine ⟨(h.idle k hidle).1, ?_⟩
      rw [← Multiset.count_eq_zero, hhand k hk, Multiset.count_eq_zero]
      exact (h.idle k hidle).2
  · by_cases hk : k = n
    · subst hk
      rw [putNode_node_self]
      exact hbounded
    · rw [putNode_node_of_ne s n k node hk]
      exact h.bounded k
  · by_cases hk : k = n <;> by_cases hl : l = n
    · intros
      rw [hk, hl]
    · subst hk
      rw [putNode_node_self, putNode_node_of_ne s k l node hl]
      intro huse huse' hmount hnumber
      exact absurd ⟨hmount.symm, hnumber.symm⟩ (hunique huse l hl huse')
    · subst hl
      rw [putNode_node_self, putNode_node_of_ne s l k node hk]
      intro huse huse' hmount hnumber
      exact absurd ⟨hmount, hnumber⟩ (hunique huse' k hk huse)
    · rw [putNode_node_of_ne s n k node hk, putNode_node_of_ne s n l node hl]
      exact h.unique k l
  · by_cases hk : k = n
    · subst hk
      rw [Vfs.mountOf, putNode_node_self]
      exact hstanding
    · rw [putNode_node_of_ne s n k node hk, putNode_mountOf_of_ne s n k node hk]
      exact h.standing k
  · rintro hroot'
    by_cases hk : k = n
    · subst hk
      rw [putNode_node_self]
      exact hroot m hm hroot'
    · rw [putNode_node_of_ne s n k node hk]
      exact h.rootOf m k hm hroot'
  · by_cases hk : k = n
    · subst hk
      rw [putNode_node_self]
      exact fun huse ↦ hcrossing huse m
    · rw [putNode_node_of_ne s n k node hk]
      exact h.crossing k m
  · rintro hcovered
    by_cases hk : k = n
    · subst hk
      rw [putNode_node_self]
      exact (hcovering m hm hcovered).1
    · rw [putNode_node_of_ne s n k node hk]
      exact h.covering m k hm hcovered
  · obtain ⟨rank, hrank⟩ := h.forest
    refine ⟨rank, fun m k hm hcovered ↦ ?_⟩
    by_cases hk : k = n
    · subst hk
      rw [putNode_node_self, (hcovering m hm hcovered).2]
      exact hrank m k hm hcovered
    · rw [putNode_node_of_ne s n k node hk]
      exact hrank m k hm hcovered

theorem recount {hand' : Multiset NodeIndex} (h : Ledger s hand) (node : VfsNode κ)
    (huse : (s.node n).inUse = true) (hhand : ∀ k, k ≠ n → hand'.count k = hand.count k)
    (hcounted : node.references = holders s n + hand'.count n) (hpositive : 0 < node.references)
    (hinUse : node.inUse = true) (hmount : node.mount = (s.node n).mount)
    (hnumber : node.number = (s.node n).number) (hmounted : node.mounted = (s.node n).mounted) :
    Ledger (s.putNode n node) hand' := by
  refine h.putNode node hhand (fun _ ↦ hcounted) (fun _ ↦ hpositive) ?_ (fun _ ↦ h.bounded n huse)
    ?_ (fun _ ↦ ?_) ?_ (fun _ ↦ ?_) ?_
  · intro hidle
    rw [hinUse] at hidle
    cases hidle
  · rintro - k hk hkuse ⟨hkmount, hknumber⟩
    exact hk (h.unique k n hkuse huse (hkmount.trans hmount) (hknumber.trans hnumber))
  · rw [hmount]
    exact h.standing n huse
  · rw [hmount]
    exact fun m hm hroot ↦ h.rootOf m n hm hroot
  · rw [hmounted]
    exact fun m ↦ h.crossing n m huse
  · rw [hmounted]
    exact fun m hm hcovered ↦ ⟨h.covering m n hm hcovered, hmount⟩

theorem hold (h : Ledger s hand) (huse : (s.node n).inUse = true) :
    Ledger (s.putNode n { s.node n with references := (s.node n).references + 1 })
      (n ::ₘ hand) := by
  refine h.recount _ huse (fun k hk ↦ Multiset.count_cons_of_ne hk _) ?_ (Nat.succ_pos _) huse
    rfl rfl rfl
  change (s.node n).references + 1 = _
  rw [Multiset.count_cons_self, h.counted n huse]
  omega

theorem drop (h : Ledger s (n ::ₘ hand)) (hmany : 1 < (s.node n).references) :
    Ledger (s.putNode n { s.node n with references := (s.node n).references - 1 }) hand := by
  have huse := h.inUse_of_mem (Multiset.mem_cons_self n hand)
  have hcounted := h.counted n huse
  rw [Multiset.count_cons_self] at hcounted
  refine h.recount _ huse (fun k hk ↦ (Multiset.count_cons_of_ne hk _).symm) ?_ ?_ huse
    rfl rfl rfl
  · change (s.node n).references - 1 = _
    omega
  · change 0 < (s.node n).references - 1
    omega

theorem free (h : Ledger s (n ::ₘ hand)) (hlast : (s.node n).references ≤ 1) (ht : Tables s)
    (node : VfsNode κ) (hidle : node.inUse = false) : Ledger (s.putNode n node) hand := by
  have huse := h.inUse_of_mem (Multiset.mem_cons_self n hand)
  have hcounted := h.counted n huse
  rw [Multiset.count_cons_self] at hcounted
  have hnone : holders s n = 0 ∧ n ∉ hand := by
    refine ⟨by omega, ?_⟩
    rw [← Multiset.count_eq_zero]
    omega
  have hunused : ∀ {p : Prop}, node.inUse = true → p := by
    intro p huse
    rw [hidle] at huse
    cases huse
  refine h.putNode node (fun k hk ↦ (Multiset.count_cons_of_ne hk _).symm) hunused hunused
    (fun _ ↦ hnone) hunused hunused hunused ?_ hunused ?_
  · intro m hm hroot
    have := holders_pos_of_root ht hm hroot
    omega
  · intro m hm hcovered
    have := holders_pos_of_covered ht hm hcovered
    omega

theorem contents (h : Ledger s hand) (contents : NodeContents κ) :
    Ledger (s.putNode n { s.node n with toNodeContents := contents }) hand := by
  by_cases huse : (s.node n).inUse = true
  · exact h.recount _ huse (fun _ _ ↦ rfl) (h.counted n huse) (h.positive n huse) huse rfl rfl rfl
  · refine h.putNode _ (fun _ _ ↦ rfl) (fun hu ↦ absurd hu huse) (fun hu ↦ absurd hu huse)
      (h.idle n) (fun hu ↦ absurd hu huse) (fun hu ↦ absurd hu huse) (fun hu ↦ absurd hu huse)
      (fun m hm ↦ h.rootOf m n hm) (fun hu ↦ absurd hu huse)
      (fun m hm hcovered ↦ ⟨h.covering m n hm hcovered, rfl⟩)

theorem take (h : Ledger s hand) (ht : Tables s) {mount : MountIndex} {number : UInt64}
    (hidle : (s.node n).inUse = false) (hbounded : n < s.nodes.capacity)
    (hmounted : (s.mount mount).mounted = true)
    (hnew : ∀ k, (s.node k).inUse = true →
      ¬ ((s.node k).mount = mount ∧ (s.node k).number = number)) :
    Ledger (s.putNode n (VfsNode.taken mount number)) (n ::ₘ hand) := by
  obtain ⟨hnone, hhand⟩ := h.idle n hidle
  have hcount : (n ::ₘ hand).count n = 1 := by
    rw [Multiset.count_cons_self, Multiset.count_eq_zero.mpr hhand]
  refine h.putNode _ (fun k hk ↦ Multiset.count_cons_of_ne hk _) (fun _ ↦ ?_) (fun _ ↦ ?_) ?_
    (fun _ ↦ hbounded) (fun _ k _ ↦ hnew k) (fun _ ↦ hmounted) ?_ ?_ ?_
  · rw [hcount, hnone]
    rfl
  · exact Nat.one_pos
  · intro hfalse
    cases hfalse
  · intro m hm hroot
    have := holders_pos_of_root ht hm hroot
    omega
  · intro _ m hm
    cases hm
  · intro m hm hcovered
    have := holders_pos_of_covered ht hm hcovered
    omega

end Ledger

end OxysOS.Fs
