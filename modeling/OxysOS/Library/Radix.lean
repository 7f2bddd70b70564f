import Mathlib.Data.Nat.Notation
import Mathlib.Data.List.Induction
import Mathlib.Tactic.Common

/-!
# Radix trees kept in a store of nodes

A path of indices leads from the root to a node, or to none, by the entries
that link to nodes.  Where no node is reached by two paths, a write of one entry
changes what the paths through that entry lead to and nothing else.
-/

namespace OxysOS.Library

variable {E : Type} {link : E → Option ℕ} {store store' : ℕ → ℕ → E} {root node next i : ℕ}
  {inside : List ℕ → Prop} {path q : List ℕ}

def radixWalk (link : E → Option ℕ) (store : ℕ → ℕ → E) (node : ℕ) : List ℕ → Option ℕ
  | [] => some node
  | i :: path => (link (store node i)).bind fun next ↦ radixWalk link store next path

@[simp] theorem radixWalk_nil : radixWalk link store node [] = some node := rfl

theorem radixWalk_cons : radixWalk link store node (i :: path) =
    (link (store node i)).bind fun next ↦ radixWalk link store next path := rfl

theorem radixWalk_concat : radixWalk link store node (path ++ [i]) =
    (radixWalk link store node path).bind fun n ↦ link (store n i) := by
  induction path generalizing node with
  | nil =>
      change (link (store node i)).bind some = link (store node i)
      exact Option.bind_fun_some _
  | cons j path ih =>
      rw [List.cons_append, radixWalk_cons, radixWalk_cons, Option.bind_assoc]
      apply Option.bind_congr
      intro n _
      exact ih

structure RadixTree (link : E → Option ℕ) (store : ℕ → ℕ → E) (root : ℕ)
    (inside : List ℕ → Prop) : Prop where
  shorter : ∀ path i, inside (path ++ [i]) → inside path
  apart : ∀ p q n, inside p → inside q → radixWalk link store root p = some n →
    radixWalk link store root q = some n → p = q

namespace RadixTree

theorem walk_eq (h : RadixTree link store root inside)
    (hlinks : ∀ p i n, inside (p ++ [i]) → radixWalk link store root p = some n →
      link (store' n i) = link (store n i)) (hq : inside q) :
    radixWalk link store' root q = radixWalk link store root q := by
  induction q using List.reverseRecOn with
  | nil => rfl
  | append_singleton q j ih =>
      rw [radixWalk_concat, radixWalk_concat, ih (h.shorter q j hq)]
      apply Option.bind_congr
      intro n hn
      exact hlinks q j n hq hn

theorem of_walk_eq (h : RadixTree link store root inside)
    (hwalk : ∀ q, inside q → radixWalk link store' root q = radixWalk link store root q) :
    RadixTree link store' root inside := by
  refine ⟨h.shorter, fun p q n hp hq hpn hqn ↦ ?_⟩
  rw [hwalk p hp] at hpn
  rw [hwalk q hq] at hqn
  exact h.apart p q n hp hq hpn hqn

structure Links (link : E → Option ℕ) (store store' : ℕ → ℕ → E) (node i next : ℕ) : Prop where
  empty : link (store node i) = none
  linked : link (store' node i) = some next
  barren : ∀ j, link (store' next j) = none
  others : ∀ n j, n ≠ next → ¬(n = node ∧ j = i) → link (store' n j) = link (store n j)

theorem walk_links (h : RadixTree link store root inside) (hinside : inside (path ++ [i]))
    (hnode : radixWalk link store root path = some node)
    (hfresh : ∀ q, inside q → radixWalk link store root q ≠ some next)
    (hlinks : Links link store store' node i next) (hq : inside q) :
    radixWalk link store' root q =
      if q = path ++ [i] then some next else radixWalk link store root q := by
  induction q using List.reverseRecOn with
  | nil => rw [if_neg (by simp)]; rfl
  | append_singleton q j ih =>
      have hshorter := h.shorter q j hq
      rw [radixWalk_concat, radixWalk_concat, ih hshorter]
      by_cases hthrough : q = path ++ [i]
      · -- What lies beyond the new node led nowhere and still does.
        have hlonger : ¬q ++ [j] = path ++ [i] := by
          intro heq
          have hlength := congrArg List.length heq
          simp [hthrough] at hlength
        rw [if_pos hthrough, if_neg hlonger, hthrough, radixWalk_concat, hnode]
        change link (store' next j) = (link (store node i)).bind fun n ↦ link (store n j)
        rw [hlinks.barren j, hlinks.empty]
        rfl
      · rw [if_neg hthrough]
        cases hn : radixWalk link store root q with
        | none =>
            have hne : ¬q ++ [j] = path ++ [i] := by
              intro heq
              rw [(List.append_inj' heq rfl).1, hnode] at hn
              cases hn
            rw [if_neg hne]
            rfl
        | some n =>
            change link (store' n j) = if q ++ [j] = path ++ [i] then some next else link (store n j)
            by_cases hhere : n = node ∧ j = i
            · obtain ⟨rfl, rfl⟩ := hhere
              rw [h.apart q path n hshorter (h.shorter path j hinside) hn hnode, if_pos rfl]
              exact hlinks.linked
            · have hne : ¬q ++ [j] = path ++ [i] := by
                intro heq
                obtain ⟨hqp, hji⟩ := List.append_inj' heq rfl
                rw [hqp, hnode] at hn
                exact hhere ⟨(Option.some.inj hn).symm, List.singleton_inj.mp hji⟩
              rw [if_neg hne]
              apply hlinks.others n j _ hhere
              intro heq
              exact hfresh q hshorter (heq ▸ hn)

theorem links (h : RadixTree link store root inside) (hinside : inside (path ++ [i]))
    (hnode : radixWalk link store root path = some node)
    (hfresh : ∀ q, inside q → radixWalk link store root q ≠ some next)
    (hlinks : Links link store store' node i next) : RadixTree link store' root inside := by
  refine ⟨h.shorter, fun p q n hp hq hpn hqn ↦ ?_⟩
  rw [h.walk_links hinside hnode hfresh hlinks hp] at hpn
  rw [h.walk_links hinside hnode hfresh hlinks hq] at hqn
  split at hpn <;> split at hqn
  · rename_i hp' hq'
    rw [hp', hq']
  · cases hpn
    exact absurd hqn (hfresh q hq)
  · cases hqn
    exact absurd hpn (hfresh p hp)
  · exact h.apart p q n hp hq hpn hqn

end RadixTree

end OxysOS.Library
