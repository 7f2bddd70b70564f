import Mathlib.Data.List.Basic
import Mathlib.Data.List.Nodup
import Mathlib.Data.Option.Basic
import Mathlib.Data.Fintype.Card
import Mathlib.Logic.Function.Basic

/-!
# Linked lists whose links are stored in tables

A list threaded through a table is described by the Lean list of the cells it
visits.  `IsChain` is the singly linked form and `IsDeque` the doubly linked
one; `follow` is the search loop that walks either of them.
-/

namespace OxysOS.Library

variable {ι : Type*}

/-- Following `next` from `start` visits exactly the cells of the list, in
order, and then ends. -/
def IsChain (next : ι → Option ι) : Option ι → List ι → Prop
  | start, [] => start = none
  | start, i :: rest => start = some i ∧ IsChain next (next i) rest

/-- Walk from `start` until a cell satisfies `stop`.  The fuel bounds the
number of cells visited. -/
def follow (next : ι → Option ι) (stop : ι → Bool) : ℕ → Option ι → Option ι
  | 0, _ => none
  | _ + 1, none => none
  | n + 1, some i => if stop i then some i else follow next stop n (next i)

namespace IsChain

variable {next next' : ι → Option ι} {start : Option ι} {cells : List ι}

@[simp] theorem nil_iff : IsChain next start [] ↔ start = none := Iff.rfl

theorem start_eq (h : IsChain next start cells) : start = cells.head? := by
  cases cells with
  | nil => exact h
  | cons i rest => exact h.1

theorem congr (h : IsChain next start cells)
    (heq : ∀ i ∈ cells, next i = next' i) : IsChain next' start cells := by
  induction cells generalizing start with
  | nil => exact h
  | cons i rest ih =>
      refine ⟨h.1, ?_⟩
      rw [← heq i List.mem_cons_self]
      exact ih h.2 fun j hj ↦ heq j (List.mem_cons_of_mem i hj)

theorem next_eq {before after : List ι} {i : ι}
    (h : IsChain next start (before ++ i :: after)) : next i = after.head? := by
  induction before generalizing start with
  | nil => exact start_eq h.2
  | cons j before ih => exact ih h.2

theorem of_next_eq (hstart : start = cells.head?)
    (hnext : ∀ before i after, cells = before ++ i :: after → next i = after.head?) :
    IsChain next start cells := by
  induction cells generalizing start with
  | nil => exact hstart
  | cons i rest ih =>
      refine ⟨hstart, ih (hnext [] i rest rfl) ?_⟩
      intro before j after hsplit
      exact hnext (i :: before) j after (by rw [hsplit]; rfl)

theorem follow_eq_find? (stop : ι → Bool) (h : IsChain next start cells) {fuel : ℕ}
    (hfuel : cells.length ≤ fuel) : follow next stop fuel start = cells.find? stop := by
  induction cells generalizing start fuel with
  | nil =>
      rw [nil_iff.mp h]
      cases fuel <;> rfl
  | cons i rest ih =>
      rw [List.length_cons] at hfuel
      obtain ⟨n, rfl⟩ : ∃ n, fuel = n + 1 := ⟨fuel - 1, by omega⟩
      rw [h.1]
      have hrest : rest.length ≤ n := by omega
      by_cases hi : stop i
      · simp [follow, hi]
      · simp [follow, hi, ih h.2 hrest]

section Update

variable [DecidableEq ι]

theorem find?_next_eq {before after : List ι} {p i : ι}
    (h : IsChain next start (before ++ p :: i :: after))
    (hnodup : (before ++ p :: i :: after).Nodup) :
    (before ++ p :: i :: after).find? (fun c ↦ next c == some i) = some p := by
  have hp : next p = some i := h.next_eq
  rw [List.find?_append, List.find?_cons_of_pos (by simp [hp])]
  have hnone : before.find? (fun c ↦ next c == some i) = none := by
    rw [List.find?_eq_none]
    intro c hc hnext
    obtain ⟨first, second, rfl⟩ := List.append_of_mem hc
    have hchain : next c = (second ++ p :: i :: after).head? := by
      rw [List.append_assoc, List.cons_append] at h
      exact h.next_eq
    have hhead : (second ++ p :: i :: after).head? = some i := by
      rw [← hchain]
      simpa using hnext
    have hmem : i ∈ second ++ [p] := by
      cases second with
      | nil => simp_all
      | cons k second => simp_all
    have hsplit : first ++ c :: second ++ p :: i :: after =
        first ++ c :: (second ++ [p]) ++ i :: after := by simp
    rw [hsplit] at hnodup
    have hfirst : i ∈ first ++ c :: (second ++ [p]) :=
      List.mem_append_right first (List.mem_cons_of_mem c hmem)
    exact (List.nodup_append.mp hnodup).2.2 i hfirst i List.mem_cons_self rfl
  rw [hnone]
  rfl

theorem push (h : IsChain next start cells) {i : ι} (hi : i ∉ cells) :
    IsChain (Function.update next i start) (some i) (i :: cells) := by
  refine ⟨rfl, ?_⟩
  rw [Function.update_self]
  refine h.congr fun j hj ↦ ?_
  rw [Function.update_of_ne (ne_of_mem_of_not_mem hj hi)]

theorem unlink {before after : List ι} {p i : ι}
    (h : IsChain next start (before ++ p :: i :: after))
    (hnodup : (before ++ p :: i :: after).Nodup) :
    IsChain (Function.update next p (next i)) start (before ++ p :: after) := by
  induction before generalizing start with
  | nil =>
      refine ⟨h.1, ?_⟩
      rw [Function.update_self]
      refine IsChain.congr h.2.2 fun j hj ↦ ?_
      have hp : p ∉ i :: after := (List.nodup_cons.mp hnodup).1
      rw [Function.update_of_ne]
      rintro rfl
      exact hp (List.mem_cons_of_mem i hj)
  | cons j before ih =>
      have hj : j ≠ p := by
        rintro rfl
        exact (List.nodup_cons.mp hnodup).1 (by simp)
      refine ⟨h.1, ?_⟩
      rw [Function.update_of_ne hj]
      exact ih h.2 (List.nodup_cons.mp hnodup).2

end Update

end IsChain

/-- A doubly linked list: `older` leads from the newest cell to the oldest one
and `newer` leads back. -/
structure IsDeque (older newer : ι → Option ι) (newest oldest : Option ι)
    (cells : List ι) : Prop where
  newest_eq : newest = cells.head?
  oldest_eq : oldest = cells.getLast?
  older_eq : ∀ before i after, cells = before ++ i :: after → older i = after.head?
  newer_eq : ∀ before i after, cells = before ++ i :: after → newer i = before.getLast?

namespace IsDeque

variable {older newer older' newer' : ι → Option ι} {newest oldest : Option ι}
  {cells : List ι}

theorem newerChain (h : IsDeque older newer newest oldest cells) :
    IsChain newer oldest cells.reverse := by
  refine IsChain.of_next_eq (by rw [h.oldest_eq, List.head?_reverse]) ?_
  intro before i after hsplit
  have hcells : cells = after.reverse ++ i :: before.reverse := by
    rw [← List.reverse_reverse cells, hsplit]
    simp
  rw [h.newer_eq _ _ _ hcells, List.getLast?_reverse]

theorem congr (h : IsDeque older newer newest oldest cells)
    (holder : ∀ i ∈ cells, older i = older' i)
    (hnewer : ∀ i ∈ cells, newer i = newer' i) :
    IsDeque older' newer' newest oldest cells where
  newest_eq := h.newest_eq
  oldest_eq := h.oldest_eq
  older_eq := by
    rintro before i after rfl
    rw [← holder i (by simp)]
    exact h.older_eq before i after rfl
  newer_eq := by
    rintro before i after rfl
    rw [← hnewer i (by simp)]
    exact h.newer_eq before i after rfl

theorem symm (h : IsDeque older newer newest oldest cells) :
    IsDeque newer older oldest newest cells.reverse where
  newest_eq := by rw [h.oldest_eq, List.head?_reverse]
  oldest_eq := by rw [h.newest_eq, List.getLast?_reverse]
  older_eq := by
    intro before i after hsplit
    have hcells : cells = after.reverse ++ i :: before.reverse := by
      rw [← List.reverse_reverse cells, hsplit]
      simp
    rw [h.newer_eq _ _ _ hcells, List.getLast?_reverse]
  newer_eq := by
    intro before i after hsplit
    have hcells : cells = after.reverse ++ i :: before.reverse := by
      rw [← List.reverse_reverse cells, hsplit]
      simp
    rw [h.older_eq _ _ _ hcells, List.head?_reverse]

end IsDeque

section Relink

variable [DecidableEq ι]

def relink (next : ι → Option ι) (cell : Option ι) (value : Option ι) : ι → Option ι :=
  match cell with
  | none => next
  | some j => Function.update next j value

@[simp] theorem relink_none (next : ι → Option ι) (value : Option ι) :
    relink next none value = next := rfl

@[simp] theorem relink_some (next : ι → Option ι) (j : ι) (value : Option ι) :
    relink next (some j) value = Function.update next j value := rfl

theorem relink_of_ne (next : ι → Option ι) {cell value : Option ι} {i : ι}
    (h : cell ≠ some i) : relink next cell value i = next i := by
  cases cell with
  | none => rfl
  | some j => exact Function.update_of_ne (by rintro rfl; exact h rfl) _ _

theorem relink_self (next : ι → Option ι) {cell value : Option ι} {i : ι}
    (h : cell = some i) : relink next cell value i = value := by
  subst h
  exact Function.update_self _ _ _

namespace IsDeque

variable {older newer : ι → Option ι} {newest oldest : Option ι} {cells : List ι}

theorem detach_older_eq {before after : List ι} {i : ι}
    (h : IsDeque older newer newest oldest (before ++ i :: after))
    (hnodup : (before ++ i :: after).Nodup) {first second : List ι} {j : ι}
    (hsplit : before ++ after = first ++ j :: second) :
    Function.update (relink older (newer i) (older i)) i none j = second.head? := by
  have hi : i ∉ before ++ after := (List.nodup_middle.mp hnodup |> List.nodup_cons.mp).1
  have hji : j ≠ i := by
    rintro rfl
    exact hi (by rw [hsplit]; simp)
  have hnewer : newer i = before.getLast? := h.newer_eq before i after rfl
  have holder : older i = after.head? := h.older_eq before i after rfl
  have hrest : (before ++ after).Nodup := (List.nodup_cons.mp (List.nodup_middle.mp hnodup)).2
  rw [Function.update_of_ne hji]
  rcases List.append_eq_append_iff.mp hsplit with ⟨middle, hfirst, hafter⟩ | ⟨middle, hbefore, htail⟩
  · -- the cell lies after the one taken out, so its own link is untouched
    have hj : newer i ≠ some j := by
      rw [hnewer]
      intro hlast
      have hmem : j ∈ before := List.mem_of_getLast? hlast
      have hdisjoint := List.disjoint_of_nodup_append hrest
      exact hdisjoint hmem (by rw [hafter]; simp)
    rw [relink_of_ne older hj]
    refine h.older_eq (before ++ i :: middle) j second ?_
    rw [hafter]
    simp
  · cases middle with
    | nil =>
        -- the first cell after the one taken out
        have hafter : after = j :: second := by simpa using htail.symm
        have hj : newer i ≠ some j := by
          rw [hnewer]
          intro hlast
          have hdisjoint := List.disjoint_of_nodup_append hrest
          exact hdisjoint (List.mem_of_getLast? hlast) (by rw [hafter]; simp)
        rw [relink_of_ne older hj]
        refine h.older_eq (before ++ [i]) j second ?_
        rw [hafter]
        simp
    | cons k middle =>
        obtain ⟨rfl, rfl⟩ : j = k ∧ second = middle ++ after := by
          simpa using htail
        cases middle with
        | nil =>
            -- the neighbour whose link is rewritten
            have hj : newer i = some j := by rw [hnewer, hbefore]; simp
            rw [relink_self older hj, holder]
            simp
        | cons l middle =>
            have hj : newer i ≠ some j := by
              rw [hnewer, hbefore]
              intro hlast
              have hmem : j ∈ l :: middle := by
                apply List.mem_of_getLast?
                rw [← hlast]
                simp [List.getLast?_append, List.getLast?_cons]
              rw [hbefore] at hrest
              have hk := List.nodup_append.mp (List.nodup_append.mp hrest).1
              exact (List.nodup_cons.mp hk.2.1).1 hmem
            rw [relink_of_ne older hj]
            have := h.older_eq first j (l :: middle ++ i :: after) (by rw [hbefore]; simp)
            rw [this]
            simp

theorem detach {before after : List ι} {i : ι}
    (h : IsDeque older newer newest oldest (before ++ i :: after))
    (hnodup : (before ++ i :: after).Nodup) :
    IsDeque (Function.update (relink older (newer i) (older i)) i none)
      (Function.update (relink newer (older i) (newer i)) i none)
      (if (newer i).isNone then older i else newest)
      (if (older i).isNone then newer i else oldest) (before ++ after) where
  newest_eq := by
    rw [h.newer_eq before i after rfl, h.older_eq before i after rfl, h.newest_eq]
    cases before <;> simp
  oldest_eq := by
    rw [h.newer_eq before i after rfl, h.older_eq before i after rfl, h.oldest_eq]
    cases after with
    | nil => simp
    | cons a after => simp [List.getLast?_append]
  older_eq := fun first j second hsplit ↦ h.detach_older_eq hnodup hsplit
  newer_eq := by
    intro first j second hsplit
    have hsymm := h.symm
    rw [List.reverse_append, List.reverse_cons, List.append_assoc] at hsymm
    have hreverse : after.reverse ++ before.reverse = second.reverse ++ j :: first.reverse := by
      rw [← List.reverse_append, hsplit]
      simp
    have hnodup' : (after.reverse ++ i :: before.reverse).Nodup := by
      have := List.nodup_reverse.mpr hnodup
      simpa using this
    rw [hsymm.detach_older_eq hnodup' hreverse, List.head?_reverse]

theorem pushNewest (h : IsDeque older newer newest oldest cells) {i : ι}
    (hi : i ∉ cells) :
    IsDeque (Function.update older i newest)
      (relink (Function.update newer i none) newest (some i)) (some i)
      (if oldest.isNone then some i else oldest) (i :: cells) where
  newest_eq := rfl
  oldest_eq := by
    rw [h.oldest_eq]
    cases cells <;> simp [List.getLast?_cons]
  older_eq := by
    rintro (_ | ⟨k, before⟩) j after hsplit
    · obtain ⟨rfl, rfl⟩ : i = j ∧ cells = after := by simpa using hsplit
      rw [Function.update_self, h.newest_eq]
    · obtain ⟨rfl, hcells⟩ : i = k ∧ cells = before ++ j :: after := by simpa using hsplit
      have hj : j ≠ i := by
        rintro rfl
        exact hi (by rw [hcells]; simp)
      rw [Function.update_of_ne hj]
      exact h.older_eq before j after hcells
  newer_eq := by
    rintro (_ | ⟨k, before⟩) j after hsplit
    · obtain ⟨rfl, rfl⟩ : i = j ∧ cells = after := by simpa using hsplit
      have hne : newest ≠ some i := by
        rw [h.newest_eq]
        intro hhead
        exact hi (List.mem_of_head? hhead)
      rw [relink_of_ne _ hne, Function.update_self]
      rfl
    · obtain ⟨rfl, hcells⟩ : i = k ∧ cells = before ++ j :: after := by simpa using hsplit
      have hj : j ≠ i := by
        rintro rfl
        exact hi (by rw [hcells]; simp)
      have hlink := h.newer_eq before j after hcells
      cases before with
      | nil =>
          have hnewest : newest = some j := by rw [h.newest_eq, hcells]; rfl
          rw [relink_self _ hnewest]
          rfl
      | cons l before =>
          -- a cell met twice would have two different `newer` links
          have hne : newest ≠ some j := by
            rw [h.newest_eq, hcells]
            intro hhead
            obtain rfl : l = j := by simpa using hhead
            have hfirst := h.newer_eq [] l (before ++ l :: after) (by rw [hcells]; rfl)
            rw [hlink] at hfirst
            simp [List.getLast?_cons] at hfirst
          rw [relink_of_ne _ hne, Function.update_of_ne hj, hlink]
          simp [List.getLast?_cons]

theorem pushOldest (h : IsDeque older newer newest oldest cells) {i : ι}
    (hi : i ∉ cells) :
    IsDeque (relink (Function.update older i none) oldest (some i))
      (Function.update newer i oldest) (if newest.isNone then some i else newest) (some i)
      (cells ++ [i]) := by
  have hreverse : i ∉ cells.reverse := by simpa using hi
  have := (h.symm.pushNewest hreverse).symm
  simpa using this

end IsDeque

end Relink

end OxysOS.Library
