import Mathlib.Data.List.Basic

/-!
# The components of a path

A path is reduced over a stack of its components: one of them names where it stands and is left
out, as is an empty one, and one of them names what is above it and takes the last one off.
-/

namespace OxysOS.Library

structure PathForm (α : Type*) where
  separator : α
  here : List α
  up : List α

namespace PathForm

variable {α : Type*} {form : PathForm α} {stack : List (List α)}
  {component rest path : List α}

structure Plain (form : PathForm α) (component : List α) : Prop where
  ne_nil : component ≠ []
  ne_here : component ≠ form.here
  ne_up : component ≠ form.up
  separator : form.separator ∉ component

def written (form : PathForm α) (stack : List (List α)) : List α :=
  stack.flatMap (form.separator :: ·)

@[simp] theorem written_nil (form : PathForm α) : form.written [] = [] := rfl

theorem written_append (form : PathForm α) (stack : List (List α)) (name : List α) :
    form.written (stack ++ [name]) = form.written stack ++ form.separator :: name := by
  simp [written]

theorem written_eq (form : PathForm α) (hstack : stack ≠ []) :
    form.written stack = form.separator :: [form.separator].intercalate stack := by
  induction stack with
  | nil => exact absurd rfl hstack
  | cons name stack ih =>
      by_cases hempty : stack = []
      · simp [hempty, written]
      · rw [List.intercalate_cons_of_ne_nil hempty]
        have hwritten := ih hempty
        simp only [written] at hwritten
        simp [written, hwritten]

variable [DecidableEq α]

def push (form : PathForm α) (stack : List (List α)) (component : List α) : List (List α) :=
  if component = [] ∨ component = form.here then stack
  else if component = form.up then stack.dropLast
  else stack ++ [component]

def pushAll (form : PathForm α) (stack : List (List α)) (rest : List α) : List (List α) :=
  (rest.splitOn form.separator).foldl form.push stack

def canonical (form : PathForm α) (path : List α) : List α :=
  form.separator :: [form.separator].intercalate (form.pushAll [] path)

@[simp] theorem push_nil (form : PathForm α) (stack : List (List α)) : form.push stack [] = stack := by
  simp [push]

theorem push_plain (h : form.Plain component) : form.push stack component = stack ++ [component] := by
  simp [push, h.ne_nil, h.ne_here, h.ne_up]

@[simp] theorem pushAll_nil (form : PathForm α) (stack : List (List α)) :
    form.pushAll stack [] = stack := by simp [pushAll]

@[simp] theorem pushAll_separator (form : PathForm α) (stack : List (List α)) (rest : List α) :
    form.pushAll stack (form.separator :: rest) = form.pushAll stack rest := by
  have hsplit := List.splitOn_append_cons_self (a := form.separator) [] rest
  rw [List.nil_append, List.splitOn_nil] at hsplit
  simp [pushAll, hsplit]

theorem pushAll_separators (hall : ∀ c ∈ path, c = form.separator) :
    form.pushAll stack (path ++ rest) = form.pushAll stack rest := by
  induction path with
  | nil => rfl
  | cons c path ih =>
      obtain ⟨rfl, hrest⟩ := List.forall_mem_cons.mp hall
      rw [List.cons_append, pushAll_separator, ih hrest]

theorem pushAll_component (hcomponent : form.separator ∉ component)
    (hrest : rest = [] ∨ rest.head? = some form.separator) :
    form.pushAll stack (component ++ rest) = form.pushAll (form.push stack component) rest := by
  rcases hrest with rfl | hrest
  · simp [pushAll, List.splitOn_eq_singleton hcomponent]
  · obtain ⟨rest, rfl⟩ := List.head?_eq_some_iff.mp hrest
    rw [pushAll_separator, pushAll, List.splitOn_append_cons_self_of_not_mem hcomponent]
    rfl

theorem separator_not_mem (h : component ∈ path.splitOn form.separator) :
    form.separator ∉ component := by
  induction path generalizing component with
  | nil => simp_all
  | cons c path ih =>
      rw [List.splitOn_cons_eq_if_modifyHead] at h
      by_cases hc : c = form.separator
      · rcases List.mem_cons.mp (by simpa [hc] using h) with rfl | h
        · exact List.not_mem_nil
        · exact ih h
      · cases hsplit : path.splitOn form.separator with
        | nil => simp [List.splitOn_ne_nil] at hsplit
        | cons first others =>
            rw [hsplit] at ih
            rcases List.mem_cons.mp (by simpa [hc, hsplit] using h) with rfl | h
            · simpa [eq_comm, hc] using ih (List.mem_cons_self ..)
            · exact ih (List.mem_cons_of_mem _ h)

theorem forall_plain_push (hstack : ∀ name ∈ stack, form.Plain name)
    (hcomponent : form.separator ∉ component) : ∀ name ∈ form.push stack component, form.Plain name := by
  intro name hname
  unfold push at hname
  split_ifs at hname with hempty hup
  · exact hstack name hname
  · exact hstack name (List.dropLast_subset stack hname)
  · rcases List.mem_append.mp hname with hname | hname
    · exact hstack name hname
    · obtain rfl := List.mem_singleton.mp hname
      rw [not_or] at hempty
      exact ⟨hempty.1, hempty.2, hup, hcomponent⟩

theorem forall_plain_pushAll (hstack : ∀ name ∈ stack, form.Plain name) (rest : List α) :
    ∀ name ∈ form.pushAll stack rest, form.Plain name := by
  have hall : ∀ components : List (List α), (∀ c ∈ components, form.separator ∉ c) →
      ∀ stack : List (List α), (∀ name ∈ stack, form.Plain name) →
        ∀ name ∈ components.foldl form.push stack, form.Plain name := by
    intro components
    induction components with
    | nil => exact fun _ stack hstack ↦ hstack
    | cons component components ih =>
        intro hcomponents stack hstack
        obtain ⟨hfirst, hrest⟩ := List.forall_mem_cons.mp hcomponents
        exact ih hrest _ (forall_plain_push hstack hfirst)
  refine hall _ (fun component hcomponent hseparator ↦ ?_) stack hstack
  exact separator_not_mem hcomponent hseparator

theorem forall_plain_stack (form : PathForm α) (path : List α) :
    ∀ name ∈ form.pushAll [] path, form.Plain name :=
  forall_plain_pushAll (List.forall_mem_nil _) path

theorem foldl_push_plain (hstack : ∀ name ∈ stack, form.Plain name) (before : List (List α)) :
    stack.foldl form.push before = before ++ stack := by
  induction stack generalizing before with
  | nil => simp
  | cons name stack ih =>
      obtain ⟨hname, hstack⟩ := List.forall_mem_cons.mp hstack
      rw [List.foldl_cons, push_plain hname, ih hstack, List.append_assoc]
      rfl

theorem canonical_canonical (form : PathForm α) (path : List α) :
    form.canonical (form.canonical path) = form.canonical path := by
  have hplain := forall_plain_stack form path
  unfold canonical
  rw [pushAll_separator]
  congr 2
  generalize form.pushAll [] path = stack at hplain ⊢
  by_cases hempty : stack = []
  · simp [hempty, pushAll, List.intercalate_nil]
  · rw [pushAll, List.splitOn_intercalate _ (fun name hname ↦ (hplain name hname).separator) hempty,
      foldl_push_plain hplain, List.nil_append]

theorem canonical_eq (form : PathForm α) (path : List α) : form.canonical path =
    if form.pushAll [] path = [] then [form.separator] else form.written (form.pushAll [] path) := by
  split_ifs with hempty
  · simp [canonical, hempty, List.intercalate_nil]
  · exact (written_eq form hempty).symm

end PathForm

end OxysOS.Library
