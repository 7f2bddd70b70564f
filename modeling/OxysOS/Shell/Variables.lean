import OxysOS.Shell.Parser
import Mathlib.Logic.Function.Basic
import Mathlib.Data.List.Nodup
import Mathlib.Logic.Relation

/-!
# The shell's variables

`userland/sh/variables.c`: a table of slots, of which a used one holds a name, its value
and whether it is exported.  The table is a function from names to values, some exported.
No name is in two slots, so that each operation changes what is known of its own name and
of no other.
-/

namespace OxysOS.Shell

open OxysOS.Library

def shellValueMaximum : ℕ := 255

def shellVariableMaximum : ℕ := 64

structure ShellVariable where
  used : Bool := false
  exported : Bool := false
  name : List UInt8 := []
  value : List UInt8 := []
  deriving DecidableEq

abbrev ShellVariables := List ShellVariable

def shellVariablesInitialise : ShellVariables := List.replicate shellVariableMaximum {}

def ShellVariable.Named (name : List UInt8) (variable' : ShellVariable) : Bool :=
  variable'.used ∧ variable'.name = name

def changeFirst (p : ShellVariable → Bool) (f : ShellVariable → ShellVariable) :
    ShellVariables → Option ShellVariables
  | [] => none
  | slot :: slots =>
      if p slot then some (f slot :: slots) else (changeFirst p f slots).map (slot :: ·)

def shellVariableFind (table : ShellVariables) (name : List UInt8) : Option ShellVariable :=
  table.find? (ShellVariable.Named name)

/-- `ShellVariableSet`.  There is no table where it refuses. -/
def shellVariableSet (table : ShellVariables) (name value : List UInt8) : Option ShellVariables :=
  if ¬shellIsName name ∨ value.length > shellValueMaximum then none
  else match changeFirst (ShellVariable.Named name) (fun slot ↦ { slot with value }) table with
    | some table => some table
    | none => changeFirst (fun slot ↦ !slot.used)
        (fun _ ↦ { used := true, exported := false, name, value }) table

def shellVariableGet (table : ShellVariables) (name : List UInt8) : Option (List UInt8) :=
  (shellVariableFind table name).map ShellVariable.value

def shellVariableExport (table : ShellVariables) (name : List UInt8) : Option ShellVariables :=
  let mark := changeFirst (ShellVariable.Named name) fun slot ↦ { slot with exported := true }
  match shellVariableFind table name with
  | some _ => mark table
  | none => (shellVariableSet table name []).bind mark

def shellVariableCount (table : ShellVariables) : ℕ := table.countP ShellVariable.used

def shellVariableAt (table : ShellVariables) (position : ℕ) : Option ShellVariable :=
  (table.filter ShellVariable.used)[position]?

def shellVariableUnset (table : ShellVariables) (name : List UInt8) : Option ShellVariables :=
  changeFirst (ShellVariable.Named name) (fun _ ↦ {}) table

end OxysOS.Shell

namespace OxysOS.Shell

open OxysOS.Library

variable {table table' : ShellVariables} {name other value : List UInt8} {slot : ShellVariable}
  {p : ShellVariable → Bool} {f : ShellVariable → ShellVariable}

theorem changeFirst_eq_some (h : changeFirst p f table = some table') :
    ∃ before slot after, table = before ++ slot :: after ∧ p slot ∧ (∀ s ∈ before, ¬p s) ∧
      table' = before ++ f slot :: after := by
  induction table generalizing table' with
  | nil => cases h
  | cons first slots ih =>
      rw [changeFirst] at h
      split at h
      · next hfirst =>
        cases h
        exact ⟨[], first, slots, rfl, hfirst, (fun _ hmem ↦ nomatch hmem), rfl⟩
      · next hfirst =>
        obtain ⟨changed, hchanged, rfl⟩ := Option.map_eq_some_iff.mp h
        obtain ⟨before, slot, after, rfl, hslot, hbefore, rfl⟩ := ih hchanged
        refine ⟨first :: before, slot, after, rfl, hslot, fun s hs ↦ ?_, rfl⟩
        rcases List.mem_cons.mp hs with rfl | hs
        · exact hfirst
        · exact hbefore s hs

theorem changeFirst_eq_none_iff : changeFirst p f table = none ↔ ∀ slot ∈ table, ¬p slot := by
  induction table with
  | nil => simp [changeFirst]
  | cons first slots ih => by_cases hfirst : p first <;> simp_all [changeFirst]

theorem named_iff : ShellVariable.Named name slot ↔ slot.used ∧ slot.name = name := by
  simp [ShellVariable.Named]

theorem shellVariableFind_eq_none_iff :
    shellVariableFind table name = none ↔ ∀ slot ∈ table, ¬ShellVariable.Named name slot :=
  List.find?_eq_none

theorem find_changeFirst_self (hkept : ∀ slot, p slot → ShellVariable.Named name (f slot))
    (hbefore : ∀ slot ∈ table, ShellVariable.Named name slot → p slot)
    (h : changeFirst p f table = some table') :
    ∃ slot, table.find? p = some slot ∧ shellVariableFind table' name = some (f slot) := by
  obtain ⟨before, slot, after, rfl, hslot, hothers, rfl⟩ := changeFirst_eq_some h
  have hnone : before.find? p = none := List.find?_eq_none.mpr hothers
  have hnone' : before.find? (ShellVariable.Named name) = none := by
    apply List.find?_eq_none.mpr
    intro s hs hnamed
    exact hothers s hs (hbefore s (List.mem_append_left _ hs) hnamed)
  refine ⟨slot, ?_, ?_⟩
  · rw [List.find?_append, hnone, Option.none_or]
    exact List.find?_cons_of_pos hslot
  · rw [shellVariableFind, List.find?_append, hnone', Option.none_or]
    exact List.find?_cons_of_pos (hkept slot hslot)

theorem find_changeFirst_of_not (h : changeFirst p f table = some table')
    (hnot : ∀ slot, p slot → ¬ShellVariable.Named name slot ∧ ¬ShellVariable.Named name (f slot)) :
    shellVariableFind table' name = shellVariableFind table name := by
  obtain ⟨before, slot, after, rfl, hslot, -, rfl⟩ := changeFirst_eq_some h
  obtain ⟨hold, hnew⟩ := hnot slot hslot
  rw [shellVariableFind, shellVariableFind, List.find?_append, List.find?_append,
    List.find?_cons_of_neg hold, List.find?_cons_of_neg hnew]

def shellNames (table : ShellVariables) : List (List UInt8) :=
  (table.filter ShellVariable.used).map ShellVariable.name

structure Kept (table : ShellVariables) : Prop where
  nodup : (shellNames table).Nodup
  fits : ∀ slot ∈ table, slot.used → shellIsName slot.name ∧ slot.value.length ≤ shellValueMaximum

theorem kept_initialise : Kept shellVariablesInitialise := by
  have hunused : ∀ slot ∈ shellVariablesInitialise, slot.used = false := by
    intro slot hslot
    rw [List.eq_of_mem_replicate hslot]
  refine ⟨?_, fun slot hslot hused ↦ ?_⟩
  · have hfilter : shellVariablesInitialise.filter ShellVariable.used = [] := by
      apply List.filter_eq_nil_iff.mpr
      intro slot hslot
      simp [hunused slot hslot]
    rw [shellNames, hfilter]
    exact List.nodup_nil
  · rw [hunused slot hslot] at hused
    cases hused

theorem mem_shellNames : name ∈ shellNames table ↔ ∃ slot ∈ table, ShellVariable.Named name slot := by
  simp [shellNames, named_iff, and_assoc]

theorem Kept.changeFirst (hkept : Kept table) (h : changeFirst p f table = some table')
    (hname : ∀ slot ∈ table, p slot → (f slot).used →
      (slot.used ∧ (f slot).name = slot.name) ∨ (f slot).name ∉ shellNames table)
    (hfits : ∀ slot ∈ table, p slot → (f slot).used →
      shellIsName (f slot).name ∧ (f slot).value.length ≤ shellValueMaximum) : Kept table' := by
  obtain ⟨before, slot, after, rfl, hslot, -, rfl⟩ := changeFirst_eq_some h
  have hmem : slot ∈ before ++ slot :: after := List.mem_append_right _ List.mem_cons_self
  refine ⟨?_, fun s hs hused ↦ ?_⟩
  · have hnodup := hkept.nodup
    have hname := hname slot hmem hslot
    simp only [shellNames, List.filter_append, List.map_append, List.filter_cons] at hnodup hname ⊢
    have hrest : ((before.filter ShellVariable.used).map ShellVariable.name ++
        (after.filter ShellVariable.used).map ShellVariable.name).Nodup := by
      by_cases hused : slot.used
      · rw [if_pos hused, List.map_cons] at hnodup
        exact (List.nodup_middle.mp hnodup).of_cons
      · rwa [if_neg hused] at hnodup
    by_cases hused' : (f slot).used
    · rw [if_pos hused', List.map_cons, List.nodup_middle, List.nodup_cons]
      refine ⟨?_, hrest⟩
      rcases hname hused' with ⟨hused, hsame⟩ | hnew
      · rw [if_pos hused, List.map_cons] at hnodup
        rw [hsame]
        exact (List.nodup_cons.mp (List.nodup_middle.mp hnodup)).1
      · intro hbefore
        apply hnew
        rcases List.mem_append.mp hbefore with hbefore | hafter
        · exact List.mem_append_left _ hbefore
        · apply List.mem_append_right
          split
          · exact List.mem_cons_of_mem _ hafter
          · exact hafter
    · rwa [if_neg hused']
  · rcases List.mem_append.mp hs with hbefore | hafter
    · exact hkept.fits s (List.mem_append_left _ hbefore) hused
    · rcases List.mem_cons.mp hafter with rfl | hafter
      · exact hfits slot hmem hslot hused
      · exact hkept.fits s (List.mem_append_right _ (List.mem_cons_of_mem _ hafter)) hused

abbrev ShellScope := List UInt8 → Option (List UInt8 × Bool)

def scopeOf (table : ShellVariables) : ShellScope := fun name ↦
  (shellVariableFind table name).map fun slot ↦ (slot.value, slot.exported)

def ShellScope.set (scope : ShellScope) (name value : List UInt8) : ShellScope :=
  Function.update scope name (some (value, (scope name).any Prod.snd))

def ShellScope.export (scope : ShellScope) (name : List UInt8) : ShellScope :=
  Function.update scope name (some (((scope name).map Prod.fst).getD [], true))

def ShellScope.unset (scope : ShellScope) (name : List UInt8) : ShellScope :=
  Function.update scope name none

theorem scopeOf_initialise : scopeOf shellVariablesInitialise = fun _ ↦ none := by
  funext name
  have hnone : shellVariableFind shellVariablesInitialise name = none := by
    apply shellVariableFind_eq_none_iff.mpr
    intro slot hslot
    rw [List.eq_of_mem_replicate hslot]
    exact Bool.false_ne_true
  simp [scopeOf, hnone]

theorem scopeOf_eq_update {known : Option (List UInt8 × Bool)}
    (hself : (shellVariableFind table' name).map (fun slot ↦ (slot.value, slot.exported)) = known)
    (hother : ∀ other, other ≠ name → shellVariableFind table' other = shellVariableFind table other) :
    scopeOf table' = Function.update (scopeOf table) name known := by
  funext other
  by_cases hname : other = name
  · subst hname
    rw [Function.update_self]
    exact hself
  · rw [Function.update_of_ne hname, scopeOf, scopeOf, hother other hname]

theorem find_of_named (hkept : Kept table) (hslot : slot ∈ table)
    (hnamed : ShellVariable.Named name slot) : shellVariableFind table name = some slot := by
  cases hfind : shellVariableFind table name with
  | none => exact absurd hnamed (shellVariableFind_eq_none_iff.mp hfind slot hslot)
  | some found =>
      have hfound := List.mem_of_find?_eq_some hfind
      obtain ⟨hused, hname⟩ := named_iff.mp hnamed
      obtain ⟨hused', hname'⟩ := named_iff.mp (List.find?_some hfind)
      have hin : ∀ {s : ShellVariable}, s ∈ table → s.used → s ∈ table.filter ShellVariable.used :=
        fun hs hu ↦ List.mem_filter.mpr ⟨hs, hu⟩
      rw [List.inj_on_of_nodup_map hkept.nodup (hin hfound hused') (hin hslot hused)
        (hname'.trans hname.symm)]

theorem not_named_of_ne (hne : other ≠ name) (hnamed : ShellVariable.Named name slot) :
    ¬ShellVariable.Named other slot := fun hother ↦
  hne ((named_iff.mp hother).2.symm.trans (named_iff.mp hnamed).2)

theorem scopeOf_changeFirst_named (h : changeFirst (ShellVariable.Named name) f table = some table')
    (hf : ∀ slot, (f slot).used = slot.used ∧ (f slot).name = slot.name) :
    ∃ slot, shellVariableFind table name = some slot ∧
      scopeOf table' = Function.update (scopeOf table) name (some ((f slot).value, (f slot).exported)) := by
  have hnamed : ∀ slot, ShellVariable.Named name slot → ShellVariable.Named name (f slot) := by
    intro slot hslot
    rw [named_iff, (hf slot).1, (hf slot).2]
    exact named_iff.mp hslot
  obtain ⟨slot, hfound, hfound'⟩ := find_changeFirst_self hnamed (fun slot _ hslot ↦ hslot) h
  refine ⟨slot, hfound, scopeOf_eq_update (by rw [hfound']; rfl) fun other hne ↦ ?_⟩
  apply find_changeFirst_of_not h
  intro slot hslot
  exact ⟨not_named_of_ne hne hslot, not_named_of_ne hne (hnamed slot hslot)⟩

theorem scopeOf_set (h : shellVariableSet table name value = some table') :
    scopeOf table' = (scopeOf table).set name value := by
  unfold shellVariableSet at h
  split at h
  · cases h
  split at h
  · next changed hchanged =>
    cases h
    obtain ⟨slot, hfound, hscope⟩ := scopeOf_changeFirst_named hchanged fun slot ↦ ⟨rfl, rfl⟩
    rw [hscope, ShellScope.set, scopeOf, hfound]
    rfl
  · next hnone =>
    have hfree : shellVariableFind table name = none :=
      shellVariableFind_eq_none_iff.mpr (changeFirst_eq_none_iff.mp hnone)
    have hunused : ∀ {other} {slot : ShellVariable}, !slot.used → ¬ShellVariable.Named other slot := by
      intro other slot hslot hnamed
      rw [(named_iff.mp hnamed).1] at hslot
      cases hslot
    have hnew : ShellVariable.Named name ⟨true, false, name, value⟩ := named_iff.mpr ⟨rfl, rfl⟩
    obtain ⟨slot, -, hfound⟩ := find_changeFirst_self (fun _ _ ↦ hnew)
      (fun slot hslot hnamed ↦ absurd hnamed (shellVariableFind_eq_none_iff.mp hfree slot hslot)) h
    refine scopeOf_eq_update ?_ fun other hne ↦ ?_
    · rw [hfound, scopeOf, hfree]
      rfl
    · apply find_changeFirst_of_not h
      intro slot hslot
      exact ⟨hunused hslot, not_named_of_ne hne hnew⟩

theorem scopeOf_export (h : shellVariableExport table name = some table') :
    scopeOf table' = (scopeOf table).export name := by
  unfold shellVariableExport at h
  dsimp only at h
  split at h
  · obtain ⟨slot, hfound, hscope⟩ := scopeOf_changeFirst_named h fun slot ↦ ⟨rfl, rfl⟩
    rw [hscope, ShellScope.export, scopeOf, hfound]
    rfl
  · next hfree =>
    obtain ⟨set, hset, hmark⟩ := Option.bind_eq_some_iff.mp h
    obtain ⟨slot, hfound, hscope⟩ := scopeOf_changeFirst_named hmark fun slot ↦ ⟨rfl, rfl⟩
    have hvalue : scopeOf set name = some ([], false) := by
      rw [scopeOf_set hset, ShellScope.set, Function.update_self, scopeOf, hfree]
      rfl
    rw [scopeOf, hfound, Option.map_some, Option.some_inj, Prod.mk.injEq] at hvalue
    rw [hscope, scopeOf_set hset, ShellScope.set, ShellScope.export, Function.update_idem, scopeOf,
      hfree, hvalue.1]
    rfl

theorem scopeOf_unset (hkept : Kept table) (h : shellVariableUnset table name = some table') :
    scopeOf table' = (scopeOf table).unset name := by
  have hempty : ∀ {other}, ¬ShellVariable.Named other {} := fun hnamed ↦ nomatch (named_iff.mp hnamed).1
  refine scopeOf_eq_update ?_ fun other hne ↦ ?_
  · rw [Option.map_eq_none_iff, shellVariableFind_eq_none_iff]
    obtain ⟨before, slot, after, rfl, hslot, hothers, rfl⟩ := changeFirst_eq_some h
    obtain ⟨hused, hname⟩ := named_iff.mp hslot
    intro s hs hnamed
    rcases List.mem_append.mp hs with hbefore | hafter
    · exact hothers s hbefore hnamed
    · rcases List.mem_cons.mp hafter with rfl | hafter
      · exact hempty hnamed
      · have hnodup := hkept.nodup
        rw [shellNames, List.filter_append, List.filter_cons_of_pos hused, List.map_append,
          List.map_cons, hname] at hnodup
        have hnot := (List.nodup_cons.mp (List.nodup_middle.mp hnodup)).1
        obtain ⟨hused', hname'⟩ := named_iff.mp hnamed
        apply hnot
        apply List.mem_append_right
        exact List.mem_map.mpr ⟨s, List.mem_filter.mpr ⟨hafter, hused'⟩, hname'⟩
  · apply find_changeFirst_of_not h
    intro slot hslot
    exact ⟨not_named_of_ne hne hslot, hempty⟩

def Sets : ShellVariables → ShellVariables → Prop :=
  Relation.ReflTransGen fun table table' ↦ ∃ name value, shellVariableSet table name value = some table'

theorem kept_set (hkept : Kept table) (h : shellVariableSet table name value = some table') :
    Kept table' := by
  unfold shellVariableSet at h
  split at h
  · cases h
  next hgranted =>
  obtain ⟨hname, hvalue⟩ := not_or.mp hgranted
  split at h
  · next changed hchanged =>
    cases h
    apply hkept.changeFirst hchanged
    · exact fun slot _ hslot _ ↦ Or.inl ⟨(named_iff.mp hslot).1, rfl⟩
    · intro slot hslot hnamed _
      exact ⟨(hkept.fits slot hslot (named_iff.mp hnamed).1).1, not_lt.mp hvalue⟩
  · next hnone =>
    apply hkept.changeFirst h
    · refine fun slot _ _ _ ↦ Or.inr fun hmem ↦ ?_
      obtain ⟨found, hfound, hnamed⟩ := mem_shellNames.mp hmem
      exact changeFirst_eq_none_iff.mp hnone found hfound hnamed
    · exact fun slot _ _ _ ↦ ⟨not_not.mp hname, not_lt.mp hvalue⟩

theorem kept_mark (hkept : Kept table) (h : changeFirst (ShellVariable.Named name)
      (fun slot ↦ { slot with exported := true }) table = some table') : Kept table' := by
  apply hkept.changeFirst h
  · exact fun slot _ hslot _ ↦ Or.inl ⟨(named_iff.mp hslot).1, rfl⟩
  · exact fun slot hslot hnamed _ ↦ hkept.fits slot hslot (named_iff.mp hnamed).1

theorem kept_export (hkept : Kept table) (h : shellVariableExport table name = some table') :
    Kept table' := by
  unfold shellVariableExport at h
  dsimp only at h
  split at h
  · exact kept_mark hkept h
  · obtain ⟨set, hset, hmark⟩ := Option.bind_eq_some_iff.mp h
    exact kept_mark (kept_set hkept hset) hmark

theorem kept_unset (hkept : Kept table) (h : shellVariableUnset table name = some table') :
    Kept table' := by
  apply hkept.changeFirst h
  · exact fun slot _ _ hused ↦ nomatch hused
  · exact fun slot _ _ hused ↦ nomatch hused

end OxysOS.Shell
