import Mathlib.Algebra.Order.Group.Nat

/-!
# Named blocks of settings

A text of headers and settings, as a list of marks.  Blocks of one name may be
repeated, and those of them that hold a setting are told apart by their order.
-/

namespace OxysOS.Library

inductive Mark (ν κ β : Type*)
  | header (name : ν)
  | setting (key : κ) (value : β)

namespace Mark

variable {ν κ β : Type*} {marks rest : List (Mark ν κ β)}
  {name other : ν} {key : κ} {value : β} {before after : List (κ × β)}

def leading : List (Mark ν κ β) → List (κ × β)
  | [] => []
  | header _ :: _ => []
  | setting key value :: marks => (key, value) :: leading marks

def named [DecidableEq ν] (name : ν) : List (Mark ν κ β) → List (List (κ × β))
  | [] => []
  | header other :: marks =>
      if other = name ∧ leading marks ≠ [] then leading marks :: named name marks
      else named name marks
  | setting _ _ :: marks => named name marks

def lookup [DecidableEq κ] (key : κ) (settings : List (κ × β)) : Option β :=
  (settings.find? fun setting ↦ setting.1 = key).map Prod.snd

def valueOf [DecidableEq ν] [DecidableEq κ] (marks : List (Mark ν κ β)) (name : ν) (occurrence : ℕ) (key : κ) : Option β :=
  (named name marks)[occurrence]?.bind (lookup key)

def ofSettings (settings : List (κ × β)) : List (Mark ν κ β) :=
  settings.map fun entry ↦ setting entry.1 entry.2

theorem named_append_header [DecidableEq ν] (marks rest : List (Mark ν κ β)) (name other : ν) :
    named name (marks ++ header other :: rest) =
      named name marks ++ named name (header other :: rest) := by
  have hleading : ∀ marks : List (Mark ν κ β),
      leading (marks ++ header other :: rest) = leading marks := by
    intro marks
    induction marks with
    | nil => rfl
    | cons mark marks ih =>
        cases mark with
        | header _ => rfl
        | setting key value => exact congrArg ((key, value) :: ·) ih
  induction marks with
  | nil => rfl
  | cons mark marks ih =>
      cases mark with
      | header first =>
          rw [List.cons_append]
          conv_lhs => unfold named
          conv_rhs => arg 1; unfold named
          rw [hleading, ih]
          split <;> rfl
      | setting key value => exact ih

theorem leading_ofSettings (settings : List (κ × β)) (rest : List (Mark ν κ β)) :
    leading (ofSettings settings ++ rest) = settings ++ leading rest := by
  induction settings with
  | nil => rfl
  | cons entry settings ih => exact congrArg (entry :: ·) ih

theorem named_ofSettings [DecidableEq ν] (name : ν) (settings : List (κ × β)) (rest : List (Mark ν κ β)) :
    named name (ofSettings settings ++ rest) = named name rest := by
  induction settings with
  | nil => rfl
  | cons entry settings ih => exact ih

theorem named_block [DecidableEq ν] (marks rest : List (Mark ν κ β)) (name other : ν) (settings : List (κ × β)) :
    named name (marks ++ header other :: (ofSettings settings ++ rest)) =
      named name marks ++
        ((if other = name ∧ settings ++ leading rest ≠ [] then [settings ++ leading rest] else []) ++
          named name rest) := by
  rw [named_append_header]
  congr 1
  conv_lhs => unfold named
  rw [leading_ofSettings, named_ofSettings]
  split <;> rfl

theorem named_last [DecidableEq ν] (marks : List (Mark ν κ β)) (name other : ν)
    (settings : List (κ × β)) :
    named name (marks ++ header other :: ofSettings settings) =
      named name marks ++ if other = name ∧ settings ≠ [] then [settings] else [] := by
  have hblock := named_block marks [] name other settings
  rwa [List.append_nil, show leading ([] : List (Mark ν κ β)) = [] from rfl, List.append_nil,
    show named name ([] : List (Mark ν κ β)) = [] from rfl, List.append_nil] at hblock

theorem named_only (name : ν) [DecidableEq ν] (settings : List (κ × β)) :
    named name (ofSettings settings) = [] := by
  have hnamed := named_ofSettings name settings []
  rwa [List.append_nil] at hnamed

theorem lookup_append [DecidableEq κ] (key other : κ) (settings : List (κ × β)) (value : β) :
    lookup key (settings ++ [(other, value)]) =
      (lookup key settings).or (if other = key then some value else none) := by
  unfold lookup
  rw [List.find?_append]
  cases settings.find? fun setting ↦ setting.1 = key with
  | some setting => rfl
  | none =>
      by_cases hother : other = key
      · simp [hother]
      · simp [hother]

theorem lookup_append_list [DecidableEq κ] (key : κ) (first second : List (κ × β)) :
    lookup key (first ++ second) = (lookup key first).or (lookup key second) := by
  unfold lookup
  rw [List.find?_append]
  cases first.find? fun setting ↦ setting.1 = key <;> rfl

def opened [DecidableEq ν] (name : ν) : List (Mark ν κ β) → ℕ
  | [] => 0
  | header other :: marks => (if other = name then 1 else 0) + opened name marks
  | setting _ _ :: marks => opened name marks

def EachHolds (name : ν) (marks : List (Mark ν κ β)) : Prop :=
  ∀ before after, marks = before ++ header name :: after → leading after ≠ []

theorem opened_append [DecidableEq ν] (name : ν) (marks rest : List (Mark ν κ β)) :
    opened name (marks ++ rest) = opened name marks + opened name rest := by
  induction marks with
  | nil => simp [opened]
  | cons mark marks ih =>
      cases mark with
      | header other => simp [opened, ih, Nat.add_assoc]
      | setting key value => simpa [opened] using ih

theorem opened_ofSettings [DecidableEq ν] (name : ν) (settings : List (κ × β)) :
    opened name (ofSettings settings) = 0 := by
  induction settings with
  | nil => rfl
  | cons entry settings ih => simpa [ofSettings, opened] using ih

theorem eachHolds_cons (name : ν) (mark : Mark ν κ β) (marks : List (Mark ν κ β)) :
    EachHolds name (mark :: marks) ↔
      (mark = header name → leading marks ≠ []) ∧ EachHolds name marks := by
  constructor
  · intro h
    refine ⟨fun hmark ↦ h [] marks (by rw [hmark]; rfl), fun before after hmarks ↦ ?_⟩
    exact h (mark :: before) after (by rw [hmarks]; rfl)
  · rintro ⟨hfirst, hrest⟩ before after hmarks
    cases before with
    | nil =>
        obtain ⟨hmark, rfl⟩ := List.cons.inj hmarks
        exact hfirst hmark
    | cons first before => exact hrest before after (List.cons.inj hmarks).2

theorem length_named_le [DecidableEq ν] (name : ν) (marks : List (Mark ν κ β)) :
    (named name marks).length ≤ opened name marks := by
  induction marks with
  | nil => simp [named, opened]
  | cons mark marks ih =>
      cases mark with
      | header other =>
          simp only [named, opened]
          split_ifs with hnamed hother <;> simp_all <;> omega
      | setting key value => simpa [named, opened] using ih

theorem length_named_eq_iff [DecidableEq ν] (name : ν) (marks : List (Mark ν κ β)) :
    (named name marks).length = opened name marks ↔ EachHolds name marks := by
  induction marks with
  | nil => simp [named, opened, EachHolds]
  | cons mark marks ih =>
      have hle := length_named_le name marks
      rw [eachHolds_cons, ← ih]
      cases mark with
      | header other =>
          simp only [named, opened, header.injEq]
          by_cases hother : other = name
          · by_cases hempty : leading marks = []
            · simp [hother, hempty]
              omega
            · simp [hother, hempty]
              omega
          · simp [hother]
      | setting key value => simp [named, opened]

section Values

variable [DecidableEq ν] [DecidableEq κ]

theorem valueOf_other (marks : List (Mark ν κ β)) (before after : List (κ × β))
    (rest : List (Mark ν κ β)) (hother : other ≠ name) (occurrence : ℕ) (key : κ) :
    valueOf (marks ++ header other :: (ofSettings before ++ rest)) name occurrence key =
      valueOf (marks ++ header other :: (ofSettings after ++ rest)) name occurrence key := by
  unfold valueOf
  rw [named_block, named_block, if_neg fun h ↦ hother h.1, if_neg fun h ↦ hother h.1]

theorem valueOf_here (marks : List (Mark ν κ β)) (name : ν) (before : List (κ × β))
    (rest : List (Mark ν κ β)) (key : κ)
    (hkept : named name rest = [] ∨ before ++ leading rest ≠ []) :
    valueOf (marks ++ header name :: (ofSettings before ++ rest)) name (named name marks).length
      key = lookup key (before ++ leading rest) := by
  unfold valueOf
  rw [named_block, List.getElem?_append_right le_rfl, Nat.sub_self]
  by_cases hempty : before ++ leading rest = []
  · rw [if_neg fun h ↦ h.2 hempty, hkept.resolve_right fun h ↦ h hempty, hempty]
    rfl
  · rw [if_pos ⟨rfl, hempty⟩]
    rfl

theorem valueOf_elsewhere (before after : List (κ × β)) (rest : List (Mark ν κ β))
    {occurrence : ℕ} (hne : occurrence ≠ (named name marks).length) (key : κ)
    (hkept : named name rest = [] ∨ before ++ leading rest ≠ [] ∧ after ++ leading rest ≠ []) :
    valueOf (marks ++ header name :: (ofSettings before ++ rest)) name occurrence key =
      valueOf (marks ++ header name :: (ofSettings after ++ rest)) name occurrence key := by
  unfold valueOf
  rw [named_block, named_block]
  rcases lt_or_gt_of_ne hne with hlt | hgt
  · rw [List.getElem?_append_left hlt, List.getElem?_append_left hlt]
  · obtain ⟨place, hplace⟩ : ∃ place, occurrence - (named name marks).length = place + 1 :=
      ⟨occurrence - (named name marks).length - 1, by omega⟩
    rw [List.getElem?_append_right hgt.le, List.getElem?_append_right hgt.le, hplace]
    rcases hkept with hlast | ⟨hbefore, hafter⟩
    · have hnone : ∀ settings : List (κ × β), ((if name = name ∧ settings ≠ [] then [settings]
          else []) ++ named name rest)[place + 1]? = none := by
        intro settings
        rw [hlast]
        split <;> rfl
      rw [hnone, hnone]
    · rw [if_pos ⟨rfl, hbefore⟩, if_pos ⟨rfl, hafter⟩]
      rfl

theorem valueOf_edit {occurrence : ℕ} (hplace : (named name marks).length = occurrence)
    (hkept : named name rest = [] ∨ before ++ leading rest ≠ [] ∧ after ++ leading rest ≠ [])
    (hothers : ∀ other, other ≠ key →
      lookup other (after ++ leading rest) = lookup other (before ++ leading rest)) :
    valueOf (marks ++ header name :: (ofSettings after ++ rest)) name occurrence key =
        lookup key (after ++ leading rest) ∧
      ∀ name' occurrence' key', ¬(name' = name ∧ occurrence' = occurrence ∧ key' = key) →
        valueOf (marks ++ header name :: (ofSettings after ++ rest)) name' occurrence' key' =
          valueOf (marks ++ header name :: (ofSettings before ++ rest)) name' occurrence' key' := by
  subst hplace
  refine ⟨valueOf_here _ _ _ _ key (hkept.imp_right And.right), fun name' occurrence' key' hne ↦ ?_⟩
  by_cases hname : name' = name
  · subst hname
    by_cases hoccurrence : occurrence' = (named name' marks).length
    · subst hoccurrence
      rw [valueOf_here _ _ _ _ key' (hkept.imp_right And.right),
        valueOf_here _ _ _ _ key' (hkept.imp_right And.left)]
      exact hothers key' fun hkey ↦ hne ⟨rfl, rfl, hkey⟩
    · exact valueOf_elsewhere _ _ _ hoccurrence key' (hkept.imp_right And.symm)
  · exact valueOf_other _ _ _ _ (fun heq ↦ hname heq.symm) occurrence' key'

theorem valueOf_last (marks : List (Mark ν κ β)) (name : ν) (settings : List (κ × β)) (key : κ) :
    valueOf (marks ++ header name :: ofSettings settings) name (named name marks).length key =
      lookup key settings := by
  have hhere := valueOf_here marks name settings [] key (Or.inl rfl)
  rwa [List.append_nil, show leading ([] : List (Mark ν κ β)) = [] from rfl,
    List.append_nil] at hhere

theorem valueOf_not_last {occurrence : ℕ} (hne : ¬(other = name ∧
      occurrence = (named name marks).length)) (before after : List (κ × β)) (key : κ) :
    valueOf (marks ++ header name :: ofSettings before) other occurrence key =
      valueOf (marks ++ header name :: ofSettings after) other occurrence key := by
  by_cases hname : other = name
  · subst hname
    have helsewhere := valueOf_elsewhere before after []
      (fun hoccurrence ↦ hne ⟨rfl, hoccurrence⟩) key (Or.inl rfl)
    rwa [List.append_nil, List.append_nil] at helsewhere
  · have hother := valueOf_other marks before after []
      (fun heq : name = other ↦ hname heq.symm) occurrence key
    rwa [List.append_nil, List.append_nil] at hother

end Values

end Mark

end OxysOS.Library
