import OxysOS.Libc.ConfigEdited

/-!
# An edited text reads back as edited

What a successful edit makes of the lines of a text, what the parser reads in
them, and the text that a refused edit leaves.
-/

namespace OxysOS.Libc

open OxysOS.Library

variable {raws before body rest first between later inserted front back : List (List UInt8)}
  {text sectionName key raw header : List UInt8} {occurrence capacity : ℕ}
  {value : Option (List UInt8)}

theorem IsLines.eq_nil (h : IsLines raws) (hflatten : raws.flatten = []) : raws = [] := by
  cases h with
  | nil => rfl
  | last line hne hline =>
      rw [List.flatten_singleton] at hflatten
      exact absurd hflatten hne
  | cons raw raws hraw hraws =>
      obtain ⟨line, rfl, hline⟩ := hraw
      simp at hflatten

structure BlockEdited (key : List UInt8) (value : Option (List UInt8)) (body : List (List UInt8))
    (settings : List (List UInt8 × List UInt8)) where
  first : List (List UInt8)
  between : List (List UInt8)
  later : List (List UInt8)
  lines : body = first ++ (between ++ later)
  unset : ∀ raw ∈ first, editSets key raw = none
  sets : ∀ raw ∈ between, (editSets key raw).isSome = true
  erased : value = none → first ++ later = body.eraseP fun raw ↦ (editSets key raw).isSome
  settings_eq : settings = settingsOf first ++
    ((value.map fun value ↦ (configFold key, value)).toList ++ settingsOf later)

theorem settingsOf_setting {name given : List UInt8}
    (h : lineMark (lineOf raw) = some (.setting name given)) : settingsOf [raw] = [(name, given)] := by
  unfold settingsOf
  rw [marksOf_cons, h]
  rfl

theorem settings_between (hkey : PlainKey key) (hwithin : ∀ raw ∈ between, opens raw = false)
    (hsets : ∀ raw ∈ between, (editSets key raw).isSome = true) :
    ∀ entry ∈ settingsOf between, entry.1 = configFold key := by
  induction between with
  | nil => nofun
  | cons raw between ih =>
      have hraw : ∀ line ∈ [raw], opens line = false := fun line hline ↦
        List.mem_singleton.mp hline ▸ hwithin raw List.mem_cons_self
      rw [← List.singleton_append, settingsOf_append hraw]
      intro entry hentry
      rcases List.mem_append.mp hentry with hentry | hentry
      · obtain ⟨kept, hkept⟩ := Option.isSome_iff_exists.mp (hsets raw List.mem_cons_self)
        rcases lineMark_sets hkey hkept with hnone | ⟨value, hsome⟩
        · unfold settingsOf at hentry
          rw [marksOf_cons, hnone] at hentry
          exact absurd hentry List.not_mem_nil
        · rw [settingsOf_setting hsome, List.mem_singleton] at hentry
          rw [hentry]
      · exact ih (fun line hline ↦ hwithin line (List.mem_cons_of_mem raw hline))
          (fun line hline ↦ hsets line (List.mem_cons_of_mem raw hline)) entry hentry

theorem BlockEdited.settingsOf_body {settings : List (List UInt8 × List UInt8)}
    (edited : BlockEdited key value body settings) (hwithin : ∀ raw ∈ body, opens raw = false) :
    settingsOf body =
      settingsOf edited.first ++ (settingsOf edited.between ++ settingsOf edited.later) := by
  rw [edited.lines] at hwithin
  conv_lhs => rw [edited.lines]
  rw [settingsOf_append fun raw hraw ↦ hwithin raw (List.mem_append_left _ hraw),
    settingsOf_append fun raw hraw ↦
      hwithin raw (List.mem_append_right _ (List.mem_append_left _ hraw))]

theorem BlockEdited.lookup_other {other : List UInt8} {settings : List (List UInt8 × List UInt8)}
    (edited : BlockEdited key value body settings) (hkey : PlainKey key)
    (hwithin : ∀ raw ∈ body, opens raw = false) (hother : other ≠ configFold key)
    (after : List (List UInt8 × List UInt8)) :
    Mark.lookup other (settings ++ after) = Mark.lookup other (settingsOf body ++ after) := by
  have hbetween : ∀ raw ∈ edited.between, opens raw = false := fun raw hraw ↦
    hwithin raw (edited.lines ▸ List.mem_append_right _ (List.mem_append_left _ hraw))
  have hold := settings_between hkey hbetween edited.sets
  have hnew : ∀ entry ∈ (value.map fun value ↦ (configFold key, value)).toList,
      entry.1 = configFold key := by
    intro entry hentry
    obtain ⟨given, -, rfl⟩ := Option.map_eq_some_iff.mp (Option.mem_toList.mp hentry)
    rfl
  rw [Mark.lookup_append_list, Mark.lookup_append_list _ (settingsOf body), edited.settings_eq,
    edited.settingsOf_body hwithin, lookup_between hother _ _ _ hnew,
    lookup_between hother _ _ _ hold]

theorem BlockEdited.lookup_given {given : List UInt8} {settings : List (List UInt8 × List UInt8)}
    (edited : BlockEdited key (some given) body settings)
    (hwithin : ∀ raw ∈ body, opens raw = false)
    (hkeys : ∀ raw ∈ body, ∀ value, lineMark (lineOf raw) = some (.setting (configFold key) value) →
      (editSets key raw).isSome = true) (after : List (List UInt8 × List UInt8)) :
    Mark.lookup (configFold key) (settings ++ after) = some given := by
  have hmem : ∀ raw ∈ edited.first, raw ∈ body := fun raw hraw ↦
    edited.lines ▸ List.mem_append_left _ hraw
  have hunset := lookup_unset edited.unset (fun raw hraw ↦ hwithin raw (hmem raw hraw))
    fun raw hraw ↦ hkeys raw (hmem raw hraw)
  rw [Mark.lookup_append_list, edited.settings_eq, Mark.lookup_append_list, hunset, Option.none_or,
    Mark.lookup_append_list]
  simp [Mark.lookup]

theorem BlockEdited.settings_none {settings : List (List UInt8 × List UInt8)}
    (edited : BlockEdited key none body settings) (hwithin : ∀ raw ∈ body, opens raw = false) :
    settings = settingsOf (body.eraseP fun raw ↦ (editSets key raw).isSome) := by
  have hfirst : ∀ raw ∈ edited.first, opens raw = false := fun raw hraw ↦
    hwithin raw (edited.lines ▸ List.mem_append_left _ hraw)
  rw [← edited.erased rfl, settingsOf_append hfirst]
  exact edited.settings_eq

theorem BlockEdited.reads {settings : List (List UInt8 × List UInt8)}
    {block : EditBlock text sectionName occurrence}
    (edited : BlockEdited key value block.body settings) (hkey : PlainKey key)
    (hagrees : BlockAgrees sectionName key value block.before block.header block.body block.rest) :
    ReadsAsEdited (marksOf (rawLines text))
      (marksOf block.before ++ .header (configFold sectionName) ::
        (Mark.ofSettings settings ++ marksOf block.rest))
      (configFold sectionName) occurrence (configFold key) value := by
  have hlookup : Mark.lookup (configFold key) (settings ++ settingsOf block.rest) = value := by
    cases value with
    | none =>
        rw [edited.settings_none block.within]
        exact hagrees.once rfl
    | some given => exact edited.lookup_given block.within hagrees.keys _
  have hkept : Mark.named (configFold sectionName) (marksOf block.rest) = [] ∨
      settingsOf block.body ++ settingsOf block.rest ≠ [] ∧
        settings ++ settingsOf block.rest ≠ [] := by
    refine hagrees.alone.imp_right fun ⟨hbefore, hafter⟩ ↦ ⟨hbefore, fun hnil ↦ ?_⟩
    cases value with
    | none =>
        rw [edited.settings_none block.within] at hnil
        exact hafter rfl hnil
    | some given =>
        rw [hnil] at hlookup
        exact absurd hlookup nofun
  have hothers : ∀ other, other ≠ configFold key →
      Mark.lookup other (settings ++ settingsOf block.rest) =
        Mark.lookup other (settingsOf block.body ++ settingsOf block.rest) :=
    fun other hother ↦ edited.lookup_other hkey block.within hother _
  have hvalues := Mark.valueOf_edit (hagrees.counted.trans block.counted) hkept hothers
  rw [block.lines, marksOf_block block.within hagrees.opened]
  exact ⟨hvalues.1.trans hlookup, hvalues.2⟩

end OxysOS.Libc
