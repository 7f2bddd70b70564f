import OxysOS.Libc.ConfigLines

/-!
# What an edit does to what is read

The scan of the editor is followed over the lines of the text: which block it
comes to, and which line of that block it changes.
-/

namespace OxysOS.Libc

open OxysOS.Library

variable {raws before body after : List (List UInt8)}
  {text sectionName key value raw header : List UInt8} {occurrence : ℕ} {scan : EditScan}

structure ScanInside (key : List UInt8) (scan : EditScan) (raws : List (List UInt8))
    (result : EditScan × Option EditMatch) where
  body : List (List UInt8)
  rest : List (List UInt8)
  lines : raws = body ++ rest
  within : ∀ raw ∈ body, opens raw = false
  ends : ∀ raw, rest.head? = some raw → opens raw = true
  found : scan.foundBlock = true → result.1.foundBlock = true
  outcome : (∃ first raw later kept, body = first ++ raw :: later ∧
      (∀ raw ∈ first, editSets key raw = none) ∧ editSets key raw = some kept ∧
      result.1.place = scan.place + first.flatten.length ∧ result.2 = some ⟨kept, raw.length⟩) ∨
    (∀ raw ∈ body, editSets key raw = none) ∧ ∃ settled quiet, body = settled ++ quiet ∧
      (∀ raw ∈ quiet, idle raw) ∧ result.2 = none ∧
      result.1.afterBlockSetting =
        if settled = [] then scan.afterBlockSetting else scan.place + settled.flatten.length

theorem exists_block (raws : List (List UInt8)) : ∃ body rest, raws = body ++ rest ∧
    (∀ raw ∈ body, opens raw = false) ∧ ∀ raw, rest.head? = some raw → opens raw = true := by
  induction raws with
  | nil => exact ⟨[], [], rfl, nofun, nofun⟩
  | cons raw raws ih =>
      cases hopens : opens raw with
      | true => exact ⟨[], raw :: raws, rfl, nofun, fun other hother ↦ Option.some.inj hother ▸ hopens⟩
      | false =>
          obtain ⟨body, rest, rfl, hbody, hrest⟩ := ih
          refine ⟨raw :: body, rest, rfl, fun other hother ↦ ?_, hrest⟩
          rcases List.mem_cons.mp hother with rfl | hother
          · exact hopens
          · exact hbody other hother

theorem ScanInside.step {key : List UInt8} {scan next : EditScan} {raws : List (List UInt8)}
    {result : EditScan × Option EditMatch} (h : ScanInside key next raws result) {raw : List UInt8}
    (hopens : opens raw = false) (hsets : editSets key raw = none)
    (hplace : next.place = scan.place + raw.length) (hfound : next.foundBlock = scan.foundBlock)
    (hsettled : idle raw ∧ next.afterBlockSetting = scan.afterBlockSetting ∨
      next.afterBlockSetting = next.place) :
    Nonempty (ScanInside key scan (raw :: raws) result) := by
  obtain ⟨body, rest, hlines, hwithin, hends, hkeeps, houtcome⟩ := h
  refine ⟨raw :: body, rest, ?_, ?_, hends, fun hset ↦ hkeeps (hfound.trans hset), ?_⟩
  · rw [hlines, List.cons_append]
  · intro other hother
    rcases List.mem_cons.mp hother with rfl | hother
    · exact hopens
    · exact hwithin other hother
  · rcases houtcome with ⟨first, line, later, kept, hbody, hfirst, hkept, hat, hmatch⟩ |
      ⟨hnone, settled, quiet, hbody, hquiet, hresult, hafter⟩
    · refine Or.inl ⟨raw :: first, line, later, kept, ?_, ?_, hkept, ?_, hmatch⟩
      · rw [hbody, List.cons_append]
      · intro other hother
        rcases List.mem_cons.mp hother with rfl | hother
        · exact hsets
        · exact hfirst other hother
      · rw [hat, hplace, List.flatten_cons, List.length_append, Nat.add_assoc]
    · refine Or.inr ⟨?_, ?_⟩
      · intro other hother
        rcases List.mem_cons.mp hother with rfl | hother
        · exact hsets
        · exact hnone other hother
      · by_cases hempty : settled = []
        · subst hempty
          rcases hsettled with ⟨hidle, hsame⟩ | hmoved
          · refine ⟨[], raw :: quiet, by rw [hbody]; rfl, ?_, hresult, hafter.trans hsame⟩
            intro other hother
            rcases List.mem_cons.mp hother with rfl | hother
            · exact hidle
            · exact hquiet other hother
          · refine ⟨[raw], quiet, by rw [hbody]; rfl, hquiet, hresult, ?_⟩
            rw [hafter, if_pos rfl, if_neg (List.cons_ne_nil _ _), hmoved, hplace]
            simp
        · refine ⟨raw :: settled, quiet, by rw [hbody]; rfl, hquiet, hresult, ?_⟩
          rw [hafter, if_neg hempty, if_neg (List.cons_ne_nil _ _), hplace, List.flatten_cons,
            List.length_append, Nat.add_assoc]

def ScanOutside (sectionName : List UInt8) (occurrence : ℕ) (key : List UInt8) (scan : EditScan)
    (raws : List (List UInt8)) : Prop :=
  (∃ before header after, raws = before ++ header :: after ∧
    scan.seen + before.countP (takes sectionName) = occurrence ∧ takes sectionName header = true ∧
    editLines sectionName occurrence key scan raws =
      let place := scan.place + before.flatten.length + header.length
      editLines sectionName occurrence key ⟨place, occurrence + 1, true, true, place⟩ after) ∨
  scan.seen + raws.countP (takes sectionName) ≤ occurrence ∧ ∃ place,
    editLines sectionName occurrence key scan raws =
      ({ scan with
        place := place, seen := scan.seen + raws.countP (takes sectionName) }, none)

theorem ScanOutside.step {seen : ℕ}
    (h : ScanOutside sectionName occurrence key
      { scan with place := scan.place + raw.length, seen := seen } raws)
    (hseen : seen = scan.seen + [raw].countP (takes sectionName))
    (hpass : editLines sectionName occurrence key scan (raw :: raws) =
      editLines sectionName occurrence key
        { scan with place := scan.place + raw.length, seen := seen } raws) :
    ScanOutside sectionName occurrence key scan (raw :: raws) := by
  have hcount : ∀ lines, scan.seen + (raw :: lines).countP (takes sectionName) =
      seen + lines.countP (takes sectionName) := by
    intro lines
    rw [hseen, Nat.add_assoc, ← List.countP_append]
    rfl
  rcases h with ⟨before, header, after, rfl, hoccurrence, htakes, heq⟩ | ⟨hall, place, heq⟩
  · refine Or.inl ⟨raw :: before, header, after, rfl, (hcount before).trans hoccurrence, htakes, ?_⟩
    rw [hpass, heq, List.flatten_cons, List.length_append, Nat.add_assoc scan.place raw.length]
  · refine Or.inr ⟨(hcount raws).trans_le hall, place, ?_⟩
    rw [hpass, heq, hcount]

def settingsOf (raws : List (List UInt8)) : List (List UInt8 × List UInt8) :=
  Mark.leading (marksOf raws)

theorem marksOf_append (before after : List (List UInt8)) :
    marksOf (before ++ after) = marksOf before ++ marksOf after :=
  List.filterMap_append

theorem marksOf_cons (raw : List UInt8) (raws : List (List UInt8)) :
    marksOf (raw :: raws) = (lineMark (lineOf raw)).toList ++ marksOf raws := by
  unfold marksOf
  rw [List.filterMap_cons]
  cases lineMark (lineOf raw) <;> rfl

theorem lineMark_within (h : opens raw = false) (name : List UInt8) :
    lineMark (lineOf raw) ≠ some (.header name) := by
  unfold opens at h
  rw [editIsSpace_eq] at h
  unfold lineMark
  cases hline : (lineOf raw).dropWhile configIsSpace with
  | nil => exact nofun
  | cons c rest =>
      rw [hline] at h
      have hheader : c ≠ byteOf '[' := fun heq ↦ absurd h (by simp [heq])
      dsimp only
      split_ifs
      · exact nofun
      · cases configKey (c :: rest) with
        | error fault => exact nofun
        | ok setting =>
            dsimp only
            cases configSetting setting.1 setting.2 with
            | error fault => exact nofun
            | ok setting => exact nofun

theorem marksOf_within (h : ∀ raw ∈ body, opens raw = false) :
    marksOf body = Mark.ofSettings (settingsOf body) := by
  induction body with
  | nil => rfl
  | cons raw body ih =>
      have hrest := ih fun other hother ↦ h other (List.mem_cons_of_mem raw hother)
      have hraw := lineMark_within (h raw List.mem_cons_self)
      unfold settingsOf at hrest ⊢
      rw [marksOf_cons]
      cases hmark : lineMark (lineOf raw) with
      | none => exact hrest
      | some mark =>
          cases mark with
          | header name => exact absurd hmark (hraw name)
          | setting key value => exact congrArg (Mark.setting key value :: ·) hrest

theorem settingsOf_append (h : ∀ raw ∈ before, opens raw = false) (after : List (List UInt8)) :
    settingsOf (before ++ after) = settingsOf before ++ settingsOf after := by
  have hsettings := marksOf_within h
  unfold settingsOf at hsettings ⊢
  rw [marksOf_append, hsettings, Mark.leading_ofSettings, ← hsettings]

structure EditBlock (text sectionName : List UInt8) (occurrence : ℕ) where
  before : List (List UInt8)
  header : List UInt8
  body : List (List UInt8)
  rest : List (List UInt8)
  lines : rawLines text = before ++ header :: (body ++ rest)
  counted : before.countP (takes sectionName) = occurrence
  taken : takes sectionName header = true
  within : ∀ raw ∈ body, opens raw = false
  ends : ∀ raw, rest.head? = some raw → opens raw = true

structure BlockAgrees (sectionName key : List UInt8) (value : Option (List UInt8))
    (before : List (List UInt8)) (header : List UInt8) (body rest : List (List UInt8)) : Prop where
  /-- The parser takes the header of the block for one of the section. -/
  opened : lineMark (lineOf header) = some (.header (configFold sectionName))
  /-- As many blocks of the section hold a setting before it as the editor has counted. -/
  counted : (Mark.named (configFold sectionName) (marksOf before)).length =
    before.countP (takes sectionName)
  /-- Where the parser reads the key the editor sees it. -/
  keys : ∀ raw ∈ body, ∀ value, lineMark (lineOf raw) = some (.setting (configFold key) value) →
    (editSets key raw).isSome = true
  /-- No later block of the section holds a setting, or this one does before and after. -/
  alone : Mark.named (configFold sectionName) (marksOf rest) = [] ∨
    settingsOf body ++ settingsOf rest ≠ [] ∧ (value = none →
      settingsOf (body.eraseP fun raw ↦ (editSets key raw).isSome) ++ settingsOf rest ≠ [])
  /-- A key that is taken out is not given once more. -/
  once : value = none → Mark.lookup (configFold key)
    (settingsOf (body.eraseP fun raw ↦ (editSets key raw).isSome) ++ settingsOf rest) = none

def ReadsAsEdited (marks edited : List ConfigMark) (sectionName : List UInt8) (occurrence : ℕ)
    (key : List UInt8) (value : Option (List UInt8)) : Prop :=
  Mark.valueOf edited sectionName occurrence key = value ∧
    ∀ sectionName' occurrence' key',
      ¬(sectionName' = sectionName ∧ occurrence' = occurrence ∧ key' = key) →
        Mark.valueOf edited sectionName' occurrence' key' =
          Mark.valueOf marks sectionName' occurrence' key'

theorem marksOf_block {rest : List (List UInt8)} (hbody : ∀ raw ∈ body, opens raw = false)
    (hheader : lineMark (lineOf header) = some (.header (configFold sectionName))) :
    marksOf (before ++ header :: (body ++ rest)) = marksOf before ++
      .header (configFold sectionName) :: (Mark.ofSettings (settingsOf body) ++ marksOf rest) := by
  rw [marksOf_append, marksOf_cons, hheader, marksOf_append, marksOf_within hbody]
  rfl

theorem lookup_unset (hkey : ∀ raw ∈ body, editSets key raw = none)
    (hbody : ∀ raw ∈ body, opens raw = false)
    (hkeys : ∀ raw ∈ body, ∀ value,
      lineMark (lineOf raw) = some (.setting (configFold key) value) →
        (editSets key raw).isSome = true) :
    Mark.lookup (configFold key) (settingsOf body) = none := by
  induction body with
  | nil => rfl
  | cons raw body ih =>
      have hrest := ih (fun other hother ↦ hkey other (List.mem_cons_of_mem raw hother))
        (fun other hother ↦ hbody other (List.mem_cons_of_mem raw hother))
        (fun other hother ↦ hkeys other (List.mem_cons_of_mem raw hother))
      rw [← List.singleton_append, settingsOf_append, Mark.lookup_append_list, hrest, Option.or_none]
      · unfold settingsOf
        rw [marksOf_cons]
        cases hmark : lineMark (lineOf raw) with
        | none => rfl
        | some mark =>
            cases mark with
            | header name => rfl
            | setting other value =>
                by_cases hother : other = configFold key
                · subst hother
                  have hseen := hkeys raw List.mem_cons_self value hmark
                  rw [hkey raw List.mem_cons_self] at hseen
                  exact absurd hseen (by decide)
                · unfold Mark.lookup
                  simp [Mark.leading, marksOf, hother]
      · intro other hother
        rw [List.mem_singleton.mp hother]
        exact hbody raw List.mem_cons_self

theorem lookup_between {other : List UInt8} (hother : other ≠ key)
    (first between later : List (List UInt8 × List UInt8))
    (hbetween : ∀ entry ∈ between, entry.1 = key) :
    Mark.lookup other (first ++ (between ++ later)) = Mark.lookup other (first ++ later) := by
  have hnone : Mark.lookup other between = none := by
    unfold Mark.lookup
    rw [List.find?_eq_none.mpr fun entry hentry ↦ ?_]
    · rfl
    · simpa using fun heq ↦ hother (heq.symm.trans (hbetween entry hentry))
  rw [Mark.lookup_append_list, Mark.lookup_append_list, hnone, Option.none_or,
    ← Mark.lookup_append_list]

end OxysOS.Libc
