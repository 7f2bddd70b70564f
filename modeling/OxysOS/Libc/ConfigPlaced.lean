import OxysOS.Libc.ConfigMarks

/-!
# The section a setting stands in

An entry is meant to belong to the header written above it, and its occurrence to tell how many
sections of that name were opened before.
-/

namespace OxysOS.Libc

open OxysOS.Library

def headerOf (raw : List UInt8) : Option (Except ConfigFault (List UInt8)) :=
  match (lineOf raw).dropWhile configIsSpace with
  | [] => none
  | c :: rest => if c = byteOf '[' then some (configHeader rest) else none

def settingOf (raw : List UInt8) : Option (List UInt8 × List UInt8) :=
  match (lineOf raw).dropWhile configIsSpace with
  | [] => none
  | c :: rest =>
      if c = byteOf '#' ∨ c = byteOf '[' then none
      else
        match configKey (c :: rest) with
        | .error _ => none
        | .ok (key, after) => (configSetting key after).toOption

def headersOf (raws : List (List UInt8)) : List (Except ConfigFault (List UInt8)) :=
  raws.filterMap headerOf

def opensName (name : List UInt8) : Except ConfigFault (List UInt8) → Bool
  | .ok opened => configSame opened name
  | .error _ => false

def readerAfter (holds : ℕ → Bool) (raws : List (List UInt8)) : ConfigReader :=
  (configParseLines ⟨⟨holds, [], [], 0⟩, [], 0, false⟩ 1 raws).2

def RecordedAt (holds : ℕ → Bool) (front : List (List UInt8)) (raw : List UInt8)
    (entry : OxysConfigEntry) : Prop :=
  (readerAfter holds (front ++ [raw])).config.entries =
    (readerAfter holds front).config.entries ++ [entry]

def Under (front : List (List UInt8)) (entry : OxysConfigEntry) : Prop :=
  ∃ earlier, headersOf front = earlier ++ [.ok entry.sectionName] ∧
    entry.occurrence = earlier.countP (opensName entry.sectionName)

inductive LineTold (before after : OxysConfig) (number : ℕ) (raw : List UInt8) : Prop
  | blank (hline : (lineOf raw).dropWhile configIsSpace = []) (hsame : after = before)
  | comment (hline : ((lineOf raw).dropWhile configIsSpace).head? = some (byteOf '#'))
      (hsame : after = before)
  | header (name : List UInt8) (hline : headerOf raw = some (.ok name)) (hsame : after = before)
  | setting (entry : OxysConfigEntry) (hline : settingOf raw = some (entry.key, entry.value))
      (hrecorded : after = { before with entries := before.entries ++ [entry] })
  | fault (reason : ConfigFault) (hroom : before.faults.length < configFaultsMaximum)
      (hrecorded : after = { before with faults := before.faults ++ [(number, reason)] })
  | counted (hroom : ¬before.faults.length < configFaultsMaximum)
      (hcounted : after = { before with faultsDropped := before.faultsDropped + 1 })

/-- Every setting of a text belongs to the section written above it, and every line is told of. -/
structure Placed (holds : ℕ → Bool) (text : List UInt8) : Prop where
  recorded : ∀ entry ∈ (oxysConfigParse holds text).2.entries,
    ∃ front raw back, rawLines text = front ++ raw :: back ∧ RecordedAt holds front raw entry
  under : ∀ front raw back entry, rawLines text = front ++ raw :: back →
    RecordedAt holds front raw entry → Under front entry
  told : ∀ front raw back, rawLines text = front ++ raw :: back →
    LineTold (readerAfter holds front).config (readerAfter holds (front ++ [raw])).config
      (front.length + 1) raw

/-- No setting follows an empty section of its own section's name, nor a header that cannot be read
and comes after one that can, unless it repeats a key of the section that stood before. -/
def SettingsPlaced (text : List UInt8) : Prop :=
  ∀ front raw back key value, rawLines text = front ++ raw :: back →
    settingOf raw = some (key, value) →
    ∀ before name settings, marksOf front = before ++ .header name :: Mark.ofSettings settings →
      match (headersOf front).getLast? with
      | some (.ok _) => Mark.EachHolds name before
      | _ => (Mark.lookup (configFold key) settings).isSome

variable {holds : ℕ → Bool} {reader : ConfigReader} {raw : List UInt8} {front : List (List UInt8)}

inductive LineRead (reader : ConfigReader) (raw : List UInt8) (number : ℕ) : ConfigReader → Prop
  | blank (hline : (lineOf raw).dropWhile configIsSpace = []) : LineRead reader raw number reader
  | comment (hline : ((lineOf raw).dropWhile configIsSpace).head? = some (byteOf '#')) :
      LineRead reader raw number reader
  | header (name : List UInt8) (hline : headerOf raw = some (.ok name)) :
      LineRead reader raw number { reader with
        sectionName := name
        occurrence := configOccurrence reader.config name
        haveSection := true }
  | setting (key value : List UInt8) (hline : settingOf raw = some (key, value))
      (hinside : reader.haveSection = true)
      (hroom : reader.config.holds reader.config.entries.length = true)
      (hnew : configHasKey reader.config reader.sectionName reader.occurrence key = false) :
      LineRead reader raw number { reader with config := { reader.config with
        entries := reader.config.entries ++ [⟨reader.sectionName, reader.occurrence, key, value⟩] } }
  | fault (reason : ConfigFault) (hheader : ∀ name, headerOf raw ≠ some (.ok name))
      (hsetting : ∀ key value, settingOf raw = some (key, value) → reader.haveSection = true →
        reader.config.holds reader.config.entries.length = true →
        configHasKey reader.config reader.sectionName reader.occurrence key = true) :
      LineRead reader raw number (configRecordFault reader number reason)

theorem lineRead (reader : ConfigReader) (raw : List UInt8) (number : ℕ) :
    LineRead reader raw number (configParseLine reader (lineOf raw) number).2 := by
  rcases hline : (lineOf raw).dropWhile configIsSpace with _ | ⟨c, rest⟩
  · rw [show (configParseLine reader (lineOf raw) number).2 = reader by simp [configParseLine, hline]]
    exact .blank hline
  have hheader : headerOf raw = if c = byteOf '[' then some (configHeader rest) else none := by
    simp [headerOf, hline]
  by_cases hcomment : c = byteOf '#'
  · rw [show (configParseLine reader (lineOf raw) number).2 = reader by
      simp [configParseLine, hline, hcomment]]
    exact .comment (by simp [hline, hcomment])
  by_cases hopens : c = byteOf '['
  · have hsetting : ∀ key value, settingOf raw ≠ some (key, value) := by
      simp [settingOf, hline, hopens]
    rw [if_pos hopens] at hheader
    simp only [configParseLine, hline, if_neg hcomment, if_pos hopens]
    cases hread : configHeader rest with
    | error reason =>
        exact .fault reason (by simp [hheader, hread]) fun key value h ↦ absurd h (hsetting key value)
    | ok name => exact .header name (by rw [hheader, hread])
  rw [if_neg hopens] at hheader
  have hsetting : settingOf raw = match configKey (c :: rest) with
      | .error _ => none
      | .ok (key, after) => (configSetting key after).toOption := by
    simp [settingOf, hline, hopens, hcomment]
  have hnoheader : ∀ name, headerOf raw ≠ some (.ok name) := by simp [hheader]
  simp only [configParseLine, hline, if_neg hcomment, if_neg hopens]
  by_cases hinside : reader.haveSection = true
  swap
  · rw [if_pos hinside]
    exact .fault _ hnoheader fun key value _ h ↦ absurd h hinside
  rw [if_neg (not_not.mpr hinside)]
  cases hkey : configKey (c :: rest) with
  | error reason => exact .fault reason hnoheader fun key value h ↦ by simp [hsetting, hkey] at h
  | ok given =>
      obtain ⟨key, after⟩ := given
      dsimp only
      by_cases hroom : reader.config.holds reader.config.entries.length = true
      swap
      · rw [if_pos hroom]
        exact .fault _ hnoheader fun key value _ _ h ↦ absurd h hroom
      rw [if_neg (not_not.mpr hroom)]
      rw [hkey] at hsetting
      dsimp only at hsetting
      cases hread : configSetting key after with
      | error reason =>
          exact .fault reason hnoheader fun key value h ↦ by
            simp [hsetting, hread, Except.toOption] at h
      | ok setting =>
          obtain ⟨key, value⟩ := setting
          rw [hread] at hsetting
          dsimp only
          by_cases hold : configHasKey reader.config reader.sectionName reader.occurrence key = true
          · rw [if_pos hold]
            refine .fault _ hnoheader fun other given h _ _ ↦ ?_
            obtain ⟨rfl, rfl⟩ : key = other ∧ value = given := by
              simpa [hsetting, Except.toOption] using h
            exact hold
          · rw [if_neg hold]
            exact .setting key value hsetting hinside hroom (Bool.eq_false_iff.mpr hold)

theorem headerOf_of_settingOf {setting : List UInt8 × List UInt8}
    (h : settingOf raw = some setting) : headerOf raw = none := by
  unfold settingOf at h
  unfold headerOf
  cases hline : (lineOf raw).dropWhile configIsSpace with
  | nil => rfl
  | cons c rest =>
      by_cases hopens : c = byteOf '['
      · simp [hline, hopens] at h
      · simp [hopens]

theorem configParseLines_concat (number : ℕ) (front : List (List UInt8)) (raw : List UInt8) :
    (configParseLines reader number (front ++ [raw])).2 =
      (configParseLine (configParseLines reader number front).2 (lineOf raw)
        (number + front.length)).2 := by
  induction front generalizing reader number with
  | nil => simp [configParseLines]
  | cons first front ih => simp [configParseLines, ih, Nat.add_comm, Nat.add_left_comm]

theorem readerAfter_concat (holds : ℕ → Bool) (front : List (List UInt8)) (raw : List UInt8) :
    LineRead (readerAfter holds front) raw (front.length + 1) (readerAfter holds (front ++ [raw])) := by
  have hread := lineRead (readerAfter holds front) raw (1 + front.length)
  have hconcat : readerAfter holds (front ++ [raw]) =
      (configParseLine (readerAfter holds front) (lineOf raw) (1 + front.length)).2 :=
    configParseLines_concat 1 front raw
  rwa [← hconcat, Nat.add_comm] at hread

theorem headersOf_concat (front : List (List UInt8)) (raw : List UInt8) :
    headersOf (front ++ [raw]) = headersOf front ++ (headerOf raw).toList := by
  cases hheader : headerOf raw <;> simp [headersOf, hheader]

theorem configRecordFault_eq (reader : ConfigReader) (number : ℕ) (reason : ConfigFault) :
    (configRecordFault reader number reason).sectionName = reader.sectionName ∧
      (configRecordFault reader number reason).occurrence = reader.occurrence ∧
      (configRecordFault reader number reason).haveSection = reader.haveSection ∧
      (configRecordFault reader number reason).config.holds = reader.config.holds ∧
      (configRecordFault reader number reason).config.entries = reader.config.entries := by
  simp only [configRecordFault]
  split_ifs <;> simp

theorem LineRead.told {number : ℕ} {after : ConfigReader} (h : LineRead reader raw number after) :
    LineTold reader.config after.config number raw := by
  cases h with
  | blank hline => exact .blank hline rfl
  | comment hline => exact .comment hline rfl
  | header name hline => exact .header name hline rfl
  | setting key value hline => exact .setting ⟨_, _, key, value⟩ hline rfl
  | fault reason =>
      by_cases hroom : reader.config.faults.length < configFaultsMaximum
      · exact .fault reason hroom (by simp [configRecordFault, hroom])
      · exact .counted hroom (by simp [configRecordFault, hroom])

theorem lastRead (holds : ℕ → Bool) (front : List (List UInt8)) :
    ((headersOf front).filterMap Except.toOption).getLast? =
      if (readerAfter holds front).haveSection then some (readerAfter holds front).sectionName
      else none := by
  induction front using List.reverseRecOn with
  | nil => simp [headersOf, readerAfter, configParseLines]
  | append_singleton front raw ih =>
      have hread := readerAfter_concat holds front raw
      rw [headersOf_concat]
      generalize readerAfter holds (front ++ [raw]) = after at hread ⊢
      have hother : (∀ name, headerOf raw ≠ some (.ok name)) →
          (headerOf raw).toList.filterMap Except.toOption = [] := by
        intro hne
        rcases hheader : headerOf raw with _ | (_ | name)
        · simp
        · simp [Except.toOption]
        · exact absurd hheader (hne name)
      cases hread with
      | blank hline => simpa [headerOf, hline] using ih
      | comment hline =>
          rcases hfirst : (lineOf raw).dropWhile configIsSpace with _ | ⟨c, rest⟩
          · simpa [headerOf, hfirst] using ih
          · obtain rfl : c = byteOf '#' := by simpa [hfirst] using hline
            simpa [headerOf, hfirst, show byteOf '#' ≠ byteOf '[' by decide] using ih
      | header name hline => simp [hline, Except.toOption]
      | setting key value hline =>
          rw [List.filterMap_append, hother (by simp [headerOf_of_settingOf hline]), List.append_nil]
          exact ih
      | fault reason hheader =>
          obtain ⟨hname, -, hhave, -, -⟩ :=
            configRecordFault_eq (readerAfter holds front) (front.length + 1) reason
          rw [List.filterMap_append, hother hheader, List.append_nil, hname, hhave]
          exact ih

def ConfigReader.withHolds (reader : ConfigReader) (holds : ℕ → Bool) : ConfigReader :=
  { reader with config := { reader.config with holds := holds } }

theorem configParseLine_withHolds (line : List UInt8) (number : ℕ)
    (hroom : reader.config.holds reader.config.entries.length = true)
    (hother : holds reader.config.entries.length = true) :
    (configParseLine (reader.withHolds holds) line number).2 =
      (configParseLine reader line number).2.withHolds holds := by
  have hfault : ∀ reason, configRecordFault (reader.withHolds holds) number reason =
      (configRecordFault reader number reason).withHolds holds := by
    intro reason
    by_cases hfaults : reader.config.faults.length < configFaultsMaximum <;>
      simp [configRecordFault, ConfigReader.withHolds, hfaults]
  simp only [configParseLine]
  rcases line.dropWhile configIsSpace with _ | ⟨c, rest⟩
  · rfl
  dsimp only
  by_cases hcomment : c = byteOf '#'
  · simp [hcomment]
  by_cases hopens : c = byteOf '['
  · simp only [if_neg hcomment, if_pos hopens]
    cases configHeader rest with
    | error reason => exact hfault reason
    | ok name => rfl
  simp only [if_neg hcomment, if_neg hopens]
  by_cases hinside : reader.haveSection = true
  swap
  · simpa [ConfigReader.withHolds, hinside] using hfault .noSection
  rw [if_neg (not_not.mpr hinside), if_neg (not_not.mpr (show (reader.withHolds holds).haveSection =
    true from hinside))]
  cases configKey (c :: rest) with
  | error reason => exact hfault reason
  | ok given =>
      obtain ⟨key, after⟩ := given
      dsimp only
      rw [if_neg (not_not.mpr hroom), if_neg (not_not.mpr (show (reader.withHolds holds).config.holds
        (reader.withHolds holds).config.entries.length = true from hother))]
      cases configSetting key after with
      | error reason => exact hfault reason
      | ok setting =>
          obtain ⟨key, value⟩ := setting
          dsimp only
          by_cases hold : configHasKey reader.config reader.sectionName reader.occurrence key = true
          · rw [if_pos hold, if_pos (show configHasKey (reader.withHolds holds).config
              (reader.withHolds holds).sectionName (reader.withHolds holds).occurrence key = true
              from hold)]
            exact hfault .duplicateKey
          · rw [if_neg hold, if_neg (show ¬configHasKey (reader.withHolds holds).config
              (reader.withHolds holds).sectionName (reader.withHolds holds).occurrence key = true
              from hold)]
            rfl

def holdsAll : ℕ → Bool := fun _ ↦ true

theorem readerAfter_holds (holds : ℕ → Bool) (front : List (List UInt8)) :
    (readerAfter holds front).config.holds = holds := by
  induction front using List.reverseRecOn with
  | nil => rfl
  | append_singleton front raw ih =>
      have hread := readerAfter_concat holds front raw
      generalize readerAfter holds (front ++ [raw]) = after at hread ⊢
      cases hread with
      | blank | comment | header | setting => exact ih
      | fault reason => exact (configRecordFault_eq _ _ reason).2.2.2.1.trans ih

theorem readerAfter_eq
    (hroom : holds (readerAfter holds front).config.entries.length = true) :
    readerAfter holds front = (readerAfter holdsAll front).withHolds holds := by
  induction front using List.reverseRecOn with
  | nil => rfl
  | append_singleton front raw ih =>
      have hbefore : holds (readerAfter holds front).config.entries.length = true := by
        have hread := readerAfter_concat holds front raw
        generalize readerAfter holds (front ++ [raw]) = after at hread hroom
        cases hread with
        | blank | comment | header => exact hroom
        | setting key value _ _ hbefore => rwa [readerAfter_holds] at hbefore
        | fault reason => rwa [(configRecordFault_eq _ _ reason).2.2.2.2] at hroom
      have hsame := ih hbefore
      have hroom' : (readerAfter holdsAll front).config.holds
          (readerAfter holdsAll front).config.entries.length = true := by
        rw [readerAfter_holds]
        rfl
      have hother : holds (readerAfter holdsAll front).config.entries.length = true := by
        rw [hsame] at hbefore
        exact hbefore
      have hall := configParseLine_withHolds (lineOf raw) (1 + front.length) hroom' hother
      rw [← hsame] at hall
      exact (configParseLines_concat 1 front raw).trans
        (hall.trans (congrArg (ConfigReader.withHolds · holds)
          (configParseLines_concat 1 front raw).symm))

theorem lineMark_eq (raw : List UInt8) : lineMark (lineOf raw) =
    match headerOf raw with
    | some (.ok name) => some (.header (configFold name))
    | some (.error _) => none
    | none => (settingOf raw).map fun setting ↦ .setting (configFold setting.1) setting.2 := by
  simp only [lineMark, headerOf, settingOf]
  rcases (lineOf raw).dropWhile configIsSpace with _ | ⟨c, rest⟩
  · rfl
  by_cases hcomment : c = byteOf '#'
  · simp [hcomment, show byteOf '#' ≠ byteOf '[' by decide]
  by_cases hopens : c = byteOf '['
  · subst hopens
    cases hread : configHeader rest <;> simp [hread, show byteOf '[' ≠ byteOf '#' by decide]
  cases hkey : configKey (c :: rest) with
  | error reason => simp [hcomment, hopens, hkey]
  | ok given =>
      cases hread : configSetting given.1 given.2 <;>
        simp [hcomment, hopens, hkey, hread, Except.toOption]

theorem opened_marksOf (name : List UInt8) (raws : List (List UInt8)) :
    Mark.opened (configFold name) (marksOf raws) = (headersOf raws).countP (opensName name) := by
  induction raws with
  | nil => rfl
  | cons raw raws ih =>
      simp only [marksOf, headersOf, List.filterMap_cons] at ih ⊢
      rw [lineMark_eq]
      rcases hheader : headerOf raw with _ | (reason | opened)
      · rcases hsetting : settingOf raw with _ | setting <;> simpa [Mark.opened] using ih
      · simpa [opensName] using ih
      · simp only [Mark.opened, List.countP_cons, ih, opensName, configSame_iff]
        exact Nat.add_comm ..

theorem readerAfter_reading (front : List (List UInt8)) :
    Reading (marksOf front) (readerAfter holdsAll front) := by
  have hstart : Reading [] ⟨⟨holdsAll, [], [], 0⟩, [], 0, false⟩ :=
    ⟨fun _ ↦ rfl, fun _ _ _ ↦ rfl, fun _ ↦ rfl, fun _ ↦ ⟨[], rfl⟩, fun h ↦ Bool.noConfusion h⟩
  exact configParseLines_reading hstart 1 front

theorem opensName_self (name : List UInt8) : opensName name (.ok name) = true := by
  simp [opensName, configSame_iff]

structure InBlock (front : List (List UInt8)) (before : List ConfigMark)
    (settings : List (List UInt8 × List UInt8)) : Prop where
  inside : (readerAfter holdsAll front).haveSection = true
  marks : marksOf front = before ++
    .header (configFold (readerAfter holdsAll front).sectionName) :: Mark.ofSettings settings
  occurrence : (readerAfter holdsAll front).occurrence =
    (Mark.named (configFold (readerAfter holdsAll front).sectionName) before).length
  hasKey : ∀ key, configHasKey (readerAfter holdsAll front).config
    (readerAfter holdsAll front).sectionName (readerAfter holdsAll front).occurrence key =
      (Mark.lookup (configFold key) settings).isSome

theorem inBlock (hinside : (readerAfter holdsAll front).haveSection = true) :
    ∃ before settings, InBlock front before settings := by
  have hreading := readerAfter_reading front
  obtain ⟨before, settings, hmarks, hoccurrence⟩ := hreading.inside hinside
  refine ⟨before, settings, hinside, hmarks, hoccurrence, fun key ↦ ?_⟩
  rw [configHasKey_eq, hreading.values, hmarks, hoccurrence, Mark.valueOf_last]

theorem InBlock.counted {before : List ConfigMark} {settings : List (List UInt8 × List UInt8)}
    {earlier : List (Except ConfigFault (List UInt8))} (h : InBlock front before settings)
    (hheaders : headersOf front = earlier ++ [.ok (readerAfter holdsAll front).sectionName]) :
    (readerAfter holdsAll front).occurrence =
        earlier.countP (opensName (readerAfter holdsAll front).sectionName) ↔
      Mark.EachHolds (configFold (readerAfter holdsAll front).sectionName) before := by
  have hopened := opened_marksOf (readerAfter holdsAll front).sectionName front
  rw [h.marks, hheaders, Mark.opened_append, Mark.opened, Mark.opened_ofSettings, List.countP_append,
    if_pos rfl, List.countP_singleton, if_pos (opensName_self _)] at hopened
  rw [h.occurrence, ← Mark.length_named_eq_iff, ← Nat.add_right_cancel hopened]

theorem section_of_headers (holds : ℕ → Bool) {name : List UInt8}
    (hheaders : (headersOf front).getLast? = some (.ok name)) :
    (readerAfter holds front).haveSection = true ∧ (readerAfter holds front).sectionName = name := by
  have hlast := lastRead holds front
  obtain ⟨earlier, hearlier⟩ := List.getLast?_eq_some_iff.mp hheaders
  rw [hearlier, List.filterMap_append] at hlast
  by_cases hinside : (readerAfter holds front).haveSection = true
  · exact ⟨hinside, by simpa [Except.toOption, hinside, eq_comm] using hlast⟩
  · simp [Except.toOption, hinside] at hlast

theorem RecordedAt.setting {entry : OxysConfigEntry} (h : RecordedAt holds front raw entry) :
    settingOf raw = some (entry.key, entry.value) ∧
      (readerAfter holds front).haveSection = true ∧
      holds (readerAfter holds front).config.entries.length = true ∧
      configHasKey (readerAfter holds front).config entry.sectionName entry.occurrence entry.key =
        false ∧
      entry.sectionName = (readerAfter holds front).sectionName ∧
      entry.occurrence = (readerAfter holds front).occurrence := by
  have hread := readerAfter_concat holds front raw
  rw [RecordedAt] at h
  generalize readerAfter holds (front ++ [raw]) = after at hread h
  cases hread with
  | blank | comment | header => simp at h
  | setting key value hline hinside hroom hnew =>
      obtain rfl : OxysConfigEntry.mk (readerAfter holds front).sectionName
          (readerAfter holds front).occurrence key value = entry := by simpa using h
      rw [readerAfter_holds] at hroom
      exact ⟨hline, hinside, hroom, hnew, rfl, rfl⟩
  | fault reason => simp [configRecordFault_eq] at h

theorem exists_recordedAt {entry : OxysConfigEntry} {raws : List (List UInt8)}
    (h : entry ∈ (readerAfter holds raws).config.entries) :
    ∃ front raw back, raws = front ++ raw :: back ∧ RecordedAt holds front raw entry := by
  induction raws using List.reverseRecOn with
  | nil => simp [readerAfter, configParseLines] at h
  | append_singleton raws raw ih =>
      have hbefore : entry ∈ (readerAfter holds raws).config.entries →
          ∃ front line back, raws ++ [raw] = front ++ line :: back ∧
            RecordedAt holds front line entry := by
        intro hentry
        obtain ⟨front, line, back, rfl, hrecorded⟩ := ih hentry
        exact ⟨front, line, back ++ [raw], by simp, hrecorded⟩
      have hread := readerAfter_concat holds raws raw
      have hhere : (readerAfter holds (raws ++ [raw])).config.entries =
          (readerAfter holds raws).config.entries ++ [entry] → RecordedAt holds raws raw entry :=
        fun h ↦ h
      generalize readerAfter holds (raws ++ [raw]) = after at hread h hhere
      cases hread with
      | blank | comment | header => exact hbefore h
      | setting key value =>
          rcases List.mem_append.mp h with h | h
          · exact hbefore h
          · rw [← List.mem_singleton.mp h] at hhere
            exact ⟨raws, raw, [], rfl, hhere rfl⟩
      | fault reason =>
          rw [(configRecordFault_eq _ _ reason).2.2.2.2] at h
          exact hbefore h

theorem SettingsPlaced.placed {text : List UInt8} (h : SettingsPlaced text) (holds : ℕ → Bool) :
    Placed holds text := by
  refine ⟨fun entry hentry ↦ exists_recordedAt hentry, ?_,
    fun front raw back _ ↦ (readerAfter_concat holds front raw).told⟩
  rintro front raw back ⟨name, occurrence, key, value⟩ hlines hrecorded
  obtain ⟨hsetting, hinside, hroom, hnew, hname, hoccurrence⟩ := hrecorded.setting
  dsimp only at hsetting hnew hname hoccurrence
  subst hname hoccurrence
  rw [Under]
  dsimp only
  rw [readerAfter_eq hroom] at hinside hnew ⊢
  change configHasKey (readerAfter holdsAll front).config (readerAfter holdsAll front).sectionName
    (readerAfter holdsAll front).occurrence key = false at hnew
  obtain ⟨before, settings, hblock⟩ := inBlock hinside
  have hplaced := h front raw back key value hlines hsetting before _ settings hblock.marks
  rw [hblock.hasKey] at hnew
  rcases hlast : (headersOf front).getLast? with _ | (reason | opened)
  · simp [hlast, hnew] at hplaced
  · simp [hlast, hnew] at hplaced
  · simp only [hlast] at hplaced
    obtain ⟨earlier, hheaders⟩ := List.getLast?_eq_some_iff.mp hlast
    obtain ⟨-, rfl⟩ := section_of_headers holdsAll hlast
    exact ⟨earlier, hheaders, (hblock.counted hheaders).mpr hplaced⟩

end OxysOS.Libc
