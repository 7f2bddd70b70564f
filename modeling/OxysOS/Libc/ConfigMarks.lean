import OxysOS.Libc.Config
import OxysOS.Library.Sections

/-!
# What the parser reads

The parser reads a text as the marks of its lines: the headers it accepts and the settings
it has no fault to find with.
-/

namespace OxysOS.Libc

open OxysOS.Library

abbrev ConfigMark := Mark (List UInt8) (List UInt8) (List UInt8)

def configFold (string : List UInt8) : List UInt8 := string.map configLower

theorem configSame_iff (first second : List UInt8) :
    configSame first second = true ↔ configFold first = configFold second := by
  fun_induction configSame first second with
  | case1 c first d second hne =>
      refine ⟨fun h ↦ absurd h (by decide), fun h ↦ absurd (List.cons.inj h).1 ?_⟩
      exact of_decide_eq_true (by simpa using hne)
  | case2 c first d second hsame ih =>
      have hcd : configLower c = configLower d := by simpa using hsame
      rw [ih]
      unfold configFold
      rw [List.map_cons, List.map_cons, hcd, List.cons_inj_right]
  | case3 => exact ⟨fun _ ↦ rfl, fun _ ↦ rfl⟩
  | case4 first second hcons hnil =>
      refine ⟨fun h ↦ absurd h (by decide), fun h ↦ ?_⟩
      cases first with
      | nil =>
          cases second with
          | nil => exact absurd rfl (hnil rfl)
          | cons d second => exact absurd h (by simp [configFold])
      | cons c first =>
          cases second with
          | nil => exact absurd h (by simp [configFold])
          | cons d second => exact (hcons c first d second rfl rfl).elim

def lineMark (line : List UInt8) : Option ConfigMark :=
  match line.dropWhile configIsSpace with
  | [] => none
  | c :: rest =>
      if c = byteOf '#' then none
      else if c = byteOf '[' then
        match configHeader rest with
        | .error _ => none
        | .ok sectionName => some (.header (configFold sectionName))
      else
        match configKey (c :: rest) with
        | .error _ => none
        | .ok (key, after) =>
            match configSetting key after with
            | .error _ => none
            | .ok (key, value) => some (.setting (configFold key) value)

def marksOf (raws : List (List UInt8)) : List ConfigMark := raws.filterMap fun raw ↦ lineMark (lineOf raw)

def entryValue (entries : List OxysConfigEntry) (sectionName : List UInt8) (occurrence : ℕ)
    (key : List UInt8) : Option (List UInt8) :=
  (entries.find? fun entry ↦ entry.occurrence = occurrence ∧
    configFold entry.sectionName = sectionName ∧ configFold entry.key = key).map
      OxysConfigEntry.value

structure Reading (marks : List ConfigMark) (reader : ConfigReader) : Prop where
  holds : ∀ count, reader.config.holds count = true
  values : ∀ sectionName occurrence key,
    entryValue reader.config.entries sectionName occurrence key =
      Mark.valueOf marks sectionName occurrence key
  next : ∀ sectionName, configOccurrence reader.config sectionName =
    (Mark.named (configFold sectionName) marks).length
  outside : reader.haveSection = false → ∃ settings, marks = Mark.ofSettings settings
  inside : reader.haveSection = true → ∃ before settings,
    marks = before ++ .header (configFold reader.sectionName) :: Mark.ofSettings settings ∧
      reader.occurrence = (Mark.named (configFold reader.sectionName) before).length

variable {reader : ConfigReader} {marks : List ConfigMark} {key value : List UInt8}

theorem Reading.fault (h : Reading marks reader) (number : ℕ) (fault : ConfigFault) :
    Reading marks (configRecordFault reader number fault) := by
  unfold configRecordFault
  dsimp only
  split <;> exact ⟨h.holds, h.values, h.next, h.outside, h.inside⟩

theorem Reading.header (h : Reading marks reader) (sectionName : List UInt8) :
    Reading (marks ++ [.header (configFold sectionName)])
      { reader with
        sectionName := sectionName
        occurrence := configOccurrence reader.config sectionName
        haveSection := true } := by
  have hnamed : ∀ name, Mark.named name (marks ++ [.header (configFold sectionName)]) =
      Mark.named name marks := by
    intro name
    have hlast := Mark.named_last marks name (configFold sectionName) []
    rwa [if_neg fun hne ↦ hne.2 rfl, List.append_nil] at hlast
  exact
    { holds := h.holds
      values := fun name occurrence key ↦ by
        rw [h.values]
        unfold Mark.valueOf
        rw [hnamed]
      next := fun name ↦ by
        rw [hnamed]
        exact h.next name
      outside := fun hnone ↦ Bool.noConfusion hnone
      inside := fun _ ↦ ⟨marks, [], rfl, h.next sectionName⟩ }

theorem configHasKey_eq (config : OxysConfig) (sectionName : List UInt8) (occurrence : ℕ)
    (key : List UInt8) : configHasKey config sectionName occurrence key =
      (entryValue config.entries (configFold sectionName) occurrence (configFold key)).isSome := by
  unfold configHasKey entryValue
  rw [Option.isSome_map, Bool.eq_iff_iff, List.any_eq_true, List.find?_isSome]
  simp only [configSame_iff]

theorem entryValue_append (entries : List OxysConfigEntry) (entry : OxysConfigEntry)
    (sectionName : List UInt8) (occurrence : ℕ) (key : List UInt8) :
    entryValue (entries ++ [entry]) sectionName occurrence key =
      (entryValue entries sectionName occurrence key).or
        (if entry.occurrence = occurrence ∧ configFold entry.sectionName = sectionName ∧
          configFold entry.key = key then some entry.value else none) := by
  unfold entryValue
  rw [List.find?_append]
  cases entries.find? fun entry ↦ entry.occurrence = occurrence ∧
      configFold entry.sectionName = sectionName ∧ configFold entry.key = key with
  | some found => rfl
  | none =>
      by_cases hentry : entry.occurrence = occurrence ∧ configFold entry.sectionName = sectionName ∧
          configFold entry.key = key
      · simp [hentry]
      · rw [if_neg hentry, List.find?_cons_of_neg (by simpa using hentry)]
        rfl

theorem configOccurrence_append (config : OxysConfig) (entry : OxysConfigEntry)
    (sectionName : List UInt8) :
    configOccurrence { config with entries := config.entries ++ [entry] } sectionName =
      if configFold entry.sectionName = configFold sectionName ∧
        configOccurrence config sectionName ≤ entry.occurrence then entry.occurrence + 1
      else configOccurrence config sectionName := by
  unfold configOccurrence
  rw [List.foldl_append]
  simp only [configSame_iff]
  rfl

theorem append_setting (before : List ConfigMark) (sectionName : List UInt8)
    (settings : List (List UInt8 × List UInt8)) (key value : List UInt8) :
    before ++ Mark.header sectionName :: Mark.ofSettings settings ++ [Mark.setting key value] =
      before ++ Mark.header sectionName :: Mark.ofSettings (settings ++ [(key, value)]) := by
  unfold Mark.ofSettings
  rw [List.map_append, List.append_assoc]
  rfl

theorem Reading.stray (h : Reading marks reader) (hnone : reader.haveSection = false) :
    Reading (marks ++ [.setting key value]) reader := by
  obtain ⟨settings, rfl⟩ := h.outside hnone
  have hstray : (Mark.ofSettings settings ++ [Mark.setting key value] : List ConfigMark) =
      Mark.ofSettings (settings ++ [(key, value)]) := by simp [Mark.ofSettings]
  have hnamed : ∀ name : List UInt8,
      Mark.named name (Mark.ofSettings settings ++ [.setting key value] : List ConfigMark) =
        Mark.named name (Mark.ofSettings settings) := by
    intro name
    rw [hstray, Mark.named_only, Mark.named_only]
  exact
    { holds := h.holds
      values := fun name occurrence key ↦ by
        rw [h.values]
        unfold Mark.valueOf
        rw [hnamed]
      next := fun name ↦ by
        rw [hnamed]
        exact h.next name
      outside := fun _ ↦ ⟨settings ++ [(key, value)], hstray⟩
      inside := fun hset ↦ absurd (hnone.symm.trans hset) (by decide) }

theorem Reading.setting (h : Reading marks reader) (hinside : reader.haveSection = true)
    (hnew : configHasKey reader.config reader.sectionName reader.occurrence key = false) :
    Reading (marks ++ [.setting (configFold key) value])
      { reader with config := { reader.config with
        entries := reader.config.entries ++
          [⟨reader.sectionName, reader.occurrence, key, value⟩] } } := by
  obtain ⟨before, settings, hmarks, hoccurrence⟩ := h.inside hinside
  have hvalues := h.values
  have hnext := h.next
  rw [configHasKey_eq, h.values, hmarks, hoccurrence, Mark.valueOf_last] at hnew
  rw [hmarks] at hvalues hnext ⊢
  rw [append_setting]
  refine ⟨h.holds, fun name occurrence other ↦ ?_, fun name ↦ ?_,
    fun hnone ↦ absurd (hinside.symm.trans hnone) (by decide), fun _ ↦ ⟨before, _, rfl, hoccurrence⟩⟩
  · rw [entryValue_append, hvalues]
    by_cases hhere : name = configFold reader.sectionName ∧
        occurrence = (Mark.named (configFold reader.sectionName) before).length
    · obtain ⟨rfl, rfl⟩ := hhere
      rw [Mark.valueOf_last, Mark.valueOf_last, Mark.lookup_append]
      congr 1
      by_cases hkey : configFold key = other
      · rw [if_pos ⟨hoccurrence, rfl, hkey⟩, if_pos hkey]
      · rw [if_neg fun hentry ↦ hkey hentry.2.2, if_neg hkey]
    · rw [if_neg fun hentry ↦ hhere ⟨hentry.2.1.symm, hentry.1.symm.trans hoccurrence⟩, Option.or_none]
      exact Mark.valueOf_not_last hhere ..
  · rw [configOccurrence_append, hnext, Mark.named_last, Mark.named_last]
    dsimp only
    by_cases hname : configFold reader.sectionName = configFold name
    · rw [← hname, hoccurrence]
      by_cases hempty : settings = []
      · subst hempty
        simp
      · simp [hempty]
    · rw [if_neg fun hsame ↦ hname hsame.1, if_neg fun hsame ↦ hname hsame.1,
        if_neg fun hsame ↦ hname hsame.1]

theorem Reading.duplicate (h : Reading marks reader) (hinside : reader.haveSection = true)
    (hold : configHasKey reader.config reader.sectionName reader.occurrence key = true) :
    Reading (marks ++ [.setting (configFold key) value]) reader := by
  obtain ⟨before, settings, hmarks, hoccurrence⟩ := h.inside hinside
  have hvalues := h.values
  have hnext := h.next
  rw [configHasKey_eq, h.values, hmarks, hoccurrence, Mark.valueOf_last] at hold
  rw [hmarks] at hvalues hnext ⊢
  rw [append_setting]
  have hlookup : ∀ other, Mark.lookup other (settings ++ [(configFold key, value)]) =
      Mark.lookup other settings := by
    intro other
    rw [Mark.lookup_append]
    by_cases hkey : configFold key = other
    · obtain ⟨found, hfound⟩ := Option.isSome_iff_exists.mp (hkey ▸ hold)
      rw [hfound]
      rfl
    · rw [if_neg hkey, Option.or_none]
  have hsettings : settings ≠ [] := by
    rintro rfl
    exact Bool.noConfusion hold
  refine ⟨h.holds, fun name occurrence other ↦ ?_, fun name ↦ ?_,
    fun hnone ↦ absurd (hinside.symm.trans hnone) (by decide), fun _ ↦ ⟨before, _, rfl, hoccurrence⟩⟩
  · rw [hvalues]
    by_cases hhere : name = configFold reader.sectionName ∧
        occurrence = (Mark.named (configFold reader.sectionName) before).length
    · obtain ⟨rfl, rfl⟩ := hhere
      rw [Mark.valueOf_last, Mark.valueOf_last, hlookup]
    · exact Mark.valueOf_not_last hhere ..
  · rw [hnext, Mark.named_last, Mark.named_last]
    by_cases hname : configFold reader.sectionName = configFold name
    · simp [hname, hsettings]
    · rw [if_neg fun hsame ↦ hname hsame.1, if_neg fun hsame ↦ hname hsame.1]

theorem configParseLine_reading (h : Reading marks reader) (line : List UInt8) (number : ℕ) :
    Reading (marks ++ (lineMark line).toList) (configParseLine reader line number).2 := by
  have hsame : Reading (marks ++ []) reader := by rwa [List.append_nil]
  have hfault : ∀ fault, Reading (marks ++ []) (configRecordFault reader number fault) := by
    intro fault
    rw [List.append_nil]
    exact h.fault number fault
  unfold configParseLine lineMark
  dsimp only
  cases line.dropWhile configIsSpace with
  | nil => exact hsame
  | cons c rest =>
      dsimp only
      by_cases hcomment : c = byteOf '#'
      · rw [if_pos hcomment, if_pos hcomment]
        exact hsame
      rw [if_neg hcomment, if_neg hcomment]
      by_cases hheader : c = byteOf '['
      · rw [if_pos hheader, if_pos hheader]
        cases configHeader rest with
        | error fault => exact hfault fault
        | ok sectionName => exact h.header sectionName
      rw [if_neg hheader, if_neg hheader]
      by_cases hsection : reader.haveSection = true
      · rw [if_neg fun hnone ↦ hnone hsection]
        cases configKey (c :: rest) with
        | error fault => exact hfault fault
        | ok setting =>
            obtain ⟨key, after⟩ := setting
            dsimp only
            rw [if_neg fun hfull ↦ hfull (h.holds _)]
            cases configSetting key after with
            | error fault => exact hfault fault
            | ok setting =>
                obtain ⟨key, value⟩ := setting
                dsimp only
                by_cases hkey :
                    configHasKey reader.config reader.sectionName reader.occurrence key = true
                · rw [if_pos hkey]
                  exact (h.duplicate hsection hkey).fault number .duplicateKey
                · rw [if_neg hkey]
                  exact h.setting hsection (Bool.eq_false_iff.mpr hkey)
      · rw [if_pos hsection]
        have hstray : ∀ key value, Reading (marks ++ [.setting key value])
            (configRecordFault reader number .noSection) := fun key value ↦
          (h.stray (Bool.eq_false_iff.mpr hsection)).fault number .noSection
        cases configKey (c :: rest) with
        | error fault => exact hfault .noSection
        | ok setting =>
            obtain ⟨key, after⟩ := setting
            dsimp only
            cases configSetting key after with
            | error fault => exact hfault .noSection
            | ok setting => exact hstray _ _

theorem configParseLines_reading (h : Reading marks reader) (number : ℕ) (raws : List (List UInt8)) :
    Reading (marks ++ marksOf raws) (configParseLines reader number raws).2 := by
  induction raws generalizing reader marks number with
  | nil =>
      rw [show marksOf [] = [] from rfl, List.append_nil]
      exact h
  | cons raw raws ih =>
      have hline := configParseLine_reading h (lineOf raw) number
      have hrest := ih hline (number + 1)
      have hmarks : marks ++ marksOf (raw :: raws) =
          marks ++ (lineMark (lineOf raw)).toList ++ marksOf raws := by
        rw [List.append_assoc]
        congr 1
        unfold marksOf
        rw [List.filterMap_cons]
        cases lineMark (lineOf raw) <;> rfl
      rw [hmarks]
      exact hrest

end OxysOS.Libc
