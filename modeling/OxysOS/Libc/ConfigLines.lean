import OxysOS.Libc.ConfigEdit
import OxysOS.Libc.ConfigMarks

/-!
# Lines that are made, and what they say

How a text is put together again from its lines, and what the parser reads in
the lines that an edit writes.
-/

namespace OxysOS.Libc

open OxysOS.Library

variable {raws before after : List (List UInt8)} {line raw key value name : List UInt8}

def Terminated (raw : List UInt8) : Prop := ∃ line, raw = line ++ [byteOf '\n'] ∧ byteOf '\n' ∉ line

/-- The lines of a text: each ends in the newline it has, but for the last. -/
inductive IsLines : List (List UInt8) → Prop
  | nil : IsLines []
  | last (line : List UInt8) (hne : line ≠ []) (hline : byteOf '\n' ∉ line) : IsLines [line]
  | cons (raw : List UInt8) (raws : List (List UInt8)) (hraw : Terminated raw)
      (hraws : IsLines raws) : IsLines (raw :: raws)

theorem rawLines_of_not_mem (hne : line ≠ []) (hline : byteOf '\n' ∉ line) :
    rawLines line = [line] := by
  induction line with
  | nil => exact absurd rfl hne
  | cons c line ih =>
      have hc : c ≠ byteOf '\n' := fun heq ↦ hline (heq ▸ List.mem_cons_self)
      unfold rawLines
      rw [if_neg hc]
      cases line with
      | nil => rfl
      | cons d line =>
          rw [ih (List.cons_ne_nil _ _) fun hmem ↦ hline (List.mem_cons_of_mem c hmem)]

theorem rawLines_terminated (hline : byteOf '\n' ∉ line) (text : List UInt8) :
    rawLines (line ++ byteOf '\n' :: text) = (line ++ [byteOf '\n']) :: rawLines text := by
  induction line with
  | nil =>
      rw [List.nil_append, List.nil_append]
      conv_lhs => unfold rawLines
      rw [if_pos rfl]
  | cons c line ih =>
      have hc : c ≠ byteOf '\n' := fun heq ↦ hline (heq ▸ List.mem_cons_self)
      rw [List.cons_append]
      conv_lhs => unfold rawLines
      rw [if_neg hc, ih fun hmem ↦ hline (List.mem_cons_of_mem c hmem)]
      rfl

theorem IsLines.rawLines (h : IsLines raws) : rawLines raws.flatten = raws := by
  induction h with
  | nil => rfl
  | last line hne hline => simpa using rawLines_of_not_mem hne hline
  | cons raw raws hraw hraws ih =>
      obtain ⟨line, rfl, hline⟩ := hraw
      rw [List.flatten_cons, List.append_assoc, List.singleton_append, rawLines_terminated hline, ih]

theorem IsLines.append (hbefore : ∀ raw ∈ before, Terminated raw) (h : IsLines after) :
    IsLines (before ++ after) := by
  induction before with
  | nil => exact h
  | cons raw before ih =>
      exact .cons _ _ (hbefore raw List.mem_cons_self)
        (ih fun other hother ↦ hbefore other (List.mem_cons_of_mem raw hother))

theorem IsLines.split (h : IsLines (before ++ after)) :
    IsLines after ∧ (after ≠ [] → ∀ raw ∈ before, Terminated raw) := by
  induction before with
  | nil => exact ⟨h, fun _ ↦ nofun⟩
  | cons raw before ih =>
      generalize hlines : raw :: before ++ after = lines at h
      cases h with
      | nil => exact absurd hlines (List.cons_ne_nil _ _)
      | last line hne hline =>
          have hnone := (List.append_eq_nil_iff.mp (List.cons.inj hlines).2).2
          subst hnone
          exact ⟨.nil, fun hsome ↦ absurd rfl hsome⟩
      | cons _ _ hraw hraws =>
          obtain ⟨rfl, rfl⟩ := List.cons.inj hlines
          obtain ⟨hafter, hterminated⟩ := ih hraws
          refine ⟨hafter, fun hne other hother ↦ ?_⟩
          rcases List.mem_cons.mp hother with rfl | hother
          · exact hraw
          · exact hterminated hne other hother

theorem editSame_eq (text name : List UInt8) : editSame text name = configSame text name := by
  fun_induction editSame text name with
  | case1 c text d name hne =>
      unfold configSame
      exact (if_pos hne).symm
  | case2 c text d name hsame ih =>
      unfold configSame
      rw [ih]
      exact (if_neg hsame).symm
  | case3 => rfl
  | case4 text name hcons hnil =>
      cases text with
      | nil =>
          cases name with
          | nil => exact absurd rfl (hnil rfl)
          | cons d name => rfl
      | cons c text =>
          cases name with
          | nil => rfl
          | cons d name => exact (hcons c text d name rfl rfl).elim

theorem editIsSpace_eq : editIsSpace = configIsSpace := rfl

theorem lower_of_upper (c : UInt8) (h : byteOf 'A' ≤ c ∧ c ≤ byteOf 'Z') :
    byteOf 'a' ≤ c - byteOf 'A' + byteOf 'a' ∧ c - byteOf 'A' + byteOf 'a' ≤ byteOf 'z' := by
  obtain ⟨hlow, hhigh⟩ := h
  rw [UInt8.le_iff_toNat_le] at hlow hhigh ⊢
  rw [UInt8.le_iff_toNat_le, UInt8.toNat_add, UInt8.toNat_sub_of_le _ _ (UInt8.le_iff_toNat_le.mpr hlow)]
  change 65 ≤ c.toNat at hlow
  change c.toNat ≤ 90 at hhigh
  change 97 ≤ (c.toNat - 65 + 97) % 256 ∧ (c.toNat - 65 + 97) % 256 ≤ 122
  omega

theorem eq_of_configLower {c d : UInt8} (hcase : configLower c = configLower d)
    (hd : ¬(byteOf 'A' ≤ d ∧ d ≤ byteOf 'Z') ∧ ¬(byteOf 'a' ≤ d ∧ d ≤ byteOf 'z')) : c = d := by
  unfold configLower at hcase
  rw [if_neg hd.1] at hcase
  split at hcase
  · rename_i hupper
    refine absurd ?_ hd.2
    rw [← hcase]
    exact lower_of_upper c hupper
  · exact hcase

theorem mem_of_configFold {c : UInt8} (hfold : configFold line = configFold key)
    (hc : ¬(byteOf 'A' ≤ c ∧ c ≤ byteOf 'Z') ∧ ¬(byteOf 'a' ≤ c ∧ c ≤ byteOf 'z')) (hmem : c ∈ line) :
    c ∈ key := by
  have hlower : configLower c ∈ configFold key := by
    rw [← hfold]
    exact List.mem_map_of_mem hmem
  obtain ⟨d, hd, heq⟩ := List.mem_map.mp hlower
  rwa [← eq_of_configLower heq hc]

theorem cString_eq (h : 0 ∉ line) : cString line = line :=
  List.takeWhile_eq_self_iff.mpr fun _ hc ↦ decide_eq_true fun hzero ↦ h (hzero ▸ hc)

theorem takeWhile_append_stop {p : UInt8 → Bool} {c : UInt8} (hline : ∀ d ∈ line, p d = true)
    (hc : p c = false) (rest : List UInt8) : (line ++ c :: rest).takeWhile p = line := by
  rw [List.takeWhile_append_of_pos hline, List.takeWhile_cons_of_neg (by simp [hc]),
    List.append_nil]

def Unspaced (string : List UInt8) : Prop :=
  (∀ c, string.head? = some c → configIsSpace c = false) ∧
    ∀ c, string.getLast? = some c → configIsSpace c = false

theorem Unspaced.dropWhile (h : Unspaced line) : line.dropWhile configIsSpace = line := by
  cases line with
  | nil => rfl
  | cons c line => exact List.dropWhile_cons_of_neg (by simp [h.1 c rfl])

theorem Unspaced.rdropWhile (h : Unspaced line) : line.rdropWhile configIsSpace = line := by
  rw [List.rdropWhile_eq_self_iff]
  intro hne
  simp [h.2 _ (List.getLast?_eq_some_getLast hne)]

theorem Unspaced.trim (h : Unspaced line) : trim line = line := by
  unfold Libc.trim
  rw [h.dropWhile, h.rdropWhile]

structure PlainKey (key : List UInt8) : Prop where
  nonempty : key ≠ []
  room : key.length ≤ configKeyMaximum
  zero : 0 ∉ key
  equals : byteOf '=' ∉ key
  comment : byteOf '#' ∉ key
  newline : byteOf '\n' ∉ key
  header : key.head? ≠ some (byteOf '[')
  unspaced : Unspaced key

structure PlainValue (value : List UInt8) : Prop where
  zero : 0 ∉ value
  accepted : editValueAccepted value = true
  quote : value.head? ≠ some (byteOf '"')

theorem PlainValue.room (h : PlainValue value) : value.length ≤ configValueMaximum := by
  have haccepted := h.accepted
  simp only [editValueAccepted, decide_eq_true_eq, not_or, not_lt] at haccepted
  exact haccepted.1

theorem PlainValue.unspaced (h : PlainValue value) : Unspaced value := by
  have haccepted := h.accepted
  simp only [editValueAccepted, decide_eq_true_eq, not_or] at haccepted
  obtain ⟨-, hhead, hlast, -⟩ := haccepted
  constructor
  · intro c hc
    rw [hc] at hhead
    exact Bool.eq_false_iff.mpr hhead
  · intro c hc
    rw [hc] at hlast
    exact Bool.eq_false_iff.mpr hlast

theorem PlainValue.newline (h : PlainValue value) : byteOf '\n' ∉ value := by
  have haccepted := h.accepted
  simp only [editValueAccepted, decide_eq_true_eq, not_or] at haccepted
  exact haccepted.2.2.2.1

theorem PlainValue.comment (h : PlainValue value) : byteOf '#' ∉ value := by
  have haccepted := h.accepted
  simp only [editValueAccepted, decide_eq_true_eq, not_or] at haccepted
  exact haccepted.2.2.2.2

theorem given_zero (hkey : PlainKey key) (hfold : configFold line = configFold key) : 0 ∉ line :=
  fun hmem ↦ hkey.zero (mem_of_configFold hfold (by decide) hmem)

theorem lineMark_given {spaces given : List UInt8} {c : UInt8} (after : List UInt8)
    (hspaces : ∀ c ∈ spaces, configIsSpace c = true) (hc : configIsSpace c = false)
    (hcomment : c ≠ byteOf '#') (hheader : c ≠ byteOf '[') (hequals : byteOf '=' ∉ c :: given)
    (hkey : PlainKey key)
    (hfold : configFold ((c :: given).rdropWhile configIsSpace) = configFold key) :
    lineMark (spaces ++ (c :: given) ++ byteOf '=' :: after) =
      match configSetting ((c :: given).rdropWhile configIsSpace) after with
      | .error _ => none
      | .ok (key, value) => some (.setting (configFold key) value) := by
  have hdrop : (spaces ++ (c :: given) ++ byteOf '=' :: after).dropWhile configIsSpace =
      c :: (given ++ byteOf '=' :: after) := by
    rw [List.append_assoc, List.dropWhile_append_of_pos hspaces, List.cons_append,
      List.dropWhile_cons_of_neg (by simp [hc])]
  have hstop : ∀ d ∈ c :: given, decide (d ≠ byteOf '=' ∧ d ≠ byteOf '#') = true := by
    intro d hd
    refine decide_eq_true ⟨fun heq ↦ hequals (heq ▸ hd), fun heq ↦ ?_⟩
    have hsplit := List.rdropWhile_append_rtakeWhile (p := configIsSpace) (l := c :: given)
    rw [heq, ← hsplit, List.mem_append] at hd
    rcases hd with hd | hd
    · exact hkey.comment (mem_of_configFold hfold (by decide) hd)
    · exact absurd (List.mem_rtakeWhile_imp hd) (by decide)
  have htake : (c :: (given ++ byteOf '=' :: after)).takeWhile
      (fun d ↦ decide (d ≠ byteOf '=' ∧ d ≠ byteOf '#')) = c :: given :=
    takeWhile_append_stop hstop (by decide) _
  have hnonempty : (c :: given).rdropWhile configIsSpace ≠ [] := by
    intro hnil
    rw [hnil] at hfold
    exact hkey.nonempty (List.map_eq_nil_iff.mp hfold.symm)
  have hconfigKey : configKey (c :: (given ++ byteOf '=' :: after)) =
      .ok ((c :: given).rdropWhile configIsSpace, after) := by
    have hafter : (c :: (given ++ byteOf '=' :: after)).drop (c :: given).length =
        byteOf '=' :: after := List.drop_append_of_le_length le_rfl |>.trans (by simp)
    unfold configKey
    dsimp only
    rw [htake, hafter, if_neg (by simp), if_neg hnonempty]
    rfl
  unfold lineMark
  rw [hdrop]
  dsimp only
  rw [if_neg hcomment, if_neg hheader]
  generalize configKey (c :: (given ++ byteOf '=' :: after)) = found at hconfigKey ⊢
  subst hconfigKey
  rfl

theorem editSetting_some {kept : List UInt8} (h : editSetting line key = some kept) :
    ∃ spaces before rest, line = spaces ++ before ++ byteOf '=' :: rest ∧
      (∀ c ∈ spaces, configIsSpace c = true) ∧ byteOf '=' ∉ before ∧
      line.dropWhile configIsSpace = before ++ byteOf '=' :: rest ∧
      configFold (before.rdropWhile configIsSpace) = configFold key ∧
      kept = spaces ++ before ++ [byteOf '='] := by
  unfold editSetting at h
  dsimp only at h
  rw [editIsSpace_eq] at h
  split at h
  · rename_i hfound
    obtain ⟨hshort, hsame⟩ := hfound
    rw [editSame_eq, configSame_iff] at hsame
    have hline := List.takeWhile_append_dropWhile (p := configIsSpace) (l := line)
    set spaces := line.takeWhile configIsSpace with hspaces
    set first := line.dropWhile configIsSpace with hfirst
    have hsplit := List.takeWhile_append_dropWhile
      (p := fun c ↦ decide (c ≠ byteOf '=')) (l := first)
    set before := first.takeWhile fun c ↦ decide (c ≠ byteOf '=') with hbefore
    have hstop := List.head?_dropWhile_not (fun c ↦ decide (c ≠ byteOf '=')) first
    cases hrest : first.dropWhile fun c ↦ decide (c ≠ byteOf '=') with
    | nil =>
        rw [hrest, List.append_nil] at hsplit
        exact absurd (congrArg List.length hsplit) hshort.ne
    | cons c rest =>
        rw [hrest] at hsplit hstop
        obtain rfl : c = byteOf '=' := by simpa using hstop
        refine ⟨spaces, before, rest, ?_, fun _ hc ↦ List.mem_takeWhile_imp hc,
          fun hmem ↦ absurd (List.mem_takeWhile_imp hmem) (by simp), hsplit.symm, hsame, ?_⟩
        · rw [List.append_assoc, hsplit, hline]
        · obtain rfl := Option.some.inj h
          have hspan : line.length - first.length + before.length + 1 =
              (spaces ++ before ++ [byteOf '=']).length := by
            rw [← hline, List.length_append, List.length_append, List.length_append,
              Nat.add_sub_cancel]
            rfl
          have hshape : line = (spaces ++ before ++ [byteOf '=']) ++ rest := by
            rw [List.append_assoc, List.append_assoc, List.singleton_append, hsplit, hline]
          rw [hspan]
          conv_lhs => rw [hshape]
          exact List.take_left
  · exact absurd h nofun

def opens (raw : List UInt8) : Bool :=
  ((lineOf raw).dropWhile editIsSpace).head? = some (byteOf '[')

def takes (sectionName raw : List UInt8) : Bool :=
  opens raw ∧ editSame (editHeaderName ((lineOf raw).dropWhile editIsSpace).tail) sectionName

def editSets (key raw : List UInt8) : Option (List UInt8) :=
  match ((lineOf raw).dropWhile editIsSpace).head? with
  | none => none
  | some c => if c = byteOf '[' ∨ c = byteOf '#' then none else editSetting (lineOf raw) key

def idle (raw : List UInt8) : Prop :=
  (lineOf raw).dropWhile editIsSpace = [] ∨
    ((lineOf raw).dropWhile editIsSpace).head? = some (byteOf '#')

structure SetsKey (key raw kept : List UInt8) where
  spaces : List UInt8
  first : UInt8
  given : List UInt8
  rest : List UInt8
  line : lineOf raw = spaces ++ (first :: given) ++ byteOf '=' :: rest
  blank : ∀ c ∈ spaces, configIsSpace c = true
  visible : configIsSpace first = false
  comment : first ≠ byteOf '#'
  header : first ≠ byteOf '['
  equals : byteOf '=' ∉ first :: given
  fold : configFold ((first :: given).rdropWhile configIsSpace) = configFold key
  kept_eq : kept = spaces ++ (first :: given) ++ [byteOf '=']

theorem editSets_some {kept : List UInt8} (hkey : key ≠ []) (h : editSets key raw = some kept) :
    Nonempty (SetsKey key raw kept) := by
  unfold editSets at h
  rw [editIsSpace_eq] at h
  have hstop := List.head?_dropWhile_not configIsSpace (lineOf raw)
  cases hfirst : ((lineOf raw).dropWhile configIsSpace).head? with
  | none =>
      rw [hfirst] at h
      exact absurd h nofun
  | some first =>
      rw [hfirst] at h hstop
      dsimp only at h
      split at h
      · exact absurd h nofun
      · rename_i hkind
        obtain ⟨hheader, hcomment⟩ := not_or.mp hkind
        obtain ⟨spaces, before, rest, hline, hblank, hequals, hdrop, hfold, hkept⟩ :=
          editSetting_some h
        cases before with
        | nil => exact absurd (List.map_eq_nil_iff.mp hfold.symm) hkey
        | cons other given =>
            rw [hdrop] at hfirst
            obtain rfl : other = first := Option.some.inj hfirst
            exact ⟨⟨spaces, other, given, rest, hline, hblank, by simpa using hstop, hcomment,
              hheader, hequals, hfold, hkept⟩⟩

theorem lineMark_sets {kept : List UInt8} (hkey : PlainKey key) (h : editSets key raw = some kept) :
    lineMark (lineOf raw) = none ∨
      ∃ value, lineMark (lineOf raw) = some (.setting (configFold key) value) := by
  obtain ⟨sets⟩ := editSets_some hkey.nonempty h
  rw [sets.line, lineMark_given _ sets.blank sets.visible sets.comment sets.header sets.equals hkey
    sets.fold]
  unfold configSetting configCopyBounded
  split_ifs
  · exact Or.inl rfl
  · rw [cString_eq (given_zero hkey sets.fold)]
    dsimp only
    cases configValueSpan sets.rest with
    | error fault => exact Or.inl rfl
    | ok value =>
        dsimp only
        split_ifs
        · exact Or.inl rfl
        · exact Or.inr ⟨_, congrArg (fun key ↦ some (Mark.setting key _)) sets.fold⟩

end OxysOS.Libc
