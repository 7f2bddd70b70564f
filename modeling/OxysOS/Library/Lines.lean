import Mathlib.Data.List.DropRight
import Mathlib.Tactic.Common

/-!
# Lines

The lines of a text are its stretches up to and including a separator, and a last stretch without
one where it is not empty.
-/

namespace OxysOS.Library

variable {α : Type*} [DecidableEq α] {separator a : α} {text before after : List α}

def newline : UInt8 := 0x0A

def lines (separator : α) : List α → List (List α)
  | [] => []
  | a :: text =>
      if a = separator then [a] :: lines separator text
      else match lines separator text with
        | [] => [[a]]
        | line :: more => (a :: line) :: more

/-- The last lines of a text, so many of them. -/
def lastLines (separator : α) (count : ℕ) (text : List α) : List α :=
  ((lines separator text).rtake count).flatten

def unterminated (separator : α) (text : List α) : Bool :=
  text ≠ [] ∧ text.getLast? ≠ some separator

@[simp] theorem lines_nil (separator : α) : lines separator [] = [] := rfl

@[simp] theorem flatten_lines (separator : α) (text : List α) :
    (lines separator text).flatten = text := by
  induction text with
  | nil => rfl
  | cons a text ih =>
      by_cases ha : a = separator
      · simp [lines, ha, ih]
      · cases hlines : lines separator text with
        | nil =>
            have htext : text = [] := by simpa [hlines] using ih.symm
            simp [lines, htext, ha]
        | cons line more =>
            rw [hlines] at ih
            simpa [lines, ha, hlines] using ih

theorem ne_nil_of_mem_lines {line : List α} (h : line ∈ lines separator text) : line ≠ [] := by
  induction text generalizing line with
  | nil => simp at h
  | cons a text ih =>
      by_cases ha : a = separator
      · rcases List.mem_cons.mp (by simpa [lines, ha] using h) with rfl | h
        · exact List.cons_ne_nil _ _
        · exact ih h
      · cases hlines : lines separator text with
        | nil =>
            have hline : line = [a] := by simpa [lines, ha, hlines] using h
            simp [hline]
        | cons first more =>
            have hline : line = a :: first ∨ line ∈ more := by
              simpa [lines, ha, hlines] using h
            rcases hline with rfl | hmem
            · exact List.cons_ne_nil _ _
            · exact ih (by simp [hlines, hmem])

theorem lines_eq_nil_iff (separator : α) : lines separator text = [] ↔ text = [] := by
  constructor
  · intro h
    have hflatten := flatten_lines separator text
    rw [h] at hflatten
    exact hflatten.symm
  · rintro rfl
    rfl

theorem lines_append_separator (separator : α) (before after : List α) :
    lines separator (before ++ separator :: after) =
      lines separator (before ++ [separator]) ++ lines separator after := by
  induction before with
  | nil => simp [lines]
  | cons a before ih =>
      by_cases ha : a = separator
      · simp [lines, ha, ih]
      · cases hlines : lines separator (before ++ [separator]) with
        | nil =>
            have hempty := (lines_eq_nil_iff separator).mp hlines
            simp at hempty
        | cons line more => simp [lines, ha, ih, hlines]

theorem length_lines_cons (separator a : α) (h : text ≠ []) :
    (lines separator (a :: text)).length =
      (lines separator text).length + if a = separator then 1 else 0 := by
  by_cases ha : a = separator
  · simp [lines, ha]
  · cases hlines : lines separator text with
    | nil => exact absurd ((lines_eq_nil_iff separator).mp hlines) h
    | cons line more => simp [lines, ha, hlines]

theorem length_lines_singleton (separator a : α) : (lines separator [a]).length = 1 := by
  by_cases ha : a = separator <;> simp [lines, ha]

theorem unterminated_append_of_ne_nil (separator : α) (before : List α) (h : after ≠ []) :
    unterminated separator (before ++ after) = unterminated separator after := by
  cases hlast : after.getLast? with
  | none => exact absurd (List.getLast?_eq_none_iff.mp hlast) h
  | some last => simp [unterminated, h, List.getLast?_append, hlast]

theorem length_lines (separator : α) (text : List α) :
    (lines separator text).length =
      text.count separator + if unterminated separator text then 1 else 0 := by
  induction text with
  | nil => rfl
  | cons a text ih =>
      by_cases htext : text = []
      · subst htext
        rw [length_lines_singleton]
        by_cases ha : a = separator <;> simp [ha, unterminated]
      · rw [length_lines_cons separator a htext, ih, ← List.singleton_append,
          unterminated_append_of_ne_nil separator [a] htext, List.count_append]
        by_cases ha : a = separator
        · simp only [ha, List.count_cons_self, List.count_nil, if_true]
          omega
        · simp [ha]

def bareLines (separator : α) (text : List α) : List (List α) :=
  (lines separator text).map fun line ↦ line.takeWhile (· ≠ separator)

@[simp] theorem length_bareLines (separator : α) (text : List α) :
    (bareLines separator text).length = (lines separator text).length :=
  List.length_map ..

@[simp] theorem bareLines_nil (separator : α) : bareLines separator [] = [] := rfl

theorem not_mem_of_mem_bareLines {line : List α} (h : line ∈ bareLines separator text) :
    separator ∉ line := by
  obtain ⟨whole, -, rfl⟩ := List.mem_map.mp h
  intro hmem
  simpa using List.mem_takeWhile_imp hmem

theorem mem_of_mem_bareLines {line : List α} (h : line ∈ bareLines separator text) (ha : a ∈ line) :
    a ∈ text := by
  obtain ⟨whole, hwhole, rfl⟩ := List.mem_map.mp h
  rw [← flatten_lines separator text]
  exact List.mem_flatten_of_mem hwhole (List.takeWhile_subset _ ha)

theorem mem_takeWhile_of_mem_lines {line : List α} (h : line ∈ lines separator text) (ha : a ∈ line)
    (hne : a ≠ separator) : a ∈ line.takeWhile (· ≠ separator) := by
  induction text generalizing line with
  | nil => simp at h
  | cons b text ih =>
      by_cases hb : b = separator
      · rcases List.mem_cons.mp (by simpa [lines, hb] using h) with rfl | h
        · exact absurd (List.mem_singleton.mp ha) hne
        · exact ih h ha
      · cases hlines : lines separator text with
        | nil =>
            obtain rfl : line = [b] := by simpa [lines, hb, hlines] using h
            simpa [hb] using ha
        | cons first more =>
            have hline : line = b :: first ∨ line ∈ more := by
              simpa [lines, hb, hlines] using h
            rcases hline with rfl | hmem
            · rw [List.takeWhile_cons_of_pos (by simpa using hb)]
              rcases List.mem_cons.mp ha with rfl | hfirst
              · exact List.mem_cons_self
              · exact List.mem_cons_of_mem _ (ih (by simp [hlines]) hfirst)
            · exact ih (by simp [hlines, hmem]) ha

theorem exists_mem_bareLines (ha : a ∈ text) (hne : a ≠ separator) :
    ∃ line ∈ bareLines separator text, a ∈ line := by
  rw [← flatten_lines separator text] at ha
  obtain ⟨line, hline, hmem⟩ := List.mem_flatten.mp ha
  exact ⟨_, List.mem_map_of_mem hline, mem_takeWhile_of_mem_lines hline hmem hne⟩

theorem bareLines_line {line : List α} (hline : separator ∉ line) (after : List α) :
    bareLines separator (line ++ separator :: after) = line :: bareLines separator after := by
  have hwhole : lines separator (line ++ [separator]) = [line ++ [separator]] := by
    induction line with
    | nil => simp [lines]
    | cons a line ih =>
        simp only [List.mem_cons, not_or] at hline
        simp [lines, Ne.symm hline.1, ih hline.2]
  have htake : (line ++ [separator]).takeWhile (· ≠ separator) = line := by
    rw [List.takeWhile_append_of_pos]
    · simp
    · intro a ha
      simpa using ne_of_mem_of_not_mem ha hline
  rw [bareLines, lines_append_separator, hwhole]
  simp only [List.cons_append, List.nil_append, List.map_cons, htake, bareLines]

theorem bareLines_append (h : unterminated separator before = false) (after : List α) :
    bareLines separator (before ++ after) =
      bareLines separator before ++ bareLines separator after := by
  induction before using List.reverseRecOn with
  | nil => rfl
  | append_singleton before a =>
      obtain rfl : a = separator := by simpa [unterminated] using h
      rw [List.append_assoc, List.singleton_append, bareLines, lines_append_separator,
        List.map_append]
      rfl

theorem bareLines_append_separator (h : unterminated separator text = true) :
    bareLines separator (text ++ [separator]) = bareLines separator text := by
  induction text with
  | nil => simp [unterminated] at h
  | cons a text ih =>
      by_cases htext : text = []
      · subst htext
        have ha : a ≠ separator := by simpa [unterminated] using h
        simp [bareLines, lines, ha]
      · have hrest := ih (by
          rwa [← List.singleton_append, unterminated_append_of_ne_nil separator [a] htext] at h)
        by_cases ha : a = separator
        · simpa [bareLines, lines, ha] using hrest
        · cases hlines : lines separator text with
          | nil => exact absurd ((lines_eq_nil_iff separator).mp hlines) htext
          | cons line more =>
              cases hlonger : lines separator (text ++ [separator]) with
              | nil => simp [bareLines, hlines, hlonger] at hrest
              | cons line' more' =>
                  simp only [bareLines, hlines, hlonger, List.map_cons, List.cons.injEq] at hrest
                  simpa [bareLines, lines, ha, hlines, hlonger] using hrest

theorem bareLines_flatten {texts : List (List α)}
    (h : texts.Pairwise fun before after ↦ unterminated separator before = true → after = []) :
    bareLines separator texts.flatten = texts.flatMap (bareLines separator) := by
  induction texts with
  | nil => rfl
  | cons text texts ih =>
      obtain ⟨hfirst, hrest⟩ := List.pairwise_cons.mp h
      rw [List.flatten_cons, List.flatMap_cons, ← ih hrest]
      cases hterminated : unterminated separator text with
      | false => exact bareLines_append hterminated _
      | true =>
          have hempty : texts.flatten = [] :=
            List.flatten_eq_nil_iff.mpr fun after hafter ↦ hfirst after hafter hterminated
          simp [hempty]

theorem length_lines_flatten (texts : List (List α)) :
    (lines separator texts.flatten).length ≤ (texts.flatMap (bareLines separator)).length ∧
    ((lines separator texts.flatten).length = (texts.flatMap (bareLines separator)).length ↔
      texts.Pairwise fun before after ↦ unterminated separator before = true → after = []) := by
  induction texts with
  | nil => simp
  | cons text texts ih =>
      rw [List.flatten_cons, List.flatMap_cons, List.length_append, length_bareLines,
        List.pairwise_cons]
      by_cases hrest : texts.flatten = []
      · have hempty : ∀ after ∈ texts, after = [] := List.flatten_eq_nil_iff.mp hrest
        have hnone : texts.flatMap (bareLines separator) = [] := by
          simp only [List.flatMap_eq_nil_iff]
          intro after hafter
          rw [hempty after hafter, bareLines_nil]
        rw [hrest] at ih
        rw [hrest, hnone, List.append_nil]
        simp only [hnone, lines_nil, List.length_nil, le_refl, true_and, true_iff] at ih
        simpa [ih] using fun after hafter _ ↦ hempty after hafter
      · obtain ⟨after, hafter, hne⟩ : ∃ after ∈ texts, after ≠ [] := by
          simpa using hrest
        have hforall : (∀ after ∈ texts, unterminated separator text = true → after = []) ↔
            unterminated separator text = false := by
          constructor
          · intro h
            by_contra hnot
            exact hne (h after hafter (by simpa using hnot))
          · intro h after hafter htrue
            simp [h] at htrue
        have hwhole : (lines separator (text ++ texts.flatten)).length =
            text.count separator + (lines separator texts.flatten).length := by
          rw [length_lines, length_lines, unterminated_append_of_ne_nil separator text hrest,
            List.count_append]
          omega
        obtain ⟨hle, hiff⟩ := ih
        rw [hforall, hwhole, length_lines separator text, ← hiff]
        cases unterminated separator text <;>
          simp only [Bool.false_eq_true, if_true, if_false, true_and, false_and, iff_false,
            reduceCtorEq] <;> omega

theorem lastLines_of_length_le {count : ℕ} (h : (lines separator text).length ≤ count) :
    lastLines separator count text = text := by
  simp [lastLines, List.rtake, Nat.sub_eq_zero_of_le h]

theorem lastLines_append_separator (separator : α) (before after : List α) :
    lastLines separator (lines separator after).length (before ++ separator :: after) = after := by
  rw [lastLines, lines_append_separator]
  simp [List.rtake]

omit [DecidableEq α] in
theorem length_flatten_rtake_lt {parts : List (List α)} (hparts : ∀ part ∈ parts, part ≠ [])
    {fewer more : ℕ} (hlt : fewer < more) (hfewer : fewer < parts.length) :
    (parts.rtake fewer).flatten.length < (parts.rtake more).flatten.length := by
  have hsplit : parts.rtake more =
      (parts.drop (parts.length - more)).take (min more parts.length - fewer) ++
        parts.rtake fewer := by
    have hdrop : parts.rtake fewer =
        (parts.drop (parts.length - more)).drop (min more parts.length - fewer) := by
      rw [List.rtake, List.drop_drop]
      congr 1
      omega
    rw [hdrop, List.take_append_drop]
    rfl
  obtain ⟨part, hpart⟩ : ∃ part, part ∈
      (parts.drop (parts.length - more)).take (min more parts.length - fewer) := by
    apply List.exists_mem_of_ne_nil
    simp
    omega
  have hpositive := List.length_pos_iff.mpr
    (hparts part (List.mem_of_mem_drop (List.mem_of_mem_take hpart)))
  have hsum : 0 < ((parts.drop (parts.length - more)).take
      (min more parts.length - fewer)).flatten.length :=
    hpositive.trans_le (List.Sublist.length_le (List.sublist_flatten_of_mem hpart))
  rw [hsplit, List.flatten_append, List.length_append]
  omega

theorem lastLines_eq_iff {count other : ℕ} :
    lastLines separator count text = lastLines separator other text ↔
      count = other ∨
        (lines separator text).length ≤ count ∧ (lines separator text).length ≤ other := by
  have hne : ∀ fewer more, fewer < more → fewer < (lines separator text).length →
      lastLines separator fewer text ≠ lastLines separator more text := by
    intro fewer more hlt hfewer heq
    have hlength := length_flatten_rtake_lt (fun _ ↦ ne_nil_of_mem_lines) hlt hfewer
    exact hlength.ne (congrArg List.length heq)
  constructor
  · intro h
    by_contra hnot
    rcases lt_trichotomy count other with hlt | heq | hgt
    · exact hne count other hlt (by omega) h
    · exact hnot (Or.inl heq)
    · exact hne other count hgt (by omega) h.symm
  · rintro (rfl | ⟨hcount, hother⟩)
    · rfl
    · rw [lastLines_of_length_le hcount, lastLines_of_length_le hother]

end OxysOS.Library
