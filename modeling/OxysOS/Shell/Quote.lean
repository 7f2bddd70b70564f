import OxysOS.Shell.Parser
import Mathlib.Data.Bool.AllAny
import Mathlib.Data.List.TakeWhile

/-!
# Quoted words

A word as it is written where it may have any character: bare where none is special, and
within single quotes otherwise, each that is in the word written `'\''`.  The tokeniser
goes over it as one word and quote removal gives it back.
-/

namespace OxysOS.Shell

open OxysOS.Library

def wordSpecials : List UInt8 := " \t\n|&;<>()\\'\"$".toList.map byteOf

def quotedSpecials : List UInt8 := wordSpecials ++ [byteOf '#', byteOf '=', 0x60]

def IsBare (word : List UInt8) : Prop :=
  word ≠ [] ∧ (∀ character ∈ word, character ∉ quotedSpecials) ∧ word ∉ shellCompoundWords ∧
    word ≠ [byteOf '!']

instance (word : List UInt8) : Decidable (IsBare word) :=
  have : Decidable (∀ character ∈ word, character ∉ quotedSpecials) := List.decidableBAll _ _
  inferInstanceAs (Decidable (_ ∧ _ ∧ _ ∧ _))

def quoteWithin : List UInt8 → List UInt8
  | [] => []
  | character :: rest =>
      if character = byteOf '\'' then
        byteOf '\'' :: byteOf '\\' :: byteOf '\'' :: byteOf '\'' :: quoteWithin rest
      else character :: quoteWithin rest

def quoteWord (word : List UInt8) : List UInt8 :=
  if IsBare word then word else byteOf '\'' :: (quoteWithin word ++ [byteOf '\''])

def quoteAssignment (word : List UInt8) : List UInt8 :=
  word.takeWhile (· ≠ byteOf '=') ++
    byteOf '=' :: quoteWord (word.dropWhile (· ≠ byteOf '=')).tail

variable {word rest : List UInt8} {character : UInt8}

theorem not_endsWord (h : character ∉ wordSpecials) : ¬shellEndsWord character := by
  intro hends
  have hmem : character ∈ [byteOf ' ', byteOf '\t', byteOf '\n', byteOf '|', byteOf '&',
      byteOf ';', byteOf '<', byteOf '>', byteOf '(', byteOf ')'] := by
    simp only [shellEndsWord, shellIsBlank, shellStartsOperator, decide_eq_true_eq] at hends
    change _ ∨ _ ∨ character ∈ [byteOf '|', byteOf '&', byteOf ';', byteOf '<', byteOf '>',
      byteOf '(', byteOf ')'] at hends
    simp only [List.mem_cons, List.not_mem_nil, or_false] at hends ⊢
    tauto
  have hsub : ∀ special ∈ [byteOf ' ', byteOf '\t', byteOf '\n', byteOf '|', byteOf '&',
      byteOf ';', byteOf '<', byteOf '>', byteOf '(', byteOf ')'], special ∈ wordSpecials :=
    List.all_iff_forall_prop.mp (by decide)
  exact h (hsub character hmem)

theorem shellWordExtent_ordinary (h : character ∉ wordSpecials) (rest : List UInt8) :
    shellWordExtent (character :: rest) = shellWordExtent rest := by
  have hne : ∀ special ∈ wordSpecials, character ≠ special := fun special hmem heq ↦
    h (heq ▸ hmem)
  rw [shellWordExtent.eq_def]
  dsimp only
  rw [if_neg (hne (byteOf '\\') (by decide)), if_neg (hne (byteOf '\'') (by decide)),
    if_neg (hne (byteOf '"') (by decide)), if_neg fun hset ↦ hne (byteOf '$') (by decide) hset.1,
    if_neg (not_endsWord h)]

theorem shellWordExtent_append (h : ∀ character ∈ word, character ∉ wordSpecials)
    (rest : List UInt8) : shellWordExtent (word ++ rest) = shellWordExtent rest := by
  induction word with
  | nil => rfl
  | cons character word ih =>
      rw [List.cons_append, shellWordExtent_ordinary (h character List.mem_cons_self)]
      exact ih fun other hmem ↦ h other (List.mem_cons_of_mem _ hmem)

theorem shellWordExtent_single (rest : List UInt8) :
    shellWordExtent (byteOf '\'' :: rest) = (afterSingle rest).bind shellWordExtent := by
  rw [shellWordExtent.eq_def]
  dsimp only
  rw [if_neg (by decide), if_pos rfl]
  cases afterSingle rest <;> rfl

theorem shellWordExtent_escaped (rest : List UInt8) :
    shellWordExtent (byteOf '\\' :: byteOf '\'' :: rest) = shellWordExtent rest := by
  rw [shellWordExtent.eq_def]
  exact if_pos rfl

theorem afterSingle_ne (h : character ≠ byteOf '\'') (rest : List UInt8) :
    afterSingle (character :: rest) = afterSingle rest := by
  rw [afterSingle, if_neg h]

theorem afterSingle_quoteWithin (word rest : List UInt8) :
    (afterSingle (quoteWithin word ++ byteOf '\'' :: rest)).bind shellWordExtent =
      shellWordExtent rest := by
  induction word with
  | nil => rfl
  | cons character word ih =>
      unfold quoteWithin
      by_cases hquote : character = byteOf '\''
      · rw [if_pos hquote]
        -- the quotation is closed, a quote is escaped and another one is begun
        change shellWordExtent (byteOf '\\' :: byteOf '\'' :: byteOf '\'' ::
          (quoteWithin word ++ byteOf '\'' :: rest)) = _
        rw [shellWordExtent_escaped, shellWordExtent_single, ih]
      · rw [if_neg hquote, List.cons_append, afterSingle_ne hquote]
        exact ih

theorem IsBare.ordinary (h : IsBare word) : ∀ character ∈ word, character ∉ wordSpecials :=
  fun character hmem hspecial ↦ h.2.1 character hmem (List.mem_append_left _ hspecial)

theorem shellWordExtent_quoteWord (word rest : List UInt8) :
    shellWordExtent (quoteWord word ++ rest) = shellWordExtent rest := by
  unfold quoteWord
  by_cases hbare : IsBare word
  · rw [if_pos hbare]
    exact shellWordExtent_append hbare.ordinary rest
  · rw [if_neg hbare, List.cons_append, shellWordExtent_single, List.append_assoc]
    exact afterSingle_quoteWithin word rest

theorem eq_or_ne_quoteWord (word : List UInt8) :
    (quoteWord word = word ∧ IsBare word) ∨
      ∃ rest, quoteWord word = byteOf '\'' :: (rest ++ [byteOf '\'']) := by
  unfold quoteWord
  by_cases hbare : IsBare word
  · exact Or.inl ⟨if_pos hbare, hbare⟩
  · exact Or.inr ⟨_, if_neg hbare⟩

theorem quoteWord_ordinary (word : List UInt8) :
    ¬shellIsAssignmentWord (quoteWord word) ∧ ¬shellIsCompoundWord (quoteWord word) ∧
      quoteWord word ≠ [byteOf '!'] := by
  rcases eq_or_ne_quoteWord word with ⟨heq, hbare⟩ | ⟨rest, heq⟩
  · rw [heq]
    refine ⟨fun hassignment ↦ ?_, fun hcompound ↦ ?_, hbare.2.2.2⟩
    · have hmem := (of_decide_eq_true hassignment).1
      exact hbare.2.1 _ hmem (by decide)
    · exact hbare.2.2.1 (of_decide_eq_true hcompound)
  · rw [heq]
    refine ⟨fun hassignment ↦ ?_, fun hcompound ↦ ?_, fun hbang ↦ ?_⟩
    · have hname := (of_decide_eq_true hassignment).2
      rw [List.takeWhile_cons_of_pos (by decide)] at hname
      have hquote := (of_decide_eq_true hname).2.2.2 (byteOf '\'') List.mem_cons_self
      exact absurd hquote (by decide)
    · have hmem := of_decide_eq_true hcompound
      have hhead : ∀ compound ∈ shellCompoundWords, compound.head? ≠ some (byteOf '\'') := by
        decide
      exact hhead _ hmem rfl
    · exact absurd (List.cons.inj hbang).1 (by decide)

theorem name_ordinary {name : List UInt8} (h : shellIsName name) :
    ∀ character ∈ name, character ∉ quotedSpecials := by
  intro character hmem hspecial
  have hcharacter := (of_decide_eq_true h).2.2.2 character hmem
  have hnone : ∀ special ∈ quotedSpecials,
      ¬((byteOf 'a' ≤ special ∧ special ≤ byteOf 'z') ∨
        (byteOf 'A' ≤ special ∧ special ≤ byteOf 'Z') ∨
        shellIsDigit special ∨ special = byteOf '_') :=
    List.all_iff_forall_prop.mp (by decide)
  exact hnone character hspecial hcharacter

theorem shellWordExtent_quoteAssignment (h : shellIsAssignmentWord word) (rest : List UInt8) :
    shellWordExtent (quoteAssignment word ++ rest) = shellWordExtent rest := by
  have hname := name_ordinary (of_decide_eq_true h).2
  unfold quoteAssignment
  rw [List.append_assoc, shellWordExtent_append fun character hmem hspecial ↦
    hname character hmem (List.mem_append_left _ hspecial), List.cons_append,
    shellWordExtent_ordinary (by decide), shellWordExtent_quoteWord]

theorem shellIsAssignmentWord_quoteAssignment (h : shellIsAssignmentWord word) :
    shellIsAssignmentWord (quoteAssignment word) := by
  have hname := (of_decide_eq_true h).2
  have hbefore : ∀ character ∈ word.takeWhile (· ≠ byteOf '='),
      decide (character ≠ byteOf '=') = true := fun character hmem ↦ by
    have hne := List.mem_takeWhile_imp hmem
    exact hne
  have hkeeps : (quoteAssignment word).takeWhile (· ≠ byteOf '=') =
      word.takeWhile (· ≠ byteOf '=') := by
    unfold quoteAssignment
    rw [List.takeWhile_append_of_pos hbefore,
      List.takeWhile_cons_of_neg (by decide), List.append_nil]
  refine decide_eq_true ⟨List.mem_append_right _ List.mem_cons_self, ?_⟩
  rwa [hkeeps]

theorem quoteAssignment_head (h : shellIsAssignmentWord word) : ∃ first rest,
    quoteAssignment word = first :: rest ∧ first ∉ quotedSpecials ∧ ¬shellIsDigit first := by
  have hname := (of_decide_eq_true h).2
  have hordinary := name_ordinary hname
  unfold quoteAssignment
  rcases hsplit : word.takeWhile (· ≠ byteOf '=') with _ | ⟨first, rest⟩
  · rw [hsplit] at hname
    exact absurd rfl (of_decide_eq_true hname).1
  · rw [hsplit] at hname hordinary
    refine ⟨first, _, rfl, hordinary first List.mem_cons_self, fun hdigit ↦ ?_⟩
    exact (of_decide_eq_true hname).2.2.1 hdigit

end OxysOS.Shell
