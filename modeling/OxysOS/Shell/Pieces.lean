import OxysOS.Shell.Quote
import OxysOS.Shell.Grammar

/-!
# Lines of pieces

A line written piece by piece, with a blank after each but after a descriptor's number,
which stands against its operator.
-/

namespace OxysOS.Shell

open OxysOS.Library

abbrev Piece := ShellTokenKind × List UInt8

def operatorText : ShellTokenKind → List UInt8
  | .pipe => [byteOf '|']
  | .and => [byteOf '&']
  | .semicolon => [byteOf ';']
  | .andIf => [byteOf '&', byteOf '&']
  | .orIf => [byteOf '|', byteOf '|']
  | .less => [byteOf '<']
  | .great => [byteOf '>']
  | .dgreat => [byteOf '>', byteOf '>']
  | .lessAnd => [byteOf '<', byteOf '&']
  | .greatAnd => [byteOf '>', byteOf '&']
  | .lessGreat => [byteOf '<', byteOf '>']
  | .clobber => [byteOf '>', byteOf '|']
  | _ => []

def spelling (piece : Piece) : List UInt8 :=
  piece.2 ++ if piece.1 = .ioNumber then [] else [byteOf ' ']

def spellings (pieces : List Piece) : List UInt8 := pieces.flatMap spelling

def tokensAt (column : ℕ) : List Piece → List ShellToken
  | [] => []
  | piece :: pieces =>
      ⟨piece.1, piece.2, column⟩ :: tokensAt (column + (spelling piece).length) pieces

def textOf (pieces : List Piece) : ℕ := (pieces.map fun piece ↦ piece.2.length + 1).sum

structure WordText (text : List UInt8) : Prop where
  head : ∃ first rest, text = first :: rest ∧ ¬shellEndsWord first ∧ first ≠ byteOf '#' ∧
    (shellIsDigit first → ∀ character ∈ text, character ∉ wordSpecials)
  extent : ∀ rest, shellWordExtent (text ++ rest) = shellWordExtent rest

inductive Printed : List Piece → Prop
  | nil : Printed []
  | word {text pieces} : WordText text → Printed pieces → Printed ((.word, text) :: pieces)
  | operator {kind pieces} : operatorText kind ≠ [] → Printed pieces →
      Printed ((kind, operatorText kind) :: pieces)
  | number {digits kind pieces} : digits ≠ [] → (∀ digit ∈ digits, shellIsDigit digit) →
      (shellRedirectionOf kind).isSome → Printed pieces →
      Printed ((.ioNumber, digits) :: (kind, operatorText kind) :: pieces)

variable {pieces pieces' : List Piece} {text rest : List UInt8} {tokens : ShellTokens}
  {column : ℕ} {character : UInt8} {kind : ShellTokenKind}

theorem Printed.append (h : Printed pieces) (h' : Printed pieces') :
    Printed (pieces ++ pieces') := by
  induction h with
  | nil => exact h'
  | word htext _ ih => exact .word htext ih
  | operator hkind _ ih => exact .operator hkind ih
  | number hsome hdigits hkind _ ih => exact .number hsome hdigits hkind ih

theorem tokensAt_append (column : ℕ) (pieces pieces' : List Piece) :
    tokensAt column (pieces ++ pieces') =
      tokensAt column pieces ++ tokensAt (column + (spellings pieces).length) pieces' := by
  induction pieces generalizing column with
  | nil => rfl
  | cons piece pieces ih =>
      have hlength : (spellings (piece :: pieces)).length =
          (spelling piece).length + (spellings pieces).length := List.length_append
      rw [hlength, List.cons_append, tokensAt, ih, tokensAt, List.cons_append, Nat.add_assoc]

theorem textOf_cons (piece : Piece) (pieces : List Piece) :
    textOf (piece :: pieces) = piece.2.length + 1 + textOf pieces := rfl

theorem mem_of_head_dropWhile {p : UInt8 → Bool} {front : List UInt8} {stop found : UInt8}
    (hstop : ¬p stop) (h : ((front ++ stop :: rest).dropWhile p).head? = some found) :
    found ∈ front ∨ found = stop := by
  induction front with
  | nil =>
      rw [List.nil_append, List.dropWhile_cons_of_neg hstop] at h
      cases h
      exact Or.inr rfl
  | cons character front ih =>
      by_cases hset : p character
      · rw [List.cons_append, List.dropWhile_cons_of_pos hset] at h
        exact (ih h).imp_left (List.mem_cons_of_mem _)
      · rw [List.cons_append, List.dropWhile_cons_of_neg hset] at h
        cases h
        exact Or.inl List.mem_cons_self

theorem shellAppendToken_ok (hcount : tokens.token.length < shellTokenMaximum)
    (htext : tokens.textUsed + text.length + 1 ≤ shellTextMaximum) :
    shellAppendToken tokens kind text column =
      .ok ⟨tokens.token ++ [⟨kind, text, column⟩], tokens.textUsed + (text.length + 1)⟩ := by
  unfold shellAppendToken
  rw [if_neg (not_le.mpr hcount), if_neg (not_lt.mpr htext)]

theorem shellTokeniseFrom_blank (tokens : ShellTokens) (column : ℕ) (rest : List UInt8) :
    shellTokeniseFrom tokens column (byteOf ' ' :: rest) =
      shellTokeniseFrom tokens (column + 1) rest := by
  rw [shellTokeniseFrom, dif_pos (by decide)]

theorem shellIsSpace_endsWord (h : shellIsSpace character) : shellEndsWord character := by
  rcases of_decide_eq_true h with hblank | hline
  · exact decide_eq_true (Or.inl hblank)
  · exact decide_eq_true (Or.inr (Or.inl hline))

theorem shellTokeniseFrom_word (htext : WordText text)
    (hcount : tokens.token.length < shellTokenMaximum)
    (hroom : tokens.textUsed + text.length + 1 ≤ shellTextMaximum) (rest : List UInt8) :
    shellTokeniseFrom tokens column (text ++ byteOf ' ' :: rest) =
      shellTokeniseFrom ⟨tokens.token ++ [⟨.word, text, column⟩],
        tokens.textUsed + (text.length + 1)⟩ (column + text.length + 1) rest := by
  obtain ⟨first, others, rfl, hends, hcomment, hdigit⟩ := htext.head
  have hspace : ¬shellIsSpace first := fun hset ↦ hends (shellIsSpace_endsWord hset)
  have hoperator : ¬shellStartsOperator first := fun hset ↦
    hends (decide_eq_true (Or.inr (Or.inr hset)))
  have hextent : shellWordExtent (first :: others ++ byteOf ' ' :: rest) =
      some (byteOf ' ' :: rest) := by
    rw [htext.extent, shellWordExtent.eq_def]
    rfl
  have hnumber : ¬((first :: others ++ byteOf ' ' :: rest).takeWhile shellIsDigit ≠ [] ∧
      (((first :: others ++ byteOf ' ' :: rest).dropWhile shellIsDigit).head? = some (byteOf '<') ∨
        ((first :: others ++ byteOf ' ' :: rest).dropWhile shellIsDigit).head? =
          some (byteOf '>'))) := by
    rintro ⟨hsome, hafter⟩
    have hfirst : shellIsDigit first := by
      by_contra hnot
      rw [List.cons_append, List.takeWhile_cons_of_neg hnot] at hsome
      exact hsome rfl
    -- what follows the digits is in the word, or is the blank
    have hordinary : ∀ special ∈ wordSpecials, special ≠ byteOf ' ' →
        ((first :: others ++ byteOf ' ' :: rest).dropWhile shellIsDigit).head? ≠ some special := by
      intro special hspecial hblank hhead
      rcases mem_of_head_dropWhile (by decide) hhead with hmem | heq
      · exact hdigit hfirst special hmem hspecial
      · exact hblank heq
    rcases hafter with hafter | hafter
    · exact hordinary (byteOf '<') (by decide) (by decide) hafter
    · exact hordinary (byteOf '>') (by decide) (by decide) hafter
  have hlength : (first :: others ++ byteOf ' ' :: rest).length - (byteOf ' ' :: rest).length =
      (first :: others).length := by
    rw [List.length_append, Nat.add_sub_cancel]
  rw [List.cons_append] at hextent hnumber hlength ⊢
  rw [shellTokeniseFrom, dif_neg hspace, if_neg hcomment, dif_neg hoperator]
  dsimp only
  rw [dif_neg hnumber]
  split
  · next hnone => cases hnone.symm.trans hextent
  · next after hsome =>
      cases hsome.symm.trans hextent
      have htake : (first :: (others ++ byteOf ' ' :: rest)).take (first :: others).length =
          first :: others := List.take_left
      rw [hlength, htake, shellAppendToken_ok hcount hroom]
      exact shellTokeniseFrom_blank _ _ rest

theorem shellReadOperator_operatorText (h : operatorText kind ≠ []) (rest : List UInt8) :
    ∃ first others, operatorText kind = first :: others ∧ ¬shellIsSpace first ∧
      first ≠ byteOf '#' ∧ shellStartsOperator first ∧
      shellReadOperator first ((others ++ byteOf ' ' :: rest).headD 0)
        ((others ++ byteOf ' ' :: rest).tail.headD 0) = (kind, (operatorText kind).length) := by
  cases kind with
  | ending | word | ioNumber | dsemi | dless | dlessDash | leftParen | rightParen =>
      exact absurd rfl h
  | pipe | and | semicolon | andIf | orIf | less | great | dgreat | lessAnd | greatAnd | lessGreat
  | clobber => exact ⟨_, _, rfl, by decide, by decide, by decide, rfl⟩

theorem shellTokeniseFrom_operator (h : operatorText kind ≠ [])
    (hcount : tokens.token.length < shellTokenMaximum)
    (hroom : tokens.textUsed + (operatorText kind).length + 1 ≤ shellTextMaximum)
    (rest : List UInt8) :
    shellTokeniseFrom tokens column (operatorText kind ++ byteOf ' ' :: rest) =
      shellTokeniseFrom ⟨tokens.token ++ [⟨kind, operatorText kind, column⟩],
        tokens.textUsed + ((operatorText kind).length + 1)⟩
        (column + (operatorText kind).length + 1) rest := by
  obtain ⟨first, others, htext, hspace, hcomment, hoperator, hread⟩ :=
    shellReadOperator_operatorText h rest
  have htake : (first :: (others ++ byteOf ' ' :: rest)).take (operatorText kind).length =
      operatorText kind := by
    rw [htext]
    exact List.take_left
  have hdrop : (first :: (others ++ byteOf ' ' :: rest)).drop (operatorText kind).length =
      byteOf ' ' :: rest := by
    rw [htext]
    exact List.drop_left
  have hline : operatorText kind ++ byteOf ' ' :: rest =
      first :: (others ++ byteOf ' ' :: rest) := by
    rw [htext, List.cons_append]
  rw [hline, shellTokeniseFrom, dif_neg hspace, if_neg hcomment, dif_pos hoperator]
  dsimp only
  rw [hread]
  dsimp only
  rw [htake, hdrop, shellAppendToken_ok hcount hroom]
  exact shellTokeniseFrom_blank _ _ rest

theorem digit_ordinary (h : shellIsDigit character) : ¬shellIsSpace character ∧
    character ≠ byteOf '#' ∧ ¬shellStartsOperator character := by
  have hnone : ∀ special ∈ byteOf '#' :: wordSpecials, ¬shellIsDigit special :=
    List.all_iff_forall_prop.mp (by decide)
  have hends : ¬shellEndsWord character :=
    not_endsWord fun hmem ↦ hnone character (List.mem_cons_of_mem _ hmem) h
  refine ⟨fun hset ↦ hends (shellIsSpace_endsWord hset), ?_, fun hset ↦
    hends (decide_eq_true (Or.inr (Or.inr hset)))⟩
  rintro rfl
  exact hnone _ List.mem_cons_self h

theorem operatorText_redirection (h : (shellRedirectionOf kind).isSome) :
    ∃ first others, operatorText kind = first :: others ∧
      (first = byteOf '<' ∨ first = byteOf '>') := by
  cases kind with
  | less | lessAnd | lessGreat => exact ⟨_, _, rfl, Or.inl rfl⟩
  | great | dgreat | greatAnd | clobber => exact ⟨_, _, rfl, Or.inr rfl⟩
  | pipe | and | semicolon | andIf | orIf | ending | word | ioNumber | dsemi | dless | dlessDash
  | leftParen | rightParen => cases h

theorem shellTokeniseFrom_number {digits : List UInt8} (hsome : digits ≠ [])
    (hdigits : ∀ digit ∈ digits, shellIsDigit digit) (hkind : (shellRedirectionOf kind).isSome)
    (hcount : tokens.token.length < shellTokenMaximum)
    (hroom : tokens.textUsed + digits.length + 1 ≤ shellTextMaximum) (rest : List UInt8) :
    shellTokeniseFrom tokens column (digits ++ (operatorText kind ++ rest)) =
      shellTokeniseFrom ⟨tokens.token ++ [⟨.ioNumber, digits, column⟩],
        tokens.textUsed + (digits.length + 1)⟩ (column + digits.length)
        (operatorText kind ++ rest) := by
  obtain ⟨bracket, others, htext, hbracket⟩ := operatorText_redirection hkind
  obtain ⟨first, more, rfl⟩ := List.exists_cons_of_ne_nil hsome
  obtain ⟨hspace, hcomment, hoperator⟩ := digit_ordinary (hdigits first List.mem_cons_self)
  have hstop : ¬shellIsDigit bracket := by
    rcases hbracket with rfl | rfl <;> decide
  have hcons : operatorText kind ++ rest = bracket :: (others ++ rest) := by
    rw [htext, List.cons_append]
  have htake : (first :: more ++ (operatorText kind ++ rest)).takeWhile shellIsDigit =
      first :: more := by
    rw [List.takeWhile_append_of_pos hdigits, hcons,
      List.takeWhile_cons_of_neg hstop, List.append_nil]
  have hdrop : (first :: more ++ (operatorText kind ++ rest)).dropWhile shellIsDigit =
      operatorText kind ++ rest := by
    rw [List.dropWhile_append_of_pos hdigits, hcons,
      List.dropWhile_cons_of_neg hstop]
  have hafter : (operatorText kind ++ rest).head? = some (byteOf '<') ∨
      (operatorText kind ++ rest).head? = some (byteOf '>') := by
    rw [hcons]
    exact hbracket.imp (congrArg some) (congrArg some)
  rw [List.cons_append] at htake hdrop ⊢
  rw [shellTokeniseFrom, dif_neg hspace, if_neg hcomment, dif_neg hoperator]
  dsimp only
  rw [htake, hdrop, dif_pos ⟨hsome, hafter⟩, shellAppendToken_ok hcount hroom]

def foundAt (tokens : ShellTokens) (column : ℕ) (pieces : List Piece) : ShellTokens where
  token := tokens.token ++ tokensAt column pieces ++
    [⟨.ending, [], column + (spellings pieces).length⟩]
  textUsed := tokens.textUsed + textOf pieces + 1

theorem foundAt_cons (tokens : ShellTokens) (column : ℕ) (piece : Piece) (pieces : List Piece) :
    foundAt ⟨tokens.token ++ [⟨piece.1, piece.2, column⟩],
        tokens.textUsed + (piece.2.length + 1)⟩ (column + (spelling piece).length) pieces =
      foundAt tokens column (piece :: pieces) := by
  have hlength : (spellings (piece :: pieces)).length =
      (spelling piece).length + (spellings pieces).length := List.length_append
  unfold foundAt
  rw [hlength, textOf_cons, tokensAt, Nat.add_assoc column, Nat.add_assoc tokens.textUsed,
    List.append_assoc tokens.token]
  rfl

theorem spellings_cons (piece : Piece) (pieces : List Piece) :
    spellings (piece :: pieces) = spelling piece ++ spellings pieces := rfl

theorem spelling_of_ne (h : kind ≠ .ioNumber) (text rest : List UInt8) :
    spelling (kind, text) ++ rest = text ++ byteOf ' ' :: rest := by
  unfold spelling
  rw [if_neg h, List.append_assoc]
  rfl

theorem length_spelling_of_ne (h : kind ≠ .ioNumber) (text : List UInt8) :
    (spelling (kind, text)).length = text.length + 1 := by
  unfold spelling
  rw [if_neg h, List.length_append]
  rfl

theorem operatorText_ne_ioNumber (h : operatorText kind ≠ []) : kind ≠ .ioNumber := by
  rintro rfl
  exact h rfl

theorem operatorText_ne_nil (h : (shellRedirectionOf kind).isSome) : operatorText kind ≠ [] := by
  obtain ⟨first, others, htext, -⟩ := operatorText_redirection h
  exact htext ▸ List.cons_ne_nil first others

theorem shellTokeniseFrom_spellings (h : Printed pieces)
    (hcount : tokens.token.length + pieces.length < shellTokenMaximum)
    (hroom : tokens.textUsed + textOf pieces < shellTextMaximum) :
    shellTokeniseFrom tokens column (spellings pieces) = .ok (foundAt tokens column pieces) := by
  induction h generalizing tokens column with
  | nil =>
      change shellTokeniseFrom tokens column [] = _
      rw [shellTokeniseFrom]
      have hended : shellAppendToken tokens .ending [] column =
          .ok ⟨tokens.token ++ [⟨.ending, [], column⟩], tokens.textUsed + 1⟩ :=
        shellAppendToken_ok hcount (Nat.succ_le_of_lt hroom)
      rw [hended]
      unfold foundAt
      rw [tokensAt, List.append_nil]
      rfl
  | @word text pieces htext _ ih =>
      rw [textOf_cons] at hroom
      rw [List.length_cons] at hcount
      dsimp only at hroom
      rw [spellings_cons, spelling_of_ne (by decide),
        shellTokeniseFrom_word htext (by omega) (by omega), ih, ← foundAt_cons tokens column,
        length_spelling_of_ne (by decide), Nat.add_assoc column]
      · rw [List.length_append, List.length_singleton]
        omega
      · dsimp only
        omega
  | @operator kind pieces hkind _ ih =>
      rw [textOf_cons] at hroom
      rw [List.length_cons] at hcount
      dsimp only at hroom
      rw [spellings_cons, spelling_of_ne (operatorText_ne_ioNumber hkind),
        shellTokeniseFrom_operator hkind (by omega) (by omega), ih, ← foundAt_cons tokens column,
        length_spelling_of_ne (operatorText_ne_ioNumber hkind), Nat.add_assoc column]
      · rw [List.length_append, List.length_singleton]
        omega
      · dsimp only
        omega
  | @number digits kind pieces hsome hdigits hkind _ ih =>
      have htext := operatorText_ne_nil hkind
      rw [textOf_cons, textOf_cons] at hroom
      rw [List.length_cons, List.length_cons] at hcount
      dsimp only at hroom
      have hnumber : (spelling (.ioNumber, digits)).length = digits.length :=
        congrArg List.length (List.append_nil digits)
      have hline : spellings ((.ioNumber, digits) :: (kind, operatorText kind) :: pieces) =
          digits ++ (operatorText kind ++ byteOf ' ' :: spellings pieces) := by
        rw [spellings_cons, spellings_cons, spelling_of_ne (operatorText_ne_ioNumber htext)]
        exact congrArg (· ++ _) (List.append_nil digits)
      rw [hline, shellTokeniseFrom_number hsome hdigits hkind (by omega) (by omega),
        shellTokeniseFrom_operator htext (by rw [List.length_append, List.length_singleton]; omega)
          (by dsimp only; omega), ih, ← foundAt_cons tokens column, ← foundAt_cons,
        length_spelling_of_ne (operatorText_ne_ioNumber htext), hnumber, Nat.add_assoc (column + _)]
      · rw [List.length_append, List.length_append, List.length_singleton, List.length_singleton]
        omega
      · dsimp only
        omega

/-- A line that some tokens are spelled by, but for the blanks between them and for a
comment after them. -/
inductive Spells : List UInt8 → List ShellToken → Prop
  | ending : Spells [] []
  | comment (rest : List UInt8) : Spells (byteOf '#' :: rest) []
  | space {character : UInt8} {line : List UInt8} {tokens : List ShellToken} :
      shellIsSpace character → Spells line tokens → Spells (character :: line) tokens
  | token {line : List UInt8} {tokens : List ShellToken} (token : ShellToken) :
      Spells line tokens → Spells (token.text ++ line) (token :: tokens)

theorem shellAppendToken_eq {result : ShellTokens}
    (h : shellAppendToken tokens kind text column = .ok result) :
    result.token = tokens.token ++ [⟨kind, text, column⟩] := by
  unfold shellAppendToken at h
  split at h
  · cases h
  · split at h
    · cases h
    · cases h
      rfl

theorem shellReadOperator_ne (first second third : UInt8) :
    (shellReadOperator first second third).1 ≠ .ending := by
  unfold shellReadOperator
  repeat refine ite_reads (P := fun read ↦ read.1 ≠ .ending) (by decide) ?_
  decide

def SpelledFrom (tokens : ShellTokens) (line : List UInt8) (result : ShellTokens) : Prop :=
  ∃ more last, result.token = tokens.token ++ more ++ [last] ∧ last.kind = .ending ∧
    Inner more ∧ Spells line more

theorem spelledFrom_ending {line : List UInt8} {result : ShellTokens} (hline : Spells line [])
    (h : shellAppendToken tokens .ending [] column = .ok result) :
    SpelledFrom tokens line result := by
  refine ⟨[], ⟨.ending, [], column⟩, ?_, rfl, fun _ hmem ↦ absurd hmem List.not_mem_nil, hline⟩
  rw [shellAppendToken_eq h, List.append_nil]

theorem spelledFrom_token {found result : ShellTokens}
    (hfound : shellAppendToken tokens kind text column = .ok found) (hkind : kind ≠ .ending)
    (h : SpelledFrom found rest result) : SpelledFrom tokens (text ++ rest) result := by
  obtain ⟨more, last, hresult, hlast, hinner, hspells⟩ := h
  refine ⟨⟨kind, text, column⟩ :: more, last, ?_, hlast, ?_, .token ⟨kind, text, column⟩ hspells⟩
  · rw [hresult, shellAppendToken_eq hfound, List.append_assoc tokens.token]
    rfl
  · intro token hmem
    rcases List.mem_cons.mp hmem with rfl | hmem
    · exact hkind
    · exact hinner token hmem

theorem spelledFrom_of_shellTokeniseFrom {line : List UInt8} {result : ShellTokens}
    (h : shellTokeniseFrom tokens column line = .ok result) : SpelledFrom tokens line result := by
  fun_induction shellTokeniseFrom tokens column line with
  | case1 => exact spelledFrom_ending .ending h
  | case2 tokens column character rest hspace ih =>
      obtain ⟨more, last, hresult, hlast, hinner, hspells⟩ := ih h
      exact ⟨more, last, hresult, hlast, hinner, .space hspace hspells⟩
  | case3 tokens column rest hspace => exact spelledFrom_ending (.comment rest) h
  | case4 => cases h
  | case5 tokens column character rest hspace hcomment hoperator kind length found hfound ih =>
      have htoken := spelledFrom_token hfound (shellReadOperator_ne _ _ _) (ih h)
      rwa [List.take_append_drop] at htoken
  | case6 => cases h
  | case7 tokens column character rest hspace hcomment hoperator digits after hdigits found hfound
      ih =>
      have htoken := spelledFrom_token hfound (by decide) (ih h)
      rwa [List.takeWhile_append_dropWhile] at htoken
  | case8 => cases h
  | case9 => cases h
  | case10 tokens column character rest hspace hcomment hoperator digits after hdigits extent hword
      length found hfound ih =>
      have htoken := spelledFrom_token hfound (by decide) (ih h)
      obtain ⟨word, hline⟩ := shellWordExtent_suffix hword
      have htake : (character :: rest).take length = word := by
        have hlength : length = word.length := by
          dsimp only [length]
          rw [← hline, List.length_append, Nat.add_sub_cancel]
        rw [hlength, ← hline, List.take_left]
      rwa [htake, hline] at htoken

end OxysOS.Shell
