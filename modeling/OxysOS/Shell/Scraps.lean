import OxysOS.Shell.Pieces

/-!
# The scraps of a text

The text of a command as the pieces that its tokens are, its comments and the word that is left
open, and the same without its comments.
-/

namespace OxysOS.Shell

open OxysOS.Library

inductive Scrap
  | piece (piece : Piece)
  | comment
  | unterminated
  deriving DecidableEq

def firstToken : List UInt8 → Option (ShellTokenKind × ℕ)
  | [] => none
  | character :: rest =>
      if shellStartsOperator character then
        some (shellReadOperator character (rest.headD 0) (rest.tail.headD 0))
      else if (character :: rest).takeWhile shellIsDigit ≠ [] ∧
          (((character :: rest).dropWhile shellIsDigit).head? = some (byteOf '<') ∨
            ((character :: rest).dropWhile shellIsDigit).head? = some (byteOf '>')) then
        some (.ioNumber, ((character :: rest).takeWhile shellIsDigit).length)
      else (shellWordExtent (character :: rest)).map fun after ↦
        (.word, (character :: rest).length - after.length)

variable {text rest after : List UInt8} {character : UInt8} {kind : ShellTokenKind}
  {length : ℕ}

theorem not_endsWord_of_token (hspace : ¬shellIsSpace character)
    (hoperator : ¬shellStartsOperator character) : ¬shellEndsWord character := by
  intro hends
  rcases of_decide_eq_true hends with hblank | hline | hstarts
  · exact hspace (decide_eq_true (Or.inl hblank))
  · exact hspace (decide_eq_true (Or.inr hline))
  · exact hoperator hstarts

theorem firstToken_pos (hspace : ¬shellIsSpace character)
    (h : firstToken (character :: rest) = some (kind, length)) : 0 < length := by
  rw [firstToken] at h
  split at h
  · cases congrArg Prod.snd (Option.some.inj h)
    exact shellReadOperator_pos _ _ _
  · next hoperator =>
    split at h
    · next hdigits =>
      cases h
      exact List.length_pos_iff.mpr hdigits.1
    · obtain ⟨after, hafter, heq⟩ := Option.map_eq_some_iff.mp h
      cases heq
      exact Nat.sub_pos_of_lt
        (shellWordExtent_lt (not_endsWord_of_token hspace hoperator) hafter)

/-- The text as it is made, each piece with its kind. -/
def scraps (text : List UInt8) : List Scrap :=
  match text with
  | [] => []
  | character :: rest =>
      if _hspace : shellIsSpace character then scraps rest
      else if character = byteOf '#' then .comment :: scraps (rest.dropWhile (· ≠ byteOf '\n'))
      else match _htoken : firstToken (character :: rest) with
        | none => [.unterminated]
        | some (kind, length) =>
            .piece (kind, (character :: rest).take length) ::
              scraps ((character :: rest).drop length)
  termination_by text.length
  decreasing_by
    · exact Nat.lt_succ_self _
    · exact Nat.lt_succ_of_le (List.dropWhile_suffix _).length_le
    · have hpos := firstToken_pos _hspace _htoken
      rw [List.length_drop, List.length_cons]
      omega

/-- The text with each comment removed, from its `#` to the end of its line. -/
def withoutComments (text : List UInt8) : List UInt8 :=
  match text with
  | [] => []
  | character :: rest =>
      if _hspace : shellIsSpace character then character :: withoutComments rest
      else if character = byteOf '#' then withoutComments (rest.dropWhile (· ≠ byteOf '\n'))
      else match _htoken : firstToken (character :: rest) with
        | none => character :: rest
        | some (_, length) =>
            (character :: rest).take length ++ withoutComments ((character :: rest).drop length)
  termination_by text.length
  decreasing_by
    · exact Nat.lt_succ_self _
    · exact Nat.lt_succ_of_le (List.dropWhile_suffix _).length_le
    · have hpos := firstToken_pos _hspace _htoken
      rw [List.length_drop, List.length_cons]
      omega

def written (tokens : ShellTokens) : List Piece :=
  tokens.token.map fun token ↦ (token.kind, token.text)

def Fits (pieces : List Piece) : Prop :=
  pieces.length ≤ shellTokenMaximum ∧ textOf pieces ≤ shellTextMaximum

instance (pieces : List Piece) : Decidable (Fits pieces) := inferInstanceAs (Decidable (_ ∧ _))

def endPiece : Piece := (.ending, [])

def appended (before : List Piece) (piece : Piece) : Except ShellParseStatus (List Piece) :=
  if Fits (before ++ [piece]) then .ok (before ++ [piece]) else .error .tooManyTokens

def readScraps (before : List Piece) : List Scrap → Except ShellParseStatus (List Piece)
  | [] => appended before endPiece
  | .comment :: _ => appended before endPiece
  | .unterminated :: _ => .error .incomplete
  | .piece piece :: rest =>
      match appended before piece with
      | .error status => .error status
      | .ok before => readScraps before rest

theorem textOf_append (pieces pieces' : List Piece) :
    textOf (pieces ++ pieces') = textOf pieces + textOf pieces' := by
  simp only [textOf, List.map_append, List.sum_append]

def Measured (tokens : ShellTokens) : Prop := tokens.textUsed = textOf (written tokens)

theorem shellAppendToken_written {tokens : ShellTokens} (h : Measured tokens) (column : ℕ)
    (piece : Piece) :
    (shellAppendToken tokens piece.1 piece.2 column).map written =
      appended (written tokens) piece ∧
    ∀ tokens', shellAppendToken tokens piece.1 piece.2 column = .ok tokens' → Measured tokens' := by
  have hlength : (written tokens).length = tokens.token.length := List.length_map _
  have hfits : Fits (written tokens ++ [piece]) ↔ tokens.token.length < shellTokenMaximum ∧
      tokens.textUsed + piece.2.length + 1 ≤ shellTextMaximum := by
    have hone : textOf [piece] = piece.2.length + 1 := rfl
    unfold Fits
    rw [List.length_append, hlength, List.length_singleton, textOf_append, hone, h]
    omega
  unfold shellAppendToken appended
  by_cases hcount : tokens.token.length ≥ shellTokenMaximum
  · rw [if_pos hcount, if_neg fun hset ↦ absurd (hfits.mp hset).1 (not_lt.mpr hcount)]
    exact ⟨rfl, fun _ heq ↦ by cases heq⟩
  · by_cases htext : tokens.textUsed + piece.2.length + 1 > shellTextMaximum
    · rw [if_neg hcount, if_pos htext,
        if_neg fun hset ↦ absurd (hfits.mp hset).2 (not_le.mpr htext)]
      exact ⟨rfl, fun _ heq ↦ by cases heq⟩
    · rw [if_neg hcount, if_neg htext, if_pos (hfits.mpr ⟨not_le.mp hcount, not_lt.mp htext⟩)]
      refine ⟨by simp [Except.map, written], fun _ heq ↦ ?_⟩
      cases heq
      have hmapped : written ⟨tokens.token ++ [⟨piece.1, piece.2, column⟩],
          tokens.textUsed + (piece.2.length + 1)⟩ = written tokens ++ [piece] := by
        simp [written]
      unfold Measured
      rw [hmapped, textOf_append, ← h]
      rfl

theorem shellTokeniseFrom_token (hspace : ¬shellIsSpace character)
    (hcomment : character ≠ byteOf '#') (tokens : ShellTokens) (column : ℕ) :
    shellTokeniseFrom tokens column (character :: rest) =
      match firstToken (character :: rest) with
      | none => .error .incomplete
      | some (kind, length) =>
          match shellAppendToken tokens kind ((character :: rest).take length) column with
          | .error status => .error status
          | .ok tokens =>
              shellTokeniseFrom tokens (column + length) ((character :: rest).drop length) := by
  rw [shellTokeniseFrom, dif_neg hspace, if_neg hcomment, firstToken]
  by_cases hoperator : shellStartsOperator character
  · rewrite [dif_pos hoperator, if_pos hoperator]
    rfl
  rw [dif_neg hoperator, if_neg hoperator]
  dsimp only
  have htaken := List.takeWhile_append_dropWhile (p := shellIsDigit) (l := character :: rest)
  by_cases hdigits : (character :: rest).takeWhile shellIsDigit ≠ [] ∧
      (((character :: rest).dropWhile shellIsDigit).head? = some (byteOf '<') ∨
        ((character :: rest).dropWhile shellIsDigit).head? = some (byteOf '>'))
  · rw [dif_pos hdigits, if_pos hdigits]
    dsimp only
    have htake : (character :: rest).take ((character :: rest).takeWhile shellIsDigit).length =
        (character :: rest).takeWhile shellIsDigit := by
      nth_rewrite 2 [← htaken]
      exact List.take_left
    have hdrop : (character :: rest).drop ((character :: rest).takeWhile shellIsDigit).length =
        (character :: rest).dropWhile shellIsDigit := by
      nth_rewrite 2 [← htaken]
      exact List.drop_left
    rewrite [htake, hdrop]
    rfl
  · rw [dif_neg hdigits, if_neg hdigits]
    split
    · next hnone =>
        rw [hnone]
        rfl
    · next after hsome =>
        have hsuffix := shellWordExtent_suffix hsome
        have hdrop : (character :: rest).drop ((character :: rest).length - after.length) = after :=
          (List.suffix_iff_eq_drop.mp hsuffix).symm
        rw [hsome, Option.map_some]
        dsimp only
        rewrite [hdrop]
        rfl

theorem map_shellTokeniseFrom {tokens : ShellTokens} (h : Measured tokens) (column : ℕ)
    (text : List UInt8) :
    (shellTokeniseFrom tokens column text).map written =
      readScraps (written tokens) (scraps text) := by
  fun_induction scraps text generalizing tokens column with
  | case1 =>
      rw [shellTokeniseFrom]
      exact (shellAppendToken_written h column endPiece).1
  | case2 character rest hspace ih =>
      rw [shellTokeniseFrom, dif_pos hspace]
      exact ih h _
  | case3 rest hspace ih =>
      rw [shellTokeniseFrom, dif_neg hspace, if_pos rfl]
      exact (shellAppendToken_written h column endPiece).1
  | case4 character rest hspace hcomment htoken =>
      rw [shellTokeniseFrom_token hspace hcomment, htoken]
      rfl
  | case5 character rest hspace hcomment kind length htoken ih =>
      obtain ⟨hmap, hmeasured⟩ :=
        shellAppendToken_written h column (kind, (character :: rest).take length)
      rw [shellTokeniseFrom_token hspace hcomment, htoken, readScraps, ← hmap]
      dsimp only
      cases hread : shellAppendToken tokens kind ((character :: rest).take length) column with
      | error status => rfl
      | ok tokens' => exact ih (hmeasured tokens' hread) _

theorem map_shellTokenise (text : List UInt8) :
    (shellTokenise text).map written = readScraps [] (scraps text) := by
  have hmeasured : Measured ⟨[], 0⟩ := rfl
  exact map_shellTokeniseFrom hmeasured 0 text

end OxysOS.Shell
