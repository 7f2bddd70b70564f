import OxysOS.Shell.Continued

/-!
# Reading a command of several lines

`ShellReadCommand` of `userland/sh/main.c` puts each line after the ones before it with a
newline between them, and tokenises and parses the whole again, until the command is no
longer incomplete.  The comment of a line ends the text where the tokeniser reads it, so
that a line after it is never read.
-/

namespace OxysOS.Shell

open OxysOS.Library

def shellCommandBytes : ℕ := shellTextMaximum

/-- What `ShellTokenise` and `ShellParse` make of a text. -/
def shellReadText (text : List UInt8) : Except ShellParseStatus (List ShellPipeline) :=
  match shellTokenise text with
  | .error status => .error status
  | .ok tokens => outcome (shellParse tokens)

/-- The loop of `ShellReadCommand` with the text so far, of the lines that `LineRead` gives,
after which the input has ended.  Whether it has ended is told with the status. -/
def shellReadCommandFrom (text : List UInt8) :
    List (List UInt8) → Except ShellParseStatus (List ShellPipeline) × Bool
  | [] => (.error (if text.length = 0 then .empty else .incomplete), true)
  | line :: lines =>
      if text.length + line.length + 2 > shellCommandBytes then (.error .tooManyTokens, false)
      else
        let text := if 0 < text.length then text ++ byteOf '\n' :: line else line
        match shellReadText text with
        | .error .incomplete => shellReadCommandFrom text lines
        | result => (result, false)

def shellReadCommand (lines : List (List UInt8)) :
    Except ShellParseStatus (List ShellPipeline) × Bool := shellReadCommandFrom [] lines

def joined (lines : List (List UInt8)) : List UInt8 := [byteOf '\n'].intercalate lines

variable {text line next : List UInt8} {lines : List (List UInt8)} {pieces before : List Piece}
  {found : List Scrap} {list : List ShellPipeline}

theorem joined_pair (line next : List UInt8) :
    joined [line, next] = line ++ byteOf '\n' :: next := by
  simp [joined]

/-- The tokens of the text are those of the text without its comments. -/
def CommentsEnd (text : List UInt8) : Prop :=
  (shellTokenise text).map written = (shellTokenise (withoutComments text)).map written

/-- Nothing but comments comes after a comment of the text. -/
def NothingFollows (text : List UInt8) : Prop :=
  ∀ before after, scraps text = before ++ .comment :: after → ∀ scrap ∈ after, scrap = .comment

/-- The tokens before the first comment leave no room for the end of the text, nor then
for a token in its place, and the text is refused as it is without its comments. -/
def CommentCrowded (text : List UInt8) : Prop :=
  ∃ (pieces : List Piece) (after : List Scrap),
    scraps text = pieces.map .piece ++ .comment :: after ∧
    ¬Fits (pieces ++ [endPiece]) ∧
    (Fits pieces → (after.filter (· ≠ .comment)).head? ≠ some .unterminated)

theorem Fits.left {pieces' : List Piece} (h : Fits (pieces ++ pieces')) : Fits pieces := by
  obtain ⟨hcount, htext⟩ := h
  rw [List.length_append] at hcount
  rw [textOf_append] at htext
  exact ⟨by omega, by omega⟩

theorem exists_leading (found : List Scrap) : ∃ (pieces : List Piece) (rest : List Scrap),
    found = pieces.map .piece ++ rest ∧ (rest = [] ∨ (∃ more, rest = .unterminated :: more) ∨ ∃ more, rest = .comment :: more) := by
  induction found with
  | nil => exact ⟨[], [], rfl, Or.inl rfl⟩
  | cons scrap found ih =>
      cases scrap with
      | comment => exact ⟨[], _, rfl, Or.inr (Or.inr ⟨found, rfl⟩)⟩
      | unterminated => exact ⟨[], _, rfl, Or.inr (Or.inl ⟨found, rfl⟩)⟩
      | piece piece =>
          obtain ⟨pieces, rest, rfl, hrest⟩ := ih
          exact ⟨piece :: pieces, rest, rfl, hrest⟩

theorem readScraps_pieces (hbefore : Fits before) (pieces : List Piece) (rest : List Scrap) :
    readScraps before (pieces.map .piece ++ rest) =
      if Fits (before ++ pieces) then readScraps (before ++ pieces) rest
      else .error .tooManyTokens := by
  induction pieces generalizing before with
  | nil => rw [List.append_nil, if_pos hbefore]; rfl
  | cons piece pieces ih =>
      rw [List.map_cons, List.cons_append, readScraps, appended, List.append_cons before piece pieces]
      by_cases hfits : Fits (before ++ [piece])
      · rw [if_pos hfits]
        exact ih hfits
      · rw [if_neg hfits, if_neg fun hset ↦ hfits hset.left]

theorem firstToken_kind {kind : ShellTokenKind} {length : ℕ} (h : firstToken text = some (kind, length)) :
    kind ≠ .ending := by
  cases text with
  | nil => cases h
  | cons character rest =>
      rw [firstToken] at h
      split at h
      · have hread : ∀ first second third : UInt8,
            (shellReadOperator first second third).1 ≠ .ending := by
          intro first second third
          unfold shellReadOperator
          repeat refine ite_reads (P := fun read ↦ read.1 ≠ .ending) (by decide) ?_
          decide
        have hkind := congrArg Prod.fst (Option.some.inj h)
        exact fun hset ↦ hread _ _ _ (hkind.trans hset)
      · split at h
        · cases h
          decide
        · obtain ⟨after, -, heq⟩ := Option.map_eq_some_iff.mp h
          cases heq
          decide

theorem kind_of_mem_scraps {piece : Piece} (h : .piece piece ∈ scraps text) :
    piece.1 ≠ .ending := by
  fun_induction scraps text with
  | case1 => cases h
  | case2 character rest hspace ih => exact ih h
  | case3 rest hspace ih => exact ih ((List.mem_cons.mp h).resolve_left (by simp))
  | case4 => exact absurd h (by simp)
  | case5 character rest hspace hcomment kind length htoken ih =>
      rcases List.mem_cons.mp h with heq | hmem
      · cases heq
        exact firstToken_kind htoken
      · exact ih hmem

theorem prefix_of_readScraps {result : List Piece} (h : readScraps before found = .ok result) :
    before <+: result := by
  have happended : ∀ {before result : List Piece} {piece}, appended before piece = .ok result →
      before <+: result := by
    intro before result piece h
    unfold appended at h
    split at h
    · cases h
      exact List.prefix_append _ _
    · cases h
  induction found generalizing before with
  | nil => exact happended h
  | cons scrap found ih =>
      cases scrap with
      | comment => exact happended h
      | unterminated => cases h
      | piece piece =>
          rw [readScraps] at h
          split at h
          · cases h
          · next more hmore => exact (happended hmore).trans (ih h)

theorem appended_eq_readScraps_iff (hpieces : ∀ piece, .piece piece ∈ found → piece.1 ≠ .ending)
    (hcomment : .comment ∉ found) :
    appended before endPiece = readScraps before found ↔
      found = [] ∨ ¬Fits (before ++ [endPiece]) ∧ found.head? ≠ some .unterminated := by
  cases found with
  | nil => exact ⟨fun _ ↦ Or.inl rfl, fun _ ↦ rfl⟩
  | cons scrap found =>
      cases scrap with
      | comment => exact absurd List.mem_cons_self hcomment
      | unterminated =>
          have hne : appended before endPiece ≠ .error .incomplete := by
            unfold appended
            split <;> simp
          refine ⟨fun heq ↦ absurd heq hne, ?_⟩
          rintro (hnil | hset)
          · cases hnil
          · exact absurd rfl hset.2
      | piece piece =>
          have hkind := hpieces piece List.mem_cons_self
          rw [readScraps]
          by_cases hend : Fits (before ++ [endPiece])
          · refine ⟨fun heq ↦ ?_, fun h ↦
              h.elim (absurd · (List.cons_ne_nil _ _)) fun h ↦ absurd hend h.1⟩
            unfold appended at heq
            rw [if_pos hend] at heq
            split at heq
            · cases heq
            · next more hmore =>
              split at hmore
              · cases hmore
                obtain ⟨others, hothers⟩ := prefix_of_readScraps heq.symm
                rw [List.append_assoc] at hothers
                have hpiece := List.append_cancel_left hothers
                cases hpiece
                exact absurd rfl hkind
              · cases hmore
          · have hpiece : ¬Fits (before ++ [piece]) := by
              intro hset
              obtain ⟨hcount, htext⟩ := hset
              rw [List.length_append] at hcount
              rw [textOf_append] at htext
              refine hend ⟨List.length_append.trans_le hcount, ?_⟩
              rw [textOf_append]
              exact (Nat.add_le_add_left (Nat.succ_le_succ (Nat.zero_le _)) _).trans htext
            unfold appended
            rw [if_neg hend, if_neg hpiece]
            exact ⟨fun _ ↦ Or.inr ⟨hend, by simp⟩, fun _ ↦ rfl⟩

theorem unterminated_last {before after : List Scrap}
    (h : scraps text = before ++ .unterminated :: after) : after = [] := by
  fun_induction scraps text generalizing before with
  | case1 => exact absurd h.symm (by simp)
  | case2 character rest hspace ih => exact ih h
  | case3 rest hspace ih =>
      cases before with
      | nil => cases h
      | cons first before => exact ih (List.cons.inj h).2
  | case4 =>
      cases before with
      | nil => exact (List.cons.inj h).2.symm
      | cons first before => exact absurd (List.cons.inj h).2.symm (by simp)
  | case5 character rest hspace hcomment kind length htoken ih =>
      cases before with
      | nil => cases h
      | cons first before => exact ih (List.cons.inj h).2

theorem comment_not_mem (pieces : List Piece) : .comment ∉ pieces.map Scrap.piece := by simp

theorem leading_unique {pieces pieces' : List Piece} {more more' : List Scrap}
    (h : pieces.map .piece ++ .comment :: more = pieces'.map .piece ++ .comment :: more') :
    pieces = pieces' ∧ more = more' := by
  induction pieces generalizing pieces' with
  | nil =>
      cases pieces' with
      | nil => exact ⟨rfl, (List.cons.inj h).2⟩
      | cons => cases h
  | cons piece pieces ih =>
      cases pieces' with
      | nil => cases h
      | cons piece' pieces' =>
          obtain ⟨heq, hrest⟩ := List.cons.inj h
          obtain ⟨rfl, rfl⟩ := ih hrest
          cases heq
          exact ⟨rfl, rfl⟩

theorem subset_of_leading {more before after : List Scrap}
    (h : pieces.map .piece ++ .comment :: more = before ++ .comment :: after) : after ⊆ more := by
  rcases List.append_eq_append_iff.mp h with ⟨others, rfl, hmore⟩ | ⟨others, hpieces, hafter⟩
  · cases others with
    | nil =>
        cases hmore
        exact List.Subset.refl _
    | cons first others =>
        cases hmore
        exact fun _ hmem ↦ List.mem_append_right _ (List.mem_cons_of_mem _ hmem)
  · cases others with
    | nil =>
        cases hafter
        exact List.Subset.refl _
    | cons first others =>
        cases hafter
        exact absurd (hpieces ▸ List.mem_append_right before List.mem_cons_self)
          (comment_not_mem pieces)

theorem filter_pieces (pieces : List Piece) (rest : List Scrap) :
    (pieces.map Scrap.piece ++ rest).filter (· ≠ .comment) =
      pieces.map .piece ++ rest.filter (· ≠ .comment) := by
  rw [List.filter_append, List.filter_eq_self.mpr]
  intro scrap hmem
  obtain ⟨piece, -, rfl⟩ := List.mem_map.mp hmem
  simp

theorem fits_nil : Fits [] := by decide

theorem commentsEnd_iff (text : List UInt8) :
    CommentsEnd text ↔ NothingFollows text ∨ CommentCrowded text := by
  unfold CommentsEnd
  rw [map_shellTokenise, map_shellTokenise, scraps_withoutComments]
  obtain ⟨pieces, rest, hfound, hrest⟩ := exists_leading (scraps text)
  rw [hfound, filter_pieces, readScraps_pieces fits_nil, readScraps_pieces fits_nil,
    List.nil_append]
  rcases hrest with rfl | ⟨more, rfl⟩ | ⟨more, rfl⟩
  · refine ⟨fun _ ↦ Or.inl fun before after hsplit ↦ ?_, fun _ ↦ rfl⟩
    rw [hfound, List.append_nil] at hsplit
    exact absurd (hsplit ▸ List.mem_append_right before List.mem_cons_self)
      (comment_not_mem pieces)
  · refine ⟨fun _ ↦ Or.inl fun before after hsplit ↦ ?_, fun _ ↦ rfl⟩
    obtain rfl := unterminated_last hfound
    rw [hfound] at hsplit
    have hmem : .comment ∈ pieces.map Scrap.piece ++ [.unterminated] :=
      hsplit ▸ List.mem_append_right before List.mem_cons_self
    exact absurd hmem (by simp)
  · have hdrop : (Scrap.comment :: more).filter (· ≠ .comment) = more.filter (· ≠ .comment) :=
      List.filter_cons_of_neg (by simp)
    have hnothing : NothingFollows text ↔ more.filter (· ≠ .comment) = [] := by
      rw [List.filter_eq_nil_iff]
      constructor
      · intro h scrap hmem
        simp [h _ _ hfound scrap hmem]
      · intro h before after hsplit scrap hmem
        have hmore := subset_of_leading (hfound.symm.trans hsplit) hmem
        simpa using h scrap hmore
    have hcrowded : CommentCrowded text ↔ ¬Fits (pieces ++ [endPiece]) ∧
        (Fits pieces → (more.filter (· ≠ .comment)).head? ≠ some .unterminated) := by
      constructor
      · rintro ⟨pieces', more', hfound', hcrowded⟩
        obtain ⟨rfl, rfl⟩ := leading_unique (hfound.symm.trans hfound')
        exact hcrowded
      · exact fun h ↦ ⟨pieces, more, hfound, h⟩
    rw [hdrop, hnothing, hcrowded]
    by_cases hfits : Fits pieces
    · rw [if_pos hfits, if_pos hfits]
      refine (appended_eq_readScraps_iff (fun piece hmem ↦ ?_) ?_).trans
        (or_congr_right (and_congr_right' ⟨fun h _ ↦ h, fun h ↦ h hfits⟩))
      · have hscrap : .piece piece ∈ scraps text := by
          rw [hfound]
          exact List.mem_append_right _ (List.mem_cons_of_mem _ (List.mem_filter.mp hmem).1)
        exact kind_of_mem_scraps hscrap
      · simp
    · rw [if_neg hfits, if_neg hfits]
      exact ⟨fun _ ↦ Or.inr ⟨fun hset ↦ hfits hset.left, fun hset ↦ absurd hset hfits⟩,
        fun _ ↦ rfl⟩

def leading : List Scrap → List Piece
  | .piece piece :: rest => piece :: leading rest
  | _ => []

def Whole : List Scrap → Prop
  | [] => True
  | .comment :: _ => True
  | .unterminated :: _ => False
  | .piece _ :: rest => Whole rest

theorem leading_append (pieces : List Piece) (rest : List Scrap) :
    leading (pieces.map .piece ++ rest) = pieces ++ leading rest := by
  induction pieces with
  | nil => rfl
  | cons piece pieces ih => exact congrArg (piece :: ·) ih

theorem whole_append (pieces : List Piece) (rest : List Scrap) :
    Whole (pieces.map .piece ++ rest) ↔ Whole rest := by
  induction pieces with
  | nil => rfl
  | cons piece pieces ih => exact ih

theorem readScraps_whole (h : Whole found) :
    readScraps [] found = if Fits (leading found ++ [endPiece]) then
      .ok (leading found ++ [endPiece]) else .error .tooManyTokens := by
  obtain ⟨pieces, rest, rfl, hrest⟩ := exists_leading found
  rw [whole_append] at h
  have hread : readScraps pieces rest = appended pieces endPiece := by
    rcases hrest with rfl | ⟨more, rfl⟩ | ⟨more, rfl⟩
    · rfl
    · exact h.elim
    · rfl
  have hleading : leading (pieces.map .piece ++ rest) = pieces := by
    rw [leading_append]
    rcases hrest with rfl | ⟨more, rfl⟩ | ⟨more, rfl⟩ <;> exact List.append_nil _
  rw [readScraps_pieces fits_nil, List.nil_append, hread, hleading]
  unfold appended
  by_cases hfits : Fits pieces
  · rw [if_pos hfits]
  · rw [if_neg hfits, if_neg fun hset ↦ hfits hset.left]

theorem whole_of_readScraps {result : List Piece} (h : readScraps before found = .ok result) :
    Whole found := by
  induction found generalizing before with
  | nil => exact True.intro
  | cons scrap found ih =>
      cases scrap with
      | comment => exact True.intro
      | unterminated => cases h
      | piece piece =>
          rw [readScraps] at h
          split at h
          · cases h
          · exact ih h

def parsedPieces (pieces : List Piece) : Except ShellParseStatus (List ShellPipeline) :=
  outcome (shellParse ⟨pieces.map tokenOf, 0⟩)

theorem outcome_shellParse (tokens : ShellTokens) :
    outcome (shellParse tokens) = parsedPieces (written tokens) := by
  have hmoved : (written tokens).map tokenOf = tokens.token.map ShellToken.moved := by
    rw [written, List.map_map]
    rfl
  have hdrop : (tokens.token.map ShellToken.moved).dropLast =
      tokens.token.dropLast.map ShellToken.moved := (List.map_dropLast ..).symm
  unfold parsedPieces shellParse
  dsimp only
  rw [hmoved, hdrop]
  simp only [List.map_eq_nil_iff]
  split_ifs
  · rfl
  · rfl
  · exact (shellParseListFrom_moved ..).symm

theorem shellReadText_eq (text : List UInt8) :
    shellReadText text = match readScraps [] (scraps text) with
      | .error status => .error status
      | .ok pieces => parsedPieces pieces := by
  rw [← map_shellTokenise]
  unfold shellReadText
  cases shellTokenise text with
  | error status => rfl
  | ok tokens => exact outcome_shellParse tokens

theorem shellReadText_whole (h : Whole (scraps text)) :
    shellReadText text = if Fits (leading (scraps text) ++ [endPiece]) then
      parsedPieces (leading (scraps text) ++ [endPiece]) else .error .tooManyTokens := by
  rw [shellReadText_eq, readScraps_whole h]
  split_ifs <;> rfl

theorem parsedPieces_concat (h : pieces ≠ []) :
    parsedPieces (pieces ++ [endPiece]) =
      outcome (shellParseListFrom 0 .none [] shellPipelineMaximum (pieces.map tokenOf)) := by
  have hdrop : ((pieces ++ [endPiece]).map tokenOf).dropLast = pieces.map tokenOf := by
    rw [List.map_append]
    exact List.dropLast_concat
  unfold parsedPieces shellParse
  dsimp only
  rw [hdrop, if_neg (by simp), if_neg (by simpa using h)]

/-- A text that wants more because a connective ends it, with a comment after it or none. -/
def Suspended (text : List UInt8) : Prop :=
  ∃ (pieces : List Piece) (connective : Piece) (comment : List Scrap),
    scraps text = (pieces ++ [connective]).map .piece ++ comment ∧
    connective.1 ∈ connectiveKinds ∧ (comment = [] ∨ comment = [.comment]) ∧
    shellReadText text = .error .incomplete

def HoldsSimpleCommand (line : List UInt8) : Prop :=
  ∃ command, shellReadText line = .ok [⟨[command], false, .none, .none⟩]

/-- A text that wants another command is a command with a simple one on the next line. -/
def Finishes (line next : List UInt8) : Prop :=
  Suspended line → HoldsSimpleCommand next → ∃ list, shellReadText (joined [line, next]) = .ok list

def Room (line next : List UInt8) : Prop :=
  Fits (leading (scraps line) ++ leading (scraps next) ++ [endPiece]) ∧
    (leading (scraps line)).countP (fun piece ↦ separates (tokenOf piece)) < shellPipelineMaximum

theorem mem_of_mem_leading {piece : Piece} (h : piece ∈ leading found) : .piece piece ∈ found := by
  induction found with
  | nil => cases h
  | cons scrap found ih =>
      cases scrap with
      | comment | unterminated => cases h
      | piece other =>
          rcases List.mem_cons.mp h with rfl | hmem
          · exact List.mem_cons_self
          · exact List.mem_cons_of_mem _ (ih hmem)

theorem inner_leading (text : List UInt8) : Inner ((leading (scraps text)).map tokenOf) := by
  intro token hmem
  obtain ⟨piece, hpiece, rfl⟩ := List.mem_map.mp hmem
  exact kind_of_mem_scraps (mem_of_mem_leading hpiece)

theorem shellParsePipelineFrom_single {command : ShellCommand} {used used' room : ℕ}
    {rest after : List ShellToken}
    (h : shellParsePipelineFrom used [] room rest = .ok ([command], used', after)) :
    shellPeek rest ≠ .ending ∧
      shellParseSimpleCommand used {} rest = .ok (command, used', after) := by
  cases room with
  | zero => cases h
  | succ room =>
      rw [shellParsePipelineFrom] at h
      split_ifs at h with hended
      refine ⟨hended, ?_⟩
      split at h
      · cases h
      next first used'' middle hfirst =>
        split_ifs at h
        · cases h
          exact hfirst
        · obtain ⟨taken, more, -, hmade, hderives⟩ := derives_of_shellParsePipelineFrom h
          cases hderives with
          | last | more => cases hmade

theorem isSimple_of_shellParseListFrom {command : ShellCommand} {rest : List ShellToken} {room : ℕ}
    (hinner : Inner rest) (h : shellParseListFrom 0 .none [] room rest =
      .ok [⟨[command], false, .none, .none⟩]) : IsSimple rest command := by
  cases room with
  | zero => cases h
  | succ room =>
      rw [shellParseListFrom] at h
      split at h
      · cases h
      next negated made used' after hparse =>
        obtain ⟨taken, htaken, -⟩ := derives_of_shellParsePipeline hparse
        have hinnerAfter : Inner after := (htaken ▸ hinner).right
        -- a list that goes on has more pipelines than one
        have hmore : ∀ {condition : ShellCondition} {used : ℕ} {pipeline : ShellPipeline},
            shellParseListFrom used condition [pipeline] room after.tail ≠
              .ok [⟨[command], false, .none, .none⟩] := by
          intro condition used pipeline hmore
          have htail : Inner after.tail := fun token hmem ↦
            hinnerAfter token (List.mem_of_mem_tail hmem)
          obtain ⟨items, hresult, hitems⟩ := derives_of_shellParseListFrom htail hmore
          obtain ⟨second, others, separator, items, rfl⟩ := hitems.exists_cons
          cases others <;> cases hresult
        dsimp only at h
        split at h
        · next hpeek =>
          obtain rfl : after = [] := hinnerAfter.eq_nil hpeek
          cases h
          unfold shellParsePipeline at hparse
          dsimp only at hparse
          split at hparse
          · cases hparse
          next commands used'' rest' hcommands =>
            injection hparse with hparse
            obtain ⟨hnegated, hrest⟩ := Prod.mk.inj hparse
            cases hrest
            rw [hnegated, if_neg Bool.false_ne_true] at hcommands
            obtain ⟨hbegins, hcommand⟩ := shellParsePipelineFrom_single hcommands
            refine ⟨hbegins, fun token hmem hbang ↦ ?_, used', hcommand⟩
            cases rest with
            | nil => cases hmem
            | cons first rest =>
                cases hmem
                exact of_decide_eq_false hnegated hbang
        · split at h
          · cases h
          · exact absurd h hmore
        · split at h
          · cases h
          · exact absurd h hmore
        · split at h
          · cases h
          · exact absurd h hmore
        · split at h
          · cases h
          · exact absurd h hmore
        · cases h

theorem HoldsSimpleCommand.spec (h : HoldsSimpleCommand next) : Whole (scraps next) ∧
    ∃ command, IsSimple ((leading (scraps next)).map tokenOf) command := by
  obtain ⟨command, hcommand⟩ := h
  have hwhole : Whole (scraps next) := by
    rw [shellReadText_eq] at hcommand
    split at hcommand
    · cases hcommand
    · next hread => exact whole_of_readScraps hread
  refine ⟨hwhole, command, ?_⟩
  rw [shellReadText_whole hwhole] at hcommand
  split_ifs at hcommand
  by_cases hnone : leading (scraps next) = []
  · rw [hnone] at hcommand
    cases hcommand
  · rw [parsedPieces_concat hnone] at hcommand
    exact isSimple_of_shellParseListFrom (inner_leading next) (outcome_eq_ok.mp hcommand)

theorem Suspended.spec (h : Suspended line) : .unterminated ∉ scraps line ∧ Whole (scraps line) ∧
    leading (scraps line) ≠ [] ∧ Hanging ((leading (scraps line)).map tokenOf) ∧
    ∃ stopped, shellParseListFrom 0 .none [] shellPipelineMaximum
      ((leading (scraps line)).map tokenOf) = .error (.incomplete, stopped) := by
  obtain ⟨pieces, connective, comment, hscraps, hkind, hcomment, hread⟩ := h
  have hleading : leading (scraps line) = pieces ++ [connective] := by
    rw [hscraps, leading_append]
    rcases hcomment with rfl | rfl <;> exact List.append_nil _
  have hwhole : Whole (scraps line) := by
    rw [hscraps, whole_append]
    rcases hcomment with rfl | rfl <;> exact True.intro
  have hsome : leading (scraps line) ≠ [] := by
    rw [hleading]
    exact List.append_ne_nil_of_right_ne_nil _ (List.cons_ne_nil _ _)
  refine ⟨?_, hwhole, hsome, ?_, ?_⟩
  · rw [hscraps]
    rcases hcomment with rfl | rfl <;> simp
  · rw [hleading, List.map_append]
    intro token hmem
    rw [List.map_singleton, List.getLast?_concat] at hmem
    cases hmem
    exact hkind
  · rw [shellReadText_whole hwhole] at hread
    split_ifs at hread
    · rw [parsedPieces_concat hsome] at hread
      exact outcome_eq_error.mp hread
    · cases hread

theorem finishes_iff (line next : List UInt8) :
    Finishes line next ↔ (Suspended line → HoldsSimpleCommand next →
      .comment ∉ scraps line ∧ Room line next) := by
  unfold Finishes
  refine imp_congr_right fun hline ↦ imp_congr_right fun hnext ↦ ?_
  obtain ⟨hopen, hwhole, hsome, hhanging, stopped, hstopped⟩ := hline.spec
  obtain ⟨hwholeNext, command, hsimple⟩ := hnext.spec
  rw [joined_pair]
  by_cases hcomment : .comment ∈ scraps line
  · have hsame : shellReadText (line ++ byteOf '\n' :: next) = shellReadText line := by
      rw [shellReadText_eq, shellReadText_eq, readScraps_line next hcomment]
    obtain ⟨-, -, -, -, -, -, hread⟩ := hline
    rw [hsame, hread]
    exact ⟨fun ⟨_, hok⟩ ↦ (nomatch hok), fun h ↦ absurd hcomment h.1⟩
  have hpieces : scraps line = (leading (scraps line)).map .piece := by
    obtain ⟨pieces, connective, comment, hscraps, -, hrest, -⟩ := hline
    rcases hrest with rfl | rfl
    · rw [hscraps, leading_append, List.append_nil]
      exact (congrArg _ (List.append_nil _)).symm
    · exact absurd (hscraps ▸ List.mem_append_right _ List.mem_cons_self) hcomment
  have hscraps := scraps_line next hcomment hopen
  have hleading : leading (scraps (line ++ byteOf '\n' :: next)) =
      leading (scraps line) ++ leading (scraps next) := by
    rw [hscraps, hpieces, leading_append, ← hpieces]
  have hwholeBoth : Whole (scraps (line ++ byteOf '\n' :: next)) := by
    rw [hscraps, hpieces, whole_append]
    exact hwholeNext
  have hsomeBoth : leading (scraps line) ++ leading (scraps next) ≠ [] :=
    List.append_ne_nil_of_left_ne_nil hsome _
  rw [shellReadText_whole hwholeBoth, hleading]
  by_cases hfits : Fits (leading (scraps line) ++ leading (scraps next) ++ [endPiece])
  · rw [if_pos hfits, parsedPieces_concat hsomeBoth, List.map_append]
    have htokens : 0 + ((leading (scraps line)).map tokenOf).length +
        ((leading (scraps next)).map tokenOf).length ≤ shellTokenMaximum := by
      have hcount := hfits.left.1
      rw [List.length_append] at hcount
      rwa [List.length_map, List.length_map, Nat.zero_add]
    have hcontinued := shellParseListFrom_continued (inner_leading line) (by simpa using hsome)
      hhanging hstopped hsimple htokens
    have hseparates : ((leading (scraps line)).map tokenOf).countP separates =
        (leading (scraps line)).countP fun piece ↦ separates (tokenOf piece) := List.countP_map
    rw [hseparates] at hcontinued
    simp only [outcome_eq_ok]
    exact hcontinued.trans ⟨fun h ↦ ⟨hcomment, hfits, h⟩, fun h ↦ h.2.2⟩
  · rw [if_neg hfits]
    exact ⟨fun ⟨_, hok⟩ ↦ (nomatch hok), fun h ↦ absurd h.2.1 hfits⟩

/-- The tokens of lines joined are those without the comments where nothing follows a
comment, and a text that a connective leaves open is finished where it has no comment. -/
theorem comments_iff (lines : List (List UInt8)) (line next : List UInt8) :
    (CommentsEnd (joined lines) ↔
      NothingFollows (joined lines) ∨ CommentCrowded (joined lines)) ∧
    (Finishes line next ↔ (Suspended line → HoldsSimpleCommand next →
      .comment ∉ scraps line ∧ Room line next)) :=
  ⟨commentsEnd_iff _, finishes_iff line next⟩

/-! `echo a | # note` and `cat` after it. -/

theorem not_comments :
    ¬CommentsEnd (joined ["echo a | # note".toList.map byteOf, "cat".toList.map byteOf]) ∧
      ¬Finishes ("echo a | # note".toList.map byteOf) ("cat".toList.map byteOf) := by
  have hscraps : scraps ("echo a | # note".toList.map byteOf) =
      [.piece (.word, "echo".toList.map byteOf), .piece (.word, "a".toList.map byteOf),
        .piece (.pipe, "|".toList.map byteOf), .comment] := by decide +kernel
  refine ⟨by unfold CommentsEnd; decide +kernel, fun h ↦ ?_⟩
  have hsuspended : Suspended ("echo a | # note".toList.map byteOf) :=
    ⟨[(.word, "echo".toList.map byteOf), (.word, "a".toList.map byteOf)],
      (.pipe, "|".toList.map byteOf), [.comment], hscraps, by decide, Or.inr rfl,
      by decide +kernel⟩
  have hsimple : HoldsSimpleCommand ("cat".toList.map byteOf) :=
    ⟨{ word := ["cat".toList.map byteOf] }, by decide +kernel⟩
  obtain ⟨list, hread⟩ := h hsuspended hsimple
  have hincomplete : shellReadText (joined ["echo a | # note".toList.map byteOf,
      "cat".toList.map byteOf]) = .error .incomplete := by decide +kernel
  rw [hincomplete] at hread
  cases hread

theorem comment_mem_line (next : List UInt8) (h : .comment ∈ scraps text) :
    .comment ∈ scraps (text ++ byteOf '\n' :: next) := by
  fun_induction scraps text with
  | case1 => cases h
  | case2 character rest hspace ih =>
      rw [List.cons_append, scraps, dif_pos hspace]
      exact ih h
  | case3 rest hspace ih =>
      rw [List.cons_append, scraps, dif_neg hspace, if_pos rfl]
      exact List.mem_cons_self
  | case4 => exact absurd h (by simp)
  | case5 character rest hspace hplain kind length htoken ih =>
      have hsplit : character :: rest ++ byteOf '\n' :: next = (character :: rest).take length ++
          ((character :: rest).drop length ++ byteOf '\n' :: next) := by
        rw [← List.append_assoc, List.take_append_drop]
      rw [hsplit, scraps_alike hspace hplain htoken (alike_line _ next)]
      exact List.mem_cons_of_mem _ (ih ((List.mem_cons.mp h).resolve_left (by simp)))

theorem shellReadCommandFrom_comment (hread : shellReadText text = .error .incomplete)
    (hcomment : .comment ∈ scraps text) (lines : List (List UInt8)) (list : List ShellPipeline) :
    (shellReadCommandFrom text lines).1 ≠ .ok list := by
  have hsome : 0 < text.length := by
    cases text with
    | nil =>
        rw [scraps] at hcomment
        cases hcomment
    | cons => exact Nat.succ_pos _
  induction lines generalizing text with
  | nil =>
      intro h
      cases h
  | cons line lines ih =>
      have hsame : shellReadText (text ++ byteOf '\n' :: line) = .error .incomplete := by
        rw [← hread, shellReadText_eq, shellReadText_eq, readScraps_line line hcomment]
      rw [shellReadCommandFrom]
      split_ifs
      · intro h
        cases h
      · dsimp only
        rw [hsame]
        exact ih hsame (comment_mem_line line hcomment) (by simp)

theorem shellReadCommandFrom_comment_cat :
    (shellReadCommandFrom ("echo a | # note".toList.map byteOf)
      ["cat".toList.map byteOf]).1 ≠ .ok [] :=
  shellReadCommandFrom_comment (by decide +kernel) (by decide +kernel) _ _

/-- The text with another line, which a newline stands before where there is a text. -/
def grown (text line : List UInt8) : List UInt8 :=
  if 0 < text.length then text ++ byteOf '\n' :: line else line

theorem length_grown (text line : List UInt8) :
    text.length + line.length ≤ (grown text line).length := by
  unfold grown
  split_ifs with hpos
  · simp
  · rw [Nat.eq_zero_of_not_pos hpos, Nat.zero_add]

theorem length_foldl_grown (text : List UInt8) (lines : List (List UInt8)) :
    text.length ≤ (lines.foldl grown text).length := by
  induction lines generalizing text with
  | nil => exact le_rfl
  | cons line lines ih => exact ((Nat.le_add_right _ _).trans (length_grown text line)).trans (ih _)

/-- The text and the lines up to one that there is room for are the command, and the text and
fewer of them are incomplete. -/
def CommandIs (text : List UInt8) (lines : List (List UInt8)) (list : List ShellPipeline) : Prop :=
  ∃ read line rest, lines = read ++ line :: rest ∧
    (read.foldl grown text).length + line.length + 2 ≤ shellCommandBytes ∧
    shellReadText (grown (read.foldl grown text) line) = .ok list ∧
    ∀ before, before ≠ [] → before <+: read →
      shellReadText (before.foldl grown text) = .error .incomplete

theorem shellReadCommandFrom_cons_ok (text line : List UInt8) (lines : List (List UInt8))
    (list : List ShellPipeline) :
    (shellReadCommandFrom text (line :: lines)).1 = .ok list ↔
      text.length + line.length + 2 ≤ shellCommandBytes ∧
        (shellReadText (grown text line) = .ok list ∨
          shellReadText (grown text line) = .error .incomplete ∧
            (shellReadCommandFrom (grown text line) lines).1 = .ok list) := by
  rw [shellReadCommandFrom]
  by_cases hroom : text.length + line.length + 2 > shellCommandBytes
  · simp [hroom]
  · rw [if_neg hroom]
    dsimp only
    rw [← grown]
    split <;> simp_all

theorem shellReadCommandFrom_ok_iff (text : List UInt8) (lines : List (List UInt8))
    (list : List ShellPipeline) :
    (shellReadCommandFrom text lines).1 = .ok list ↔ CommandIs text lines list := by
  induction lines generalizing text with
  | nil =>
      constructor
      · intro h
        cases h
      · rintro ⟨read, line, rest, hlines, -⟩
        exact absurd hlines.symm (by simp)
  | cons line lines ih =>
      have hlength := length_grown text line
      refine (shellReadCommandFrom_cons_ok text line lines list).trans ?_
      rw [ih]
      constructor
      · rintro ⟨hroom, hwhole | ⟨hincomplete, read, last, rest, rfl, hfits, hread, hbefore⟩⟩
        · exact ⟨[], line, lines, rfl, hroom, hwhole, fun before hne hprefix ↦
            absurd (List.prefix_nil.mp hprefix) hne⟩
        · refine ⟨line :: read, last, rest, rfl, hfits, hread, fun before hne hprefix ↦ ?_⟩
          cases before with
          | nil => exact absurd rfl hne
          | cons first before =>
              obtain ⟨rfl, hrest⟩ := List.cons_prefix_cons.mp hprefix
              by_cases hnil : before = []
              · rw [hnil]
                exact hincomplete
              · exact hbefore before hnil hrest
      · rintro ⟨read, last, rest, hlines, hfits, hread, hbefore⟩
        cases read with
        | nil =>
            cases hlines
            exact ⟨hfits, Or.inl hread⟩
        | cons first read =>
            cases hlines
            have hmore := length_foldl_grown (grown text line) read
            rw [List.foldl_cons] at hfits
            refine ⟨by omega, Or.inr ⟨?_, read, last, rest, rfl, hfits, hread, ?_⟩⟩
            · exact hbefore [line] (List.cons_ne_nil _ _) (List.prefix_append _ _)
            · intro before hne hprefix
              exact hbefore (line :: before) (List.cons_ne_nil _ _)
                (List.cons_prefix_cons.mpr ⟨rfl, hprefix⟩)

end OxysOS.Shell
