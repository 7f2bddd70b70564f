import OxysOS.Shell.Comments
import OxysOS.Shell.ParserComplete

/-!
# A command that goes on upon another line

The parser does with some tokens what it does with them wherever they stand, and where
it wants more after a connective it does with a simple command put after them what the
bounds allow.
-/

namespace OxysOS.Shell

open OxysOS.Library

variable {tokens rest after : List ShellToken} {token : ShellToken}
  {command result : ShellCommand} {commands : List ShellCommand} {used used' room : ℕ}
  {done : List ShellPipeline} {condition : ShellCondition}

def tokenOf (piece : Piece) : ShellToken := ⟨piece.1, piece.2, 0⟩

def ShellToken.moved (token : ShellToken) : ShellToken := { token with column := 0 }

def outcome {α : Type} (parse : Parse α) : Except ShellParseStatus α := parse.mapError Prod.fst

theorem shellPeek_moved (rest : List ShellToken) :
    shellPeek (rest.map ShellToken.moved) = shellPeek rest := by
  cases rest with
  | nil => rfl
  | cons => rfl

theorem shellParseTarget_moved (command : ShellCommand) (kind : ShellRedirectionKind)
    (descriptor : ℕ) (rest : List ShellToken) :
    shellParseTarget command kind descriptor (rest.map ShellToken.moved) =
      (shellParseTarget command kind descriptor rest).mapError
        fun refusal ↦ (refusal.1, refusal.2.map ShellToken.moved) := by
  cases rest with
  | nil => rfl
  | cons target rest =>
      simp only [shellParseTarget, List.map_cons]
      split_ifs <;> simp_all [ShellToken.moved, Except.mapError]

theorem moved_kind (token : ShellToken) : token.moved.kind = token.kind := rfl

theorem moved_text (token : ShellToken) : token.moved.text = token.text := rfl

theorem shellParseSimpleCommand_moved (used : ℕ) (command : ShellCommand)
    (rest : List ShellToken) :
    outcome (shellParseSimpleCommand used command (rest.map ShellToken.moved)) =
      (outcome (shellParseSimpleCommand used command rest)).map
        fun made ↦ (made.1, made.2.1, made.2.2.map ShellToken.moved) := by
  fun_induction shellParseSimpleCommand used command rest with
  | case4 used command token rest hkind hassignment hroom ih =>
      rw [List.map_cons, shellParseSimpleCommand, moved_kind, moved_text, if_pos hkind,
        if_pos hassignment, if_neg hroom]
      exact ih
  | case6 used command token rest hkind hassignment hcompound hroom =>
      rw [List.map_cons, shellParseSimpleCommand, moved_kind, moved_text, if_pos hkind,
        if_neg hassignment, if_neg hcompound, if_pos hroom]
      rfl
  | case7 used command token rest hkind hassignment hcompound hroom ih =>
      rw [List.map_cons, shellParseSimpleCommand, moved_kind, moved_text, if_pos hkind,
        if_neg hassignment, if_neg hcompound, if_neg hroom]
      exact ih
  | _ => simp_all [shellParseSimpleCommand, moved_kind, moved_text, shellParseTarget_moved,
      Except.mapError, outcome, Except.map, List.map_tail]

theorem outcome_eq_ok {α : Type} {parse : Parse α} {made : α} :
    outcome parse = .ok made ↔ parse = .ok made := by
  cases parse <;> simp [outcome, Except.mapError]

theorem outcome_eq_error {α : Type} {parse : Parse α} {status : ShellParseStatus} :
    outcome parse = .error status ↔ ∃ stopped, parse = .error (status, stopped) := by
  cases parse <;> simp [outcome, Except.mapError, Prod.ext_iff]

theorem shellParsePipelineFrom_moved (used : ℕ) (commands : List ShellCommand) (room : ℕ)
    (rest : List ShellToken) :
    outcome (shellParsePipelineFrom used commands room (rest.map ShellToken.moved)) =
      (outcome (shellParsePipelineFrom used commands room rest)).map
        fun made ↦ (made.1, made.2.1, made.2.2.map ShellToken.moved) := by
  induction room generalizing used commands rest with
  | zero => rfl
  | succ room ih =>
      have hmoved := shellParseSimpleCommand_moved used {} rest
      rw [shellParsePipelineFrom, shellParsePipelineFrom, shellPeek_moved]
      split_ifs with hended
      · rfl
      cases hparse : shellParseSimpleCommand used {} rest with
      | error refusal =>
          rw [hparse] at hmoved
          obtain ⟨stopped, hstopped⟩ := outcome_eq_error.mp hmoved
          rw [hstopped]
          rfl
      | ok made =>
          obtain ⟨command, used', after⟩ := made
          rw [hparse] at hmoved
          rw [outcome_eq_ok.mp hmoved]
          dsimp only
          rw [shellPeek_moved, ← List.map_tail]
          split_ifs
          · rfl
          · exact ih _ _ _

theorem shellParsePipeline_moved (used : ℕ) (rest : List ShellToken) :
    outcome (shellParsePipeline used (rest.map ShellToken.moved)) =
      (outcome (shellParsePipeline used rest)).map
        fun made ↦ (made.1, made.2.1, made.2.2.1, made.2.2.2.map ShellToken.moved) := by
  have hbang : ((rest.map ShellToken.moved).head?.any fun token ↦
      decide (token.kind = .word ∧ token.text = [byteOf '!'])) =
      rest.head?.any fun token ↦ decide (token.kind = .word ∧ token.text = [byteOf '!']) := by
    cases rest <;> rfl
  unfold shellParsePipeline
  rw [hbang]
  generalize (rest.head?.any fun token ↦
    decide (token.kind = .word ∧ token.text = [byteOf '!'])) = negated
  have htokens : (if negated = true then (rest.map ShellToken.moved).tail else
      rest.map ShellToken.moved) =
      (if negated = true then rest.tail else rest).map ShellToken.moved := by
    cases negated <;> simp [List.map_tail]
  dsimp only
  rw [htokens]
  generalize (if negated = true then rest.tail else rest) = from'
  have hmoved := shellParsePipelineFrom_moved used [] shellCommandMaximum from'
  cases hparse : shellParsePipelineFrom used [] shellCommandMaximum from' with
  | error refusal =>
      rw [hparse] at hmoved
      obtain ⟨stopped, hstopped⟩ := outcome_eq_error.mp hmoved
      rw [hstopped]
      rfl
  | ok made =>
      rw [hparse] at hmoved
      rw [outcome_eq_ok.mp hmoved]
      rfl

theorem shellParseListFrom_moved (used : ℕ) (condition : ShellCondition)
    (done : List ShellPipeline) (room : ℕ) (rest : List ShellToken) :
    outcome (shellParseListFrom used condition done room (rest.map ShellToken.moved)) =
      outcome (shellParseListFrom used condition done room rest) := by
  induction room generalizing used condition done rest with
  | zero => rfl
  | succ room ih =>
      have hmoved := shellParsePipeline_moved used rest
      rw [shellParseListFrom, shellParseListFrom]
      cases hparse : shellParsePipeline used rest with
      | error refusal =>
          rw [hparse] at hmoved
          obtain ⟨stopped, hstopped⟩ := outcome_eq_error.mp hmoved
          rw [hstopped]
          rfl
      | ok made =>
          obtain ⟨negated, command, used', after⟩ := made
          rw [hparse] at hmoved
          rw [outcome_eq_ok.mp hmoved]
          dsimp only
          rw [shellPeek_moved, ← List.map_tail, shellPeek_moved]
          cases shellPeek after with
          | ending => rfl
          | andIf | orIf | semicolon | and =>
              dsimp only
              split_ifs
              · rfl
              · exact ih _ _ _ _
          | _ => rfl

variable {more : List ShellToken}

theorem shellParseTarget_append {kind : ShellRedirectionKind} {descriptor : ℕ}
    (h : shellParseTarget command kind descriptor rest = .ok result) (more : List ShellToken) :
    shellParseTarget command kind descriptor (rest ++ more) = .ok result ∧
      (rest ++ more).tail = rest.tail ++ more := by
  cases rest with
  | nil => cases h
  | cons target rest =>
      refine ⟨?_, rfl⟩
      rw [List.cons_append]
      unfold shellParseTarget at h ⊢
      dsimp only at h ⊢
      split_ifs at h ⊢ with hkind hroom
      exact h

theorem shellParseSimpleCommand_append
    (h : shellParseSimpleCommand used command rest = .ok (result, used', after))
    (hafter : after ≠ []) (more : List ShellToken) :
    shellParseSimpleCommand used command (rest ++ more) = .ok (result, used', after ++ more) := by
  fun_induction shellParseSimpleCommand used command rest with
  | case1 => cases h
  | case2 used command hsome =>
      cases h
      exact absurd rfl hafter
  | case4 used command token rest hkind hassignment hroom ih =>
      rw [List.cons_append, shellParseSimpleCommand, if_pos hkind, if_pos hassignment,
        if_neg hroom]
      exact ih h
  | case7 used command token rest hkind hassignment hcompound hroom ih =>
      rw [List.cons_append, shellParseSimpleCommand, if_pos hkind, if_neg hassignment,
        if_neg hcompound, if_neg hroom]
      exact ih h
  | case12 used command token hword hnumber number hdescriptor operator rest kind own hoperator
      command' htarget ih =>
      obtain ⟨htarget', htail⟩ := shellParseTarget_append htarget more
      rw [List.cons_append, List.cons_append, shellParseSimpleCommand, if_neg hword,
        if_pos hnumber, hdescriptor]
      dsimp only
      rw [hoperator]
      dsimp only
      rw [htarget', htail]
      exact ih h
  | case14 used command operator rest hword hnumber kind descriptor hoperator command' htarget ih =>
      obtain ⟨htarget', htail⟩ := shellParseTarget_append htarget more
      rw [List.cons_append, shellParseSimpleCommand, if_neg hword, if_neg hnumber, hoperator]
      dsimp only
      rw [htarget', htail]
      exact ih h
  | case17 used command token rest hword hnumber hoperator hunsupported hsome =>
      cases h
      rw [List.cons_append, shellParseSimpleCommand, if_neg hword, if_neg hnumber, hoperator]
      dsimp only
      rw [if_neg hunsupported, if_neg hsome]
  | _ => cases h

theorem shellParseSimpleCommand_used
    (h : shellParseSimpleCommand used command rest = .ok (result, used', after)) :
    used' + after.length ≤ used + rest.length := by
  fun_induction shellParseSimpleCommand used command rest with
  | case2 =>
      cases h
      exact le_rfl
  | case4 used command token rest hkind hassignment hroom ih =>
      have hle := ih h
      rw [List.length_cons]
      omega
  | case7 used command token rest hkind hassignment hcompound hroom ih =>
      have hle := ih h
      rw [List.length_cons]
      omega
  | case12 used command token hword hnumber number hdescriptor operator rest kind own hoperator
      command' htarget ih =>
      have hle := ih h
      simp only [List.length_cons, List.length_tail] at hle ⊢
      omega
  | case14 used command operator rest hword hnumber kind descriptor hoperator command' htarget ih =>
      have hle := ih h
      simp only [List.length_cons, List.length_tail] at hle ⊢
      omega
  | case17 =>
      cases h
      exact le_rfl
  | _ => cases h

theorem shellParseSimpleCommand_shift
    (h : shellParseSimpleCommand used command rest = .ok (result, used', after)) {others : ℕ}
    (hroom : others + used + rest.length ≤ shellTokenMaximum) :
    shellParseSimpleCommand (others + used) command rest = .ok (result, others + used', after) := by
  fun_induction shellParseSimpleCommand used command rest with
  | case2 used command hsome =>
      cases h
      rw [shellParseSimpleCommand, if_neg hsome]
  | case4 used command token rest hkind hassignment hfull ih =>
      rw [shellParseSimpleCommand, if_pos hkind, if_pos hassignment, if_neg hfull]
      exact ih h (by rw [List.length_cons] at hroom; omega)
  | case7 used command token rest hkind hassignment hcompound hfull ih =>
      rw [List.length_cons] at hroom
      rw [shellParseSimpleCommand, if_pos hkind, if_neg hassignment, if_neg hcompound,
        if_neg (by omega)]
      exact ih h (by omega)
  | case12 used command token hword hnumber number hdescriptor operator rest kind own hoperator
      command' htarget ih =>
      rw [shellParseSimpleCommand, if_neg hword, if_pos hnumber, hdescriptor]
      dsimp only
      rw [hoperator]
      dsimp only
      rw [htarget]
      exact ih h (by simp only [List.length_cons, List.length_tail] at hroom ⊢; omega)
  | case14 used command operator rest hword hnumber kind descriptor hoperator command' htarget ih =>
      rw [shellParseSimpleCommand, if_neg hword, if_neg hnumber, hoperator]
      dsimp only
      rw [htarget]
      exact ih h (by simp only [List.length_cons, List.length_tail] at hroom ⊢; omega)
  | case17 used command token rest hword hnumber hoperator hunsupported hsome =>
      cases h
      rw [shellParseSimpleCommand, if_neg hword, if_neg hnumber, hoperator]
      dsimp only
      rw [if_neg hunsupported, if_neg hsome]
  | _ => cases h

def connectiveKinds : List ShellTokenKind := [.pipe, .andIf, .orIf]

def Hanging (tokens : List ShellToken) : Prop :=
  ∀ token ∈ tokens.getLast?, token.kind ∈ connectiveKinds

theorem Hanging.right (h : Hanging (tokens ++ rest)) : Hanging rest := by
  intro token hmem
  refine h token ?_
  rw [List.getLast?_append, Option.mem_def.mp hmem]
  rfl

theorem Hanging.tail (h : Hanging (token :: rest)) : Hanging rest := by
  rw [← List.singleton_append] at h
  exact h.right

def separates (token : ShellToken) : Bool := token.kind ∈ [.andIf, .orIf, .semicolon, .and]

theorem DerivesCommand.parts (h : DerivesCommand tokens command) :
    ∀ token ∈ tokens, token.kind = .word ∨ token.kind = .ioNumber ∨
      (shellRedirectionOf token.kind).isSome := by
  have hredirection : ∀ {token : ShellToken} {meaning},
      shellRedirectionOf token.kind = some meaning → (shellRedirectionOf token.kind).isSome :=
    fun heq ↦ Option.isSome_iff_exists.mpr ⟨_, heq⟩
  induction h with
  | nothing => exact fun _ hmem ↦ absurd hmem List.not_mem_nil
  | assignment _ _ hkind _ ih | word _ hkind _ ih =>
      intro token hmem
      rcases List.mem_append.mp hmem with hmem | hmem
      · exact ih token hmem
      · exact Or.inl (List.mem_singleton.mp hmem ▸ hkind)
  | redirection _ hmeaning hkind ih =>
      intro token hmem
      simp only [List.mem_append, List.mem_cons, List.not_mem_nil, or_false] at hmem
      rcases hmem with hmem | rfl | rfl
      · exact ih token hmem
      · exact Or.inr (Or.inr (hredirection hmeaning))
      · exact Or.inl hkind
  | numbered _ hnumber _ hmeaning hkind ih =>
      intro token hmem
      simp only [List.mem_append, List.mem_cons, List.not_mem_nil, or_false] at hmem
      rcases hmem with hmem | rfl | rfl | rfl
      · exact ih token hmem
      · exact Or.inr (Or.inl hnumber)
      · exact Or.inr (Or.inr (hredirection hmeaning))
      · exact Or.inl hkind

theorem not_operator_of_part (h : token.kind = .word ∨ token.kind = .ioNumber ∨
    (shellRedirectionOf token.kind).isSome) :
    token.kind ∉ connectiveKinds ∧ separates token = false := by
  unfold connectiveKinds separates
  cases hkind : token.kind with
  | pipe | and | semicolon | andIf | orIf =>
      rw [hkind] at h
      exact absurd h (by decide)
  | _ => decide

theorem shellParseSimpleCommand_incomplete {stopped : List ShellToken} (hhanging : Hanging rest) :
    shellParseSimpleCommand used command rest ≠ .error (.incomplete, stopped) := by
  have htarget : ∀ {command : ShellCommand} {kind descriptor} {rest : List ShellToken},
      shellParseTarget command kind descriptor rest = .error (.incomplete, stopped) →
      rest = [] := by
    intro command kind descriptor rest h
    cases rest with
    | nil => rfl
    | cons target rest =>
        unfold shellParseTarget at h
        dsimp only at h
        split_ifs at h <;> cases h
  have hoperator : ∀ {token : ShellToken} {meaning}, Hanging [token] →
      shellRedirectionOf token.kind = some meaning → False := fun hlast heq ↦
    (not_operator_of_part (Or.inr (Or.inr (Option.isSome_iff_exists.mpr ⟨_, heq⟩)))).1
      (hlast _ rfl)
  intro h
  fun_induction shellParseSimpleCommand used command rest with
  | case4 used command token rest hkind hassignment hfull ih => exact ih (hhanging.tail) h
  | case7 used command token rest hkind hassignment hcompound hfull ih =>
      exact ih (hhanging.tail) h
  | case11 used command token hword hnumber number hdescriptor operator rest kind own hmeaning
      refusal hrefused =>
      cases h
      obtain rfl := htarget hrefused
      exact hoperator hhanging.tail hmeaning
  | case12 used command token hword hnumber number hdescriptor operator rest kind own hmeaning
      command' hok ih =>
      obtain ⟨target, hrest, -, -⟩ := shellParseTarget_ok hok
      rw [hrest] at hhanging
      exact ih hhanging.tail.tail.tail h
  | case13 used command operator rest hword hnumber kind descriptor hmeaning refusal hrefused =>
      cases h
      obtain rfl := htarget hrefused
      exact hoperator hhanging hmeaning
  | case14 used command operator rest hword hnumber kind descriptor hmeaning command' hok ih =>
      obtain ⟨target, hrest, -, -⟩ := shellParseTarget_ok hok
      rw [hrest] at hhanging
      exact ih hhanging.tail.tail h
  | _ => cases h

structure IsSimple (tokens : List ShellToken) (command : ShellCommand) : Prop where
  begins : shellPeek tokens ≠ .ending
  plain : ∀ token ∈ tokens.head?, ¬IsBang token
  parses : ∃ used, shellParseSimpleCommand 0 {} tokens = .ok (command, used, [])

theorem IsSimple.parse (h : IsSimple tokens command)
    (hroom : used + tokens.length ≤ shellTokenMaximum) :
    ∃ used', shellParseSimpleCommand used {} tokens = .ok (command, used', []) := by
  obtain ⟨words, hparse⟩ := h.parses
  exact ⟨used + words, shellParseSimpleCommand_shift hparse hroom⟩

theorem IsSimple.parsePipelineFrom (h : IsSimple tokens command) (commands : List ShellCommand)
    (room : ℕ) (hroom : used + tokens.length ≤ shellTokenMaximum) :
    ∃ used', shellParsePipelineFrom used commands (room + 1) tokens =
      .ok (commands ++ [command], used', []) := by
  obtain ⟨used', hparse⟩ := h.parse hroom
  refine ⟨used', ?_⟩
  rw [shellParsePipelineFrom, if_neg h.begins, hparse]
  rfl

theorem IsSimple.parsePipeline (h : IsSimple tokens command)
    (hroom : used + tokens.length ≤ shellTokenMaximum) :
    ∃ used', shellParsePipeline used tokens = .ok (false, [command], used', []) := by
  have hfalse : (tokens.head?.any fun token ↦
      decide (token.kind = .word ∧ token.text = [byteOf '!'])) = false := by
    cases tokens with
    | nil => rfl
    | cons token rest => exact decide_eq_false (h.plain token rfl)
  obtain ⟨used', hparse⟩ := h.parsePipelineFrom [] (shellCommandMaximum - 1) hroom
  refine ⟨used', ?_⟩
  unfold shellParsePipeline
  rw [hfalse]
  dsimp only
  rw [if_neg Bool.false_ne_true]
  change shellParsePipelineFrom used [] shellCommandMaximum tokens = _ at hparse
  rw [hparse]
  rfl

theorem shellPeek_append (h : rest ≠ []) (more : List ShellToken) :
    shellPeek (rest ++ more) = shellPeek rest := by
  cases rest with
  | nil => exact absurd rfl h
  | cons => rfl

theorem shellParsePipelineFrom_append {made : List ShellCommand}
    (h : shellParsePipelineFrom used commands room rest = .ok (made, used', after))
    (hafter : after ≠ []) (more : List ShellToken) :
    shellParsePipelineFrom used commands room (rest ++ more) = .ok (made, used', after ++ more) := by
  induction room generalizing used commands rest with
  | zero => cases h
  | succ room ih =>
      rw [shellParsePipelineFrom] at h ⊢
      split_ifs at h with hended
      have hrest : rest ≠ [] := fun hnil ↦ hended (hnil ▸ rfl)
      rw [shellPeek_append hrest, if_neg hended]
      split at h
      · cases h
      next command used'' middle hcommand =>
        have hmiddle : middle ≠ [] := by
          rintro rfl
          rw [if_pos (by decide)] at h
          cases h
          exact hafter rfl
        rw [shellParseSimpleCommand_append hcommand hmiddle more]
        dsimp only
        rw [shellPeek_append hmiddle]
        split_ifs at h ⊢ with hpipe
        · cases h
          rfl
        · rw [List.tail_append_of_ne_nil hmiddle]
          exact ih h

theorem shellParsePipelineFrom_used {made : List ShellCommand}
    (h : shellParsePipelineFrom used commands room rest = .ok (made, used', after)) :
    used' + after.length ≤ used + rest.length := by
  induction room generalizing used commands rest with
  | zero => cases h
  | succ room ih =>
      rw [shellParsePipelineFrom] at h
      split_ifs at h
      split at h
      · cases h
      next command used'' middle hcommand =>
        have hcommandUsed := shellParseSimpleCommand_used hcommand
        split_ifs at h
        · cases h
          exact hcommandUsed
        · have hmore := ih h
          rw [List.length_tail] at hmore
          omega

theorem Inner.right (h : Inner (tokens ++ rest)) : Inner rest := fun token hmem ↦
  h token (List.mem_append_right tokens hmem)

theorem shellParsePipelineFrom_continued {stopped : List ShellToken} (hinner : Inner rest)
    (hhanging : Hanging rest)
    (h : shellParsePipelineFrom used commands room rest = .error (.incomplete, stopped))
    (hmore : IsSimple more command)
    (hroom : used + rest.length + more.length ≤ shellTokenMaximum) :
    (∀ token ∈ rest, separates token = false) ∧
      ∃ made used', shellParsePipelineFrom used commands room (rest ++ more) =
        .ok (made, used', []) := by
  induction room generalizing used commands rest with
  | zero => cases h
  | succ room ih =>
      by_cases hrest : rest = []
      · subst hrest
        obtain ⟨used', hparse⟩ := hmore.parsePipelineFrom commands room (by simpa using hroom)
        exact ⟨fun _ hmem ↦ absurd hmem List.not_mem_nil, _, used', hparse⟩
      have hended : shellPeek rest ≠ .ending := fun hset ↦ hrest (hinner.eq_nil hset)
      rw [shellParsePipelineFrom, if_neg hended] at h
      split at h
      · next refusal hrefused =>
        cases h
        exact absurd hrefused (shellParseSimpleCommand_incomplete hhanging)
      next command' used'' middle hcommand =>
        split_ifs at h with hpipe
        obtain ⟨token, hmiddle, hkind⟩ := eq_cons_of_shellPeek (not_not.mp hpipe) (by decide)
        obtain ⟨taken, htaken, hderives, -⟩ :=
          derives_of_shellParseSimpleCommand .nothing hcommand
        rw [List.nil_append] at hderives
        have hused := shellParseSimpleCommand_used hcommand
        have hmiddleNe : middle ≠ [] := hmiddle ▸ List.cons_ne_nil _ _
        have hsplit : rest = taken ++ [token] ++ middle.tail := by
          rw [List.append_assoc]
          exact htaken.trans (congrArg (taken ++ ·) hmiddle)
        have hlength : middle.length = middle.tail.length + 1 := congrArg List.length hmiddle
        obtain ⟨hplain, made, used', hparse⟩ := ih (hsplit ▸ hinner).right (hsplit ▸ hhanging).right
          h (by omega)
        refine ⟨fun other hmem ↦ ?_, made, used', ?_⟩
        · rw [hsplit, List.append_assoc] at hmem
          rcases List.mem_append.mp hmem with hmem | hmem
          · exact (not_operator_of_part (hderives.parts other hmem)).2
          · rcases List.mem_cons.mp hmem with rfl | hmem
            · unfold separates
              rw [hkind]
              decide
            · exact hplain other hmem
        · rw [shellParsePipelineFrom, shellPeek_append hrest, if_neg hended,
            shellParseSimpleCommand_append hcommand hmiddleNe more]
          dsimp only
          rw [shellPeek_append hmiddleNe, if_neg hpipe, List.tail_append_of_ne_nil hmiddleNe]
          exact hparse

theorem bang_append (hrest : rest ≠ []) (more : List ShellToken) (p : ShellToken → Bool) :
    (rest ++ more).head?.any p = rest.head?.any p := by
  cases rest with
  | nil => exact absurd rfl hrest
  | cons => rfl

theorem shellParsePipeline_append {negated : Bool} {made : List ShellCommand}
    (h : shellParsePipeline used rest = .ok (negated, made, used', after))
    (hafter : after ≠ []) (more : List ShellToken) :
    shellParsePipeline used (rest ++ more) = .ok (negated, made, used', after ++ more) := by
  have hrest : rest ≠ [] := by
    rintro rfl
    cases h
  unfold shellParsePipeline at h ⊢
  rw [bang_append hrest]
  dsimp only at h ⊢
  have htokens : ∀ bang : Bool, (if bang = true then (rest ++ more).tail else rest ++ more) =
      (if bang = true then rest.tail else rest) ++ more := by
    intro bang
    cases bang with
    | false => rfl
    | true => exact List.tail_append_of_ne_nil hrest
  rw [htokens]
  split at h
  · cases h
  · next commands used'' after' hcommands =>
    cases h
    rw [shellParsePipelineFrom_append hcommands hafter more]

theorem shellParsePipeline_used {negated : Bool} {made : List ShellCommand}
    (h : shellParsePipeline used rest = .ok (negated, made, used', after)) :
    used' + after.length ≤ used + rest.length := by
  unfold shellParsePipeline at h
  dsimp only at h
  split at h
  · cases h
  · next commands used'' after' hcommands =>
    cases h
    refine (shellParsePipelineFrom_used hcommands).trans (Nat.add_le_add_left ?_ _)
    split
    · rw [List.length_tail]
      exact Nat.sub_le _ _
    · exact le_rfl

theorem DerivesCommands.plain (h : DerivesCommands tokens commands) :
    ∀ token ∈ tokens, separates token = false := by
  induction h with
  | last hcommand _ => exact fun token hmem ↦ (not_operator_of_part (hcommand.parts token hmem)).2
  | more hcommand _ hkind _ ih =>
      intro token hmem
      rcases List.mem_append.mp hmem with hmem | hmem
      · exact (not_operator_of_part (hcommand.parts token hmem)).2
      · rcases List.mem_cons.mp hmem with rfl | hmem
        · unfold separates
          rw [hkind]
          decide
        · exact ih token hmem

theorem separates_bang (h : IsBang token) : separates token = false := by
  unfold separates
  rw [h.1]
  decide

theorem DerivesPipeline.plain' {tree : PipelineTree} (h : DerivesPipeline tokens tree) :
    ∀ token ∈ tokens, separates token = false := by
  cases h with
  | plain hcommands _ => exact hcommands.plain
  | negated hbang hcommands =>
      intro token hmem
      rcases List.mem_cons.mp hmem with rfl | hmem
      · exact separates_bang hbang
      · exact hcommands.plain token hmem

theorem shellParsePipeline_continued {stopped : List ShellToken} (hinner : Inner rest)
    (hrest : rest ≠ []) (hhanging : Hanging rest)
    (h : shellParsePipeline used rest = .error (.incomplete, stopped))
    (hmore : IsSimple more command)
    (hroom : used + rest.length + more.length ≤ shellTokenMaximum) :
    (∀ token ∈ rest, separates token = false) ∧
      ∃ negated made used', shellParsePipeline used (rest ++ more) =
        .ok (negated, made, used', []) := by
  unfold shellParsePipeline at h ⊢
  rw [bang_append hrest]
  dsimp only at h ⊢
  obtain ⟨first, others, rfl⟩ := List.exists_cons_of_ne_nil hrest
  by_cases hbang : IsBang first
  · have htrue : ((first :: others).head?.any fun token ↦
        decide (token.kind = .word ∧ token.text = [byteOf '!'])) = true := decide_eq_true hbang
    rw [htrue, if_pos rfl] at h ⊢
    split at h
    · next refusal hrefused =>
      cases h
      obtain ⟨hplain, made, used', hparse⟩ := shellParsePipelineFrom_continued
        (fun token hmem ↦ hinner token (List.mem_cons_of_mem _ hmem)) hhanging.tail hrefused hmore (by rw [List.length_cons] at hroom; omega)
      refine ⟨fun token hmem ↦ ?_, true, made, used', ?_⟩
      · rcases List.mem_cons.mp hmem with rfl | hmem
        · exact separates_bang hbang
        · exact hplain token hmem
      · rw [List.tail_append_of_ne_nil hrest, List.tail_cons, hparse]
    · cases h
  · have hfalse : ((first :: others).head?.any fun token ↦
        decide (token.kind = .word ∧ token.text = [byteOf '!'])) = false := decide_eq_false hbang
    rw [hfalse, if_neg Bool.false_ne_true] at h ⊢
    split at h
    · next refusal hrefused =>
      cases h
      obtain ⟨hplain, made, used', hparse⟩ :=
        shellParsePipelineFrom_continued hinner hhanging hrefused hmore hroom
      refine ⟨hplain, false, made, used', ?_⟩
      rw [hparse]
    · cases h

theorem shellParseListFrom_continued {stopped : List ShellToken} (hinner : Inner rest)
    (hrest : rest ≠ []) (hhanging : Hanging rest)
    (h : shellParseListFrom used condition done room rest = .error (.incomplete, stopped))
    (hmore : IsSimple more command)
    (hroom : used + rest.length + more.length ≤ shellTokenMaximum) :
    (∃ list, shellParseListFrom used condition done room (rest ++ more) = .ok list) ↔
      rest.countP separates < room := by
  induction room generalizing used condition done rest with
  | zero => cases h
  | succ room ih =>
      rw [shellParseListFrom] at h
      split at h
      · next refusal hrefused =>
        cases h
        obtain ⟨hplain, negated, made, used', hparse⟩ :=
          shellParsePipeline_continued hinner hrest hhanging hrefused hmore hroom
        have hnone : rest.countP separates = 0 := by
          rw [List.countP_eq_zero]
          exact fun token hmem ↦ Bool.eq_false_iff.mp (hplain token hmem)
        rw [hnone]
        exact ⟨fun _ ↦ Nat.succ_pos _, fun _ ↦ ⟨_, shellParseListFrom_ended hparse rfl⟩⟩
      next negated made used' after hparse =>
        obtain ⟨taken, htaken, hderives⟩ := derives_of_shellParsePipeline hparse
        have hused := shellParsePipeline_used hparse
        by_cases hafter : after = []
        · subst hafter
          cases h
        obtain ⟨token, others, rfl⟩ := List.exists_cons_of_ne_nil hafter
        have hcount : separates token → rest.countP separates = others.countP separates + 1 := by
          intro hseparates
          have htakenCount : taken.countP separates = 0 := by
            rw [List.countP_eq_zero]
            exact fun token hmem ↦ Bool.eq_false_iff.mp (hderives.plain' token hmem)
          rw [htaken, List.countP_append, htakenCount, List.countP_cons_of_pos hseparates]
          exact Nat.zero_add _
        have hsplit : rest = taken ++ [token] ++ others := by
          rw [List.append_assoc]
          exact htaken
        have hinner' : Inner others := (hsplit ▸ hinner).right
        have hhanging' : Hanging others := (hsplit ▸ hhanging).right
        have happended := shellParsePipeline_append hparse hafter more
        rw [List.cons_append] at happended
        rw [List.length_cons] at hused
        have hothers : others ≠ [] → shellPeek others ≠ .ending := fun hne hset ↦
          hne (hinner'.eq_nil hset)
        have hpeekMore : shellPeek (others ++ more) ≠ .ending := by
          cases others with
          | nil => exact hmore.begins
          | cons => exact hothers (List.cons_ne_nil _ _)
        -- the tokens after the operator are again such tokens, or there are none
        have hnext : ∀ condition done,
            (others ≠ [] → shellParseListFrom used' condition done room others =
              .error (.incomplete, stopped)) →
            ((∃ list, shellParseListFrom used' condition done room (others ++ more) = .ok list) ↔
              others.countP separates < room) := by
          intro condition done hrecurse
          by_cases hnil : others = []
          · subst hnil
            rw [List.nil_append, List.countP_nil]
            cases room with
            | zero =>
                refine ⟨?_, fun hlt ↦ absurd hlt (lt_irrefl 0)⟩
                rintro ⟨_, hok⟩
                cases hok
            | succ room =>
                have hleft : used' + more.length ≤ shellTokenMaximum := by
                  rw [List.length_nil] at hused
                  omega
                obtain ⟨used'', hsimple⟩ := hmore.parsePipeline hleft
                exact ⟨fun _ ↦ Nat.succ_pos _,
                  fun _ ↦ ⟨_, shellParseListFrom_ended hsimple rfl⟩⟩
          · exact ih hinner' hnil hhanging' (hrecurse hnil) (by omega)
        have hconnective : ∀ connective : Connective, token.kind = connective.kind →
            (others ≠ [] → shellParseListFrom used' connective.condition
              (done ++ [⟨made, negated, condition, .none⟩]) room others =
                .error (.incomplete, stopped)) →
            ((∃ list, shellParseListFrom used condition done (room + 1) (rest ++ more) = .ok list) ↔
              rest.countP separates < room + 1) := by
          intro connective hkind hrecurse
          have hseparates : separates token := by
            unfold separates
            rw [hkind]
            cases connective <;> decide
          rw [shellParseListFrom_joined happended connective hkind hpeekMore, List.tail_cons,
            hnext _ _ hrecurse, hcount hseparates, Nat.add_lt_add_iff_right]
        have hseparator : ∀ separator, separatorOf token.kind = some separator →
            separates token → (others ≠ [] → shellParseListFrom used' .none
              (done ++ [⟨made, negated, condition, separator⟩]) room others =
                .error (.incomplete, stopped)) →
            ((∃ list, shellParseListFrom used condition done (room + 1) (rest ++ more) = .ok list) ↔
              rest.countP separates < room + 1) := by
          intro separator hmeaning hseparates hrecurse
          rw [shellParseListFrom_separated happended hmeaning rfl, List.tail_cons,
            if_neg hpeekMore, hnext _ _ hrecurse, hcount hseparates, Nat.add_lt_add_iff_right]
        rw [shellPeek_cons] at h
        dsimp only [List.tail_cons] at h
        cases hkind : token.kind with
        | ending =>
            rw [hkind] at h
            cases h
        | andIf =>
            rw [hkind] at h
            dsimp only at h
            refine hconnective .andIf hkind fun hne ↦ ?_
            exact (if_neg (hothers hne)).symm.trans h
        | orIf =>
            rw [hkind] at h
            dsimp only at h
            refine hconnective .orIf hkind fun hne ↦ ?_
            exact (if_neg (hothers hne)).symm.trans h
        | semicolon =>
            rw [hkind] at h
            dsimp only at h
            refine hseparator .sequence (by rw [hkind]; rfl) (by unfold separates; rw [hkind]; decide)
              fun hne ↦ ?_
            exact (if_neg (hothers hne)).symm.trans h
        | and =>
            rw [hkind] at h
            dsimp only at h
            refine hseparator .background (by rw [hkind]; rfl)
              (by unfold separates; rw [hkind]; decide) fun hne ↦ ?_
            exact (if_neg (hothers hne)).symm.trans h
        | _ =>
            rw [hkind] at h
            cases h

end OxysOS.Shell
