import OxysOS.Shell.Grammar

/-!
# What is derived is accepted

A command and a pipeline that are derived within the bounds are parsed as they are
derived, whatever ends them.
-/

namespace OxysOS.Shell

open OxysOS.Library

variable {tokens rest : List ShellToken} {token : ShellToken} {command : ShellCommand}
  {commands : List ShellCommand} {used : ℕ}

structure ShellCommand.Within (command : ShellCommand) : Prop where
  assignment : command.assignment.length ≤ shellAssignmentMaximum
  redirection : command.redirection.length ≤ shellRedirectionMaximum

theorem shellParseTarget_eq {kind : ShellRedirectionKind} {descriptor : ℕ} {target : ShellToken}
    (hkind : target.kind = .word) (hroom : command.redirection.length < shellRedirectionMaximum) :
    shellParseTarget command kind descriptor (target :: rest) = .ok { command with
      redirection := command.redirection ++ [⟨kind, descriptor, target.text⟩] } := by
  unfold shellParseTarget
  dsimp only
  rw [if_neg (not_not.mpr hkind), if_neg (not_le.mpr hroom)]

theorem shellParseSimpleCommand_derived (h : DerivesCommand tokens command)
    (hwithin : command.Within) (hused : used + command.word.length ≤ shellTokenMaximum)
    (rest : List ShellToken) :
    shellParseSimpleCommand used {} (tokens ++ rest) =
      shellParseSimpleCommand (used + command.word.length) command rest := by
  induction h generalizing rest with
  | nothing => rfl
  | @assignment tokens token command _ hfirst hkind hassignment ih =>
      have hroom := hwithin.assignment
      rw [List.length_append, List.length_singleton] at hroom
      rw [List.append_assoc, ih ⟨by omega, hwithin.redirection⟩ hused]
      change shellParseSimpleCommand _ command (token :: rest) = _
      rw [shellParseSimpleCommand, if_pos hkind, if_pos ⟨hfirst, hassignment⟩, if_neg (by omega)]
  | @word tokens token command _ hkind hfirst ih =>
      rw [List.length_append, List.length_singleton] at hused
      rw [List.append_assoc, ih ⟨hwithin.assignment, hwithin.redirection⟩ (by omega)]
      change shellParseSimpleCommand _ command (token :: rest) = _
      rw [shellParseSimpleCommand, if_pos hkind, if_neg fun hset ↦ (hfirst hset.1).1 hset.2,
        if_neg fun hset ↦ (hfirst hset.1).2 hset.2, if_neg (by omega), List.length_append,
        List.length_singleton, Nat.add_assoc]
  | @redirection tokens operator target command kind descriptor _ hoperator hkind ih =>
      have hroom := hwithin.redirection
      rw [List.length_append, List.length_singleton] at hroom
      have hword : ¬operator.kind = .word := fun hset ↦ by
        rw [hset] at hoperator
        cases hoperator
      have hnumber : ¬operator.kind = .ioNumber := fun hset ↦ by
        rw [hset] at hoperator
        cases hoperator
      rw [List.append_assoc, ih ⟨hwithin.assignment, by omega⟩ hused]
      change shellParseSimpleCommand _ command (operator :: target :: rest) = _
      rw [shellParseSimpleCommand, if_neg hword, if_neg hnumber, hoperator]
      dsimp only
      rw [shellParseTarget_eq hkind (by omega)]
      rfl
  | @numbered tokens token operator target command kind own descriptor _ hnumber hdescriptor
      hoperator hkind ih =>
      have hroom := hwithin.redirection
      rw [List.length_append, List.length_singleton] at hroom
      have hword : ¬token.kind = .word := fun hset ↦ by
        rw [hset] at hnumber
        cases hnumber
      rw [List.append_assoc, ih ⟨hwithin.assignment, by omega⟩ hused]
      change shellParseSimpleCommand _ command (token :: operator :: target :: rest) = _
      rw [shellParseSimpleCommand, if_neg hword, if_pos hnumber, hdescriptor]
      dsimp only
      rw [hoperator]
      dsimp only
      rw [shellParseTarget_eq hkind (by omega)]
      rfl

def EndsCommand (kind : ShellTokenKind) : Prop :=
  kind ∈ [.ending, .pipe, .andIf, .orIf, .semicolon, .and]

theorem shellParseSimpleCommand_ends (hsome : command ≠ {}) (hends : EndsCommand (shellPeek rest)) :
    shellParseSimpleCommand used command rest = .ok (command, used, rest) := by
  cases rest with
  | nil => rw [shellParseSimpleCommand, if_neg hsome]
  | cons token rest =>
      rw [shellPeek_cons] at hends
      have hcases : token.kind = .ending ∨ token.kind = .pipe ∨ token.kind = .andIf ∨
          token.kind = .orIf ∨ token.kind = .semicolon ∨ token.kind = .and := by
        unfold EndsCommand at hends
        simpa only [List.mem_cons, List.not_mem_nil, or_false] using hends
      rw [shellParseSimpleCommand]
      rcases hcases with hkind | hkind | hkind | hkind | hkind | hkind <;>
        (rw [hkind, if_neg (by decide), if_neg (by decide)]
         dsimp only [shellRedirectionOf]
         rw [if_neg (by decide), if_neg hsome])

theorem DerivesCommand.inner (h : DerivesCommand tokens command) : Inner tokens := by
  have hword : ∀ {token : ShellToken}, token.kind = .word → token.kind ≠ .ending :=
    fun hkind hset ↦ absurd (hkind.symm.trans hset) (by decide)
  have hoperator : ∀ {token : ShellToken} {meaning}, shellRedirectionOf token.kind = some meaning →
      token.kind ≠ .ending := fun hsome hset ↦ by
    rw [hset] at hsome
    cases hsome
  induction h with
  | nothing => exact fun _ hmem ↦ absurd hmem List.not_mem_nil
  | assignment _ _ hkind _ ih =>
      intro other hmem
      rcases List.mem_append.mp hmem with hmem | hmem
      · exact ih other hmem
      · exact List.mem_singleton.mp hmem ▸ hword hkind
  | word _ hkind _ ih =>
      intro other hmem
      rcases List.mem_append.mp hmem with hmem | hmem
      · exact ih other hmem
      · exact List.mem_singleton.mp hmem ▸ hword hkind
  | redirection _ hmeaning hkind ih =>
      intro other hmem
      rcases List.mem_append.mp hmem with hmem | hmem
      · exact ih other hmem
      · rcases List.mem_cons.mp hmem with rfl | hmem
        · exact hoperator hmeaning
        · exact List.mem_singleton.mp hmem ▸ hword hkind
  | numbered _ hnumber _ hmeaning hkind ih =>
      intro other hmem
      rcases List.mem_append.mp hmem with hmem | hmem
      · exact ih other hmem
      · rcases List.mem_cons.mp hmem with rfl | hmem
        · exact fun hset ↦ absurd (hnumber.symm.trans hset) (by decide)
        · rcases List.mem_cons.mp hmem with rfl | hmem
          · exact hoperator hmeaning
          · exact List.mem_singleton.mp hmem ▸ hword hkind

theorem DerivesCommand.ne_nil (h : DerivesCommand tokens command) (hsome : command ≠ {}) :
    tokens ≠ [] := by
  rintro rfl
  generalize hnil : ([] : List ShellToken) = tokens at h
  cases h with
  | nothing => exact hsome rfl
  | assignment => exact List.append_ne_nil_of_right_ne_nil _ (List.cons_ne_nil _ _) hnil.symm
  | word => exact List.append_ne_nil_of_right_ne_nil _ (List.cons_ne_nil _ _) hnil.symm
  | redirection => exact List.append_ne_nil_of_right_ne_nil _ (List.cons_ne_nil _ _) hnil.symm
  | numbered => exact List.append_ne_nil_of_right_ne_nil _ (List.cons_ne_nil _ _) hnil.symm

theorem DerivesCommand.peek (h : DerivesCommand tokens command) (hsome : command ≠ {})
    (rest : List ShellToken) : shellPeek (tokens ++ rest) ≠ .ending := by
  rcases tokens with _ | ⟨token, tokens⟩
  · exact absurd rfl (h.ne_nil hsome)
  · exact h.inner token List.mem_cons_self

def wordCount (commands : List ShellCommand) : ℕ :=
  (commands.map fun command ↦ command.word.length).sum

def EndsPipeline (kind : ShellTokenKind) : Prop :=
  kind ∈ [.ending, .andIf, .orIf, .semicolon, .and]

instance (kind : ShellTokenKind) : Decidable (EndsPipeline kind) :=
  inferInstanceAs (Decidable (kind ∈ _))

theorem EndsPipeline.endsCommand {kind : ShellTokenKind} (h : EndsPipeline kind) :
    EndsCommand kind := by
  unfold EndsPipeline at h
  unfold EndsCommand
  simp only [List.mem_cons, List.not_mem_nil, or_false] at h ⊢
  tauto

theorem shellParsePipelineFrom_derived (h : DerivesCommands tokens commands)
    (hwithin : ∀ command ∈ commands, command.Within) {room : ℕ} (hroom : commands.length ≤ room)
    (hused : used + wordCount commands ≤ shellTokenMaximum) (before : List ShellCommand)
    (hends : EndsPipeline (shellPeek rest)) :
    shellParsePipelineFrom used before room (tokens ++ rest) =
      .ok (before ++ commands, used + wordCount commands, rest) := by
  induction h generalizing room used before with
  | @last tokens command hderives hsome =>
      obtain ⟨room, rfl⟩ : ∃ r, room = r + 1 := ⟨room - 1, (Nat.sub_add_cancel hroom).symm⟩
      have hpipe : shellPeek rest ≠ .pipe := fun hset ↦ by
        rw [hset] at hends
        exact absurd hends (by unfold EndsPipeline; decide)
      change used + (command.word.length + 0) ≤ _ at hused
      unfold shellParsePipelineFrom
      rw [if_neg (hderives.peek hsome rest),
        shellParseSimpleCommand_derived hderives (hwithin command List.mem_cons_self) hused,
        shellParseSimpleCommand_ends hsome hends.endsCommand]
      dsimp only
      rw [if_pos hpipe]
      rfl
  | @more tokens tokens' token command commands hderives hsome hkind _ ih =>
      obtain ⟨room, rfl⟩ : ∃ r, room = r + 1 :=
        ⟨room - 1, (Nat.sub_add_cancel (Nat.one_le_of_lt hroom)).symm⟩
      have hcount : wordCount (command :: commands) = command.word.length + wordCount commands :=
        rfl
      have hpeek : shellPeek (token :: (tokens' ++ rest)) = .pipe := hkind
      have hcommandEnds : EndsCommand (shellPeek (token :: (tokens' ++ rest))) := by
        rw [hpeek]
        unfold EndsCommand
        decide
      rw [hcount] at hused ⊢
      unfold shellParsePipelineFrom
      rw [List.append_assoc, List.cons_append, if_neg (hderives.peek hsome _),
        shellParseSimpleCommand_derived hderives (hwithin command List.mem_cons_self) (by omega),
        shellParseSimpleCommand_ends hsome hcommandEnds]
      dsimp only
      rw [if_neg (not_not.mpr hpeek), List.tail_cons,
        ih (fun other hmem ↦ hwithin other (List.mem_cons_of_mem _ hmem))
          (Nat.le_of_succ_le_succ hroom) (by omega) (before ++ [command])]
      rw [List.append_assoc, Nat.add_assoc]
      rfl

theorem DerivesCommands.ne_nil (h : DerivesCommands tokens commands) : tokens ≠ [] := by
  cases h with
  | last hcommand hsome => exact hcommand.ne_nil hsome
  | more => exact List.append_ne_nil_of_right_ne_nil _ (List.cons_ne_nil _ _)

theorem shellParsePipeline_derived {pipeline : PipelineTree}
    (h : DerivesPipeline tokens pipeline) (hwithin : ∀ command ∈ pipeline.command, command.Within)
    (hroom : pipeline.command.length ≤ shellCommandMaximum)
    (hused : used + wordCount pipeline.command ≤ shellTokenMaximum)
    (hends : EndsPipeline (shellPeek rest)) :
    shellParsePipeline used (tokens ++ rest) =
      .ok (pipeline.negated, pipeline.command, used + wordCount pipeline.command, rest) := by
  cases h with
  | @plain tokens commands hderives hbang =>
      have hfalse : ((tokens ++ rest).head?.any fun token ↦
          decide (token.kind = .word ∧ token.text = [byteOf '!'])) = false := by
        rcases tokens with _ | ⟨token, tokens⟩
        · exact absurd rfl hderives.ne_nil
        · exact decide_eq_false (hbang token rfl)
      unfold shellParsePipeline
      dsimp only
      rw [hfalse, if_neg Bool.false_ne_true,
        shellParsePipelineFrom_derived hderives hwithin hroom hused [] hends]
      rfl
  | @negated tokens token commands hbang hderives =>
      have htrue : ((token :: tokens ++ rest).head?.any fun token ↦
          decide (token.kind = .word ∧ token.text = [byteOf '!'])) = true := decide_eq_true hbang
      unfold shellParsePipeline
      dsimp only
      rw [htrue, if_pos rfl, List.cons_append, List.tail_cons,
        shellParsePipelineFrom_derived hderives hwithin hroom hused [] hends]
      rfl

section Follows

variable {used' room : ℕ} {negated : Bool} {condition : ShellCondition}
  {done : List ShellPipeline} {after : List ShellToken}

theorem shellParseListFrom_ended
    (h : shellParsePipeline used rest = .ok (negated, commands, used', after))
    (hpeek : shellPeek after = .ending) :
    shellParseListFrom used condition done (room + 1) rest =
      .ok (done ++ [⟨commands, negated, condition, .none⟩]) := by
  rw [shellParseListFrom, h]
  dsimp only
  rw [hpeek]

theorem shellParseListFrom_joined
    (h : shellParsePipeline used rest = .ok (negated, commands, used', after))
    (connective : Connective) (hpeek : shellPeek after = connective.kind)
    (hmore : shellPeek after.tail ≠ .ending) :
    shellParseListFrom used condition done (room + 1) rest =
      shellParseListFrom used' connective.condition
        (done ++ [⟨commands, negated, condition, .none⟩]) room after.tail := by
  rw [shellParseListFrom, h]
  dsimp only
  rw [hpeek]
  cases connective with
  | andIf | orIf => exact if_neg hmore

theorem shellParseListFrom_separated
    (h : shellParsePipeline used rest = .ok (negated, commands, used', after))
    {kind : ShellTokenKind} {separator : ShellSeparator}
    (hseparator : separatorOf kind = some separator) (hpeek : shellPeek after = kind) :
    shellParseListFrom used condition done (room + 1) rest =
      if shellPeek after.tail = .ending then
        .ok (done ++ [⟨commands, negated, condition, separator⟩])
      else shellParseListFrom used' .none
        (done ++ [⟨commands, negated, condition, separator⟩]) room after.tail := by
  rw [shellParseListFrom, h]
  dsimp only
  rw [hpeek]
  cases kind with
  | semicolon | and =>
      cases hseparator
      rfl
  | _ => cases hseparator

end Follows

end OxysOS.Shell
