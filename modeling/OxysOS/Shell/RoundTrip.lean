import OxysOS.Shell.ParserComplete
import OxysOS.Shell.Pieces

/-!
# The parser inverts the printer

A list of pipelines is written out: each command its assignments, words and redirections,
and the conditions and separators where they stand.  The tokeniser and the parser make of
the line the list again, and whatever they accept is a derivation of the grammar.
-/

namespace OxysOS.Shell

open OxysOS.Library

def decimalDigit (digit : ℕ) : UInt8 := byteOf '0' + UInt8.ofNat digit

def descriptorDigits (descriptor : ℕ) : List ℕ :=
  if descriptor < 10 then [descriptor]
  else if descriptor < 100 then [descriptor / 10, descriptor % 10]
  else [descriptor / 100, descriptor / 10 % 10, descriptor % 10]

def descriptorText (descriptor : ℕ) : List UInt8 :=
  (descriptorDigits descriptor).map decimalDigit

def operatorOf : ShellRedirectionKind → ShellTokenKind
  | .input => .less
  | .output => .great
  | .clobber => .clobber
  | .append => .dgreat
  | .duplicateIn => .lessAnd
  | .duplicateOut => .greatAnd
  | .readWrite => .lessGreat

def operatorPiece (kind : ShellTokenKind) : Piece := (kind, operatorText kind)

def printAssignments (assignments : List (List UInt8)) : List Piece :=
  assignments.map fun assignment ↦ (.word, quoteAssignment assignment)

def printWords (words : List (List UInt8)) : List Piece :=
  words.map fun word ↦ (.word, quoteWord word)

def printRedirections : List ShellRedirection → List Piece
  | [] => []
  | redirection :: rest =>
      (.ioNumber, descriptorText redirection.descriptor) ::
        operatorPiece (operatorOf redirection.kind) ::
        (.word, quoteWord redirection.target) :: printRedirections rest

def printCommand (command : ShellCommand) : List Piece :=
  printAssignments command.assignment ++ printWords command.word ++
    printRedirections command.redirection

def printCommands : List ShellCommand → List Piece
  | [] => []
  | [command] => printCommand command
  | command :: second :: rest =>
      printCommand command ++ operatorPiece .pipe :: printCommands (second :: rest)

def printPipeline (pipeline : ShellPipeline) : List Piece :=
  (if pipeline.negated then [(.word, [byteOf '!'])] else []) ++ printCommands pipeline.command

def printCondition : ShellCondition → List Piece
  | .none => []
  | .andIf => [operatorPiece .andIf]
  | .orIf => [operatorPiece .orIf]

def printSeparator : ShellSeparator → List Piece
  | .none => []
  | .sequence => [operatorPiece .semicolon]
  | .background => [operatorPiece .and]

def printList : List ShellPipeline → List Piece
  | [] => []
  | pipeline :: rest =>
      printCondition pipeline.condition ++ (printPipeline pipeline ++
        (printSeparator pipeline.separator ++ printList rest))

def shellPrint (pipelines : List ShellPipeline) : List UInt8 := spellings (printList pipelines)

structure ShellCommand.Printable (command : ShellCommand) : Prop where
  some : command ≠ {}
  within : command.Within
  assignment : ∀ assignment ∈ command.assignment, shellIsAssignmentWord assignment
  descriptor : ∀ redirection ∈ command.redirection, redirection.descriptor < 1000

structure ShellPipeline.Printable (pipeline : ShellPipeline) : Prop where
  some : pipeline.command ≠ []
  count : pipeline.command.length ≤ shellCommandMaximum
  command : ∀ command ∈ pipeline.command, command.Printable

/-- A list of pipelines of the grammar within the bounds of a line: a condition stands
before each pipeline but the first that no separator stands before, and nowhere else. -/
structure ShellPrintable (pipelines : List ShellPipeline) : Prop where
  some : pipelines ≠ []
  count : pipelines.length ≤ shellPipelineMaximum
  first : ∀ pipeline ∈ pipelines.head?, pipeline.condition = .none
  joined : pipelines.IsChain fun pipeline next ↦
    pipeline.separator = .none ↔ next.condition ≠ .none
  pipeline : ∀ pipeline ∈ pipelines, pipeline.Printable
  tokens : (printList pipelines).length < shellTokenMaximum
  text : textOf (printList pipelines) < shellTextMaximum

def ShellRedirection.mapWords (f : List UInt8 → List UInt8) (redirection : ShellRedirection) :
    ShellRedirection := { redirection with target := f redirection.target }

def ShellCommand.mapWords (f g : List UInt8 → List UInt8) (command : ShellCommand) :
    ShellCommand where
  word := command.word.map f
  redirection := command.redirection.map (ShellRedirection.mapWords f)
  assignment := command.assignment.map g

def ShellPipeline.mapWords (f g : List UInt8 → List UInt8) (pipeline : ShellPipeline) :
    ShellPipeline := { pipeline with command := pipeline.command.map (ShellCommand.mapWords f g) }

def quoteList (pipelines : List ShellPipeline) : List ShellPipeline :=
  pipelines.map (ShellPipeline.mapWords quoteWord quoteAssignment)

variable {command : ShellCommand} {commands : List ShellCommand} {pipeline : ShellPipeline}
  {pipelines : List ShellPipeline} {tokens : List ShellToken} {column : ℕ}

theorem decimalDigit_digit {digit : ℕ} (h : digit < 10) : shellIsDigit (decimalDigit digit) := by
  have hall : ∀ digit < 10, shellIsDigit (decimalDigit digit) := by decide
  exact hall digit h

theorem decimalDigit_value {digit : ℕ} (h : digit < 10) :
    (decimalDigit digit - byteOf '0').toNat = digit := by
  have hall : ∀ digit < 10, (decimalDigit digit - byteOf '0').toNat = digit := by decide
  exact hall digit h

theorem foldl_decimalDigit {digits : List ℕ} (h : ∀ digit ∈ digits, digit < 10) (value : ℕ) :
    (digits.map decimalDigit).foldl (fun value digit ↦ value * 10 + (digit - byteOf '0').toNat)
      value = digits.foldl (fun value digit ↦ value * 10 + digit) value := by
  induction digits generalizing value with
  | nil => rfl
  | cons digit digits ih =>
      rw [List.map_cons, List.foldl_cons, List.foldl_cons,
        decimalDigit_value (h digit List.mem_cons_self),
        ih fun other hmem ↦ h other (List.mem_cons_of_mem _ hmem)]

theorem descriptorDigits_spec {descriptor : ℕ} (h : descriptor < 1000) :
    descriptorDigits descriptor ≠ [] ∧ (descriptorDigits descriptor).length ≤ 3 ∧
      (∀ digit ∈ descriptorDigits descriptor, digit < 10) ∧
      (descriptorDigits descriptor).foldl (fun value digit ↦ value * 10 + digit) 0 =
        descriptor := by
  unfold descriptorDigits
  by_cases hone : descriptor < 10
  · rw [if_pos hone]
    simp only [List.mem_singleton, forall_eq, List.foldl_cons, List.foldl_nil, List.length_cons,
      List.length_nil]
    exact ⟨List.cons_ne_nil _ _, by omega, hone, by omega⟩
  · rw [if_neg hone]
    by_cases htwo : descriptor < 100
    · rw [if_pos htwo]
      simp only [List.mem_cons, List.not_mem_nil, or_false, forall_eq_or_imp, forall_eq,
        List.foldl_cons, List.foldl_nil, List.length_cons, List.length_nil]
      exact ⟨List.cons_ne_nil _ _, by omega, by omega, by omega⟩
    · rw [if_neg htwo]
      simp only [List.mem_cons, List.not_mem_nil, or_false, forall_eq_or_imp, forall_eq,
        List.foldl_cons, List.foldl_nil, List.length_cons, List.length_nil]
      exact ⟨List.cons_ne_nil _ _, by omega, by omega, by omega⟩

theorem descriptorText_digits {descriptor : ℕ} (h : descriptor < 1000) :
    descriptorText descriptor ≠ [] ∧
      (∀ digit ∈ descriptorText descriptor, shellIsDigit digit) ∧
      shellDescriptorOf (descriptorText descriptor) = some descriptor := by
  obtain ⟨hsome, hlength, hdigits, hvalue⟩ := descriptorDigits_spec h
  refine ⟨fun hnil ↦ hsome (List.map_eq_nil_iff.mp hnil), fun digit hmem ↦ ?_, ?_⟩
  · obtain ⟨value, hvalueMem, rfl⟩ := List.mem_map.mp hmem
    exact decimalDigit_digit (hdigits value hvalueMem)
  · unfold shellDescriptorOf descriptorText
    rw [List.length_map, if_neg (not_lt.mpr hlength), foldl_decimalDigit hdigits, hvalue]

theorem wordText_quoteWord (word : List UInt8) : WordText (quoteWord word) := by
  refine ⟨?_, shellWordExtent_quoteWord word⟩
  rcases eq_or_ne_quoteWord word with ⟨heq, hbare⟩ | ⟨rest, heq⟩
  · rw [heq]
    obtain ⟨first, rest, rfl⟩ := List.exists_cons_of_ne_nil hbare.1
    refine ⟨first, rest, rfl, not_endsWord (hbare.ordinary first List.mem_cons_self), ?_,
      fun _ ↦ hbare.ordinary⟩
    rintro rfl
    exact hbare.2.1 _ List.mem_cons_self (by decide)
  · rw [heq]
    exact ⟨_, _, rfl, by decide, by decide, fun hdigit ↦ absurd hdigit (by decide)⟩

theorem wordText_quoteAssignment {word : List UInt8} (h : shellIsAssignmentWord word) :
    WordText (quoteAssignment word) := by
  refine ⟨?_, shellWordExtent_quoteAssignment h⟩
  obtain ⟨first, rest, heq, hordinary, hdigit⟩ := quoteAssignment_head h
  refine ⟨first, rest, heq,
    not_endsWord fun hmem ↦ hordinary (List.mem_append_left _ hmem), ?_,
    fun hset ↦ absurd hset hdigit⟩
  rintro rfl
  exact hordinary (by decide)

theorem wordText_bang : WordText [byteOf '!'] :=
  ⟨⟨_, _, rfl, by decide, by decide, fun hdigit ↦ absurd hdigit (by decide)⟩,
    shellWordExtent_append (List.all_iff_forall_prop.mp (by decide))⟩

theorem shellRedirectionOf_operatorOf (kind : ShellRedirectionKind) :
    ∃ own, shellRedirectionOf (operatorOf kind) = some (kind, own) := by
  cases kind <;> exact ⟨_, rfl⟩

theorem printed_printWords (words : List (List UInt8)) : Printed (printWords words) := by
  induction words with
  | nil => exact .nil
  | cons word words ih => exact .word (wordText_quoteWord word) ih

theorem printed_printAssignments {assignments : List (List UInt8)}
    (h : ∀ assignment ∈ assignments, shellIsAssignmentWord assignment) :
    Printed (printAssignments assignments) := by
  induction assignments with
  | nil => exact .nil
  | cons assignment assignments ih =>
      exact .word (wordText_quoteAssignment (h assignment List.mem_cons_self))
        (ih fun other hmem ↦ h other (List.mem_cons_of_mem _ hmem))

theorem printed_printRedirections {redirections : List ShellRedirection}
    (h : ∀ redirection ∈ redirections, redirection.descriptor < 1000) :
    Printed (printRedirections redirections) := by
  induction redirections with
  | nil => exact .nil
  | cons redirection redirections ih =>
      obtain ⟨hsome, hdigits, -⟩ := descriptorText_digits (h redirection List.mem_cons_self)
      obtain ⟨own, hown⟩ := shellRedirectionOf_operatorOf redirection.kind
      refine .number hsome hdigits (Option.isSome_iff_exists.mpr ⟨_, hown⟩) (.word
        (wordText_quoteWord redirection.target) (ih fun other hmem ↦ h other ?_))
      exact List.mem_cons_of_mem _ hmem

theorem printed_printCommand (h : command.Printable) : Printed (printCommand command) :=
  ((printed_printAssignments h.assignment).append (printed_printWords _)).append
    (printed_printRedirections h.descriptor)

theorem printed_printCommands (h : ∀ command ∈ commands, command.Printable) :
    Printed (printCommands commands) := by
  fun_induction printCommands commands with
  | case1 => exact .nil
  | case2 command => exact printed_printCommand (h command List.mem_cons_self)
  | case3 command second rest ih =>
      exact (printed_printCommand (h command List.mem_cons_self)).append
        (.operator (by decide) (ih fun other hmem ↦ h other (List.mem_cons_of_mem _ hmem)))

theorem printed_printPipeline (h : pipeline.Printable) : Printed (printPipeline pipeline) := by
  unfold printPipeline
  refine Printed.append ?_ (printed_printCommands h.command)
  split
  · exact .word wordText_bang .nil
  · exact .nil

theorem printed_printCondition (condition : ShellCondition) :
    Printed (printCondition condition) := by
  cases condition with
  | none => exact .nil
  | andIf | orIf => exact .operator (by decide) .nil

theorem printed_printSeparator (separator : ShellSeparator) :
    Printed (printSeparator separator) := by
  cases separator with
  | none => exact .nil
  | sequence | background => exact .operator (by decide) .nil

theorem printed_printList (h : ∀ pipeline ∈ pipelines, pipeline.Printable) :
    Printed (printList pipelines) := by
  induction pipelines with
  | nil => exact .nil
  | cons pipeline rest ih =>
      exact (printed_printCondition _).append
        ((printed_printPipeline (h pipeline List.mem_cons_self)).append
          ((printed_printSeparator _).append
            (ih fun other hmem ↦ h other (List.mem_cons_of_mem _ hmem))))

theorem DerivesCommand.assignments (h : DerivesCommand tokens command)
    (hwords : command.word = []) {assignments : List (List UInt8)}
    (hassignment : ∀ assignment ∈ assignments, shellIsAssignmentWord assignment) (column : ℕ) :
    DerivesCommand (tokens ++ tokensAt column (printAssignments assignments))
      { command with assignment := command.assignment ++ assignments.map quoteAssignment } := by
  induction assignments generalizing tokens command column with
  | nil =>
      change DerivesCommand (tokens ++ []) { command with assignment := command.assignment ++ [] }
      rwa [List.append_nil, List.append_nil]
  | cons assignment assignments ih =>
      have hset := shellIsAssignmentWord_quoteAssignment (hassignment assignment List.mem_cons_self)
      have hfirst : DerivesCommand (tokens ++ [⟨.word, quoteAssignment assignment, column⟩]) _ :=
        h.assignment hwords rfl hset
      have hmore := ih hfirst hwords (fun other hmem ↦ hassignment other
        (List.mem_cons_of_mem _ hmem)) (column + (spelling (.word, quoteAssignment assignment)).length)
      rwa [List.append_assoc, List.append_assoc] at hmore

theorem DerivesCommand.words (h : DerivesCommand tokens command) (words : List (List UInt8))
    (column : ℕ) :
    DerivesCommand (tokens ++ tokensAt column (printWords words))
      { command with word := command.word ++ words.map quoteWord } := by
  induction words generalizing tokens command column with
  | nil =>
      change DerivesCommand (tokens ++ []) { command with word := command.word ++ [] }
      rwa [List.append_nil, List.append_nil]
  | cons word words ih =>
      have hfirst : DerivesCommand (tokens ++ [⟨.word, quoteWord word, column⟩]) _ :=
        h.word rfl fun _ ↦ ⟨(quoteWord_ordinary word).1, (quoteWord_ordinary word).2.1⟩
      have hmore := ih hfirst (column + (spelling (.word, quoteWord word)).length)
      rwa [List.append_assoc, List.append_assoc] at hmore

theorem DerivesCommand.redirections (h : DerivesCommand tokens command)
    {redirections : List ShellRedirection}
    (hdescriptor : ∀ redirection ∈ redirections, redirection.descriptor < 1000) (column : ℕ) :
    DerivesCommand (tokens ++ tokensAt column (printRedirections redirections))
      { command with redirection := command.redirection ++
          redirections.map (ShellRedirection.mapWords quoteWord) } := by
  induction redirections generalizing tokens command column with
  | nil =>
      change DerivesCommand (tokens ++ []) { command with redirection := command.redirection ++ [] }
      rwa [List.append_nil, List.append_nil]
  | cons redirection redirections ih =>
      obtain ⟨-, -, hvalue⟩ :=
        descriptorText_digits (hdescriptor redirection List.mem_cons_self)
      obtain ⟨own, hown⟩ := shellRedirectionOf_operatorOf redirection.kind
      -- the tokens of the redirection stand where it is written
      let number : ShellToken := ⟨.ioNumber, descriptorText redirection.descriptor, column⟩
      let operatorColumn := column + (spelling (.ioNumber, number.text)).length
      let operator : ShellToken :=
        ⟨operatorOf redirection.kind, operatorText (operatorOf redirection.kind), operatorColumn⟩
      let targetColumn := operatorColumn + (spelling (operator.kind, operator.text)).length
      let target : ShellToken := ⟨.word, quoteWord redirection.target, targetColumn⟩
      have hfirst : DerivesCommand (tokens ++ [number, operator, target]) _ :=
        h.numbered rfl hvalue hown rfl
      have hmore := ih hfirst (fun other hmem ↦ hdescriptor other (List.mem_cons_of_mem _ hmem))
        (targetColumn + (spelling (.word, target.text)).length)
      rwa [List.append_assoc, List.append_assoc] at hmore

theorem derivesCommand_printCommand (h : command.Printable) (column : ℕ) :
    DerivesCommand (tokensAt column (printCommand command))
      (command.mapWords quoteWord quoteAssignment) := by
  unfold printCommand
  rw [tokensAt_append, tokensAt_append]
  exact ((DerivesCommand.nothing.assignments rfl h.assignment column).words command.word _)
    |>.redirections h.descriptor _

theorem mapWords_ne (h : command ≠ {}) (f g : List UInt8 → List UInt8) :
    command.mapWords f g ≠ {} := by
  rcases command with ⟨word, redirection, assignment⟩
  intro hmap
  unfold ShellCommand.mapWords at hmap
  rw [ShellCommand.mk.injEq] at hmap
  apply h
  rw [ShellCommand.mk.injEq]
  exact ⟨List.map_eq_nil_iff.mp hmap.1, List.map_eq_nil_iff.mp hmap.2.1,
    List.map_eq_nil_iff.mp hmap.2.2⟩

theorem derivesCommands_printCommands (h : ∀ command ∈ commands, command.Printable)
    (hsome : commands ≠ []) (column : ℕ) :
    DerivesCommands (tokensAt column (printCommands commands))
      (commands.map (ShellCommand.mapWords quoteWord quoteAssignment)) := by
  fun_induction printCommands commands generalizing column with
  | case1 => exact absurd rfl hsome
  | case2 command =>
      have hcommand := h command List.mem_cons_self
      exact .last (derivesCommand_printCommand hcommand column) (mapWords_ne hcommand.some _ _)
  | case3 command second rest ih =>
      have hcommand := h command List.mem_cons_self
      rw [tokensAt_append]
      exact .more (derivesCommand_printCommand hcommand column) (mapWords_ne hcommand.some _ _) rfl
        (ih (fun other hmem ↦ h other (List.mem_cons_of_mem _ hmem)) (List.cons_ne_nil _ _) _)

theorem mem_tokensAt {pieces : List Piece} {token : ShellToken} (h : token ∈ tokensAt column pieces) :
    (token.kind, token.text) ∈ pieces := by
  induction pieces generalizing column with
  | nil => exact absurd h List.not_mem_nil
  | cons piece pieces ih =>
      rcases List.mem_cons.mp h with rfl | hmem
      · exact List.mem_cons_self
      · exact List.mem_cons_of_mem _ (ih hmem)

def bangPiece : Piece := (.word, [byteOf '!'])

theorem bangPiece_not_mem_printCommand (h : command.Printable) :
    bangPiece ∉ printCommand command := by
  have hredirections : ∀ redirections : List ShellRedirection,
      bangPiece ∉ printRedirections redirections := by
    intro redirections
    induction redirections with
    | nil => exact List.not_mem_nil
    | cons redirection redirections ih =>
        intro hmem
        unfold printRedirections at hmem
        rcases List.mem_cons.mp hmem with hnumber | hmem
        · cases hnumber
        rcases List.mem_cons.mp hmem with hoperator | hmem
        · have hkind := congrArg Prod.fst hoperator
          revert hkind
          cases redirection.kind <;> decide
        rcases List.mem_cons.mp hmem with htarget | hmem
        · exact (quoteWord_ordinary redirection.target).2.2 (congrArg Prod.snd htarget).symm
        · exact ih hmem
  intro hmem
  rcases List.mem_append.mp hmem with hmem | hmem
  · rcases List.mem_append.mp hmem with hmem | hmem
    · obtain ⟨assignment, hassignment, hpiece⟩ := List.mem_map.mp hmem
      have hset := shellIsAssignmentWord_quoteAssignment (h.assignment assignment hassignment)
      have htext : quoteAssignment assignment = [byteOf '!'] := congrArg Prod.snd hpiece
      rw [htext] at hset
      exact absurd hset (by decide)
    · obtain ⟨word, -, hpiece⟩ := List.mem_map.mp hmem
      exact (quoteWord_ordinary word).2.2 (congrArg Prod.snd hpiece)
  · exact hredirections _ hmem

theorem bangPiece_not_mem_printCommands (h : ∀ command ∈ commands, command.Printable) :
    bangPiece ∉ printCommands commands := by
  fun_induction printCommands commands with
  | case1 => exact List.not_mem_nil
  | case2 command => exact bangPiece_not_mem_printCommand (h command List.mem_cons_self)
  | case3 command second rest ih =>
      intro hmem
      rcases List.mem_append.mp hmem with hmem | hmem
      · exact bangPiece_not_mem_printCommand (h command List.mem_cons_self) hmem
      rcases List.mem_cons.mp hmem with hpipe | hmem
      · exact absurd (congrArg Prod.fst hpipe) (by decide)
      · exact ih (fun other hother ↦ h other (List.mem_cons_of_mem _ hother)) hmem

def pipelineTree (pipeline : ShellPipeline) : PipelineTree :=
  ⟨pipeline.negated, pipeline.command.map (ShellCommand.mapWords quoteWord quoteAssignment)⟩

theorem derivesPipeline_printPipeline (h : pipeline.Printable) (column : ℕ) :
    DerivesPipeline (tokensAt column (printPipeline pipeline)) (pipelineTree pipeline) := by
  unfold printPipeline pipelineTree
  cases hnegated : pipeline.negated with
  | true => exact .negated ⟨rfl, rfl⟩ (derivesCommands_printCommands h.command h.some _)
  | false =>
      refine .plain (derivesCommands_printCommands h.command h.some column) fun token hhead hbang ↦
        bangPiece_not_mem_printCommands h.command ?_
      have hmem := mem_tokensAt (List.mem_of_mem_head? hhead)
      rwa [hbang.1, hbang.2] at hmem

theorem wordCount_le (commands : List ShellCommand) (f g : List UInt8 → List UInt8) :
    wordCount (commands.map (ShellCommand.mapWords f g)) ≤ (printCommands commands).length := by
  have hcommand : ∀ command : ShellCommand,
      (command.mapWords f g).word.length ≤ (printCommand command).length := fun command ↦ by
    have hwords : (printWords command.word).length = command.word.length := List.length_map _
    have hmap : (command.mapWords f g).word.length = command.word.length := List.length_map _
    unfold printCommand
    rw [List.length_append, List.length_append, hwords, hmap]
    omega
  fun_induction printCommands commands with
  | case1 => exact Nat.zero_le _
  | case2 command => exact hcommand command
  | case3 command second rest ih =>
      have hfirst := hcommand command
      change (command.mapWords f g).word.length +
        wordCount ((second :: rest).map (ShellCommand.mapWords f g)) ≤ _
      rw [List.length_append, List.length_cons]
      omega

theorem wordCount_pipelineTree_le (pipeline : ShellPipeline) :
    wordCount (pipelineTree pipeline).command ≤ (printPipeline pipeline).length := by
  have hcommands := wordCount_le pipeline.command quoteWord quoteAssignment
  unfold printPipeline
  rw [List.length_append]
  exact hcommands.trans (Nat.le_add_left _ _)

theorem DerivesPipeline.peek {tree : PipelineTree} (h : DerivesPipeline tokens tree)
    (rest : List ShellToken) : shellPeek (tokens ++ rest) ≠ .ending := by
  cases h with
  | plain hcommands =>
      cases hcommands with
      | last hcommand hsome => exact hcommand.peek hsome rest
      | more hcommand hsome =>
          rw [List.append_assoc]
          exact hcommand.peek hsome _
  | negated hbang =>
      intro hpeek
      exact absurd (hbang.1.symm.trans hpeek) (by decide)

theorem peek_printPipeline (h : pipeline.Printable) (column : ℕ) (after : List Piece) :
    shellPeek (tokensAt column (printPipeline pipeline ++ after)) ≠ .ending := by
  rw [tokensAt_append]
  exact (derivesPipeline_printPipeline h column).peek _

def columnAfter (column : ℕ) (pipeline : ShellPipeline) : ℕ :=
  column + (spellings (printPipeline pipeline)).length

theorem shellParsePipeline_printPipeline (used column : ℕ) (h : pipeline.Printable)
    (hused : used + (printPipeline pipeline).length ≤ shellTokenMaximum) {kind : ShellTokenKind}
    (hkind : EndsPipeline kind) (after : List Piece)
    (hpeek : shellPeek (tokensAt (columnAfter column pipeline) after) = kind) :
    shellParsePipeline used (tokensAt column (printPipeline pipeline ++ after)) =
      .ok (pipeline.negated, (pipelineTree pipeline).command,
        used + wordCount (pipelineTree pipeline).command,
        tokensAt (columnAfter column pipeline) after) := by
  have hwords := wordCount_pipelineTree_le pipeline
  have hwithin : ∀ command ∈ (pipelineTree pipeline).command, command.Within := by
    intro command hmem
    obtain ⟨source, hsource, rfl⟩ := List.mem_map.mp hmem
    have hsourceWithin := (h.command source hsource).within
    exact ⟨(List.length_map _).le.trans hsourceWithin.assignment,
      (List.length_map _).le.trans hsourceWithin.redirection⟩
  rw [tokensAt_append]
  exact shellParsePipeline_derived (derivesPipeline_printPipeline h column) hwithin
    ((List.length_map _).le.trans h.count) (by omega) (hpeek.symm ▸ hkind)

def parsed (pipeline : ShellPipeline) (condition : ShellCondition) (separator : ShellSeparator) :
    ShellPipeline :=
  ⟨(pipelineTree pipeline).command, pipeline.negated, condition, separator⟩

theorem quoteList_cons (pipeline : ShellPipeline) (rest : List ShellPipeline) :
    quoteList (pipeline :: rest) =
      parsed pipeline pipeline.condition pipeline.separator :: quoteList rest := rfl

section Follows

variable {used : ℕ} {next : ShellPipeline}

theorem shellParseListFrom_connective (h : pipeline.Printable)
    (hused : used + (printPipeline pipeline).length ≤ shellTokenMaximum) (hnext : next.Printable)
    (connective : Connective) (column room : ℕ) (condition : ShellCondition)
    (done : List ShellPipeline) (after : List Piece) :
    ∃ column', shellParseListFrom used condition done (room + 1) (tokensAt column
        (printPipeline pipeline ++ operatorPiece connective.kind ::
          (printPipeline next ++ after))) =
      shellParseListFrom (used + wordCount (pipelineTree pipeline).command) connective.condition
        (done ++ [parsed pipeline condition .none]) room
        (tokensAt column' (printPipeline next ++ after)) := by
  have hkind : EndsPipeline connective.kind := by cases connective <;> decide
  have hparse := shellParsePipeline_printPipeline used column h hused hkind
    (operatorPiece connective.kind :: (printPipeline next ++ after)) rfl
  exact ⟨_, shellParseListFrom_joined hparse connective rfl (peek_printPipeline hnext _ after)⟩

theorem shellParseListFrom_separator (h : pipeline.Printable)
    (hused : used + (printPipeline pipeline).length ≤ shellTokenMaximum) (hnext : next.Printable)
    {kind : ShellTokenKind} {separator : ShellSeparator} (hkind : EndsPipeline kind)
    (hseparator : separatorOf kind = some separator) (column room : ℕ)
    (condition : ShellCondition) (done : List ShellPipeline) (after : List Piece) :
    ∃ column', shellParseListFrom used condition done (room + 1) (tokensAt column
        (printPipeline pipeline ++ operatorPiece kind :: (printPipeline next ++ after))) =
      shellParseListFrom (used + wordCount (pipelineTree pipeline).command) .none
        (done ++ [parsed pipeline condition separator]) room
        (tokensAt column' (printPipeline next ++ after)) := by
  have hparse := shellParsePipeline_printPipeline used column h hused hkind
    (operatorPiece kind :: (printPipeline next ++ after)) rfl
  exact ⟨_, (shellParseListFrom_separated hparse hseparator rfl).trans
    (if_neg (peek_printPipeline hnext _ after))⟩

theorem shellParseListFrom_last (h : pipeline.Printable)
    (hused : used + (printPipeline pipeline).length ≤ shellTokenMaximum)
    (separator : ShellSeparator) (column room : ℕ) (condition : ShellCondition)
    (done : List ShellPipeline) :
    shellParseListFrom used condition done (room + 1) (tokensAt column
        (printPipeline pipeline ++ (printSeparator separator ++ []))) =
      .ok (done ++ [parsed pipeline condition separator]) := by
  have hparse := fun {kind} (hkind : EndsPipeline kind) after hpeek ↦
    shellParsePipeline_printPipeline used column h hused hkind after hpeek
  cases separator with
  | none => exact shellParseListFrom_ended (hparse (by decide : EndsPipeline .ending) [] rfl) rfl
  | sequence =>
      exact (shellParseListFrom_separated (hparse (by decide : EndsPipeline .semicolon)
        (printSeparator .sequence ++ []) rfl) rfl rfl).trans (if_pos rfl)
  | background =>
      exact (shellParseListFrom_separated (hparse (by decide : EndsPipeline .and)
        (printSeparator .background ++ []) rfl) rfl rfl).trans (if_pos rfl)

end Follows

theorem shellParseListFrom_printList {room used : ℕ} {done rest : List ShellPipeline}
    (hroom : rest.length < room)
    (hjoined : (pipeline :: rest).IsChain fun pipeline next ↦
      pipeline.separator = .none ↔ next.condition ≠ .none)
    (hprintable : ∀ other ∈ pipeline :: rest, other.Printable)
    (hused : used + (printPipeline pipeline ++
      (printSeparator pipeline.separator ++ printList rest)).length ≤ shellTokenMaximum)
    (column : ℕ) :
    shellParseListFrom used pipeline.condition done room (tokensAt column
        (printPipeline pipeline ++ (printSeparator pipeline.separator ++ printList rest))) =
      .ok (done ++ quoteList (pipeline :: rest)) := by
  induction rest generalizing pipeline used done room column with
  | nil =>
      obtain ⟨room, rfl⟩ : ∃ r, room = r + 1 := ⟨room - 1, (Nat.sub_add_cancel hroom).symm⟩
      rw [List.length_append] at hused
      exact shellParseListFrom_last (hprintable pipeline List.mem_cons_self) (by omega)
        pipeline.separator column room pipeline.condition done
  | cons next rest ih =>
      obtain ⟨room, rfl⟩ : ∃ r, room = r + 1 :=
        ⟨room - 1, (Nat.sub_add_cancel (Nat.one_le_of_lt hroom)).symm⟩
      have hpipeline := hprintable pipeline List.mem_cons_self
      have hnext := hprintable next (List.mem_cons_of_mem _ List.mem_cons_self)
      have hothers : ∀ other ∈ next :: rest, other.Printable := fun other hmem ↦
        hprintable other (List.mem_cons_of_mem _ hmem)
      obtain ⟨hlink, hjoined⟩ := List.isChain_cons_cons.mp hjoined
      have hwords := wordCount_pipelineTree_le pipeline
      have hlist : printList (next :: rest) = printCondition next.condition ++
        (printPipeline next ++ (printSeparator next.separator ++ printList rest)) := rfl
      rw [hlist, List.length_append, List.length_append, List.length_append] at hused
      have hfits : used + (printPipeline pipeline).length ≤ shellTokenMaximum := by omega
      have hrest : ∀ done column, shellParseListFrom
          (used + wordCount (pipelineTree pipeline).command) next.condition done room
          (tokensAt column (printPipeline next ++
            (printSeparator next.separator ++ printList rest))) =
          .ok (done ++ quoteList (next :: rest)) := fun done column ↦
        ih (Nat.lt_of_succ_lt_succ hroom) hjoined hothers (by omega) column
      rw [quoteList_cons, List.append_cons, hlist]
      cases hseparator : pipeline.separator with
      | none =>
          have hconnective : ∃ connective : Connective, next.condition = connective.condition ∧
              printCondition next.condition = [operatorPiece connective.kind] := by
            cases hset : next.condition with
            | none => exact absurd hset (hlink.mp hseparator)
            | andIf => exact ⟨.andIf, rfl, rfl⟩
            | orIf => exact ⟨.orIf, rfl, rfl⟩
          obtain ⟨connective, hcondition, hprinted⟩ := hconnective
          obtain ⟨column', hparse⟩ := shellParseListFrom_connective hpipeline hfits hnext connective
            column room pipeline.condition done (printSeparator next.separator ++ printList rest)
          rw [hprinted]
          exact hparse.trans (hcondition ▸ hrest _ column')
      | sequence =>
          have hcondition : next.condition = .none := by
            by_contra hset
            cases hseparator.symm.trans (hlink.mpr hset)
          obtain ⟨column', hparse⟩ := shellParseListFrom_separator hpipeline hfits hnext
            (by decide : EndsPipeline .semicolon) rfl column room pipeline.condition done
            (printSeparator next.separator ++ printList rest)
          rw [hcondition]
          exact hparse.trans (hcondition ▸ hrest _ column')
      | background =>
          have hcondition : next.condition = .none := by
            by_contra hset
            cases hseparator.symm.trans (hlink.mpr hset)
          obtain ⟨column', hparse⟩ := shellParseListFrom_separator hpipeline hfits hnext
            (by decide : EndsPipeline .and) rfl column room pipeline.condition done
            (printSeparator next.separator ++ printList rest)
          rw [hcondition]
          exact hparse.trans (hcondition ▸ hrest _ column')

theorem shellParse_of_printable (h : ShellPrintable pipelines) :
    ∃ tokens, shellTokenise (shellPrint pipelines) = .ok tokens ∧
      shellParse tokens = .ok (quoteList pipelines) := by
  obtain ⟨pipeline, rest, rfl⟩ := List.exists_cons_of_ne_nil h.some
  have hpipeline := h.pipeline pipeline List.mem_cons_self
  have hcondition := h.first pipeline rfl
  have hlist : printList (pipeline :: rest) = printPipeline pipeline ++
      (printSeparator pipeline.separator ++ printList rest) := by
    rw [printList, hcondition]
    rfl
  have htokens := h.tokens
  have hfound : shellTokenise (shellPrint (pipeline :: rest)) =
      .ok (foundAt ⟨[], 0⟩ 0 (printList (pipeline :: rest))) := by
    refine shellTokeniseFrom_spellings (printed_printList h.pipeline) ?_ ?_
    · rwa [List.length_nil, Nat.zero_add]
    · rw [Nat.zero_add]
      exact h.text
  have hinner : (foundAt ⟨[], 0⟩ 0 (printList (pipeline :: rest))).token.dropLast =
      tokensAt 0 (printList (pipeline :: rest)) := by
    unfold foundAt
    rw [List.dropLast_concat, List.nil_append]
  have hsome : tokensAt 0 (printList (pipeline :: rest)) ≠ [] := by
    rw [hlist]
    intro hnil
    exact peek_printPipeline hpipeline 0 _ (congrArg shellPeek hnil)
  refine ⟨_, hfound, ?_⟩
  unfold shellParse
  rw [if_neg, hinner, if_neg hsome, hlist]
  · have hused : 0 + (printPipeline pipeline ++ (printSeparator pipeline.separator ++
        printList rest)).length ≤ shellTokenMaximum := by
      rw [← hlist, Nat.zero_add]
      exact htokens.le
    have hparse : _ = Except.ok ([] ++ quoteList (pipeline :: rest)) := shellParseListFrom_printList
      (Nat.lt_of_lt_of_le (Nat.lt_succ_self _) h.count) h.joined h.pipeline hused 0
    rwa [hcondition] at hparse
  · exact List.append_ne_nil_of_right_ne_nil _ (List.cons_ne_nil _ _)

theorem derives_of_shellParse {line : List UInt8} {found : ShellTokens}
    (htokens : shellTokenise line = .ok found) (hparse : shellParse found = .ok pipelines) :
    ∃ tree, Spells line found.token.dropLast ∧ DerivesList found.token.dropLast tree ∧
      pipelines = flattenList .none tree := by
  obtain ⟨more, last, hfound, -, hinner, hspells⟩ := spelledFrom_of_shellTokeniseFrom htokens
  have hdrop : found.token.dropLast = more := by
    rw [hfound, List.dropLast_concat, List.nil_append]
  unfold shellParse at hparse
  split at hparse
  · cases hparse
  · split at hparse
    · cases hparse
    · rw [hdrop] at hparse ⊢
      obtain ⟨tree, hresult, hderives⟩ := derives_of_shellParseListFrom hinner hparse
      exact ⟨tree, hspells, hderives, hresult⟩

end OxysOS.Shell
