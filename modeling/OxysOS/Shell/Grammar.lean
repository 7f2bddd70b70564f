import OxysOS.Shell.Parser

/-!
# The shell's grammar

`list := and_or ((';' | '&') and_or)* [';' | '&']`, `and_or := pipeline (('&&' | '||')
pipeline)*` and `pipeline := ['!'] command ('|' command)*`, as derivations of lists of
tokens, and the flat list that a tree of the grammar is.  The parser accepts exactly
what is derived within its bounds, and answers with the flat list of the tree.
-/

namespace OxysOS.Shell

open OxysOS.Library

structure PipelineTree where
  negated : Bool
  command : List ShellCommand

inductive Connective
  | andIf | orIf
  deriving DecidableEq

def Connective.condition : Connective → ShellCondition
  | andIf => .andIf
  | orIf => .orIf

def Connective.kind : Connective → ShellTokenKind
  | andIf => .andIf
  | orIf => .orIf

structure AndOr where
  first : PipelineTree
  rest : List (Connective × PipelineTree)

def separatorOf : ShellTokenKind → Option ShellSeparator
  | .semicolon => some .sequence
  | .and => some .background
  | _ => none

abbrev ListTree := List (AndOr × ShellSeparator)

def flattenAndOr (condition : ShellCondition) (separator : ShellSeparator) (first : PipelineTree) :
    List (Connective × PipelineTree) → List ShellPipeline
  | [] => [⟨first.command, first.negated, condition, separator⟩]
  | (connective, second) :: rest =>
      ⟨first.command, first.negated, condition, .none⟩ ::
        flattenAndOr connective.condition separator second rest

def flattenList (condition : ShellCondition) : ListTree → List ShellPipeline
  | [] => []
  | (item, separator) :: rest =>
      flattenAndOr condition separator item.first item.rest ++ flattenList .none rest

/-- A simple command: assignments, words and redirections, of which an assignment is
before the words, and the first word is no reserved one. -/
inductive DerivesCommand : List ShellToken → ShellCommand → Prop
  | nothing : DerivesCommand [] {}
  | assignment {tokens token command} : DerivesCommand tokens command → command.word = [] →
      token.kind = .word → shellIsAssignmentWord token.text →
      DerivesCommand (tokens ++ [token])
        { command with assignment := command.assignment ++ [token.text] }
  | word {tokens token command} : DerivesCommand tokens command → token.kind = .word →
      (command.word = [] → ¬shellIsAssignmentWord token.text ∧ ¬shellIsCompoundWord token.text) →
      DerivesCommand (tokens ++ [token]) { command with word := command.word ++ [token.text] }
  | redirection {tokens operator target command kind descriptor} :
      DerivesCommand tokens command → shellRedirectionOf operator.kind = some (kind, descriptor) →
      target.kind = .word →
      DerivesCommand (tokens ++ [operator, target]) { command with
        redirection := command.redirection ++ [⟨kind, descriptor, target.text⟩] }
  | numbered {tokens token operator target command kind own descriptor} :
      DerivesCommand tokens command → token.kind = .ioNumber →
      shellDescriptorOf token.text = some descriptor →
      shellRedirectionOf operator.kind = some (kind, own) → target.kind = .word →
      DerivesCommand (tokens ++ [token, operator, target]) { command with
        redirection := command.redirection ++ [⟨kind, descriptor, target.text⟩] }

/-- Commands, none of them empty, joined by `|`. -/
inductive DerivesCommands : List ShellToken → List ShellCommand → Prop
  | last {tokens command} : DerivesCommand tokens command → command ≠ {} →
      DerivesCommands tokens [command]
  | more {tokens tokens' token command commands} : DerivesCommand tokens command →
      command ≠ {} → token.kind = .pipe → DerivesCommands tokens' commands →
      DerivesCommands (tokens ++ token :: tokens') (command :: commands)

/-- The token is the `!` that negates a pipeline. -/
def IsBang (token : ShellToken) : Prop := token.kind = .word ∧ token.text = [byteOf '!']

inductive DerivesPipeline : List ShellToken → PipelineTree → Prop
  | plain {tokens commands} : DerivesCommands tokens commands →
      (∀ token ∈ tokens.head?, ¬IsBang token) → DerivesPipeline tokens ⟨false, commands⟩
  | negated {tokens token commands} : IsBang token → DerivesCommands tokens commands →
      DerivesPipeline (token :: tokens) ⟨true, commands⟩

inductive DerivesAndOr : List ShellToken → AndOr → Prop
  | last {tokens pipeline} : DerivesPipeline tokens pipeline → DerivesAndOr tokens ⟨pipeline, []⟩
  | more {tokens tokens' token pipeline second connective others} :
      DerivesPipeline tokens pipeline → token.kind = Connective.kind connective →
      DerivesAndOr tokens' ⟨second, others⟩ →
      DerivesAndOr (tokens ++ token :: tokens') ⟨pipeline, (connective, second) :: others⟩

inductive DerivesList : List ShellToken → ListTree → Prop
  | last {tokens item} : DerivesAndOr tokens item → DerivesList tokens [(item, .none)]
  | ended {tokens token item separator} : DerivesAndOr tokens item →
      separatorOf token.kind = some separator → DerivesList (tokens ++ [token]) [(item, separator)]
  | more {tokens tokens' token item separator items} : DerivesAndOr tokens item →
      separatorOf token.kind = some separator → DerivesList tokens' items →
      DerivesList (tokens ++ token :: tokens') ((item, separator) :: items)

variable {tokens rest : List ShellToken} {token : ShellToken} {command : ShellCommand}
  {commands : List ShellCommand}

theorem shellParseTarget_ok {kind : ShellRedirectionKind} {descriptor : ℕ} {result : ShellCommand}
    (h : shellParseTarget command kind descriptor rest = .ok result) :
    ∃ target, rest = target :: rest.tail ∧ target.kind = .word ∧
      result = { command with
        redirection := command.redirection ++ [⟨kind, descriptor, target.text⟩] } := by
  cases rest with
  | nil => cases h
  | cons target rest =>
      unfold shellParseTarget at h
      dsimp only at h
      by_cases hkind : target.kind ≠ .word
      · rw [if_pos hkind] at h
        cases h
      · rw [if_neg hkind] at h
        split at h
        · cases h
        · cases h
          exact ⟨target, rfl, not_not.mp hkind, rfl⟩

theorem derives_of_shellParseSimpleCommand {used used' : ℕ} {result : ShellCommand}
    {before after : List ShellToken} (hbefore : DerivesCommand before command)
    (h : shellParseSimpleCommand used command rest = .ok (result, used', after)) :
    ∃ taken, rest = taken ++ after ∧ DerivesCommand (before ++ taken) result ∧ result ≠ {} := by
  fun_induction shellParseSimpleCommand used command rest generalizing before with
  | case1 => cases h
  | case2 used command hsome =>
      cases h
      exact ⟨[], rfl, (List.append_nil before).symm ▸ hbefore, hsome⟩
  | case3 => cases h
  | case4 used command token rest hkind hassignment hroom ih =>
      obtain ⟨taken, htaken, hderives, hsome⟩ :=
        ih (hbefore.assignment hassignment.1 hkind hassignment.2) h
      refine ⟨token :: taken, congrArg (token :: ·) htaken, ?_, hsome⟩
      rwa [List.append_assoc] at hderives
  | case5 => cases h
  | case6 => cases h
  | case7 used command token rest hkind hassignment hcompound hroom ih =>
      obtain ⟨taken, htaken, hderives, hsome⟩ := ih (hbefore.word hkind fun hfirst ↦
        ⟨fun hset ↦ hassignment ⟨hfirst, hset⟩, fun hset ↦ hcompound ⟨hfirst, hset⟩⟩) h
      refine ⟨token :: taken, congrArg (token :: ·) htaken, ?_, hsome⟩
      rwa [List.append_assoc] at hderives
  | case8 => cases h
  | case9 => cases h
  | case10 => cases h
  | case11 => cases h
  | case12 used command token hword hnumber number hdescriptor operator rest kind own hoperator
      command' htarget ih =>
      obtain ⟨target, hrest, htargetKind, rfl⟩ := shellParseTarget_ok htarget
      obtain ⟨taken, htaken, hderives, hsome⟩ :=
        ih (hbefore.numbered hnumber hdescriptor hoperator htargetKind) h
      refine ⟨token :: operator :: target :: taken, ?_, ?_, hsome⟩
      · rw [hrest, htaken]
        rfl
      · rwa [List.append_assoc] at hderives
  | case13 => cases h
  | case14 used command operator rest hword hnumber kind descriptor hoperator command' htarget ih =>
      obtain ⟨target, hrest, htargetKind, rfl⟩ := shellParseTarget_ok htarget
      obtain ⟨taken, htaken, hderives, hsome⟩ :=
        ih (hbefore.redirection hoperator htargetKind) h
      refine ⟨operator :: target :: taken, ?_, ?_, hsome⟩
      · rw [hrest, htaken]
        rfl
      · rwa [List.append_assoc] at hderives
  | case15 => cases h
  | case16 => cases h
  | case17 used command token rest hword hnumber hoperator hunsupported hsome =>
      cases h
      exact ⟨[], rfl, (List.append_nil before).symm ▸ hbefore, hsome⟩

theorem shellPeek_cons (token : ShellToken) (rest : List ShellToken) :
    shellPeek (token :: rest) = token.kind := rfl

theorem eq_cons_of_shellPeek {kind : ShellTokenKind} (h : shellPeek rest = kind)
    (hne : kind ≠ .ending) : ∃ token, rest = token :: rest.tail ∧ token.kind = kind := by
  cases rest with
  | nil => exact absurd h.symm hne
  | cons token rest => exact ⟨token, rfl, h⟩

theorem derives_of_shellParsePipelineFrom {room used used' : ℕ} {result : List ShellCommand}
    {after : List ShellToken}
    (h : shellParsePipelineFrom used commands room rest = .ok (result, used', after)) :
    ∃ taken more, rest = taken ++ after ∧ result = commands ++ more ∧
      DerivesCommands taken more := by
  induction room generalizing used commands rest with
  | zero => cases h
  | succ room ih =>
      unfold shellParsePipelineFrom at h
      split at h
      · cases h
      split at h
      · cases h
      · next command used'' middle hcommand =>
          obtain ⟨taken, htaken, hderives, hsome⟩ :=
            derives_of_shellParseSimpleCommand .nothing hcommand
          split at h
          · cases h
            exact ⟨taken, [command], htaken, rfl, .last hderives hsome⟩
          · next hpipe =>
              obtain ⟨token, hmiddle, hkind⟩ := eq_cons_of_shellPeek (not_not.mp hpipe) (by decide)
              obtain ⟨taken', more, htaken', hmore, hderives'⟩ := ih h
              refine ⟨taken ++ token :: taken', command :: more, ?_, ?_,
                .more hderives hsome hkind hderives'⟩
              · rw [htaken, hmiddle, htaken', List.append_assoc]
                rfl
              · rw [hmore, List.append_assoc]
                rfl

theorem derives_of_shellParsePipeline {used used' : ℕ} {negated : Bool}
    {result : List ShellCommand} {after : List ShellToken}
    (h : shellParsePipeline used rest = .ok (negated, result, used', after)) :
    ∃ taken, rest = taken ++ after ∧ DerivesPipeline taken ⟨negated, result⟩ := by
  unfold shellParsePipeline at h
  dsimp only at h
  split at h
  · cases h
  · next commands used'' after' hcommands =>
      cases h
      obtain ⟨taken, more, htaken, rfl, hderives⟩ := derives_of_shellParsePipelineFrom hcommands
      rcases rest with _ | ⟨token, rest⟩
      · refine ⟨taken, htaken, .plain hderives fun token hmem ↦ ?_⟩
        have hnil : taken = [] := (List.append_eq_nil_iff.mp htaken.symm).1
        rw [hnil] at hmem
        cases hmem
      · by_cases hbang : IsBang token
        · have htrue : decide (token.kind = .word ∧ token.text = [byteOf '!']) = true :=
            decide_eq_true hbang
          simp only [List.head?_cons, Option.any_some, htrue, if_true, List.tail_cons] at htaken ⊢
          exact ⟨token :: taken, congrArg (token :: ·) htaken, .negated hbang hderives⟩
        · have hfalse : decide (token.kind = .word ∧ token.text = [byteOf '!']) = false :=
            decide_eq_false hbang
          simp only [List.head?_cons, Option.any_some, hfalse, Bool.false_eq_true, if_false]
            at htaken ⊢
          refine ⟨taken, htaken, .plain hderives fun first hfirst ↦ ?_⟩
          rcases taken with _ | ⟨other, taken⟩
          · cases hfirst
          · cases hfirst
            cases htaken
            exact hbang

theorem DerivesList.join {pipeline second : PipelineTree} {connective : Connective}
    {others : List (Connective × PipelineTree)} {separator : ShellSeparator} {items : ListTree}
    (hpipeline : DerivesPipeline tokens pipeline) (hkind : token.kind = connective.kind)
    (h : DerivesList rest ((⟨second, others⟩, separator) :: items)) :
    DerivesList (tokens ++ token :: rest)
      ((⟨pipeline, (connective, second) :: others⟩, separator) :: items) := by
  cases h with
  | last hitem => exact .last (.more hpipeline hkind hitem)
  | ended hitem hseparator =>
      have hended := DerivesList.ended (.more hpipeline hkind hitem) hseparator
      rwa [List.append_assoc] at hended
  | more hitem hseparator hitems =>
      have hmore := DerivesList.more (.more hpipeline hkind hitem) hseparator hitems
      rwa [List.append_assoc] at hmore

theorem DerivesList.exists_cons {items : ListTree} (h : DerivesList tokens items) :
    ∃ second others separator more, items = (⟨second, others⟩, separator) :: more := by
  cases h with
  | last hitem => exact ⟨_, _, _, _, rfl⟩
  | ended hitem hseparator => exact ⟨_, _, _, _, rfl⟩
  | more hitem hseparator hitems => exact ⟨_, _, _, _, rfl⟩

def Inner (tokens : List ShellToken) : Prop := ∀ token ∈ tokens, token.kind ≠ .ending

theorem Inner.eq_nil (h : Inner rest) (hpeek : shellPeek rest = .ending) : rest = [] := by
  cases rest with
  | nil => rfl
  | cons token rest => exact absurd hpeek (h token List.mem_cons_self)

theorem derives_of_shellParseListFrom {room used : ℕ} {condition : ShellCondition}
    {pipelines result : List ShellPipeline} (hinner : Inner rest)
    (h : shellParseListFrom used condition pipelines room rest = .ok result) :
    ∃ items, result = pipelines ++ flattenList condition items ∧ DerivesList rest items := by
  induction room generalizing used condition pipelines rest with
  | zero => cases h
  | succ room ih =>
      unfold shellParseListFrom at h
      split at h
      · cases h
      next negated command used' after hpipeline =>
        obtain ⟨taken, htaken, hderives⟩ := derives_of_shellParsePipeline hpipeline
        have hafterInner : Inner after := fun token hmem ↦
          hinner token (htaken ▸ List.mem_append_right taken hmem)
        have htailInner : Inner after.tail := fun token hmem ↦
          hafterInner token (List.mem_of_mem_tail hmem)
        -- a connective goes on with the and-or
        have hjoin : ∀ connective : Connective, shellPeek after = connective.kind →
            shellParseListFrom used' connective.condition
              (pipelines ++ [⟨command, negated, condition, .none⟩]) room after.tail = .ok result →
            ∃ items, result = pipelines ++ flattenList condition items ∧
              DerivesList rest items := by
          intro connective hpeek hrest
          obtain ⟨token, hafter, hkind⟩ := eq_cons_of_shellPeek hpeek
            (by cases connective <;> decide)
          obtain ⟨items, hresult, hitems⟩ := ih htailInner hrest
          obtain ⟨second, others, separator, more, rfl⟩ := hitems.exists_cons
          refine ⟨(⟨⟨negated, command⟩, (connective, second) :: others⟩, separator) :: more,
            ?_, ?_⟩
          · rw [hresult, List.append_assoc]
            rfl
          · rw [htaken, hafter]
            exact hitems.join hderives hkind
        -- a separator ends it, and may end the list
        have hseparate : ∀ kind separator, separatorOf kind = some separator →
            shellPeek after = kind → kind ≠ .ending →
            (if shellPeek after.tail = .ending then
                .ok (pipelines ++ [⟨command, negated, condition, separator⟩])
              else shellParseListFrom used' .none
                (pipelines ++ [⟨command, negated, condition, separator⟩]) room after.tail) =
              .ok result →
            ∃ items, result = pipelines ++ flattenList condition items ∧
              DerivesList rest items := by
          intro kind separator hseparator hpeek hne hrest
          obtain ⟨token, hafter, hkind⟩ := eq_cons_of_shellPeek hpeek hne
          split at hrest
          · next hended =>
              cases hrest
              have hnil := htailInner.eq_nil hended
              refine ⟨[(⟨⟨negated, command⟩, []⟩, separator)], rfl, ?_⟩
              rw [htaken, hafter, hnil]
              exact .ended (.last hderives) (hkind ▸ hseparator)
          · obtain ⟨items, hresult, hitems⟩ := ih htailInner hrest
            refine ⟨(⟨⟨negated, command⟩, []⟩, separator) :: items, ?_, ?_⟩
            · rw [hresult, List.append_assoc]
              rfl
            · rw [htaken, hafter]
              exact .more (.last hderives) (hkind ▸ hseparator) hitems
        dsimp only at h
        split at h
        · next hpeek =>
            cases h
            refine ⟨[(⟨⟨negated, command⟩, []⟩, .none)], rfl, ?_⟩
            rw [htaken, hafterInner.eq_nil hpeek, List.append_nil]
            exact .last (.last hderives)
        · next hpeek =>
            split at h
            · cases h
            · exact hjoin .andIf hpeek h
        · next hpeek =>
            split at h
            · cases h
            · exact hjoin .orIf hpeek h
        · next hpeek => exact hseparate .semicolon .sequence rfl hpeek (by decide) h
        · next hpeek => exact hseparate .and .background rfl hpeek (by decide) h
        · cases h

end OxysOS.Shell
