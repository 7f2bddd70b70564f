import OxysOS.Shell.RoundTrip

/-!
# Running a list

`ShellRunList` of `userland/sh/main.c`.  Each pipeline of the flat list is run or passed
over by the last status alone, and put in the background by the separator after it.  In
the tree reading a separator ends an and-or, and the two agree but where `&` ends an
and-or of several pipelines or negates one.
-/

namespace OxysOS.Shell

open OxysOS.Library

/-- What comes of a pipeline: the status it ends with where it is waited for, whether it
is the `exit` of the shell itself, and the status of putting it in the background. -/
structure PipelineOutcome where
  status : ℕ
  exits : Bool
  started : ℕ

inductive ShellRun
  | waited (index : ℕ)
  | started (indices : List ℕ)
  deriving DecidableEq

/-- The list as far as it has been run: what was run, `ShellLastStatus`,
`exit_requested` and the place of the next pipeline. -/
structure ListRun where
  runs : List ShellRun
  status : ℕ
  exited : Bool
  index : ℕ
  deriving DecidableEq

/-- The status that `!` makes of a status. -/
def negate (negated : Bool) (status : ℕ) : ℕ :=
  if negated then if status = 0 then 1 else 0 else status

def ListRun.skip (run : ListRun) : ListRun := { run with index := run.index + 1 }

def ShellCondition.refuses (condition : ShellCondition) (status : ℕ) : Bool :=
  condition = .andIf ∧ status ≠ 0 ∨ condition = .orIf ∧ status = 0

/-- The next pipeline is run and waited for.  An `exit` is the shell's own only where it
is the whole of its pipeline, and then nothing is negated. -/
def ListRun.wait (outcome : ℕ → PipelineOutcome) (run : ListRun) (negated : Bool)
    (command : List ShellCommand) : ListRun :=
  let exited := (outcome run.index).exits && decide (command.length ≤ 1)
  { runs := run.runs ++ [.waited run.index]
    status := negate (negated && !exited) (outcome run.index).status
    exited
    index := run.index + 1 }

/-- One turn of the loop of `ShellRunList`. -/
def shellRunListStep (outcome : ℕ → PipelineOutcome) (run : ListRun) (pipeline : ShellPipeline) :
    ListRun :=
  if run.exited then run
  else if pipeline.condition.refuses run.status then run.skip
  else if pipeline.separator = .background then
    { run with
      runs := run.runs ++ [.started [run.index]]
      status := negate pipeline.negated (outcome run.index).started
      index := run.index + 1 }
  else run.wait outcome pipeline.negated pipeline.command

def ListRun.begun (last : ℕ) : ListRun := ⟨[], last, false, 0⟩

def shellRunList (outcome : ℕ → PipelineOutcome) (last : ℕ) (list : List ShellPipeline) : ListRun :=
  list.foldl (shellRunListStep outcome) (.begun last)

def runJoined (outcome : ℕ → PipelineOutcome) (run : ListRun)
    (joined : Connective × PipelineTree) : ListRun :=
  if run.exited then run
  else if joined.1.condition.refuses run.status then run.skip
  else run.wait outcome joined.2.negated joined.2.command

def runAndOr (outcome : ℕ → PipelineOutcome) (run : ListRun) (item : AndOr × ShellSeparator) :
    ListRun :=
  if run.exited then run
  else if item.2 = .background then
    { run with
      runs := run.runs ++ [.started (List.range' run.index (item.1.rest.length + 1))]
      status := (outcome run.index).started
      index := run.index + (item.1.rest.length + 1) }
  else item.1.rest.foldl (runJoined outcome)
    (run.wait outcome item.1.first.negated item.1.first.command)

def runTree (outcome : ℕ → PipelineOutcome) (run : ListRun) (tree : ListTree) : ListRun :=
  tree.foldl (runAndOr outcome) run

def connectiveOf : ShellCondition → Connective
  | .orIf => .orIf
  | _ => .andIf

def treeOf : List ShellPipeline → ListTree
  | [] => []
  | pipeline :: rest =>
      match pipeline.separator, rest.head?, treeOf rest with
      | .none, some next, (item, separator) :: items =>
          (⟨⟨pipeline.negated, pipeline.command⟩,
            (connectiveOf next.condition, item.first) :: item.rest⟩, separator) :: items
      | separator, _, items => (⟨⟨pipeline.negated, pipeline.command⟩, []⟩, separator) :: items

/-- Every and-or that is put in the background is a single pipeline, and one that
nothing follows is not negated. -/
def BackgroundsAlone (outcome : ℕ → PipelineOutcome) (run : ListRun) (tree : ListTree) : Prop :=
  ∀ before item after, tree = before ++ (item, .background) :: after →
    (runTree outcome run before).exited = false →
      item.rest = [] ∧ (after = [] → item.first.negated = false)

def ListRun.result (run : ListRun) : List ShellRun × ℕ × Bool := (run.runs, run.status, run.exited)

variable {outcome : ℕ → PipelineOutcome} {run run' : ListRun} {item : AndOr}
  {separator : ShellSeparator} {tree : ListTree}

theorem refuses_none (status : ℕ) : ShellCondition.refuses .none status = false := rfl

theorem foldl_flattenAndOr (hseparator : separator ≠ .background) (run : ListRun)
    (connective : Connective) (second : PipelineTree) (rest : List (Connective × PipelineTree)) :
    (flattenAndOr connective.condition separator second rest).foldl (shellRunListStep outcome) run =
      rest.foldl (runJoined outcome) (runJoined outcome run (connective, second)) := by
  induction rest generalizing run connective second with
  | nil =>
      change shellRunListStep outcome run _ = runJoined outcome run _
      unfold shellRunListStep runJoined
      rw [if_neg hseparator]
  | cons joined rest ih =>
      obtain ⟨next, third⟩ := joined
      have hfirst : shellRunListStep outcome run
          ⟨second.command, second.negated, connective.condition, .none⟩ =
            runJoined outcome run (connective, second) := by
        unfold shellRunListStep runJoined
        rw [if_neg (by decide : ¬ShellSeparator.none = .background)]
      rw [flattenAndOr, List.foldl_cons, hfirst, ih, List.foldl_cons]

theorem foldl_flattenAndOr_first (hseparator : separator ≠ .background) (run : ListRun) :
    (flattenAndOr .none separator item.first item.rest).foldl (shellRunListStep outcome) run =
      runAndOr outcome run (item, separator) := by
  obtain ⟨first, rest⟩ := item
  by_cases hexited : run.exited
  · have hstop : ∀ list : List ShellPipeline,
        list.foldl (shellRunListStep outcome) run = run := by
      intro list
      induction list with
      | nil => rfl
      | cons pipeline list ih =>
          have hstep : shellRunListStep outcome run pipeline = run := if_pos hexited
          rw [List.foldl_cons, hstep, ih]
    rw [hstop]
    exact (if_pos hexited).symm
  · have hfirst : ∀ separator : ShellSeparator, separator ≠ .background →
        shellRunListStep outcome run ⟨first.command, first.negated, .none, separator⟩ =
          run.wait outcome first.negated first.command := by
      intro separator hne
      unfold shellRunListStep
      rw [if_neg hexited, refuses_none, if_neg Bool.false_ne_true, if_neg hne]
    unfold runAndOr
    rw [if_neg hexited, if_neg hseparator]
    cases rest with
    | nil => exact hfirst separator hseparator
    | cons joined rest =>
        obtain ⟨connective, second⟩ := joined
        rw [flattenAndOr, List.foldl_cons, hfirst .none (by decide),
          foldl_flattenAndOr hseparator, List.foldl_cons]

theorem runs_shellRunListStep (outcome : ℕ → PipelineOutcome) (run : ListRun)
    (pipeline : ShellPipeline) : run.runs <+: (shellRunListStep outcome run pipeline).runs := by
  unfold shellRunListStep
  split_ifs
  · exact List.prefix_rfl
  · exact List.prefix_rfl
  · exact List.prefix_append _ _
  · exact List.prefix_append _ _

theorem runs_foldl {α : Type} {step : ListRun → α → ListRun}
    (h : ∀ run a, run.runs <+: (step run a).runs) (run : ListRun) (list : List α) :
    run.runs <+: (list.foldl step run).runs := by
  induction list generalizing run with
  | nil => exact List.prefix_rfl
  | cons a list ih => exact (h run a).trans (ih (step run a))

theorem runs_runAndOr (outcome : ℕ → PipelineOutcome) (run : ListRun)
    (item : AndOr × ShellSeparator) : run.runs <+: (runAndOr outcome run item).runs := by
  have hjoined : ∀ (run : ListRun) joined, run.runs <+: (runJoined outcome run joined).runs := by
    intro run joined
    unfold runJoined
    split_ifs
    · exact List.prefix_rfl
    · exact List.prefix_rfl
    · exact List.prefix_append _ _
  unfold runAndOr
  split_ifs
  · exact List.prefix_rfl
  · exact List.prefix_append _ _
  · have hfirst : run.runs <+:
        (run.wait outcome item.1.first.negated item.1.first.command).runs := List.prefix_append _ _
    exact hfirst.trans (runs_foldl hjoined _ _)

theorem ne_of_prefix {front : List ShellRun} {a b : ShellRun} {first second : List ShellRun}
    (hfirst : front ++ [a] <+: first) (hsecond : front ++ [b] <+: second) (hne : a ≠ b) :
    first ≠ second := by
  rintro rfl
  obtain ⟨rest, rfl⟩ := hfirst
  obtain ⟨rest', hrest⟩ := hsecond
  rw [List.append_assoc, List.append_assoc] at hrest
  exact hne (List.cons.inj (List.append_cancel_left hrest)).1.symm

/-- Two runs that differ by the last status at most, and then are to go on. -/
structure ListRun.Agrees (run run' : ListRun) : Prop where
  runs : run.runs = run'.runs
  exited : run.exited = run'.exited
  index : run.index = run'.index
  status : run.exited → run.status = run'.status

theorem ListRun.Agrees.refl (run : ListRun) : run.Agrees run := ⟨rfl, rfl, rfl, fun _ ↦ rfl⟩

theorem runAndOr_congr (h : run.Agrees run') (item : AndOr × ShellSeparator)
    (hexited : run'.exited = false) : runAndOr outcome run item = runAndOr outcome run' item := by
  obtain ⟨runs, status, exited, index⟩ := run
  obtain ⟨runs', status', exited', index'⟩ := run'
  obtain ⟨rfl, rfl, rfl, -⟩ := h
  dsimp only at hexited
  unfold runAndOr ListRun.wait
  rw [hexited]
  rfl

theorem runTree_exited (hexited : run.exited) (tree : ListTree) : runTree outcome run tree = run := by
  induction tree with
  | nil => rfl
  | cons item tree ih =>
      have hstep : runAndOr outcome run item = run := if_pos hexited
      change runTree outcome (runAndOr outcome run item) tree = run
      rw [hstep, ih]

theorem foldl_exited (hexited : run.exited) (list : List ShellPipeline) :
    list.foldl (shellRunListStep outcome) run = run := by
  induction list with
  | nil => rfl
  | cons pipeline list ih =>
      have hstep : shellRunListStep outcome run pipeline = run := if_pos hexited
      rw [List.foldl_cons, hstep, ih]

theorem result_ne_of_joined (hexited : run.exited = false) (h : run.Agrees run')
    (hsome : item.rest ≠ []) (tree : ListTree) :
    ((flattenList .none ((item, .background) :: tree)).foldl
        (shellRunListStep outcome) run).result ≠
      (runTree outcome run' ((item, .background) :: tree)).result := by
  obtain ⟨first, rest⟩ := item
  obtain ⟨⟨connective, second⟩, rest, rfl⟩ := List.exists_cons_of_ne_nil hsome
  have hwait : (shellRunListStep outcome run
      ⟨first.command, first.negated, .none, .none⟩).runs = run.runs ++ [.waited run.index] := by
    unfold shellRunListStep
    rw [hexited, refuses_none, if_neg Bool.false_ne_true, if_neg Bool.false_ne_true]
    rfl
  have hflat : run.runs ++ [.waited run.index] <+: ((flattenList .none
      ((⟨first, (connective, second) :: rest⟩, .background) :: tree)).foldl
        (shellRunListStep outcome) run).runs := by
    have hrest := runs_foldl (runs_shellRunListStep outcome)
      (shellRunListStep outcome run ⟨first.command, first.negated, .none, .none⟩)
      (flattenAndOr connective.condition .background second rest ++ flattenList .none tree)
    rwa [hwait] at hrest
  have htree : run.runs ++ [.started (List.range' run.index (rest.length + 2))] <+: (runTree outcome
      run' ((⟨first, (connective, second) :: rest⟩, .background) :: tree)).runs := by
    have hstart : (runAndOr outcome run'
        (⟨first, (connective, second) :: rest⟩, .background)).runs =
          run.runs ++ [.started (List.range' run.index (rest.length + 2))] := by
      unfold runAndOr
      rw [← h.exited, hexited, h.runs, h.index]
      rfl
    have hrest := runs_foldl (runs_runAndOr outcome) (runAndOr outcome run'
      (⟨first, (connective, second) :: rest⟩, .background)) tree
    rwa [hstart] at hrest
  intro hresult
  exact ne_of_prefix hflat htree (fun hset ↦ by cases hset) (congrArg Prod.fst hresult)

theorem negate_eq_self {negated : Bool} {status : ℕ} :
    negate negated status = status ↔ negated = false := by
  unfold negate
  cases negated with
  | false => exact iff_of_true rfl rfl
  | true =>
      refine iff_of_false ?_ Bool.noConfusion
      rw [if_pos rfl]
      split_ifs with hzero
      · omega
      · omega

theorem ListRun.Agrees.result_eq_iff (h : run.Agrees run') :
    run.result = run'.result ↔ run.status = run'.status :=
  ⟨fun hresult ↦ congrArg (·.2.1) hresult, fun hstatus ↦
    congrArg₂ Prod.mk h.runs (congrArg₂ Prod.mk hstatus h.exited)⟩

theorem started_alone (outcome : ℕ → PipelineOutcome) (hexited : run.exited = false)
    (h : run.Agrees run') (first : PipelineTree) :
    let flat := shellRunListStep outcome run ⟨first.command, first.negated, .none, .background⟩
    let whole := runAndOr outcome run' (⟨first, []⟩, .background)
    flat.Agrees whole ∧ (flat.status = whole.status ↔ first.negated = false) := by
  have hflat : shellRunListStep outcome run
      ⟨first.command, first.negated, .none, .background⟩ =
      { run with
        runs := run.runs ++ [.started [run.index]]
        status := negate first.negated (outcome run.index).started
        index := run.index + 1 } := by
    unfold shellRunListStep
    rw [hexited, refuses_none, if_neg Bool.false_ne_true, if_neg Bool.false_ne_true]
    rfl
  have hwhole : runAndOr outcome run' (⟨first, []⟩, .background) =
      { run' with
        runs := run'.runs ++ [.started [run'.index]]
        status := (outcome run'.index).started
        index := run'.index + 1 } := by
    unfold runAndOr
    rw [← h.exited, hexited, if_neg Bool.false_ne_true]
    rfl
  dsimp only
  rw [hflat, hwhole]
  refine ⟨⟨?_, h.exited, congrArg (· + 1) h.index, fun hset ↦ ?_⟩, ?_⟩
  · dsimp only
    rw [h.runs, h.index]
  · exact absurd (hexited.symm.trans hset) Bool.false_ne_true
  · dsimp only
    rw [h.index]
    exact negate_eq_self

theorem backgroundsAlone_nil : BackgroundsAlone outcome run [] := fun _ _ _ hsplit ↦
  absurd hsplit.symm (List.append_ne_nil_of_right_ne_nil _ (List.cons_ne_nil _ _))

theorem backgroundsAlone_cons (hexited : run.exited = false) :
    BackgroundsAlone outcome run ((item, separator) :: tree) ↔
      (separator = .background → item.rest = [] ∧ (tree = [] → item.first.negated = false)) ∧
        BackgroundsAlone outcome (runAndOr outcome run (item, separator)) tree := by
  constructor
  · intro h
    refine ⟨?_, fun before other after hsplit hbefore ↦ ?_⟩
    · rintro rfl
      exact h [] item tree rfl hexited
    · exact h ((item, separator) :: before) other after (congrArg (_ :: ·) hsplit) hbefore
  · rintro ⟨hfirst, hrest⟩ before other after hsplit hbefore
    rcases before with _ | ⟨head, before⟩
    · cases hsplit
      exact hfirst rfl
    · cases hsplit
      exact hrest before other after rfl hbefore

theorem foldl_flattenList_iff (h : run.Agrees run') (hlast : tree = [] → run.status = run'.status) :
    ((flattenList .none tree).foldl (shellRunListStep outcome) run).result =
      (runTree outcome run' tree).result ↔ BackgroundsAlone outcome run' tree := by
  induction tree generalizing run run' with
  | nil => exact iff_of_true (h.result_eq_iff.mpr (hlast rfl)) backgroundsAlone_nil
  | cons head tree ih =>
      obtain ⟨item, separator⟩ := head
      cases hexited : run'.exited with
      | true =>
          have hrun : run.exited = true := h.exited.trans hexited
          rw [foldl_exited hrun, runTree_exited hexited]
          refine iff_of_true (h.result_eq_iff.mpr (h.status hrun)) fun before other after _ hset ↦ ?_
          rw [runTree_exited hexited, hexited] at hset
          cases hset
      | false =>
          have hrun : run.exited = false := h.exited.trans hexited
          rw [backgroundsAlone_cons hexited]
          by_cases hseparator : separator = .background
          · subst hseparator
            by_cases halone : item.rest = []
            · obtain ⟨first, rest⟩ := item
              cases halone
              obtain ⟨hagrees, hstatus⟩ := started_alone outcome hrun h first
              rcases tree with _ | ⟨next, tree⟩
              · refine hagrees.result_eq_iff.trans (hstatus.trans ?_)
                exact ⟨fun hset ↦ ⟨fun _ ↦ ⟨rfl, fun _ ↦ hset⟩, backgroundsAlone_nil⟩,
                  fun hset ↦ (hset.1 rfl).2 rfl⟩
              · refine (ih hagrees fun hnil ↦ absurd hnil (List.cons_ne_nil _ _)).trans ?_
                exact ⟨fun hrest ↦ ⟨fun _ ↦ ⟨rfl, fun hnil ↦ absurd hnil (List.cons_ne_nil _ _)⟩,
                  hrest⟩, And.right⟩
            · exact iff_of_false (result_ne_of_joined hrun h halone tree) fun hset ↦
                halone (hset.1 rfl).1
          · have hstep := ih (ListRun.Agrees.refl (runAndOr outcome run' (item, separator)))
              fun _ ↦ rfl
            rw [flattenList, List.foldl_append, foldl_flattenAndOr_first hseparator,
              runAndOr_congr h _ hexited]
            exact hstep.trans ⟨fun hrest ↦ ⟨fun hset ↦ absurd hset hseparator, hrest⟩, And.right⟩

theorem connectiveOf_condition (connective : Connective) :
    connectiveOf connective.condition = connective := by
  cases connective <;> rfl

theorem treeOf_flattenAndOr {condition : ShellCondition} {first : PipelineTree}
    {rest : List (Connective × PipelineTree)} {more : List ShellPipeline}
    (hends : separator ≠ .none ∨ more = []) :
    treeOf (flattenAndOr condition separator first rest ++ more) =
      (⟨first, rest⟩, separator) :: treeOf more := by
  induction rest generalizing condition first with
  | nil =>
      rcases hends with hends | rfl
      · cases separator with
        | none => exact absurd rfl hends
        | sequence | background => rfl
      · cases separator <;> rfl
  | cons joined rest ih =>
      obtain ⟨connective, second⟩ := joined
      have hhead : (flattenAndOr connective.condition separator second rest ++ more).head?.map
          ShellPipeline.condition = some connective.condition := by
        cases rest <;> rfl
      obtain ⟨next, hnext, hcondition⟩ := Option.map_eq_some_iff.mp hhead
      rw [flattenAndOr, List.cons_append, treeOf, ih, hnext]
      dsimp only
      rw [hcondition, connectiveOf_condition]

theorem treeOf_flattenList {tokens : List ShellToken} (h : DerivesList tokens tree) :
    treeOf (flattenList .none tree) = tree := by
  induction h with
  | last => exact treeOf_flattenAndOr (Or.inr rfl)
  | ended => exact treeOf_flattenAndOr (Or.inr rfl)
  | @more _ _ token item separator items _ hseparator _ ih =>
      have hends : separator ≠ .none := by
        rintro rfl
        cases hkind : token.kind <;> rw [hkind] at hseparator <;> cases hseparator
      rw [flattenList, treeOf_flattenAndOr (Or.inl hends), ih]

/-- A list that is accepted is run as its tree is exactly where every and-or that is
reached before an exit and put in the background is a pipeline alone, and not negated
where nothing follows it. -/
theorem shellRunList_iff {line : List UInt8} {tokens : ShellTokens} {list : List ShellPipeline}
    (htokens : shellTokenise line = .ok tokens) (hparse : shellParse tokens = .ok list)
    (outcome : ℕ → PipelineOutcome) (last : ℕ) :
    DerivesList tokens.token.dropLast (treeOf list) ∧ flattenList .none (treeOf list) = list ∧
      ((shellRunList outcome last list).result =
          (runTree outcome (.begun last) (treeOf list)).result ↔
        BackgroundsAlone outcome (.begun last) (treeOf list)) := by
  obtain ⟨tree, -, hderives, rfl⟩ := derives_of_shellParse htokens hparse
  rw [treeOf_flattenList hderives]
  exact ⟨hderives, rfl, foldl_flattenList_iff (ListRun.Agrees.refl _) fun _ ↦ rfl⟩

def letterPipeline (letter : Char) (condition : ShellCondition) (separator : ShellSeparator) :
    ShellPipeline :=
  ⟨[{ word := [[byteOf letter]] }], false, condition, separator⟩

theorem letterPipeline_printable (letter : Char) (condition : ShellCondition)
    (separator : ShellSeparator) : (letterPipeline letter condition separator).Printable := by
  refine ⟨List.cons_ne_nil _ _, Nat.succ_le_succ (Nat.zero_le _), fun command hmem ↦ ?_⟩
  rw [List.mem_singleton.mp hmem]
  refine ⟨fun hset ↦ ?_, ⟨Nat.zero_le _, Nat.zero_le _⟩, fun _ hnone ↦ absurd hnone
    List.not_mem_nil, fun _ hnone ↦ absurd hnone List.not_mem_nil⟩
  exact List.cons_ne_nil _ _ (congrArg ShellCommand.word hset)

/-- `a ; b &` is run as its tree. -/
theorem shellRunList_iff_alone : ∃ tokens list,
    shellTokenise ("a ; b & ".toList.map byteOf) = .ok tokens ∧ shellParse tokens = .ok list ∧
      ((shellRunList (fun _ ↦ ⟨0, false, 0⟩) 0 list).result =
          (runTree (fun _ ↦ ⟨0, false, 0⟩) (.begun 0) (treeOf list)).result ↔
        BackgroundsAlone (fun _ ↦ ⟨0, false, 0⟩) (.begun 0) (treeOf list)) := by
  have hprintable : ShellPrintable [letterPipeline 'a' .none .sequence,
      letterPipeline 'b' .none .background] := by
    refine ⟨by decide, by decide, by decide, by decide, fun pipeline hmem ↦ ?_, by decide,
      by decide⟩
    rcases List.mem_cons.mp hmem with rfl | hmem
    · exact letterPipeline_printable _ _ _
    · rw [List.mem_singleton.mp hmem]
      exact letterPipeline_printable _ _ _
  obtain ⟨tokens, htokens, hparse⟩ := shellParse_of_printable hprintable
  have hline : shellPrint [letterPipeline 'a' .none .sequence,
      letterPipeline 'b' .none .background] = "a ; b & ".toList.map byteOf := by decide
  rw [hline] at htokens
  exact ⟨tokens, _, htokens, hparse, (shellRunList_iff htokens hparse _ 0).2.2⟩

/-- Of `a && b &` the first command is waited for. -/
theorem shellRunList_not_tree : ∃ tokens list,
    shellTokenise ("a && b & ".toList.map byteOf) = .ok tokens ∧ shellParse tokens = .ok list ∧
      (shellRunList (fun _ ↦ ⟨0, false, 0⟩) 0 list).result ≠
        (runTree (fun _ ↦ ⟨0, false, 0⟩) (.begun 0) (treeOf list)).result := by
  have hprintable : ShellPrintable [letterPipeline 'a' .none .none,
      letterPipeline 'b' .andIf .background] := by
    refine ⟨by decide, by decide, by decide, by decide, fun pipeline hmem ↦ ?_, by decide,
      by decide⟩
    rcases List.mem_cons.mp hmem with rfl | hmem
    · exact letterPipeline_printable _ _ _
    · rw [List.mem_singleton.mp hmem]
      exact letterPipeline_printable _ _ _
  obtain ⟨tokens, htokens, hparse⟩ := shellParse_of_printable hprintable
  have hline : shellPrint [letterPipeline 'a' .none .none,
      letterPipeline 'b' .andIf .background] = "a && b & ".toList.map byteOf := by decide
  rw [hline] at htokens
  exact ⟨tokens, _, htokens, hparse, by decide⟩

end OxysOS.Shell
