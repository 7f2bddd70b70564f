import OxysOS.Shell.Environment
import OxysOS.Shell.Parts

/-!
# The environment that a program is given

A program is given the exported variables as they are when its words have been expanded.  The
assignment words before it are parsed and left.
-/

namespace OxysOS.Shell

open OxysOS.Library

variable {lookup : ShellLookup} {calls capacity status : ℕ} {word name name' value value' : List UInt8}
  {table table' : ShellVariables} {answers : ShellAnswers} {program : ShellProgram}
  {call : ShellExecve} {argv envp : List (List UInt8)}

inductive ShellOperation
  | set (name value : List UInt8)
  | export (name : List UInt8)
  | unset (name : List UInt8)
  deriving DecidableEq

def ShellOperation.perform (table : ShellVariables) : ShellOperation → Option ShellVariables
  | .set name value => shellVariableSet table name value
  | .export name => shellVariableExport table name
  | .unset name => shellVariableUnset table name

def ShellOperation.means (scope : ShellScope) : ShellOperation → ShellScope
  | .set name value => scope.set name value
  | .export name => scope.export name
  | .unset name => scope.unset name

def shellOperate (table : ShellVariables) (op : ShellOperation) : ShellVariables :=
  (op.perform table).getD table

def shellOperated (ops : List ShellOperation) : ShellVariables :=
  ops.foldl shellOperate shellVariablesInitialise

def grantedOperations (table : ShellVariables) : List ShellOperation → List ShellOperation
  | [] => []
  | op :: ops =>
      match op.perform table with
      | none => grantedOperations table ops
      | some table => op :: grantedOperations table ops

def latest (ops : List ShellOperation) : ShellScope :=
  (grantedOperations shellVariablesInitialise ops).foldl ShellOperation.means fun _ ↦ none

theorem kept_perform {op : ShellOperation} (hkept : Kept table) (h : op.perform table = some table') :
    Kept table' := by
  cases op with
  | set name value => exact kept_set hkept h
  | «export» name => exact kept_export hkept h
  | unset name => exact kept_unset hkept h

theorem scopeOf_perform {op : ShellOperation} (hkept : Kept table)
    (h : op.perform table = some table') : scopeOf table' = op.means (scopeOf table) := by
  cases op with
  | set name value => exact scopeOf_set h
  | «export» name => exact scopeOf_export h
  | unset name => exact scopeOf_unset hkept h

theorem operated_from (hkept : Kept table) (ops : List ShellOperation) :
    Kept (ops.foldl shellOperate table) ∧
      scopeOf (ops.foldl shellOperate table) =
        (grantedOperations table ops).foldl ShellOperation.means (scopeOf table) := by
  induction ops generalizing table with
  | nil => exact ⟨hkept, rfl⟩
  | cons op ops ih =>
      rw [List.foldl_cons, grantedOperations, shellOperate]
      cases hperform : op.perform table with
      | none => exact ih hkept
      | some table' =>
          dsimp only [Option.getD_some]
          rw [List.foldl_cons, ← scopeOf_perform hkept hperform]
          exact ih (kept_perform hkept hperform)

theorem kept_operated (ops : List ShellOperation) : Kept (shellOperated ops) :=
  (operated_from kept_initialise ops).1

theorem scopeOf_operated (ops : List ShellOperation) : scopeOf (shellOperated ops) = latest ops := by
  rw [shellOperated, (operated_from kept_initialise ops).2, scopeOf_initialise]
  rfl

theorem Sets.operated {ops : List ShellOperation} (h : Sets (shellOperated ops) table) :
    ∃ sets : List ShellOperation, (∀ op ∈ sets, ∃ name value, op = .set name value) ∧
      table = shellOperated (ops ++ sets) := by
  induction h with
  | refl => exact ⟨[], (fun _ hmem ↦ nomatch hmem), by rw [List.append_nil]⟩
  | tail _ hset ih =>
      obtain ⟨name, value, hset⟩ := hset
      obtain ⟨sets, hsets, rfl⟩ := ih
      refine ⟨sets ++ [.set name value], fun op hmem ↦ ?_, ?_⟩
      · rcases List.mem_append.mp hmem with hmem | hmem
        · exact hsets op hmem
        · exact ⟨name, value, List.mem_singleton.mp hmem⟩
      · rw [shellOperated, ← List.append_assoc, List.foldl_append]
        change _ = shellOperate (shellOperated (ops ++ sets)) (.set name value)
        rw [shellOperate, ShellOperation.perform, hset, Option.getD_some]

theorem sets_parts {put : List UInt8 → List UInt8 → Except ShellRefusal (List UInt8)}
    {parts : List ShellPart} {out : List UInt8} {result : Expanded (List UInt8)}
    (hparts : ∀ part ∈ parts, ∀ table value, partValue lookup calls part table = some value →
      Sets table value.2)
    (h : expandParts lookup calls put out parts table = some result) : Sets table result.2 := by
  induction parts generalizing out table with
  | nil =>
      cases h
      exact .refl
  | cons part parts ih =>
      rw [expandParts] at h
      cases hvalue : partValue lookup calls part table with
      | none =>
          rw [hvalue] at h
          cases h
      | some value =>
          rw [hvalue] at h
          have hsets := hparts part List.mem_cons_self table value hvalue
          obtain ⟨expanded, table'⟩ := value
          cases expanded with
          | error refusal =>
              cases h
              exact hsets
          | ok string =>
              dsimp only [Option.bind_eq_bind, Option.bind_some] at h
              split at h
              · cases h
                exact hsets
              · exact hsets.trans (ih (fun p hp ↦ hparts p (List.mem_cons_of_mem _ hp)) h)

theorem sets_word {result : Expanded (List UInt8)}
    (hcalls : min word.length (shellArithText + 1) + 1 + shellArithCalls ≤ calls)
    (h : shellExpandWord lookup calls word capacity table = some result) : Sets table result.2 := by
  induction calls generalizing word capacity table result with
  | zero => exact absurd hcalls (by omega)
  | succ calls ih =>
      by_cases hcapacity : capacity = 0
      · rw [shellExpandWord, if_pos hcapacity] at h
        cases h
        exact .refl
      rw [shellExpandWord_parts lookup calls word hcapacity] at h
      refine sets_parts (fun part hpart table' value hvalue ↦ ?_) h
      cases part with
      | character | parameter | refused =>
          cases hvalue
          exact .refl
      | arithmetic inner =>
          obtain ⟨character, hcharacter⟩ | ⟨rest, hrest, hlt⟩ := mem_shellParts hpart
          · cases hcharacter
          obtain ⟨hlong, hshort⟩ := dollarPart_arithmetic hrest.symm
          have hinner : min inner.length (shellArithText + 1) + 1 + shellArithCalls ≤ calls := by
            have hless := hshort.trans hlt
            rw [min_eq_left (by omega)]
            omega
          obtain ⟨expanded, hexpanded, hfits⟩ :=
            returns_word lookup inner (shellArithText + 1) table' hinner
          have hsets := ih hinner hexpanded
          rw [partValue, hexpanded] at hvalue
          obtain ⟨expanded, table''⟩ := expanded
          cases expanded with
          | error refusal =>
              cases hvalue
              exact hsets
          | ok expression =>
              have hlength := hfits expression rfl
              have hneeded : 3 * expression.length + 3 ≤ calls := by
                unfold shellArithCalls at hinner
                omega
              obtain ⟨evaluated, hevaluated, hmore⟩ := returns_arithmetic lookup hneeded table''
              dsimp only [Option.bind_eq_bind, Option.bind_some] at hvalue
              rw [hevaluated] at hvalue
              obtain ⟨evaluated, table'''⟩ := evaluated
              cases evaluated with
              | error fault =>
                  cases hvalue
                  exact hsets.trans hmore
              | ok number =>
                  cases hvalue
                  exact hsets.trans hmore

theorem sets_expand {result : Expanded (List UInt8)}
    (h : shellExpandWord lookup shellExpandCalls word capacity table = some result) :
    Sets table result.2 :=
  sets_word ((Nat.add_le_add_right (Nat.add_le_add_right (Nat.min_le_right _ _) _) _).trans (by decide)) h

theorem sets_words {used : ℕ} {words : List (List UInt8)}
    {result : Option (List (List UInt8)) × ShellVariables}
    (h : shellExpandWords status used words table = some result) : Sets table result.2 := by
  induction words generalizing used table result with
  | nil =>
      cases h
      exact .refl
  | cons word words ih =>
      rw [shellExpandWords] at h
      split at h
      · cases h
        exact .refl
      obtain ⟨⟨expanded, table'⟩, hexpanded, h⟩ := Option.bind_eq_some_iff.mp h
      have hsets := sets_expand hexpanded
      cases expanded with
      | error refusal =>
          cases h
          exact hsets
      | ok argument =>
          obtain ⟨⟨arguments, table''⟩, harguments, h⟩ := Option.bind_eq_some_iff.mp h
          have hmore := ih harguments
          cases h
          exact hsets.trans hmore

theorem filterMap_range_getElem? {α β : Type} (l : List α) (g : α → Option β) :
    ((List.range l.length).filterMap fun index ↦ l[index]?.bind g) = l.filterMap g := by
  induction l with
  | nil => rfl
  | cons a l ih =>
      rw [List.length_cons, List.range_succ_eq_map, List.filterMap_cons, List.filterMap_map,
        List.filterMap_cons]
      have hrest : ((List.range l.length).filterMap
          ((fun index ↦ (a :: l)[index]?.bind g) ∘ Nat.succ)) = l.filterMap g := by
        simpa [Function.comp_def] using ih
      rw [hrest]
      rfl

theorem shellIsName_iff : shellIsName name ↔ name.length ≠ 0 ∧ name.length ≤ shellNameMaximum ∧
    ¬(name.head?.any shellIsDigit) ∧ ∀ character ∈ name,
      (byteOf 'a' ≤ character ∧ character ≤ byteOf 'z') ∨
      (byteOf 'A' ≤ character ∧ character ≤ byteOf 'Z') ∨
      shellIsDigit character ∨ character = byteOf '_' := by
  simp only [shellIsName, decide_eq_true_eq]

theorem equals_not_mem_name (h : shellIsName name) : byteOf '=' ∉ name := by
  intro hmem
  obtain ⟨-, -, -, hname⟩ := shellIsName_iff.mp h
  exact absurd (hname _ hmem) (by decide)

theorem environmentLine_inj (hname : byteOf '=' ∉ name) (hname' : byteOf '=' ∉ name')
    (h : environmentLine name value = environmentLine name' value') : name = name' ∧ value = value' := by
  have hbefore : ∀ {name value : List UInt8}, byteOf '=' ∉ name →
      (environmentLine name value).takeWhile (· ≠ byteOf '=') = name := by
    intro name value hname
    rw [environmentLine, List.takeWhile_append_of_pos, List.takeWhile_cons_of_neg, List.append_nil]
    · simp
    · intro character hcharacter
      simp only [ne_eq, decide_not, Bool.not_eq_eq_eq_not, Bool.not_true, decide_eq_false_iff_not]
      exact fun heq ↦ hname (heq ▸ hcharacter)
  have hsame : name = name' := by
    have hfirst : (environmentLine name value).takeWhile (· ≠ byteOf '=') = name := hbefore hname
    rw [← hfirst, h, hbefore hname']
  subst hsame
  exact ⟨rfl, (List.cons.inj (List.append_cancel_left h)).2⟩

theorem shellBuildEnvironment_eq (hkept : Kept table) :
    shellBuildEnvironment table = (table.filter fun slot ↦ slot.used && slot.exported).map
      fun slot ↦ environmentLine slot.name slot.value := by
  have hcut : ∀ slot ∈ table, slot.used → (environmentLine slot.name slot.value).take
      (shellNameMaximum + shellValueMaximum + 1) = environmentLine slot.name slot.value := by
    intro slot hslot hused
    obtain ⟨hname, hvalue⟩ := hkept.fits slot hslot hused
    have hlength := (shellIsName_iff.mp hname).2.1
    apply List.take_of_length_le
    rw [environmentLine, List.length_append, List.length_cons]
    omega
  rw [shellBuildEnvironment, shellVariableCount, List.countP_eq_length_filter]
  simp only [shellVariableAt, Option.bind_eq_bind]
  rw [filterMap_range_getElem?, List.filterMap_filter, ← List.filterMap_eq_map, List.filterMap_filter]
  apply List.filterMap_congr
  intro slot hslot
  cases hused : slot.used with
  | false => simp
  | true => cases hexported : slot.exported <;> simp [hcut slot hslot hused]

theorem mem_shellBuildEnvironment (hkept : Kept table) {string : List UInt8} :
    string ∈ shellBuildEnvironment table ↔
      ∃ name value, scopeOf table name = some (value, true) ∧ string = environmentLine name value := by
  simp only [shellBuildEnvironment_eq hkept, List.mem_map, List.mem_filter, Bool.and_eq_true]
  constructor
  · rintro ⟨slot, ⟨hslot, hused, hexported⟩, rfl⟩
    refine ⟨slot.name, slot.value, ?_, rfl⟩
    rw [scopeOf, find_of_named hkept hslot (named_iff.mpr ⟨hused, rfl⟩), Option.map_some, hexported]
  · rintro ⟨name, value, hscope, rfl⟩
    obtain ⟨slot, hfind, hslot⟩ := Option.map_eq_some_iff.mp hscope
    obtain ⟨hused, rfl⟩ := named_iff.mp (List.find?_some hfind)
    obtain ⟨rfl, hexported⟩ := Prod.mk.inj hslot
    exact ⟨slot, ⟨List.mem_of_find?_eq_some hfind, hused, hexported⟩, rfl⟩

theorem nodup_shellBuildEnvironment (hkept : Kept table) : (shellBuildEnvironment table).Nodup := by
  have hnames : ((table.filter fun slot ↦ slot.used && slot.exported).map ShellVariable.name).Nodup := by
    apply List.Nodup.sublist _ hkept.nodup
    apply List.Sublist.map
    apply List.monotone_filter_right
    intro slot hslot
    exact (Bool.and_eq_true_iff.mp hslot).1
  have hplain : ∀ slot ∈ table.filter (fun slot ↦ slot.used && slot.exported),
      byteOf '=' ∉ slot.name := by
    intro slot hslot
    obtain ⟨hmem, hboth⟩ := List.mem_filter.mp hslot
    exact equals_not_mem_name (hkept.fits slot hmem (Bool.and_eq_true_iff.mp hboth).1).1
  rw [shellBuildEnvironment_eq hkept]
  apply List.Nodup.map_on _ hnames.of_map
  intro slot hslot slot' hslot' hline
  exact List.inj_on_of_nodup_map hnames hslot hslot'
    (environmentLine_inj (hplain slot hslot) (hplain slot' hslot') hline).1

theorem envp_of_search {count : ℕ} {directories : List (List UInt8)}
    (h : call ∈ (shellSearch answers argv envp count directories).1) : call.envp = envp := by
  induction directories generalizing count with
  | nil => cases h
  | cons directory directories ih =>
      rw [shellSearch] at h
      dsimp only at h
      split at h
      · split at h
        · rw [List.mem_singleton.mp h]
        · split at h
          · rw [List.mem_singleton.mp h]
          · rcases List.mem_cons.mp h with rfl | h
            · rfl
            · exact ih h
      · exact ih h

theorem envp_of_execute (h : call ∈ (shellExecute answers argv envp table).1) : call.envp = envp := by
  unfold shellExecute at h
  split at h
  · rw [List.mem_singleton.mp h]
  · exact envp_of_search h

theorem envp_of_executeProgram {command : ShellCommand}
    (h : shellExecuteProgram answers lookup argv command table = some program)
    (hcall : call ∈ program.executed) : call.envp = shellBuildEnvironment table := by
  obtain ⟨⟨applied, table'⟩, -, h⟩ := Option.bind_eq_some_iff.mp h
  cases applied with
  | false =>
      cases h
      cases hcall
  | true =>
      cases h
      exact envp_of_execute hcall

theorem envp_of_runProgram {command : ShellCommand}
    (h : shellRunProgram answers lookup argv command table = some program)
    (hcall : call ∈ program.executed) : call.envp = shellBuildEnvironment table := by
  unfold shellRunProgram at h
  split at h
  · cases h
    cases hcall
  · obtain ⟨child, hchild, h⟩ := Option.bind_eq_some_iff.mp h
    cases h
    exact envp_of_executeProgram hchild hcall

theorem envp_of_runCommand {inChild : Bool} {command : ShellCommand}
    (h : shellRunCommand answers status inChild command table = some (.program program))
    (hcall : call ∈ program.executed) :
    ∃ argv table', shellExpandWords status 0 command.word table = some (some argv, table') ∧
      call.envp = shellBuildEnvironment table' := by
  unfold shellRunCommand at h
  dsimp only at h
  split at h
  · obtain ⟨⟨applied, table'⟩, -, h⟩ := Option.bind_eq_some_iff.mp h
    cases h
  · obtain ⟨⟨expanded, table'⟩, hexpanded, h⟩ := Option.bind_eq_some_iff.mp h
    cases expanded with
    | none => cases h
    | some argv =>
        refine ⟨argv, table', hexpanded, ?_⟩
        dsimp only at h
        split at h
        · split at h
          · obtain ⟨child, hchild, h⟩ := Option.map_eq_some_iff.mp h
            cases h
            exact envp_of_executeProgram hchild hcall
          · obtain ⟨child, hchild, h⟩ := Option.map_eq_some_iff.mp h
            cases h
            exact envp_of_runProgram hchild hcall
        · split at h
          · obtain ⟨⟨applied, table''⟩, -, h⟩ := Option.bind_eq_some_iff.mp h
            cases applied with
            | false | true => cases h
          · cases h

theorem runCommand_unassigned {inChild : Bool} {command : ShellCommand}
    (h : shellRunCommand answers status inChild command table = some (.program program)) :
    shellRunCommand answers status inChild { command with assignment := [] } table =
      some (.program program) := by
  unfold shellRunCommand at h ⊢
  dsimp only at h ⊢
  split at h
  · obtain ⟨⟨applied, table'⟩, -, h⟩ := Option.bind_eq_some_iff.mp h
    cases h
  · next hwords =>
    rw [if_neg hwords]
    obtain ⟨⟨expanded, table'⟩, hexpanded, h⟩ := Option.bind_eq_some_iff.mp h
    rw [hexpanded]
    cases expanded with
    | none => cases h
    | some argv =>
        dsimp only [Option.bind_eq_bind, Option.bind_some] at h ⊢
        split at h
        · next hprogram => exact (if_pos hprogram).trans h
        · split at h
          · obtain ⟨⟨applied, table''⟩, -, h⟩ := Option.bind_eq_some_iff.mp h
            cases applied with
            | false | true => cases h
          · cases h

def assignedValues (status : ℕ) :
    List (List UInt8) → ShellVariables → Option (List (List UInt8 × List UInt8))
  | [], _ => some []
  | word :: assignment, table =>
      let name := word.takeWhile (· ≠ byteOf '=')
      match shellExpandWord (shellLookupParameter status) shellExpandCalls
          (word.drop (name.length + 1)) Libc.lineCapacity table with
      | some (.ok value, table) => do
          let table ← shellVariableSet table name value
          let values ← assignedValues status assignment table
          some ((name, value) :: values)
      | _ => none

def assignedTo (values : List (List UInt8 × List UInt8)) (name : List UInt8) : Option (List UInt8) :=
  (values.reverse.find? (·.1 = name)).map Prod.snd

def Asked (scope : ShellScope) (values : List (List UInt8 × List UInt8)) (name value : List UInt8) :
    Prop :=
  assignedTo values name = some value ∨
    assignedTo values name = none ∧ scope name = some (value, true)

structure Prepared (status : ℕ) (ops : List ShellOperation) (command : ShellCommand)
    (sets : List ShellOperation) (values : List (List UInt8 × List UInt8)) : Prop where
  only : ∀ op ∈ sets, ∃ name value, op = .set name value
  expanded : ∃ argv, shellExpandWords status 0 command.word (shellOperated ops) =
    some (some argv, shellOperated (ops ++ sets))
  assigned : assignedValues status command.assignment (shellOperated (ops ++ sets)) = some values

def GivenAsAsked (status : ℕ) (ops : List ShellOperation) (command : ShellCommand)
    (envp : List (List UInt8)) : Prop :=
  ∃ sets values, Prepared status ops command sets values ∧ envp.Nodup ∧ ∀ string,
    string ∈ envp ↔ ∃ name value, Asked (latest (ops ++ sets)) values name value ∧
      string = environmentLine name value

def AssignsWhatIs (status : ℕ) (ops : List ShellOperation) (command : ShellCommand) : Prop :=
  ∃ sets values, Prepared status ops command sets values ∧ ∀ name value,
    assignedTo values name = some value → latest (ops ++ sets) name = some (value, true)

theorem isName_of_set (h : shellVariableSet table name value = some table') : shellIsName name := by
  unfold shellVariableSet at h
  split at h
  · cases h
  · next hgranted => exact not_not.mp (not_or.mp hgranted).1

theorem isName_of_assigned {assignment : List (List UInt8)} {values : List (List UInt8 × List UInt8)}
    (h : assignedValues status assignment table = some values) :
    ∀ assigned ∈ values, shellIsName assigned.1 := by
  induction assignment generalizing table values with
  | nil =>
      cases h
      exact fun _ hmem ↦ nomatch hmem
  | cons word assignment ih =>
      rw [assignedValues] at h
      split at h
      · obtain ⟨table', hset, h⟩ := Option.bind_eq_some_iff.mp h
        obtain ⟨others, hothers, h⟩ := Option.bind_eq_some_iff.mp h
        cases h
        intro assigned hmem
        rcases List.mem_cons.mp hmem with rfl | hmem
        · exact isName_of_set hset
        · exact ih hothers assigned hmem
      · cases h

theorem isName_of_assignedTo {assignment : List (List UInt8)}
    {values : List (List UInt8 × List UInt8)}
    (h : assignedValues status assignment table = some values)
    (hto : assignedTo values name = some value) : shellIsName name := by
  obtain ⟨assigned, hfind, -⟩ := Option.map_eq_some_iff.mp hto
  have hname : assigned.1 = name := by simpa using List.find?_some hfind
  rw [← hname]
  exact isName_of_assigned h assigned (List.mem_reverse.mp (List.mem_of_find?_eq_some hfind))

theorem isName_of_scope (hkept : Kept table) {known : List UInt8 × Bool}
    (h : scopeOf table name = some known) : shellIsName name := by
  obtain ⟨slot, hfind, -⟩ := Option.map_eq_some_iff.mp h
  obtain ⟨hused, rfl⟩ := named_iff.mp (List.find?_some hfind)
  exact (hkept.fits slot (List.mem_of_find?_eq_some hfind) hused).1

/-- The environment of a program is what its command asks for, once each, and the assignment
words leave the shell's variables, where each name that they assign is exported and has the
value already, and nowhere else. -/
theorem environment_iff (answers : ShellAnswers) (status : ℕ) (inChild : Bool)
    (ops : List ShellOperation) (command : ShellCommand) (program : ShellProgram) (call : ShellExecve)
    (hrun : shellRunCommand answers status inChild command (shellOperated ops) =
      some (.program program))
    (hcall : call ∈ program.executed) :
    (GivenAsAsked status ops command call.envp ∧
      ∃ without, shellRunCommand answers status inChild { command with assignment := [] }
          (shellOperated ops) = some (.program without) ∧ program.table = without.table) ↔
      AssignsWhatIs status ops command := by
  obtain ⟨argv, table', hwords, henvp⟩ := envp_of_runCommand hrun hcall
  have hgiven : ∀ {sets values}, Prepared status ops command sets values → ∀ string,
      string ∈ call.envp ↔ ∃ name value, latest (ops ++ sets) name = some (value, true) ∧
        string = environmentLine name value := by
    intro sets values hprepared string
    obtain ⟨argv', hwords'⟩ := hprepared.expanded
    obtain ⟨-, htable⟩ := Prod.mk.inj (Option.some.inj (hwords.symm.trans hwords'))
    rw [henvp, htable, mem_shellBuildEnvironment (kept_operated _), scopeOf_operated]
  constructor
  · rintro ⟨⟨sets, values, hprepared, -, hasked⟩, -⟩
    refine ⟨sets, values, hprepared, fun name value hassigned ↦ ?_⟩
    have hmem := (hasked _).mpr ⟨name, value, Or.inl hassigned, rfl⟩
    obtain ⟨name', value', hscope, hline⟩ := (hgiven hprepared _).mp hmem
    have hname := isName_of_assignedTo hprepared.assigned hassigned
    have hname' : shellIsName name' := by
      rw [← scopeOf_operated] at hscope
      exact isName_of_scope (kept_operated _) hscope
    obtain ⟨rfl, rfl⟩ := environmentLine_inj (equals_not_mem_name hname)
      (equals_not_mem_name hname') hline
    exact hscope
  · rintro ⟨sets, values, hprepared, hassigned⟩
    refine ⟨⟨sets, values, hprepared, ?_, fun string ↦ ?_⟩,
      program, runCommand_unassigned hrun, rfl⟩
    · rw [henvp]
      obtain ⟨sets', -, rfl⟩ := (sets_words hwords).operated
      exact nodup_shellBuildEnvironment (kept_operated _)
    · rw [hgiven hprepared]
      constructor
      · rintro ⟨name, value, hscope, rfl⟩
        refine ⟨name, value, ?_, rfl⟩
        cases hto : assignedTo values name with
        | none => exact Or.inr ⟨hto, hscope⟩
        | some value' =>
            have hsame := hassigned name value' hto
            rw [hscope] at hsame
            obtain ⟨rfl, -⟩ := Prod.mk.inj (Option.some.inj hsame)
            exact Or.inl hto
      · rintro ⟨name, value, hto | ⟨-, hscope⟩, rfl⟩
        · exact ⟨name, value, hassigned name value hto, rfl⟩
        · exact ⟨name, value, hscope, rfl⟩

def willing : ShellAnswers := ⟨true, true, fun _ ↦ none, fun _ ↦ false, fun _ ↦ none, 0⟩

/-- `X=1 env` -/
def assigningCommand : ShellCommand :=
  { word := ["env".toList.map byteOf], assignment := ["X=1".toList.map byteOf] }

/-- `X=1; export X` -/
def exportingOperations : List ShellOperation :=
  [.set ("X".toList.map byteOf) ("1".toList.map byteOf), .export ("X".toList.map byteOf)]

/-- The `execve` of `env`, with an environment. -/
def envCall (envp : List (List UInt8)) : ShellExecve :=
  ⟨"/bin/env".toList.map byteOf, ["env".toList.map byteOf], envp⟩

/-- `env` where `X` is exported. -/
def envProgram : ShellProgram :=
  ⟨[envCall ["X=1".toList.map byteOf]], some 0, shellOperated exportingOperations⟩

theorem shellRunCommand_env :
    shellRunCommand willing 0 false assigningCommand (shellOperated exportingOperations) =
      some (.program envProgram) := by
  decide +kernel

theorem environment_iff_env :
    (GivenAsAsked 0 exportingOperations assigningCommand (envCall ["X=1".toList.map byteOf]).envp ∧
      ∃ without, shellRunCommand willing 0 false { assigningCommand with assignment := [] }
          (shellOperated exportingOperations) = some (.program without) ∧
        envProgram.table = without.table) ↔
      AssignsWhatIs 0 exportingOperations assigningCommand :=
  environment_iff willing 0 false exportingOperations assigningCommand envProgram
    (envCall ["X=1".toList.map byteOf]) shellRunCommand_env List.mem_cons_self

/-- An assignment word before a program is not in its environment. -/
theorem not_environment :
    ¬∀ answers status inChild ops command program call,
      shellRunCommand answers status inChild command (shellOperated ops) = some (.program program) →
      call ∈ program.executed →
      GivenAsAsked status ops command call.envp ∧
        ∃ without, shellRunCommand answers status inChild { command with assignment := [] }
          (shellOperated ops) = some (.program without) ∧ program.table = without.table := by
  intro h
  obtain ⟨⟨sets, values, hprepared, -, hasked⟩, -⟩ := h willing 0 false [] assigningCommand
    ⟨[envCall []], some 0, shellOperated []⟩ (envCall []) (by decide +kernel) List.mem_cons_self
  obtain ⟨argv, hwords⟩ := hprepared.expanded
  have hnone : shellExpandWords 0 0 assigningCommand.word (shellOperated []) =
      some (some ["env".toList.map byteOf], shellOperated []) := by decide +kernel
  obtain ⟨-, htable⟩ := Prod.mk.inj (Option.some.inj (hnone.symm.trans hwords))
  have hassigned := hprepared.assigned
  rw [← htable] at hassigned
  have hvalues : assignedValues 0 assigningCommand.assignment (shellOperated []) =
      some [("X".toList.map byteOf, "1".toList.map byteOf)] := by decide +kernel
  obtain rfl := Option.some.inj (hvalues.symm.trans hassigned)
  exact absurd ((hasked _).mpr ⟨"X".toList.map byteOf, "1".toList.map byteOf, Or.inl (by decide), rfl⟩)
    List.not_mem_nil

end OxysOS.Shell
