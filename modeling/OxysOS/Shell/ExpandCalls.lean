import OxysOS.Shell.Expand

/-!
# How far expansion descends

Every call of `ShellArithExpression`, `ShellArithConditional` and `ShellArithUnary` from
within another has less text before it or is of a lower kind, so that at most three for
each character and three more are active at once.  An expression has
`SHELL_ARITH_TEXT` characters at most, and one within it is shorter, so that the bound
does not depend upon the length of the word.
-/

namespace OxysOS.Shell

open OxysOS.Library

variable {arith arith' : ShellArith} {op : String} {ops : List String} {r calls : ℕ}
  {operand : Operand} {lookup : ShellLookup}

structure Reads (arith arith' : ShellArith) : Prop where
  text : arith'.text.length ≤ arith.text.length
  depth : arith'.depth = arith.depth
  sets : Sets arith.table arith'.table

theorem Reads.refl (arith : ShellArith) : Reads arith arith := ⟨le_rfl, rfl, .refl⟩

theorem Reads.trans {arith'' : ShellArith} (h : Reads arith arith') (h' : Reads arith' arith'') :
    Reads arith arith'' := ⟨h'.text.trans h.text, h'.depth.trans h.depth, h.sets.trans h'.sets⟩

theorem reads_fail (arith : ShellArith) (fault : String) : Reads arith (shellArithFail arith fault) :=
  ⟨le_rfl, rfl, .refl⟩

theorem reads_skipBlanks (arith : ShellArith) : Reads arith (shellArithSkipBlanks arith) :=
  ⟨(List.dropWhile_suffix _).length_le, rfl, .refl⟩

theorem reads_accept (arith : ShellArith) (op : String) : Reads arith (shellArithAccept arith op).2 := by
  have hskip := reads_skipBlanks arith
  unfold shellArithAccept
  dsimp only
  split
  · exact hskip
  · exact ⟨(List.drop_suffix _ _).length_le.trans hskip.text, rfl, .refl⟩

theorem length_of_accept (h : shellArithAccept arith op = (true, arith')) :
    arith'.text.length + op.length ≤ arith.text.length := by
  have hskip := (reads_skipBlanks arith).text
  unfold shellArithAccept at h
  dsimp only at h
  split at h
  · cases h
  · next hprefix =>
    cases h
    have hle := (List.isPrefixOf_iff_prefix.mp (not_not.mp (not_or.mp hprefix).1)).length_le
    rw [List.length_map, String.length_toList] at hle
    simp only [List.length_drop, List.length_map, String.length_toList]
    omega

theorem reads_acceptAny (arith : ShellArith) (ops : List String) :
    Reads arith (shellArithAcceptAny arith ops).2 := by
  induction ops generalizing arith with
  | nil => exact Reads.refl arith
  | cons op ops ih =>
      have hreads := reads_accept arith op
      rw [shellArithAcceptAny]
      split
      · next haccept => rwa [haccept] at hreads
      · next haccept =>
        rw [haccept] at hreads
        exact hreads.trans (ih _)

theorem length_of_acceptAny (hops : ∀ op ∈ ops, 0 < op.length)
    (h : shellArithAcceptAny arith ops = (some op, arith')) :
    arith'.text.length < arith.text.length := by
  induction ops generalizing arith with
  | nil => cases h
  | cons other ops ih =>
      have hreads := reads_accept arith other
      rw [shellArithAcceptAny] at h
      split at h
      · next haccept =>
        cases h
        have hlength := length_of_accept haccept
        have hpos := hops _ List.mem_cons_self
        omega
      · next haccept =>
        rw [haccept] at hreads
        exact (ih (fun op hmem ↦ hops op (List.mem_cons_of_mem _ hmem)) h).trans_le hreads.text

theorem reads_name (arith : ShellArith) : Reads arith (shellArithName arith).2 := by
  have hskip := reads_skipBlanks arith
  unfold shellArithName
  dsimp only
  split
  · exact hskip
  split
  · exact ⟨(List.drop_suffix _ _).length_le.trans hskip.text, rfl, .refl⟩
  · exact ⟨(List.dropWhile_suffix _).length_le.trans hskip.text, rfl, .refl⟩

theorem length_of_constant {text after : List UInt8} {value : Int64}
    (h : shellArithConstant text = some (value, after)) : after.length ≤ text.length := by
  unfold shellArithConstant at h
  obtain ⟨-, h⟩ := Option.ite_none_left_eq_some.mp h
  dsimp only at h
  obtain ⟨-, h⟩ := Option.ite_none_left_eq_some.mp h
  cases h
  refine (List.dropWhile_suffix _).length_le.trans ?_
  split
  · exact (List.drop_suffix _ _).length_le
  · exact le_rfl

theorem reads_variable (lookup : ShellLookup) (arith : ShellArith) (name : List UInt8) :
    Reads arith (shellArithVariable lookup arith name).2 := by
  unfold shellArithVariable
  dsimp only
  split
  · exact Reads.refl arith
  split
  · exact Reads.refl arith
  split
  · exact reads_fail arith _
  split
  · exact reads_fail arith _
  · exact Reads.refl arith

theorem reads_apply (arith : ShellArith) (op : String) (first second : Int64) (evaluate : Bool) :
    Reads arith (shellArithApply arith op first second evaluate).2 := by
  have hite : ∀ {c : Prop} [Decidable c] {p q : Int64 × ShellArith}, Reads arith p.2 →
      Reads arith q.2 → Reads arith (if c then p else q).2 := by
    intro c _ p q hp hq
    split
    · exact hp
    · exact hq
  have hrefl := Reads.refl arith
  unfold shellArithApply
  refine hite hrefl (hite (hite hrefl (hite (reads_fail arith _)
    (hite (reads_fail arith _) hrefl))) ?_)
  repeat refine hite hrefl ?_
  exact hrefl

theorem reads_store (arith : ShellArith) (name : List UInt8) (value : Int64) :
    Reads arith (shellArithStore arith name value) := by
  unfold shellArithStore
  split
  · exact reads_fail arith _
  · next table hset => exact ⟨le_rfl, rfl, .single ⟨name, _, hset⟩⟩

theorem reads_assign (lookup : ShellLookup) (name : List UInt8) (op : String) (evaluate : Bool)
    (right : Int64) (arith : ShellArith) :
    Reads arith (shellArithAssign lookup name op evaluate right arith).2 := by
  have hstored : ∀ {value : Int64} {arith' : ShellArith}, Reads arith arith' →
      Reads arith (if evaluate ∧ arith'.fault = none then shellArithStore arith' name value
        else arith') := by
    intro value arith' h
    split
    · exact h.trans (reads_store arith' name value)
    · exact h
  unfold shellArithAssign
  dsimp only
  split
  · exact hstored (Reads.refl arith)
  · cases evaluate with
    | false => exact hstored (reads_apply arith _ _ _ _)
    | true => exact hstored ((reads_variable lookup arith name).trans (reads_apply _ _ _ _ _))

def ReturnsWithin (operand : Operand) (r : ℕ) : Prop :=
  ∀ evaluate arith, arith.text.length ≤ r →
    Returns (operand evaluate arith) fun result ↦ Reads arith result.2

theorem returnsWithin_chain {next : Int64 → Bool → Bool}
    {apply : String → Int64 → Int64 → Bool → ShellArith → Int64 × ShellArith}
    (hoperand : ReturnsWithin operand r) (hops : ∀ op ∈ ops, 0 < op.length)
    (happly : ∀ op value right evaluate arith,
      Reads arith (apply op value right evaluate arith).2) :
    ReturnsWithin (shellArithChain operand ops next apply) r := by
  intro evaluate arith htext
  refine (hoperand evaluate arith htext).bind fun first hfirst ↦ ?_
  refine returns_turnsOf (I := fun state ↦ Reads arith state.2)
    (m := fun state ↦ state.2.text.length) (fun state hstate ↦ ?_) hfirst (Nat.lt_succ_self _)
  obtain ⟨value, arith'⟩ := state
  have hreads := reads_acceptAny arith' ops
  dsimp only
  split
  · next haccept =>
    rw [haccept] at hreads
    exact returns_some (hstate.trans hreads)
  · next op arith'' haccept =>
    rw [haccept] at hreads
    have hless := length_of_acceptAny hops haccept
    have hwithin : arith''.text.length ≤ r := (hreads.text.trans hstate.text).trans htext
    refine (hoperand _ arith'' hwithin).bind fun right hright ↦ returns_some ?_
    have happlied := happly op value right.1 evaluate right.2
    exact ⟨((hstate.trans hreads).trans hright).trans happlied,
      ((happlied.text.trans hright.text).trans_lt hless)⟩

theorem levels_pos : ∀ level ∈ shellArithLevels, ∀ op ∈ level, 0 < op.length := by decide

theorem level_pos (level : ℕ) : ∀ op ∈ shellArithLevels[level]?.getD [], 0 < op.length := by
  intro op hmem
  cases hlevel : shellArithLevels[level]? with
  | none =>
      rw [hlevel] at hmem
      exact absurd hmem List.not_mem_nil
  | some ops =>
      rw [hlevel] at hmem
      exact levels_pos ops (List.mem_of_getElem? hlevel) op hmem

theorem returnsWithin_binary {unary : Operand} (h : ReturnsWithin unary r) (level : ℕ) :
    ReturnsWithin (shellArithBinary unary level) r := by
  induction level with
  | zero =>
      exact returnsWithin_chain h (level_pos 0) fun op value right evaluate arith ↦
        reads_apply arith op value right evaluate
  | succ level ih =>
      exact returnsWithin_chain ih (level_pos (level + 1)) fun op value right evaluate arith ↦
        reads_apply arith op value right evaluate

theorem returnsWithin_or {unary : Operand} (h : ReturnsWithin unary r) :
    ReturnsWithin (shellArithOr unary) r := by
  refine returnsWithin_chain (returnsWithin_chain (returnsWithin_binary h _) (by decide) ?_)
    (by decide) ?_
  · exact fun _ _ _ _ arith ↦ Reads.refl arith
  · exact fun _ _ _ _ arith ↦ Reads.refl arith

theorem returnsWithin_primary {expression : Operand}
    (h : ∀ r' < r, ReturnsWithin expression r') :
    ReturnsWithin (shellArithPrimary lookup expression) r := by
  intro evaluate arith htext
  have hreads := reads_accept arith "("
  unfold shellArithPrimary
  split
  · next opened hopen =>
    rw [hopen] at hreads
    have hless : opened.text.length < arith.text.length := by
      have hlength := length_of_accept hopen
      have hone : "(".length = 1 := rfl
      omega
    refine Returns.ite (fun _ ↦ returns_some (hreads.trans (reads_fail _ _))) fun _ ↦ ?_
    refine (h _ (hless.trans_le htext) evaluate { opened with depth := opened.depth + 1 }
      le_rfl).bind fun result hresult ↦ ?_
    have hclosed : Reads arith { result.2 with depth := result.2.depth - 1 } := by
      refine ⟨hresult.text.trans hreads.text, ?_, hreads.sets.trans hresult.sets⟩
      change result.2.depth - 1 = arith.depth
      rw [hresult.depth]
      exact hreads.depth
    have hafter := hclosed.trans (reads_accept _ ")")
    dsimp only
    split
    · next haccept =>
      rw [haccept] at hafter
      exact returns_some hafter
    · next haccept =>
      rw [haccept] at hafter
      exact returns_some (hafter.trans (reads_fail _ _))
  · next other hopen =>
    rw [hopen] at hreads
    split
    · next hconstant =>
      exact returns_some ⟨(length_of_constant hconstant).trans hreads.text, hreads.depth, hreads.sets⟩
    · have hname := hreads.trans (reads_name other)
      split
      · next name named hsome =>
        rw [hsome] at hname
        refine returns_some ?_
        cases evaluate with
        | false => exact hname
        | true => exact hname.trans (reads_variable lookup named name)
      · next hnone =>
        rw [hnone] at hname
        exact returns_some (hname.trans (reads_fail _ _))

theorem returnsWithin_calls (lookup : ShellLookup) (calls : ℕ) : ∀ r,
    (3 * r + 3 ≤ calls → ReturnsWithin (shellArithExpression lookup calls) r) ∧
    (3 * r + 2 ≤ calls → ReturnsWithin (shellArithConditional lookup calls) r) ∧
    (3 * r + 1 ≤ calls → ReturnsWithin (shellArithUnary lookup calls) r) := by
  induction calls with
  | zero => exact fun r ↦ ⟨fun h ↦ absurd h (by omega), fun h ↦ absurd h (by omega),
      fun h ↦ absurd h (by omega)⟩
  | succ calls ih =>
      intro r
      -- of a text that has lost a character every function has calls enough
      have hless : ∀ {arith arith' : ShellArith}, arith'.text.length < arith.text.length →
          arith.text.length ≤ r → 3 * r ≤ calls → ∀ evaluate,
          Returns (shellArithExpression lookup calls evaluate arith')
            (fun result ↦ Reads arith' result.2) ∧
          Returns (shellArithConditional lookup calls evaluate arith')
            (fun result ↦ Reads arith' result.2) ∧
          Returns (shellArithUnary lookup calls evaluate arith')
            (fun result ↦ Reads arith' result.2) := by
        intro arith arith' hshort htext hcalls evaluate
        obtain ⟨hexpression, hconditional, hunary⟩ := ih arith'.text.length
        exact ⟨hexpression (by omega) evaluate arith' le_rfl,
          hconditional (by omega) evaluate arith' le_rfl, hunary (by omega) evaluate arith' le_rfl⟩
      refine ⟨fun hcalls evaluate arith htext ↦ ?_, fun hcalls evaluate arith htext ↦ ?_,
        fun hcalls evaluate arith htext ↦ ?_⟩
      · -- an assignment, or a conditional from where the expression begins
        have hconditional : ∀ {named : ShellArith}, Reads arith named →
            Returns (shellArithConditional lookup calls evaluate { named with text := arith.text })
              fun result ↦ Reads arith result.2 := by
          intro named hnamed
          refine ((ih r).2.1 (by omega) evaluate { named with text := arith.text } htext).mono
            fun result hresult ↦ ?_
          exact ⟨hresult.text, hresult.depth.trans hnamed.depth, hnamed.sets.trans hresult.sets⟩
        have hname := reads_name arith
        rw [shellArithExpression]
        dsimp only
        split
        · next name named hsome =>
          rw [hsome] at hname
          have hreads := hname.trans (reads_acceptAny named shellArithAssignments)
          split
          · next op accepted haccept =>
            rw [haccept] at hreads
            have hshort : accepted.text.length < arith.text.length :=
              (length_of_acceptAny (by decide) haccept).trans_le hname.text
            refine (hless hshort htext (by omega) evaluate).1.bind fun result hresult ↦ ?_
            exact returns_some ((hreads.trans hresult).trans (reads_assign ..))
          · next accepted haccept =>
            rw [haccept] at hreads
            exact hconditional hreads
        · next named hnone =>
          rw [hnone] at hname
          exact hconditional hname
      · have hunary := (ih r).2.2 (by omega)
        rw [shellArithConditional]
        refine (returnsWithin_or hunary evaluate arith htext).bind fun result hresult ↦ ?_
        have hquestion := hresult.trans (reads_accept result.2 "?")
        dsimp only
        split
        · next haccept =>
          rw [haccept] at hquestion
          exact returns_some hquestion
        · next accepted haccept =>
          rw [haccept] at hquestion
          have hshort : accepted.text.length < arith.text.length := by
            have hlength := length_of_accept haccept
            have hone : "?".length = 1 := rfl
            have htake := hresult.text
            omega
          refine (hless hshort htext (by omega) _).1.bind fun first hfirst ↦ ?_
          have hcolon := (hquestion.trans hfirst).trans (reads_accept first.2 ":")
          split
          · next haccept' =>
            rw [haccept'] at hcolon
            exact returns_some (hcolon.trans (reads_fail _ _))
          · next accepted' haccept' =>
            have hafter := reads_accept first.2 ":"
            rw [haccept'] at hcolon hafter
            have hshort' : accepted'.text.length < arith.text.length :=
              (hafter.text.trans hfirst.text).trans_lt hshort
            refine (hless hshort' htext (by omega) _).2.1.bind fun second hsecond ↦ ?_
            exact returns_some (hcolon.trans hsecond)
      · have hreads := reads_acceptAny arith ["+", "-", "!", "~"]
        rw [shellArithUnary]
        split
        · next op accepted haccept =>
          rw [haccept] at hreads
          have hshort := length_of_acceptAny (by decide) haccept
          refine (hless hshort htext (by omega) evaluate).2.2.bind fun result hresult ↦ ?_
          exact returns_some (hreads.trans hresult)
        · next accepted haccept =>
          rw [haccept] at hreads
          have hprimary : ReturnsWithin
              (shellArithPrimary lookup (shellArithExpression lookup calls)) r :=
            returnsWithin_primary fun r' hr ↦ (ih r').1 (by omega)
          exact (hprimary evaluate accepted (hreads.text.trans htext)).mono
            fun result hresult ↦ hreads.trans hresult

theorem returns_arithmetic (lookup : ShellLookup) {expression : List UInt8}
    (h : 3 * expression.length + 3 ≤ calls) (table : ShellVariables) :
    Returns (shellArithmetic lookup calls expression table) fun result ↦ Sets table result.2 := by
  have hskip := reads_skipBlanks { text := expression, table }
  unfold shellArithmetic
  refine Returns.ite (fun _ ↦ returns_some hskip.sets) fun _ ↦ ?_
  refine (((returnsWithin_calls lookup calls expression.length).1 h) true _ hskip.text).bind
    fun result hresult ↦ ?_
  have hafter := (hskip.trans hresult).trans (reads_skipBlanks result.2)
  dsimp only
  split
  · exact returns_some hafter.sets
  · exact returns_some hafter.sets

def FitsIn (capacity : ℕ) (result : Except ShellRefusal (List UInt8)) : Prop :=
  ∀ out, result = .ok out → out.length < capacity

theorem fitsIn_putString {capacity : ℕ} {out : List UInt8} (string : List UInt8)
    (h : out.length < capacity) : FitsIn capacity (shellExpandPutString capacity out string) := by
  induction string generalizing out with
  | nil =>
      intro result hresult
      cases hresult
      exact h
  | cons character string ih =>
      rw [shellExpandPutString]
      split
      · exact fun _ hresult ↦ nomatch hresult
      · next more hput =>
        unfold shellExpandPut at hput
        split at hput
        · cases hput
        · next hroom =>
          cases hput
          refine ih ?_
          rw [List.length_append, List.length_singleton]
          omega

def Advances (capacity length : ℕ) (result : Except ShellRefusal ShellExpansion) : Prop :=
  ∀ expansion, result = .ok expansion →
    expansion.word.length < length ∧ expansion.out.length < capacity

theorem advances_with {capacity length : ℕ} {out rest : List UInt8} (string : List UInt8)
    (hout : out.length < capacity) (hrest : rest.length < length) :
    Advances capacity length (shellExpandWith capacity out string rest) := by
  have hfits := fitsIn_putString string hout
  intro expansion hexpansion
  unfold shellExpandWith at hexpansion
  split at hexpansion
  · cases hexpansion
  · next out' hput =>
    cases hexpansion
    exact ⟨hrest, hfits out' hput⟩

theorem advances_parameter (lookup : ShellLookup) {capacity : ℕ} (rest : List UInt8)
    {out : List UInt8} (table : ShellVariables) (hout : out.length < capacity) :
    Advances capacity (rest.length + 1) (shellExpandParameter lookup capacity rest out table) := by
  have hwith : ∀ string {after : List UInt8}, after.length ≤ rest.length →
      Advances capacity (rest.length + 1) (shellExpandWith capacity out string after) :=
    fun string after hle ↦ advances_with string hout (Nat.lt_succ_of_le hle)
  have hrefused : Advances capacity (rest.length + 1) (.error .name) :=
    fun _ hexpansion ↦ nomatch hexpansion
  unfold shellExpandParameter
  dsimp only
  split
  · exact hwith _ le_rfl
  · next first more =>
    have hmore : more.length ≤ (first :: more).length := Nat.le_succ _
    split
    · split
      · exact hrefused
      split
      · exact hwith _ le_rfl
      · exact hwith _ ((List.drop_suffix _ _).length_le.trans hmore)
    split
    · exact hwith _ hmore
    split
    · split
      · exact hrefused
      · exact hwith _ (List.drop_suffix _ _).length_le
    · exact hwith _ le_rfl

def shellArithCalls : ℕ := 3 * shellArithText + 3

theorem length_shellArithInner {rest : List UInt8} (n : ℕ)
    (h : rest.head? = some (byteOf '(')) : (shellArithInner (rest.take n)).length < rest.length := by
  have hsome : 0 < rest.length := by
    cases rest with
    | nil => cases h
    | cons => exact Nat.succ_pos _
  unfold shellArithInner
  rw [List.length_take, List.length_drop, List.length_take]
  omega

theorem returns_dollar {expand : List UInt8 → ℕ → ShellVariables → Option (Expanded (List UInt8))}
    {capacity : ℕ} {rest out : List UInt8} (table : ShellVariables)
    (hcalls : shellArithCalls ≤ calls) (hout : out.length < capacity)
    (hexpand : ∀ inner table, inner.length < rest.length → inner.length ≤ shellArithText →
      Returns (expand inner (shellArithText + 1) table) fun result ↦
        FitsIn (shellArithText + 1) result.1) :
    Returns (shellExpandDollar lookup expand calls capacity rest out table)
      fun result ↦ Advances capacity (rest.length + 1) result.1 := by
  have hrefused : ∀ {refusal}, Advances capacity (rest.length + 1) (.error refusal) :=
    fun _ hexpansion ↦ nomatch hexpansion
  unfold shellExpandDollar
  refine Returns.ite (fun hopens ↦ ?_) fun _ ↦
    returns_some (advances_parameter lookup rest table hout)
  unfold shellExpandArithmetic
  split
  · exact returns_some hrefused
  next after hafter =>
    dsimp only
    refine Returns.ite (fun _ ↦ returns_some hrefused) fun _ ↦
      Returns.ite (fun _ ↦ returns_some hrefused) fun hlong ↦ ?_
    refine (hexpand _ table (length_shellArithInner _ hopens.1) (not_lt.mp hlong)).bind
      fun result hresult ↦ ?_
    obtain ⟨expanded, table'⟩ := result
    cases expanded with
    | error refusal => exact returns_some hrefused
    | ok expression =>
        have hlength := hresult expression rfl
        have hneeded : 3 * expression.length + 3 ≤ calls := by
          unfold shellArithCalls at hcalls
          omega
        refine (returns_arithmetic lookup hneeded table').bind fun value _ ↦ ?_
        obtain ⟨value, table''⟩ := value
        cases value with
        | error fault => exact returns_some hrefused
        | ok value =>
            exact returns_some (advances_with _ hout
              (Nat.lt_succ_of_le (afterArithmetic_suffix hafter).length_le))

theorem returns_turn
    {dollar : List UInt8 → List UInt8 → ShellVariables → Option (Expanded ShellExpansion)}
    {capacity : ℕ} (state : ShellExpansionAt) (hout : state.expansion.out.length < capacity)
    (hdollar : ∀ rest table, rest.length < state.expansion.word.length →
      Returns (dollar rest state.expansion.out table)
        fun result ↦ Advances capacity (rest.length + 1) result.1) :
    Returns (shellExpandTurn capacity dollar state)
      (Sum.elim (fun result ↦ FitsIn capacity result.1) fun next ↦
        next.expansion.out.length < capacity ∧
          next.expansion.word.length < state.expansion.word.length) := by
  obtain ⟨quotes, ⟨word, out⟩, table⟩ := state
  have hfinish : FitsIn capacity (.ok out) := fun _ hresult ↦ by
    cases hresult
    exact hout
  have hnext : ∀ {quotes table length} {result : Except ShellRefusal ShellExpansion},
      Advances capacity length result → length ≤ word.length →
      Sum.elim (fun result : Expanded (List UInt8) ↦ FitsIn capacity result.1)
        (fun next ↦ next.expansion.out.length < capacity ∧
          next.expansion.word.length < word.length) (shellExpandNext quotes table result) := by
    intro quotes table length result hadvances hle
    cases result with
    | error refusal => exact fun _ hresult ↦ nomatch hresult
    | ok expansion =>
        obtain ⟨hword, hout'⟩ := hadvances expansion rfl
        exact ⟨hout', hword.trans_le hle⟩
  have hcopy : ∀ quotes character {rest : List UInt8}, rest.length < word.length →
      Sum.elim (fun result : Expanded (List UInt8) ↦ FitsIn capacity result.1)
        (fun next ↦ next.expansion.out.length < capacity ∧
          next.expansion.word.length < word.length)
        (shellExpandNext quotes table (shellExpandWith capacity out [character] rest)) :=
    fun quotes character rest hlt ↦ hnext (advances_with _ hout hlt) le_rfl
  have hexpand : ∀ quotes {rest : List UInt8}, rest.length < word.length →
      Returns ((dollar rest out table).bind fun result ↦
          some (shellExpandNext quotes result.2 result.1))
        (Sum.elim (fun result ↦ FitsIn capacity result.1) fun next ↦
          next.expansion.out.length < capacity ∧ next.expansion.word.length < word.length) :=
    fun quotes rest hlt ↦ (hdollar rest table hlt).bind fun result hresult ↦
      returns_some (hnext hresult hlt)
  have hcons : ∀ (character : UInt8) (rest : List UInt8), rest.length < (character :: rest).length :=
    fun _ _ ↦ Nat.lt_succ_self _
  unfold shellExpandTurn
  dsimp only
  cases word with
  | nil =>
      cases quotes with
      | none | single | double => exact returns_some hfinish
  | cons character rest =>
      have hrest := hcons character rest
      cases quotes with
      | none =>
          dsimp only
          refine Returns.ite (fun _ ↦ ?_) fun _ ↦ ?_
          · cases rest with
            | nil => exact returns_some hfinish
            | cons quoted more =>
                have hmore : more.length < (character :: quoted :: more).length :=
                  (hcons quoted more).trans hrest
                exact Returns.ite (fun _ ↦ returns_some (hcopy _ _ hmore))
                  fun _ ↦ returns_some ⟨hout, hmore⟩
          refine Returns.ite (fun _ ↦ returns_some ⟨hout, hrest⟩) fun _ ↦ ?_
          refine Returns.ite (fun _ ↦ returns_some ⟨hout, hrest⟩) fun _ ↦ ?_
          exact Returns.ite (fun _ ↦ hexpand _ hrest) fun _ ↦ returns_some (hcopy _ _ hrest)
      | single =>
          exact Returns.ite (fun _ ↦ returns_some ⟨hout, hrest⟩)
            fun _ ↦ returns_some (hcopy _ _ hrest)
      | double =>
          have htail : rest.tail.length < (character :: rest).length := by
            rw [List.length_tail]
            exact (Nat.sub_le _ _).trans_lt hrest
          refine Returns.ite (fun _ ↦ returns_some ⟨hout, hrest⟩) fun _ ↦ ?_
          refine Returns.ite (fun _ ↦ Returns.ite (fun _ ↦ returns_some (hcopy _ _ htail))
            fun _ ↦ returns_some ⟨hout, htail⟩) fun _ ↦ ?_
          exact Returns.ite (fun _ ↦ hexpand _ hrest) fun _ ↦ returns_some (hcopy _ _ hrest)

theorem returns_word (lookup : ShellLookup) (word : List UInt8) (capacity : ℕ)
    (table : ShellVariables)
    (h : min word.length (shellArithText + 1) + 1 + shellArithCalls ≤ calls) :
    Returns (shellExpandWord lookup calls word capacity table)
      fun result ↦ FitsIn capacity result.1 := by
  induction calls generalizing word capacity table with
  | zero => exact absurd h (by omega)
  | succ calls ih =>
      rw [shellExpandWord]
      refine Returns.ite (fun _ ↦ returns_some fun _ hresult ↦ nomatch hresult) fun hcapacity ↦ ?_
      refine returns_turnsOf (I := fun state ↦ state.expansion.out.length < capacity ∧
          state.expansion.word.length ≤ word.length)
        (m := fun state ↦ state.expansion.word.length) (fun state hstate ↦ ?_)
        ⟨Nat.pos_of_ne_zero hcapacity, le_rfl⟩ (Nat.lt_succ_self _)
      refine (returns_turn state hstate.1 fun rest table hrest ↦ ?_).mono fun result hresult ↦ ?_
      · refine returns_dollar table (by omega) hstate.1 fun inner table hinner hlength ↦ ?_
        refine ih inner (shellArithText + 1) table ?_
        have hshort := (hinner.trans hrest).trans_le hstate.2
        rw [min_eq_left (by omega)]
        omega
      · cases result with
        | inl result => exact hresult
        | inr next => exact ⟨⟨hresult.1, hresult.2.le.trans hstate.2⟩, hresult.2⟩

/-- Of any word the expansion ends with no more calls active at once than sixty-five times
the bound upon parentheses.  A parenthesis beyond that bound is refused where it stands, and
an expression that might need more calls is too long for a word to hold. -/
theorem shellExpandWord_calls (lookup : ShellLookup) (word : List UInt8) (capacity : ℕ)
    (table : ShellVariables) :
    (∃ result, shellExpandWord lookup (65 * shellArithDepthMaximum) word capacity table =
      some result) ∧
    (∀ expression evaluate arith opened, shellArithAccept arith "(" = (true, opened) →
      shellArithDepthMaximum ≤ opened.depth → ∃ fault,
        shellArithPrimary lookup expression evaluate arith =
          some (0, { opened with fault := some fault })) ∧
    (∀ expression table, shellArithmetic lookup (65 * shellArithDepthMaximum) expression table =
      none → shellArithText < expression.length) ∧
    ∀ expand calls rest out after, afterArithmetic 0 rest = some after →
      shellArithText < (shellArithInner (rest.take (rest.length - after.length))).length →
      ∃ refusal, shellExpandArithmetic lookup expand calls capacity rest out table =
        some (.error refusal, table) := by
  refine ⟨?_, ?_, ?_, ?_⟩
  · have hcalls : min word.length (shellArithText + 1) + 1 + shellArithCalls ≤
        65 * shellArithDepthMaximum :=
      (Nat.add_le_add_right (Nat.add_le_add_right (Nat.min_le_right _ _) _) _).trans (by decide)
    obtain ⟨result, hresult, -⟩ := returns_word lookup word capacity table hcalls
    exact ⟨result, hresult⟩
  · intro expression evaluate arith opened hopen hdepth
    refine ⟨opened.fault.getD "parentheses are nested too deeply", ?_⟩
    rw [shellArithPrimary, hopen]
    exact if_pos hdepth
  · intro expression table hnone
    by_contra hle
    have hcalls : 3 * expression.length + 3 ≤ 65 * shellArithDepthMaximum := by
      have hbound : 3 * shellArithText + 3 ≤ 65 * shellArithDepthMaximum := by decide
      omega
    obtain ⟨result, hresult, -⟩ := returns_arithmetic lookup hcalls table
    exact nomatch hnone.symm.trans hresult
  · intro expand calls rest out after hafter hlong
    rw [shellExpandArithmetic, hafter]
    dsimp only
    split
    · exact ⟨.split, rfl⟩
    · exact ⟨.long, rfl⟩

abbrev shellExpandCalls : ℕ := 65 * shellArithDepthMaximum

end OxysOS.Shell
