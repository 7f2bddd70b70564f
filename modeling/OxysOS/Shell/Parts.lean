import OxysOS.Shell.ExpandCalls

/-!
# The parts of a word

What a word is to the expansion, whatever the variables are: characters, parameters and
expressions, up to the first expansion that is refused for how it is written.  Expanding
the word is expanding its parts one after another.
-/

namespace OxysOS.Shell

open OxysOS.Library

inductive ShellPart
  | character (character : UInt8)
  | parameter (name : List UInt8)
  | arithmetic (inner : List UInt8)
  | refused (refusal : ShellRefusal)
  deriving DecidableEq

/-- The part that a `$` begins, by what follows it, and what follows the part. -/
def dollarPart (rest : List UInt8) : ShellPart × List UInt8 :=
  if rest.head? = some (byteOf '(') ∧ rest.tail.head? = some (byteOf '(') then
    match afterArithmetic 0 rest with
    | none => (.refused .unclosed, [])
    | some after =>
        let enclosed := rest.take (rest.length - after.length)
        if enclosed.dropLast.getLast? ≠ some (byteOf ')') then (.refused .split, [])
        else if (shellArithInner enclosed).length > shellArithText then (.refused .long, [])
        else (.arithmetic (shellArithInner enclosed), after)
  else
    let isNameCharacter := fun character ↦ shellArithIsNameStart character || shellArithIsDigit character
    match rest with
    | [] => (.character (byteOf '$'), [])
    | first :: more =>
        if first = byteOf '\x7b' then
          let name := more.takeWhile (· ≠ byteOf '\x7d')
          if name.length > shellNameMaximum then (.refused .name, [])
          else if name.length = more.length then (.character (byteOf '$'), rest)
          else (.parameter name, more.drop (name.length + 1))
        else if first = byteOf '?' then (.parameter [byteOf '?'], more)
        else if shellArithIsNameStart first then
          let name := rest.takeWhile isNameCharacter
          if name.length > shellNameMaximum then (.refused .name, [])
          else (.parameter name, rest.drop name.length)
        else (.character (byteOf '$'), rest)

theorem dollarPart_length (rest : List UInt8) : (dollarPart rest).2.length ≤ rest.length := by
  have hite : ∀ {c : Prop} [Decidable c] {p q : ShellPart × List UInt8},
      p.2.length ≤ rest.length → q.2.length ≤ rest.length →
      (if c then p else q).2.length ≤ rest.length := by
    intro c _ p q hp hq
    split
    · exact hp
    · exact hq
  have hnone : ([] : List UInt8).length ≤ rest.length := Nat.zero_le _
  unfold dollarPart
  refine hite ?_ ?_
  · split
    · exact hnone
    · next after hafter =>
      exact hite hnone (hite hnone (afterArithmetic_suffix hafter).length_le)
  · dsimp only
    split
    · exact hnone
    · next first more =>
      have hmore : more.length ≤ (first :: more).length := Nat.le_succ _
      refine hite (hite hnone (hite le_rfl ((List.drop_suffix _ _).length_le.trans hmore))) ?_
      exact hite hmore (hite (hite hnone (List.drop_suffix _ _).length_le) le_rfl)

def shellParts (quotes : Quotes) (word : List UInt8) : List ShellPart :=
  match quotes, word with
  | _, [] => []
  | .none, character :: rest =>
      if character = byteOf '\\' then
        match rest with
        | [] => []
        | quoted :: more =>
            if quoted ≠ byteOf '\n' then .character quoted :: shellParts .none more
            else shellParts .none more
      else if character = byteOf '\'' then shellParts .single rest
      else if character = byteOf '"' then shellParts .double rest
      else if character = byteOf '$' then
        (dollarPart rest).1 :: shellParts .none (dollarPart rest).2
      else .character character :: shellParts .none rest
  | .single, character :: rest =>
      if character = byteOf '\'' then shellParts .none rest
      else .character character :: shellParts .single rest
  | .double, character :: rest =>
      if character = byteOf '"' then shellParts .none rest
      else if character = byteOf '\\' ∧ rest.head?.any shellEscapes then
        if rest.headD 0 ≠ byteOf '\n' then
          .character (rest.headD 0) :: shellParts .double rest.tail
        else shellParts .double rest.tail
      else if character = byteOf '$' then
        (dollarPart rest).1 :: shellParts .double (dollarPart rest).2
      else .character character :: shellParts .double rest
  termination_by word.length
  decreasing_by
    all_goals
      simp only [List.length_cons, List.length_tail]
      first
        | omega
        | exact Nat.lt_succ_of_le (dollarPart_length _)

theorem dollarPart_arithmetic {rest inner : List UInt8}
    (h : (dollarPart rest).1 = .arithmetic inner) :
    inner.length ≤ shellArithText ∧ inner.length < rest.length := by
  unfold dollarPart at h
  split at h
  · next hopens =>
    split at h
    · cases h
    · dsimp only at h
      split at h
      · cases h
      split at h
      · cases h
      · next hlong =>
        cases h
        exact ⟨not_lt.mp hlong, length_shellArithInner _ hopens.1⟩
  · dsimp only at h
    split at h
    · cases h
    · split_ifs at h

theorem mem_shellParts {part : ShellPart} {quotes : Quotes} {word : List UInt8}
    (h : part ∈ shellParts quotes word) :
    (∃ character, part = .character character) ∨
      ∃ rest, part = (dollarPart rest).1 ∧ rest.length < word.length := by
  have hmore : ∀ {rest : List UInt8} {length : ℕ},
      ((∃ character, part = .character character) ∨
        ∃ others, part = (dollarPart others).1 ∧ others.length < rest.length) →
      rest.length ≤ length → (∃ character, part = .character character) ∨
        ∃ others, part = (dollarPart others).1 ∧ others.length < length :=
    fun hrest hle ↦ hrest.imp_right fun ⟨others, hpart, hlt⟩ ↦ ⟨others, hpart, hlt.trans_le hle⟩
  have hcharacter : ∀ {character : UInt8} {rest : List UInt8} {quotes' : Quotes} {length : ℕ},
      part ∈ ShellPart.character character :: shellParts quotes' rest →
      (part ∈ shellParts quotes' rest → (∃ character, part = .character character) ∨
        ∃ others, part = (dollarPart others).1 ∧ others.length < rest.length) →
      rest.length ≤ length → (∃ character, part = .character character) ∨
        ∃ others, part = (dollarPart others).1 ∧ others.length < length := by
    intro character rest quotes' length hmem ih hle
    rcases List.mem_cons.mp hmem with hpart | hmem
    · exact Or.inl ⟨character, hpart⟩
    · exact hmore (ih hmem) hle
  have hdollar : ∀ {rest : List UInt8} {quotes' : Quotes},
      part ∈ (dollarPart rest).1 :: shellParts quotes' (dollarPart rest).2 →
      (part ∈ shellParts quotes' (dollarPart rest).2 → (∃ character, part = .character character) ∨
        ∃ others, part = (dollarPart others).1 ∧ others.length < (dollarPart rest).2.length) →
      (∃ character, part = .character character) ∨
        ∃ others, part = (dollarPart others).1 ∧ others.length < rest.length + 1 := by
    intro rest quotes' hmem ih
    rcases List.mem_cons.mp hmem with hpart | hmem
    · exact Or.inr ⟨rest, hpart, Nat.lt_succ_self _⟩
    · exact hmore (ih hmem) ((dollarPart_length rest).trans (Nat.le_succ _))
  fun_induction shellParts quotes word with
  | case1 => cases h
  | case2 => cases h
  | case3 quoted more _ ih => exact hcharacter h ih (by simp only [List.length_cons]; omega)
  | case4 quoted more _ ih => exact hmore (ih h) (by simp only [List.length_cons]; omega)
  | case5 rest _ ih => exact hmore (ih h) (Nat.le_succ _)
  | case6 rest _ _ ih => exact hmore (ih h) (Nat.le_succ _)
  | case7 rest _ _ _ ih => exact hdollar h ih
  | case8 character rest _ _ _ _ ih => exact hcharacter h ih (Nat.le_succ _)
  | case9 rest ih => exact hmore (ih h) (Nat.le_succ _)
  | case10 character rest _ ih => exact hcharacter h ih (Nat.le_succ _)
  | case11 rest ih => exact hmore (ih h) (Nat.le_succ _)
  | case12 character rest _ _ _ ih =>
      exact hcharacter h ih (by simp only [List.length_cons, List.length_tail]; omega)
  | case13 character rest _ _ _ ih =>
      exact hmore (ih h) (by simp only [List.length_cons, List.length_tail]; omega)
  | case14 rest _ _ ih => exact hdollar h ih
  | case15 character rest _ _ _ ih => exact hcharacter h ih (Nat.le_succ _)

def partValue (lookup : ShellLookup) (calls : ℕ) (part : ShellPart) (table : ShellVariables) :
    Option (Expanded (List UInt8)) :=
  match part with
  | .character character => some (.ok [character], table)
  | .parameter name => some (.ok ((lookup table name).getD []), table)
  | .refused refusal => some (.error refusal, table)
  | .arithmetic inner => do
      let (expanded, table) ← shellExpandWord lookup calls inner (shellArithText + 1) table
      match expanded with
      | .error refusal => some (.error refusal, table)
      | .ok expression =>
          let (value, table) ← shellArithmetic lookup calls expression table
          match value with
          | .error fault => some (.error (.arithmetic fault), table)
          | .ok value => some (.ok (shellDecimal value), table)

def expandParts (lookup : ShellLookup) (calls : ℕ)
    (put : List UInt8 → List UInt8 → Except ShellRefusal (List UInt8)) (out : List UInt8) :
    List ShellPart → ShellVariables → Option (Expanded (List UInt8))
  | [], table => some (.ok out, table)
  | part :: parts, table => do
      let (value, table) ← partValue lookup calls part table
      match value with
      | .error refusal => some (.error refusal, table)
      | .ok string =>
          match put out string with
          | .error refusal => some (.error refusal, table)
          | .ok out => expandParts lookup calls put out parts table

variable {lookup : ShellLookup} {calls capacity : ℕ} {out rest : List UInt8}
  {table : ShellVariables}

theorem shellExpandDollar_eq (lookup : ShellLookup) (calls capacity : ℕ) (rest out : List UInt8)
    (table : ShellVariables) :
    shellExpandDollar lookup (shellExpandWord lookup calls) calls capacity rest out table = (do
      let (value, table) ← partValue lookup calls (dollarPart rest).1 table
      match value with
      | .error refusal => some (.error refusal, table)
      | .ok string => some (shellExpandWith capacity out string (dollarPart rest).2, table)) := by
  unfold shellExpandDollar dollarPart
  split
  · unfold shellExpandArithmetic
    cases afterArithmetic 0 rest with
    | none => rfl
    | some after =>
        dsimp only
        split_ifs
        · rfl
        · rfl
        unfold partValue
        dsimp only
        generalize shellExpandWord lookup calls (shellArithInner
          (rest.take (rest.length - after.length))) (shellArithText + 1) table = result
        cases result with
        | none => rfl
        | some result =>
            obtain ⟨expanded, table'⟩ := result
            cases expanded with
            | error refusal => rfl
            | ok expression =>
                dsimp only [Option.bind_eq_bind, Option.bind_some]
                generalize shellArithmetic lookup calls expression table' = result
                cases result with
                | none => rfl
                | some result =>
                    obtain ⟨value, table''⟩ := result
                    cases value with
                    | error | ok => rfl
  · unfold shellExpandParameter
    cases rest with
    | nil => rfl
    | cons first more =>
        dsimp only
        split_ifs <;> rfl

theorem turnsOf_shellExpandTurn (quotes : Quotes) (word : List UInt8) (out : List UInt8)
    (table : ShellVariables) {turns : ℕ} (hturns : word.length < turns) :
    turnsOf (shellExpandTurn capacity
        (shellExpandDollar lookup (shellExpandWord lookup calls) calls capacity)) turns
        ⟨quotes, ⟨word, out⟩, table⟩ =
      expandParts lookup calls (shellExpandPutString capacity) out (shellParts quotes word) table := by
  induction turns generalizing quotes word out table with
  | zero => exact absurd hturns (Nat.not_lt_zero _)
  | succ turns ih =>
      have hrest : ∀ {rest : List UInt8}, rest.length < word.length → rest.length < turns :=
        fun hlt ↦ hlt.trans_le (Nat.le_of_lt_succ hturns)
      have hcopy : ∀ quotes character {rest : List UInt8}, rest.length < word.length →
          Sum.elim some (turnsOf (shellExpandTurn capacity
              (shellExpandDollar lookup (shellExpandWord lookup calls) calls capacity)) turns)
            (shellExpandNext quotes table (shellExpandWith capacity out [character] rest)) =
          expandParts lookup calls (shellExpandPutString capacity) out
            (.character character :: shellParts quotes rest) table := by
        intro quotes character rest hlt
        rw [expandParts, shellExpandWith]
        dsimp only [partValue, Option.bind_eq_bind, Option.bind_some]
        cases shellExpandPutString capacity out [character] with
        | error refusal => rfl
        | ok out' => exact ih quotes rest out' table (hrest hlt)
      have hdollar : ∀ quotes {rest : List UInt8}, rest.length < word.length →
          ((shellExpandDollar lookup (shellExpandWord lookup calls) calls capacity rest out
            table).bind fun result ↦ some (shellExpandNext quotes result.2 result.1)).bind
              (Sum.elim some (turnsOf (shellExpandTurn capacity
                (shellExpandDollar lookup (shellExpandWord lookup calls) calls capacity)) turns)) =
          expandParts lookup calls (shellExpandPutString capacity) out
            ((dollarPart rest).1 :: shellParts quotes (dollarPart rest).2) table := by
        intro quotes rest hlt
        rw [expandParts, shellExpandDollar_eq]
        cases partValue lookup calls (dollarPart rest).1 table with
        | none => rfl
        | some result =>
            obtain ⟨value, table'⟩ := result
            cases value with
            | error refusal => rfl
            | ok string =>
                dsimp only [Option.bind_eq_bind, Option.bind_some]
                rw [shellExpandWith]
                cases shellExpandPutString capacity out string with
                | error refusal => rfl
                | ok out' =>
                    exact ih quotes _ out' table' (hrest ((dollarPart_length rest).trans_lt hlt))
      rw [turnsOf_succ, shellExpandTurn, shellParts.eq_def]
      dsimp only
      cases word with
      | nil => cases quotes <;> rfl
      | cons character others =>
          have hothers : others.length < (character :: others).length := Nat.lt_succ_self _
          cases quotes with
          | none =>
              dsimp only
              by_cases hescape : character = byteOf '\\'
              · rw [if_pos hescape, if_pos hescape]
                cases others with
                | nil => rfl
                | cons quoted more =>
                    have hmore : more.length < (character :: quoted :: more).length :=
                      (Nat.lt_succ_self _).trans hothers
                    dsimp only
                    by_cases hline : quoted ≠ byteOf '\n'
                    · rw [if_pos hline, if_pos hline]
                      exact hcopy .none quoted hmore
                    · rw [if_neg hline, if_neg hline]
                      exact ih .none more out table (hrest hmore)
              rw [if_neg hescape, if_neg hescape]
              by_cases hsingle : character = byteOf '\''
              · rw [if_pos hsingle, if_pos hsingle]
                exact ih .single others out table (hrest hothers)
              rw [if_neg hsingle, if_neg hsingle]
              by_cases hdouble : character = byteOf '"'
              · rw [if_pos hdouble, if_pos hdouble]
                exact ih .double others out table (hrest hothers)
              rw [if_neg hdouble, if_neg hdouble]
              by_cases hexpands : character = byteOf '$'
              · rw [if_pos hexpands, if_pos hexpands]
                exact hdollar .none hothers
              rw [if_neg hexpands, if_neg hexpands]
              exact hcopy .none character hothers
          | single =>
              dsimp only
              by_cases hsingle : character = byteOf '\''
              · rw [if_pos hsingle, if_pos hsingle]
                exact ih .none others out table (hrest hothers)
              rw [if_neg hsingle, if_neg hsingle]
              exact hcopy .single character hothers
          | double =>
              have htail : others.tail.length < (character :: others).length := by
                rw [List.length_tail]
                exact (Nat.sub_le _ _).trans_lt hothers
              dsimp only
              by_cases hdouble : character = byteOf '"'
              · rw [if_pos hdouble, if_pos hdouble]
                exact ih .none others out table (hrest hothers)
              rw [if_neg hdouble, if_neg hdouble]
              by_cases hescape : character = byteOf '\\' ∧ others.head?.any shellEscapes
              · rw [if_pos hescape, if_pos hescape]
                by_cases hline : others.headD 0 ≠ byteOf '\n'
                · rw [if_pos hline, if_pos hline]
                  exact hcopy .double _ htail
                · rw [if_neg hline, if_neg hline]
                  exact ih .double others.tail out table (hrest htail)
              rw [if_neg hescape, if_neg hescape]
              by_cases hexpands : character = byteOf '$'
              · rw [if_pos hexpands, if_pos hexpands]
                exact hdollar .double hothers
              rw [if_neg hexpands, if_neg hexpands]
              exact hcopy .double character hothers

theorem shellExpandWord_parts (lookup : ShellLookup) (calls : ℕ) (word : List UInt8)
    {capacity : ℕ} (hcapacity : capacity ≠ 0) (table : ShellVariables) :
    shellExpandWord lookup (calls + 1) word capacity table =
      expandParts lookup calls (shellExpandPutString capacity) [] (shellParts .none word) table := by
  rw [shellExpandWord, if_neg hcapacity]
  exact turnsOf_shellExpandTurn .none word [] table (Nat.lt_succ_self _)

end OxysOS.Shell
