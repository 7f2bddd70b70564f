import OxysOS.Shell.Scraps

/-!
# Comments

A token ends where it ends whatever is changed after it, as long as what stands there
begins alike.  So the scraps of a text without its comments are its scraps but for them,
and those of a text before another line are its own.
-/

namespace OxysOS.Shell

open OxysOS.Library

variable {text rest after after' : List UInt8} {character : UInt8} {kind : ShellTokenKind}
  {length : ℕ}

structure Alike (after after' : List UInt8) : Prop where
  head : after'.head? = after.head? ∨
    after.head? ∈ [none, some (byteOf '#'), some (byteOf '\n')] ∧
      after'.head? ∈ [none, some (byteOf '\n')]
  opens : after'.head? = some (byteOf '(') → after'.tail.head? = some (byteOf '(') →
    after.tail.head? = some (byteOf '(')

def operatorSeconds : List UInt8 := "&|;<>".toList.map byteOf

theorem shellReadOperator_double {third third' : UInt8} (h : third ≠ byteOf '-')
    (h' : third' ≠ byteOf '-') (first second : UInt8) :
    shellReadOperator first second third = shellReadOperator first second third' := by
  simp only [shellReadOperator, h, h', and_false, if_false]

theorem ite_reads_of {P : ShellTokenKind × ℕ → Prop} {c : Prop} [Decidable c]
    {p q : ShellTokenKind × ℕ} (hp : c → P p) (hq : P q) : P (if c then p else q) := by
  by_cases hc : c
  · rw [if_pos hc]
    exact hp hc
  · rwa [if_neg hc]

theorem shellReadOperator_length (first second third : UInt8) :
    ((shellReadOperator first second third).2 = 1 ∧
        ¬(first = byteOf '<' ∧ second = byteOf '<')) ∨
      ((shellReadOperator first second third).2 = 2 ∧ second ∈ operatorSeconds ∧
        (first = byteOf '<' ∧ second = byteOf '<' → third ≠ byteOf '-')) ∨
      (shellReadOperator first second third).2 = 3 ∧ second = byteOf '<' ∧
        third = byteOf '-' := by
  by_cases hdouble : first = byteOf '<' ∧ second = byteOf '<'
  · obtain ⟨rfl, rfl⟩ := hdouble
    by_cases hdash : third = byteOf '-'
    · subst hdash
      exact Or.inr (Or.inr ⟨by decide, rfl, rfl⟩)
    · have hzero : (0 : UInt8) ≠ byteOf '-' := by decide
      rw [shellReadOperator_double hdash hzero]
      exact Or.inr (Or.inl ⟨by decide, by decide, fun _ ↦ hdash⟩)
  · have hbracket : ¬(first = byteOf '<' ∧ second = byteOf '<' ∧ third = byteOf '-') := fun hset ↦
      hdouble ⟨hset.1, hset.2.1⟩
    have htwo : ∀ {kind mark}, mark ∈ operatorSeconds → second = mark →
        ((kind, 2) : ShellTokenKind × ℕ).2 = 2 ∧ second ∈ operatorSeconds :=
      fun hmem heq ↦ ⟨rfl, heq ▸ hmem⟩
    suffices (shellReadOperator first second third).2 = 1 ∨
        ((shellReadOperator first second third).2 = 2 ∧ second ∈ operatorSeconds) from
      this.imp (fun h ↦ ⟨h, hdouble⟩) fun h ↦ Or.inl ⟨h.1, h.2, fun hset ↦ absurd hset hdouble⟩
    unfold shellReadOperator
    rw [if_neg hbracket, if_neg hdouble]
    let P : ShellTokenKind × ℕ → Prop := fun read ↦
      read.2 = 1 ∨ (read.2 = 2 ∧ second ∈ operatorSeconds)
    have hone : ∀ kind, P (kind, 1) := fun _ ↦ Or.inl rfl
    refine ite_reads_of (P := P) (fun h ↦ Or.inr (htwo (by decide) h.2)) ?_
    refine ite_reads_of (P := P) (fun h ↦ Or.inr (htwo (by decide) h.2)) ?_
    refine ite_reads_of (P := P) (fun h ↦ Or.inr (htwo (by decide) h.2)) ?_
    refine ite_reads_of (P := P) (fun h ↦ Or.inr (htwo (by decide) h.2)) ?_
    refine ite_reads_of (P := P) (fun h ↦ Or.inr (htwo (by decide) h.2)) ?_
    refine ite_reads_of (P := P) (fun h ↦ Or.inr (htwo (by decide) h.2)) ?_
    refine ite_reads_of (P := P) (fun h ↦ Or.inr (htwo (by decide) h.2)) ?_
    refine ite_reads_of (P := P) (fun h ↦ Or.inr (htwo (by decide) h.2)) ?_
    repeat refine ite_reads_of (P := P) (fun _ ↦ hone _) ?_
    exact hone _

theorem shellReadOperator_third {first second : UInt8}
    (h : ¬(first = byteOf '<' ∧ second = byteOf '<')) (third third' : UInt8) :
    shellReadOperator first second third = shellReadOperator first second third' := by
  have hnot : ∀ t : UInt8, ¬(first = byteOf '<' ∧ second = byteOf '<' ∧ t = byteOf '-') :=
    fun t hset ↦ h ⟨hset.1, hset.2.1⟩
  simp only [shellReadOperator, hnot, if_false]

theorem shellReadOperator_second {second second' : UInt8} (h : second ∉ operatorSeconds)
    (h' : second' ∉ operatorSeconds) (first third third' : UInt8) :
    shellReadOperator first second third = shellReadOperator first second' third' := by
  have hnot : ∀ mark ∈ operatorSeconds, second ≠ mark ∧ second' ≠ mark := fun mark hmem ↦
    ⟨fun heq ↦ h (heq ▸ hmem), fun heq ↦ h' (heq ▸ hmem)⟩
  simp only [shellReadOperator, hnot (byteOf '&') (by decide), hnot (byteOf '|') (by decide),
    hnot (byteOf ';') (by decide), hnot (byteOf '<') (by decide), hnot (byteOf '>') (by decide),
    and_false, false_and, if_false]

/-! A quotation and an expansion are closed where they are closed. -/

theorem afterSingle_split (h : afterSingle text = some after) :
    ∃ quoted, text = quoted ++ after ∧ ∀ more, afterSingle (quoted ++ more) = some more := by
  induction text with
  | nil => cases h
  | cons character rest ih =>
      rw [afterSingle] at h
      split at h
      · next hclose =>
        cases h
        exact ⟨[character], rfl, fun more ↦ if_pos hclose⟩
      · next hclose =>
        obtain ⟨quoted, hrest, hmore⟩ := ih h
        exact ⟨character :: quoted, congrArg _ hrest, fun more ↦ (if_neg hclose).trans (hmore more)⟩

theorem afterDouble_split (h : afterDouble text = some after) :
    ∃ quoted, text = quoted ++ after ∧ ∀ more, afterDouble (quoted ++ more) = some more := by
  fun_induction afterDouble text with
  | case1 => cases h
  | case2 rest =>
      cases h
      exact ⟨[byteOf '"'], rfl, fun more ↦ by
        rw [List.singleton_append, afterDouble.eq_def]
        exact if_pos rfl⟩
  | case3 => cases h
  | case4 inner hclose escaped rest hescaped ih =>
      obtain ⟨quoted, hrest, hmore⟩ := ih h
      refine ⟨inner :: escaped :: quoted, congrArg (inner :: escaped :: ·) hrest, fun more ↦ ?_⟩
      rw [List.cons_append, List.cons_append, afterDouble, if_neg hclose, if_pos hescaped]
      exact hmore more
  | case5 inner hclose escaped rest hescaped ih =>
      obtain ⟨quoted, hrest, hmore⟩ := ih h
      cases quoted with
      | nil => exact absurd (hmore []) (by simp [afterDouble.eq_def])
      | cons first quoted =>
          cases hrest
          refine ⟨inner :: escaped :: quoted, rfl, fun more ↦ ?_⟩
          rw [List.cons_append, List.cons_append, afterDouble, if_neg hclose, if_neg hescaped]
          exact hmore more

theorem afterArithmetic_split {depth : ℕ} (h : afterArithmetic depth text = some after) :
    ∃ inner, text = inner ++ after ∧ ∀ more, afterArithmetic depth (inner ++ more) = some more := by
  induction text generalizing depth with
  | nil => cases h
  | cons character rest ih =>
      rw [afterArithmetic] at h
      split at h
      · next hopen =>
        obtain ⟨inner, hrest, hmore⟩ := ih h
        exact ⟨character :: inner, congrArg _ hrest, fun more ↦
          (if_pos hopen).trans (hmore more)⟩
      · next hopen =>
        split at h
        · next hclose =>
          split at h
          · next hlast =>
            cases h
            exact ⟨[character], rfl, fun more ↦
              (if_neg hopen).trans ((if_pos hclose).trans (if_pos hlast))⟩
          · next hlast =>
            obtain ⟨inner, hrest, hmore⟩ := ih h
            exact ⟨character :: inner, congrArg _ hrest, fun more ↦
              (if_neg hopen).trans ((if_pos hclose).trans ((if_neg hlast).trans (hmore more)))⟩
        · next hclose =>
          obtain ⟨inner, hrest, hmore⟩ := ih h
          exact ⟨character :: inner, congrArg _ hrest, fun more ↦
            (if_neg hopen).trans ((if_neg hclose).trans (hmore more))⟩

def Delimits (after : List UInt8) : Prop := ∀ character ∈ after.head?, shellEndsWord character

theorem shellEndsWord_plain (h : shellEndsWord character) : character ≠ byteOf '\\' ∧
    character ≠ byteOf '\'' ∧ character ≠ byteOf '"' ∧ character ≠ byteOf '$' := by
  have hnone : ∀ mark ∈ [byteOf '\\', byteOf '\'', byteOf '"', byteOf '$'], ¬shellEndsWord mark :=
    List.all_iff_forall_prop.mp (by decide)
  refine ⟨?_, ?_, ?_, ?_⟩ <;>
    (rintro rfl; exact hnone _ (by decide) h)

theorem shellWordExtent_delimits (h : Delimits after) : shellWordExtent after = some after := by
  cases after with
  | nil => rw [shellWordExtent]
  | cons character rest =>
      have hends := h character rfl
      obtain ⟨hescape, hsingle, hdouble, hexpansion⟩ := shellEndsWord_plain hends
      rw [shellWordExtent.eq_def]
      dsimp only
      rw [if_neg hescape, if_neg hsingle, if_neg hdouble,
        if_neg fun hset ↦ hexpansion hset.1, if_pos hends]

theorem delimits_of_shellWordExtent (h : shellWordExtent text = some after) : Delimits after := by
  fun_induction shellWordExtent text with
  | case1 =>
      cases h
      intro _ hmem
      cases hmem
  | case2 => cases h
  | case3 _ _ ih => exact ih h
  | case4 => cases h
  | case5 _ _ _ _ ih => exact ih h
  | case6 => cases h
  | case7 _ _ _ _ _ ih => exact ih h
  | case8 => cases h
  | case9 _ _ _ _ _ _ _ _ ih => exact ih h
  | case10 character rest _ _ _ _ hends =>
      cases h
      exact fun _ hmem ↦ Option.some.inj hmem ▸ hends
  | case11 _ _ _ _ _ _ _ ih => exact ih h

theorem shellWordExtent_split (h : shellWordExtent text = some after) :
    ∃ word, text = word ++ after ∧ ∀ after', Alike after after' → Delimits after' →
      shellWordExtent (word ++ after') = some after' := by
  fun_induction shellWordExtent text with
  | case1 =>
      cases h
      exact ⟨[], rfl, fun _ _ hends ↦ shellWordExtent_delimits hends⟩
  | case2 => cases h
  | case3 quoted rest ih =>
      obtain ⟨word, hrest, hword⟩ := ih h
      refine ⟨byteOf '\\' :: quoted :: word, congrArg (byteOf '\\' :: quoted :: ·) hrest,
        fun after' halike hends ↦ ?_⟩
      rw [List.cons_append, List.cons_append, shellWordExtent.eq_def]
      dsimp only
      rw [if_pos rfl]
      exact hword after' halike hends
  | case4 => cases h
  | case5 rest more hclosed hescape ih =>
      obtain ⟨word, rfl, hword⟩ := ih h
      obtain ⟨quoted, rfl, hquoted⟩ := afterSingle_split hclosed
      refine ⟨byteOf '\'' :: (quoted ++ word), by simp, fun after' halike hends ↦ ?_⟩
      rw [List.cons_append, List.append_assoc, shellWordExtent.eq_def]
      dsimp only
      rw [if_neg hescape, if_pos rfl]
      split
      · next hnone => cases hnone.symm.trans (hquoted _)
      · next hsome =>
        cases hsome.symm.trans (hquoted _)
        exact hword after' halike hends
  | case6 => cases h
  | case7 rest more hclosed hescape hsingle ih =>
      obtain ⟨word, rfl, hword⟩ := ih h
      obtain ⟨quoted, rfl, hquoted⟩ := afterDouble_split hclosed
      refine ⟨byteOf '"' :: (quoted ++ word), by simp, fun after' halike hends ↦ ?_⟩
      rw [List.cons_append, List.append_assoc, shellWordExtent.eq_def]
      dsimp only
      rw [if_neg hescape, if_neg hsingle, if_pos rfl]
      split
      · next hnone => cases hnone.symm.trans (hquoted _)
      · next hsome =>
        cases hsome.symm.trans (hquoted _)
        exact hword after' halike hends
  | case8 => cases h
  | case9 character rest hescape hsingle hdouble harithmetic more hclosed ih =>
      obtain ⟨word, rfl, hword⟩ := ih h
      obtain ⟨inner, rfl, hinner⟩ := afterArithmetic_split hclosed
      -- both parentheses that open the expansion are within it
      obtain ⟨first, second, inner, rfl⟩ : ∃ first second others, inner = first :: second :: others := by
        rcases inner with _ | ⟨first, _ | ⟨second, inner⟩⟩
        · exact absurd (hinner []) (by simp [afterArithmetic])
        · have hfirst := Option.some.inj harithmetic.2.1
          exact absurd (hinner []) (by simp [afterArithmetic, hfirst])
        · exact ⟨first, second, inner, rfl⟩
      refine ⟨character :: (first :: second :: inner ++ word), by simp,
        fun after' halike hends ↦ ?_⟩
      rw [List.cons_append, List.append_assoc, shellWordExtent.eq_def]
      dsimp only
      rw [if_neg hescape, if_neg hsingle, if_neg hdouble, if_pos ⟨harithmetic.1, harithmetic.2⟩]
      split
      · next hnone => cases hnone.symm.trans (hinner _)
      · next hsome =>
        cases hsome.symm.trans (hinner _)
        exact hword after' halike hends
  | case10 character rest hescape hsingle hdouble harithmetic hstop =>
      cases h
      exact ⟨[], rfl, fun _ _ hends ↦ shellWordExtent_delimits hends⟩
  | case11 character rest hescape hsingle hdouble harithmetic hstop ih =>
      have hdelimits := delimits_of_shellWordExtent h
      obtain ⟨word, rfl, hword⟩ := ih h
      refine ⟨character :: word, rfl, fun after' halike hends ↦ ?_⟩
      have hplain : ¬(character = byteOf '$' ∧ (word ++ after').head? = some (byteOf '(') ∧
          (word ++ after').tail.head? = some (byteOf '(')) := by
        rintro ⟨hdollar, hfirst, hsecond⟩
        refine harithmetic ⟨hdollar, ?_⟩
        cases word with
        | nil =>
            have hhead : after.head? = some (byteOf '(') := by
              rcases halike.head with heq | ⟨-, hmem⟩
              · exact heq.symm.trans hfirst
              · rw [List.nil_append] at hfirst
                rw [hfirst] at hmem
                exact absurd hmem (by decide)
            exact ⟨hhead, halike.opens hfirst hsecond⟩
        | cons first word =>
            -- a parenthesis would end the word
            have hends : Delimits (first :: word ++ after) := by
              intro found hfound
              cases hfirst
              cases hfound
              decide
            have hlength := congrArg List.length
              (Option.some.inj ((shellWordExtent_delimits hends).symm.trans h))
            rw [List.length_append, List.length_cons] at hlength
            omega
      rw [List.cons_append, shellWordExtent.eq_def]
      dsimp only
      rw [if_neg hescape, if_neg hsingle, if_neg hdouble, if_neg hplain, if_neg hstop]
      exact hword after' halike hends

theorem shellReadOperator_alike {first : UInt8}
    (h : shellReadOperator first (rest.headD 0) (rest.tail.headD 0) = (kind, length))
    (halike : Alike ((first :: rest).drop length) after') :
    ∃ others, rest = others ++ (first :: rest).drop length ∧ length = others.length + 1 ∧
      shellReadOperator first ((others ++ after').headD 0) ((others ++ after').tail.headD 0) =
        (kind, length) := by
  have hzero : (0 : UInt8) ∉ operatorSeconds ∧ (0 : UInt8) ≠ byteOf '-' := by decide
  have hmark : ∀ {found : List UInt8}, found.head? ∈ [none, some (byteOf '#'), some (byteOf '\n')] →
      found.headD 0 ∉ operatorSeconds ∧ found.headD 0 ≠ byteOf '-' := by
    intro found hmem
    rw [List.headD_eq_head?_getD]
    simp only [List.mem_cons, List.not_mem_nil, or_false] at hmem
    rcases hmem with heq | heq | heq <;> rw [heq] <;> decide
  have hhead : ∀ {found : List UInt8}, Alike found after' → after'.headD 0 = found.headD 0 ∨
      (found.headD 0 ∉ operatorSeconds ∧ found.headD 0 ≠ byteOf '-') ∧
        after'.headD 0 ∉ operatorSeconds ∧ after'.headD 0 ≠ byteOf '-' := by
    intro found halike
    rcases halike.head with heq | ⟨hbefore, hafter⟩
    · simp only [List.headD_eq_head?_getD, heq, true_or]
    · refine Or.inr ⟨hmark hbefore, hmark ?_⟩
      simp only [List.mem_cons, List.not_mem_nil, or_false] at hafter ⊢
      exact hafter.imp_right Or.inr
  have hlength := shellReadOperator_length first (rest.headD 0) (rest.tail.headD 0)
  rw [h] at hlength
  rcases hlength with ⟨rfl, hsingle⟩ | ⟨rfl, hsecond, hthird⟩ | ⟨rfl, hsecond, hthird⟩
  · refine ⟨[], rfl, rfl, ?_⟩
    rw [← h]
    rcases hhead halike with heq | ⟨hbefore, hafter⟩
    · rw [List.nil_append, heq]
      exact shellReadOperator_third hsingle _ _
    · exact shellReadOperator_second hafter.1 hbefore.1 _ _ _
  · cases rest with
    | nil => exact absurd hsecond hzero.1
    | cons second rest =>
        refine ⟨[second], rfl, rfl, ?_⟩
        rw [← h]
        by_cases hdouble : first = byteOf '<' ∧ second = byteOf '<'
        · rcases hhead halike with heq | ⟨hbefore, hafter⟩
          · exact congrArg (shellReadOperator first second) heq
          · exact shellReadOperator_double hafter.2 hbefore.2 _ _
        · exact shellReadOperator_third hdouble _ _
  · rcases rest with _ | ⟨second, _ | ⟨third, rest⟩⟩
    · exact absurd hthird hzero.2
    · exact absurd hthird hzero.2
    · exact ⟨[second, third], rfl, rfl, h⟩

theorem not_digit_of_endsWord (h : shellEndsWord character) : ¬shellIsDigit character := fun hset ↦
  not_endsWord_of_token (digit_ordinary hset).1 (digit_ordinary hset).2.2 h

theorem Alike.delimits (h : Alike after after') (hends : Delimits after) : Delimits after' := by
  intro character hmem
  rcases h.head with heq | ⟨-, hline⟩
  · exact hends character (heq ▸ hmem)
  · have hcases : after'.head? = none ∨ after'.head? = some (byteOf '\n') := by
      simpa only [List.mem_cons, List.not_mem_nil, or_false] using hline
    rcases hcases with hnone | hsome
    · rw [hnone] at hmem
      cases hmem
    · rw [hsome] at hmem
      cases hmem
      decide

theorem Alike.head_eq (h : Alike after after') {mark : UInt8} (hmark : mark ≠ byteOf '\n')
    (hmark' : mark ≠ byteOf '#') : after'.head? = some mark ↔ after.head? = some mark := by
  rcases h.head with heq | ⟨hbefore, hafter⟩
  · rw [heq]
  · simp only [List.mem_cons, List.not_mem_nil, or_false] at hbefore hafter
    rcases hbefore with hb | hb | hb <;> rcases hafter with ha | ha <;>
      simp [hb, ha, hmark.symm, hmark'.symm]

theorem takeWhile_of_delimits {digits : List UInt8} (hdigits : ∀ digit ∈ digits, shellIsDigit digit)
    (hends : Delimits after) : (digits ++ after).takeWhile shellIsDigit = digits ∧
      (digits ++ after).dropWhile shellIsDigit = after := by
  rw [List.takeWhile_append_of_pos hdigits, List.dropWhile_append_of_pos hdigits]
  cases after with
  | nil => simp
  | cons character rest =>
      have hnot := not_digit_of_endsWord (hends character rfl)
      rw [List.takeWhile_cons_of_neg hnot, List.dropWhile_cons_of_neg hnot, List.append_nil]
      exact ⟨rfl, rfl⟩

theorem numbered_alike {word : List UInt8} (hword : word ≠ []) (halike : Alike after after')
    (hends : Delimits after) {bracket : UInt8} (hbracket : bracket ≠ byteOf '\n')
    (hbracket' : bracket ≠ byteOf '#')
    (hsome : (word ++ after').takeWhile shellIsDigit ≠ [])
    (h : ((word ++ after').dropWhile shellIsDigit).head? = some bracket) :
    (word ++ after).takeWhile shellIsDigit ≠ [] ∧
      ((word ++ after).dropWhile shellIsDigit).head? = some bracket := by
  by_cases hdigits : ∀ digit ∈ word, shellIsDigit digit
  · obtain ⟨-, hdrop⟩ := takeWhile_of_delimits hdigits (halike.delimits hends)
    obtain ⟨htake', hdrop'⟩ := takeWhile_of_delimits hdigits hends
    rw [hdrop] at h
    rw [htake', hdrop']
    exact ⟨hword, (halike.head_eq hbracket hbracket').mp h⟩
  · -- the digits end within the word
    have hleft : word.dropWhile shellIsDigit ≠ [] := fun hnil ↦
      hdigits (List.dropWhile_eq_nil_iff.mp hnil)
    obtain ⟨first, others, hfirst⟩ := List.exists_cons_of_ne_nil hleft
    have hdrop : ∀ more, (word ++ more).dropWhile shellIsDigit = first :: (others ++ more) := by
      intro more
      rw [List.dropWhile_append, hfirst]
      rfl
    have htake : ∀ more, (word ++ more).takeWhile shellIsDigit = word.takeWhile shellIsDigit := by
      intro more
      have hlength : (word.takeWhile shellIsDigit).length ≠ word.length := by
        have hsplit := congrArg List.length
          (List.takeWhile_append_dropWhile (p := shellIsDigit) (l := word))
        rw [List.length_append, hfirst, List.length_cons] at hsplit
        omega
      rw [List.takeWhile_append, if_neg hlength]
    rw [htake] at hsome ⊢
    rw [hdrop] at h ⊢
    exact ⟨hsome, h⟩

theorem firstToken_alike (hspace : ¬shellIsSpace character)
    (h : firstToken (character :: rest) = some (kind, length))
    (halike : Alike ((character :: rest).drop length) after') :
    ∃ others, character :: rest = character :: others ++ (character :: rest).drop length ∧
      length = others.length + 1 ∧
      firstToken (character :: others ++ after') = some (kind, length) := by
  rw [firstToken] at h
  split at h
  · next hoperator =>
    obtain ⟨others, hrest, hlength, hread⟩ :=
      shellReadOperator_alike (Option.some.inj h) halike
    refine ⟨others, congrArg (character :: ·) hrest, hlength, ?_⟩
    rw [List.cons_append, firstToken, if_pos hoperator, hread]
  · next hoperator =>
    split at h
    · next hdigits =>
      cases h
      have htaken := List.takeWhile_append_dropWhile (p := shellIsDigit) (l := character :: rest)
      generalize hdigitsText : (character :: rest).takeWhile shellIsDigit = digits at *
      have hall : ∀ digit ∈ digits, shellIsDigit digit := fun digit hmem ↦
        List.all_eq_true.mp (hdigitsText ▸ List.all_takeWhile) digit hmem
      obtain ⟨first, others, rfl⟩ := List.exists_cons_of_ne_nil hdigits.1
      obtain rfl : first = character := congrArg (·.headD 0) htaken
      have hdrop : (first :: rest).drop (first :: others).length =
          (first :: rest).dropWhile shellIsDigit := by
        nth_rewrite 1 [← htaken]
        exact List.drop_left
      rw [hdrop] at halike ⊢
      have hbracket : after'.head? = some (byteOf '<') ∨ after'.head? = some (byteOf '>') :=
        hdigits.2.imp (halike.head_eq (by decide) (by decide)).mpr
          (halike.head_eq (by decide) (by decide)).mpr
      have hends : Delimits after' := by
        intro found hmem
        rcases hbracket with hhead | hhead <;>
          (rw [hhead] at hmem
           cases hmem
           decide)
      obtain ⟨htake', hdrop'⟩ := takeWhile_of_delimits hall hends
      refine ⟨others, htaken.symm, rfl, ?_⟩
      rw [List.cons_append] at htake' hdrop' ⊢
      rw [firstToken, if_neg hoperator, htake', hdrop', if_pos ⟨hdigits.1, hbracket⟩]
    · next hdigits =>
      obtain ⟨after, hafter, heq⟩ := Option.map_eq_some_iff.mp h
      cases heq
      have hlt := shellWordExtent_lt (not_endsWord_of_token hspace hoperator) hafter
      have hdelimits := delimits_of_shellWordExtent hafter
      obtain ⟨word, hword, hextent⟩ := shellWordExtent_split hafter
      obtain ⟨first, others, rfl⟩ : ∃ first others, word = first :: others := by
        cases word with
        | nil => exact absurd hlt (by rw [hword]; exact lt_irrefl _)
        | cons first others => exact ⟨first, others, rfl⟩
      obtain ⟨rfl, hrest⟩ := List.cons.inj hword
      have hlength : (character :: rest).length - after.length = others.length + 1 := by
        rw [hword, List.length_append, Nat.add_sub_cancel]
        rfl
      have hdrop : (character :: rest).drop ((character :: rest).length - after.length) = after := by
        rw [hlength, hword]
        exact List.drop_left
      rw [hdrop] at halike ⊢
      refine ⟨others, hword, hlength, ?_⟩
      have hplain : ¬((character :: others ++ after').takeWhile shellIsDigit ≠ [] ∧
          (((character :: others ++ after').dropWhile shellIsDigit).head? = some (byteOf '<') ∨
            ((character :: others ++ after').dropWhile shellIsDigit).head? = some (byteOf '>'))) := by
        rintro ⟨hsome, hhead⟩
        rw [hword] at hdigits
        rcases hhead with hhead | hhead
        · have horiginal := numbered_alike (List.cons_ne_nil _ _) halike hdelimits (by decide)
            (by decide) hsome hhead
          exact hdigits ⟨horiginal.1, Or.inl horiginal.2⟩
        · have horiginal := numbered_alike (List.cons_ne_nil _ _) halike hdelimits (by decide)
            (by decide) hsome hhead
          exact hdigits ⟨horiginal.1, Or.inr horiginal.2⟩
      have hlength' : (character :: others ++ after').length - after'.length = others.length + 1 := by
        rw [List.length_append, Nat.add_sub_cancel]
        rfl
      have hfound := hextent after' halike (halike.delimits hdelimits)
      rw [List.cons_append] at hplain hfound hlength' ⊢
      rw [firstToken, if_neg hoperator, if_neg hplain, hfound, Option.map_some, hlength', hlength]

theorem firstToken_parenthesis (rest : List UInt8) :
    firstToken (byteOf '(' :: rest) = some (.leftParen, 1) := by
  have hnot : ∀ mark ∈ operatorSeconds, byteOf '(' ≠ mark :=
    List.all_iff_forall_prop.mp (by decide)
  rw [firstToken, if_pos (by decide)]
  simp only [shellReadOperator, hnot (byteOf '&') (by decide), hnot (byteOf '|') (by decide),
    hnot (byteOf ';') (by decide), hnot (byteOf '<') (by decide), hnot (byteOf '>') (by decide),
    false_and, if_false, if_true]

theorem head_afterComment (rest : List UInt8) :
    (rest.dropWhile (· ≠ byteOf '\n')).head? ∈ [none, some (byteOf '\n')] := by
  have hhead := List.head?_dropWhile_not (fun character ↦ decide (character ≠ byteOf '\n')) rest
  split at hhead
  · next found hsome =>
    rw [hsome]
    simp_all
  · next hnone =>
    rw [hnone]
    decide

theorem withoutComments_space (hspace : shellIsSpace character) (rest : List UInt8) :
    withoutComments (character :: rest) = character :: withoutComments rest := by
  rw [withoutComments, dif_pos hspace]

theorem head_withoutComments_line (h : text.head? ∈ [none, some (byteOf '\n')]) :
    (withoutComments text).head? ∈ [none, some (byteOf '\n')] := by
  cases text with
  | nil =>
      rw [withoutComments]
      decide
  | cons character rest =>
      obtain rfl : character = byteOf '\n' := by simpa using h
      rw [withoutComments_space (by decide)]
      exact List.mem_cons_of_mem _ List.mem_cons_self

theorem head_withoutComments (text : List UInt8) :
    (withoutComments text).head? = text.head? ∨
      text.head? = some (byteOf '#') ∧
        (withoutComments text).head? ∈ [none, some (byteOf '\n')] := by
  cases text with
  | nil => exact Or.inl (by rw [withoutComments])
  | cons character rest =>
      rw [withoutComments]
      split
      · exact Or.inl rfl
      · next hspace =>
        split
        · next hcomment =>
          subst hcomment
          exact Or.inr ⟨rfl, head_withoutComments_line (head_afterComment rest)⟩
        · split
          · exact Or.inl rfl
          · next kind length htoken =>
            have hpos := firstToken_pos hspace htoken
            obtain ⟨count, rfl⟩ : ∃ count, length = count + 1 := ⟨length - 1, by omega⟩
            exact Or.inl rfl

theorem alike_withoutComments (text : List UInt8) : Alike text (withoutComments text) where
  head := by
    refine (head_withoutComments text).imp_right fun h ↦ ⟨?_, h.2⟩
    rw [h.1]
    decide
  opens hfirst hsecond := by
    have hhead : text.head? = some (byteOf '(') := by
      rcases head_withoutComments text with heq | ⟨-, hmem⟩
      · exact heq.symm.trans hfirst
      · rw [hfirst] at hmem
        exact absurd hmem (by decide)
    obtain ⟨rest, rfl⟩ : ∃ rest, text = byteOf '(' :: rest := by
      cases text with
      | nil => cases hhead
      | cons character rest => exact ⟨rest, congrArg (· :: rest) (Option.some.inj hhead)⟩
    have hwithout : withoutComments (byteOf '(' :: rest) = byteOf '(' :: withoutComments rest := by
      rw [withoutComments, dif_neg (by decide), if_neg (by decide)]
      split
      · next hnone => cases hnone.symm.trans (firstToken_parenthesis rest)
      · next hsome =>
        cases hsome.symm.trans (firstToken_parenthesis rest)
        rfl
    rw [hwithout, List.tail_cons] at hsecond
    rcases head_withoutComments rest with heq | ⟨-, hmem⟩
    · exact heq.symm.trans hsecond
    · rw [hsecond] at hmem
      exact absurd hmem (by decide)

theorem alike_line (text next : List UInt8) : Alike text (text ++ byteOf '\n' :: next) where
  head := by
    cases text with
    | nil => exact Or.inr ⟨List.mem_cons_self, List.mem_cons_of_mem _ List.mem_cons_self⟩
    | cons => exact Or.inl rfl
  opens hfirst hsecond := by
    rcases text with _ | ⟨first, _ | ⟨second, rest⟩⟩
    · exact absurd (Option.some.inj hfirst) (by decide)
    · exact absurd (Option.some.inj hsecond) (by decide)
    · exact hsecond

theorem scraps_token (hspace : ¬shellIsSpace character) (hcomment : character ≠ byteOf '#')
    (h : firstToken (character :: rest) = some (kind, length)) :
    scraps (character :: rest) =
      .piece (kind, (character :: rest).take length) :: scraps ((character :: rest).drop length) := by
  rw [scraps, dif_neg hspace, if_neg hcomment]
  split
  · next hnone => cases hnone.symm.trans h
  · next hsome =>
    cases hsome.symm.trans h
    rfl

theorem scraps_alike (hspace : ¬shellIsSpace character) (hcomment : character ≠ byteOf '#')
    (h : firstToken (character :: rest) = some (kind, length))
    (halike : Alike ((character :: rest).drop length) after') :
    scraps ((character :: rest).take length ++ after') =
      .piece (kind, (character :: rest).take length) :: scraps after' := by
  obtain ⟨others, hrest, hlength, htoken⟩ := firstToken_alike hspace h halike
  have htake : (character :: rest).take length = character :: others := by
    rw [hrest]
    exact List.take_left' hlength.symm
  have htoken' : firstToken (character :: (others ++ after')) = some (kind, length) := htoken
  have hparts : (character :: (others ++ after')).take length = character :: others ∧
      (character :: (others ++ after')).drop length = after' := by
    rw [← List.cons_append]
    exact ⟨List.take_left' hlength.symm, List.drop_left' hlength.symm⟩
  rw [htake, List.cons_append, scraps_token hspace hcomment htoken', hparts.1, hparts.2]

theorem scraps_withoutComments (text : List UInt8) :
    scraps (withoutComments text) = (scraps text).filter (· ≠ .comment) := by
  fun_induction scraps text with
  | case1 => rw [withoutComments, scraps]; rfl
  | case2 character rest hspace ih =>
      rw [withoutComments_space hspace, scraps, dif_pos hspace]
      exact ih
  | case3 rest hspace ih =>
      rw [withoutComments, dif_neg hspace, if_pos rfl]
      exact ih
  | case4 character rest hspace hcomment htoken =>
      have hsame : withoutComments (character :: rest) = character :: rest := by
        rw [withoutComments, dif_neg hspace, if_neg hcomment]
        split
        · rfl
        · next hsome => cases hsome.symm.trans htoken
      rw [hsame, scraps, dif_neg hspace, if_neg hcomment]
      split
      · rfl
      · next hsome => cases hsome.symm.trans htoken
  | case5 character rest hspace hcomment kind length htoken ih =>
      have hwithout : withoutComments (character :: rest) = (character :: rest).take length ++
          withoutComments ((character :: rest).drop length) := by
        rw [withoutComments, dif_neg hspace, if_neg hcomment]
        split
        · next hnone => cases hnone.symm.trans htoken
        · next hsome =>
          cases hsome.symm.trans htoken
          rfl
      rw [hwithout, scraps_alike hspace hcomment htoken (alike_withoutComments _), ih,
        List.filter_cons_of_pos (by simp)]

theorem scraps_line (next : List UInt8) (hcomment : .comment ∉ scraps text)
    (hwhole : .unterminated ∉ scraps text) :
    scraps (text ++ byteOf '\n' :: next) = scraps text ++ scraps next := by
  fun_induction scraps text with
  | case1 => rw [List.nil_append, scraps, dif_pos (by decide)]; rfl
  | case2 character rest hspace ih =>
      rw [List.cons_append, scraps, dif_pos hspace]
      exact ih hcomment hwhole
  | case3 => exact absurd List.mem_cons_self hcomment
  | case4 => exact absurd List.mem_cons_self hwhole
  | case5 character rest hspace hplain kind length htoken ih =>
      have hsplit : character :: rest ++ byteOf '\n' :: next = (character :: rest).take length ++
          ((character :: rest).drop length ++ byteOf '\n' :: next) := by
        rw [← List.append_assoc, List.take_append_drop]
      rw [hsplit, scraps_alike hspace hplain htoken (alike_line _ next),
        ih (fun hmem ↦ hcomment (List.mem_cons_of_mem _ hmem))
          fun hmem ↦ hwhole (List.mem_cons_of_mem _ hmem)]
      rfl

theorem readScraps_line (next : List UInt8) (hcomment : .comment ∈ scraps text)
    (before : List Piece) :
    readScraps before (scraps (text ++ byteOf '\n' :: next)) = readScraps before (scraps text) := by
  fun_induction scraps text generalizing before with
  | case1 => cases hcomment
  | case2 character rest hspace ih =>
      rw [List.cons_append, scraps, dif_pos hspace]
      exact ih hcomment before
  | case3 rest hspace ih =>
      rw [List.cons_append, scraps, dif_neg hspace, if_pos rfl]
      rfl
  | case4 => exact absurd hcomment (by simp)
  | case5 character rest hspace hplain kind length htoken ih =>
      have hmem : .comment ∈ scraps ((character :: rest).drop length) :=
        (List.mem_cons.mp hcomment).resolve_left (by simp)
      have hsplit : character :: rest ++ byteOf '\n' :: next = (character :: rest).take length ++
          ((character :: rest).drop length ++ byteOf '\n' :: next) := by
        rw [← List.append_assoc, List.take_append_drop]
      rw [hsplit, scraps_alike hspace hplain htoken (alike_line _ next), readScraps, readScraps]
      cases appended before (kind, (character :: rest).take length) with
      | error status => rfl
      | ok more => exact ih hmem more

end OxysOS.Shell
