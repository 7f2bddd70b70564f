import OxysOS.Libc.FormatConversions
import Mathlib.Data.List.GetD
import Mathlib.Data.List.Induction

/-!
# The engine and `vsnprintf` against the reference

The engine reads the directives that the reference reads, and writes what each of them
renders, as long as the count of the characters is one that an `int` holds.
-/

namespace OxysOS.Libc

open OxysOS.Library Action

variable {σ : Type} {emit : σ → UInt8 → Bool × σ} {s : Formatting σ}
  {text : List UInt8} {left : List FormatArgument} {bytes : List UInt8}

def FormatFlags.add (flags : FormatFlags) (given : List UInt8) : FormatFlags where
  left := flags.left || decide (byteOf '-' ∈ given)
  sign := flags.sign || decide (byteOf '+' ∈ given)
  space := flags.space || decide (byteOf ' ' ∈ given)
  alternate := flags.alternate || decide (byteOf '#' ∈ given)
  zero := flags.zero || decide (byteOf '0' ∈ given)

theorem FormatFlags.add_nil (flags : FormatFlags) : flags.add [] = flags := by
  simp [add]

theorem FormatFlags.add_cons (flags : FormatFlags) (byte : UInt8) (given : List UInt8) :
    flags.add (byte :: given) = (flags.add [byte]).add given := by
  simp [add, Bool.or_assoc, Bool.decide_or]

theorem formatFlags_eq (flags : FormatFlags) (text : List UInt8) :
    formatFlags flags text = (flags.add (text.takeWhile isFlagByte), text.dropWhile isFlagByte) := by
  induction text generalizing flags with
  | nil => exact Prod.ext flags.add_nil.symm rfl
  | cons byte text ih =>
      unfold formatFlags
      by_cases hflag : isFlagByte byte
      · rw [List.takeWhile_cons_of_pos hflag, List.dropWhile_cons_of_pos hflag,
          FormatFlags.add_cons, ← ih]
        have hcases : byte = byteOf '-' ∨ byte = byteOf '+' ∨ byte = byteOf ' ' ∨
            byte = byteOf '#' ∨ byte = byteOf '0' := by
          have hmem : byte ∈ [byteOf '-', byteOf '+', byteOf ' ', byteOf '#', byteOf '0'] :=
            of_decide_eq_true hflag
          simpa only [List.mem_cons, List.not_mem_nil, or_false] using hmem
        obtain ⟨left, sign, space, alternate, zero⟩ := flags
        rcases hcases with rfl | rfl | rfl | rfl | rfl <;>
          (cases left <;> cases sign <;> cases space <;> cases alternate <;> cases zero <;> rfl)
      · have hnot : ∀ flag : Char, isFlagByte (byteOf flag) → byte ≠ byteOf flag :=
          fun flag hset heq ↦ hflag (heq ▸ hset)
        rw [List.takeWhile_cons_of_neg hflag, List.dropWhile_cons_of_neg hflag,
          FormatFlags.add_nil, if_neg (hnot '-' (by decide)), if_neg (hnot '+' (by decide)),
          if_neg (hnot ' ' (by decide)), if_neg (hnot '#' (by decide)),
          if_neg (hnot '0' (by decide))]

theorem formatNumberLoop_snd (value : ℕ) (text : List UInt8) :
    (formatNumberLoop value text).2 = text.dropWhile isDigitByte := by
  induction text generalizing value with
  | nil => rfl
  | cons byte text ih =>
      unfold formatNumberLoop
      by_cases hdigit : byteOf '0' ≤ byte ∧ byte ≤ byteOf '9'
      · have hset : isDigitByte byte := decide_eq_true hdigit
        rw [if_pos hdigit, List.dropWhile_cons_of_pos hset]
        exact ih _
      · have hset : ¬isDigitByte byte := fun h ↦ hdigit (of_decide_eq_true h)
        rw [if_neg hdigit, List.dropWhile_cons_of_neg hset]

theorem digit_lt {digit : UInt8} (h : isDigitByte digit = true) : (digit - byteOf '0').toNat < 10 := by
  obtain ⟨hlow, hhigh⟩ := of_decide_eq_true h
  rw [UInt8.toNat_sub_of_le _ _ hlow]
  have hle := UInt8.le_iff_toNat_le.mp hhigh
  change digit.toNat - 48 < 10
  change digit.toNat ≤ 57 at hle
  omega

theorem clippedNumber_foldl {value : ℕ} (hlow : 3276 < value) (hhigh : value ≤ 32769)
    {digits : List UInt8} (hdigits : ∀ digit ∈ digits, isDigitByte digit = true) :
    clippedNumber (digits.foldl appendDigit value) = value ∧
      value ≤ digits.foldl appendDigit value := by
  induction digits using List.reverseRecOn with
  | nil => exact ⟨clippedNumber_eq hhigh, le_rfl⟩
  | append_singleton digits digit ih =>
      obtain ⟨hclipped, hle⟩ := ih fun other hother ↦ hdigits other (List.mem_append_left _ hother)
      have hdigit : (digit - byteOf '0').toNat < 10 := digit_lt (hdigits digit (by simp))
      rw [List.foldl_append, List.foldl_cons, List.foldl_nil, appendDigit]
      refine ⟨?_, by omega⟩
      rw [clippedNumber_div (by omega), show (10 * digits.foldl appendDigit value +
        (digit - byteOf '0').toNat) / 10 = digits.foldl appendDigit value by omega, hclipped]

theorem formatNumberLoop_stays {value : ℕ} (hlow : 3276 < value) (text : List UInt8) :
    (formatNumberLoop value text).1 = value := by
  induction text with
  | nil => rfl
  | cons byte text ih =>
      simp only [formatNumberLoop, if_neg (show ¬value ≤ 32767 / 10 by omega)]
      split
      · exact ih
      · rfl

theorem formatNumberLoop_fst {value : ℕ} (hvalue : value ≤ 3276) (text : List UInt8) :
    (formatNumberLoop value text).1 =
      clippedNumber ((text.takeWhile isDigitByte).foldl appendDigit value) := by
  induction text generalizing value with
  | nil => exact (clippedNumber_eq (hvalue.trans (by decide))).symm
  | cons byte text ih =>
      by_cases hset : isDigitByte byte
      · have hdigit := digit_lt hset
        rw [formatNumberLoop, if_pos (of_decide_eq_true hset)]
        dsimp only
        rw [if_pos (show value ≤ 32767 / 10 from hvalue), List.takeWhile_cons_of_pos hset,
          List.foldl_cons, Nat.mul_comm value]
        change (formatNumberLoop (appendDigit value byte) text).1 = _
        have hstep : appendDigit value byte = 10 * value + (byte - byteOf '0').toNat := rfl
        by_cases hnext : appendDigit value byte ≤ 3276
        · exact ih hnext
        · rw [formatNumberLoop_stays (not_le.mp hnext)]
          refine (clippedNumber_foldl (not_le.mp hnext) (by omega) fun digit hmem ↦ ?_).1.symm
          exact List.all_eq_true.mp List.all_takeWhile digit hmem
      · rw [formatNumberLoop, if_neg (fun h ↦ hset (decide_eq_true h)),
          List.takeWhile_cons_of_neg hset]
        exact (clippedNumber_eq (hvalue.trans (by decide))).symm

theorem formatNumber_snd (text : List UInt8) :
    (formatNumber text).2 = text.dropWhile isDigitByte := formatNumberLoop_snd 0 text

theorem formatNumber_fst (text : List UInt8) :
    (formatNumber text).1 = clippedNumber (decimalOf (text.takeWhile isDigitByte)) :=
  formatNumberLoop_fst (Nat.zero_le _) text

theorem isPrefixOf_eq_false {c byte : UInt8} (h : byte ≠ c) (spelling rest : List UInt8) :
    (c :: spelling).isPrefixOf (byte :: rest) = false := by
  change (c == byte && spelling.isPrefixOf rest) = false
  rw [beq_eq_false_iff_ne.mpr h.symm, Bool.false_and]

theorem FormatLength.read_of_ne {byte : UInt8} {rest : List UInt8} (hh : byte ≠ byteOf 'h')
    (hl : byte ≠ byteOf 'l') (hz : byte ≠ byteOf 'z') (hj : byte ≠ byteOf 'j')
    (ht : byte ≠ byteOf 't') : FormatLength.read (byte :: rest) = (.int, byte :: rest) := by
  unfold FormatLength.read lengthModifiers
  simp only [List.find?_cons, isPrefixOf_eq_false hh, isPrefixOf_eq_false hl,
    isPrefixOf_eq_false hz, isPrefixOf_eq_false hj, isPrefixOf_eq_false ht, List.find?_nil]

theorem FormatLength.read_h {byte : UInt8} {rest : List UInt8} (h : byte ≠ byteOf 'h') :
    FormatLength.read (byteOf 'h' :: byte :: rest) = (.short, byte :: rest) := by
  have hshort : [byteOf 'h', byteOf 'h'].isPrefixOf (byteOf 'h' :: byte :: rest) = false :=
    isPrefixOf_eq_false h [] rest
  unfold FormatLength.read lengthModifiers
  rw [List.find?_cons, hshort]
  rfl

theorem FormatLength.read_l {byte : UInt8} {rest : List UInt8} (h : byte ≠ byteOf 'l') :
    FormatLength.read (byteOf 'l' :: byte :: rest) = (.long, byte :: rest) := by
  have hlong : [byteOf 'l', byteOf 'l'].isPrefixOf (byteOf 'l' :: byte :: rest) = false :=
    isPrefixOf_eq_false h [] rest
  unfold FormatLength.read lengthModifiers
  simp only [List.find?_cons, hlong, isPrefixOf_eq_false (by decide : byteOf 'l' ≠ byteOf 'h')]
  rfl

theorem formatLength_eq (text : List UInt8) : formatLength text = FormatLength.read text := by
  have hhead : ∀ {byte c : UInt8} {rest : List UInt8}, byte ≠ c →
      ¬(byte :: rest).head? = some c := fun hne heq ↦ hne (Option.some.inj heq)
  cases text with
  | nil => rfl
  | cons byte rest =>
      unfold formatLength
      by_cases hh : byte = byteOf 'h'
      · subst hh
        rw [List.head?_cons, if_pos rfl]
        rcases rest with _ | ⟨next, rest⟩
        · rfl
        · by_cases hnext : next = byteOf 'h'
          · subst hnext
            rfl
          · rw [List.tail_cons, if_neg (hhead hnext), FormatLength.read_h hnext]
      rw [if_neg (hhead hh)]
      by_cases hl : byte = byteOf 'l'
      · subst hl
        rw [List.head?_cons, if_pos rfl]
        rcases rest with _ | ⟨next, rest⟩
        · rfl
        · by_cases hnext : next = byteOf 'l'
          · subst hnext
            rfl
          · rw [List.tail_cons, if_neg (hhead hnext), FormatLength.read_l hnext]
      rw [if_neg (hhead hl)]
      by_cases hz : byte = byteOf 'z'
      · subst hz
        rfl
      rw [if_neg (hhead hz)]
      by_cases hj : byte = byteOf 'j'
      · subst hj
        rfl
      rw [if_neg (hhead hj)]
      by_cases ht : byte = byteOf 't'
      · subst ht
        rfl
      rw [if_neg (hhead ht), FormatLength.read_of_ne hh hl hz hj ht]

theorem writes_formatWidth (emit : σ → UInt8 → Bool × σ) (flags : FormatFlags) {value : ℤ}
    (h : (FormatField.read text).1.clipped.value s.arguments = some (value, left)) :
    Writes emit (formatWidth flags text) s left []
        ({ flags with left := flags.left || decide (value < 0) }, (widthTaken value.natAbs : ℤ),
          (FormatField.read text).2) ∧ value.natAbs ≤ 2147483648 := by
  unfold FormatField.read at h ⊢
  unfold formatWidth
  by_cases hstar : text.head? = some (byteOf '*')
  · rw [if_pos hstar] at h ⊢
    rw [if_pos hstar]
    obtain ⟨⟨word, rest⟩, htaken, heq⟩ := Option.map_eq_some_iff.mp h
    cases heq
    dsimp only at htaken ⊢
    have hlow := BitVec.le_toInt (word.setWidth 32)
    have hhigh := BitVec.toInt_lt (x := word.setWidth 32)
    refine ⟨(writes_vaInt htaken).take ?_, by omega⟩
    by_cases hneg : (word.setWidth 32).toInt < 0
    · have hwidth : (if (word.setWidth 32).toInt = int32Minimum then int16Maximum
          else -(word.setWidth 32).toInt) = (widthTaken (word.setWidth 32).toInt.natAbs : ℤ) := by
        unfold widthTaken int32Minimum int16Maximum
        split_ifs <;> omega
      rw [if_pos hneg, decide_eq_true hneg, Bool.or_true, hwidth]
      exact Writes.pure
    · have hwidth : (word.setWidth 32).toInt =
          (widthTaken (word.setWidth 32).toInt.natAbs : ℤ) := by
        unfold widthTaken
        split_ifs <;> omega
      rw [if_neg hneg, decide_eq_false hneg, Bool.or_false, ← hwidth]
      exact Writes.pure
  · rw [if_neg hstar] at h ⊢
    rw [if_neg hstar]
    obtain ⟨hvalue, hleft⟩ := Prod.mk.inj (Option.some.inj h)
    dsimp only at hvalue ⊢
    subst hvalue hleft
    have hle := clippedNumber_le (decimalOf (text.takeWhile isDigitByte))
    refine ⟨?_, by omega⟩
    rw [decide_eq_false (by omega), Bool.or_false, formatNumber_snd, formatNumber_fst,
      Int.natAbs_natCast, widthTaken_eq hle]
    exact Writes.pure

def precisionOf (value : ℤ) : Option ℕ := if value < 0 then none else some value.toNat

theorem precisionOf_elim {value : ℤ} (h : -1 ≤ value) :
    (precisionOf value).elim (-1) Nat.cast = value := by
  unfold precisionOf
  by_cases hneg : value < 0
  · rw [if_pos hneg]
    change (-1 : ℤ) = value
    omega
  · rw [if_neg hneg]
    exact Int.toNat_of_nonneg (not_lt.mp hneg)

theorem writes_formatPrecision (emit : σ → UInt8 → Bool × σ) (s : Formatting σ) {value : ℤ}
    (h : precisionValue s.arguments ((readPrecision text).1.map FormatField.clipped) =
      some (value, left)) :
    Writes emit (formatPrecision text) s left []
        ((precisionOf value).elim (-1) Nat.cast, (readPrecision text).2) := by
  unfold readPrecision at h ⊢
  unfold formatPrecision
  by_cases hperiod : text.head? = some (byteOf '.')
  · rw [if_pos hperiod] at h ⊢
    rw [if_pos hperiod]
    unfold FormatField.read at h ⊢
    by_cases hstar : text.tail.head? = some (byteOf '*')
    · rw [if_pos hstar] at h ⊢
      rw [if_pos hstar]
      obtain ⟨⟨word, rest⟩, htaken, heq⟩ := Option.map_eq_some_iff.mp h
      cases heq
      dsimp only at htaken ⊢
      have hprecision : (if (word.setWidth 32).toInt < 0 then -1 else (word.setWidth 32).toInt) =
          (precisionOf (word.setWidth 32).toInt).elim (-1) Nat.cast := by
        by_cases hneg : (word.setWidth 32).toInt < 0
        · unfold precisionOf
          rw [if_pos hneg, if_pos hneg]
          rfl
        · rw [if_neg hneg, precisionOf_elim (by omega)]
      rw [← hprecision]
      exact (writes_vaInt htaken).take Writes.pure
    · rw [if_neg hstar] at h ⊢
      rw [if_neg hstar]
      obtain ⟨hvalue, hleft⟩ := Prod.mk.inj (Option.some.inj h)
      dsimp only at hvalue ⊢
      subst hvalue hleft
      rw [formatNumber_snd, formatNumber_fst, precisionOf_elim (by omega)]
      exact Writes.pure
  · rw [if_neg hperiod] at h ⊢
    rw [if_neg hperiod]
    cases h
    exact Writes.pure

theorem Writes.outcome_bind {α β : Type} {action : Format σ α} {next : α → Format σ β} {a : α}
    {answer : Except FormatStop β} (h : Writes emit action s left bytes a)
    (hle : s.produced + bytes.length ≤ intMaximum)
    (hnext : (outcome (next a) (s.after emit left bytes)).1 = answer) :
    (outcome (action >>= next) s).1 = answer := by
  rw [Action.outcome_bind, h.fits hle]
  exact hnext

theorem has_of_width (given : List UInt8) (negative : Bool) (shape : FormatShape)
    (hflags : shape.flags = if negative then byteOf '-' :: given else given) :
    ((({} : FormatFlags).add given).left || negative) = shape.has '-' ∧
      ∀ flag : Char, byteOf flag ≠ byteOf '-' → decide (byteOf flag ∈ given) = shape.has flag := by
  unfold FormatShape.has
  rw [hflags]
  cases negative with
  | true =>
      refine ⟨?_, fun flag hne ↦ ?_⟩
      · rw [Bool.or_true, if_pos rfl]
        exact (decide_eq_true List.mem_cons_self).symm
      · rw [if_pos rfl]
        exact decide_eq_decide.mpr ⟨List.mem_cons_of_mem _, fun hmem ↦
          (List.mem_cons.mp hmem).resolve_left hne⟩
  | false => exact ⟨(Bool.or_false _).trans (Bool.false_or _), fun _ _ ↦ rfl⟩

section Specification

variable {shaped : FormatShape × List FormatArgument}
  (hshape : (FormatSpecification.read text).1.taken s.arguments = some shaped)
include hshape

theorem formatSpecification_shape (emit : σ → UInt8 → Bool × σ) : ∃ flags width precision middle,
    Writes emit (formatWidth (({} : FormatFlags).add (text.takeWhile isFlagByte))
      (text.dropWhile isFlagByte)) s middle []
      (flags, width, (FormatField.read (text.dropWhile isFlagByte)).2) ∧
    Writes emit (formatPrecision (FormatField.read (text.dropWhile isFlagByte)).2)
      (s.after emit middle []) shaped.2 []
      (precision, (readPrecision (FormatField.read (text.dropWhile isFlagByte)).2).2) ∧
    shaped.1.Suits flags width precision ∧ width ≤ intMaximum ∧
      flags.sign = shaped.1.has '+' ∧ flags.space = shaped.1.has ' ' := by
  obtain ⟨given, hgiven, rfl⟩ := Option.map_eq_some_iff.mp hshape
  obtain ⟨⟨w, middle⟩, hw, hgiven⟩ := Option.bind_eq_some_iff.mp hgiven
  obtain ⟨⟨p, rest⟩, hp, hgiven⟩ := Option.bind_eq_some_iff.mp hgiven
  cases hgiven
  obtain ⟨hwidth, hmagnitude⟩ := writes_formatWidth emit (({} : FormatFlags).add _) hw
  have hprecision := writes_formatPrecision emit (s.after emit middle []) hp
  refine ⟨_, _, _, middle, hwidth, hprecision, ?_⟩
  have hhas := has_of_width (text.takeWhile isFlagByte) (decide (w < 0)) _
    (by simp only [decide_eq_true_eq] : ({
      flags := if w < 0 then byteOf '-' :: text.takeWhile isFlagByte else text.takeWhile isFlagByte
      width := widthTaken w.natAbs
      precision := precisionOf p } : FormatShape).flags = _)
  refine ⟨⟨hhas.1, ?_, ?_, rfl, rfl⟩, mod_cast widthTaken_le hmagnitude, ?_, ?_⟩
  · exact (Bool.false_or _).trans (hhas.2 '0' (by decide))
  · exact (Bool.false_or _).trans (hhas.2 '#' (by decide))
  · exact (Bool.false_or _).trans (hhas.2 '+' (by decide))
  · exact (Bool.false_or _).trans (hhas.2 ' ' (by decide))

theorem writes_formatSpecification (haccepts : ∀ context byte, (emit context byte).1 = true)
    (hnamed : (FormatSpecification.read text).1.Named)
    (hconvert : (FormatSpecification.read text).1.convert shaped.1 shaped.2 = some (bytes, left)) :
    Writes emit (formatSpecification emit text) s left bytes
      (FormatSpecification.read text).2 := by
  obtain ⟨flags, width, precision, middle, hwidth, hprecision, hsuits, hle, hsign, hspace⟩ :=
    formatSpecification_shape hshape emit
  unfold formatSpecification
  rw [formatFlags_eq]
  refine hwidth.take (hprecision.take ?_)
  dsimp only
  rw [formatLength_eq, ← List.append_nil bytes]
  exact (writes_formatConvert haccepts hsuits hle hsign hspace hnamed hconvert).bind Writes.pure

theorem formatSpecification_refuses (emit : σ → UInt8 → Bool × σ)
    (hnamed : ¬(FormatSpecification.read text).1.Named)
    (hle : s.produced ≤ intMaximum) :
    (outcome (formatSpecification emit text) s).1 = .error .failed := by
  obtain ⟨flags, width, precision, middle, hwidth, hprecision, -⟩ :=
    formatSpecification_shape hshape emit
  unfold formatSpecification
  rw [formatFlags_eq]
  refine hwidth.outcome_bind hle (hprecision.outcome_bind hle ?_)
  dsimp only
  rw [formatLength_eq]
  change (outcome (formatConvert emit (FormatSpecification.read text).1.conversion _ _ _ _ >>= _)
    _).1 = _
  rw [formatConvert_of_not_named hnamed]
  rfl

end Specification

@[simp] theorem directives_nil : directives [] = [] := by
  rw [directives]

theorem directives_zero : directives (0 :: text) = [] := by
  rw [directives, if_pos rfl]

theorem directives_percent : directives (byteOf '%' :: text) =
    .conversion (FormatSpecification.read text).1 ::
      directives (FormatSpecification.read text).2 := by
  rw [directives, if_neg (by decide), if_pos rfl]

theorem directives_literal {byte : UInt8} (hzero : byte ≠ 0) (hpercent : byte ≠ byteOf '%') :
    directives (byte :: text) = .literal byte :: directives text := by
  rw [directives, if_neg hzero, if_neg hpercent]

def AllNamed (given : List FormatDirective) : Prop :=
  ∀ specification, .conversion specification ∈ given → specification.Named

theorem allNamed_literal {byte : UInt8} {rest : List FormatDirective} :
    AllNamed (.literal byte :: rest) ↔ AllNamed rest := by
  refine ⟨fun h specification hmem ↦ h specification (List.mem_cons_of_mem _ hmem),
    fun h specification hmem ↦ ?_⟩
  rcases List.mem_cons.mp hmem with heq | hmem
  · cases heq
  · exact h specification hmem

theorem allNamed_conversion {specification : FormatSpecification} {rest : List FormatDirective} :
    AllNamed (.conversion specification :: rest) ↔ specification.Named ∧ AllNamed rest := by
  refine ⟨fun h ↦ ⟨h specification List.mem_cons_self,
    fun other hmem ↦ h other (List.mem_cons_of_mem _ hmem)⟩, fun h other hmem ↦ ?_⟩
  rcases List.mem_cons.mp hmem with heq | hmem
  · cases heq
    exact h.1
  · exact h.2 other hmem

theorem produces_conversion {specification : FormatSpecification} {rest : List FormatDirective}
    {arguments : List FormatArgument}
    (h : produces (.conversion specification :: rest) arguments = some bytes) :
    ∃ shaped, specification.taken arguments = some shaped ∧
      ((¬specification.Named ∧ bytes = []) ∨
        specification.Named ∧
          ∃ result left more, specification.convert shaped.1 shaped.2 = some (result, left) ∧
            produces rest left = some more ∧ bytes = result ++ more) := by
  unfold produces at h
  obtain ⟨shaped, hshape, h⟩ := Option.bind_eq_some_iff.mp h
  refine ⟨shaped, hshape, ?_⟩
  by_cases hnamed : specification.Named
  · rw [if_neg (not_not.mpr hnamed)] at h
    obtain ⟨⟨result, left⟩, hconvert, h⟩ := Option.bind_eq_some_iff.mp h
    obtain ⟨more, hmore, heq⟩ := Option.map_eq_some_iff.mp h
    exact Or.inr ⟨hnamed, result, left, more, hconvert, hmore, heq.symm⟩
  · rw [if_pos hnamed] at h
    exact Or.inl ⟨hnamed, (Option.some.inj h).symm⟩

section Run

variable (haccepts : ∀ context byte, (emit context byte).1 = true)
include haccepts

theorem formatRunLoop_writes {room : ℕ} (hroom : text.length < room)
    (hproduces : produces (directives text) s.arguments = some bytes) :
    (AllNamed (directives text) → ∃ left,
      Writes emit (formatRunLoop emit room text) s left bytes ()) ∧
    (¬AllNamed (directives text) → s.produced ≤ intMaximum →
      (outcome (formatRunLoop emit room text) s).1 =
        .error (if s.produced + bytes.length ≤ intMaximum then .failed else .undefined)) := by
  induction room generalizing text s bytes with
  | zero => exact absurd hroom (Nat.not_lt_zero _)
  | succ room ih =>
      rcases text with _ | ⟨byte, text⟩
      · rw [directives_nil] at hproduces ⊢
        cases hproduces
        exact ⟨fun _ ↦ ⟨_, Writes.pure⟩, fun h ↦ absurd (fun _ ↦ nofun) h⟩
      rw [List.length_cons] at hroom
      by_cases hzero : byte = 0
      · rw [hzero, directives_zero] at hproduces ⊢
        cases hproduces
        exact ⟨fun _ ↦ ⟨_, Writes.pure⟩, fun h ↦ absurd (fun _ ↦ nofun) h⟩
      unfold formatRunLoop
      rw [if_neg hzero]
      by_cases hpercent : byte = byteOf '%'
      · subst hpercent
        have hshorter := FormatSpecification.read_length text
        rw [directives_percent] at hproduces ⊢
        rw [if_neg (not_not.mpr rfl), allNamed_conversion]
        obtain ⟨shaped, hshape, hcases⟩ := produces_conversion hproduces
        rcases hcases with ⟨hnamed, rfl⟩ | ⟨hnamed, result, left, more, hconvert, hmore, rfl⟩
        · refine ⟨fun h ↦ absurd h.1 hnamed, fun _ hle ↦ ?_⟩
          have hfailed := formatSpecification_refuses hshape emit hnamed hle
          rw [List.length_nil, Nat.add_zero, if_pos hle, outcome_bind]
          cases heq : outcome (formatSpecification emit text) s with
          | mk answer s' =>
              rw [heq] at hfailed
              cases hfailed
              rfl
        · have hwrites := writes_formatSpecification hshape haccepts hnamed hconvert
          have hrest := ih (s := s.after emit left result) (by omega) hmore
          refine ⟨fun h ↦ ?_, fun h hle ↦ hwrites.bind_error hle fun hfits ↦ ?_⟩
          · obtain ⟨left', hloop⟩ := hrest.1 h.2
            exact ⟨left', hwrites.bind hloop⟩
          · exact hrest.2 (fun hall ↦ h ⟨hnamed, hall⟩) hfits
      · rw [directives_literal hzero hpercent] at hproduces ⊢
        rw [if_pos hpercent, allNamed_literal]
        obtain ⟨more, hmore, rfl⟩ := Option.map_eq_some_iff.mp hproduces
        have hwrites : Writes emit (formatPut emit byte) s s.arguments [byte] () :=
          writes_formatPut haccepts
        have hrest := ih (s := s.after emit s.arguments [byte]) (by omega) hmore
        refine ⟨fun h ↦ ?_, fun h hle ↦ hwrites.bind_error hle fun hfits ↦ ?_⟩
        · obtain ⟨left', hloop⟩ := hrest.1 h
          exact ⟨left', hwrites.bind hloop⟩
        · exact hrest.2 h hfits

end Run

def formatRecord (written : List UInt8) (byte : UInt8) : Bool × List UInt8 :=
  (true, written ++ [byte])

theorem foldl_formatRecord (written bytes : List UInt8) :
    bytes.foldl (fun written byte ↦ (formatRecord written byte).2) written = written ++ bytes := by
  induction bytes generalizing written with
  | nil => exact (List.append_nil written).symm
  | cons byte bytes ih =>
      rw [List.foldl_cons, ih]
      exact List.append_assoc written [byte] bytes

theorem formatEmitToArray_accepts (array : FormatArray) (byte : UInt8) :
    (formatEmitToArray array byte).1 = true := by
  unfold formatEmitToArray
  split <;> rfl

theorem update_getD (stored : List UInt8) (buffer : Bytes) (byte : UInt8) :
    Function.update (fun i ↦ stored.getD i (buffer i)) stored.length byte =
      fun i ↦ (stored ++ [byte]).getD i (buffer i) := by
  funext i
  rcases lt_trichotomy i stored.length with hi | rfl | hi
  · rw [Function.update_of_ne hi.ne, List.getD_append _ _ _ _ hi]
  · rw [Function.update_self, List.getD_append_right _ _ _ _ le_rfl, Nat.sub_self]
    rfl
  · rw [Function.update_of_ne hi.ne', List.getD_eq_default _ _ hi.le, List.getD_eq_default]
    rw [List.length_append, List.length_singleton]
    exact hi

theorem foldl_formatEmitToArray (buffer : Option Bytes) (capacity : ℕ) (bytes : List UInt8) :
    bytes.foldl (fun array byte ↦ (formatEmitToArray array byte).2) ⟨buffer, capacity, 0⟩ =
      ⟨buffer.map fun stored i ↦ (bytes.take capacity).getD i (stored i), capacity,
        min capacity bytes.length⟩ := by
  induction bytes using List.reverseRecOn with
  | nil =>
      have hsame : (fun (stored : Bytes) (i : ℕ) ↦ (([] : List UInt8).take capacity).getD i
          (stored i)) = id := by
        funext stored i
        rw [List.take_nil]
        rfl
      rw [hsame, Option.map_id_apply, List.length_nil, Nat.min_zero]
      rfl
  | append_singleton bytes byte ih =>
      rw [List.foldl_append, ih, List.foldl_cons, List.foldl_nil]
      unfold formatEmitToArray
      dsimp only
      by_cases hroom : min capacity bytes.length < capacity
      · have hlt : bytes.length < capacity := by omega
        have htaken : (bytes ++ [byte]).take capacity = bytes ++ [byte] := by
          apply List.take_of_length_le
          rw [List.length_append, List.length_singleton]
          omega
        rw [if_pos hroom, List.take_of_length_le hlt.le, htaken, Option.map_map,
          Nat.min_eq_right hlt.le, List.length_append, List.length_singleton, Nat.min_eq_right hlt]
        dsimp only
        congr 2
        funext stored
        exact update_getD bytes stored byte
      · have hle : capacity ≤ bytes.length := by omega
        rw [if_neg hroom, List.take_append_of_le_length hle, List.length_append, Nat.min_eq_left hle,
          Nat.min_eq_left (hle.trans (Nat.le_add_right _ _))]

section Engine

variable {format : List UInt8} {arguments : List FormatArgument}
  (hproduces : produces (directives format) arguments = some bytes)
include hproduces

theorem formatRun_accepted (haccepts : ∀ context byte, (emit context byte).1 = true)
    (hnamed : AllNamed (directives format)) (hle : bytes.length ≤ intMaximum) (context : σ) :
    formatRun emit context (some format) arguments =
      (some (bytes.length : ℤ), bytes.foldl (fun context byte ↦ (emit context byte).2) context) := by
  obtain ⟨left, hwrites⟩ := (formatRunLoop_writes (s := ⟨context, arguments, 0⟩) haccepts
    (Nat.lt_succ_self format.length) hproduces).1 hnamed
  unfold formatRun
  dsimp only
  rw [hwrites.fits (by dsimp only; omega)]
  unfold Formatting.after
  rw [Nat.zero_add]

theorem formatRun_overflows (haccepts : ∀ context byte, (emit context byte).1 = true)
    (hlt : intMaximum < bytes.length) (context : σ) :
    (formatRun emit context (some format) arguments).1 = none := by
  have hloop := formatRunLoop_writes (s := ⟨context, arguments, 0⟩) haccepts
    (Nat.lt_succ_self format.length) hproduces
  have hundefined : (outcome (formatRunLoop emit (format.length + 1) format)
      ⟨context, arguments, 0⟩).1 = .error .undefined := by
    by_cases hnamed : AllNamed (directives format)
    · obtain ⟨left, hwrites⟩ := hloop.1 hnamed
      exact hwrites.overflows (Nat.zero_le _) (by dsimp only; omega)
    · rw [hloop.2 hnamed (Nat.zero_le _), if_neg (by dsimp only; omega)]
  unfold formatRun
  dsimp only
  cases heq : outcome (formatRunLoop emit (format.length + 1) format) ⟨context, arguments, 0⟩ with
  | mk answer state =>
      rw [heq] at hundefined
      cases hundefined
      rfl

theorem formatRun_refuses (haccepts : ∀ context byte, (emit context byte).1 = true)
    (hnamed : ¬AllNamed (directives format)) (hle : bytes.length ≤ intMaximum) (context : σ) :
    (formatRun emit context (some format) arguments).1 = some (-1) := by
  have hfailed := (formatRunLoop_writes (s := ⟨context, arguments, 0⟩) haccepts
    (Nat.lt_succ_self format.length) hproduces).2 hnamed (Nat.zero_le _)
  rw [if_pos (by dsimp only; omega)] at hfailed
  unfold formatRun
  dsimp only
  cases heq : outcome (formatRunLoop emit (format.length + 1) format) ⟨context, arguments, 0⟩ with
  | mk answer state =>
      rw [heq] at hfailed
      cases hfailed
      rfl

theorem vsnprintf_stores (hnamed : AllNamed (directives format))
    (hle : bytes.length ≤ intMaximum) (buffer : Bytes) {size : ℕ} (hsize : 0 < size) :
    vsnprintf (some buffer) size (some format) arguments =
      (some (bytes.length : ℤ), some fun i ↦ (bytes.take (size - 1) ++ [0]).getD i (buffer i)) := by
  have hlength : min (size - 1) bytes.length = (bytes.take (size - 1)).length :=
    List.length_take.symm
  unfold vsnprintf
  rw [if_neg fun h ↦ absurd h.1 nofun,
    formatRun_accepted hproduces formatEmitToArray_accepts hnamed hle, foldl_formatEmitToArray]
  dsimp only
  rw [if_neg hsize.ne', Option.map_map, hlength]
  rw [Option.map_some]
  congr 2
  exact update_getD _ buffer 0

theorem vsnprintf_zero (hnamed : AllNamed (directives format))
    (hle : bytes.length ≤ intMaximum) (buffer : Option Bytes) :
    vsnprintf buffer 0 (some format) arguments = (some (bytes.length : ℤ), buffer) := by
  have hsame : (fun (stored : Bytes) (i : ℕ) ↦ (bytes.take 0).getD i (stored i)) = id := by
    funext stored i
    rw [List.take_zero]
    rfl
  unfold vsnprintf
  rw [if_neg fun h ↦ h.2 rfl,
    formatRun_accepted hproduces formatEmitToArray_accepts hnamed hle, foldl_formatEmitToArray]
  dsimp only
  rw [if_pos rfl, Nat.zero_sub, hsame, Option.map_id_apply]

end Engine

def FormatRefuses (format : List UInt8) : Prop :=
  ∃ specification, .conversion specification ∈ directives format ∧
    (¬specification.Named ∨ specification.Wide)

/-- The result is negative where a conversion is not implemented.  Otherwise the engine
produces what is rendered and answers with its length, and a bounded array of `size`
bytes gets the first `size - 1` of it and a terminator. -/
def FormatMeets (format : List UInt8) (arguments : List FormatArgument)
    (bytes : List UInt8) : Prop :=
  (FormatRefuses format →
    ∃ result < 0, (formatRun formatRecord [] (some format) arguments).1 = some result) ∧
  (¬FormatRefuses format →
    formatRun formatRecord [] (some format) arguments = (some (bytes.length : ℤ), bytes) ∧
    (∀ buffer size, 0 < size → vsnprintf (some buffer) size (some format) arguments =
      (some (bytes.length : ℤ), some fun i ↦ (bytes.take (size - 1) ++ [0]).getD i (buffer i))) ∧
    ∀ buffer, vsnprintf buffer 0 (some format) arguments = (some (bytes.length : ℤ), buffer))

/-- The engine meets its specification where an `int` tells the length of the output,
unless there is a conversion of wide characters, and none that is not named. -/
theorem formatMeets_iff {format : List UInt8} {arguments : List FormatArgument}
    (hrendering : rendering (directives format) arguments = some bytes) :
    FormatMeets format arguments bytes ↔
      bytes.length ≤ intMaximum ∧
        (AllNamed (directives format) → ∀ specification,
          .conversion specification ∈ directives format → ¬specification.Wide) := by
  have haccepts : ∀ written byte, (formatRecord written byte).1 = true := fun _ _ ↦ rfl
  have hproduces := produces_of_rendering hrendering
  constructor
  · intro hmeets
    by_cases hle : bytes.length ≤ intMaximum
    · refine ⟨hle, fun hnamed specification hmem hwide ↦ ?_⟩
      obtain ⟨result, hneg, hresult⟩ := hmeets.1 ⟨specification, hmem, Or.inr hwide⟩
      rw [formatRun_accepted hproduces haccepts hnamed hle] at hresult
      cases hresult
      omega
    · have hnone := formatRun_overflows hproduces haccepts (not_le.mp hle) []
      by_cases hrefuses : FormatRefuses format
      · obtain ⟨result, -, hresult⟩ := hmeets.1 hrefuses
        rw [hnone] at hresult
        cases hresult
      · have hresult := congrArg Prod.fst (hmeets.2 hrefuses).1
        rw [hnone] at hresult
        cases hresult
  · rintro ⟨hle, hwide⟩
    refine ⟨fun hrefuses ↦ ?_, fun hrefuses ↦ ?_⟩
    · refine ⟨-1, by decide, formatRun_refuses hproduces haccepts (fun hnamed ↦ ?_) hle []⟩
      obtain ⟨specification, hmem, hcases⟩ := hrefuses
      rcases hcases with hunnamed | hiswide
      · exact hunnamed (hnamed specification hmem)
      · exact hwide hnamed specification hmem hiswide
    · have hnamed : AllNamed (directives format) := fun specification hmem ↦
        not_not.mp fun hunnamed ↦ hrefuses ⟨specification, hmem, Or.inl hunnamed⟩
      refine ⟨?_, fun buffer size hsize ↦ vsnprintf_stores hproduces hnamed hle buffer hsize,
        vsnprintf_zero hproduces hnamed hle⟩
      rw [formatRun_accepted hproduces haccepts hnamed hle, foldl_formatRecord, List.nil_append]

/-- A number in a field of five. -/
theorem formatMeets_iff_number :
    FormatMeets ("%5d".toList.map byteOf) [.word 42] ("   42".toList.map byteOf) ↔
      ("   42".toList.map byteOf).length ≤ intMaximum ∧
        (AllNamed (directives ("%5d".toList.map byteOf)) → ∀ specification,
          .conversion specification ∈ directives ("%5d".toList.map byteOf) →
            ¬specification.Wide) := by
  apply formatMeets_iff
  change rendering (directives (byteOf '%' :: [byteOf '5', byteOf 'd'])) _ = _
  rw [directives_percent, (by rfl : (FormatSpecification.read [byteOf '5', byteOf 'd']).2 = []),
    directives_nil]
  decide

/-- `%lc` is not refused: the euro sign comes out as the byte 172. -/
theorem not_formatMeets_wide : ¬∀ format arguments bytes,
    rendering (directives format) arguments = some bytes →
      FormatMeets format arguments bytes := by
  have hread : (FormatSpecification.read [byteOf 'l', byteOf 'c']).2 = [] := rfl
  have hdirectives : directives ("%lc".toList.map byteOf) =
      [.conversion (FormatSpecification.read [byteOf 'l', byteOf 'c']).1] := by
    change directives (byteOf '%' :: [byteOf 'l', byteOf 'c']) = _
    rw [directives_percent, hread, directives_nil]
  intro hall
  have hmeets := hall ("%lc".toList.map byteOf) [.word 0x20AC] [0xAC]
    (by rw [hdirectives]; decide)
  have hrefuses : FormatRefuses ("%lc".toList.map byteOf) := by
    refine ⟨(FormatSpecification.read [byteOf 'l', byteOf 'c']).1, ?_, Or.inr ?_⟩
    · rw [hdirectives]
      exact List.mem_singleton.mpr rfl
    · decide
  obtain ⟨result, hneg, hresult⟩ := hmeets.1 hrefuses
  have hrun : (formatRun formatRecord [] (some ("%lc".toList.map byteOf)) [.word 0x20AC]).1 =
      some 1 := by decide
  rw [hrun] at hresult
  cases hresult
  exact absurd hneg (by decide)

end OxysOS.Libc
