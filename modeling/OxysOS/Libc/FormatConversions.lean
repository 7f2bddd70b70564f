import OxysOS.Libc.FormatNumbers

/-!
# Conversions

Each conversion that is named writes what the reference renders, and any other is
refused before a character of it is written.
-/

namespace OxysOS.Libc

open OxysOS.Library Action

variable {σ : Type} {emit : σ → UInt8 → Bool × σ} {s : Formatting σ} {shape : FormatShape}
  {flags : FormatFlags} {width precision : ℤ} {base n : ℕ} {upper negative : Bool}

theorem formatZeroes_of_ne {digits : List UInt8} (h : base ≠ 8) :
    formatZeroes digits base flags precision = (precision - digits.length).toNat := by
  unfold formatZeroes
  dsimp only
  rw [if_neg fun hoctal ↦ h hoctal.2.1]
  split <;> omega

theorem formatZeroes_octal {digits : List UInt8} :
    formatZeroes digits 8 flags precision =
      if flags.alternate ∧ (precision - digits.length).toNat = 0 ∧
          digits.getLast? ≠ some (byteOf '0') then ((1 : ℕ) : ℤ)
      else ((precision - digits.length).toNat : ℤ) := by
  have hzeroes : (if precision > digits.length then precision - digits.length else 0) =
      ((precision - digits.length).toNat : ℤ) := by
    split <;> omega
  unfold formatZeroes
  dsimp only
  rw [hzeroes]
  by_cases halternate : flags.alternate ∧ (precision - digits.length).toNat = 0 ∧
      digits.getLast? ≠ some (byteOf '0')
  · rw [if_pos halternate, if_pos ⟨halternate.1, rfl, by omega, halternate.2.2⟩]
    rfl
  · rw [if_neg halternate, if_neg fun h ↦ halternate ⟨h.1, by omega, h.2.2.2⟩]

section Conversions

variable (haccepts : ∀ context byte, (emit context byte).1 = true)
  (h : shape.Suits flags width precision)
include haccepts h

theorem writes_formatInteger_of_ne (hne : base ≠ 8) (hbase : 2 ≤ base) (hle : base ≤ 16)
    (hlt : n < base ^ formatDigitsMaximum) :
    Writes emit (formatInteger emit n base upper negative flags width precision) s s.arguments
      (shape.number (formatLead n base upper negative flags) (shape.digits base upper n)) () := by
  rw [← h.digits hbase hle hlt]
  exact writes_formatInteger haccepts h rfl (formatZeroes_of_ne hne)

theorem writes_signed {value : ℤ} (hsign : flags.sign = shape.has '+')
    (hspace : flags.space = shape.has ' ') (hlt : value.natAbs ≤ 2 ^ 63) :
    Writes emit (formatInteger emit (formatMagnitude value) 10 false (value < 0) flags width
      precision) s s.arguments (shape.signed value) () := by
  have hmagnitude : formatMagnitude value = value.natAbs := by
    unfold formatMagnitude
    split <;> omega
  have hlead : formatLead value.natAbs 10 false (value < 0) flags =
      if value < 0 then [byteOf '-']
      else if shape.has '+' then [byteOf '+']
      else if shape.has ' ' then [byteOf ' ']
      else [] := by
    unfold formatLead
    rw [if_neg fun hhex ↦ absurd hhex.2.1 (by decide), hsign, hspace]
    simp only [decide_eq_true_eq]
  rw [hmagnitude]
  unfold FormatShape.signed
  rw [← hlead]
  apply writes_formatInteger_of_ne haccepts h (by decide) (by decide) (by decide)
  exact hlt.trans_lt (by decide)

theorem writes_unsigned (hsign : flags.sign = false) (hspace : flags.space = false)
    (hlt : n < 2 ^ 64) :
    Writes emit (formatInteger emit n 10 false false flags width precision) s s.arguments
      (shape.number [] (shape.digits 10 false n)) () := by
  have hlead : formatLead n 10 false false flags = [] := by
    unfold formatLead
    rw [if_neg fun hhex ↦ absurd hhex.2.1 (by decide), hsign, hspace]
    rfl
  rw [← hlead]
  apply writes_formatInteger_of_ne haccepts h (by decide) (by decide) (by decide)
  exact hlt.trans (by decide)

theorem writes_hexadecimal (hsign : flags.sign = false) (hspace : flags.space = false)
    (hlt : n < 2 ^ 64) :
    Writes emit (formatInteger emit n 16 upper false flags width precision) s s.arguments
      (shape.hexadecimal upper n) () := by
  have hlead : formatLead n 16 upper false flags =
      if shape.has '#' ∧ n ≠ 0 then [byteOf '0', if upper then byteOf 'X' else byteOf 'x']
      else [] := by
    unfold formatLead
    rw [hsign, hspace, h.alternate]
    by_cases hnamed : shape.has '#' ∧ n ≠ 0
    · rw [if_pos hnamed, if_pos ⟨hnamed.1, rfl, hnamed.2⟩]
    · rw [if_neg hnamed, if_neg fun hhex ↦ hnamed ⟨hhex.1, hhex.2.2⟩]
      rfl
  unfold FormatShape.hexadecimal
  rw [← hlead]
  apply writes_formatInteger_of_ne haccepts h (by decide) (by decide) (by decide)
  exact hlt.trans (by decide)

theorem writes_octal (hsign : flags.sign = false) (hspace : flags.space = false)
    (hlt : n < 2 ^ 64) :
    Writes emit (formatInteger emit n 8 false false flags width precision) s s.arguments
      (shape.octal n) () := by
  have hlead : formatLead n 8 false false flags = [] := by
    unfold formatLead
    rw [if_neg fun hhex ↦ absurd hhex.2.1 (by decide), hsign, hspace]
    rfl
  have hdigits : List.replicate (precision - (keptDigits n 8 false precision).length).toNat
      (byteOf '0') ++ (keptDigits n 8 false precision).reverse = shape.digits 8 false n :=
    h.digits (by decide) (by decide) (hlt.trans (by decide : 2 ^ 64 < 8 ^ formatDigitsMaximum))
  generalize hkept : keptDigits n 8 false precision = kept at hdigits
  generalize hzeroes : (precision - kept.length).toNat = zeroes at hdigits
  have hhead : (shape.digits 8 false n).head? ≠ some (byteOf '0') ↔
      zeroes = 0 ∧ kept.getLast? ≠ some (byteOf '0') := by
    rw [← hdigits]
    cases zeroes with
    | zero =>
        rw [List.replicate_zero, List.nil_append, List.head?_reverse]
        exact ⟨fun hne ↦ ⟨rfl, hne⟩, fun hne ↦ hne.2⟩
    | succ zeroes => exact ⟨fun hne ↦ absurd rfl hne, fun hzero ↦ absurd hzero.1 (by omega)⟩
  unfold FormatShape.octal
  dsimp only
  by_cases hforced : flags.alternate ∧ zeroes = 0 ∧ kept.getLast? ≠ some (byteOf '0')
  · have hformat : formatZeroes kept 8 flags precision = (1 : ℕ) := by
      rw [formatZeroes_octal, hzeroes, if_pos hforced]
    have hzero : byteOf '0' :: shape.digits 8 false n =
        List.replicate 1 (byteOf '0') ++ kept.reverse := by
      rw [← hdigits, hforced.2.1]
      rfl
    rw [if_pos ⟨h.alternate ▸ hforced.1, hhead.mpr hforced.2⟩, hzero, ← hlead]
    exact writes_formatInteger haccepts h hkept hformat
  · have hformat : formatZeroes kept 8 flags precision = zeroes := by
      rw [formatZeroes_octal, hzeroes, if_neg hforced]
    rw [if_neg fun hasked ↦ hforced ⟨h.alternate ▸ hasked.1, hhead.mp hasked.2⟩, ← hdigits, ← hlead]
    exact writes_formatInteger haccepts h hkept hformat

end Conversions

theorem intOfSize_eq (hle : n ≤ intMaximum) : intOfSize n = n := by
  unfold intOfSize
  rw [BitVec.toInt_ofNat']
  apply Int.bmod_eq_of_le <;> unfold intMaximum at hle <;> omega

def keptText (precision : Option ℕ) (text : List UInt8) : List UInt8 :=
  match precision with
  | some precision => (text.takeWhile (· ≠ 0)).take precision
  | none => text.takeWhile (· ≠ 0)

theorem keptText_sublist (precision : Option ℕ) (text : List UInt8) :
    keptText precision text = text.take (keptText precision text).length := by
  refine List.prefix_iff_eq_take.mp ?_
  cases precision with
  | none => exact List.takeWhile_prefix _
  | some p => exact (List.take_prefix p _).trans (List.takeWhile_prefix _)

theorem formatStringLength_eq (precision : Option ℕ) (k : ℕ) (text : List UInt8) :
    formatStringLength (precision.elim (-1) Nat.cast) k text =
      k + (keptText (precision.map (· - k)) text).length := by
  induction text generalizing k with
  | nil =>
      cases precision with
      | none => rfl
      | some p =>
          simp only [keptText, Option.map_some, List.takeWhile_nil, List.take_nil]
          rfl
  | cons byte text ih =>
      unfold formatStringLength
      by_cases hend : byte = 0
      · have hnone : (byte :: text).takeWhile (· ≠ 0) = [] := by
          rw [hend]
          rfl
        rw [if_pos hend]
        cases precision with
        | none => simp only [keptText, Option.map_none, hnone, List.length_nil, Nat.add_zero]
        | some p =>
            simp only [keptText, Option.map_some, hnone, List.take_nil, List.length_nil,
              Nat.add_zero]
      · have hmore : (byte :: text).takeWhile (· ≠ 0) = byte :: text.takeWhile (· ≠ 0) :=
          List.takeWhile_cons_of_pos (decide_eq_true hend)
        rw [if_neg hend, ih]
        cases precision with
        | none =>
            have hunbounded : ¬((none : Option ℕ).elim (-1) Nat.cast ≥ (0 : ℤ) ∧
                (k : ℤ) ≥ (none : Option ℕ).elim (-1) Nat.cast) := fun h ↦ absurd h.1 (by decide)
            rw [if_neg hunbounded]
            simp only [keptText, Option.map_none, hmore, List.length_cons]
            omega
        | some p =>
            change (if (p : ℤ) ≥ 0 ∧ (k : ℤ) ≥ p then k else _) = _
            by_cases hfull : p ≤ k
            · rw [if_pos ⟨by omega, by omega⟩]
              simp only [keptText, Option.map_some, Nat.sub_eq_zero_of_le hfull, List.take_zero,
                List.length_nil, Nat.add_zero]
            · have hleft : p - k = p - (k + 1) + 1 := by omega
              rw [if_neg fun h ↦ hfull (by omega)]
              simp only [keptText, Option.map_some, hmore, hleft, List.take_succ_cons,
                List.length_cons]
              omega

theorem FormatShape.Suits.field (h : shape.Suits flags width precision) {bytes : List UInt8}
    {body : ℤ} (hbody : body = bytes.length) :
    (if flags.left then
        bytes ++ List.replicate (fieldSpaces width body).toNat (byteOf ' ')
      else List.replicate (fieldSpaces width body).toNat (byteOf ' ') ++ bytes) =
      shape.field bytes := by
  unfold FormatShape.field
  rw [hbody, fieldSpaces_toNat h.width, h.left]

def FormatShape.pointed (shape : FormatShape) : FormatShape where
  flags := if shape.has '-' then [byteOf '-', byteOf '#'] else [byteOf '#']
  width := shape.width
  precision := some 1

theorem FormatShape.pointed_flags (shape : FormatShape) :
    shape.pointed.has '-' = shape.has '-' ∧ shape.pointed.has '0' = false ∧
      shape.pointed.has '#' = true := by
  unfold pointed
  generalize shape.has '-' = left
  cases left <;> exact ⟨rfl, rfl, rfl⟩

theorem FormatShape.pointed_number (shape : FormatShape) (lead digits : List UInt8) :
    shape.pointed.number lead digits = shape.field (lead ++ digits) := by
  have hspaced : ¬(shape.pointed.has '0' ∧ ¬shape.pointed.has '-' ∧
      shape.pointed.precision = none) := fun hzeroes ↦ Option.some_ne_none 1 hzeroes.2.2
  unfold number
  rw [if_neg hspaced]
  unfold field
  rw [shape.pointed_flags.1]
  rfl

section Strings

variable (haccepts : ∀ context byte, (emit context byte).1 = true)
  (h : shape.Suits flags width precision)
include haccepts h

theorem writes_formatField_field {result : Format σ Unit} {bytes : List UInt8} {body : ℤ}
    (hbody : body = bytes.length)
    (hresult : ∀ s : Formatting σ, Writes emit result s s.arguments bytes ()) :
    Writes emit (formatField emit flags.left (fieldSpaces width body) result) s s.arguments
      (shape.field bytes) () := by
  rw [← h.field hbody]
  exact writes_formatField haccepts hresult

theorem writes_formatString (hwidth : width ≤ intMaximum) (string : Option (List UInt8)) :
    Writes emit (formatString emit string flags width precision) s s.arguments
      (shape.text string) () := by
  unfold formatString FormatShape.text
  dsimp only
  generalize string.getD ("(null)".toList.map byteOf) = text
  have hlength : formatStringLength precision 0 text =
      (keptText shape.precision text).length := by
    rw [h.precision, formatStringLength_eq, Nat.zero_add]
    cases shape.precision <;> rfl
  change Writes emit _ s s.arguments (shape.field (keptText shape.precision text)) ()
  rw [hlength, ← keptText_sublist]
  generalize keptText shape.precision text = bytes
  by_cases hfits : bytes.length ≤ intMaximum
  · have hspaces : (formatSpaces width bytes.length : Format σ ℤ) =
        pure (fieldSpaces width bytes.length) := by
      unfold formatSpaces fieldSpaces
      rw [intOfSize_eq hfits]
      split
      · apply intOfSum_eq
        omega
      · rfl
    rw [hspaces, pure_bind]
    exact writes_formatField_field haccepts h rfl fun _ ↦ writes_formatPuts haccepts
  · -- a string that is longer than an `int` tells is too much whatever its padding is
    have hlong : intMaximum < s.produced + (shape.field bytes).length := by
      unfold FormatShape.field
      dsimp only
      split <;> rw [List.length_append] <;> omega
    have hany : (formatSpaces width bytes.length : Format σ ℤ) = throw .undefined ∨
        ∃ spaces, (formatSpaces width bytes.length : Format σ ℤ) = pure spaces := by
      unfold formatSpaces intOfSum
      split_ifs
      · exact Or.inr ⟨_, rfl⟩
      · exact Or.inl rfl
      · exact Or.inr ⟨0, rfl⟩
    refine ⟨fun hle ↦ absurd hlong (not_lt.mpr hle), fun hle _ ↦ ?_⟩
    rcases hany with hthrow | ⟨spaces, hpure⟩
    · rw [hthrow]
      rfl
    · rw [hpure, pure_bind]
      refine (writes_formatField haccepts fun _ ↦ writes_formatPuts haccepts).overflows hle ?_
      split <;> rw [List.length_append] <;> omega

theorem writes_formatCharacter {value : BitVec 64} {left : List FormatArgument}
    (htaken : takeWord s.arguments = some (value, left)) :
    Writes emit (formatCharacter emit flags width) s left
      (shape.field [UInt8.ofNat (value.setWidth 8).toNat]) () :=
  (writes_vaWord htaken).take
    (writes_formatField_field haccepts h rfl fun _ ↦ writes_formatPut haccepts)

theorem writes_formatPointer (hwidth : width ≤ intMaximum) {value : BitVec 64}
    {left : List FormatArgument} (htaken : takeWord s.arguments = some (value, left)) :
    Writes emit (formatPointer emit flags width) s left (shape.pointer value.toNat) () := by
  refine (writes_vaWord htaken).take ?_
  by_cases hnull : value = 0
  · have hshape : ({ shape with precision := none } : FormatShape).Suits flags width (-1) :=
      ⟨h.left, h.zero, h.alternate, h.width, rfl⟩
    rw [if_pos hnull, hnull]
    exact writes_formatString haccepts hshape hwidth _
  · have hpos : value.toNat ≠ 0 := fun hzero ↦ hnull (BitVec.eq_of_toNat_eq hzero)
    obtain ⟨hleft, hzero, halternate⟩ := shape.pointed_flags
    have hsuits : shape.pointed.Suits { left := flags.left, alternate := true } width 1 :=
      ⟨h.left.trans hleft.symm, hzero.symm, halternate.symm, h.width, rfl⟩
    have hdigits : shape.pointed.digits 16 false value.toNat = digitBytes 16 false value.toNat := by
      have hsome : 1 ≤ (digitBytes 16 false value.toNat).length := by
        unfold digitBytes
        rw [Nat.digits_def' (by decide) (Nat.pos_of_ne_zero hpos), List.length_reverse,
          List.map_cons, List.length_cons]
        omega
      unfold FormatShape.digits
      change List.replicate (1 - _) _ ++ _ = _
      rw [Nat.sub_eq_zero_of_le hsome]
      rfl
    have hbased : (if shape.pointed.has '#' ∧ value.toNat ≠ 0 then
        [byteOf '0', if false then byteOf 'X' else byteOf 'x'] else []) =
        [byteOf '0', byteOf 'x'] := if_pos ⟨halternate, hpos⟩
    have hpointer : shape.pointer value.toNat = shape.pointed.hexadecimal false value.toNat := by
      unfold FormatShape.hexadecimal FormatShape.pointer
      rw [if_neg hpos, hdigits, hbased, FormatShape.pointed_number]
    rw [if_neg hnull, hpointer]
    exact writes_hexadecimal haccepts hsuits rfl rfl value.isLt

end Strings

theorem mem_named {conversion : UInt8} : conversion ∈ "diouxXcsp%".toList.map byteOf ↔
    (conversion = byteOf 'd' ∨ conversion = byteOf 'i') ∨
    (conversion = byteOf 'o' ∨ conversion = byteOf 'u' ∨ conversion = byteOf 'x' ∨
      conversion = byteOf 'X') ∨
    conversion = byteOf 'c' ∨ conversion = byteOf 's' ∨ conversion = byteOf 'p' ∨
    conversion = byteOf '%' := by
  change conversion ∈ [byteOf 'd', byteOf 'i', byteOf 'o', byteOf 'u', byteOf 'x', byteOf 'X',
    byteOf 'c', byteOf 's', byteOf 'p', byteOf '%'] ↔ _
  simp only [List.mem_cons, List.not_mem_nil, or_false, or_assoc]

theorem formatConvert_of_not_named {conversion : UInt8} {length : FormatLength}
    (h : conversion ∉ "diouxXcsp%".toList.map byteOf) :
    formatConvert emit conversion flags length width precision = throw .failed := by
  rw [mem_named] at h
  unfold formatConvert
  rw [if_neg fun hc ↦ h (Or.inl hc), if_neg fun hc ↦ h (Or.inr (Or.inl hc)),
    if_neg fun hc ↦ h (Or.inr (Or.inr (Or.inl hc))),
    if_neg fun hc ↦ h (Or.inr (Or.inr (Or.inr (Or.inl hc)))),
    if_neg fun hc ↦ h (Or.inr (Or.inr (Or.inr (Or.inr (Or.inl hc))))),
    if_neg fun hc ↦ h (Or.inr (Or.inr (Or.inr (Or.inr (Or.inr hc)))))]

theorem writes_formatConvert (haccepts : ∀ context byte, (emit context byte).1 = true)
    (h : shape.Suits flags width precision) (hwidth : width ≤ intMaximum)
    (hsign : flags.sign = shape.has '+') (hspace : flags.space = shape.has ' ')
    {specification : FormatSpecification} (hnamed : specification.Named) {bytes : List UInt8}
    {left : List FormatArgument}
    (hconvert : specification.convert shape s.arguments = some (bytes, left)) :
    Writes emit (formatConvert emit specification.conversion flags specification.length width
      precision) s left bytes () := by
  have hunsigned : shape.Suits { flags with sign := false, space := false } width precision :=
    ⟨h.left, h.zero, h.alternate, h.width, h.precision⟩
  have hbits : ∀ value : BitVec 64, (value.setWidth specification.length.bits).toNat < 2 ^ 64 :=
    fun value ↦ by
      have hle : 2 ^ specification.length.bits ≤ 2 ^ 64 :=
        Nat.pow_le_pow_right (by decide) (by cases specification.length <;> decide)
      exact (BitVec.isLt _).trans_le hle
  obtain ⟨given, _, _, length, conversion⟩ := specification
  unfold FormatSpecification.convert at hconvert
  unfold formatConvert
  dsimp only at hconvert hbits ⊢
  rcases mem_named.mp hnamed with hc | hc | rfl | rfl | rfl | rfl
  · rw [if_pos (by rcases hc with rfl | rfl <;> decide)] at hconvert
    rw [if_pos hc]
    obtain ⟨⟨value, rest⟩, htaken, heq⟩ := Option.map_eq_some_iff.mp hconvert
    cases heq
    have hmagnitude : (value.setWidth length.bits).toInt.natAbs ≤ 2 ^ 63 := by
      have hle : 2 ^ (length.bits - 1) ≤ 2 ^ 63 :=
        Nat.pow_le_pow_right (by decide) (by cases length <;> decide)
      have hlow := BitVec.le_toInt (value.setWidth length.bits)
      have hhigh := BitVec.toInt_lt (x := value.setWidth length.bits)
      have hcast : ((2 ^ (length.bits - 1) : ℕ) : ℤ) = 2 ^ (length.bits - 1) := by push_cast; rfl
      omega
    exact (writes_formatSigned length htaken).take
      (writes_signed haccepts h hsign hspace hmagnitude)
  · have hsigned : ¬(conversion = byteOf 'd' ∨ conversion = byteOf 'i') := by
      rcases hc with rfl | rfl | rfl | rfl <;> decide
    rw [if_neg hsigned, if_pos hc]
    rw [if_neg (by rcases hc with rfl | rfl | rfl | rfl <;> decide)] at hconvert
    rcases hc with rfl | rfl | hc
    · rw [if_pos rfl] at hconvert
      obtain ⟨⟨value, rest⟩, htaken, heq⟩ := Option.map_eq_some_iff.mp hconvert
      cases heq
      exact (writes_formatUnsigned length htaken).take
        (writes_octal haccepts hunsigned rfl rfl (hbits value))
    · rw [if_neg (by decide), if_pos rfl] at hconvert
      obtain ⟨⟨value, rest⟩, htaken, heq⟩ := Option.map_eq_some_iff.mp hconvert
      cases heq
      exact (writes_formatUnsigned length htaken).take
        (writes_unsigned haccepts hunsigned rfl rfl (hbits value))
    · rw [if_neg (by rcases hc with rfl | rfl <;> decide),
        if_neg (by rcases hc with rfl | rfl <;> decide),
        if_pos (by rcases hc with rfl | rfl <;> decide)] at hconvert
      obtain ⟨⟨value, rest⟩, htaken, heq⟩ := Option.map_eq_some_iff.mp hconvert
      cases heq
      have hbase : (if conversion = byteOf 'o' then 8 else if conversion = byteOf 'u' then 10
          else 16) = 16 := by
        rcases hc with rfl | rfl <;> decide
      refine (writes_formatUnsigned length htaken).take ?_
      rw [hbase]
      exact writes_hexadecimal haccepts hunsigned rfl rfl (hbits value)
  · rw [if_neg (by decide), if_neg (by decide), if_neg (by decide), if_neg (by decide),
      if_pos rfl] at hconvert
    rw [if_neg (by decide), if_neg (by decide), if_pos rfl]
    obtain ⟨⟨value, rest⟩, htaken, heq⟩ := Option.map_eq_some_iff.mp hconvert
    cases heq
    exact writes_formatCharacter haccepts h htaken
  · rw [if_neg (by decide), if_neg (by decide), if_neg (by decide), if_neg (by decide),
      if_neg (by decide), if_pos rfl] at hconvert
    rw [if_neg (by decide), if_neg (by decide), if_neg (by decide), if_pos rfl]
    obtain ⟨⟨string, rest⟩, htaken, heq⟩ := Option.map_eq_some_iff.mp hconvert
    cases heq
    exact (writes_vaString htaken).take
      (writes_formatString haccepts h hwidth string)
  · rw [if_neg (by decide), if_neg (by decide), if_neg (by decide), if_neg (by decide),
      if_neg (by decide), if_neg (by decide), if_pos rfl] at hconvert
    rw [if_neg (by decide), if_neg (by decide), if_neg (by decide), if_neg (by decide),
      if_pos rfl]
    obtain ⟨⟨value, rest⟩, htaken, heq⟩ := Option.map_eq_some_iff.mp hconvert
    cases heq
    exact writes_formatPointer haccepts h hwidth htaken
  · rw [if_neg (by decide), if_neg (by decide), if_neg (by decide), if_neg (by decide),
      if_neg (by decide), if_neg (by decide), if_neg (by decide)] at hconvert
    rw [if_neg (by decide), if_neg (by decide), if_neg (by decide), if_neg (by decide),
      if_neg (by decide), if_pos rfl]
    cases hconvert
    exact writes_formatPut haccepts

end OxysOS.Libc
