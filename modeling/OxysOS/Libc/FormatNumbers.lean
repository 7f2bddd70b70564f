import OxysOS.Libc.FormatWrites

/-!
# Numbers in their fields

The digits that the engine makes, its zeroes and its spaces, against the reference.
-/

namespace OxysOS.Libc

open OxysOS.Library Action

variable {σ : Type} {emit : σ → UInt8 → Bool × σ} {s : Formatting σ} {shape : FormatShape}
  {flags : FormatFlags} {width precision : ℤ} {base n : ℕ} {upper negative : Bool}

theorem getD_formatAlphabet : ∀ upper, ∀ digit < 16,
    (formatAlphabet upper).getD digit 0 = digitByte upper digit := by decide

theorem formatDigitsLoop_eq (hbase : 2 ≤ base) (hle : base ≤ 16) {room : ℕ} (hpos : 0 < n)
    (hlt : n < base ^ room) :
    formatDigitsLoop base upper room n = (Nat.digits base n).map (digitByte upper) := by
  induction room generalizing n with
  | zero =>
      rw [pow_zero] at hlt
      omega
  | succ room ih =>
      have hdigit : n % base < 16 := (Nat.mod_lt n (by omega)).trans_le hle
      unfold formatDigitsLoop
      rw [Nat.digits_def' (by omega) hpos, List.map_cons, getD_formatAlphabet upper _ hdigit]
      congr 1
      by_cases hlast : n / base = 0
      · rw [if_pos hlast, hlast, Nat.digits_zero, List.map_nil]
      · rw [if_neg hlast]
        refine ih (Nat.pos_of_ne_zero hlast) ?_
        apply Nat.div_lt_of_lt_mul
        rwa [← pow_succ']

theorem formatDigits_zero (base : ℕ) (upper : Bool) :
    formatDigits 0 base upper = [byteOf '0'] := by
  unfold formatDigits formatDigitsMaximum formatDigitsLoop
  rw [Nat.zero_mod, Nat.zero_div, if_pos rfl]
  cases upper <;> rfl

theorem formatDigits_reverse (hbase : 2 ≤ base) (hle : base ≤ 16) (hpos : 0 < n)
    (hlt : n < base ^ formatDigitsMaximum) :
    (formatDigits n base upper).reverse = digitBytes base upper n :=
  congrArg List.reverse (formatDigitsLoop_eq hbase hle hpos hlt)

theorem digitBytes_zero (base : ℕ) (upper : Bool) : digitBytes base upper 0 = [] := by
  unfold digitBytes
  rw [Nat.digits_zero]
  rfl

def keptDigits (n base : ℕ) (upper : Bool) (precision : ℤ) : List UInt8 :=
  if precision = 0 ∧ n = 0 then [] else formatDigits n base upper

structure FormatShape.Suits (shape : FormatShape) (flags : FormatFlags)
    (width precision : ℤ) : Prop where
  left : flags.left = shape.has '-'
  zero : flags.zero = shape.has '0'
  alternate : flags.alternate = shape.has '#'
  width : width = shape.width
  precision : precision = shape.precision.elim (-1) Nat.cast

theorem FormatShape.Suits.precision_neg (h : shape.Suits flags width precision) :
    precision < 0 ↔ shape.precision = none := by
  rw [h.precision]
  cases shape.precision with
  | none => exact ⟨fun _ ↦ rfl, fun _ ↦ by decide⟩
  | some p => exact ⟨fun hneg ↦ absurd hneg (not_lt.mpr (Int.natCast_nonneg p)), nofun⟩

theorem FormatShape.Suits.digits (h : shape.Suits flags width precision) (hbase : 2 ≤ base)
    (hle : base ≤ 16) (hlt : n < base ^ formatDigitsMaximum) :
    List.replicate
        (precision - (keptDigits n base upper precision).length).toNat (byteOf '0') ++
      (keptDigits n base upper precision).reverse = shape.digits base upper n := by
  have hprecision := h.precision
  unfold FormatShape.digits keptDigits
  rcases Nat.eq_zero_or_pos n with rfl | hpos
  · rw [digitBytes_zero, formatDigits_zero, List.append_nil, List.length_nil, Nat.sub_zero]
    cases hcase : shape.precision with
    | none =>
        rw [hcase] at hprecision
        rw [hprecision]
        rfl
    | some p =>
        rw [hcase] at hprecision
        change precision = (p : ℤ) at hprecision
        subst hprecision
        cases p with
        | zero => rfl
        | succ p =>
            have hne : ¬(((p + 1 : ℕ) : ℤ) = 0 ∧ 0 = 0) := by omega
            have hcount : (((p + 1 : ℕ) : ℤ) - ([byteOf '0'].length : ℕ)).toNat = p := by
              rw [List.length_singleton]
              omega
            rw [if_neg hne, hcount, List.reverse_singleton, ← List.replicate_succ']
            rfl
  · have hne : ¬(precision = 0 ∧ n = 0) := by omega
    have hreverse : (formatDigits n base upper).reverse = digitBytes base upper n :=
      formatDigits_reverse hbase hle hpos hlt
    have hlength : (formatDigits n base upper).length = (digitBytes base upper n).length := by
      rw [← hreverse, List.length_reverse]
    have hsome : 1 ≤ (digitBytes base upper n).length := by
      unfold digitBytes
      rw [Nat.digits_def' (by omega) hpos, List.length_reverse, List.map_cons, List.length_cons]
      omega
    rw [if_neg hne, hreverse, hlength]
    congr 2
    cases hcase : shape.precision with
    | none =>
        rw [hcase] at hprecision
        change precision = -1 at hprecision
        rw [Option.getD_none]
        omega
    | some p =>
        rw [hcase] at hprecision
        change precision = (p : ℤ) at hprecision
        rw [Option.getD_some]
        omega

theorem intOfSum_eq {value : ℤ} (h : value ≤ intMaximum) : (intOfSum value : Format σ ℤ) = pure value :=
  if_pos h

def fieldSpaces (width : ℤ) (body : ℤ) : ℤ := if width > body then width - body else 0

theorem fieldSpaces_toNat {body : ℕ} (hwidth : width = shape.width) :
    (fieldSpaces width body).toNat = shape.width - body := by
  unfold fieldSpaces
  split <;> omega

theorem FormatShape.Suits.number (h : shape.Suits flags width precision) (lead digits : List UInt8)
    {zeroes body : ℕ} {spaces : ℤ} (hbody : body = lead.length + zeroes + digits.length)
    (hspaces : spaces = fieldSpaces width body) {inside : Prop} [Decidable inside]
    (hinside : inside ↔ flags.zero ∧ ¬flags.left ∧ precision < 0 ∧ spaces > 0) :
    (if flags.left then
        (lead ++ (List.replicate (if inside then zeroes + spaces else zeroes).toNat (byteOf '0') ++
          digits)) ++ List.replicate (if inside then 0 else spaces).toNat (byteOf ' ')
      else List.replicate (if inside then 0 else spaces).toNat (byteOf ' ') ++
        (lead ++ (List.replicate (if inside then zeroes + spaces else zeroes).toNat (byteOf '0') ++
          digits))) =
      shape.number lead (List.replicate zeroes (byteOf '0') ++ digits) := by
  have hcount : spaces.toNat = shape.width - body := by
    rw [hspaces, fieldSpaces_toNat h.width]
  have hnonneg : 0 ≤ spaces := by
    rw [hspaces]
    unfold fieldSpaces
    split <;> omega
  have hlength : (lead ++ (List.replicate zeroes (byteOf '0') ++ digits)).length = body := by
    rw [List.length_append, List.length_append, List.length_replicate, hbody, Nat.add_assoc]
  unfold FormatShape.number FormatShape.field
  rw [h.left, h.zero, h.precision_neg] at hinside
  rw [h.left, hlength, ← List.length_append, hlength, ← hcount]
  by_cases hzeroes : shape.has '0' ∧ ¬shape.has '-' ∧ shape.precision = none
  · rw [if_pos hzeroes, if_neg hzeroes.2.1]
    by_cases hpos : spaces > 0
    · have hin : inside := hinside.mpr ⟨hzeroes.1, hzeroes.2.1, hzeroes.2.2, hpos⟩
      have hsum : (zeroes + spaces).toNat = spaces.toNat + zeroes := by omega
      rw [if_pos hin, if_pos hin, hsum, ← List.replicate_append_replicate, List.append_assoc,
        List.append_assoc]
      rfl
    · have hout : ¬inside := fun hin ↦ hpos (hinside.mp hin).2.2.2
      have hnone : spaces.toNat = 0 := by omega
      rw [if_neg hout, if_neg hout, hnone, Int.toNat_natCast, List.append_assoc]
      rfl
  · have hout : ¬inside := fun hin ↦
      hzeroes ⟨(hinside.mp hin).1, (hinside.mp hin).2.1, (hinside.mp hin).2.2.1⟩
    rw [if_neg hzeroes, if_neg hout, if_neg hout, Int.toNat_natCast]

theorem FormatShape.length_number_le (shape : FormatShape) (lead digits : List UInt8) :
    lead.length + digits.length ≤ (shape.number lead digits).length := by
  unfold FormatShape.number FormatShape.field
  split_ifs <;> simp

theorem writes_formatInteger (haccepts : ∀ context byte, (emit context byte).1 = true)
    (h : shape.Suits flags width precision) {zeroes : ℕ} {digits : List UInt8}
    (hdigits : keptDigits n base upper precision = digits)
    (hzeroes : formatZeroes digits base flags precision = zeroes) :
    Writes emit (formatInteger emit n base upper negative flags width precision) s s.arguments
      (shape.number (formatLead n base upper negative flags)
        (List.replicate zeroes (byteOf '0') ++ digits.reverse)) () := by
  unfold formatInteger
  dsimp only
  rw [show (if precision = 0 ∧ n = 0 then [] else formatDigits n base upper) = digits from hdigits,
    hzeroes]
  by_cases hfits : (((formatLead n base upper negative flags).length + zeroes + digits.length : ℕ) : ℤ)
      ≤ intMaximum
  · rw [intOfSum_eq (mod_cast hfits), pure_bind, ← h.number (formatLead n base upper negative flags)
        digits.reverse (by rw [List.length_reverse]) rfl Iff.rfl]
    apply writes_formatField haccepts
    intro s
    exact (writes_formatPuts haccepts).bind
      ((writes_formatPad haccepts _).bind (writes_formatPuts haccepts))
  · have hlong := shape.length_number_le (formatLead n base upper negative flags)
      (List.replicate zeroes (byteOf '0') ++ digits.reverse)
    rw [List.length_append, List.length_replicate, List.length_reverse] at hlong
    refine ⟨fun hle ↦ absurd hle (by omega), fun _ _ ↦ ?_⟩
    rw [intOfSum, if_neg (mod_cast hfits)]
    rfl

end OxysOS.Libc
