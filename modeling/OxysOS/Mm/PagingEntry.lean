import OxysOS.Mm.Paging

/-!
# Entries of paging structures

What the masks of an entry select, and what a write of an entry is read back as.
-/

namespace OxysOS.Mm

open OxysOS.Library

variable {s : Machine} {table frame index i : ℕ} {entry flags : BitVec 64}

theorem getLsbD_addressMask (i : ℕ) :
    pageEntryAddressMask.getLsbD i = decide (12 ≤ i ∧ i < 52) := by
  by_cases hi : i < 64
  · have hbits : ∀ j : Fin 64,
        pageEntryAddressMask.getLsbD j = decide (12 ≤ j.val ∧ j.val < 52) := by decide
    exact hbits ⟨i, hi⟩
  · rw [BitVec.getLsbD_of_ge _ _ (by omega)]
    simp
    omega

theorem or_and_right (a b mask : BitVec 64) :
    (a ||| b) &&& mask = (a &&& mask) ||| (b &&& mask) := by
  apply BitVec.eq_of_getLsbD_eq
  intro i _
  simp [Bool.and_or_distrib_right]

theorem or_and_of_zero {a b mask : BitVec 64} (h : b &&& mask = 0) :
    (a ||| b) &&& mask = a &&& mask := by
  rw [or_and_right, h]
  exact BitVec.or_zero

theorem and_or_of_and {a b mask : BitVec 64} (h : b &&& mask = mask) :
    (a ||| b) &&& mask = mask := by
  apply BitVec.eq_of_getLsbD_eq
  intro i _
  have hbit : (b.getLsbD i && mask.getLsbD i) = mask.getLsbD i := by
    rw [← BitVec.getLsbD_and, h]
  rw [BitVec.getLsbD_and, BitVec.getLsbD_or, Bool.and_or_distrib_right, hbit]
  cases mask.getLsbD i
  · rw [Bool.and_false]
    rfl
  · exact Bool.or_true _

theorem and_and_of_zero {a b mask : BitVec 64} (h : b &&& mask = 0) :
    a &&& b &&& mask = 0 := by
  rw [BitVec.and_assoc, h]
  exact BitVec.and_zero

theorem zero_and_present : (0 : BitVec 64) &&& pageEntryPresent = 0 := BitVec.zero_and

theorem user_and_address : pageEntryUser &&& pageEntryAddressMask = 0 := by decide

theorem user_and_present : pageEntryUser &&& pageEntryPresent = 0 := by decide

theorem user_and_large : pageEntryUser &&& pageEntryLarge = 0 := by decide

theorem address_or_user (entry flags : BitVec 64) :
    entryAddress (entry ||| (flags &&& pageEntryUser)) = entryAddress entry :=
  congrArg BitVec.toNat (or_and_of_zero (and_and_of_zero user_and_address))

theorem present_or_user (entry flags : BitVec 64) :
    (entry ||| (flags &&& pageEntryUser)) &&& pageEntryPresent = entry &&& pageEntryPresent :=
  or_and_of_zero (and_and_of_zero user_and_present)

theorem large_or_user (entry flags : BitVec 64) :
    (entry ||| (flags &&& pageEntryUser)) &&& pageEntryLarge = entry &&& pageEntryLarge :=
  or_and_of_zero (and_and_of_zero user_and_large)

theorem address_and_mask (hframe : frame < 2 ^ 40) :
    BitVec.ofNat 64 (frame * pageSize) &&& pageEntryAddressMask =
      BitVec.ofNat 64 (frame * pageSize) := by
  have hshift : frame * pageSize = frame <<< 12 := by
    rw [Nat.shiftLeft_eq]
    rfl
  apply BitVec.eq_of_getLsbD_eq
  intro i hi
  rw [BitVec.getLsbD_and, getLsbD_addressMask, BitVec.getLsbD_ofNat, hshift,
    Nat.testBit_shiftLeft]
  by_cases hlow : 12 ≤ i
  · by_cases hhigh : i < 52
    · simp [hlow, hhigh]
    · have hbit : frame.testBit (i - 12) = false :=
        Nat.testBit_lt_two_pow (lt_of_lt_of_le hframe (Nat.pow_le_pow_right (by omega) (by omega)))
      simp [hbit]
  · simp [hlow]

theorem toNat_frameAddress (hframe : frame < 2 ^ 40) :
    (BitVec.ofNat 64 (frame * pageSize)).toNat = frame * pageSize := by
  rw [BitVec.toNat_ofNat, Nat.mod_eq_of_lt]
  unfold pageSize
  omega

theorem address_of_flags (hframe : frame < 2 ^ 40) (hflags : flags &&& pageEntryAddressMask = 0) :
    entryAddress (BitVec.ofNat 64 (frame * pageSize) ||| flags) = frame * pageSize := by
  unfold entryAddress
  rw [or_and_of_zero hflags, address_and_mask hframe, toNat_frameAddress hframe]

theorem inheritedFlags_address (flags : BitVec 64) :
    inheritedFlags flags &&& pageEntryAddressMask = 0 := by
  unfold inheritedFlags
  rw [or_and_of_zero (and_and_of_zero user_and_address)]
  decide

theorem inheritedFlags_large (flags : BitVec 64) : inheritedFlags flags &&& pageEntryLarge = 0 := by
  unfold inheritedFlags
  rw [or_and_of_zero (and_and_of_zero user_and_large)]
  decide

theorem inheritedFlags_present (flags : BitVec 64) :
    inheritedFlags flags &&& pageEntryPresent = pageEntryPresent := by
  unfold inheritedFlags
  rw [or_and_of_zero (and_and_of_zero user_and_present)]
  decide

theorem frameAddress_and_large (hframe : frame < 2 ^ 40) :
    BitVec.ofNat 64 (frame * pageSize) &&& pageEntryLarge = 0 := by
  rw [← address_and_mask hframe, BitVec.and_assoc]
  have hdisjoint : pageEntryAddressMask &&& pageEntryLarge = 0 := by decide
  rw [hdisjoint]
  exact BitVec.and_zero

theorem frameIndexOf_mul (frame : ℕ) : frameIndexOf (frame * pageSize) = frame :=
  Nat.mul_div_cancel frame (by decide)

theorem entryAddress_aligned (entry : BitVec 64) :
    frameIndexOf (entryAddress entry) * pageSize = entryAddress entry := by
  have hlow : entryAddress entry % 2 ^ 12 = 0 := by
    apply Nat.eq_of_testBit_eq
    intro i
    rw [Nat.testBit_mod_two_pow]
    unfold entryAddress
    rw [BitVec.toNat_and, Nat.testBit_and]
    by_cases hi : i < 12
    · have hmask : pageEntryAddressMask.toNat.testBit i = false := by
        have := getLsbD_addressMask i
        simp only [BitVec.getLsbD] at this
        rw [this]
        simp
        omega
      simp [hmask]
    · simp [hi]
  unfold frameIndexOf pageSize
  omega

namespace Machine

theorem memory_writeFrame_self (s : Machine) (frame : ℕ) (bytes : Bytes) :
    (s.writeFrame frame bytes).memory frame = bytes := Function.update_self ..

theorem memory_writeFrame_of_ne {bytes : Bytes} (h : i ≠ frame) :
    (s.writeFrame frame bytes).memory i = s.memory i := Function.update_of_ne h ..

theorem slot_writeEntry_self (s : Machine) (table index : ℕ) (entry : BitVec 64) :
    (s.writeEntry table index entry).slot (frameIndexOf table) index = entry := by
  unfold slot writeEntry
  rw [memory_writeFrame_self, readField_writeField_of_lt entry.isLt, BitVec.ofNat_toNat,
    BitVec.setWidth_eq]

theorem slot_writeEntry_of_ne {j : ℕ} (h : ¬(frame = frameIndexOf table ∧ j = index)) :
    (s.writeEntry table index entry).slot frame j = s.slot frame j := by
  unfold slot writeEntry
  by_cases hframe : frame = frameIndexOf table
  · have hne : j ≠ index := fun hj ↦ h ⟨hframe, hj⟩
    rw [hframe, memory_writeFrame_self, readField_writeField_of_disjoint (by omega)]
  · rw [memory_writeFrame_of_ne hframe]

theorem slot_zeroFrame_self (s : Machine) (frame j : ℕ) :
    (s.zeroFrame frame).slot (frameIndexOf frame) j = 0 := by
  unfold slot zeroFrame
  rw [memory_writeFrame_self, readField_eq_zero fun _ _ _ ↦ rfl]
  rfl

theorem slot_zeroFrame_of_ne {j : ℕ} (h : i ≠ frameIndexOf frame) :
    (s.zeroFrame frame).slot i j = s.slot i j := by
  unfold slot zeroFrame
  rw [memory_writeFrame_of_ne h]

theorem memory_writeEntry_of_ne (h : frame ≠ frameIndexOf table) :
    (s.writeEntry table index entry).memory frame = s.memory frame :=
  Function.update_of_ne h ..

theorem memory_zeroFrame_of_ne (h : i ≠ frameIndexOf frame) :
    (s.zeroFrame frame).memory i = s.memory i := Function.update_of_ne h ..

@[simp] theorem frames_writeEntry : (s.writeEntry table index entry).frames = s.frames := rfl

@[simp] theorem frames_writeFrame {bytes : Bytes} : (s.writeFrame frame bytes).frames = s.frames := rfl

@[simp] theorem frames_zeroFrame : (s.zeroFrame frame).frames = s.frames := rfl

end Machine

end OxysOS.Mm
