import OxysOS.Library.Mixing
import Mathlib.Algebra.BigOperators.Group.List.Basic
import Mathlib.Data.Finite.Prod
import Mathlib.Data.Fintype.EquivFin
import Mathlib.Algebra.GroupWithZero.Nat
import Mathlib.Data.FinEnum

/-!
# The entropy pool

A sample is mixed into one word of the pool, and the next goes seven words further on with another
rotation.  Where a sample goes depends upon no word and no sample, so a run of samples is a run of
steps, each of which loses nothing.
-/

namespace OxysOS.Crypto

open OxysOS.Library Function

def entropyPoolWords : ℕ := 64

def entropyPoolBits : ℕ := entropyPoolWords * 64

def entropyEighths : ℕ := 8

def entropyMultiplier : UInt64 := 0x9E3779B97F4A7C15

def entropyStride : ℕ := 7

def entropyJitterCredit : UInt32 := 4

def entropyJitterCutoff : UInt32 := 41

inductive EntropySource
  | seed | value | jitter
  deriving DecidableEq

abbrev EntropyWords := Fin entropyPoolWords → UInt64

structure EntropyPool where
  words : EntropyWords
  position : Fin entropyPoolWords
  rotation : UInt32
  credit : UInt64
  samples : EntropySource → UInt64
  credited : EntropySource → UInt64
  jitterLast : UInt64
  jitterDelta : UInt64
  jitterRepeats : UInt32
  jitterFailures : UInt64
  /-- The credit is never above the pool's extent. -/
  credit_le : credit.toNat ≤ entropyPoolBits * entropyEighths

def entropyRotate (value : UInt64) (amount : UInt32) : UInt64 :=
  let amount := amount &&& 63
  if amount = 0 then value
  else (value <<< amount.toUInt64) ||| (value >>> (64 - amount).toUInt64)

def entropyPoolInitialise : EntropyPool where
  words _ := 0
  position := ⟨0, by decide⟩
  rotation := 0
  credit := 0
  samples _ := 0
  credited _ := 0
  jitterLast := 0
  jitterDelta := 0
  jitterRepeats := 0
  jitterFailures := 0
  credit_le := Nat.zero_le _

def entropyCeiling : UInt64 := 64 * 64 * 8

def entropyCredit (credit : UInt64) (eighths : UInt32) : UInt64 :=
  if credit + eighths.toUInt64 > entropyCeiling then entropyCeiling
  else credit + eighths.toUInt64

def entropyBefore (here : Fin entropyPoolWords) : Fin entropyPoolWords :=
  ⟨(here + entropyPoolWords - 1) % entropyPoolWords, Nat.mod_lt _ (by decide)⟩

def entropyAfter (here : Fin entropyPoolWords) : Fin entropyPoolWords :=
  ⟨(here + entropyStride) % entropyPoolWords, Nat.mod_lt _ (by decide)⟩

def entropyWord (rotation : UInt32) (sample neighbour word : UInt64) : UInt64 :=
  let word := word ^^^ entropyRotate sample rotation
  let word := word * entropyMultiplier
  let word := word ^^^ (word >>> 29)
  word + neighbour

theorem entropyCredit_le (credit : UInt64) (eighths : UInt32) :
    (entropyCredit credit eighths).toNat ≤ entropyPoolBits * entropyEighths := by
  unfold entropyCredit
  split_ifs with hover
  · exact Nat.le_refl _
  · exact UInt64.le_iff_toNat_le.mp (UInt64.not_lt.mp hover)

/-- `EntropyAdd`, whose source is one of those that are counted. -/
def entropyAdd (pool : EntropyPool) (source : EntropySource) (sample : UInt64)
    (eighths : UInt32) : EntropyPool :=
  { pool with
    words := update pool.words pool.position (entropyWord pool.rotation sample
      (pool.words (entropyBefore pool.position)) (pool.words pool.position))
    position := entropyAfter pool.position
    rotation := (pool.rotation + 13) &&& 63
    samples := update pool.samples source (pool.samples source + 1)
    credited := update pool.credited source (pool.credited source + eighths.toUInt64)
    credit := entropyCredit pool.credit eighths
    credit_le := entropyCredit_le pool.credit eighths }

def entropyAddJitter (pool : EntropyPool) (counter : UInt64) : Bool × EntropyPool :=
  let delta := counter - pool.jitterLast
  let first := pool.jitterLast = 0
  let repeats := if delta = pool.jitterDelta then pool.jitterRepeats + 1 else 1
  let credit := ¬first ∧ ¬repeats ≥ entropyJitterCutoff
  let held := { pool with
    jitterLast := counter
    jitterRepeats := if first then pool.jitterRepeats else repeats
    jitterDelta := if first then pool.jitterDelta else delta
    jitterFailures := if ¬first ∧ repeats = entropyJitterCutoff then pool.jitterFailures + 1
      else pool.jitterFailures }
  (credit, entropyAdd held .jitter (counter ^^^ entropyRotate delta 32)
    (if credit then entropyJitterCredit else 0))

/-- A call of `EntropyAdd`. -/
structure EntropySample where
  source : EntropySource
  sample : UInt64
  eighths : UInt32

def entropyRun (pool : EntropyPool) (calls : List EntropySample) : EntropyPool :=
  calls.foldl (fun pool call ↦ entropyAdd pool call.source call.sample call.eighths) pool

theorem entropyRotate_injective (amount : UInt32) :
    Injective fun value ↦ entropyRotate value amount := by
  have hless : (amount &&& 63).toNat < 64 := by
    rw [UInt32.toNat_and]
    exact Nat.lt_succ_of_le Nat.and_le_right
  unfold entropyRotate
  dsimp only
  generalize amount &&& 63 = amount at *
  split_ifs with hzero
  · exact fun _ _ hsame ↦ hsame
  · have hpositive : 0 < amount.toNat :=
      Nat.pos_of_ne_zero fun hnat ↦ hzero (UInt32.toNat_inj.mp hnat)
    have hrest : (64 - amount).toUInt64 = 64 - amount.toUInt64 := by
      refine UInt64.toNat_inj.mp ?_
      rw [UInt32.toNat_toUInt64, UInt32.toNat_sub_of_le _ _ (UInt32.le_iff_toNat_le.mpr hless.le),
        UInt64.toNat_sub_of_le _ _ (UInt64.le_iff_toNat_le.mpr (by exact hless.le)),
        UInt32.toNat_toUInt64]
      rfl
    rw [hrest]
    exact rotate_injective (by exact hpositive) (by exact hless)

theorem entropyMultiplier_inverse : entropyMultiplier * 0xF1DE83E19937733D = 1 := by decide

theorem entropyWord_injective (rotation : UInt32) (sample neighbour : UInt64) :
    Injective (entropyWord rotation sample neighbour) := by
  intro x y hsame
  have hadd := (UInt64.add_left_inj neighbour).mp hsame
  have hshift := xorShift_injective (by decide) hadd
  exact xor_right_injective _ (mul_injective_of_inverse entropyMultiplier_inverse hshift)

theorem entropyWord_sample (rotation : UInt32) (neighbour word : UInt64) :
    Injective fun sample ↦ entropyWord rotation sample neighbour word := by
  intro x y hsame
  have hadd := (UInt64.add_left_inj neighbour).mp hsame
  have hshift := xorShift_injective (by decide) hadd
  have hmul := mul_injective_of_inverse entropyMultiplier_inverse hshift
  exact entropyRotate_injective rotation (xor_left_injective word hmul)

theorem entropyBefore_ne (here : Fin entropyPoolWords) : entropyBefore here ≠ here := by
  intro hsame
  have hindex := congrArg Fin.val hsame
  have hhere := here.isLt
  unfold entropyBefore entropyPoolWords at *
  dsimp only at hindex
  omega

def entropyStep (here : Fin entropyPoolWords) (rotation : UInt32) (sample : UInt64) :
    EntropyWords → EntropyWords :=
  mixAt here fun words ↦ entropyWord rotation sample (words (entropyBefore here))

def entropySteps (here : Fin entropyPoolWords) (rotation : UInt32) :
    List UInt64 → List (EntropyWords → EntropyWords)
  | [] => []
  | sample :: samples => entropyStep here rotation sample ::
      entropySteps (entropyAfter here) ((rotation + 13) &&& 63) samples

theorem entropyStep_injective (here : Fin entropyPoolWords) (rotation : UInt32)
    (sample : UInt64) : Injective (entropyStep here rotation sample) := by
  refine Mixes.mixAt_injective ⟨fun words ↦ entropyWord_injective rotation sample _,
    fun words word ↦ ?_⟩
  rw [update_of_ne (entropyBefore_ne here)]

theorem entropyStep_sample (here : Fin entropyPoolWords) (rotation : UInt32)
    {sample sample' : UInt64} (hne : sample ≠ sample') (words : EntropyWords) :
    entropyStep here rotation sample words ≠ entropyStep here rotation sample' words := by
  intro hsame
  have hword := congrFun hsame here
  unfold entropyStep mixAt at hword
  rw [update_self, update_self] at hword
  exact hne (entropyWord_sample _ _ _ hword)

theorem entropySteps_injective (here : Fin entropyPoolWords) (rotation : UInt32)
    (samples : List UInt64) : ∀ step ∈ entropySteps here rotation samples, Injective step := by
  induction samples generalizing here rotation with
  | nil => exact fun step hmem ↦ absurd hmem List.not_mem_nil
  | cons sample samples ih =>
      intro step hmem
      rcases List.mem_cons.mp hmem with rfl | hmem
      · exact entropyStep_injective here rotation sample
      · exact ih _ _ step hmem

theorem entropySteps_append (here : Fin entropyPoolWords) (rotation : UInt32)
    (before : List UInt64) : ∃ here' rotation', ∀ after : List UInt64,
      entropySteps here rotation (before ++ after) =
        entropySteps here rotation before ++ entropySteps here' rotation' after := by
  induction before generalizing here rotation with
  | nil => exact ⟨here, rotation, fun after ↦ rfl⟩
  | cons sample before ih =>
      obtain ⟨here', rotation', hrest⟩ := ih (entropyAfter here) ((rotation + 13) &&& 63)
      exact ⟨here', rotation', fun after ↦
        congrArg (entropyStep here rotation sample :: ·) (hrest after)⟩

theorem entropyRun_words (pool : EntropyPool) (calls : List EntropySample) :
    (entropyRun pool calls).words =
      mixed (entropySteps pool.position pool.rotation (calls.map (·.sample))) pool.words := by
  induction calls generalizing pool with
  | nil => rfl
  | cons call calls ih => exact ih (entropyAdd pool call.source call.sample call.eighths)

theorem entropyCredit_eq {credit : UInt64} (h : credit.toNat ≤ entropyPoolBits * entropyEighths)
    (eighths : UInt32) : (entropyCredit credit eighths).toNat =
      min (entropyPoolBits * entropyEighths) (credit.toNat + eighths.toNat) := by
  have hbound := eighths.toNat_lt
  have hsum : (credit + eighths.toUInt64).toNat = credit.toNat + eighths.toNat := by
    unfold entropyPoolBits entropyPoolWords entropyEighths at h
    rw [UInt64.toNat_add, UInt32.toNat_toUInt64, Nat.mod_eq_of_lt (by omega)]
  unfold entropyCredit
  by_cases hover : credit + eighths.toUInt64 > entropyCeiling
  · have hnat := UInt64.lt_iff_toNat_lt.mp hover
    rw [hsum] at hnat
    rw [if_pos hover]
    exact (Nat.min_eq_left (Nat.le_of_lt hnat)).symm
  · have hnat := UInt64.le_iff_toNat_le.mp (UInt64.not_lt.mp hover)
    rw [hsum] at hnat
    rw [if_neg hover, hsum]
    exact (Nat.min_eq_right hnat).symm

theorem entropyRun_credit (pool : EntropyPool) (calls : List EntropySample) :
    (entropyRun pool calls).credit.toNat = min (entropyPoolBits * entropyEighths)
      (pool.credit.toNat + (calls.map (·.eighths.toNat)).sum) := by
  induction calls generalizing pool with
  | nil => exact (Nat.min_eq_right pool.credit_le).symm
  | cons call calls ih =>
      have hcredit : (entropyAdd pool call.source call.sample call.eighths).credit.toNat = _ :=
        entropyCredit_eq pool.credit_le call.eighths
      have hrest := ih (entropyAdd pool call.source call.sample call.eighths)
      rw [hcredit] at hrest
      rw [List.map_cons, List.sum_cons]
      refine hrest.trans ?_
      omega

/-- Two runs of calls that give the same samples but one. -/
def DifferInOneSample (calls calls' : List EntropySample) : Prop :=
  ∃ before after : List UInt64, ∃ sample sample' : UInt64, sample ≠ sample' ∧
    calls.map (·.sample) = before ++ sample :: after ∧
    calls'.map (·.sample) = before ++ sample' :: after

theorem entropyRun_ne (pool : EntropyPool) {calls calls' : List EntropySample}
    (h : DifferInOneSample calls calls') :
    (entropyRun pool calls).words ≠ (entropyRun pool calls').words := by
  obtain ⟨before, after, sample, sample', hne, hcalls, hcalls'⟩ := h
  obtain ⟨here, rotation, hsteps⟩ := entropySteps_append pool.position pool.rotation before
  rw [entropyRun_words, entropyRun_words, hcalls, hcalls', hsteps, hsteps]
  exact mixed_ne (entropySteps_injective _ _ after)
    (fun words ↦ entropyStep_sample here rotation hne words) pool.words

/-- Mixing loses nothing: a run of samples takes the words to others by a bijection, another
sample at one place makes other words, and the credit is what was given up to the pool's
extent. -/
theorem entropyRun_keeps (pool : EntropyPool) (calls : List EntropySample) :
    Bijective (fun words ↦ (entropyRun { pool with words } calls).words) ∧
      (∀ calls', DifferInOneSample calls calls' →
        (entropyRun pool calls).words ≠ (entropyRun pool calls').words) ∧
      (entropyRun pool calls).credit.toNat = min (entropyPoolBits * entropyEighths)
        (pool.credit.toNat + (calls.map (·.eighths.toNat)).sum) := by
  refine ⟨Finite.injective_iff_bijective.mp fun words words' hsame ↦ ?_,
    fun calls' hdiffer ↦ entropyRun_ne pool hdiffer, entropyRun_credit pool calls⟩
  rw [entropyRun_words, entropyRun_words] at hsame
  exact mixed_injective (entropySteps_injective _ _ _) hsame

/-- Two samples leave two pools, and a credit of a bit for each is counted. -/
theorem entropyRun_keeps_two :
    (entropyRun entropyPoolInitialise [⟨.seed, 1, 8⟩, ⟨.value, 2, 8⟩]).words ≠
        (entropyRun entropyPoolInitialise [⟨.seed, 3, 0⟩, ⟨.jitter, 2, 4⟩]).words ∧
      (entropyRun entropyPoolInitialise [⟨.seed, 1, 8⟩, ⟨.value, 2, 8⟩]).credit.toNat = 16 :=
  have hkeeps := entropyRun_keeps entropyPoolInitialise [⟨.seed, 1, 8⟩, ⟨.value, 2, 8⟩]
  ⟨hkeeps.2.1 _ ⟨[], [2], 1, 3, by decide, rfl, rfl⟩, hkeeps.2.2⟩

theorem entropyAddJitter_credit (pool : EntropyPool) (counter : UInt64) :
    (entropyAddJitter pool counter).2.credit = entropyCredit pool.credit
      (if (entropyAddJitter pool counter).1 then entropyJitterCredit else 0) := by
  unfold entropyAddJitter entropyAdd
  simp only [decide_eq_true_eq]

theorem entropyAddJitter_words (pool : EntropyPool) (words : EntropyWords) (counter : UInt64) :
    (entropyAddJitter { pool with words } counter).2.words =
      entropyStep pool.position pool.rotation
        (counter ^^^ entropyRotate (counter - pool.jitterLast) 32) words := by
  unfold entropyAddJitter entropyAdd
  rfl

theorem entropyAddJitter_keeps (pool : EntropyPool) (counter : UInt64) :
    Bijective (fun words ↦ (entropyAddJitter { pool with words } counter).2.words) ∧
      (entropyAddJitter pool counter).2.credit.toNat ≤
        pool.credit.toNat + entropyJitterCredit.toNat := by
  constructor
  · simp only [entropyAddJitter_words]
    exact Finite.injective_iff_bijective.mp (entropyStep_injective _ _ _)
  · rw [entropyAddJitter_credit, entropyCredit_eq pool.credit_le]
    refine (Nat.min_le_right _ _).trans (Nat.add_le_add_left ?_ _)
    split_ifs
    · exact Nat.le_refl _
    · exact Nat.zero_le _

/-! ## The test of repetition

Readings are listed with the last of them first. -/

def leadingRun {α : Type} [DecidableEq α] : List α → ℕ
  | [] => 0
  | x :: rest => if rest.head? = some x then leadingRun rest + 1 else 1

def jitterDeltas : List UInt64 → List UInt64
  | counter :: last :: before => (counter - last) :: jitterDeltas (last :: before)
  | _ => []

def jitterRun (readings : List UInt64) : ℕ := leadingRun (jitterDeltas readings)

def jitterHeard (readings : List UInt64) : ℕ :=
  (readings.tail.take (jitterRun readings)).countP (· ≠ 0)

def jitterFailedRuns : List UInt64 → ℕ
  | [] => 0
  | counter :: before => jitterFailedRuns before +
      if jitterRun (counter :: before) = entropyJitterCutoff.toNat then 1 else 0

def jitterPool : List UInt64 → EntropyPool
  | [] => entropyPoolInitialise
  | counter :: before => (entropyAddJitter (jitterPool before) counter).2

def jitterCredits : List UInt64 → Bool
  | [] => false
  | counter :: before => (entropyAddJitter (jitterPool before) counter).1

def jitterCreditCount : List UInt64 → ℕ
  | [] => 0
  | counter :: before => jitterCreditCount before +
      if jitterCredits (counter :: before) = true then 1 else 0

/-- A stopped source earns nothing: what `EntropyAddJitter` is to answer for the last of the
readings, and what is to be counted after it. -/
structure StoppedEarnsNothing (readings : List UInt64) : Prop where
  credited : jitterCredits readings = true ↔
    1 < readings.length ∧ jitterRun readings < entropyJitterCutoff.toNat
  failures : (jitterPool readings).jitterFailures.toNat = jitterFailedRuns readings
  steady : ∀ step, (∀ delta ∈ jitterDeltas readings, delta = step) →
    jitterCreditCount readings ≤ entropyJitterCutoff.toNat - 1

/-- A reading that follows a reading of zero is beyond the cutoff of its run already, and
neither count has been exhausted. -/
structure RunsHeard (readings : List UInt64) : Prop where
  zero : readings.tail.head? = some 0 → entropyJitterCutoff.toNat < jitterRun readings
  repeats : jitterHeard readings < 2 ^ 32
  failures : jitterFailedRuns readings < 2 ^ 64

structure JitterKept (readings : List UInt64) : Prop where
  delta : ∀ delta, (jitterDeltas readings).head? = some delta →
    (jitterPool readings).jitterDelta = delta
  repeats : (jitterPool readings).jitterRepeats.toNat = jitterHeard readings
  cutoff : min entropyJitterCutoff.toNat (jitterHeard readings) =
    min entropyJitterCutoff.toNat (jitterRun readings)
  failures : (jitterPool readings).jitterFailures.toNat = jitterFailedRuns readings

theorem forall_suffix_cons {α : Type} {P : List α → Prop} {x : α} {rest : List α} :
    (∀ l, l <:+ x :: rest → P l) ↔ P (x :: rest) ∧ ∀ l, l <:+ rest → P l := by
  simp only [List.suffix_cons_iff, or_imp, forall_and, forall_eq]

theorem leadingRun_of_forall {α : Type} [DecidableEq α] {l : List α} {a : α}
    (h : ∀ x ∈ l, x = a) : leadingRun l = l.length := by
  induction l with
  | nil => rfl
  | cons x rest ih =>
      have hx := h x List.mem_cons_self
      have hrest := fun y hy ↦ h y (List.mem_cons_of_mem x hy)
      cases rest with
      | nil => rfl
      | cons y rest =>
          have hy := hrest y List.mem_cons_self
          rw [leadingRun, if_pos (by rw [List.head?_cons, hx, hy]), ih hrest]
          rfl

theorem length_jitterDeltas (readings : List UInt64) :
    (jitterDeltas readings).length = readings.length - 1 := by
  fun_induction jitterDeltas readings with
  | case1 counter last before ih => rw [List.length_cons, ih]; rfl
  | case2 readings hless =>
      match readings with
      | [] | [_] => rfl
      | counter :: last :: before => exact absurd rfl (hless counter last before)

theorem jitterRun_cons (counter last : UInt64) (before : List UInt64) :
    jitterRun (counter :: last :: before) =
      if (jitterDeltas (last :: before)).head? = some (counter - last)
      then jitterRun (last :: before) + 1 else 1 := rfl

theorem jitterHeard_cons (counter last : UInt64) (before : List UInt64) :
    jitterHeard (counter :: last :: before) =
      (if (jitterDeltas (last :: before)).head? = some (counter - last)
        then jitterHeard (last :: before) else 0) + if last = 0 then 0 else 1 := by
  unfold jitterHeard
  rw [jitterRun_cons]
  split_ifs with hsame hzero hzero <;> simp [hzero]

theorem jitterPool_last (counter : UInt64) (before : List UInt64) :
    (jitterPool (counter :: before)).jitterLast = counter := rfl

theorem jitterHeard_eq_zero {readings : List UInt64} (h : jitterDeltas readings = []) :
    jitterHeard readings = 0 := by
  unfold jitterHeard jitterRun
  rw [h]
  rfl

theorem entropyAddJitter_first (pool : EntropyPool) (hlast : pool.jitterLast = 0)
    (counter : UInt64) :
    (entropyAddJitter pool counter).1 = false ∧
      (entropyAddJitter pool counter).2.jitterDelta = pool.jitterDelta ∧
      (entropyAddJitter pool counter).2.jitterRepeats = pool.jitterRepeats ∧
      (entropyAddJitter pool counter).2.jitterFailures = pool.jitterFailures := by
  unfold entropyAddJitter entropyAdd
  simp [hlast]

theorem entropyAddJitter_next (pool : EntropyPool) (hlast : pool.jitterLast ≠ 0)
    (counter : UInt64) :
    (entropyAddJitter pool counter).2.jitterDelta = counter - pool.jitterLast ∧
      (entropyAddJitter pool counter).2.jitterRepeats =
        (if counter - pool.jitterLast = pool.jitterDelta then pool.jitterRepeats + 1 else 1) ∧
      ((entropyAddJitter pool counter).1 = true ↔
        (entropyAddJitter pool counter).2.jitterRepeats < entropyJitterCutoff) ∧
      (entropyAddJitter pool counter).2.jitterFailures =
        if (entropyAddJitter pool counter).2.jitterRepeats = entropyJitterCutoff
        then pool.jitterFailures + 1 else pool.jitterFailures := by
  unfold entropyAddJitter entropyAdd
  simp [hlast]

theorem jitterKept_nil : JitterKept [] := ⟨nofun, rfl, rfl, rfl⟩

theorem jitterKept_one (counter : UInt64) :
    jitterCredits [counter] = false ∧ JitterKept [counter] := by
  obtain ⟨hcredit, -, hrepeats, hfailures⟩ :=
    entropyAddJitter_first entropyPoolInitialise rfl counter
  exact ⟨hcredit, nofun, congrArg UInt32.toNat hrepeats, rfl, congrArg UInt64.toNat hfailures⟩

theorem jitter_zero {counter : UInt64} {before : List UInt64} (hkept : JitterKept (0 :: before)) :
    jitterCredits (counter :: 0 :: before) = false ∧
      jitterHeard (counter :: 0 :: before) ≤ jitterHeard (0 :: before) ∧
      (jitterPool (counter :: 0 :: before)).jitterFailures.toNat =
        jitterFailedRuns (0 :: before) ∧
      (entropyJitterCutoff.toNat < jitterRun (counter :: 0 :: before) →
        JitterKept (counter :: 0 :: before)) := by
  obtain ⟨hcredit, hdelta, hrepeats, hfailures⟩ :=
    entropyAddJitter_first (jitterPool (0 :: before)) rfl counter
  have hheard := jitterHeard_cons counter 0 before
  rw [if_pos rfl, Nat.add_zero] at hheard
  refine ⟨hcredit, ?_, (congrArg UInt64.toNat hfailures).trans hkept.failures, fun hrun ↦ ?_⟩
  · rw [hheard]
    split_ifs
    · exact Nat.le_refl _
    · exact Nat.zero_le _
  -- the run has been longer than the cutoff, so this difference is the one before it
  have hcons := jitterRun_cons counter 0 before
  have hcutoff : entropyJitterCutoff.toNat = 41 := rfl
  by_cases hsame : (jitterDeltas (0 :: before)).head? = some (counter - 0)
  · rw [if_pos hsame] at hcons hheard
    have hless := hkept.cutoff
    refine ⟨?_, ?_, ?_, ?_⟩
    · rintro delta hhead
      obtain rfl : counter - 0 = delta := Option.some.inj hhead
      exact hdelta.trans (hkept.delta _ hsame)
    · rw [hheard]
      exact (congrArg UInt32.toNat hrepeats).trans hkept.repeats
    · omega
    · rw [jitterFailedRuns, if_neg hrun.ne', Nat.add_zero]
      exact (congrArg UInt64.toNat hfailures).trans hkept.failures
  · rw [if_neg hsame] at hcons
    omega

theorem jitter_next {counter last : UInt64} {before : List UInt64} (hlast : last ≠ 0)
    (hkept : JitterKept (last :: before)) :
    jitterHeard (counter :: last :: before) ≤ 2 ^ 32 ∧
      (jitterHeard (counter :: last :: before) = 2 ^ 32 →
        jitterCredits (counter :: last :: before) = true ∧
          entropyJitterCutoff.toNat ≤ jitterRun (counter :: last :: before)) ∧
      (jitterHeard (counter :: last :: before) < 2 ^ 32 →
        (jitterCredits (counter :: last :: before) = true ↔
          jitterRun (counter :: last :: before) < entropyJitterCutoff.toNat) ∧
        (jitterFailedRuns (counter :: last :: before) < 2 ^ 64 →
          JitterKept (counter :: last :: before))) := by
  obtain ⟨hdelta, hrepeats, hcredit, hfailures⟩ :=
    entropyAddJitter_next (jitterPool (last :: before)) hlast counter
  rw [jitterPool_last] at hdelta hrepeats
  change jitterCredits (counter :: last :: before) = true ↔ _ at hcredit
  have hheard := jitterHeard_cons counter last before
  have hrun := jitterRun_cons counter last before
  rw [if_neg hlast] at hheard
  have hcutoff : entropyJitterCutoff.toNat = 41 := rfl
  have hless := hkept.cutoff
  have hbound := (jitterPool (last :: before)).jitterRepeats.toNat_lt
  have hcount : (jitterPool (counter :: last :: before)).jitterRepeats.toNat =
      jitterHeard (counter :: last :: before) % 2 ^ 32 := by
    refine (congrArg UInt32.toNat hrepeats).trans ?_
    rw [hheard]
    by_cases hsame : (jitterDeltas (last :: before)).head? = some (counter - last)
    · rw [if_pos hsame, if_pos (hkept.delta _ hsame).symm, UInt32.toNat_add, hkept.repeats]
      rfl
    · rw [if_neg hsame]
      split_ifs with hdifference
      · -- there has been no difference, and the pool holds none
        have hnone : jitterDeltas (last :: before) = [] := by
          cases hdeltas : jitterDeltas (last :: before) with
          | nil => rfl
          | cons delta deltas =>
              have hhead : (jitterDeltas (last :: before)).head? = some delta := by
                rw [hdeltas]
                rfl
              have hheld := hkept.delta delta hhead
              exact absurd (hhead.trans (congrArg some (hheld.symm.trans hdifference.symm))) hsame
        rw [UInt32.toNat_add, hkept.repeats, jitterHeard_eq_zero hnone]
        rfl
      · rfl
  have hcredited : jitterCredits (counter :: last :: before) = true ↔
      jitterHeard (counter :: last :: before) % 2 ^ 32 < 41 := by
    rw [hcredit, UInt32.lt_iff_toNat_lt, hcutoff, ← hcount]
    rfl
  have hbelow : jitterHeard (last :: before) < 2 ^ 32 := hkept.repeats ▸ hbound
  have hagree : min 41 (jitterHeard (counter :: last :: before)) =
      min 41 (jitterRun (counter :: last :: before)) := by
    split_ifs at hheard hrun <;> omega
  refine ⟨?_, fun hfull ↦ ⟨?_, ?_⟩, fun hroom ↦ ⟨?_, fun hfew ↦ ⟨?_, ?_, hagree, ?_⟩⟩⟩
  · split_ifs at hheard <;> omega
  · rw [hcredited, hfull]
    decide
  · omega
  · rw [hcredited, Nat.mod_eq_of_lt hroom]
    omega
  · rintro delta hhead
    obtain rfl : counter - last = delta := Option.some.inj hhead
    exact hdelta
  · rw [hcount, Nat.mod_eq_of_lt hroom]
  · have hreached : (jitterPool (counter :: last :: before)).jitterRepeats = entropyJitterCutoff ↔
        jitterRun (counter :: last :: before) = entropyJitterCutoff.toNat := by
      rw [← UInt32.toNat_inj, hcount, Nat.mod_eq_of_lt hroom, hcutoff]
      split_ifs at hheard hrun <;> omega
    refine (congrArg UInt64.toNat hfailures).trans ?_
    change UInt64.toNat
      (if (jitterPool (counter :: last :: before)).jitterRepeats = _ then _ else _) = _
    rw [jitterFailedRuns] at hfew ⊢
    by_cases hfailed : jitterRun (counter :: last :: before) = entropyJitterCutoff.toNat
    · rw [if_pos hfailed] at hfew ⊢
      rw [if_pos (hreached.mpr hfailed), UInt64.toNat_add, hkept.failures]
      exact Nat.mod_eq_of_lt hfew
    · rw [if_neg hfailed, if_neg (hfailed ∘ hreached.mp), hkept.failures, Nat.add_zero]

theorem RunsHeard.of_next {counter : UInt64} {before : List UInt64} (hkept : JitterKept before)
    (h : StoppedEarnsNothing (counter :: before)) : RunsHeard (counter :: before) := by
  have hfew : jitterFailedRuns (counter :: before) < 2 ^ 64 :=
    h.failures ▸ (jitterPool (counter :: before)).jitterFailures.toNat_lt
  cases before with
  | nil => exact ⟨nofun, Nat.two_pow_pos 32, hfew⟩
  | cons last before =>
      have hcredited := h.credited
      rw [List.length_cons, List.length_cons] at hcredited
      by_cases hlast : last = 0
      · subst hlast
        obtain ⟨hcredit, hheard, hfailures, -⟩ := @jitter_zero counter _ hkept
        have hrepeats := (jitterPool (0 :: before)).jitterRepeats.toNat_lt
        rw [hkept.repeats] at hrepeats
        refine ⟨fun _ ↦ ?_, hheard.trans_lt hrepeats, hfew⟩
        have hreached : entropyJitterCutoff.toNat ≤ jitterRun (counter :: 0 :: before) := by
          rw [hcredit] at hcredited
          by_contra hless
          exact absurd (hcredited.mpr ⟨by omega, Nat.not_le.mp hless⟩) nofun
        refine lt_of_le_of_ne hreached fun hequal ↦ ?_
        have hcount : jitterFailedRuns (0 :: before) = jitterFailedRuns (0 :: before) +
            if jitterRun (counter :: 0 :: before) = entropyJitterCutoff.toNat then 1 else 0 :=
          hfailures.symm.trans h.failures
        rw [if_pos hequal.symm] at hcount
        omega
      · obtain ⟨hbound, hfull, -⟩ := @jitter_next counter _ _ hlast hkept
        refine ⟨fun hzero ↦ absurd (Option.some.inj hzero) hlast, ?_, hfew⟩
        refine lt_of_le_of_ne hbound fun hexhausted ↦ ?_
        obtain ⟨hcredit, hreached⟩ := hfull hexhausted
        exact absurd (hcredited.mp hcredit).2 (Nat.not_lt.mpr hreached)

theorem jitter_step {counter : UInt64} {before : List UInt64} (hkept : JitterKept before)
    (h : RunsHeard (counter :: before)) :
    JitterKept (counter :: before) ∧ (jitterCredits (counter :: before) = true ↔
      1 < (counter :: before).length ∧
        jitterRun (counter :: before) < entropyJitterCutoff.toNat) := by
  cases before with
  | nil =>
      obtain ⟨hcredit, hnext⟩ := jitterKept_one counter
      exact ⟨hnext, by simp [hcredit]⟩
  | cons last before =>
      have hlength : 1 < (counter :: last :: before).length := Nat.succ_lt_succ (Nat.succ_pos _)
      rw [and_iff_right hlength]
      by_cases hlast : last = 0
      · subst hlast
        obtain ⟨hcredit, -, -, hnext⟩ := @jitter_zero counter _ hkept
        have hbeyond := h.zero rfl
        exact ⟨hnext hbeyond, by rw [hcredit]; simpa using hbeyond.le⟩
      · obtain ⟨-, -, hnext⟩ := @jitter_next counter _ _ hlast hkept
        exact ⟨(hnext h.repeats).2 h.failures, (hnext h.repeats).1⟩

theorem jitterKept {readings : List UInt64} (h : ∀ sofar, sofar <:+ readings → RunsHeard sofar) :
    JitterKept readings := by
  induction readings with
  | nil => exact jitterKept_nil
  | cons counter before ih =>
      obtain ⟨hhead, htail⟩ := forall_suffix_cons.mp h
      exact (jitter_step (ih htail) hhead).1

theorem jitterCreditCount_le {readings : List UInt64} {step : UInt64}
    (hcredited : ∀ sofar, sofar <:+ readings → (jitterCredits sofar = true →
      1 < sofar.length ∧ jitterRun sofar < entropyJitterCutoff.toNat))
    (hsteady : ∀ delta ∈ jitterDeltas readings, delta = step) :
    jitterCreditCount readings ≤ min (readings.length - 1) (entropyJitterCutoff.toNat - 1) := by
  induction readings with
  | nil => exact Nat.zero_le _
  | cons counter before ih =>
      obtain ⟨hhead, htail⟩ := forall_suffix_cons.mp hcredited
      have hrun : jitterRun (counter :: before) = before.length :=
        (leadingRun_of_forall hsteady).trans (length_jitterDeltas _)
      have hrest : ∀ delta ∈ jitterDeltas before, delta = step := by
        cases before with
        | nil => exact fun delta hmem ↦ absurd hmem List.not_mem_nil
        | cons last before => exact fun delta hmem ↦ hsteady delta (List.mem_cons_of_mem _ hmem)
      have hbefore := ih htail hrest
      rw [jitterCreditCount, List.length_cons]
      split_ifs with hcredit
      · obtain ⟨hlength, hless⟩ := hhead hcredit
        rw [List.length_cons] at hlength
        omega
      · omega

theorem RunsHeard.of_stopped {readings : List UInt64}
    (h : ∀ sofar, sofar <:+ readings → StoppedEarnsNothing sofar) :
    ∀ sofar, sofar <:+ readings → RunsHeard sofar := by
  induction readings with
  | nil =>
      intro sofar hsofar
      rw [List.suffix_nil.mp hsofar]
      exact ⟨nofun, Nat.two_pow_pos 32, Nat.two_pow_pos 64⟩
  | cons counter before ih =>
      obtain ⟨hhead, htail⟩ := forall_suffix_cons.mp h
      have hheard := ih htail
      exact forall_suffix_cons.mpr ⟨.of_next (jitterKept hheard) hhead, hheard⟩

/-- A stopped source earns nothing, at any reading, exactly where every reading is heard: none
follows a reading of zero before its run is beyond the cutoff, and neither the readings of a run
nor the runs that reach the cutoff are more than are counted. -/
theorem stoppedEarnsNothing_iff (readings : List UInt64) :
    (∀ sofar, sofar <:+ readings → StoppedEarnsNothing sofar) ↔
      ∀ sofar, sofar <:+ readings → RunsHeard sofar := by
  refine ⟨RunsHeard.of_stopped, fun h ↦ ?_⟩
  have hcredited : ∀ sofar, sofar <:+ readings → (jitterCredits sofar = true ↔
      1 < sofar.length ∧ jitterRun sofar < entropyJitterCutoff.toNat) := by
    intro sofar hsofar
    cases sofar with
    | nil => simp [jitterCredits]
    | cons counter before =>
        have hbefore : before <:+ readings := (List.suffix_cons counter before).trans hsofar
        exact (jitter_step (jitterKept fun l hl ↦ h l (hl.trans hbefore)) (h _ hsofar)).2
  intro sofar hsofar
  refine ⟨hcredited sofar hsofar, (jitterKept fun l hl ↦ h l (hl.trans hsofar)).failures, ?_⟩
  intro step hsteady
  exact (jitterCreditCount_le (fun l hl ↦ (hcredited l (hl.trans hsofar)).mp) hsteady).trans
    (Nat.min_le_right _ _)

theorem jitterHeard_replicate {counter : UInt64} (hcounter : counter ≠ 0) (n : ℕ) :
    jitterHeard (List.replicate (n + 1) counter) = n := by
  have hdeltas : jitterDeltas (List.replicate (n + 1) counter) = List.replicate n 0 := by
    induction n with
    | zero => rfl
    | succ n ih =>
        rw [List.replicate_succ, List.replicate_succ, jitterDeltas, ← List.replicate_succ, ih,
          UInt64.sub_self, List.replicate_succ]
  have hrun : jitterRun (List.replicate (n + 1) counter) = n := by
    unfold jitterRun
    rw [hdeltas, leadingRun_of_forall fun delta hmem ↦ List.eq_of_mem_replicate hmem,
      List.length_replicate]
  unfold jitterHeard
  rw [hrun, List.tail_replicate, Nat.add_sub_cancel, List.take_replicate, Nat.min_self,
    List.countP_replicate, if_pos (by simpa using hcounter)]

/-- The second of two readings is not credited where the first is zero, and a counter that does
not move earns again when as many repeats as are counted have gone by. -/
theorem stopped_earns :
    ¬StoppedEarnsNothing [5, 0] ∧
      ¬∀ sofar, sofar <:+ List.replicate (2 ^ 32 + 1) 1 → StoppedEarnsNothing sofar := by
  constructor
  · intro h
    exact absurd (h.credited.mpr (by decide)) (by decide)
  · intro h
    have hheard := (RunsHeard.of_stopped h _ List.suffix_rfl).repeats
    rw [jitterHeard_replicate (by decide)] at hheard
    exact absurd hheard (Nat.lt_irrefl _)

end OxysOS.Crypto
