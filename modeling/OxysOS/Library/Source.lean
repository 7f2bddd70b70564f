import Mathlib.Data.List.Basic
import Mathlib.Tactic.Common

/-!
# Sources that are read in parts

A source gives its values in reads, each of which asks for so many at most and may be given fewer,
or fail; where values are left and some are asked for, it is given at least one.
-/

namespace OxysOS.Library

/-- What is left to be read, and how the reads to come are answered: with nothing where a read
fails, and otherwise with one value and so many more. -/
structure Source (α : Type*) where
  left : List α
  answers : ℕ → Option ℕ

namespace Source

variable {α : Type*} {source rest : Source α} {asked : ℕ} {given : List α}

def read (source : Source α) (asked : ℕ) : Option (List α) × Source α :=
  match source.answers 0 with
  | none => (none, ⟨source.left, fun call ↦ source.answers (call + 1)⟩)
  | some more =>
      (some (source.left.take (min asked (more + 1))),
        ⟨source.left.drop (min asked (more + 1)), fun call ↦ source.answers (call + 1)⟩)

def steady (left : List α) (sizes : ℕ → ℕ) : Source α := ⟨left, fun call ↦ some (sizes call)⟩

theorem left_of_read (h : source.read asked = (some given, rest)) :
    source.left = given ++ rest.left := by
  simp only [read] at h
  cases hanswer : source.answers 0 with
  | none => simp [hanswer] at h
  | some more =>
      simp only [hanswer, Prod.mk.injEq, Option.some.injEq] at h
      obtain ⟨rfl, rfl⟩ := h
      exact (List.take_append_drop _ _).symm

theorem length_of_read (h : source.read asked = (some given, rest)) : given.length ≤ asked := by
  simp only [read] at h
  cases hanswer : source.answers 0 with
  | none => simp [hanswer] at h
  | some more =>
      simp only [hanswer, Prod.mk.injEq, Option.some.injEq] at h
      rw [← h.1]
      exact Nat.le_trans (List.length_take_le _ _) (Nat.min_le_left _ _)

theorem left_of_read_nil (hasked : 0 < asked) (h : source.read asked = (some [], rest)) :
    source.left = [] := by
  simp only [read] at h
  cases hanswer : source.answers 0 with
  | none => simp [hanswer] at h
  | some more =>
      simp only [hanswer, Prod.mk.injEq, Option.some.injEq, List.take_eq_nil_iff] at h
      exact h.1.resolve_left (by omega)

theorem length_left_of_read (h : source.read asked = (some given, rest)) (hgiven : given ≠ []) :
    rest.left.length < source.left.length := by
  have hpositive := List.length_pos_iff.mpr hgiven
  rw [left_of_read h, List.length_append]
  omega

theorem read_steady (left : List α) (sizes : ℕ → ℕ) (asked : ℕ) :
    (steady left sizes).read asked = (some (left.take (min asked (sizes 0 + 1))),
      steady (left.drop (min asked (sizes 0 + 1))) fun call ↦ sizes (call + 1)) := rfl

def offered (answers : ℕ → Option ℕ) : ℕ → ℕ
  | 0 => 0
  | call + 1 => (answers 0).getD 0 + 1 + offered (fun call ↦ answers (call + 1)) call

/-- A read fails while values are left, of those that read a source into so much room: the reads ask
for all the room that is left, and the one that finds it full is the last. -/
def Interrupted (source : Source α) (room : ℕ) : Prop :=
  ∃ call, source.answers call = none ∧
    (∀ earlier < call, source.answers earlier ≠ none ∧ offered source.answers earlier < room) ∧
    min (offered source.answers call) room < source.left.length

theorem interrupted_of_none (room : ℕ) (hnone : source.answers 0 = none)
    (hleft : source.left ≠ []) : source.Interrupted room := by
  refine ⟨0, hnone, fun _ h ↦ absurd h (Nat.not_lt_zero _), ?_⟩
  simpa [offered] using List.length_pos_iff.mpr hleft

theorem not_interrupted_nil (room : ℕ) (hleft : source.left = []) : ¬source.Interrupted room := by
  rintro ⟨call, -, -, hlt⟩
  simp [hleft] at hlt

theorem not_interrupted_full (hsome : source.answers 0 ≠ none) : ¬source.Interrupted 0 := by
  rintro ⟨call, hcall, hearlier, -⟩
  cases call with
  | zero => exact hsome hcall
  | succ call => exact absurd (hearlier 0 (Nat.succ_pos _)).2 (Nat.not_lt_zero _)

theorem answers_of_read_none {room : ℕ} (h : source.read room = (none, rest)) :
    source.answers 0 = none := by
  simp only [read] at h
  split at h <;> simp_all

theorem answers_of_read {room : ℕ} (h : source.read room = (some given, rest)) :
    source.answers 0 ≠ none := by
  intro hnone
  simp [read, hnone] at h

theorem interrupted_read_iff {room : ℕ} (hroom : 0 < room)
    (h : source.read room = (some given, rest)) :
    source.Interrupted room ↔ rest.Interrupted (room - given.length) := by
  simp only [read] at h
  cases hanswer : source.answers 0 with
  | none => simp [hanswer] at h
  | some more =>
      simp only [hanswer, Prod.mk.injEq, Option.some.injEq] at h
      obtain ⟨rfl, rfl⟩ := h
      have hoffered : ∀ call, offered source.answers (call + 1) =
          more + 1 + offered (fun call ↦ source.answers (call + 1)) call := by
        intro call
        simp [offered, hanswer]
      simp only [Interrupted, List.length_take, List.length_drop]
      constructor
      · rintro ⟨call, hcall, hearlier, hlt⟩
        cases call with
        | zero => simp [hanswer] at hcall
        | succ call =>
            rw [hoffered] at hlt
            refine ⟨call, hcall, ?_, by omega⟩
            intro earlier hless
            have hbefore := hearlier (earlier + 1) (by omega)
            rw [hoffered] at hbefore
            exact ⟨hbefore.1, by omega⟩
      · rintro ⟨call, hcall, hearlier, hlt⟩
        refine ⟨call + 1, hcall, ?_, by rw [hoffered]; omega⟩
        intro earlier hless
        cases earlier with
        | zero => exact ⟨by simp [hanswer], hroom⟩
        | succ earlier =>
            have hbefore := hearlier earlier (by omega)
            rw [hoffered]
            exact ⟨hbefore.1, by omega⟩

end Source

variable {α : Type*}

structure Gathered (α : Type*) where
  capacity : ℕ
  held : List α

inductive GatherFault
  | refused | unread
  deriving DecidableEq

def gather (grants : ℕ → Bool) (chunk : ℕ) (buffer : Gathered α) (source : Source α) :
    Option GatherFault × Gathered α :=
  let capacity := if buffer.held.length + chunk > buffer.capacity then buffer.capacity + chunk
    else buffer.capacity
  if buffer.held.length + chunk > buffer.capacity ∧ grants capacity = false then
    (some .refused, buffer)
  else match _hread : source.read (capacity - buffer.held.length) with
    | (none, _) => (some .unread, ⟨capacity, buffer.held⟩)
    | (some given, rest) =>
        if _hgiven : given = [] then (none, ⟨capacity, buffer.held⟩)
        else gather grants chunk ⟨capacity, buffer.held ++ given⟩ rest
  termination_by source.left.length
  decreasing_by exact Source.length_left_of_read _hread _hgiven

/-- The capacities that so many values need are granted. -/
def MemorySuffices (grants : ℕ → Bool) (chunk size : ℕ) : Prop :=
  ∀ chunks, 1 ≤ chunks → chunks * chunk < size + 2 * chunk → grants (chunks * chunk) = true

structure Grown (grants : ℕ → Bool) (chunk chunks : ℕ) (held : List α) : Prop where
  fits : held.length ≤ chunks * chunk
  needed : chunks * chunk < held.length + 2 * chunk
  granted : ∀ fewer, 1 ≤ fewer → fewer ≤ chunks → grants (fewer * chunk) = true

section Gather

variable {α : Type*} {grants : ℕ → Bool} {chunk chunks : ℕ} {held : List α}

theorem MemorySuffices.mono {fewer more : ℕ} (h : MemorySuffices grants chunk more)
    (hle : fewer ≤ more) : MemorySuffices grants chunk fewer := by
  intro chunks hone hlt
  exact h chunks hone (by omega)

theorem grown_start (grants : ℕ → Bool) (hchunk : 0 < chunk) : Grown grants chunk 0 ([] : List α) :=
  ⟨Nat.zero_le _, by simpa using hchunk,
    fun _ hone hfewer ↦ absurd (Nat.le_trans hone hfewer) (by decide)⟩

theorem Grown.grow (h : Grown grants chunk chunks held)
    (hfull : held.length + chunk > chunks * chunk)
    (hgranted : grants ((chunks + 1) * chunk) = true) : Grown grants chunk (chunks + 1) held := by
  have hfits := h.fits
  have hnext : (chunks + 1) * chunk = chunks * chunk + chunk := Nat.succ_mul _ _
  refine ⟨by omega, by omega, ?_⟩
  intro fewer hone hfewer
  rcases Nat.lt_or_eq_of_le hfewer with hlt | rfl
  · exact h.granted fewer hone (by omega)
  · exact hgranted

theorem Grown.suffices (h : Grown grants chunk chunks held)
    (hfree : held.length + chunk ≤ chunks * chunk) : MemorySuffices grants chunk held.length := by
  intro fewer hone hfewer
  have hnext : (chunks + 1) * chunk = chunks * chunk + chunk := Nat.succ_mul _ _
  have hlt : fewer * chunk < (chunks + 1) * chunk := by omega
  exact h.granted fewer hone (Nat.le_of_lt_succ (Nat.lt_of_mul_lt_mul_right hlt))

theorem gather_grown {capacity : ℕ} {source : Source α} (hfits : held.length ≤ capacity)
    (hfull : held.length + chunk > capacity) (hgranted : grants (capacity + chunk) = true) :
    gather grants chunk ⟨capacity, held⟩ source =
      gather grants chunk ⟨capacity + chunk, held⟩ source := by
  have hroom : ¬held.length + chunk > capacity + chunk := by omega
  rw [gather, gather, if_pos hfull, if_neg hroom,
    if_neg fun h ↦ Bool.false_ne_true (h.2.symm.trans hgranted), if_neg fun h ↦ hroom h.1]

theorem gather_refused {capacity : ℕ} {source : Source α}
    (hfull : held.length + chunk > capacity) (hrefused : grants (capacity + chunk) = false) :
    (gather grants chunk ⟨capacity, held⟩ source).1 = some .refused := by
  rw [gather]
  simp [hfull, hrefused]

structure GathersSteady (grants : ℕ → Bool) (chunk : ℕ) (held left : List α)
    (outcome : Option GatherFault × Gathered α) : Prop where
  whole : MemorySuffices grants chunk (held ++ left).length → ∃ more,
    outcome = (none, ⟨more * chunk, held ++ left⟩) ∧ Grown grants chunk more (held ++ left) ∧
      (held ++ left).length + chunk ≤ more * chunk
  refused : ¬MemorySuffices grants chunk (held ++ left).length → outcome.1 = some .refused

theorem gather_steady (hchunk : 0 < chunk) (left : List α) (sizes : ℕ → ℕ)
    (h : Grown grants chunk chunks held) :
    GathersSteady grants chunk held left
      (gather grants chunk ⟨chunks * chunk, held⟩ (Source.steady left sizes)) := by
  induction hsize : left.length using Nat.strongRecOn
    generalizing chunks held left sizes with
  | ind size ih =>
    subst hsize
    -- with a chunk free, a read leaves fewer values
    have hfree : ∀ chunks, Grown grants chunk chunks held →
        held.length + chunk ≤ chunks * chunk →
        GathersSteady grants chunk held left
          (gather grants chunk ⟨chunks * chunk, held⟩ (Source.steady left sizes)) := by
      intro chunks h hroom
      have hfull : ¬held.length + chunk > chunks * chunk := by omega
      have hasked : 0 < chunks * chunk - held.length := by omega
      rw [gather, if_neg hfull, if_neg fun h ↦ hfull h.1]
      split
      · next hread => simp [Source.read_steady] at hread
      · next given rest hread =>
          split
          · next hgiven =>
              subst hgiven
              obtain rfl : left = [] := Source.left_of_read_nil hasked hread
              constructor
              · intro _
                rw [List.append_nil]
                exact ⟨chunks, rfl, h, hroom⟩
              · intro hnot
                rw [List.append_nil] at hnot
                exact absurd (h.suffices hroom) hnot
          · next hgiven =>
              have hleft : left = given ++ rest.left := Source.left_of_read hread
              have hlength : given.length ≤ chunks * chunk - held.length :=
                Source.length_of_read hread
              have hless := Source.length_left_of_read hread hgiven
              rw [Source.read_steady, Prod.mk.injEq] at hread
              have hgrown : Grown grants chunk chunks (held ++ given) := by
                refine ⟨?_, ?_, h.granted⟩
                · rw [List.length_append]
                  omega
                · rw [List.length_append]
                  have hneeded := h.needed
                  omega
              rw [← hread.2] at hleft hless ⊢
              have hrest := ih _ hless _ (fun call ↦ sizes (call + 1)) hgrown rfl
              constructor
              · have hwhole := hrest.whole
                rw [List.append_assoc] at hwhole
                rwa [← hleft] at hwhole
              · have hrefused := hrest.refused
                rw [List.append_assoc] at hrefused
                rwa [← hleft] at hrefused
    by_cases hfull : held.length + chunk > chunks * chunk
    · have hmultiple : chunks * chunk + chunk = (chunks + 1) * chunk := (Nat.succ_mul _ _).symm
      cases hgranted : grants ((chunks + 1) * chunk) with
      | false =>
          have hnot : ¬MemorySuffices grants chunk (held ++ left).length := by
            intro hsuffices
            have hneeds := hsuffices (chunks + 1) (Nat.le_add_left 1 chunks) (by
              rw [List.length_append, ← hmultiple]
              omega)
            rw [hgranted] at hneeds
            exact Bool.false_ne_true hneeds
          exact ⟨fun hsuffices ↦ absurd hsuffices hnot,
            fun _ ↦ gather_refused hfull (by rwa [hmultiple])⟩
      | true =>
          have hgrown := h.grow hfull hgranted
          have hfits := h.fits
          rw [gather_grown h.fits hfull (by rwa [hmultiple]), hmultiple]
          have hrest := hfree (chunks + 1) hgrown (by omega)
          exact ⟨hrest.whole, hrest.refused⟩
    · exact hfree chunks h (by omega)

end Gather

end OxysOS.Library
