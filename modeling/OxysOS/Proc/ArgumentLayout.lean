import OxysOS.Library.Strings
import OxysOS.Proc.Process

/-!
# The stack a program begins with

What `ProcessLayOutArguments` leaves upon a stack: the count at the stack pointer,
the pointers above it, and the strings they name above those.
-/

namespace OxysOS.Proc

open OxysOS.Library OxysOS.Mm OxysOS.Exec Action

variable {frames : ℕ → ℕ} {s s' s'' : Machine} {address pointer : ℕ} {bytes more : List UInt8}
  {words : List ℕ} {strings argument environment : List (List UInt8)}

def stackBytes (frames : ℕ → ℕ) (s : Machine) : Bytes := fun address ↦
  s.memory (frameIndexOf (frames ((address - userStackBase) / pageSize))) (address % pageSize)

def FramesApart (frames : ℕ → ℕ) : Prop :=
  ∀ i j, i < processUserStackPages → j < processUserStackPages →
    frameIndexOf (frames i) = frameIndexOf (frames j) → i = j

structure StackWritten (frames : ℕ → ℕ) (address : ℕ) (bytes : List UInt8) (s s' : Machine) :
    Prop where
  bottom : userStackBase ≤ address
  top : address + bytes.length ≤ processUserStackTop
  written : slice (stackBytes frames s') address bytes.length = bytes
  others : ∀ a, userStackBase ≤ a → a < processUserStackTop →
    a < address ∨ address + bytes.length ≤ a → stackBytes frames s' a = stackBytes frames s a

def layoutAreas (pointer : ℕ) (argumentAt environmentAt : List ℕ)
    (argument environment : List (List UInt8)) : List (ℕ × ℕ) :=
  (pointer, 8 * (argument.length + environment.length + 5)) ::
    (argumentAt ++ environmentAt).zip ((argument ++ environment).map fun string ↦ string.length + 1)

structure Laid (read : Bytes) (pointer : ℕ) (argumentAt environmentAt : List ℕ)
    (argument environment : List (List UInt8)) : Prop where
  aligned : pointer % 16 = 0
  within : ∀ area ∈ layoutAreas pointer argumentAt environmentAt argument environment,
    userStackBase ≤ area.1 ∧ area.1 + area.2 ≤ processUserStackTop
  apart : (layoutAreas pointer argumentAt environmentAt argument environment).Pairwise
    fun area above ↦ area.1 + area.2 ≤ above.1
  words : ∀ i, i < argument.length + environment.length + 5 →
    readField read (pointer + 8 * i) 8 =
      ([argument.length] ++ argumentAt ++ [0] ++ environmentAt ++ [0, 0, 0]).getD i 0
  argument : List.Forall₂ (fun place string ↦ slice read place (string.length + 1) = string ++ [0])
    argumentAt argument
  environment : List.Forall₂
    (fun place string ↦ slice read place (string.length + 1) = string ++ [0])
    environmentAt environment

theorem StackWritten.nil (hbottom : userStackBase ≤ address)
    (htop : address ≤ processUserStackTop) : StackWritten frames address [] s s :=
  ⟨hbottom, htop, rfl, fun _ _ _ _ ↦ rfl⟩

theorem StackWritten.below (h : StackWritten frames (address + more.length) bytes s s')
    (h' : StackWritten frames address more s' s'') :
    StackWritten frames address (more ++ bytes) s s'' := by
  refine ⟨h'.bottom, ?_, ?_, fun a hbottom htop hout ↦ ?_⟩
  · have htop := h.top
    rw [List.length_append]
    omega
  · rw [List.length_append, slice_add, h'.written]
    have hupper : slice (stackBytes frames s'') (address + more.length) bytes.length =
        slice (stackBytes frames s') (address + more.length) bytes.length := by
      apply slice_congr
      intro a hlow hhigh
      have hbottom := h.bottom
      have htop := h.top
      exact h'.others a (by omega) (by omega) (Or.inr hlow)
    rw [hupper, h.written]
  · rw [List.length_append] at hout
    rw [h'.others a hbottom htop (by omega), h.others a hbottom htop (by omega)]

theorem StackWritten.above (h : StackWritten frames address bytes s s')
    (h' : StackWritten frames (address + bytes.length) more s' s'') :
    StackWritten frames address (bytes ++ more) s s'' := by
  refine ⟨h.bottom, ?_, ?_, fun a hbottom htop hout ↦ ?_⟩
  · have htop := h'.top
    rw [List.length_append]
    omega
  · rw [List.length_append, slice_add, h'.written]
    have hlower : slice (stackBytes frames s'') address bytes.length =
        slice (stackBytes frames s') address bytes.length := by
      apply slice_congr
      intro a hlow hhigh
      have hbottom := h.bottom
      have htop := h.top
      exact h'.others a (by omega) (by omega) (Or.inl hhigh)
    rw [hlower, h.written]
  · rw [List.length_append] at hout
    rw [h'.others a hbottom htop (by omega), h.others a hbottom htop (by omega)]

theorem stackBytes_alterFrame (hframes : FramesApart frames) (hbottom : userStackBase ≤ address)
    (htop : address < processUserStackTop) (byte : UInt8) :
    StackWritten frames address [byte] s
      (s.alterFrame (frames ((address - userStackBase) / pageSize)) fun contents ↦
        Function.update contents (address % pageSize) byte) := by
  have hpages : processUserStackTop = userStackBase + processUserStackPages * pageSize := by decide
  have hbase : userStackBase % pageSize = 0 := by decide
  have hsize : pageSize = 4096 := rfl
  refine ⟨hbottom, htop, ?_, fun a hlow hhigh hout ↦ ?_⟩
  · unfold slice stackBytes Machine.alterFrame
    simp [Machine.memory_writeFrame_self]
  · unfold stackBytes Machine.alterFrame
    by_cases hsame : (a - userStackBase) / pageSize = (address - userStackBase) / pageSize
    · have hplace : a % pageSize ≠ address % pageSize := by
        rw [List.length_singleton] at hout
        rw [hsize] at hsame hbase ⊢
        omega
      rw [hsame, Machine.memory_writeFrame_self]
      exact Function.update_of_ne hplace ..
    · rw [Machine.memory_writeFrame_of_ne]
      intro heq
      apply hsame
      apply hframes _ _ _ _ heq
      · rw [hpages, hsize] at hhigh
        rw [hsize]
        omega
      · rw [hpages, hsize] at htop
        rw [hsize]
        omega

theorem processWriteUserStack_written (hframes : FramesApart frames) (s : Machine)
    (bytes : List UInt8) (address : ℕ)
    (hbottom : userStackBase ≤ address) (htop : address + bytes.length ≤ processUserStackTop) :
    ∃ s', outcome (processWriteUserStack frames bytes address) s = (.ok true, s') ∧
      StackWritten frames address bytes s s' := by
  induction bytes generalizing address s with
  | nil => exact ⟨s, rfl, StackWritten.nil hbottom htop⟩
  | cons byte bytes ih =>
      rw [List.length_cons] at htop
      have hone := stackBytes_alterFrame (s := s) hframes hbottom (by omega) byte
      obtain ⟨s', heq, hwritten⟩ := ih (s.alterFrame (frames ((address - userStackBase) / pageSize))
        fun contents ↦ Function.update contents (address % pageSize) byte) (address + 1) (by omega)
        (by omega)
      refine ⟨s', ?_, hone.above hwritten⟩
      rw [processWriteUserStack, if_neg (by omega), outcome_bind, outcome_modify]
      exact heq

theorem length_wordBytes (value : ℕ) : (wordBytes value).length = 8 := rfl

theorem length_flatMap_wordBytes (words : List ℕ) :
    (words.flatMap wordBytes).length = 8 * words.length := by
  induction words with
  | nil => rfl
  | cons word words ih =>
      rw [List.flatMap_cons, List.length_append, ih, length_wordBytes, List.length_cons, Nat.mul_succ,
        Nat.add_comm]

theorem processWriteUserStackWords_written (hframes : FramesApart frames) (s : Machine)
    (words : List ℕ) (address : ℕ) (hbottom : userStackBase ≤ address)
    (htop : address + 8 * words.length ≤ processUserStackTop) :
    ∃ s', outcome (processWriteUserStackWords frames words address) s = (.ok true, s') ∧
      StackWritten frames address (words.flatMap wordBytes) s s' := by
  induction words generalizing address s with
  | nil => exact ⟨s, rfl, StackWritten.nil hbottom htop⟩
  | cons word words ih =>
      rw [List.length_cons] at htop
      obtain ⟨s', heq, hfirst⟩ := processWriteUserStack_written hframes s (wordBytes word) address
        hbottom (by rw [length_wordBytes]; omega)
      obtain ⟨s'', heq', hrest⟩ := ih s' (address + 8) (by omega) (by omega)
      refine ⟨s'', ?_, hfirst.above hrest⟩
      rw [processWriteUserStackWords, outcome_bind, heq]
      exact heq'

theorem processWriteStrings_written (hframes : FramesApart frames) (s : Machine)
    (strings : List (List UInt8)) (address : ℕ) (hbottom : userStackBase ≤ address)
    (htop : address + (packed strings).length ≤ processUserStackTop) :
    ∃ s', outcome (processWriteStrings frames strings (address + (packed strings).length)) s =
        (.ok (some (placed address strings, address)), s') ∧
      StackWritten frames address (packed strings) s s' := by
  induction strings generalizing address with
  | nil => exact ⟨s, rfl, StackWritten.nil hbottom htop⟩
  | cons string strings ih =>
      rw [length_packed_cons] at htop
      obtain ⟨s', heq, hrest⟩ := ih (address + (string.length + 1)) (by omega) (by omega)
      have hlength : (string ++ [0]).length = string.length + 1 := by simp
      obtain ⟨s'', heq', hfirst⟩ := processWriteUserStack_written hframes s' (string ++ [0]) address
        hbottom (by rw [hlength]; omega)
      rw [← hlength] at hrest
      refine ⟨s'', ?_, hrest.below hfirst⟩
      have habove : address + (packed (string :: strings)).length =
          address + (string.length + 1) + (packed strings).length := by
        rw [length_packed_cons]
        omega
      rw [processWriteStrings, outcome_bind, habove, heq]
      dsimp only
      rw [Nat.add_sub_cancel, outcome_bind, heq']
      rfl

theorem readField_words {read : Bytes} {address : ℕ} {words : List ℕ}
    (h : slice read address (8 * words.length) = words.flatMap wordBytes)
    (hwords : ∀ word ∈ words, word < 2 ^ 64) {i : ℕ} (hi : i < words.length) :
    readField read (address + 8 * i) 8 = words.getD i 0 := by
  induction words generalizing address i with
  | nil => exact absurd hi (Nat.not_lt_zero i)
  | cons word words ih =>
      rw [List.length_cons, Nat.mul_succ, Nat.add_comm, slice_add, List.flatMap_cons] at h
      obtain ⟨hfirst, hrest⟩ := List.append_inj h (by rw [length_slice, length_wordBytes])
      cases i with
      | zero =>
          have hfield : readField read address 8 = readField (writeField read address 8 word) address
              8 := readField_of_slice (hfirst.trans (slice_writeField read address 8 word).symm)
          rw [Nat.mul_zero, Nat.add_zero, hfield]
          exact readField_writeField_of_lt (hwords word List.mem_cons_self)
      | succ i =>
          rw [Nat.mul_succ, Nat.add_comm (8 * i), ← Nat.add_assoc]
          exact ih hrest (fun other hother ↦ hwords other (List.mem_cons_of_mem word hother))
            (Nat.lt_of_succ_lt_succ hi)

theorem layoutAreas_apart {bottom : ℕ}
    (hframe : pointer + 8 * (argument.length + environment.length + 5) ≤ bottom) :
    (layoutAreas pointer (placed bottom argument)
        (placed (bottom + (packed argument).length) environment) argument environment).Pairwise
      fun area above ↦ area.1 + area.2 ≤ above.1 := by
  unfold layoutAreas
  rw [← placed_append, List.zip_map_right]
  apply List.Pairwise.cons
  · intro area harea
    obtain ⟨place, hplace, rfl⟩ := List.mem_map.mp harea
    exact hframe.trans (placed_within bottom _ place hplace).1
  · exact List.pairwise_map.mpr (placed_pairwise bottom (argument ++ environment))

theorem layoutAreas_within {bottom : ℕ} (hbase : userStackBase ≤ pointer)
    (hframe : pointer + 8 * (argument.length + environment.length + 5) ≤ bottom)
    (htop : bottom + (packed (argument ++ environment)).length ≤ processUserStackTop) :
    ∀ area ∈ layoutAreas pointer (placed bottom argument)
        (placed (bottom + (packed argument).length) environment) argument environment,
      userStackBase ≤ area.1 ∧ area.1 + area.2 ≤ processUserStackTop := by
  unfold layoutAreas
  rw [← placed_append, List.zip_map_right]
  intro area harea
  rcases List.mem_cons.mp harea with rfl | harea
  · exact ⟨hbase, by dsimp only; omega⟩
  · obtain ⟨place, hplace, rfl⟩ := List.mem_map.mp harea
    obtain ⟨hlow, hhigh⟩ := placed_within bottom _ place hplace
    exact ⟨by dsimp only [Prod.map, id]; omega, hhigh.trans htop⟩

theorem frameWords_lt {bottom : ℕ} (hargument : argument.length < 2 ^ 64)
    (htop : bottom + (packed (argument ++ environment)).length ≤ processUserStackTop) :
    ∀ word ∈ [argument.length] ++ placed bottom argument ++ [0] ++
      placed (bottom + (packed argument).length) environment ++ [0, 0, 0], word < 2 ^ 64 := by
  have hplaced : ∀ place ∈ placed bottom (argument ++ environment), place < 2 ^ 64 := by
    intro place hplace
    obtain ⟨i, hi, rfl⟩ := List.mem_iff_getElem.mp hplace
    rw [length_placed] at hi
    have harea : ((placed bottom (argument ++ environment))[i], (argument ++ environment)[i]) ∈
        (placed bottom (argument ++ environment)).zip (argument ++ environment) :=
      List.mem_iff_getElem.mpr ⟨i, by simpa using hi, List.getElem_zip⟩
    have hhigh := (placed_within bottom _ _ harea).2
    have hlimit : processUserStackTop < 2 ^ 64 := by decide
    dsimp only at hhigh
    omega
  rw [placed_append] at hplaced
  intro word hword
  simp only [List.mem_append, List.mem_cons, List.not_mem_nil, or_false] at hword
  rcases hword with (((rfl | hword) | rfl) | hword) | (rfl | rfl | rfl)
  · exact hargument
  · exact hplaced word (List.mem_append_left _ hword)
  · decide
  · exact hplaced word (List.mem_append_right _ hword)
  · decide
  · decide
  · decide

theorem processLayOutArguments_laid (hframes : FramesApart frames) (s : Machine)
    (arguments : ProcessArguments)
    (hargument : arguments.argument.length ≤ processArgumentCountMaximum)
    (henvironment : arguments.environment.length ≤ processArgumentCountMaximum)
    (hused : (packed arguments.argument).length + (packed arguments.environment).length =
      arguments.storageUsed)
    (hbytes : arguments.storageUsed ≤ processArgumentBytesMaximum) :
    ∃ pointer argumentAt environmentAt s',
      outcome (processLayOutArguments frames arguments) s = (.ok pointer, s') ∧ pointer ≠ 0 ∧
        Laid (stackBytes frames s') pointer argumentAt environmentAt arguments.argument
          arguments.environment := by
  obtain ⟨argument, environment, used⟩ := arguments
  dsimp only at *
  have hcount : processArgumentCountMaximum = 128 := rfl
  have hmaximum : processArgumentBytesMaximum = 8192 := rfl
  have hbase : userStackBase = 0x6ffffffF0000 := by decide
  have hlimit : processUserStackTop = 0x700000000000 := rfl
  rw [hcount] at hargument henvironment
  rw [hmaximum] at hbytes
  generalize hbottom : processUserStackTop - used = bottom
  have habove : bottom + (packed argument).length + (packed environment).length =
      processUserStackTop := by omega
  obtain ⟨s1, heq1, hwritten1⟩ := processWriteStrings_written hframes s environment
    (bottom + (packed argument).length) (by omega) habove.le
  rw [habove] at heq1
  obtain ⟨s2, heq2, hwritten2⟩ := processWriteStrings_written hframes s1 argument bottom
    (by omega) (by omega)
  have hstrings := hwritten1.below hwritten2
  rw [← packed_append] at hstrings
  have hwhole : (packed (argument ++ environment)).length =
      (packed argument).length + (packed environment).length := by
    rw [packed_append, List.length_append]
  generalize hwords : [argument.length] ++ placed bottom argument ++ [0] ++
    placed (bottom + (packed argument).length) environment ++ [0, 0, 0] = words
  have hlength : words.length = argument.length + environment.length + 5 := by
    rw [← hwords]
    simp only [List.length_append, List.length_cons, List.length_nil, length_placed]
    omega
  generalize hpointer : (bottom / 8 * 8 - 8 * words.length) / 16 * 16 = pointer
  have hframe : pointer + 8 * words.length ≤ bottom := by omega
  have hlow : userStackBase ≤ pointer := by omega
  obtain ⟨s3, heq3, hwritten3⟩ := processWriteUserStackWords_written hframes s2 words pointer hlow
    (by omega)
  refine ⟨pointer, placed bottom argument, placed (bottom + (packed argument).length) environment,
    s3, ?_, by omega, ?_⟩
  · unfold processLayOutArguments
    rw [if_neg (by dsimp only; omega), outcome_bind, heq1]
    dsimp only
    rw [outcome_bind, heq2]
    dsimp only
    rw [hwords, hpointer, outcome_bind, heq3]
    rfl
  · have hread : slice (stackBytes frames s3) bottom (packed (argument ++ environment)).length =
        packed (argument ++ environment) := by
      have hkept : slice (stackBytes frames s3) bottom (packed (argument ++ environment)).length =
          slice (stackBytes frames s2) bottom (packed (argument ++ environment)).length := by
        apply slice_congr
        intro a hfrom hto
        apply hwritten3.others a (by omega) (by omega)
        right
        rw [length_flatMap_wordBytes]
        omega
      rw [hkept, hstrings.written]
    rw [packed_append, List.length_append, slice_add] at hread
    obtain ⟨hargument', henvironment'⟩ := List.append_inj hread (length_slice _ _ _)
    have hframe' : slice (stackBytes frames s3) pointer (8 * words.length) =
        words.flatMap wordBytes := by
      rw [← length_flatMap_wordBytes]
      exact hwritten3.written
    rw [hlength] at hframe
    exact {
      aligned := by omega
      within := layoutAreas_within hlow hframe (by omega)
      apart := layoutAreas_apart hframe
      words := fun i hi ↦ by
        rw [hwords]
        apply readField_words hframe' _ (hlength ▸ hi)
        rw [← hwords]
        exact frameWords_lt (by omega) (by omega)
      argument := slice_placed hargument'
      environment := slice_placed henvironment' }

end OxysOS.Proc
