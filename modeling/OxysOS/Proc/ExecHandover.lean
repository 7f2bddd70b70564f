import OxysOS.Proc.ExecCopied
import OxysOS.Proc.ExecStack

/-!
# What `execve` hands over

The vectors of the caller, through the copy that is made of them, to the stack that
the new program begins with.
-/

namespace OxysOS.Proc

open OxysOS.Library OxysOS.Mm OxysOS.Exec Action

structure HandedOver (block : ArgumentBlock) (argument environment : List (List UInt8)) : Prop where
  laid : ∀ (frames : ℕ → ℕ) (s : Machine), FramesApart frames →
    ∃ pointer argumentAt environmentAt s',
      outcome (processLayOutArguments frames block.arguments) s = (.ok pointer, s') ∧ pointer ≠ 0 ∧
        Laid (stackBytes frames s') pointer argumentAt environmentAt argument environment
  found : ∀ (y y' : Running) (pointer : ℕ), Hierarchy y.user y.machine → y.process.space.root ≠ 0 →
    argument ++ environment ≠ [] →
    outcome (processCreateUserStack (some block.arguments)) y = (.ok pointer, y') → pointer ≠ 0 →
    ∃ argumentAt environmentAt, Laid (readIn y'.process.space y'.machine) pointer argumentAt
      environmentAt argument environment

theorem handedOver_of_arguments {block : ArgumentBlock} {argument environment : List (List UInt8)}
    (hbounds : WithinBounds argument environment) (h : block.arguments =
      ⟨argument, environment, (packed argument).length + (packed environment).length⟩) :
    HandedOver block argument environment := by
  constructor
  · intro frames s hframes
    rw [h]
    exact processLayOutArguments_laid hframes s _ hbounds.arguments hbounds.environments rfl
      hbounds.bytes
  · intro y y' pointer hhierarchy hroot hsome hrun hpointer
    rw [h] at hrun
    have hnonempty : ¬(argument.length = 0 ∧ environment.length = 0) := by
      rintro ⟨hargument, henvironment⟩
      apply hsome
      rw [List.eq_nil_of_length_eq_zero hargument, List.eq_nil_of_length_eq_zero henvironment]
      rfl
    exact processCreateUserStack_laid hhierarchy hroot hbounds.arguments hbounds.environments rfl
      hbounds.bytes hnonempty hrun hpointer

/-- Vectors that keep to the bounds are handed over as they stand, others are refused
before the caller is touched, and nothing is read that the caller may not read. -/
theorem execve_vectors (x : Running) (argumentVector environmentVector : Word) (storage : Bytes) :
    let copy := copyUserVectors x argumentVector environmentVector storage
    (∀ a ∈ copy.reads, MayRead x a) ∧
    (∀ argument environment, VectorAt x argumentVector argument →
      VectorAt x environmentVector environment →
        (copy.answer = syscallOk ↔ WithinBounds argument environment) ∧
          (WithinBounds argument environment → HandedOver copy.block argument environment)) ∧
    (copy.answer = syscallOk → ∃ argument environment, VectorAt x argumentVector argument ∧
      VectorAt x environmentVector environment) ∧
    (copy.answer ≠ syscallOk → ∀ allocated copyPath execute, ∃ answer, answer ≠ syscallOk ∧
      outcome (syscallDoExecve allocated storage copyPath execute argumentVector
        environmentVector) x = (.ok answer, x)) := by
  intro copy
  refine ⟨copyUserVectors_reads x argumentVector environmentVector storage, ?_, fun h ↦ ?_,
    fun h allocated copyPath execute ↦ syscallDoExecve_refused allocated storage copyPath execute h⟩
  · intro argument environment hargument henvironment
    refine ⟨⟨fun h ↦ ?_, fun hbounds ↦ ?_⟩, fun hbounds ↦ ?_⟩
    · obtain ⟨argument', environment', hargument', henvironment', hbounds⟩ :=
        exists_of_copyUserVectors h
      rwa [hargument.unique hargument', henvironment.unique henvironment']
    · exact (copyUserVectors_copied storage hargument henvironment hbounds).1
    · exact handedOver_of_arguments hbounds
        (copyUserVectors_copied storage hargument henvironment hbounds).2
  · obtain ⟨argument, environment, hargument, henvironment, -⟩ := exists_of_copyUserVectors h
    exact ⟨argument, environment, hargument, henvironment⟩

def onePage : Bytes := fun i ↦
  match i with
  | 0 => 0x07
  | 1 => 0x10
  | 64 => 96
  | 96 => byteOf 'a'
  | _ => 0

def onePageRunning : Running where
  machine := ⟨⟨fun _ ↦ 0, 0, 0, 0, 0, none⟩, fun _ ↦ onePage, pageSize, pageSize⟩
  process := ⟨⟨pageSize⟩, 0, 0, 0, 0, 0, 0, 0, 0⟩
  mappings := []

theorem execve_vectors_one :
    HandedOver (copyUserVectors onePageRunning 64 80 fun _ ↦ 0).block [[byteOf 'a']] [] := by
  have hargument : VectorAt onePageRunning 64 [[byteOf 'a']] :=
    Or.inr ⟨by decide, by decide +kernel, by decide +kernel,
      ⟨by unfold MayRead; decide +kernel, by decide +kernel, by decide,
        by unfold MayRead; decide +kernel, by decide +kernel⟩,
      by decide +kernel, by decide +kernel⟩
  have henvironment : VectorAt onePageRunning 80 [] :=
    Or.inr ⟨by decide, by decide +kernel, by decide +kernel⟩
  exact ((execve_vectors onePageRunning 64 80 fun _ ↦ 0).2.1 _ _ hargument henvironment).2
    ⟨by decide, by decide, by decide⟩

end OxysOS.Proc
