import OxysOS.Proc.ProcessLoops

/-!
# The stack of a process

The arguments are laid out in the frames of the stack and nowhere else, so that
the stack that is made maps its own pages and no others.
-/

namespace OxysOS.Proc

open OxysOS.Library OxysOS.Mm OxysOS.Exec Action

variable {x x' : Running} {fixed heap : ℕ → Prop} {frames : ℕ → ℕ} {P : Machine → Prop}

def KeptByStack (frames : ℕ → ℕ) (P : Machine → Prop) : Prop :=
  ∀ s i f, i < processUserStackPages → P s → P (s.alterFrame (frames i) f)

namespace KeptByStack

theorem writeUserStack (h : KeptByStack frames P) (bytes : List UInt8) (address : ℕ) :
    Triple P (processWriteUserStack frames bytes address) (fun _ ↦ P) fun _ ↦ P := by
  induction bytes generalizing address with
  | nil => exact Triple.pure fun _ hs ↦ hs
  | cons byte bytes ih =>
      rw [processWriteUserStack]
      apply Triple.ite
      · exact fun _ ↦ Triple.pure fun _ hs ↦ hs
      · intro hwithin
        have hindex : (address - userStackBase) / pageSize < processUserStackPages := by
          unfold userStackBase processUserStackTop processUserStackPages pageSize at *
          omega
        exact (Triple.modify (Q := fun _ ↦ P) fun s hs ↦ h s _ _ hindex hs).bind fun _ ↦ ih _

theorem writeUserStackWords (h : KeptByStack frames P) (words : List ℕ) (address : ℕ) :
    Triple P (processWriteUserStackWords frames words address) (fun _ ↦ P) fun _ ↦ P := by
  induction words generalizing address with
  | nil => exact Triple.pure fun _ hs ↦ hs
  | cons word words ih =>
      rw [processWriteUserStackWords]
      refine (h.writeUserStack _ _).bind fun written ↦ ?_
      exact Triple.ite (fun _ ↦ ih _) fun _ ↦ Triple.pure fun _ hs ↦ hs

theorem writeStrings (h : KeptByStack frames P) (strings : List (List UInt8)) (address : ℕ) :
    Triple P (processWriteStrings frames strings address) (fun _ ↦ P) fun _ ↦ P := by
  induction strings with
  | nil => exact Triple.pure fun _ hs ↦ hs
  | cons string strings ih =>
      rw [processWriteStrings]
      refine ih.bind fun answer ↦ ?_
      cases answer with
      | none => exact Triple.pure fun _ hs ↦ hs
      | some answer =>
          refine (h.writeUserStack _ _).bind fun written ↦ ?_
          exact Triple.ite (fun _ ↦ Triple.pure fun _ hs ↦ hs) fun _ ↦ Triple.pure fun _ hs ↦ hs

theorem layOutArguments (h : KeptByStack frames P) (arguments : ProcessArguments) :
    Triple P (processLayOutArguments frames arguments) (fun _ ↦ P) fun _ ↦ P := by
  unfold processLayOutArguments
  apply Triple.ite
  · exact fun _ ↦ Triple.pure fun _ hs ↦ hs
  · intro _
    refine (h.writeStrings _ _).bind fun answer ↦ ?_
    cases answer with
    | none => exact Triple.pure fun _ hs ↦ hs
    | some answer =>
        refine (h.writeStrings _ _).bind fun answer ↦ ?_
        cases answer with
        | none => exact Triple.pure fun _ hs ↦ hs
        | some answer =>
            refine (h.writeUserStackWords _ _).bind fun written ↦ ?_
            exact Triple.ite (fun _ ↦ Triple.pure fun _ hs ↦ hs) fun _ ↦ Triple.pure fun _ hs ↦ hs

end KeptByStack

theorem Standing.alterFrame {f : ℕ} {g : Bytes → Bytes} (h : Standing fixed heap x)
    (hf : Private x.user x.machine f) :
    Standing fixed heap { x with machine := x.machine.alterFrame (f * pageSize) g } ∧
      ∀ n, Private x.user x.machine n →
        Private x.user (x.machine.alterFrame (f * pageSize) g) n := by
  obtain ⟨hhierarchy, hleaves, hown⟩ := h.hierarchy.alterFrame hf g
  generalize x.machine.alterFrame (f * pageSize) g = t at hhierarchy hleaves hown ⊢
  have hleaf : ∀ address, address < 2 ^ 47 →
      Running.leaf { x with machine := t } address = x.leaf address := fun address haddress ↦
    hleaves.leaf (x.process.space.within_user haddress)
  refine ⟨⟨h.made, hhierarchy, ?_, ?_, ?_⟩, hown⟩
  · intro address haddress hfixed hheap
    rw [hleaf address haddress]
    exact h.absent address haddress hfixed hheap
  · intro q hq
    obtain ⟨haligned, hhigh, g, hentry, hg, hbound⟩ := h.held q hq
    exact ⟨haligned, hhigh, g, by rw [hleaf q hhigh, hentry], hown g hg, hbound⟩
  · intro q other hq hother heq
    rw [hleaf q (h.held q hq).2.1, hleaf other (h.held other hother).2.1] at heq
    exact h.apart q other hq hother heq

structure StackMade (fixed heap : ℕ → Prop) (x x' : Running) : Prop where
  harmless : Harmless x'
  standing : Standing (fun q ↦ fixed q ∨ PageRange userStackBase processUserStackPages q) heap x'
  space : x'.process.space = x.process.space
  breaks : x'.process.breakStart = x.process.breakStart ∧
    x'.process.breakCurrent = x.process.breakCurrent

theorem processCreateUserStack_cases (arguments : Option ProcessArguments)
    (h : Standing fixed heap x) (hlog : Harmless x)
    (hroom : ∀ q, PageRange userStackBase processUserStackPages q → Room fixed heap q) :
    (∃ text x', outcome (processCreateUserStack arguments) x = (.error text, x') ∧ Harmless x') ∨
    ∃ pointer x', outcome (processCreateUserStack arguments) x = (.ok pointer, x') ∧
      StackMade fixed heap x x' := by
  unfold processCreateUserStack
  rw [outcome_bind, outcome_get]
  dsimp only
  split
  · right
    exact ⟨0, x, rfl, hlog, h.mono fun q ↦ Or.inl, rfl, rfl, rfl⟩
  rw [outcome_bind]
  rcases processMapStackPages_cases h hlog hroom with ⟨text, x1, heq, hlog1⟩ | ⟨list, x1, heq, hmapped⟩
  · left
    rw [heq]
    exact ⟨text, x1, rfl, hlog1⟩
  rw [heq]
  dsimp only
  cases list with
  | none =>
      right
      refine ⟨0, x1, rfl, hmapped.harmless, hmapped.standing, hmapped.like.space, ?_, ?_⟩
      · rw [hmapped.like]
      · rw [hmapped.like]
  | some list =>
      obtain ⟨hlength, hframes⟩ := hmapped.frames list rfl
      generalize hx2 : ({ x1 with process := { x1.process with
        userStackTop := processUserStackTop
        userStackPages := processUserStackPages } } : Running) = x2
      have hstanding : Standing (fun q ↦ fixed q ∨ PageRange userStackBase processUserStackPages q)
          heap x2 := by
        obtain ⟨hmade, hhierarchy, habsent, hheld, hapart⟩ := hmapped.standing
        rw [← hx2]
        exact ⟨hmade, hhierarchy, habsent, hheld, hapart⟩
      have hmade : ∀ m, Standing (fun q ↦ fixed q ∨ PageRange userStackBase processUserStackPages q)
          heap { x2 with machine := m } → StackMade fixed heap x { x2 with machine := m } := by
        intro m hm
        refine ⟨?_, hm, ?_, ?_, ?_⟩
        · rw [← hx2]
          exact hmapped.harmless
        · rw [← hx2]
          exact hmapped.like.space
        · rw [← hx2, hmapped.like]
        · rw [← hx2, hmapped.like]
      rw [outcome_bind, alterProcess, outcome_modify]
      dsimp only
      rw [hx2]
      cases arguments with
      | none => exact Or.inr ⟨_, x2, rfl, hmade x2.machine hstanding⟩
      | some arguments =>
          dsimp only
          split
          · exact Or.inr ⟨_, x2, rfl, hmade x2.machine hstanding⟩
          · have hkept : KeptByStack (fun i ↦ list.getD i 0) fun m ↦
                Standing (fun q ↦ fixed q ∨ PageRange userStackBase processUserStackPages q) heap
                    { x2 with machine := m } ∧
                  ∀ frame ∈ list, ∃ f, frame = f * pageSize ∧ Private x2.user m f := by
              rintro m i g hi ⟨hm, hown⟩
              have hi' : i < list.length := by rwa [hlength]
              obtain ⟨f, hf, hprivate⟩ := hown list[i] (List.getElem_mem hi')
              obtain ⟨hm', hown'⟩ := hm.alterFrame (g := g) hprivate
              dsimp only
              rw [List.getD_eq_getElem?_getD, List.getElem?_eq_getElem hi', Option.getD_some, hf]
              refine ⟨hm', fun frame hframe ↦ ?_⟩
              obtain ⟨f', hf', hprivate'⟩ := hown frame hframe
              exact ⟨f', hf', hown' f' hprivate'⟩
            rw [outcome_onMachine]
            rcases (hkept.layOutArguments arguments).cases (s := x2.machine) ⟨hstanding, by
                rw [← hx2]
                exact hframes⟩ with ⟨pointer, m, heq', hm, -⟩ | ⟨text, m, heq', hm, -⟩
            · rw [heq']
              exact Or.inr ⟨pointer, _, rfl, hmade m hm⟩
            · rw [heq']
              exact Or.inl ⟨text, _, rfl, (hmade m hm).harmless⟩

theorem processCreateUserStack_made (h : Hierarchy x.user x.machine)
    (hnone : x.process.userStackTop = 0)
    (hfree : 4 * processUserStackPages ≤ x.machine.frames.freeFrames) :
    ∃ x', outcome (processCreateUserStack none) x =
        (.ok (processUserStackTop - processUserStackFrameBytes), x') ∧
      x'.process.userStackTop = processUserStackTop ∧
      Sustained (PageRange userStackBase processUserStackPages) x x' := by
  have hpages : ∀ q, PageRange userStackBase processUserStackPages q →
      q % pageSize = 0 ∧ q < 2 ^ 47 := by
    rintro q ⟨i, hi, rfl⟩
    have hbase : userStackBase = 0x700000000000 - 16 * 4096 := by decide
    have hsize : pageSize = 4096 := rfl
    have hcount : processUserStackPages = 16 := rfl
    rw [hbase, hsize]
    omega
  obtain ⟨frames, x1, heq, hsustained⟩ := processMapStackPages_made h hpages hfree
  unfold processCreateUserStack
  rw [outcome_bind, outcome_get]
  dsimp only
  rw [if_neg (not_not.mpr hnone), outcome_bind, heq]
  exact ⟨_, rfl, rfl, hsustained.hierarchy, hsustained.space, hsustained.leaf, hsustained.own,
    hsustained.memory⟩

end OxysOS.Proc
