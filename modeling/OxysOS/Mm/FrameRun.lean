import OxysOS.Mm.FrameAccount

/-!
# Runs of the frame allocator

An allocation issues a clear frame of the range asked for whenever there is one.
-/

namespace OxysOS.Mm

open OxysOS.Library

inductive FrameCall
  | allocate
  | allocateBelow (limit : ℕ)
  | referenceIncrement (frame : ℕ)
  | free (frame : ℕ)
  | referenceInitialise (granted : Bool)

namespace FrameAllocator

variable {s t start : FrameAllocator} {i limit frame answer : ℕ}

def perform (s : FrameAllocator) : FrameCall → Except String (ℕ × FrameAllocator)
  | .allocate => .ok s.allocate
  | .allocateBelow limit => .ok (s.allocateBelow limit)
  | .referenceIncrement frame => (s.referenceIncrement frame).map (0, ·)
  | .free frame => (s.free frame).map (0, ·)
  | .referenceInitialise granted => (s.referenceInitialise granted).map (0, ·)

def limitAsked (s : FrameAllocator) : FrameCall → Option ℕ
  | .allocate => some (frameAddressOf s.frameCount)
  | .allocateBelow limit => some limit
  | _ => none

/-- The calls of a run that does not panic with what each answered, the latest
first. -/
inductive Run (start : FrameAllocator) : List (FrameCall × ℕ) → FrameAllocator → Prop
  | nil : Run start [] start
  | cons {history : List (FrameCall × ℕ)} {s t : FrameAllocator} {call : FrameCall} {answer : ℕ} :
      Run start history s → s.perform call = .ok (answer, t) →
        Run start ((call, answer) :: history) t

def FrameCall.allocates : FrameCall → Bool
  | .allocate => true
  | .allocateBelow _ => true
  | _ => false

def Issued (history : List (FrameCall × ℕ)) (frame : ℕ) : Prop :=
  ∃ call, (call, frame) ∈ history ∧ FrameCall.allocates call = true ∧ frame ≠ frameAllocationFailed

def ReleasesIssued : List (FrameCall × ℕ) → Prop
  | [] => True
  | (call, _) :: history =>
      (∀ frame, call = .free frame → Issued history frame) ∧ ReleasesIssued history

structure Served (s t : FrameAllocator) (limit answer : ℕ) (history : List (FrameCall × ℕ)) :
    Prop where
  wasFree : answer ≠ frameAllocationFailed → isPageAligned answer = true ∧
    s.isUsed (frameIndexOf answer) = false ∧ t.isUsed (frameIndexOf answer) = true ∧
    frameIndexOf answer < s.frameCount ∧ answer + pageSize ≤ limit
  notLow : ReleasesIssued history → answer ≠ frameAllocationFailed → lowMemoryLimit ≤ answer
  exhausted : ReleasesIssued history → answer = frameAllocationFailed →
    ∀ i, i < s.frameCount → lowMemoryLimit ≤ i * pageSize → (i + 1) * pageSize ≤ limit →
      s.isUsed i = true

theorem perform_of_limitAsked {call : FrameCall} (h : s.limitAsked call = some limit) :
    s.perform call = .ok (s.allocateBelow limit) ∧ FrameCall.allocates call = true := by
  cases call with
  | allocate =>
      cases h
      exact ⟨rfl, rfl⟩
  | allocateBelow limit =>
      cases h
      exact ⟨rfl, rfl⟩
  | referenceIncrement frame => cases h
  | free frame => cases h
  | referenceInitialise granted => cases h

theorem perform_cases {call : FrameCall} (h : s.perform call = .ok (answer, t)) :
    (∃ limit, s.limitAsked call = some limit ∧ s.allocateBelow limit = (answer, t)) ∨
      FrameCall.allocates call = false ∧
        ((∃ frame, call = .referenceIncrement frame ∧ s.referenceIncrement frame = .ok t) ∨
          (∃ frame, call = .free frame ∧ s.free frame = .ok t) ∨
          ∃ granted, call = .referenceInitialise granted ∧ s.referenceInitialise granted = .ok t) := by
  have hmap : ∀ {outcome : Except String FrameAllocator},
      outcome.map (fun s ↦ (0, s)) = .ok (answer, t) → outcome = .ok t := by
    intro outcome houtcome
    cases outcome with
    | error text => cases houtcome
    | ok s =>
        cases houtcome
        rfl
  cases call with
  | allocate => exact Or.inl ⟨_, rfl, Except.ok.inj h⟩
  | allocateBelow limit => exact Or.inl ⟨_, rfl, Except.ok.inj h⟩
  | referenceIncrement frame => exact Or.inr ⟨rfl, Or.inl ⟨frame, rfl, hmap h⟩⟩
  | free frame => exact Or.inr ⟨rfl, Or.inr (Or.inl ⟨frame, rfl, hmap h⟩)⟩
  | referenceInitialise granted => exact Or.inr ⟨rfl, Or.inr (Or.inr ⟨granted, rfl, hmap h⟩)⟩

theorem Counted.perform {call : FrameCall} (h : Counted s)
    (hcall : s.perform call = .ok (answer, t)) : Counted t := by
  rcases perform_cases hcall with ⟨limit, -, hallocate⟩ |
    ⟨-, ⟨frame, -, hincrement⟩ | ⟨frame, -, hfree⟩ | ⟨granted, -, hestablish⟩⟩
  · rcases allocateBelow_cases s limit with ⟨i, heq, -, -, -⟩ | ⟨heq, -⟩
    · cases hallocate.symm.trans heq
      exact h.issue i
    · cases hallocate.symm.trans heq
      exact h
  · obtain ⟨table, -, -, -, -, rfl⟩ := referenceIncrement_cases hincrement
    exact ⟨h.words, h.addressable, h.beyond, h.clear⟩
  · exact h.free hfree
  · rcases referenceInitialise_cases hestablish with rfl | ⟨-, rfl⟩
    · exact h
    · exact ⟨h.words, h.addressable, h.beyond, h.clear⟩

theorem ReferencesAgree.perform {call : FrameCall} (h : ReferencesAgree s)
    (hcall : s.perform call = .ok (answer, t)) : ReferencesAgree t := by
  rcases perform_cases hcall with ⟨limit, -, hallocate⟩ |
    ⟨-, ⟨frame, -, hincrement⟩ | ⟨frame, -, hfree⟩ | ⟨granted, -, hestablish⟩⟩
  · rcases allocateBelow_cases s limit with ⟨i, heq, -, -, -⟩ | ⟨heq, -⟩
    · cases hallocate.symm.trans heq
      exact h.issue i
    · cases hallocate.symm.trans heq
      exact h
  · exact h.referenceIncrement hincrement
  · exact h.free hfree
  · rcases referenceInitialise_cases hestablish with rfl | ⟨-, rfl⟩
    · exact h
    · intro table htable i hi
      cases htable
      change (if i < s.frameCount ∧ s.isUsed i = true then 1 else 0) ≠ 0 ↔ s.isUsed i = true
      have hcount : i < s.frameCount := hi
      simp [hcount]

theorem frameIndexOf_frameAddressOf (h : Counted s) (hi : i < s.frameCount) :
    frameAddressOf i = i * pageSize ∧ frameIndexOf (frameAddressOf i) = i := by
  have hlt : i * pageSize < 2 ^ 64 :=
    (Nat.mul_le_mul_right pageSize hi.le).trans_lt h.addressable
  have haddress : frameAddressOf i = i * pageSize := Nat.mod_eq_of_lt hlt
  refine ⟨haddress, ?_⟩
  rw [haddress]
  exact Nat.mul_div_cancel i (by decide)

theorem lt_of_lt_limitIndex (h : i < s.limitIndex limit) :
    i < s.frameCount ∧ (i + 1) * pageSize ≤ limit := by
  unfold limitIndex frameIndexOf alignDown at h
  rw [Nat.mul_div_cancel _ (by decide)] at h
  refine ⟨h.trans_le (min_le_right _ _), ?_⟩
  have hlt : i + 1 ≤ limit / pageSize := h.trans_le (min_le_left _ _)
  exact (Nat.mul_le_mul_right pageSize hlt).trans (Nat.div_mul_le_self limit pageSize)

structure Account (s : FrameAllocator) (history : List (FrameCall × ℕ)) : Prop where
  counted : Counted s
  references : ReferencesAgree s
  low : ReleasesIssued history → LowReserved s
  issued : ReleasesIssued history → ∀ frame, Issued history frame →
    frameIndexOf lowMemoryLimit ≤ frameIndexOf frame

theorem Issued.cons {history : List (FrameCall × ℕ)} {call : FrameCall}
    (h : Issued ((call, answer) :: history) frame) :
    (frame = answer ∧ FrameCall.allocates call = true ∧ answer ≠ frameAllocationFailed) ∨
      Issued history frame := by
  obtain ⟨call', hmem, hallocates, hnot⟩ := h
  rcases List.mem_cons.mp hmem with heq | hmem
  · cases heq
    exact Or.inl ⟨rfl, hallocates, hnot⟩
  · exact Or.inr ⟨call', hmem, hallocates, hnot⟩

theorem Account.cons {history : List (FrameCall × ℕ)} {call : FrameCall} (h : Account s history)
    (hcall : s.perform call = .ok (answer, t)) : Account t ((call, answer) :: history) := by
  refine ⟨h.counted.perform hcall, h.references.perform hcall, fun hreleases ↦ ?_,
    fun hreleases frame hissued ↦ ?_⟩
  · have hlow := h.low hreleases.2
    rcases perform_cases hcall with ⟨limit, -, hallocate⟩ |
      ⟨-, ⟨frame, -, hincrement⟩ | ⟨frame, rfl, hfree⟩ | ⟨granted, -, hestablish⟩⟩
    · rcases allocateBelow_cases s limit with ⟨i, heq, -, -, hge⟩ | ⟨heq, -⟩
      · cases hallocate.symm.trans heq
        exact hlow.issue (hge hlow.hint)
      · cases hallocate.symm.trans heq
        exact hlow
    · obtain ⟨table, -, -, -, -, rfl⟩ := referenceIncrement_cases hincrement
      exact ⟨hlow.used, hlow.hint⟩
    · exact hlow.free hfree (h.issued hreleases.2 frame (hreleases.1 frame rfl))
    · rcases referenceInitialise_cases hestablish with rfl | ⟨-, rfl⟩
      · exact hlow
      · exact ⟨hlow.used, hlow.hint⟩
  · rcases hissued.cons with ⟨rfl, hallocates, hnot⟩ | hbefore
    · rcases perform_cases hcall with ⟨limit, -, hallocate⟩ | ⟨hother, -⟩
      · rcases allocateBelow_cases s limit with ⟨i, heq, hclear, -, hge⟩ | ⟨heq, -⟩
        · cases hallocate.symm.trans heq
          rw [(frameIndexOf_frameAddressOf h.counted (h.counted.lt_of_clear hclear)).2]
          exact hge (h.low hreleases.2).hint
        · cases hallocate.symm.trans heq
          exact absurd rfl hnot
      · rw [hother] at hallocates
        cases hallocates
    · exact h.issued hreleases.2 frame hbefore

theorem Run.account {information : BootInformation} {history : List (FrameCall × ℕ)}
    (hstart : physicalMemoryInitialise information = .ok start) (hrun : Run start history s) :
    Account s history := by
  induction hrun with
  | nil =>
      obtain ⟨hcounted, hnone, hlow⟩ := initialised hstart
      refine ⟨hcounted, ?_, fun _ ↦ hlow, ?_⟩
      · intro table htable
        rw [hnone] at htable
        cases htable
      · rintro - frame ⟨call, hmem, -⟩
        cases hmem
  | cons _ hcall ih => exact ih.cons hcall

theorem Account.served {history : List (FrameCall × ℕ)} (h : Account s history)
    (hallocate : s.allocateBelow limit = (answer, t)) : Served s t limit answer history := by
  rcases allocateBelow_cases s limit with ⟨i, heq, hclear, hlimit, hge⟩ | ⟨heq, hfull⟩
  · cases hallocate.symm.trans heq
    obtain ⟨hcount, hend⟩ := lt_of_lt_limitIndex hlimit
    obtain ⟨haddress, hindex⟩ := frameIndexOf_frameAddressOf h.counted hcount
    refine ⟨fun _ ↦ ⟨?_, ?_, ?_, ?_, ?_⟩, fun hreleases _ ↦ ?_, fun hreleases hfailed ↦ ?_⟩
    · rw [haddress]
      unfold isPageAligned
      rw [Nat.mul_mod_left]
      rfl
    · rw [hindex]
      exact hclear
    · rw [hindex, isUsed_issue]
      simp
    · rw [hindex]
      exact hcount
    · rw [haddress, ← Nat.succ_mul]
      exact hend
    · have hlow := hge (h.low hreleases).hint
      rw [haddress]
      exact Nat.mul_le_mul_right pageSize hlow
    · have hlow := hge (h.low hreleases).hint
      rw [haddress] at hfailed
      have hpositive : 0 < i * pageSize := Nat.mul_pos (lt_of_lt_of_le (by decide) hlow) (by decide)
      exact absurd hfailed hpositive.ne'
  · cases hallocate.symm.trans heq
    refine ⟨fun hnot ↦ absurd rfl hnot, fun _ hnot ↦ absurd rfl hnot, fun _ _ i hcount hlow hend ↦ ?_⟩
    apply hfull i
    · apply Nat.div_le_of_le_mul
      rw [Nat.mul_comm]
      exact hlow
    · unfold limitIndex frameIndexOf alignDown
      rw [Nat.mul_div_cancel _ (by decide)]
      exact lt_min ((Nat.le_div_iff_mul_le (by decide)).mpr hend) hcount

/-- Throughout every run the free count is the number of clear bits and a frame
is counted exactly while it is marked.  Every allocation issues a clear frame
that ends within its limit, and for callers that release only what they were
issued it is never one of low memory and is refused only where the range holds
no clear frame. -/
theorem Run.issues_free {information : BootInformation} {history : List (FrameCall × ℕ)}
    (hstart : physicalMemoryInitialise information = .ok start) (hrun : Run start history s) :
    (s.freeFrames = tally (64 * s.wordCount) fun i ↦ s.isUsed i = false) ∧
      (∀ table, s.references = some table →
        ∀ i, i < s.frameCount → (table i ≠ 0 ↔ s.isUsed i = true)) ∧
      ∀ call limit answer t, s.limitAsked call = some limit →
        s.perform call = .ok (answer, t) → Served s t limit answer history := by
  have haccount := hrun.account hstart
  refine ⟨haccount.counted.clear, haccount.references, fun call limit answer t hlimit hcall ↦ ?_⟩
  rw [(perform_of_limitAsked hlimit).1] at hcall
  exact haccount.served (Except.ok.inj hcall)

def smallMachine : BootInformation where
  memoryRegions := [⟨0, 0x102000, .usable⟩]
  highestUsableAddress := 0x102000
  kernelPhysicalStart := 0
  kernelPhysicalEnd := 0x1000
  bootInformationStart := 0x2000
  bootInformationEnd := 0x2800
  modules := []

def replay (s : FrameAllocator) : List (FrameCall × ℕ) → Option FrameAllocator
  | [] => some s
  | (call, answer) :: history =>
      (s.replay history).bind fun s ↦
        match s.perform call with
        | .ok (given, t) => if given = answer then some t else none
        | .error _ => none

theorem Run.of_replay {history : List (FrameCall × ℕ)} (h : start.replay history = some s) :
    Run start history s := by
  induction history generalizing s with
  | nil =>
      cases h
      exact Run.nil
  | cons entry history ih =>
      obtain ⟨call, answer⟩ := entry
      obtain ⟨before, hbefore, hcall⟩ := Option.bind_eq_some_iff.mp h
      cases hperform : before.perform call with
      | error text =>
          rw [hperform] at hcall
          cases hcall
      | ok result =>
          obtain ⟨given, t⟩ := result
          rw [hperform] at hcall
          dsimp only at hcall
          split at hcall
          · rename_i hgiven
            cases hcall
            exact Run.cons (ih hbefore) (hgiven ▸ hperform)
          · cases hcall

theorem exists_run (information : BootInformation) (history : List (FrameCall × ℕ))
    (h : (((physicalMemoryInitialise information).toOption.bind
      fun start ↦ start.replay history).isSome) = true) :
    ∃ start s, physicalMemoryInitialise information = .ok start ∧ Run start history s := by
  cases hinitialise : physicalMemoryInitialise information with
  | error text =>
      rw [hinitialise] at h
      cases h
  | ok start =>
      rw [hinitialise] at h
      obtain ⟨s, hs⟩ := Option.isSome_iff_exists.mp h
      exact ⟨start, s, rfl, Run.of_replay hs⟩

theorem sound_small : ∃ start s, physicalMemoryInitialise smallMachine = .ok start ∧
    Run start [(.free 0x101000, 0), (.referenceInitialise true, 0), (.allocate, 0x101000)] s ∧
    ∀ call limit answer t, s.limitAsked call = some limit → s.perform call = .ok (answer, t) →
      Served s t limit answer
        [(.free 0x101000, 0), (.referenceInitialise true, 0), (.allocate, 0x101000)] := by
  obtain ⟨start, s, hstart, hrun⟩ := exists_run smallMachine
    [(.free 0x101000, 0), (.referenceInitialise true, 0), (.allocate, 0x101000)]
    (by decide +kernel)
  exact ⟨start, s, hstart, hrun, (Run.issues_free hstart hrun).2.2⟩

/-- A caller that releases a frame of low memory is then issued it. -/
theorem issues_low_frame :
    ¬∀ (information : BootInformation) (start s t : FrameAllocator)
      (history : List (FrameCall × ℕ)) (call : FrameCall) (limit answer : ℕ),
      physicalMemoryInitialise information = .ok start → Run start history s →
        s.limitAsked call = some limit → s.perform call = .ok (answer, t) →
          answer ≠ frameAllocationFailed → lowMemoryLimit ≤ answer := by
  intro h
  obtain ⟨start, t, hstart, hrun⟩ := exists_run smallMachine
    [(.allocate, 0x1000), (.free 0x1000, 0)] (by decide +kernel)
  cases hrun with
  | cons hbefore hcall =>
      have hlow := h smallMachine start _ t _ .allocate _ 0x1000 hstart hbefore rfl hcall
        (by decide)
      exact absurd hlow (by decide)

end FrameAllocator

end OxysOS.Mm
