import OxysOS.Proc.ProcessStack

/-!
# The break of a process

The pages of the heap are those from where it begins to where the break lies.
A call that moves the break where there is room for it keeps them so.
-/

namespace OxysOS.Proc

open OxysOS.Library OxysOS.Mm OxysOS.Exec Action

variable {x x' : Running} {fixed : ℕ → Prop} {requested value page count q : ℕ}

theorem alignUp_spec (value : ℕ) (h : value < 2 ^ 63) :
    alignUp value % pageSize = 0 ∧ value ≤ alignUp value ∧ alignUp value < value + pageSize := by
  unfold alignUp pageSize
  omega

theorem pageRange_iff (h : page % pageSize = 0) :
    PageRange page count q ↔ q % pageSize = 0 ∧ page ≤ q ∧ q < page + count * pageSize := by
  unfold PageRange pageSize at *
  constructor
  · rintro ⟨i, hi, rfl⟩
    omega
  · rintro ⟨haligned, hlow, hhigh⟩
    exact ⟨(q - page) / 4096, by omega, by omega⟩

def HeapOf (process : Process) (page : ℕ) : Prop :=
  page % pageSize = 0 ∧ process.breakStart ≤ page ∧ page < alignUp process.breakCurrent

structure BreakSound (process : Process) : Prop where
  aligned : process.breakStart % pageSize = 0
  low : process.breakStart ≤ process.breakCurrent
  most : process.breakCurrent ≤ process.breakStart + processBreakMaximum
  small : process.breakStart ≤ 2 ^ 48

def Clear (fixed : ℕ → Prop) (process : Process) (requested : ℕ) : Prop :=
  process.breakStart ≤ requested → requested - process.breakStart ≤ processBreakMaximum →
    ∀ q, q % pageSize = 0 → process.breakStart ≤ q → q < alignUp requested →
      q < syscallUserLimit ∧ ¬fixed q ∧ q ≠ guardPage

/-- A process between two calls, besides whose heap only the pages of `fixed`
may be mapped. -/
structure Ready (fixed : ℕ → Prop) (x : Running) : Prop where
  standing : Standing fixed (HeapOf x.process) x
  harmless : Harmless x
  sound : BreakSound x.process
  guarded : ¬HeapOf x.process guardPage

theorem Ready.of_standing {cur : ℕ} (h : BreakSound x.process) (hlike : x.process.Like x'.process)
    (hlow : x.process.breakStart ≤ cur) (hmost : cur ≤ x.process.breakStart + processBreakMaximum)
    (hlog : Harmless x') (hclear : Clear fixed x.process cur)
    (hstanding : Standing fixed
      (fun q ↦ q % pageSize = 0 ∧ x.process.breakStart ≤ q ∧ q < alignUp cur) x') :
    Ready fixed { x' with process := { x'.process with breakCurrent := cur } } := by
  have hstart : x'.process.breakStart = x.process.breakStart := by rw [hlike]
  refine ⟨?_, hlog, ?_, ?_⟩
  · obtain ⟨hmade, hhierarchy, habsent, hheld, hapart⟩ := hstanding
    unfold HeapOf
    dsimp only
    rw [hstart]
    exact ⟨hmade, hhierarchy, habsent, hheld, hapart⟩
  · constructor
    · exact hstart ▸ h.aligned
    · exact hstart ▸ hlow
    · exact hstart ▸ hmost
    · exact hstart ▸ h.small
  · rintro ⟨haligned, hbefore, hafter⟩
    dsimp only at hbefore hafter
    rw [hstart] at hbefore
    exact (hclear hlow (by omega) guardPage haligned hbefore hafter).2.2 rfl

theorem processSetBreak_cases (h : Ready fixed x) (hclear : Clear fixed x.process requested) :
    (∃ text x', outcome (processSetBreak requested) x = (.error text, x') ∧ Harmless x') ∨
    ∃ answer x', outcome (processSetBreak requested) x = (.ok answer, x') ∧ Ready fixed x' ∧
      x'.process.breakStart = x.process.breakStart := by
  have hmaximum : processBreakMaximum = 0x1000000 := rfl
  obtain ⟨haligned, hlow, hmost, hsmall⟩ := h.sound
  have hguarded := h.guarded
  unfold processSetBreak
  rw [outcome_bind, outcome_get]
  dsimp only
  split
  · exact Or.inr ⟨_, x, rfl, h, rfl⟩
  split
  · exact Or.inr ⟨_, x, rfl, h, rfl⟩
  split
  · exact Or.inr ⟨_, x, rfl, h, rfl⟩
  rename_i hstart hless hmore
  have hclear' := hclear (by omega) (by omega)
  obtain ⟨hestablished, hcurrent, hcurrent'⟩ := alignUp_spec (x.process.breakCurrent) (by omega)
  obtain ⟨hwanted, hrequested, hrequested'⟩ := alignUp_spec (requested) (by omega)
  generalize hest : alignUp x.process.breakCurrent = established at *
  generalize hwant : alignUp requested = wanted at *
  split
  · rename_i hgrows
    have hcount : established + (wanted - established) / pageSize * pageSize = wanted := by
      unfold pageSize at *
      omega
    have hroom : ∀ q, PageRange established ((wanted - established) / pageSize) q →
        Room fixed (HeapOf x.process) q := by
      intro q hq
      rw [pageRange_iff hestablished, hcount] at hq
      obtain ⟨hlimit, hfixed, hguard⟩ := hclear' q hq.1 (by omega) hq.2.2
      refine ⟨hq.1, hlimit, hfixed, ?_, hguard⟩
      rintro ⟨-, -, hin⟩
      omega
    rw [outcome_bind]
    rcases processMapBreakPages_cases h.standing h.harmless hroom with
      ⟨text, x1, heq, hlog⟩ | ⟨x1, heq, hlog, hlike, hall⟩ | ⟨j, x1, hj, heq, hlog, hlike, hpart⟩
    · rw [heq]
      exact Or.inl ⟨text, x1, rfl, hlog⟩
    · rw [heq]
      refine Or.inr ⟨_, _, rfl, ?_, ?_⟩
      · apply Ready.of_standing h.sound hlike (by omega) (by omega) hlog hclear
        apply hall.heap_congr
        intro q
        rw [pageRange_iff hestablished, hcount, hwant]
        unfold HeapOf
        rw [hest]
        omega
      · exact hlike.breaks.1
    · obtain ⟨x2, heq', hmappings, hlike', hundone⟩ :=
        processUnmapBreakPages_eq j established hpart fun q ↦ Or.inr
      have hback : (established + j * pageSize - established) / pageSize = j := by
        rw [Nat.add_sub_cancel_left, Nat.mul_div_cancel _ (by decide)]
      rw [heq]
      dsimp only
      rw [outcome_bind, hback, heq']
      refine Or.inr ⟨_, x2, rfl, ⟨?_, ?_, ?_, ?_⟩, (hlike.trans hlike').breaks.1⟩
      · apply hundone.heap_congr
        intro q
        unfold HeapOf
        rw [(hlike.trans hlike').breaks.1, (hlike.trans hlike').breaks.2, hest,
          pageRange_iff hestablished]
        omega
      · unfold Harmless
        rw [hmappings]
        exact hlog
      · obtain ⟨hsame, hsame'⟩ := (hlike.trans hlike').breaks
        exact ⟨hsame ▸ haligned, by omega, by omega, by omega⟩
      · unfold HeapOf at hguarded ⊢
        rw [(hlike.trans hlike').breaks.1, (hlike.trans hlike').breaks.2]
        rwa [hest] at hguarded ⊢
  · rename_i hshrinks
    have hcount : wanted + (established - wanted) / pageSize * pageSize = established := by
      unfold pageSize at *
      omega
    obtain ⟨x1, heq, hmappings, hlike, hall⟩ := processUnmapBreakPages_eq
      ((established - wanted) / pageSize) wanted h.standing (fun q hq ↦ by
        rw [pageRange_iff hwanted, hcount] at hq
        unfold HeapOf
        rw [hest]
        exact ⟨hq.1, by omega, hq.2.2⟩)
    rw [outcome_bind, heq]
    refine Or.inr ⟨_, _, rfl, ?_, hlike.breaks.1⟩
    apply Ready.of_standing h.sound hlike (by omega) (by omega)
    · unfold Harmless
      rw [hmappings]
      exact h.harmless
    · exact hclear
    · apply hall.heap_congr
      intro q
      rw [pageRange_iff hwanted, hcount, hwant]
      unfold HeapOf
      rw [hest]
      omega

end OxysOS.Proc
