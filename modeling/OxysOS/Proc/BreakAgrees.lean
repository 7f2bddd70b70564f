import Mathlib.Logic.Relation
import OxysOS.Proc.BreakPages

/-!
# The break and its pages

What a call that asks for a break leaves: it is granted, and the pages of the heap are those
up to the new break, or it is refused, and nothing of the heap has changed.
-/

namespace OxysOS.Proc

open OxysOS.Library OxysOS.Mm OxysOS.Exec Action

variable {x : Running} {c c' c1 c2 : Accounted} {process process' : Process}
  {requested address page q n count : ℕ}

def HeapRegion (process : Process) (page : ℕ) : Prop :=
  process.breakStart ≠ 0 ∧ page % pageSize = 0 ∧ process.breakStart ≤ page ∧
    page < process.breakStart + processBreakMaximum

def heapPages (process : Process) : ℕ :=
  (alignUp process.breakCurrent - process.breakStart) / pageSize

/-- The pages of the heap are held, and nothing else is mapped where a heap may lie. -/
structure HeapKept (x : Running) : Prop where
  sound : BreakSound x.process
  unmade : x.process.breakStart = 0 → x.process.breakCurrent = 0
  below : x.process.breakStart + processBreakMaximum ≤ 2 ^ 47
  holding : Holding (HeapOf x.process) x
  rest : ∀ q, HeapRegion x.process q → ¬HeapOf x.process q → x.leaf q = 0
  counted : heapPages x.process ≤ x.process.mappedPages

def InReach (process : Process) (requested : ℕ) : Prop :=
  process.breakStart ≠ 0 ∧ process.breakStart ≤ requested ∧
    requested - process.breakStart ≤ processBreakMaximum

def addedPages (process : Process) (requested : ℕ) : List ℕ :=
  pageList (alignUp process.breakCurrent)
    ((alignUp requested - alignUp process.breakCurrent) / pageSize)

def TablesSuffice (x : Running) (requested : ℕ) : Prop :=
  InReach x.process requested → ¬x.machine.Starves x.user (addedPages x.process requested)

structure Granted (requested : ℕ) (c c' : Accounted) : Prop where
  process : c'.running.process = { c.running.process with
    mappedPages := c'.running.process.mappedPages
    breakCurrent := requested }
  mapped : c'.running.process.mappedPages + heapPages c.running.process =
    c.running.process.mappedPages + heapPages c'.running.process
  breakPages : c'.breakPages = c.breakPages +
    (heapPages c'.running.process - heapPages c.running.process) -
    (heapPages c.running.process - heapPages c'.running.process)
  breakGrowths : c'.breakGrowths = c.breakGrowths +
    if heapPages c.running.process < heapPages c'.running.process then 1 else 0
  breakShrinks : c'.breakShrinks = c.breakShrinks +
    if heapPages c'.running.process < heapPages c.running.process then 1 else 0
  leaf : ∀ address, address < 2 ^ 47 →
    (HeapOf c.running.process (alignDown address) ↔ HeapOf c'.running.process (alignDown address)) →
    c'.running.leaf address = c.running.leaf address
  zero : ∀ address, HeapOf c'.running.process (alignDown address) →
    ¬HeapOf c.running.process (alignDown address) → c'.running.byteAt address = 0
  untouched : ∀ n, Bystander c.running.user c.running.machine n →
    (∀ q, HeapOf c.running.process q → ¬HeapOf c'.running.process q → c.running.frameAt q ≠ n) →
    Untouched c.running.user n c.running.machine c'.running.machine
  released : ∀ q, HeapOf c.running.process q → ¬HeapOf c'.running.process q →
    c'.running.machine.frames.holders (c.running.frameAt q) + 1 =
      c.running.machine.frames.holders (c.running.frameAt q)

structure Refused (c c' : Accounted) : Prop where
  process : c'.running.process = c.running.process
  counts : c'.breakPages = c.breakPages ∧ c'.breakGrowths = c.breakGrowths ∧
    c'.breakShrinks = c.breakShrinks
  leaf : ∀ address, address < 2 ^ 47 → c'.running.leaf address = c.running.leaf address
  untouched : ∀ n, Bystander c.running.user c.running.machine n →
    Untouched c.running.user n c.running.machine c'.running.machine
  free : ∃ pages, c'.running.machine.frames.freeFrames +
    (c.running.machine.missingTables c.running.user pages).card =
      c.running.machine.frames.freeFrames

def Refusal (x : Running) (requested : ℕ) (answer : ℤ) : Prop :=
  (x.process.breakStart = 0 ∨ requested < x.process.breakStart) ∧ answer = syscallEinval ∨
    (processBreakMaximum < requested - x.process.breakStart ∨
      x.machine.frames.freeFrames < x.machine.mappingCost x.user (addedPages x.process requested)) ∧
      answer = syscallEnomem

theorem BreakSound.established (h : BreakSound process) :
    alignUp process.breakCurrent % pageSize = 0 ∧
      process.breakStart ≤ alignUp process.breakCurrent ∧
      alignUp process.breakCurrent ≤ process.breakStart + processBreakMaximum ∧
      process.breakStart + heapPages process * pageSize = alignUp process.breakCurrent := by
  obtain ⟨haligned, hlow, hmost, hsmall⟩ := h
  unfold heapPages
  unfold alignUp pageSize processBreakMaximum at *
  omega

theorem InReach.sound (h : BreakSound process) (hreach : InReach process requested)
    (hstart : process'.breakStart = process.breakStart)
    (hcurrent : process'.breakCurrent = requested) : BreakSound process' := by
  obtain ⟨-, hlow, hmost⟩ := hreach
  constructor
  · rw [hstart]
    exact h.aligned
  · omega
  · omega
  · rw [hstart]
    exact h.small

theorem HeapOf.region (h : HeapKept x) (hq : HeapOf x.process q) : HeapRegion x.process q := by
  obtain ⟨haligned, hlow, hhigh⟩ := hq
  obtain ⟨-, -, hmost, -⟩ := h.sound.established
  refine ⟨fun hzero ↦ ?_, haligned, hlow, by omega⟩
  rw [h.unmade hzero] at hhigh
  exact Nat.not_lt_zero q hhigh

theorem HeapRegion.lt (h : HeapKept x) (hq : HeapRegion x.process q) : q < 2 ^ 47 :=
  hq.2.2.2.trans_le h.below

theorem HeapKept.present_iff (h : HeapKept x) (hq : HeapRegion x.process q) :
    x.leaf q &&& pageEntryPresent ≠ 0 ↔ HeapOf x.process q := by
  constructor
  · intro hpresent
    by_contra hnot
    rw [h.rest q hq hnot] at hpresent
    exact hpresent zero_and_present
  · exact h.holding.present q

structure Settles (requested : ℕ) (c c' : Accounted) : Prop where
  process : c'.running.process = { c.running.process with breakCurrent := requested }
  machine : c'.running.machine = c.running.machine
  breakPages : c'.breakPages = c.breakPages

theorem Settles.user (h : Settles requested c c') : c'.running.user = c.running.user := by
  unfold Running.user
  rw [h.process]

theorem Settles.leaf (h : Settles requested c c') (address : ℕ) :
    c'.running.leaf address = c.running.leaf address := by
  unfold Running.leaf
  rw [h.user, h.machine]

theorem Settles.frameAt (h : Settles requested c c') (address : ℕ) :
    c'.running.frameAt address = c.running.frameAt address := Running.frameAt_congr (h.leaf address)

theorem Settles.holding {heap : ℕ → Prop} (h : Settles requested c c')
    (hholding : Holding heap c.running) : Holding heap c'.running where
  made := by
    rw [h.process]
    exact hholding.made
  hierarchy := by
    rw [h.user, h.machine]
    exact hholding.hierarchy
  within := hholding.within
  present q hq := by
    rw [h.leaf]
    exact hholding.present q hq
  bystander q hq := by
    rw [h.user, h.machine, h.frameAt]
    exact hholding.bystander q hq
  frames q hq := by
    rw [h.machine, h.frameAt]
    exact hholding.frames q hq
  apart q q' hq hq' heq := by
    rw [h.frameAt, h.frameAt] at heq
    exact hholding.apart q q' hq hq' heq

theorem between_breaks (h : BreakSound process) (h' : BreakSound process')
    (hstart : process'.breakStart = process.breakStart)
    (hle : alignUp process.breakCurrent ≤ alignUp process'.breakCurrent) :
    alignUp process.breakCurrent +
        (alignUp process'.breakCurrent - alignUp process.breakCurrent) / pageSize * pageSize =
      alignUp process'.breakCurrent ∧
    heapPages process' = heapPages process +
      (alignUp process'.breakCurrent - alignUp process.breakCurrent) / pageSize ∧
    (∀ q, HeapOf process q → HeapOf process' q) ∧
    ∀ q, PageRange (alignUp process.breakCurrent)
        ((alignUp process'.breakCurrent - alignUp process.breakCurrent) / pageSize) q ↔
      HeapOf process' q ∧ ¬HeapOf process q := by
  obtain ⟨haligned, hlow, -, hpages⟩ := h.established
  obtain ⟨haligned', hlow', -, hpages'⟩ := h'.established
  have hcount : alignUp process.breakCurrent +
      (alignUp process'.breakCurrent - alignUp process.breakCurrent) / pageSize * pageSize =
        alignUp process'.breakCurrent := by
    unfold pageSize at *
    omega
  refine ⟨hcount, ?_, fun q hq ↦ ?_, fun q ↦ ?_⟩
  · unfold pageSize at *
    omega
  · obtain ⟨hq, hfrom, hto⟩ := hq
    exact ⟨hq, hstart ▸ hfrom, hto.trans_le hle⟩
  · rw [pageRange_iff haligned, hcount]
    unfold HeapOf
    rw [hstart]
    omega

section Losing

variable (h : HeapKept c.running) (hreach : InReach c.running.process requested)
  (hle : alignUp requested ≤ alignUp c.running.process.breakCurrent)
  (hwithdrawn : Withdrawn (PageRange (alignUp requested)
    ((alignUp c.running.process.breakCurrent - alignUp requested) / pageSize))
    ((alignUp c.running.process.breakCurrent - alignUp requested) / pageSize) c c1)
  (hsettles : Settles requested c1 c')

include h hreach hle hwithdrawn hsettles

theorem losing_breaks : BreakSound c'.running.process ∧
    c'.running.process.breakStart = c.running.process.breakStart ∧
    c'.running.process.breakCurrent = requested ∧
    heapPages c.running.process = heapPages c'.running.process +
      (alignUp c.running.process.breakCurrent - alignUp requested) / pageSize ∧
    (∀ q, HeapOf c'.running.process q → HeapOf c.running.process q) ∧
    ∀ q, PageRange (alignUp requested)
        ((alignUp c.running.process.breakCurrent - alignUp requested) / pageSize) q ↔
      HeapOf c.running.process q ∧ ¬HeapOf c'.running.process q := by
  have hstart : c'.running.process.breakStart = c.running.process.breakStart := by
    rw [hsettles.process, hwithdrawn.process]
  have hcurrent : c'.running.process.breakCurrent = requested := by rw [hsettles.process]
  have hsound := hreach.sound h.sound hstart hcurrent
  rw [← hcurrent] at hle ⊢
  obtain ⟨-, hpages, hsub, hrange⟩ := between_breaks hsound h.sound hstart.symm hle
  exact ⟨hsound, hstart, rfl, hpages, hsub, hrange⟩

theorem Withdrawn.kept : HeapKept c'.running := by
  obtain ⟨hsound, hstart, hcurrent, hpages, hsub, hrange⟩ :=
    losing_breaks h hreach hle hwithdrawn hsettles
  refine ⟨hsound, fun hzero ↦ ?_, ?_, ?_, fun q hq hnot ↦ ?_, ?_⟩
  · exact absurd (hstart.symm.trans hzero) hreach.1
  · rw [hstart]
    exact h.below
  · refine (hsettles.holding (hwithdrawn.holding h.holding fun q hq ↦ ((hrange q).mp hq).1)).congr
      fun q ↦ ?_
    rw [hrange]
    constructor
    · exact fun hq ↦ ⟨hsub q hq, fun hlost ↦ hlost.2 hq⟩
    · exact fun hq ↦ by_contra fun hnot ↦ hq.2 ⟨hq.1, hnot⟩
  · have hregion : HeapRegion c.running.process q := by
      unfold HeapRegion at hq ⊢
      rwa [hstart] at hq
    have hhigh := hregion.lt h
    have hdown := alignDown_of_aligned hq.2.1
    rw [hsettles.leaf]
    by_cases hheld : HeapOf c.running.process q
    · apply hwithdrawn.gone q hhigh
      rw [hdown, hrange]
      exact ⟨hheld, hnot⟩
    · rw [hwithdrawn.leaf q hhigh]
      · exact h.rest q hregion hheld
      · rw [hdown, hrange]
        exact fun hlost ↦ hheld hlost.1
  · have hcounted := h.counted
    rw [hsettles.process, hwithdrawn.process] at hpages ⊢
    dsimp only at hpages ⊢
    omega

theorem Withdrawn.granted (hgrowths : c'.breakGrowths = c1.breakGrowths)
    (hshrinks : c'.breakShrinks = c1.breakShrinks +
      if alignUp requested < alignUp c.running.process.breakCurrent then 1 else 0) :
    Granted requested c c' := by
  obtain ⟨hsound, hstart, hcurrent, hpages, hsub, hrange⟩ :=
    losing_breaks h hreach hle hwithdrawn hsettles
  obtain ⟨hcount, hgrowths', hshrinks'⟩ := hwithdrawn.counts
  have hmapped : c'.running.process.mappedPages = c.running.process.mappedPages -
      (alignUp c.running.process.breakCurrent - alignUp requested) / pageSize := by
    rw [hsettles.process, hwithdrawn.process]
  have hcounted := h.counted
  refine ⟨?_, by omega, ?_, ?_, ?_, fun address haddress hsame ↦ ?_, fun address hin hnot ↦ ?_,
    fun i hi hlost ↦ ?_, fun q hq hnot ↦ ?_⟩
  · rw [hmapped, hsettles.process, hwithdrawn.process]
  · rw [hsettles.breakPages, hcount]
    omega
  · have hfew : ¬heapPages c.running.process < heapPages c'.running.process := by
      rw [hpages]
      exact Nat.not_lt.mpr (Nat.le_add_right _ _)
    rw [hgrowths, hgrowths', if_neg hfew, Nat.add_zero]
  · rw [hshrinks, hshrinks']
    have hmore : alignUp requested < alignUp c.running.process.breakCurrent ↔
        heapPages c'.running.process < heapPages c.running.process := by
      obtain ⟨-, -, -, hold⟩ := h.sound.established
      obtain ⟨-, -, -, hnew⟩ := hsound.established
      rw [hstart, hcurrent] at hnew
      unfold pageSize at *
      omega
    simp only [hmore]
  · rw [hsettles.leaf]
    apply hwithdrawn.leaf address haddress
    rw [hrange]
    exact fun hlost ↦ hlost.2 (hsame.mp hlost.1)
  · exact absurd (hsub _ hin) hnot
  · rw [hsettles.machine]
    exact hwithdrawn.untouched i hi fun q hq ↦ hlost q ((hrange q).mp hq).1 ((hrange q).mp hq).2
  · rw [hsettles.machine, hwithdrawn.released q ((hrange q).mpr ⟨hq, hnot⟩)]
    apply Nat.sub_add_cancel
    apply Nat.pos_of_ne_zero
    rw [h.holding.hierarchy.sound.holders_ne_zero (h.holding.frames q hq).2]
    exact (h.holding.bystander q hq).used

end Losing

section Gaining

variable (h : HeapKept c.running) (hreach : InReach c.running.process requested)
  (hle : alignUp c.running.process.breakCurrent ≤ alignUp requested)
  (hfurnished : Furnished (alignUp c.running.process.breakCurrent)
    ((alignUp requested - alignUp c.running.process.breakCurrent) / pageSize) c c1)
  (hsettles : Settles requested c1 c')

include h hreach hle hfurnished hsettles

theorem gaining_breaks : BreakSound c'.running.process ∧
    c'.running.process.breakStart = c.running.process.breakStart ∧
    c'.running.process.breakCurrent = requested ∧
    heapPages c'.running.process = heapPages c.running.process +
      (alignUp requested - alignUp c.running.process.breakCurrent) / pageSize ∧
    (∀ q, HeapOf c.running.process q → HeapOf c'.running.process q) ∧
    ∀ q, PageRange (alignUp c.running.process.breakCurrent)
        ((alignUp requested - alignUp c.running.process.breakCurrent) / pageSize) q ↔
      HeapOf c'.running.process q ∧ ¬HeapOf c.running.process q := by
  have hstart : c'.running.process.breakStart = c.running.process.breakStart := by
    rw [hsettles.process, hfurnished.process]
  have hcurrent : c'.running.process.breakCurrent = requested := by rw [hsettles.process]
  have hsound := hreach.sound h.sound hstart hcurrent
  rw [← hcurrent] at hle ⊢
  obtain ⟨-, hpages, hsub, hrange⟩ := between_breaks h.sound hsound hstart hle
  exact ⟨hsound, hstart, rfl, hpages, hsub, hrange⟩

theorem Furnished.kept : HeapKept c'.running := by
  obtain ⟨hsound, hstart, hcurrent, hpages, hsub, hrange⟩ :=
    gaining_breaks h hreach hle hfurnished hsettles
  have hregion : ∀ q, HeapRegion c'.running.process q → HeapRegion c.running.process q := by
    intro q hq
    unfold HeapRegion at hq ⊢
    rwa [hstart] at hq
  have hwithin : ∀ q, PageRange (alignUp c.running.process.breakCurrent)
      ((alignUp requested - alignUp c.running.process.breakCurrent) / pageSize) q →
      q % pageSize = 0 ∧ q < 2 ^ 47 := by
    intro q hq
    obtain ⟨haligned, hlow, hhigh⟩ := ((hrange q).mp hq).1
    obtain ⟨-, -, hmost, -⟩ := hsound.established
    have hbelow := h.below
    exact ⟨haligned, by omega⟩
  refine ⟨hsound, fun hzero ↦ ?_, ?_, ?_, fun q hq hnot ↦ ?_, ?_⟩
  · exact absurd (hstart.symm.trans hzero) hreach.1
  · rw [hstart]
    exact h.below
  · refine (hsettles.holding (hfurnished.holding h.holding hwithin
      fun q hq ↦ ((hrange q).mp hq).2)).congr fun q ↦ ?_
    rw [hrange]
    constructor
    · exact fun hq ↦ (em (HeapOf c.running.process q)).imp id fun hnot ↦ ⟨hq, hnot⟩
    · exact fun hq ↦ hq.elim (hsub q) And.left
  · rw [hsettles.leaf, hfurnished.leaf q ((hregion q hq).lt h)]
    · exact h.rest q (hregion q hq) fun hheld ↦ hnot (hsub q hheld)
    · rw [alignDown_of_aligned hq.2.1, hrange]
      exact fun hnew ↦ hnot hnew.1
  · have hcounted := h.counted
    rw [hpages, hsettles.process, hfurnished.process]
    exact Nat.add_le_add_right hcounted _

theorem Furnished.granted (hshrinks : c'.breakShrinks = c1.breakShrinks)
    (hgrowths : c'.breakGrowths = c1.breakGrowths +
      if alignUp c.running.process.breakCurrent < alignUp requested then 1 else 0) :
    Granted requested c c' := by
  obtain ⟨hsound, hstart, hcurrent, hpages, hsub, hrange⟩ :=
    gaining_breaks h hreach hle hfurnished hsettles
  obtain ⟨hcount, hgrowths', hshrinks'⟩ := hfurnished.counts
  have hmapped : c'.running.process.mappedPages = c.running.process.mappedPages +
      (alignUp requested - alignUp c.running.process.breakCurrent) / pageSize := by
    rw [hsettles.process, hfurnished.process]
  have hfew : ¬heapPages c'.running.process < heapPages c.running.process := by
    rw [hpages]
    exact Nat.not_lt.mpr (Nat.le_add_right _ _)
  refine ⟨?_, by omega, ?_, ?_, ?_, fun address haddress hsame ↦ ?_, fun address hin hnot ↦ ?_,
    fun i hi hlost ↦ ?_, fun q hq hnot ↦ ?_⟩
  · rw [hmapped, hsettles.process, hfurnished.process]
  · rw [hsettles.breakPages, hcount]
    omega
  · rw [hgrowths, hgrowths']
    have hmore : alignUp c.running.process.breakCurrent < alignUp requested ↔
        heapPages c.running.process < heapPages c'.running.process := by
      obtain ⟨-, -, -, hold⟩ := h.sound.established
      obtain ⟨-, -, -, hnew⟩ := hsound.established
      rw [hstart, hcurrent] at hnew
      unfold pageSize at *
      omega
    simp only [hmore]
  · rw [hshrinks, hshrinks', if_neg hfew, Nat.add_zero]
  · rw [hsettles.leaf]
    apply hfurnished.leaf address haddress
    rw [hrange]
    exact fun hnew ↦ hnew.2 (hsame.mpr hnew.1)
  · have hnew := (hrange _).mpr ⟨hin, hnot⟩
    unfold Running.byteAt
    rw [hsettles.machine, hsettles.frameAt, ← Running.frameAt_alignDown, hfurnished.zero _ hnew]
  · rw [hsettles.machine]
    exact hfurnished.untouched i hi
  · exact absurd (hsub q hq) hnot

end Gaining

theorem card_pageList (page count : ℕ) : (pageList page count).toFinset.card = count := by
  rw [List.toFinset_card_of_nodup]
  · simp [pageList]
  · unfold pageList
    apply List.Nodup.map _ List.nodup_range
    intro i j heq
    unfold pageSize at heq
    dsimp only at heq
    omega

theorem Furnished.undone (h : HeapKept c.running) (hfurnished : Furnished page count c c1)
    (hwithdrawn : Withdrawn (PageRange page count) count c1 c2)
    (hrange : ∀ q, PageRange page count q → HeapRegion c.running.process q ∧
      ¬HeapOf c.running.process q) : HeapKept c2.running ∧ Refused c c2 := by
  have huser := hfurnished.user
  have hprocess : c2.running.process = c.running.process := by
    rw [hwithdrawn.process, hfurnished.process]
    simp
  have hleaf : ∀ address, address < 2 ^ 47 → c2.running.leaf address = c.running.leaf address := by
    intro address haddress
    by_cases hin : PageRange page count (alignDown address)
    · obtain ⟨hregion, hnot⟩ := hrange _ hin
      rw [hwithdrawn.gone address haddress hin]
      apply Eq.symm
      have hrest := h.rest _ hregion hnot
      unfold Running.leaf at hrest ⊢
      rwa [leaf_alignDown] at hrest
    · rw [hwithdrawn.leaf address haddress hin, hfurnished.leaf address haddress hin]
  have hheld := hfurnished.holding h.holding
    (fun q hq ↦ ⟨(hrange q hq).1.2.1, (hrange q hq).1.lt h⟩) fun q hq ↦ (hrange q hq).2
  constructor
  · constructor
    · rw [hprocess]
      exact h.sound
    · rw [hprocess]
      exact h.unmade
    · rw [hprocess]
      exact h.below
    · rw [hprocess]
      refine (hwithdrawn.holding hheld fun q hq ↦ Or.inr hq).congr fun q ↦ ?_
      constructor
      · exact fun hq ↦ ⟨Or.inl hq, fun hin ↦ (hrange q hin).2 hq⟩
      · exact fun hq ↦ hq.1.resolve_right hq.2
    · rw [hprocess]
      intro q hq hnot
      rw [hleaf q (hq.lt h)]
      exact h.rest q hq hnot
    · rw [hprocess]
      exact h.counted
  · obtain ⟨hpages, hgrowths, hshrinks⟩ := hfurnished.counts
    obtain ⟨hpages', hgrowths', hshrinks'⟩ := hwithdrawn.counts
    refine ⟨hprocess, ⟨?_, hgrowths'.trans hgrowths, hshrinks'.trans hshrinks⟩, hleaf,
      fun i hi ↦ ?_, pageList page count, ?_⟩
    · rw [hpages', hpages, Nat.add_sub_cancel]
    · have huntouched := hfurnished.untouched i hi
      refine huntouched.trans ?_
      rw [← huser]
      apply hwithdrawn.untouched i (huser ▸ huntouched.bystander)
      rintro q hq rfl
      have hclear := hfurnished.clear q hq
      rw [hi.used] at hclear
      cases hclear
    · have hcost := hfurnished.charged.free
      unfold Machine.mappingCost at hcost
      rw [card_pageList] at hcost
      rw [hwithdrawn.freed fun q hq ↦ (hfurnished.own q hq).once]
      omega

theorem Refused.refl (c : Accounted) : Refused c c where
  process := rfl
  counts := ⟨rfl, rfl, rfl⟩
  leaf _ _ := rfl
  untouched _ := Untouched.refl
  free := ⟨[], rfl⟩

theorem accountedSetBreak_cases (h : HeapKept c.running)
    (henough : TablesSuffice c.running requested) :
    ∃ answer c', outcome (accountedSetBreak requested) c = (.ok answer, c') ∧
      HeapKept c'.running ∧ (answer = requested ∧ Granted requested c c' ∨
        Refusal c.running requested answer ∧ Refused c c') := by
  unfold accountedSetBreak
  rw [outcome_bind, outcome_get]
  dsimp only
  by_cases hstart : c.running.process.breakStart = 0
  · rw [if_pos hstart]
    exact ⟨_, c, rfl, h, Or.inr ⟨Or.inl ⟨Or.inl hstart, rfl⟩, Refused.refl c⟩⟩
  rw [if_neg hstart]
  by_cases hlow : requested < c.running.process.breakStart
  · rw [if_pos hlow]
    exact ⟨_, c, rfl, h, Or.inr ⟨Or.inl ⟨Or.inr hlow, rfl⟩, Refused.refl c⟩⟩
  rw [if_neg hlow]
  by_cases hmost : processBreakMaximum < requested - c.running.process.breakStart
  · rw [if_pos hmost]
    exact ⟨_, c, rfl, h, Or.inr ⟨Or.inr ⟨Or.inl hmost, rfl⟩, Refused.refl c⟩⟩
  rw [if_neg hmost]
  have hreach : InReach c.running.process requested := ⟨hstart, by omega, by omega⟩
  obtain ⟨haligned, hfrom, hto, -⟩ := h.sound.established
  have hwanted : BreakSound { c.running.process with breakCurrent := requested } :=
    hreach.sound h.sound rfl rfl
  obtain ⟨haligned', hfrom', hto', -⟩ := hwanted.established
  dsimp only at haligned' hfrom' hto'
  have hbelow := h.below
  by_cases hgrows : alignUp c.running.process.breakCurrent < alignUp requested
  · obtain ⟨hcount, -, -, hrange⟩ := between_breaks h.sound hwanted rfl hgrows.le
    dsimp only at hcount hrange
    have hnot := henough hreach
    rw [if_pos hgrows, outcome_bind]
    unfold Refusal
    unfold addedPages at hnot ⊢
    generalize hquot : (alignUp requested - alignUp c.running.process.breakCurrent) / pageSize = k at *
    have hhigh : alignUp c.running.process.breakCurrent + (0 + k) * pageSize ≤ 2 ^ 47 := by
      rw [Nat.zero_add]
      omega
    have hmade := accountedMapBreakPages_cases haligned hhigh (Furnished.refl _ h.holding.hierarchy)
    rw [Nat.zero_mul, Nat.add_zero, Nat.zero_add] at hmade
    rcases hmade with ⟨text, c1, -, hstarves⟩ | ⟨c1, heq, hfurnished⟩ | ⟨j, c1, hj, heq, hfurnished, hfew⟩
    · exact absurd hstarves hnot
    · rw [heq]
      refine ⟨requested, { c1 with
          running := { c1.running with process := { c1.running.process with breakCurrent := requested } }
          breakGrowths := c1.breakGrowths + 1 }, rfl, ?_, Or.inl ⟨rfl, ?_⟩⟩
      · subst hquot
        exact Furnished.kept h hreach hgrows.le hfurnished ⟨rfl, rfl, rfl⟩
      · subst hquot
        exact Furnished.granted h hreach hgrows.le hfurnished ⟨rfl, rfl, rfl⟩ rfl (by rw [if_pos hgrows])
    · have hundo : ∀ q, PageRange (alignUp c.running.process.breakCurrent) j q →
          HeapRegion c.running.process q ∧ ¬HeapOf c.running.process q := by
        rintro q ⟨i, hi, rfl⟩
        obtain ⟨hin, hout⟩ := (hrange _).mp ⟨i, hi.trans hj, rfl⟩
        exact ⟨⟨hstart, hin.1, hin.2.1, hin.2.2.trans_le hto'⟩, hout⟩
      have hheld := hfurnished.holding h.holding
        (fun q hq ↦ ⟨(hundo q hq).1.2.1, (hundo q hq).1.lt h⟩) fun q hq ↦ (hundo q hq).2
      obtain ⟨c2, heq', hwithdrawn⟩ := accountedUnmapBreakPages_eq hheld fun q hq ↦ Or.inr hq
      obtain ⟨hkept, hrefused⟩ := hfurnished.undone h hwithdrawn hundo
      have hback : (alignUp c.running.process.breakCurrent + j * pageSize -
          alignUp c.running.process.breakCurrent) / pageSize = j := by
        rw [Nat.add_sub_cancel_left, Nat.mul_div_cancel _ (by decide)]
      rw [heq]
      dsimp only
      rw [outcome_bind, hback, heq']
      exact ⟨_, c2, rfl, hkept, Or.inr ⟨Or.inr ⟨Or.inr hfew, rfl⟩, hrefused⟩⟩
  · rw [if_neg hgrows]
    have hle : alignUp requested ≤ alignUp c.running.process.breakCurrent := Nat.le_of_not_lt hgrows
    by_cases hshrinks : alignUp requested < alignUp c.running.process.breakCurrent
    · obtain ⟨-, -, -, hrange⟩ := between_breaks hwanted h.sound rfl hle
      obtain ⟨c1, heq, hwithdrawn⟩ := accountedUnmapBreakPages_eq h.holding
        fun q hq ↦ ((hrange q).mp hq).1
      rw [if_pos hshrinks, outcome_bind]
      dsimp only at heq
      rw [heq]
      refine ⟨requested, { c1 with
          running := { c1.running with process := { c1.running.process with breakCurrent := requested } }
          breakShrinks := c1.breakShrinks + 1 }, rfl, ?_, Or.inl ⟨rfl, ?_⟩⟩
      · exact Withdrawn.kept h hreach hle hwithdrawn ⟨rfl, rfl, rfl⟩
      · exact Withdrawn.granted h hreach hle hwithdrawn ⟨rfl, rfl, rfl⟩ rfl (by rw [if_pos hshrinks])
    · -- the break moves within a page
      have hsame : alignUp requested = alignUp c.running.process.breakCurrent := by omega
      have hwithdrawn : Withdrawn (PageRange (alignUp requested)
          ((alignUp c.running.process.breakCurrent - alignUp requested) / pageSize))
          ((alignUp c.running.process.breakCurrent - alignUp requested) / pageSize) c c := by
        rw [hsame, Nat.sub_self, Nat.zero_div]
        exact (Withdrawn.refl h.holding.hierarchy).congr fun q ↦
          ⟨fun hq ↦ not_pageRange_zero _ q hq, False.elim⟩
      rw [if_neg hshrinks]
      refine ⟨requested, { c with
          running := { c.running with process := { c.running.process with breakCurrent := requested } } },
        rfl, ?_, Or.inl ⟨rfl, ?_⟩⟩
      · exact Withdrawn.kept h hreach hle hwithdrawn ⟨rfl, rfl, rfl⟩
      · exact Withdrawn.granted h hreach hle hwithdrawn ⟨rfl, rfl, rfl⟩ rfl
          (by rw [if_neg hshrinks, Nat.add_zero])

end OxysOS.Proc
