import OxysOS.Proc.BreakCounts
import OxysOS.Proc.ProcessBreak

/-!
# The pages of the break

A page of the heap is held by a frame that may be shared, and no frame holds two of them.
-/

namespace OxysOS.Proc

open OxysOS.Library OxysOS.Mm OxysOS.Exec Action

variable {x x' : Running} {c c' c'' : Accounted} {page address f n m count done : ℕ}
  {heap P Q : ℕ → Prop}

def Running.frameAt (x : Running) (address : ℕ) : ℕ := frameIndexOf (entryAddress (x.leaf address))

def Running.byteAt (x : Running) (address : ℕ) : UInt8 :=
  x.machine.memory (x.frameAt address) (address % pageSize)

structure Holding (heap : ℕ → Prop) (x : Running) : Prop where
  made : x.process.space.root ≠ frameAllocationFailed
  hierarchy : Hierarchy x.user x.machine
  within : ∀ q, heap q → q % pageSize = 0 ∧ q < 2 ^ 47
  present : ∀ q, heap q → x.leaf q &&& pageEntryPresent ≠ 0
  bystander : ∀ q, heap q → Bystander x.user x.machine (x.frameAt q)
  frames : ∀ q, heap q → frameIndexOf lowMemoryLimit ≤ x.frameAt q ∧
    x.frameAt q < x.machine.frames.frameCount
  apart : ∀ q q', heap q → heap q' → x.frameAt q = x.frameAt q' → q = q'

theorem Holding.congr {heap' : ℕ → Prop} (h : Holding heap x) (hiff : ∀ q, heap' q ↔ heap q) :
    Holding heap' x := by
  rwa [show heap' = heap from funext fun q ↦ propext (hiff q)]

theorem Running.frameAt_alignDown (x : Running) (address : ℕ) :
    x.frameAt (alignDown address) = x.frameAt address := by
  unfold Running.frameAt Running.leaf
  rw [leaf_alignDown]

theorem Running.frameAt_congr (h : x'.leaf address = x.leaf address) :
    x'.frameAt address = x.frameAt address := by
  unfold Running.frameAt
  rw [h]

structure Withdrawn (P : ℕ → Prop) (count : ℕ) (c c' : Accounted) : Prop where
  process : c'.running.process =
    { c.running.process with mappedPages := c.running.process.mappedPages - count }
  counts : c'.breakPages = c.breakPages - count ∧ c'.breakGrowths = c.breakGrowths ∧
    c'.breakShrinks = c.breakShrinks
  hierarchy : Hierarchy c.running.user c'.running.machine
  gone : ∀ address, address < 2 ^ 47 → P (alignDown address) → c'.running.leaf address = 0
  leaf : ∀ address, address < 2 ^ 47 → ¬P (alignDown address) →
    c'.running.leaf address = c.running.leaf address
  untouched : ∀ n, Bystander c.running.user c.running.machine n →
    (∀ q, P q → c.running.frameAt q ≠ n) →
    Untouched c.running.user n c.running.machine c'.running.machine
  released : ∀ q, P q → c'.running.machine.frames.holders (c.running.frameAt q) =
    c.running.machine.frames.holders (c.running.frameAt q) - 1
  holders : ∀ n, (∀ q, P q → c.running.frameAt q ≠ n) →
    c'.running.machine.frames.holders n = c.running.machine.frames.holders n
  freed : (∀ q, P q → c.running.machine.frames.holders (c.running.frameAt q) = 1) →
    c'.running.machine.frames.freeFrames = c.running.machine.frames.freeFrames + count
  frameCount : c'.running.machine.frames.frameCount = c.running.machine.frames.frameCount

theorem Withdrawn.user (h : Withdrawn P count c c') : c'.running.user = c.running.user := by
  unfold Running.user
  rw [h.process]

theorem Withdrawn.refl (h : Hierarchy c.running.user c.running.machine) :
    Withdrawn (fun _ ↦ False) 0 c c where
  process := rfl
  counts := ⟨rfl, rfl, rfl⟩
  hierarchy := h
  gone _ _ h := h.elim
  leaf _ _ _ := rfl
  untouched _ hn _ := Untouched.refl hn
  released _ h := h.elim
  holders _ _ := rfl
  freed _ := rfl
  frameCount := rfl

theorem Withdrawn.congr {P' : ℕ → Prop} (h : Withdrawn P count c c') (hiff : ∀ q, P' q ↔ P q) :
    Withdrawn P' count c c' := by
  rwa [show P' = P from funext fun q ↦ propext (hiff q)]

theorem Withdrawn.frameAt (h : Withdrawn P count c c') {q : ℕ} (hq : q % pageSize = 0)
    (hhigh : q < 2 ^ 47) (hnot : ¬P q) : c'.running.frameAt q = c.running.frameAt q := by
  apply Running.frameAt_congr
  apply h.leaf q hhigh
  rwa [alignDown_of_aligned hq]

theorem Withdrawn.holding (h : Withdrawn P count c c') (hholding : Holding heap c.running)
    (hP : ∀ q, P q → heap q) : Holding (fun q ↦ heap q ∧ ¬P q) c'.running where
  made := by
    rw [h.process]
    exact hholding.made
  hierarchy := by
    rw [h.user]
    exact h.hierarchy
  within q hq := hholding.within q hq.1
  present q hq := by
    obtain ⟨haligned, hhigh⟩ := hholding.within q hq.1
    rw [h.leaf q hhigh (by rw [alignDown_of_aligned haligned]; exact hq.2)]
    exact hholding.present q hq.1
  bystander q hq := by
    obtain ⟨haligned, hhigh⟩ := hholding.within q hq.1
    rw [h.user, h.frameAt haligned hhigh hq.2]
    refine (h.untouched _ (hholding.bystander q hq.1) fun q' hq' heq ↦ ?_).bystander
    exact hq.2 (hholding.apart q' q (hP q' hq') hq.1 heq ▸ hq')
  frames q hq := by
    obtain ⟨haligned, hhigh⟩ := hholding.within q hq.1
    rw [h.frameAt haligned hhigh hq.2, h.frameCount]
    exact hholding.frames q hq.1
  apart q q' hq hq' heq := by
    obtain ⟨haligned, hhigh⟩ := hholding.within q hq.1
    obtain ⟨haligned', hhigh'⟩ := hholding.within q' hq'.1
    rw [h.frameAt haligned hhigh hq.2, h.frameAt haligned' hhigh' hq'.2] at heq
    exact hholding.apart q q' hq.1 hq'.1 heq

theorem Withdrawn.trans (hholding : Holding heap c.running) (hP : ∀ q, P q → heap q)
    (hQ : ∀ q, Q q → heap q) (hdisjoint : ∀ q, P q → ¬Q q) (h : Withdrawn P m c c')
    (h' : Withdrawn Q n c' c'') : Withdrawn (fun q ↦ P q ∨ Q q) (m + n) c c'' := by
  have huser := h.user
  have hsame : ∀ q, Q q → c'.running.frameAt q = c.running.frameAt q := by
    intro q hq
    obtain ⟨haligned, hhigh⟩ := hholding.within q (hQ q hq)
    exact h.frameAt haligned hhigh fun hp ↦ hdisjoint q hp hq
  have hother : ∀ q q', P q → Q q' → c.running.frameAt q ≠ c.running.frameAt q' := by
    intro q q' hq hq' heq
    exact hdisjoint q hq (hholding.apart q q' (hP q hq) (hQ q' hq') heq ▸ hq')
  have hkept : ∀ q, Q q → Untouched c.running.user (c.running.frameAt q) c.running.machine
      c'.running.machine := fun q hq ↦
    h.untouched _ (hholding.bystander q (hQ q hq)) fun q' hq' ↦ hother q' q hq' hq
  refine ⟨?_, ?_, ?_, fun address haddress hpage ↦ ?_, fun address haddress hpage ↦ ?_,
    fun i hi hpages ↦ ?_, fun q hq ↦ ?_, fun i hpages ↦ ?_, fun hones ↦ ?_, h'.frameCount.trans h.frameCount⟩
  · rw [h'.process, h.process, Nat.sub_sub]
  · obtain ⟨hpages, hgrowths, hshrinks⟩ := h.counts
    obtain ⟨hpages', hgrowths', hshrinks'⟩ := h'.counts
    exact ⟨by rw [hpages', hpages, Nat.sub_sub], hgrowths'.trans hgrowths, hshrinks'.trans hshrinks⟩
  · rw [← huser]
    exact h'.hierarchy
  · by_cases hlater : Q (alignDown address)
    · exact h'.gone address haddress hlater
    · rw [h'.leaf address haddress hlater]
      exact h.gone address haddress (hpage.resolve_right hlater)
  · rw [not_or] at hpage
    rw [h'.leaf address haddress hpage.2, h.leaf address haddress hpage.1]
  · have huntouched := h.untouched i hi fun q hq ↦ hpages q (Or.inl hq)
    refine huntouched.trans ?_
    rw [← huser]
    apply h'.untouched i (huser ▸ huntouched.bystander)
    intro q hq
    rw [hsame q hq]
    exact hpages q (Or.inr hq)
  · rcases hq with hq | hq
    · rw [← h.released q hq]
      apply h'.holders
      intro q' hq' heq
      exact hother q q' hq hq' (by rw [← heq, hsame q' hq'])
    · rw [← (hkept q hq).holders, ← hsame q hq]
      exact h'.released q hq
  · have hlater : ∀ q, Q q → c'.running.frameAt q ≠ i := by
      intro q hq
      rw [hsame q hq]
      exact hpages q (Or.inr hq)
    rw [h'.holders i hlater, h.holders i fun q hq ↦ hpages q (Or.inl hq)]
  · rw [h'.freed, h.freed fun q hq ↦ hones q (Or.inl hq), Nat.add_assoc]
    intro q hq
    rw [hsame q hq, (hkept q hq).holders]
    exact hones q (Or.inr hq)

theorem outcome_accountedUnmapBreakPage {s' : Machine}
    (hunmap : outcome (addressSpaceUnmapPage c.running.process.space page) c.running.machine =
      (.ok f, s')) (hf : f ≠ frameAllocationFailed)
    (h : outcome (processUnmapBreakPage page) c.running = (.ok (), x')) :
    outcome (accountedUnmapBreakPage page) c =
      (.ok (), { c with running := x', breakPages := c.breakPages - 1 }) := by
  unfold processUnmapBreakPage at h
  rw [outcome_bind, outcome_get] at h
  dsimp only at h
  rw [outcome_bind, outcome_onMachine, hunmap] at h
  dsimp only at h
  rw [if_neg hf, outcome_bind] at h
  unfold accountedUnmapBreakPage
  rw [outcome_bind, outcome_get]
  dsimp only
  rw [outcome_bind, outcome_onRunning, outcome_onMachine, hunmap]
  dsimp only
  rw [if_neg hf, outcome_bind, outcome_onRunning]
  generalize outcome (onMachine (frameFree f)) _ = freed at h ⊢
  obtain ⟨answer, x1⟩ := freed
  cases answer with
  | error text => cases h
  | ok _ =>
      dsimp only at h ⊢
      rw [outcome_bind, outcome_onRunning, h]
      rfl

theorem accountedUnmapBreakPage_eq (h : Holding heap c.running) (hpage : heap page) :
    ∃ c', outcome (accountedUnmapBreakPage page) c = (.ok (), c') ∧ Withdrawn (· = page) 1 c c' := by
  obtain ⟨haligned, hhigh⟩ := h.within page hpage
  obtain ⟨hlow, hcount⟩ := h.frames page hpage
  have hentry : entryAddress (c.running.leaf page) = c.running.frameAt page * pageSize :=
    (entryAddress_aligned _).symm
  obtain ⟨⟨s', hunmap, hpositive⟩, x', heq, hwithdraws⟩ := processUnmapBreakPage_withdraws h.made
    h.hierarchy hhigh (h.present page hpage) hentry (h.bystander page hpage) hcount hlow
  refine ⟨_, outcome_accountedUnmapBreakPage hunmap hpositive heq, ?_⟩
  have hleaf : ∀ address, address < 2 ^ 47 →
      x'.leaf address = if alignDown address = page then 0 else c.running.leaf address := by
    intro address haddress
    unfold Running.leaf Running.user
    rw [hwithdraws.process]
    apply (hwithdraws.leaf address haddress).trans
    simp only [samePage_user haddress hhigh haligned]
    rfl
  have hreleased := hwithdraws.released
  refine ⟨hwithdraws.process, ⟨rfl, rfl, rfl⟩, hwithdraws.hierarchy, fun address haddress hhere ↦ ?_,
    fun address haddress hnot ↦ ?_, fun i hi hpages ↦ ?_, ?_, fun i hpages ↦ ?_, fun hones ↦ ?_,
    hreleased.frameCount⟩
  · exact (hleaf address haddress).trans (if_pos hhere)
  · exact (hleaf address haddress).trans (if_neg hnot)
  · have hne : i ≠ c.running.frameAt page := Ne.symm (hpages page rfl)
    refine ⟨⟨?_, fun q hq ↦ ?_⟩, hwithdraws.memory i hi, ?_⟩
    · rw [hreleased.isUsed, if_neg fun h ↦ hne h.1, hi.used]
    · rw [hwithdraws.tables q hq]
      exact hi.outside q hq
    · rw [hreleased.holders, if_neg hne]
  · rintro q rfl
    exact (hreleased.holders _).trans (if_pos rfl)
  · exact (hreleased.holders i).trans (if_neg (Ne.symm (hpages page rfl)))
  · exact hreleased.freeFrames.trans (if_pos (hones page rfl))

theorem accountedUnmapBreakPages_eq (h : Holding heap c.running)
    (hpages : ∀ q, PageRange page count q → heap q) :
    ∃ c', outcome (accountedUnmapBreakPages count page) c = (.ok (), c') ∧
      Withdrawn (PageRange page count) count c c' := by
  induction count generalizing page heap c with
  | zero =>
      refine ⟨c, rfl, (Withdrawn.refl h.hierarchy).congr fun q ↦ ?_⟩
      exact ⟨fun ⟨i, hi, _⟩ ↦ absurd hi (Nat.not_lt_zero i), False.elim⟩
  | succ count ih =>
      have hpage : heap page := hpages page (pageRange_succ.mpr (Or.inl rfl))
      obtain ⟨c1, heq, hfirst⟩ := accountedUnmapBreakPage_eq h hpage
      have hsub : ∀ q, q = page → heap q := by
        rintro q rfl
        exact hpage
      obtain ⟨c2, heq', hrest⟩ := ih (hfirst.holding h hsub) fun q hq ↦
        ⟨hpages q (pageRange_succ.mpr (Or.inr hq)), by
          rintro rfl
          exact not_pageRange_self hq⟩
      rw [accountedUnmapBreakPages, outcome_bind, heq]
      refine ⟨c2, heq', ?_⟩
      have hboth := Withdrawn.trans h hsub (fun q hq ↦ hpages q (pageRange_succ.mpr (Or.inr hq)))
        (fun q heq hq ↦ not_pageRange_self (heq ▸ hq)) hfirst hrest
      rw [Nat.add_comm 1 count] at hboth
      exact hboth.congr fun q ↦ pageRange_succ

def pageList (page count : ℕ) : List ℕ := (List.range count).map fun i ↦ page + i * pageSize

theorem mem_pageList {q : ℕ} : q ∈ pageList page count ↔ PageRange page count q := by
  simp [pageList, PageRange, eq_comm]

theorem pageList_succ : pageList page (count + 1) = pageList page count ++ [page + count * pageSize] := by
  simp [pageList, List.range_succ]

theorem pageRange_last {q : ℕ} : PageRange page (count + 1) q ↔
    PageRange page count q ∨ q = page + count * pageSize := by
  rw [← mem_pageList, ← mem_pageList, pageList_succ, List.mem_append, List.mem_singleton]

theorem not_pageRange_last : ¬PageRange page count (page + count * pageSize) := by
  rintro ⟨i, hi, heq⟩
  unfold pageSize at heq
  omega

structure Furnished (page count : ℕ) (c c' : Accounted) : Prop where
  process : c'.running.process =
    { c.running.process with mappedPages := c.running.process.mappedPages + count }
  counts : c'.breakPages = c.breakPages + count ∧ c'.breakGrowths = c.breakGrowths ∧
    c'.breakShrinks = c.breakShrinks
  hierarchy : Hierarchy c.running.user c'.running.machine
  leaf : ∀ address, address < 2 ^ 47 → ¬PageRange page count (alignDown address) →
    c'.running.leaf address = c.running.leaf address
  untouched : ∀ n, Bystander c.running.user c.running.machine n →
    Untouched c.running.user n c.running.machine c'.running.machine
  used : ∀ n, c.running.machine.frames.isUsed n = true → c'.running.machine.frames.isUsed n = true
  present : ∀ q, PageRange page count q → c'.running.leaf q &&& pageEntryPresent ≠ 0
  zero : ∀ q, PageRange page count q → c'.running.machine.memory (c'.running.frameAt q) = fun _ ↦ 0
  clear : ∀ q, PageRange page count q →
    c.running.machine.frames.isUsed (c'.running.frameAt q) = false
  own : ∀ q, PageRange page count q →
    Private c.running.user c'.running.machine (c'.running.frameAt q)
  low : ∀ q, PageRange page count q → frameIndexOf lowMemoryLimit ≤ c'.running.frameAt q
  apart : ∀ q q', PageRange page count q → PageRange page count q' →
    c'.running.frameAt q = c'.running.frameAt q' → q = q'
  charged : Charged c.running.user (pageList page count) c.running.machine c'.running.machine
  frameCount : c'.running.machine.frames.frameCount = c.running.machine.frames.frameCount

theorem Furnished.user (h : Furnished page count c c') : c'.running.user = c.running.user := by
  unfold Running.user
  rw [h.process]

theorem not_pageRange_zero (page q : ℕ) : ¬PageRange page 0 q :=
  fun ⟨i, hi, _⟩ ↦ absurd hi (Nat.not_lt_zero i)

theorem Furnished.refl (page : ℕ) (h : Hierarchy c.running.user c.running.machine) :
    Furnished page 0 c c where
  process := rfl
  counts := ⟨rfl, rfl, rfl⟩
  hierarchy := h
  leaf _ _ _ := rfl
  untouched _ hn := Untouched.refl hn
  used _ := id
  present q hq := absurd hq (not_pageRange_zero page q)
  zero q hq := absurd hq (not_pageRange_zero page q)
  clear q hq := absurd hq (not_pageRange_zero page q)
  own q hq := absurd hq (not_pageRange_zero page q)
  low q hq := absurd hq (not_pageRange_zero page q)
  apart q _ hq := absurd hq (not_pageRange_zero page q)
  charged := Charged.refl
  frameCount := rfl

theorem Fills.leaf_self (h : Fills page f x x') (hhigh : page < 2 ^ 47) :
    x'.leaf page = pageEntry f true := by
  unfold Running.leaf
  rw [h.user, h.leaf page hhigh, if_pos]
  rfl

theorem Fills.frameAt (h : Fills page f x x') (hhigh : page < 2 ^ 47) : x'.frameAt page = f := by
  unfold Running.frameAt
  rw [h.leaf_self hhigh, entryAddress_pageEntry h.bound.2, frameIndexOf_mul]

theorem Furnished.concat (h : Furnished page count c c') (haligned : page % pageSize = 0)
    (hhigh : page + count * pageSize < 2 ^ 47)
    (hfills : Fills (page + count * pageSize) f c'.running x') :
    Furnished page (count + 1) c { c' with running := x', breakPages := c'.breakPages + 1 } := by
  have huser := h.user
  have hlast : (page + count * pageSize) % pageSize = 0 := by
    rw [Nat.add_mul_mod_self_right, haligned]
  have hlow : ∀ q, PageRange page count q → q % pageSize = 0 ∧ q < 2 ^ 47 := by
    rintro q ⟨i, hi, rfl⟩
    constructor
    · rw [Nat.add_mul_mod_self_right, haligned]
    · have hle := Nat.mul_le_mul_right pageSize hi.le
      omega
  have hleaf : ∀ address, address < 2 ^ 47 → alignDown address ≠ page + count * pageSize →
      x'.leaf address = c'.running.leaf address := by
    intro address haddress hne
    unfold Running.leaf
    rw [hfills.user, hfills.leaf address haddress, if_neg]
    · rfl
    · rwa [samePage_user haddress hhigh hlast]
  have hleafBefore : ∀ q, PageRange page count q → x'.leaf q = c'.running.leaf q := by
    intro q hq
    obtain ⟨haligned', hhigh'⟩ := hlow q hq
    apply hleaf q hhigh'
    rw [alignDown_of_aligned haligned']
    rintro rfl
    exact not_pageRange_last hq
  have hframe := hfills.frameAt hhigh
  have hbefore : ∀ q, PageRange page count q → x'.frameAt q = c'.running.frameAt q :=
    fun q hq ↦ Running.frameAt_congr (hleafBefore q hq)
  have hkept : ∀ q, PageRange page count q → Private c.running.user x'.machine (x'.frameAt q) := by
    intro q hq
    rw [hbefore q hq, ← huser]
    exact hfills.others _ (huser ▸ h.own q hq)
  have hnew : ∀ q, PageRange page count q → x'.frameAt q ≠ f := by
    intro q hq heq
    have hused := (h.own q hq).used
    rw [← hbefore q hq, heq, hfills.clear] at hused
    cases hused
  refine ⟨?_, ?_, ?_, fun address haddress hnot ↦ ?_, fun n hn ↦ ?_,
    fun n hn ↦ hfills.used n (h.used n hn), fun q hq ↦ ?_, fun q hq ↦ ?_, fun q hq ↦ ?_,
    fun q hq ↦ ?_, fun q hq ↦ ?_, fun q q' hq hq' heq ↦ ?_, ?_,
    hfills.frameCount.trans h.frameCount⟩
  · exact hfills.process.trans (by rw [h.process, Nat.add_assoc])
  · obtain ⟨hpages, hgrowths, hshrinks⟩ := h.counts
    exact ⟨by rw [hpages, Nat.add_assoc], hgrowths, hshrinks⟩
  · rw [← huser]
    exact hfills.hierarchy
  · rw [pageRange_last, not_or] at hnot
    exact (hleaf address haddress hnot.2).trans (h.leaf address haddress hnot.1)
  · have huntouched := h.untouched n hn
    refine huntouched.trans ?_
    rw [← huser]
    exact hfills.untouched n (huser ▸ huntouched.bystander)
  · rcases pageRange_last.mp hq with hq | rfl
    · dsimp only
      rw [hleafBefore q hq]
      exact h.present q hq
    · dsimp only
      rw [hfills.leaf_self hhigh]
      exact present_leafEntry _ _
  · rcases pageRange_last.mp hq with hq | rfl
    · dsimp only
      rw [hbefore q hq, hfills.memory _ (huser ▸ h.own q hq)]
      exact h.zero q hq
    · dsimp only
      rw [hframe]
      exact hfills.zero
  · rcases pageRange_last.mp hq with hq | rfl
    · dsimp only
      rw [hbefore q hq]
      exact h.clear q hq
    · dsimp only
      rw [hframe]
      by_contra hused
      have hused' := h.used f (by simpa using hused)
      rw [hfills.clear] at hused'
      cases hused'
  · rcases pageRange_last.mp hq with hq | rfl
    · exact hkept q hq
    · dsimp only
      rw [hframe, ← huser]
      exact hfills.own
  · rcases pageRange_last.mp hq with hq | rfl
    · dsimp only
      rw [hbefore q hq]
      exact h.low q hq
    · dsimp only
      rw [hframe]
      exact hfills.bound.1
  · dsimp only at heq
    rcases pageRange_last.mp hq with hq | rfl
    · rcases pageRange_last.mp hq' with hq' | rfl
      · rw [hbefore q hq, hbefore q' hq'] at heq
        exact h.apart q q' hq hq' heq
      · exact absurd (heq.trans hframe) (hnew q hq)
    · rcases pageRange_last.mp hq' with hq' | rfl
      · exact absurd (heq.symm.trans hframe) (hnew q' hq')
      · rfl
  · rw [pageList_succ]
    refine h.charged.concat ⟨Or.inr ⟨?_, ?_⟩, ?_⟩ ?_
    · rw [mem_pageList]
      exact not_pageRange_last
    · rw [← huser, ← Nat.add_assoc]
      exact hfills.free
    · rw [← huser]
      exact hfills.tables
    · rw [← huser]
      exact c'.running.process.space.within_user hhigh

theorem Furnished.holding (h : Furnished page count c c') (hholding : Holding heap c.running)
    (hwithin : ∀ q, PageRange page count q → q % pageSize = 0 ∧ q < 2 ^ 47)
    (hnew : ∀ q, PageRange page count q → ¬heap q) :
    Holding (fun q ↦ heap q ∨ PageRange page count q) c'.running := by
  have hleaf : ∀ q, heap q → c'.running.leaf q = c.running.leaf q := by
    intro q hq
    obtain ⟨haligned, hhigh⟩ := hholding.within q hq
    apply h.leaf q hhigh
    rw [alignDown_of_aligned haligned]
    exact fun hrange ↦ hnew q hrange hq
  have hframe : ∀ q, heap q → c'.running.frameAt q = c.running.frameAt q :=
    fun q hq ↦ Running.frameAt_congr (hleaf q hq)
  have hcross : ∀ q q', heap q → PageRange page count q' →
      c'.running.frameAt q ≠ c'.running.frameAt q' := by
    intro q q' hq hq' heq
    have hclear := h.clear q' hq'
    rw [← heq, hframe q hq, (hholding.bystander q hq).used] at hclear
    cases hclear
  refine ⟨?_, ?_, fun q hq ↦ hq.elim (hholding.within q) (hwithin q), fun q hq ↦ ?_, fun q hq ↦ ?_,
    fun q hq ↦ ?_, fun q q' hq hq' heq ↦ ?_⟩
  · rw [h.process]
    exact hholding.made
  · rw [h.user]
    exact h.hierarchy
  · rcases hq with hq | hq
    · rw [hleaf q hq]
      exact hholding.present q hq
    · exact h.present q hq
  · rw [h.user]
    rcases hq with hq | hq
    · rw [hframe q hq]
      exact (h.untouched _ (hholding.bystander q hq)).bystander
    · exact (h.own q hq).bystander
  · rcases hq with hq | hq
    · rw [hframe q hq, h.frameCount]
      exact hholding.frames q hq
    · exact ⟨h.low q hq, (h.own q hq).lt⟩
  · rcases hq with hq | hq
    · rcases hq' with hq' | hq'
      · rw [hframe q hq, hframe q' hq'] at heq
        exact hholding.apart q q' hq hq' heq
      · exact absurd heq (hcross q q' hq hq')
    · rcases hq' with hq' | hq'
      · exact absurd heq.symm (hcross q' q hq' hq)
      · exact h.apart q q' hq hq' heq

theorem accountedMapBreakPage_error {text : String}
    (h : outcome (processMapZeroedPage page) c.running = (.error text, x')) :
    outcome (accountedMapBreakPage page) c = (.error text, { c with running := x' }) := by
  unfold accountedMapBreakPage processMapBreakPage
  rw [outcome_bind, outcome_onRunning, outcome_bind, h]

theorem accountedMapBreakPage_failed
    (h : outcome (processMapZeroedPage page) c.running = (.ok frameAllocationFailed, x')) :
    outcome (accountedMapBreakPage page) c = (.ok false, { c with running := x' }) := by
  unfold accountedMapBreakPage processMapBreakPage
  rw [outcome_bind, outcome_onRunning, outcome_bind, h]
  rfl

theorem accountedMapBreakPage_ok (h : outcome (processMapZeroedPage page) c.running = (.ok f, x'))
    (hf : f ≠ frameAllocationFailed) : outcome (accountedMapBreakPage page) c =
      (.ok true, { c with running := x', breakPages := c.breakPages + 1 }) := by
  have hanswer : outcome (processMapBreakPage page) c.running = (.ok true, x') := by
    unfold processMapBreakPage
    rw [outcome_bind, h]
    simp [hf]
  unfold accountedMapBreakPage
  rw [outcome_bind, outcome_onRunning, hanswer]
  rfl

theorem accountedMapBreakPages_cases (haligned : page % pageSize = 0)
    (hhigh : page + (done + count) * pageSize ≤ 2 ^ 47) (h : Furnished page done c c') :
    (∃ text c'', outcome (accountedMapBreakPages count (page + done * pageSize)) c' =
      (.error text, c'') ∧
      c.running.machine.Starves c.running.user (pageList page (done + count))) ∨
    (∃ c'', outcome (accountedMapBreakPages count (page + done * pageSize)) c' = (.ok none, c'') ∧
      Furnished page (done + count) c c'') ∨
    ∃ j c'', j < done + count ∧ outcome (accountedMapBreakPages count (page + done * pageSize)) c' =
      (.ok (some (page + j * pageSize)), c'') ∧ Furnished page j c c'' ∧
      c.running.machine.frames.freeFrames <
        c.running.machine.mappingCost c.running.user (pageList page (done + count)) := by
  induction count generalizing done c' with
  | zero => exact Or.inr (Or.inl ⟨c', rfl, h⟩)
  | succ count ih =>
      have hthis : page + done * pageSize < 2 ^ 47 := by
        unfold pageSize at *
        omega
      have hlist : pageList page (done + (count + 1)) = pageList page done ++
          (page + done * pageSize) :: pageList (page + (done + 1) * pageSize) count := by
        unfold pageList
        rw [List.range_add, List.map_append, List.range_succ_eq_map, List.map_cons, List.map_cons]
        congr 2
        simp only [List.map_map, List.map_inj_left, Function.comp_apply]
        intro i _
        rw [Nat.succ_eq_add_one]
        ring
      have hhierarchy : Hierarchy c'.running.user c'.running.machine := by
        rw [h.user]
        exact h.hierarchy
      have hwithin : c.running.user.Within (pagePath (page + done * pageSize)) :=
        c.running.process.space.within_user hthis
      have hfresh : page + done * pageSize ∉ pageList page done := by
        rw [mem_pageList]
        exact not_pageRange_last
      rw [accountedMapBreakPages, outcome_bind, hlist]
      rcases processMapZeroedPage_fills hhierarchy hthis with
        ⟨hnone, heq⟩ | ⟨text, x', heq, -, hfree, hfew⟩ | ⟨f, x', heq, hpositive, hfills⟩
      · right
        right
        rw [accountedMapBreakPage_failed heq]
        exact ⟨done, c', by omega, rfl, h, h.charged.lt_mappingCost hfresh hwithin hnone⟩
      · left
        rw [accountedMapBreakPage_error heq]
        refine ⟨text, _, rfl, h.charged.starves hfresh hwithin hfree ?_⟩
        rwa [← h.user]
      · rw [accountedMapBreakPage_ok heq hpositive, ← hlist]
        dsimp only
        have hmore : done + (count + 1) = done + 1 + count := by omega
        have hnext : page + done * pageSize + pageSize = page + (done + 1) * pageSize := by ring
        rw [hmore] at hhigh ⊢
        rw [hnext]
        exact ih hhigh (h.concat haligned hthis hfills)

end OxysOS.Proc
