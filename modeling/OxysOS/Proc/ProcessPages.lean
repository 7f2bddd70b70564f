import OxysOS.Mm.PageFrames
import OxysOS.Mm.PagingCost
import OxysOS.Proc.Process

/-!
# The pages a process is given

A page of the stack or of the heap is mapped into a frame of its own.  Where
its place is free, that disturbs nothing; and a page of the heap that is
withdrawn leaves its place free again.
-/

namespace OxysOS.Proc

open OxysOS.Library OxysOS.Mm OxysOS.Exec Action

variable {x x' : Running} {page address f n : ℕ} {fixed heap : ℕ → Prop}

theorem outcome_onMachine {α : Type} (action : Kernel α) (x : Running) :
    outcome (onMachine action) x = ((outcome action x.machine).1,
      { x with machine := (outcome action x.machine).2 }) := rfl

abbrev Running.user (x : Running) : PageRegion := x.process.space.user

def Running.leaf (x : Running) (address : ℕ) : BitVec 64 := x.machine.leaf x.user address

structure Gains (page f : ℕ) (x x' : Running) : Prop where
  process : x'.process = { x.process with mappedPages := x.process.mappedPages + 1 }
  mappings : x'.mappings = ⟨page, x.leaf page⟩ :: x.mappings
  hierarchy : Hierarchy x.user x'.machine
  leaf : ∀ address, address < 2 ^ 47 →
    x'.machine.leaf x.user address = if SamePage address page then pageEntry f true else x.leaf address
  clear : x.machine.frames.isUsed f = false
  own : Private x.user x'.machine f
  others : ∀ n, Private x.user x.machine n → Private x.user x'.machine n
  bound : frameIndexOf lowMemoryLimit ≤ f ∧ f < 2 ^ 40
  memory : ∀ n, Private x.user x.machine n → x'.machine.memory n = x.machine.memory n
  free : x'.machine.frames.freeFrames + x.machine.missing x.user page + 1 =
    x.machine.frames.freeFrames

structure Fills (page f : ℕ) (x x' : Running) : Prop extends Gains page f x x' where
  zero : x'.machine.memory f = fun _ ↦ 0
  untouched : ∀ n, Bystander x.user x.machine n → Untouched x.user n x.machine x'.machine
  tables : ∀ q, x.user.Within q →
    (x'.machine.table x.user q ≠ none ↔ x.machine.table x.user q ≠ none ∨ q ∈ tablePaths page)
  used : ∀ n, x.machine.frames.isUsed n = true → x'.machine.frames.isUsed n = true
  frameCount : x'.machine.frames.frameCount = x.machine.frames.frameCount

theorem processMapZeroedPage_fills (h : Hierarchy x.user x.machine) (hpage : page < 2 ^ 47) :
    (x.machine.frames.freeFrames = 0 ∧
      outcome (processMapZeroedPage page) x = (.ok frameAllocationFailed, x)) ∨
    (∃ text x', outcome (processMapZeroedPage page) x = (.error text, x') ∧
      x'.mappings = ⟨page, x.leaf page⟩ :: x.mappings ∧
      0 < x.machine.frames.freeFrames ∧
      x.machine.frames.freeFrames ≤ x.machine.missing x.user page) ∨
    ∃ f x', outcome (processMapZeroedPage page) x = (.ok (f * pageSize), x') ∧
      f * pageSize ≠ frameAllocationFailed ∧ Fills page f x x' := by
  have hwithin := x.process.space.within_user hpage
  unfold processMapZeroedPage
  rw [outcome_bind, outcome_onMachine, outcome_frameAllocate]
  rcases h.sound.allocate_cases with ⟨hfree, heq⟩ | ⟨f, heq, hclear, hcount, hlow, hfree⟩
  · left
    rw [heq]
    exact ⟨hfree, rfl⟩
  · right
    have hlow' : 256 ≤ f := hlow
    have hpositive : f * pageSize ≠ frameAllocationFailed := Nat.mul_ne_zero (by omega) (by decide)
    have hmachine := h.sound.machine
    rw [heq]
    dsimp only
    rw [if_neg hpositive, outcome_bind, outcome_onMachine, outcome_modify]
    dsimp only
    rw [outcome_bind, outcome_get]
    dsimp only
    rw [outcome_bind, outcome_modify]
    dsimp only
    generalize ht : ({ x.machine with frames := x.machine.frames.issue f } : Machine).zeroFrame
      (f * pageSize) = t
    have hkept : ∀ n, n ≠ f → t.memory n = x.machine.memory n := by
      intro n hne
      rw [← ht]
      exact Machine.memory_zeroFrame_of_ne (by rwa [frameIndexOf_mul])
    have hsupplied : Supplied x.user f x.machine t :=
      h.supply hclear hlow (by rw [← ht, Machine.frames_zeroFrame]) hkept
    have hmissing : t.missing x.user page = x.machine.missing x.user page :=
      missing_congr hwithin hsupplied.tables
    have hless := hsupplied.free
    have hfound : t.leaf x.user page = x.leaf page := hsupplied.leaves.leaf hwithin
    have hentry : leafEntry (f * pageSize) (pageEntryWritable ||| pageEntryUser) =
        pageEntry f true := by
      unfold pageEntry
      rw [if_pos rfl, BitVec.or_comm]
    rw [outcome_bind, outcome_onMachine, addressSpaceMapPage]
    dsimp only
    rcases pagingMapPage_cases (r := x.user) (f * pageSize)
        (pageEntryWritable ||| pageEntryUser) hsupplied.hierarchy hwithin
        (inheritedFlags_user (by decide)) with ⟨text, s', heq', hfew⟩ | ⟨s', heq', hmaps⟩
    · left
      change outcome (pagingMapPage x.process.space.root page _ _) t = _ at heq'
      rw [heq']
      exact ⟨text, _, rfl, congrArg (fun found ↦ Mapping.mk page found :: x.mappings) hfound,
        h.sound.free_pos hclear, by omega⟩
    · right
      change outcome (pagingMapPage x.process.space.root page _ _) t = _ at heq'
      rw [heq']
      have hissued : t.frames = x.machine.frames.issue f := by rw [← ht, Machine.frames_zeroFrame]
      have huntouched : ∀ n, Bystander x.user x.machine n → Untouched x.user n x.machine s' := by
        intro n hn
        have hsupply := hn.issue hclear (h.sound.lt_of_clear hclear) hissued hkept hsupplied.tables
        exact hsupply.trans (hsupply.bystander.grows hmaps.grows)
      refine ⟨f, _, rfl, hpositive, ⟨rfl, ?_, hmaps.grows.hierarchy, fun address haddress ↦ ?_,
        hclear, hsupplied.own.grows hmaps.grows, fun n hn ↦ (hsupplied.others n hn).grows hmaps.grows,
        ⟨hlow, by omega⟩, fun n hn ↦ (huntouched n hn.bystander).memory, ?_⟩, ?_, huntouched,
        fun q hq ↦ ?_, fun n hn ↦ hmaps.grows.used n ?_, ?_⟩
      · exact congrArg (fun found ↦ Mapping.mk page found :: x.mappings) hfound
      · have hwithin' := x.process.space.within_user haddress
        rw [← hentry]
        refine (hmaps.leaf address hwithin').trans ?_
        rw [hsupplied.leaves.leaf hwithin']
        rfl
      · have hspent := hmaps.free
        change s'.frames.freeFrames + _ + 1 = _
        omega
      · refine (hsupplied.own.memory hmaps.grows).trans ?_
        rw [← ht, Machine.zeroFrame, frameIndexOf_mul]
        exact Machine.memory_writeFrame_self _ _ _
      · rw [← hsupplied.tables q hq]
        exact hmaps.tables_iff q hq
      · rw [hissued, FrameAllocator.isUsed_issue, hn, Bool.true_or]
      · change s'.frames.frameCount = _
        rw [hmaps.grows.frameCount, hissued, FrameAllocator.frameCount_issue]

theorem processMapZeroedPage_cases (h : Hierarchy x.user x.machine) (hpage : page < 2 ^ 47) :
    (x.machine.frames.freeFrames = 0 ∧
      outcome (processMapZeroedPage page) x = (.ok frameAllocationFailed, x)) ∨
    (∃ text x', outcome (processMapZeroedPage page) x = (.error text, x') ∧
      x'.mappings = ⟨page, x.leaf page⟩ :: x.mappings ∧
      x.machine.frames.freeFrames ≤ x.machine.missing x.user page) ∨
    ∃ f x', outcome (processMapZeroedPage page) x = (.ok (f * pageSize), x') ∧
      f * pageSize ≠ frameAllocationFailed ∧ Gains page f x x' := by
  rcases processMapZeroedPage_fills h hpage with
    hnone | ⟨text, x', heq, hmappings, -, hfew⟩ | ⟨f, x', heq, hpositive, hfills⟩
  · exact Or.inl hnone
  · exact Or.inr (Or.inl ⟨text, x', heq, hmappings, hfew⟩)
  · exact Or.inr (Or.inr ⟨f, x', heq, hpositive, hfills.toGains⟩)

def guardPage : ℕ := userStackBase - pageSize

/-- Nothing is mapped in the user's half outside the pages of `fixed` and of
`heap`, and each page of the heap has a frame of its own. -/
structure Standing (fixed heap : ℕ → Prop) (x : Running) : Prop where
  made : x.process.space.root ≠ frameAllocationFailed
  hierarchy : Hierarchy x.user x.machine
  absent : ∀ address, address < 2 ^ 47 → ¬fixed (alignDown address) → ¬heap (alignDown address) →
    x.leaf address = 0
  held : ∀ page, heap page → page % pageSize = 0 ∧ page < 2 ^ 47 ∧ ∃ f,
    x.leaf page = pageEntry f true ∧ Private x.user x.machine f ∧
      frameIndexOf lowMemoryLimit ≤ f ∧ f < 2 ^ 40
  apart : ∀ page other, heap page → heap other → x.leaf page = x.leaf other → page = other

def Harmless (x : Running) : Prop :=
  ∀ mapping ∈ x.mappings, mapping.found &&& pageEntryPresent = 0 ∧
    mapping.page < syscallUserLimit ∧ mapping.page ≠ guardPage

def Process.Like (process process' : Process) : Prop :=
  process' = { process with mappedPages := process'.mappedPages }

structure Room (fixed heap : ℕ → Prop) (page : ℕ) : Prop where
  aligned : page % pageSize = 0
  high : page < 2 ^ 47
  fixed : ¬fixed page
  heap : ¬heap page
  guard : page ≠ guardPage

theorem Process.Like.refl (process : Process) : process.Like process := rfl

theorem Process.Like.trans {p q r : Process} (h : p.Like q) (h' : q.Like r) : p.Like r := by
  unfold Process.Like at *
  rw [h', h]

theorem Process.Like.space {p q : Process} (h : p.Like q) : q.space = p.space := by rw [h]

theorem Process.Like.breaks {p q : Process} (h : p.Like q) :
    q.breakStart = p.breakStart ∧ q.breakCurrent = p.breakCurrent := by
  rw [h]
  exact ⟨rfl, rfl⟩

theorem Gains.like (h : Gains page f x x') : x.process.Like x'.process := by
  unfold Process.Like
  rw [h.process]

theorem Gains.user (h : Gains page f x x') : x'.user = x.user := by
  unfold Running.user
  rw [h.process]

theorem pageEntry_inj {g : ℕ} (hf : f < 2 ^ 40) (hg : g < 2 ^ 40)
    (heq : pageEntry f true = pageEntry g true) : f = g := by
  have haddress := congrArg entryAddress heq
  rw [entryAddress_pageEntry hf, entryAddress_pageEntry hg] at haddress
  exact Nat.eq_of_mul_eq_mul_right (by decide) haddress

namespace Standing

theorem mono {more : ℕ → Prop} (h : Standing fixed heap x) (hmore : ∀ q, fixed q → more q) :
    Standing more heap x where
  made := h.made
  hierarchy := h.hierarchy
  absent address haddress hfixed := h.absent address haddress fun hq ↦ hfixed (hmore _ hq)
  held := h.held
  apart := h.apart

theorem leaf_of_room (h : Standing fixed heap x) (hroom : Room fixed heap page) :
    x.leaf page = 0 := by
  apply h.absent page hroom.high
  · rw [alignDown_of_aligned hroom.aligned]
    exact hroom.fixed
  · rw [alignDown_of_aligned hroom.aligned]
    exact hroom.heap

end Standing

theorem Gains.leaf_of_ne (h : Gains page f x x') (hroom : Room fixed heap page)
    (haddress : address < 2 ^ 47) (hne : alignDown address ≠ page) :
    x'.leaf address = x.leaf address := by
  unfold Running.leaf
  rw [h.user, h.leaf address haddress, if_neg]
  · rfl
  · rwa [samePage_user haddress hroom.high hroom.aligned]

theorem Gains.leaf_self (h : Gains page f x x') (hroom : Room fixed heap page) :
    x'.leaf page = pageEntry f true := by
  unfold Running.leaf
  rw [h.user, h.leaf page hroom.high, if_pos]
  rfl

theorem Standing.harmless (h : Standing fixed heap x) (hroom : Room fixed heap page)
    (hlog : Harmless x) (hmappings : x'.mappings = ⟨page, x.leaf page⟩ :: x.mappings) :
    Harmless x' := by
  intro mapping hmapping
  rw [hmappings, List.mem_cons] at hmapping
  rcases hmapping with rfl | hmapping
  · refine ⟨?_, hroom.high, hroom.guard⟩
    rw [h.leaf_of_room hroom]
    exact zero_and_present
  · exact hlog mapping hmapping

namespace Standing

theorem heap_gains {q : ℕ} (h : Standing fixed heap x) (hroom : Room fixed heap page)
    (hgains : Gains page f x x') (hq : heap q) : q % pageSize = 0 ∧ q < 2 ^ 47 ∧
      x'.leaf q = x.leaf q ∧ ∃ g, x.leaf q = pageEntry g true ∧
        Private x'.user x'.machine g ∧ frameIndexOf lowMemoryLimit ≤ g ∧ g < 2 ^ 40 ∧ g ≠ f := by
  obtain ⟨haligned, hhigh, g, hleaf, hown, hbound, hsmall⟩ := h.held q hq
  have hne : alignDown q ≠ page := by
    rw [alignDown_of_aligned haligned]
    rintro rfl
    exact hroom.heap hq
  refine ⟨haligned, hhigh, hgains.leaf_of_ne hroom hhigh hne, g, hleaf, ?_, hbound, hsmall, ?_⟩
  · rw [hgains.user]
    exact hgains.others g hown
  · rintro rfl
    have hused := hown.used
    rw [hgains.clear] at hused
    cases hused

theorem gain_fixed (h : Standing fixed heap x) (hroom : Room fixed heap page)
    (hgains : Gains page f x x') : Standing (fun q ↦ fixed q ∨ q = page) heap x' where
  made := by
    rw [hgains.like.space]
    exact h.made
  hierarchy := by
    rw [hgains.user]
    exact hgains.hierarchy
  absent address haddress hfixed hheap := by
    rw [not_or] at hfixed
    rw [hgains.leaf_of_ne hroom haddress hfixed.2]
    exact h.absent address haddress hfixed.1 hheap
  held q hq := by
    obtain ⟨haligned, hhigh, hleaf, g, hentry, hown, hbound, hsmall, -⟩ := h.heap_gains hroom hgains hq
    exact ⟨haligned, hhigh, g, by rw [hleaf, hentry], hown, hbound, hsmall⟩
  apart q other hq hother heq := by
    rw [(h.heap_gains hroom hgains hq).2.2.1, (h.heap_gains hroom hgains hother).2.2.1] at heq
    exact h.apart q other hq hother heq

theorem gain_heap (h : Standing fixed heap x) (hroom : Room fixed heap page)
    (hgains : Gains page f x x') : Standing fixed (fun q ↦ heap q ∨ q = page) x' where
  made := by
    rw [hgains.like.space]
    exact h.made
  hierarchy := by
    rw [hgains.user]
    exact hgains.hierarchy
  absent address haddress hfixed hheap := by
    rw [not_or] at hheap
    rw [hgains.leaf_of_ne hroom haddress hheap.2]
    exact h.absent address haddress hfixed hheap.1
  held q hq := by
    rcases hq with hq | rfl
    · obtain ⟨haligned, hhigh, hleaf, g, hentry, hown, hbound, hsmall, -⟩ :=
        h.heap_gains hroom hgains hq
      exact ⟨haligned, hhigh, g, by rw [hleaf, hentry], hown, hbound, hsmall⟩
    · refine ⟨hroom.aligned, hroom.high, f, hgains.leaf_self hroom, ?_, hgains.bound⟩
      rw [hgains.user]
      exact hgains.own
  apart q other hq hother heq := by
    rcases hq with hq | rfl
    · rcases hother with hother | rfl
      · rw [(h.heap_gains hroom hgains hq).2.2.1, (h.heap_gains hroom hgains hother).2.2.1] at heq
        exact h.apart q other hq hother heq
      · obtain ⟨-, -, hleaf, g, hentry, -, -, hsmall, hne⟩ := h.heap_gains hroom hgains hq
        rw [hleaf, hentry, hgains.leaf_self hroom] at heq
        exact absurd (pageEntry_inj hsmall hgains.bound.2 heq) hne
    · rcases hother with hother | rfl
      · obtain ⟨-, -, hleaf, g, hentry, -, -, hsmall, hne⟩ := h.heap_gains hroom hgains hother
        rw [hleaf, hentry, hgains.leaf_self hroom] at heq
        exact absurd (pageEntry_inj hsmall hgains.bound.2 heq.symm) hne
      · rfl

end Standing

theorem outcome_frameFree {s : Machine} {t : FrameAllocator} (h : s.frames.free f = .ok t) :
    outcome (frameFree f) s = (.ok (), { s with frames := t }) := by
  unfold frameFree
  rw [outcome_bind, outcome_get]
  dsimp only
  rw [h]
  rfl

structure Loses (page f : ℕ) (x x' : Running) : Prop where
  like : x.process.Like x'.process
  mappings : x'.mappings = x.mappings
  hierarchy : Hierarchy x.user x'.machine
  leaf : ∀ address, address < 2 ^ 47 →
    x'.machine.leaf x.user address = if SamePage address page then 0 else x.leaf address
  others : ∀ n, n ≠ f → Private x.user x.machine n → Private x.user x'.machine n

structure Withdraws (page f : ℕ) (x x' : Running) : Prop where
  process : x'.process = { x.process with mappedPages := x.process.mappedPages - 1 }
  mappings : x'.mappings = x.mappings
  hierarchy : Hierarchy x.user x'.machine
  leaf : ∀ address, address < 2 ^ 47 →
    x'.machine.leaf x.user address = if SamePage address page then 0 else x.leaf address
  tables : ∀ q, x.user.Within q → x'.machine.table x.user q = x.machine.table x.user q
  memory : ∀ n, Bystander x.user x.machine n → x'.machine.memory n = x.machine.memory n
  released : x.machine.frames.Released x'.machine.frames f

theorem processUnmapBreakPage_withdraws (hmade : x.process.space.root ≠ frameAllocationFailed)
    (h : Hierarchy x.user x.machine) (hpage : page < 2 ^ 47)
    (hpresent : x.leaf page &&& pageEntryPresent ≠ 0)
    (hentry : entryAddress (x.leaf page) = f * pageSize) (hown : Bystander x.user x.machine f)
    (hcount : f < x.machine.frames.frameCount) (hlow : frameIndexOf lowMemoryLimit ≤ f) :
    (∃ s', outcome (addressSpaceUnmapPage x.process.space page) x.machine = (.ok (f * pageSize), s') ∧
      f * pageSize ≠ frameAllocationFailed) ∧
    ∃ x', outcome (processUnmapBreakPage page) x = (.ok (), x') ∧ Withdraws page f x x' := by
  have hwithin := x.process.space.within_user hpage
  have hbound : 256 ≤ f := hlow
  have hpositive : f * pageSize ≠ frameAllocationFailed := Nat.mul_ne_zero (by omega) (by decide)
  obtain ⟨s', heq, hcases⟩ := pagingUnmapPageIn_eq (r := x.user) h hwithin
  have hpresent' : ¬x.machine.leaf x.user page &&& pageEntryPresent = 0 := hpresent
  have hclears := (hcases.resolve_left fun hnot ↦ hpresent hnot.1).2
  rw [if_neg hpresent', show entryAddress (x.machine.leaf x.user page) = f * pageSize from hentry] at heq
  obtain ⟨t, hfree, hreleased⟩ := h.sound.free hcount hown.used hlow
  have hfree' : s'.frames.free (f * pageSize) = .ok t := by
    rw [hclears.frames]
    exact hfree
  have hkeep : ∀ n, n ≠ f → x.machine.frames.isUsed n = true → t.isUsed n = true := by
    intro n hne hn
    rw [hreleased.isUsed, if_neg (fun h ↦ hne h.1), hn]
  obtain ⟨hhierarchy, htables, hleaves⟩ := hclears.grows.hierarchy.elsewhere
    { s' with frames := t } (fun _ _ _ _ ↦ rfl)
    (fun q n hq hn ↦ by
      rw [hclears.tables q hq] at hn
      exact hkeep n (fun heq ↦ hown.outside q hq (heq ▸ hn)) (h.used q n hq hn))
    hreleased.sound
  have hunmap : outcome (addressSpaceUnmapPage x.process.space page) x.machine =
      (.ok (f * pageSize), s') := by
    rw [addressSpaceUnmapPage, if_neg hmade]
    exact heq
  refine ⟨⟨s', hunmap, hpositive⟩, ?_⟩
  unfold processUnmapBreakPage
  rw [outcome_bind, outcome_get]
  dsimp only
  rw [outcome_bind, outcome_onMachine, hunmap]
  dsimp only
  rw [if_neg hpositive, outcome_bind, outcome_onMachine, outcome_frameFree hfree']
  refine ⟨_, rfl, rfl, rfl, hhierarchy, fun address haddress ↦ ?_, fun q hq ↦ ?_, fun n hn ↦ ?_,
    hreleased⟩
  · have hwithin' := x.process.space.within_user haddress
    exact (hleaves.leaf hwithin').trans (hclears.leaf address hwithin')
  · exact (htables q hq).trans (hclears.tables q hq)
  · exact hclears.grows.data n hn.used hn.outside

theorem processUnmapBreakPage_eq (h : Standing fixed heap x) (hpage : page < 2 ^ 47)
    (hleaf : x.leaf page = pageEntry f true) (hown : Private x.user x.machine f)
    (hbound : frameIndexOf lowMemoryLimit ≤ f ∧ f < 2 ^ 40) :
    ∃ x', outcome (processUnmapBreakPage page) x = (.ok (), x') ∧ Loses page f x x' := by
  have hpresent : x.leaf page &&& pageEntryPresent ≠ 0 := by
    rw [hleaf]
    exact present_leafEntry _ _
  have hentry : entryAddress (x.leaf page) = f * pageSize := by
    rw [hleaf]
    exact entryAddress_pageEntry hbound.2 true
  obtain ⟨-, x', heq, hwithdraws⟩ := processUnmapBreakPage_withdraws h.made h.hierarchy hpage hpresent
    hentry hown.bystander hown.lt hbound.1
  refine ⟨x', heq, ?_, hwithdraws.mappings, hwithdraws.hierarchy, hwithdraws.leaf, fun n hne hn ↦ ?_⟩
  · unfold Process.Like
    rw [hwithdraws.process]
  · refine ⟨?_, ?_, fun q hq ↦ ?_⟩
    · rw [hwithdraws.released.isUsed, if_neg (fun h ↦ hne h.1), hn.used]
    · rw [hwithdraws.released.holders, if_neg hne, hn.once]
    · rw [hwithdraws.tables q hq]
      exact hn.outside q hq

theorem Loses.leaf_of_ne (h : Loses page f x x') (hpage : page % pageSize = 0)
    (hhigh : page < 2 ^ 47) (haddress : address < 2 ^ 47) (hne : alignDown address ≠ page) :
    x'.leaf address = x.leaf address := by
  unfold Running.leaf Running.user
  rw [h.like.space]
  apply (h.leaf address haddress).trans
  rw [if_neg]
  · rfl
  · rwa [samePage_user haddress hhigh hpage]

theorem Standing.lose (h : Standing fixed heap x) (hpage : heap page) :
    ∃ x', outcome (processUnmapBreakPage page) x = (.ok (), x') ∧ x'.mappings = x.mappings ∧
      x.process.Like x'.process ∧ Standing fixed (fun q ↦ heap q ∧ q ≠ page) x' := by
  obtain ⟨haligned, hhigh, f, hleaf, hown, hbound⟩ := h.held page hpage
  obtain ⟨x', heq, hloses⟩ := processUnmapBreakPage_eq h hhigh hleaf hown hbound
  have huser : x'.user = x.user := by
    unfold Running.user
    rw [hloses.like.space]
  refine ⟨x', heq, hloses.mappings, hloses.like, ?_, ?_, ?_, ?_, ?_⟩
  · rw [hloses.like.space]
    exact h.made
  · rw [huser]
    exact hloses.hierarchy
  · intro address haddress hfixed hheap
    by_cases hhere : alignDown address = page
    · unfold Running.leaf
      rw [huser, hloses.leaf address haddress, if_pos]
      rwa [samePage_user haddress hhigh haligned]
    · rw [hloses.leaf_of_ne haligned hhigh haddress hhere]
      exact h.absent address haddress hfixed fun hq ↦ hheap ⟨hq, hhere⟩
  · rintro q ⟨hq, hne⟩
    obtain ⟨haligned', hhigh', g, hentry, hown', hbound'⟩ := h.held q hq
    have hneg : g ≠ f := by
      rintro rfl
      exact hne (h.apart q page hq hpage (by rw [hentry, hleaf]))
    refine ⟨haligned', hhigh', g, ?_, ?_, hbound'⟩
    · rw [hloses.leaf_of_ne haligned hhigh hhigh' (by rwa [alignDown_of_aligned haligned']), hentry]
    · rw [huser]
      exact hloses.others g hneg hown'
  · rintro q other ⟨hq, hne⟩ ⟨hother, hne'⟩ hsame
    obtain ⟨haligned', hhigh', -⟩ := h.held q hq
    obtain ⟨haligned'', hhigh'', -⟩ := h.held other hother
    rw [hloses.leaf_of_ne haligned hhigh hhigh' (by rwa [alignDown_of_aligned haligned']),
      hloses.leaf_of_ne haligned hhigh hhigh'' (by rwa [alignDown_of_aligned haligned''])] at hsame
    exact h.apart q other hq hother hsame

end OxysOS.Proc
