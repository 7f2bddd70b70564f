import OxysOS.Exec.ElfPages
import OxysOS.Mm.PagingCost

/-!
# A space part of an image has been loaded into

The pages that have been loaded determine what the user's half of the space
maps.
-/

namespace OxysOS.Exec

open OxysOS.Library OxysOS.Mm Action

variable {space : AddressSpace} {image : Bytes} {segment : ElfProgramHeader}
  {done : List (ElfProgramHeader × ℕ)} {frame : ℕ → ℕ} {progress progress' : ElfProgress}
  {start s s' t : Machine} {page address f o : ℕ} {made : List ℕ → Prop}

def Touched (done : List (ElfProgramHeader × ℕ)) (page : ℕ) : Prop := ∃ step ∈ done, step.2 = page

theorem touched_iff : Touched done page ↔ page ∈ done.map Prod.snd := List.mem_map.symm

theorem touched_concat {q : ℕ} :
    Touched (done ++ [(segment, page)]) q ↔ Touched done q ∨ q = page := by
  unfold Touched
  simp only [List.mem_append, List.mem_singleton]
  constructor
  · rintro ⟨step, hstep | rfl, rfl⟩
    · exact Or.inl ⟨step, hstep, rfl⟩
    · exact Or.inr rfl
  · rintro (⟨step, hstep, rfl⟩ | rfl)
    · exact ⟨step, Or.inl hstep, rfl⟩
    · exact ⟨_, Or.inr rfl, rfl⟩

theorem byteIn_of_untouched (h : ¬Touched done page) : byteIn image done page o = 0 :=
  byteIn_of_absent fun step hstep heq ↦ h ⟨step, hstep, heq⟩

theorem writableIn_of_untouched (h : ¬Touched done page) : writableIn done page = false :=
  writableIn_of_absent fun step hstep heq ↦ h ⟨step, hstep, heq⟩

structure UserPage (page : ℕ) : Prop where
  aligned : page % pageSize = 0
  low : pageSize ≤ page
  high : page < 2 ^ 47

/-- From `start` the pages of `done` have been loaded, each into a frame of its
own, and nothing else is mapped in the user's half. -/
structure Loaded (space : AddressSpace) (image : Bytes) (done : List (ElfProgramHeader × ℕ))
    (frame : ℕ → ℕ) (progress : ElfProgress) (start s : Machine) : Prop where
  hierarchy : Hierarchy space.user s
  used : ∀ n, start.frames.isUsed n = true → s.frames.isUsed n = true
  absent : ∀ address, address < 2 ^ 47 → ¬Touched done (alignDown address) →
    s.leaf space.user address = 0
  leaf : ∀ page, Touched done page →
    s.leaf space.user page = pageEntry (frame page) (writableIn done page)
  held : ∀ page, Touched done page → Private space.user s (frame page)
  bytes : ∀ page o, Touched done page → o < pageSize →
    s.memory (frame page) o = byteIn image done page o
  apart : ∀ page other, Touched done page → Touched done other → frame page = frame other →
    page = other
  frames : ∀ page, Touched done page → frame page ≠ 0 ∧ frame page < 2 ^ 40
  fresh : ∀ page, Touched done page → start.frames.isUsed (frame page) = false
  pages : ∀ page, Touched done page → UserPage page
  made : ∀ q n, space.user.Within q → s.table space.user q = some n →
    start.table space.user q = some n ∨ start.frames.isUsed n = false
  elsewhere : ∀ n, start.frames.isUsed n = true →
    (∀ q, space.user.Within q → start.table space.user q ≠ some n) → s.memory n = start.memory n
  upper : ∀ i, pageTableUserEntryCount ≤ i →
    s.slot (frameIndexOf space.root) i = start.slot (frameIndexOf space.root) i
  shared : (progress.sharedFrame = 0 ∧ done = []) ∨
    (progress.sharedFrame = frame progress.sharedPage * pageSize ∧
      Touched done progress.sharedPage ∧ ∀ page, Touched done page → page ≤ progress.sharedPage)

structure Readied (space : AddressSpace) (image : Bytes) (done : List (ElfProgramHeader × ℕ))
    (segment : ElfProgramHeader) (page : ℕ) (frame : ℕ → ℕ) (f : ℕ) (s t : Machine) : Prop where
  hierarchy : Hierarchy space.user t
  tables : ∀ q, space.user.Within q → t.table space.user q = s.table space.user q
  leaves : SameLeaves space.user s t
  memory : ∀ n, n ≠ f → t.memory n = s.memory n
  bytes : ∀ o, o < pageSize → t.memory f o = byteIn image (done ++ [(segment, page)]) page o
  used : ∀ n, s.frames.isUsed n = true → t.frames.isUsed n = true
  held : Private space.user t f
  others : ∀ n, n ≠ f → Private space.user s n → Private space.user t n
  old : (Touched done page ∧ f = frame page) ∨ (¬Touched done page ∧ s.frames.isUsed f = false)

theorem Loaded.readied (segment : ElfProgramHeader)
    (h : Loaded space image done frame progress start s)
    (hpage : Touched done page) :
    Readied space image done segment page frame (frame page) s
      (s.alterFrame (frame page * pageSize) (elfCopySegment image segment page)) := by
  have hheld := h.held page hpage
  have hindex := frameIndexOf_mul (frame page)
  generalize ht : s.alterFrame (frame page * pageSize) (elfCopySegment image segment page) = t
  have hmemory : ∀ n, n ≠ frame page → t.memory n = s.memory n := by
    intro n hne
    rw [← ht]
    apply Machine.memory_writeFrame_of_ne
    rwa [hindex]
  have hframes : t.frames = s.frames := by rw [← ht, Machine.alterFrame, Machine.frames_writeFrame]
  obtain ⟨hhierarchy, htables, hleaves⟩ := h.hierarchy.elsewhere _
    (fun q n hq hn ↦ hmemory n fun heq ↦ hheld.outside q hq (heq ▸ hn))
    (fun q n hq hn ↦ by rw [hframes]; exact h.hierarchy.used q n hq hn)
    (by rw [hframes]; exact h.hierarchy.sound)
  have hown : ∀ n, Private space.user s n → Private space.user t n := by
    intro n hn
    refine ⟨by rw [hframes, hn.used], by rw [hframes, hn.once], fun q hq ↦ ?_⟩
    rw [htables q hq]
    exact hn.outside q hq
  refine ⟨hhierarchy, htables, hleaves, hmemory, fun o ho ↦ ?_, fun n hn ↦ by rwa [hframes],
    hown _ hheld, fun n _ hn ↦ hown n hn, Or.inl ⟨hpage, rfl⟩⟩
  rw [← ht, Machine.alterFrame, hindex, Machine.memory_writeFrame_self, elfCopySegment_eq ho,
    byteIn_concat, h.bytes page o hpage ho]
  simp only [true_and]

theorem Loaded.readied_fresh (segment : ElfProgramHeader)
    (h : Loaded space image done frame progress start s)
    (hpage : ¬Touched done page) (hclear : s.frames.isUsed f = false)
    (hlow : frameIndexOf lowMemoryLimit ≤ f) :
    Readied space image done segment page frame f s
      ((({ s with frames := s.frames.issue f } : Machine).zeroFrame (f * pageSize)).alterFrame
        (f * pageSize) (elfCopySegment image segment page)) := by
  have hindex := frameIndexOf_mul f
  generalize ht : (({ s with frames := s.frames.issue f } : Machine).zeroFrame
    (f * pageSize)).alterFrame (f * pageSize) (elfCopySegment image segment page) = t
  have hmemory : ∀ n, n ≠ f → t.memory n = s.memory n := by
    intro n hne
    rw [← ht]
    refine (Machine.memory_writeFrame_of_ne ?_).trans (Machine.memory_writeFrame_of_ne ?_) <;>
      rwa [hindex]
  have hframes : t.frames = s.frames.issue f := by
    rw [← ht, Machine.alterFrame, Machine.frames_writeFrame, Machine.frames_zeroFrame]
  have hsupplied := h.hierarchy.supply hclear hlow hframes hmemory
  refine ⟨hsupplied.hierarchy, hsupplied.tables, hsupplied.leaves, hmemory, fun o ho ↦ ?_,
    fun n hn ↦ ?_, hsupplied.own, fun n _ hn ↦ hsupplied.others n hn, Or.inr ⟨hpage, hclear⟩⟩
  · rw [← ht]
    unfold Machine.alterFrame Machine.zeroFrame
    rw [hindex, Machine.memory_writeFrame_self, Machine.memory_writeFrame_self,
      elfCopySegment_eq ho, byteIn_concat, byteIn_of_untouched hpage]
    simp only [true_and]
  · rw [hframes, FrameAllocator.isUsed_issue, hn, Bool.true_or]

theorem Readied.apart {q : ℕ} (h : Readied space image done segment page frame f s t)
    (hs : Loaded space image done frame progress start s) (hq : Touched done q) (hne : q ≠ page) :
    frame q ≠ f := by
  rintro rfl
  rcases h.old with ⟨hpage, heq⟩ | ⟨-, hclear⟩
  · exact hne (hs.apart q page hq hpage heq)
  · have hused := (hs.held q hq).used
    rw [hclear] at hused
    cases hused

theorem Readied.clear (h : Readied space image done segment page frame f s t)
    (hs : Loaded space image done frame progress start s) : start.frames.isUsed f = false := by
  rcases h.old with ⟨hold, rfl⟩ | ⟨-, hclear⟩
  · exact hs.fresh page hold
  · by_contra hused
    have hstill := hs.used f (by simpa using hused)
    rw [hclear] at hstill
    cases hstill

theorem Loaded.extend (h : Loaded space image done frame progress start s) (hpage : UserPage page)
    (hlast : ∀ q, Touched done q → q ≤ page) (hf : f ≠ 0 ∧ f < 2 ^ 40)
    (hready : Readied space image done segment page frame f s t)
    (hgrows : Grows space.user made t s')
    (hleaf : ∀ address, address < 2 ^ 47 → s'.leaf space.user address =
      if SamePage address page then
        pageEntry f (writableIn (done ++ [(segment, page)]) page)
      else t.leaf space.user address)
    (hshared : progress'.sharedPage = page ∧ progress'.sharedFrame = f * pageSize) :
    Loaded space image (done ++ [(segment, page)]) (Function.update frame page f) progress'
      start s' := by
  have hfar : ∀ q, q < 2 ^ 47 → alignDown q ≠ page →
      s'.leaf space.user q = s.leaf space.user q := by
    intro q hq hne
    rw [hleaf q hq, if_neg, hready.leaves.leaf (space.within_user hq)]
    rwa [samePage_user hq hpage.high hpage.aligned]
  have hsplit : ∀ q, Touched (done ++ [(segment, page)]) q → q = page ∨ Touched done q ∧ q ≠ page := by
    intro q hq
    by_cases heq : q = page
    · exact Or.inl heq
    · exact Or.inr ⟨(touched_concat.mp hq).resolve_right heq, heq⟩
  have hheld : ∀ q, Touched done q → q ≠ page → Private space.user t (frame q) := fun q hq hne ↦
    hready.others _ (hready.apart h hq hne) (h.held q hq)
  constructor
  · exact hgrows.hierarchy
  · exact fun n hn ↦ hgrows.used n (hready.used n (h.used n hn))
  · intro q hq hnot
    rw [touched_concat, not_or] at hnot
    rw [hfar q hq hnot.2]
    exact h.absent q hq hnot.1
  · intro q hq
    rcases hsplit q hq with rfl | ⟨hq, hne⟩
    · rw [Function.update_self, hleaf q hpage.high, if_pos]
      rfl
    · have huser := h.pages q hq
      rw [Function.update_of_ne hne, hfar q huser.high
        (by rwa [alignDown_of_aligned huser.aligned]), h.leaf q hq, writableIn_concat,
        decide_eq_false (fun h ↦ hne h.1.symm), Bool.or_false]
  · intro q hq
    rcases hsplit q hq with rfl | ⟨hq, hne⟩
    · rw [Function.update_self]
      exact hready.held.grows hgrows
    · rw [Function.update_of_ne hne]
      exact (hheld q hq hne).grows hgrows
  · intro q o hq ho
    rcases hsplit q hq with rfl | ⟨hq, hne⟩
    · rw [Function.update_self, hready.held.memory hgrows, hready.bytes o ho]
    · rw [Function.update_of_ne hne, (hheld q hq hne).memory hgrows,
        hready.memory _ (hready.apart h hq hne), h.bytes q o hq ho, byteIn_concat,
        if_neg (fun h ↦ hne h.1.symm)]
  · intro q other hq hother heq
    rcases hsplit q hq with rfl | ⟨hdone, hne⟩
    · rcases hsplit other hother with rfl | ⟨hdone', hne'⟩
      · rfl
      · rw [Function.update_self, Function.update_of_ne hne'] at heq
        exact absurd heq.symm (hready.apart h hdone' hne')
    · rcases hsplit other hother with rfl | ⟨hdone', hne'⟩
      · rw [Function.update_self, Function.update_of_ne hne] at heq
        exact absurd heq (hready.apart h hdone hne)
      · rw [Function.update_of_ne hne, Function.update_of_ne hne'] at heq
        exact h.apart q other hdone hdone' heq
  · intro q hq
    rcases hsplit q hq with rfl | ⟨hq, hne⟩
    · rwa [Function.update_self]
    · rw [Function.update_of_ne hne]
      exact h.frames q hq
  · intro q hq
    rcases hsplit q hq with rfl | ⟨hq, hne⟩
    · rw [Function.update_self]
      exact hready.clear h
    · rw [Function.update_of_ne hne]
      exact h.fresh q hq
  · intro q hq
    rcases hsplit q hq with rfl | ⟨hq, -⟩
    · exact hpage
    · exact h.pages q hq
  · intro q n hq hn
    rcases hgrows.tables q hq with heq | ⟨-, -, m, hm, hclear⟩
    · rw [heq, hready.tables q hq] at hn
      exact h.made q n hq hn
    · right
      rw [hn] at hm
      cases hm
      by_contra hused
      have hstill := hready.used n (h.used n (by simpa using hused))
      rw [hclear] at hstill
      cases hstill
  · intro n hn hnot
    have hne : n ≠ f := by
      rintro rfl
      rw [hready.clear h] at hn
      cases hn
    rw [hgrows.data n (hready.used n (h.used n hn)), hready.memory n hne, h.elsewhere n hn hnot]
    intro q hq htable
    rw [hready.tables q hq] at htable
    rcases h.made q n hq htable with hstart | hclear
    · exact hnot q hq hstart
    · rw [hclear] at hn
      cases hn
  · intro i hi
    have hne : frameIndexOf space.root ≠ f := fun heq ↦
      hready.held.outside [] space.user.within_nil (congrArg some heq)
    rw [← h.upper i hi]
    apply (hgrows.outside i (Or.inr hi)).trans
    unfold Machine.slot AddressSpace.user
    rw [hready.memory _ hne]
  · right
    rw [hshared.1, hshared.2, Function.update_self]
    refine ⟨rfl, touched_concat.mpr (Or.inr rfl), fun q hq ↦ ?_⟩
    rcases hsplit q hq with rfl | ⟨hq, -⟩
    · exact le_rfl
    · exact hlast q hq

theorem inheritedFlags_pageFlags (segment : ElfProgramHeader) :
    inheritedFlags segment.pageFlags &&& (pageEntryWritable ||| pageEntryUser) =
      pageEntryWritable ||| pageEntryUser := by
  apply inheritedFlags_user
  unfold ElfProgramHeader.pageFlags
  split <;> decide

theorem Readied.mapPage (h : Readied space image done segment page frame f s t)
    (hpage : UserPage page) :
    (∃ text s', outcome (addressSpaceMapPage space page (f * pageSize) segment.pageFlags) t =
      (.error text, s') ∧ t.frames.freeFrames < s.missing space.user page) ∨
    ∃ s', outcome (addressSpaceMapPage space page (f * pageSize) segment.pageFlags) t =
        (.ok (), s') ∧
      Grows space.user (· ∈ tablePaths page) t s' ∧
      (∀ address, address < 2 ^ 47 → s'.leaf space.user address =
        if SamePage address page then pageEntry f segment.isWritable
        else t.leaf space.user address) ∧
      s'.frames.freeFrames + s.missing space.user page = t.frames.freeFrames ∧
      ∀ q, space.user.Within q →
        (s'.table space.user q ≠ none ↔ s.table space.user q ≠ none ∨ q ∈ tablePaths page) := by
  have hwithin := space.within_user hpage.high
  have hmissing := missing_congr hwithin h.tables
  unfold addressSpaceMapPage
  rcases pagingMapPage_cases (r := space.user) (f * pageSize) _ h.hierarchy hwithin
      (inheritedFlags_pageFlags segment) with ⟨text, s', heq, hfree⟩ | ⟨s', heq, hmaps⟩
  · left
    rw [hmissing] at hfree
    exact ⟨text, s', heq, hfree⟩
  · right
    refine ⟨s', heq, hmaps.grows, fun address haddress ↦ ?_, ?_, fun q hq ↦ ?_⟩
    · exact hmaps.leaf address (space.within_user haddress)
    · rw [← hmissing]
      exact hmaps.free
    · rw [hmaps.tables_iff q hq, h.tables q hq]

theorem elfLoadPage_cases (segment : ElfProgramHeader)
    (h : Loaded space image done frame progress start s)
    (hpage : UserPage page) (hlast : ∀ q, Touched done q → q ≤ page) :
    (∃ text s', outcome (elfLoadPage space image segment page progress) s = (.error text, s') ∧
      ¬Touched done page ∧ 0 < s.frames.freeFrames ∧
      s.frames.freeFrames ≤ s.missing space.user page) ∨
    (outcome (elfLoadPage space image segment page progress) s = (.ok (.error .noMemory), s) ∧
      ¬Touched done page ∧ s.frames.freeFrames = 0) ∨
    ∃ frame' progress' s',
      outcome (elfLoadPage space image segment page progress) s = (.ok (.ok progress'), s') ∧
      Loaded space image (done ++ [(segment, page)]) frame' progress' start s' ∧
      Spends space.user (done.map Prod.snd) page s s' ∧
      progress'.loaded.highest = progress.loaded.highest ∧
      progress'.loaded.lowest = progress.loaded.lowest := by
  have hwithin := space.within_user hpage.high
  have hrights := inheritedFlags_pageFlags segment
  unfold elfLoadPage
  by_cases hshared : progress.sharedFrame ≠ 0 ∧ page = progress.sharedPage
  · right
    right
    obtain ⟨hframe, htouched, -⟩ := h.shared.resolve_left fun hnone ↦ hshared.1 hnone.1
    rw [← hshared.2] at hframe htouched
    have hready := h.readied segment htouched
    have hfull := missing_eq_zero (r := space.user) (s := s) page
      (by rw [h.leaf page htouched]; exact pageEntry_ne_zero _ _)
    rw [if_pos hshared]
    dsimp only
    rw [outcome_bind, outcome_modify, hframe]
    dsimp only
    have hframes := h.frames page htouched
    by_cases hwritable : segment.isWritable = true
    · rw [if_pos hwritable, outcome_bind]
      rcases hready.mapPage hpage with ⟨text, s', -, hfree⟩ | ⟨s', heq, hgrows, hleaf, hfree, htables⟩
      · rw [hfull.1] at hfree
        exact absurd hfree (Nat.not_lt_zero _)
      · rw [heq]
        refine ⟨_, _, s', rfl, h.extend hpage hlast hframes hready hgrows ?_ ⟨rfl, rfl⟩,
          ⟨Or.inl ⟨touched_iff.mp htouched, ?_⟩, htables⟩, rfl, rfl⟩
        · intro address haddress
          rw [hleaf address haddress, writableIn_concat, hwritable]
          simp
        · rw [hfull.1] at hfree
          exact hfree
    · rw [if_neg hwritable]
      refine ⟨_, _, _, rfl, h.extend hpage hlast hframes hready
        (Grows.refl hready.hierarchy : Grows space.user (fun _ ↦ False) _ _) ?_ ⟨rfl, rfl⟩,
        ⟨Or.inl ⟨touched_iff.mp htouched, rfl⟩, ?_⟩, rfl, rfl⟩
      · intro address haddress
        split
        · rename_i hsame
          rw [leaf_of_samePage hsame, hready.leaves.leaf hwithin, h.leaf page htouched,
            writableIn_concat]
          simp [hwritable]
        · rfl
      · intro q hq
        rw [hready.tables q hq]
        exact ⟨Or.inl, fun h ↦ h.elim id (hfull.2 q)⟩
  · have hnew : ¬Touched done page := by
      intro htouched
      rcases h.shared with ⟨-, hnil⟩ | ⟨hframe, hin, hall⟩
      · rw [hnil] at htouched
        obtain ⟨step, hstep, -⟩ := htouched
        cases hstep
      · have hle := hall page htouched
        have hge := hlast _ hin
        apply hshared
        refine ⟨?_, by omega⟩
        rw [hframe]
        exact Nat.mul_ne_zero (h.frames _ hin).1 (by decide)
    rw [if_neg hshared, outcome_bind, outcome_frameAllocate]
    rcases h.hierarchy.sound.allocate_cases with
      ⟨hfree, heq⟩ | ⟨f, heq, hclear, hcount, hlow, hfree⟩
    · right
      left
      rw [heq]
      exact ⟨rfl, hnew, hfree⟩
    · have hlow' : 256 ≤ f := hlow
      have hpositive : f * pageSize ≠ 0 := Nat.mul_ne_zero (by omega) (by decide)
      have hready := h.readied_fresh segment hnew hclear hlow
      have hfreeFrames : (s.frames.issue f).freeFrames = s.frames.freeFrames - 1 :=
        FrameAllocator.freeFrames_issue hclear
      rw [heq]
      dsimp only
      rw [if_neg hpositive, outcome_bind, outcome_modify]
      dsimp only
      rw [outcome_bind]
      rcases hready.mapPage hpage with ⟨text, s', heq, hnone⟩ | ⟨s', heq, hgrows, hleaf, hpaid, htables⟩
      · left
        change (s.frames.issue f).freeFrames < _ at hnone
        rw [heq]
        exact ⟨text, s', rfl, hnew, hfree, by omega⟩
      · right
        right
        change s'.frames.freeFrames + _ = (s.frames.issue f).freeFrames at hpaid
        have hmachine := h.hierarchy.sound.machine
        rw [heq]
        refine ⟨_, _, s', rfl, h.extend hpage hlast ⟨by omega, by omega⟩ hready hgrows ?_ ⟨rfl, rfl⟩,
          ⟨Or.inr ⟨mt touched_iff.mpr hnew, by omega⟩, htables⟩, rfl, rfl⟩
        intro address haddress
        rw [hleaf address haddress, writableIn_concat, writableIn_of_untouched hnew]
        simp

end OxysOS.Exec
