import Mathlib.Data.Finset.Union
import OxysOS.Mm.PagingTree

/-!
# What mapping pages costs in frames

Pages that are mapped one after another, each into a frame taken for it, cost a
frame each and one for every table that was missing, however many of the pages
lie beneath it.
-/

namespace OxysOS.Mm

variable {r : PageRegion} {s s' t : Machine} {pages : List ℕ} {page k : ℕ} {q : List ℕ}

def pagesTables (pages : List ℕ) : List (List ℕ) := pages.flatMap tablePaths

namespace Machine

def missingTables (s : Machine) (r : PageRegion) (pages : List ℕ) : Finset (List ℕ) :=
  (pagesTables pages).toFinset.filter fun q ↦ s.table r q = none

def mappingCost (s : Machine) (r : PageRegion) (pages : List ℕ) : ℕ :=
  pages.toFinset.card + (s.missingTables r pages).card

def Starves (s : Machine) (r : PageRegion) (pages : List ℕ) : Prop :=
  ∃ k, k < pages.length ∧ s.mappingCost r (pages.take k) < s.frames.freeFrames ∧
    s.frames.freeFrames < s.mappingCost r (pages.take (k + 1))

instance (s : Machine) (r : PageRegion) (pages : List ℕ) : Decidable (s.Starves r pages) :=
  inferInstanceAs (Decidable (∃ k, k < pages.length ∧ _))

end Machine

theorem mem_pagesTables : q ∈ pagesTables pages ↔ ∃ page ∈ pages, q ∈ tablePaths page :=
  List.mem_flatMap

theorem mappingCost_nil : s.mappingCost r [] = 0 := rfl

structure Spends (r : PageRegion) (pages : List ℕ) (page : ℕ) (s s' : Machine) : Prop where
  free : (page ∈ pages ∧ s'.frames.freeFrames = s.frames.freeFrames) ∨
    (page ∉ pages ∧ s'.frames.freeFrames + (s.missing r page + 1) = s.frames.freeFrames)
  tables : ∀ q, r.Within q → (s'.table r q ≠ none ↔ s.table r q ≠ none ∨ q ∈ tablePaths page)

/-- The pages have been mapped from `s`, and have cost what they cost. -/
structure Charged (r : PageRegion) (pages : List ℕ) (s s' : Machine) : Prop where
  free : s'.frames.freeFrames + s.mappingCost r pages = s.frames.freeFrames
  tables : ∀ q, r.Within q → (s'.table r q ≠ none ↔ s.table r q ≠ none ∨ q ∈ pagesTables pages)

theorem Charged.refl : Charged r [] s s where
  free := rfl
  tables q _ := by simp [pagesTables]

theorem mem_missingTables :
    q ∈ s.missingTables r pages ↔ q ∈ pagesTables pages ∧ s.table r q = none := by
  unfold Machine.missingTables
  rw [Finset.mem_filter, List.mem_toFinset]

theorem within_tablePaths (h : r.Within (pagePath page)) (hq : q ∈ tablePaths page) :
    r.Within q := by
  unfold tablePaths at hq
  simp only [List.mem_cons, List.not_mem_nil, or_false] at hq
  rcases hq with rfl | rfl | rfl
  · exact h.take 1
  · exact h.take 2
  · exact h

theorem nodup_tablePaths (page : ℕ) : (tablePaths page).Nodup := by
  apply List.Nodup.of_map List.length
  unfold tablePaths pagePath
  simp

theorem missing_eq_card :
    s.missing r page = ((tablePaths page).toFinset.filter fun q ↦ s.table r q = none).card := by
  unfold Machine.missing
  have hfilter : (tablePaths page).toFinset.filter (fun q ↦ s.table r q = none) =
      ((tablePaths page).filter fun q ↦ (s.table r q).isNone).toFinset := by
    ext q
    simp
  rw [hfilter, List.toFinset_card_of_nodup ((nodup_tablePaths page).filter _),
    List.countP_eq_length_filter]
  rfl

theorem missing_congr (haddress : r.Within (pagePath page))
    (htables : ∀ q, r.Within q → t.table r q = s.table r q) :
    t.missing r page = s.missing r page := by
  unfold Machine.missing
  apply List.countP_congr
  intro q hq
  rw [htables q (within_tablePaths haddress hq)]

theorem Maps.tables_iff {entry : BitVec 64} (h : Maps r page entry s s') (q : List ℕ)
    (hq : r.Within q) : s'.table r q ≠ none ↔ s.table r q ≠ none ∨ q ∈ tablePaths page := by
  constructor
  · intro hn
    rcases h.grows.tables q hq with heq | ⟨-, hmade, -⟩
    · exact Or.inl (heq ▸ hn)
    · exact Or.inr hmade
  · rintro (hn | hmade)
    · obtain ⟨n, hn⟩ := Option.ne_none_iff_exists'.mp hn
      rw [h.grows.kept hq hn]
      exact fun h ↦ nomatch h
    · exact h.tables q hmade

theorem pagesTables_concat : pagesTables (pages ++ [page]) = pagesTables pages ++ tablePaths page := by
  unfold pagesTables
  rw [List.flatMap_append, List.flatMap_singleton]

theorem mappingCost_concat_of_mem (h : page ∈ pages) :
    s.mappingCost r (pages ++ [page]) = s.mappingCost r pages := by
  have hpages : (pages ++ [page]).toFinset = pages.toFinset := by
    ext other
    simp only [List.mem_toFinset, List.mem_append, List.mem_singleton]
    exact ⟨fun hother ↦ hother.elim id fun heq ↦ heq ▸ h, Or.inl⟩
  have htables : s.missingTables r (pages ++ [page]) = s.missingTables r pages := by
    ext q
    rw [mem_missingTables, mem_missingTables, pagesTables_concat, List.mem_append]
    refine and_congr_left fun _ ↦ ⟨fun hq ↦ hq.elim id fun hq ↦ ?_, Or.inl⟩
    exact mem_pagesTables.mpr ⟨page, h, hq⟩
  unfold Machine.mappingCost
  rw [hpages, htables]

theorem Charged.table_eq_none (h : Charged r pages s s') (hq : r.Within q) :
    s'.table r q = none ↔ s.table r q = none ∧ q ∉ pagesTables pages := by
  have htables := not_congr (h.tables q hq)
  rwa [not_or, not_not, not_not] at htables

theorem Charged.mappingCost_concat (h : Charged r pages s s') (hpage : page ∉ pages)
    (haddress : r.Within (pagePath page)) :
    s.mappingCost r (pages ++ [page]) = s.mappingCost r pages + (s'.missing r page + 1) := by
  have hpages : (pages ++ [page]).toFinset = insert page pages.toFinset := by
    ext other
    simp only [List.mem_toFinset, List.mem_append, List.mem_singleton, Finset.mem_insert]
    exact or_comm
  have htables : s.missingTables r (pages ++ [page]) = s.missingTables r pages ∪
      (tablePaths page).toFinset.filter fun q ↦ s'.table r q = none := by
    ext q
    rw [Finset.mem_union, mem_missingTables, mem_missingTables, pagesTables_concat,
      List.mem_append, Finset.mem_filter, List.mem_toFinset]
    constructor
    · rintro ⟨hq, hnone⟩
      by_cases hold : q ∈ pagesTables pages
      · exact Or.inl ⟨hold, hnone⟩
      · have hnew := hq.resolve_left hold
        exact Or.inr ⟨hnew, (h.table_eq_none (within_tablePaths haddress hnew)).mpr ⟨hnone, hold⟩⟩
    · rintro (⟨hold, hnone⟩ | ⟨hnew, hnone⟩)
      · exact ⟨Or.inl hold, hnone⟩
      · exact ⟨Or.inr hnew, ((h.table_eq_none (within_tablePaths haddress hnew)).mp hnone).1⟩
  have hdisjoint : Disjoint (s.missingTables r pages)
      ((tablePaths page).toFinset.filter fun q ↦ s'.table r q = none) := by
    rw [Finset.disjoint_left]
    intro q hold hnew
    rw [Finset.mem_filter, List.mem_toFinset] at hnew
    have hnone := (h.table_eq_none (within_tablePaths haddress hnew.1)).mp hnew.2
    exact hnone.2 (mem_missingTables.mp hold).1
  unfold Machine.mappingCost
  rw [hpages, htables, Finset.card_insert_of_notMem (by simpa using hpage),
    Finset.card_union_of_disjoint hdisjoint, missing_eq_card]
  omega

theorem Charged.concat (h : Charged r pages s t) (h' : Spends r pages page t s')
    (haddress : r.Within (pagePath page)) : Charged r (pages ++ [page]) s s' where
  free := by
    have hfree := h.free
    rcases h'.free with ⟨hold, heq⟩ | ⟨hnew, heq⟩
    · rw [mappingCost_concat_of_mem hold]
      omega
    · rw [h.mappingCost_concat hnew haddress]
      omega
  tables q hq := by
    rw [h'.tables q hq, h.tables q hq, pagesTables_concat, List.mem_append, or_assoc]

theorem mappingCost_mono {more : List ℕ} (h : pages ⊆ more) :
    s.mappingCost r pages ≤ s.mappingCost r more := by
  unfold Machine.mappingCost
  apply Nat.add_le_add
  · apply Finset.card_le_card
    intro page hpage
    rw [List.mem_toFinset] at hpage ⊢
    exact h hpage
  · apply Finset.card_le_card
    intro q hq
    rw [mem_missingTables] at hq ⊢
    obtain ⟨page, hpage, hq'⟩ := mem_pagesTables.mp hq.1
    exact ⟨mem_pagesTables.mpr ⟨page, h hpage, hq'⟩, hq.2⟩

theorem Charged.not_starves (h : Charged r pages s s') : ¬s.Starves r pages := by
  rintro ⟨k, -, -, hless⟩
  have hfree := h.free
  have hle : s.mappingCost r (pages.take (k + 1)) ≤ s.mappingCost r pages :=
    mappingCost_mono (List.take_subset _ _)
  omega

theorem Charged.not_starves_of_free {rest : List ℕ} (h : Charged r pages s s')
    (hfree : s'.frames.freeFrames = 0) : ¬s.Starves r (pages ++ rest) := by
  rintro ⟨k, -, hless, hmore⟩
  have hcost := h.free
  by_cases hk : k < pages.length
  · have hle : s.mappingCost r ((pages ++ rest).take (k + 1)) ≤ s.mappingCost r pages := by
      apply mappingCost_mono
      rw [List.take_append_of_le_length hk]
      exact List.take_subset _ _
    omega
  · have hle : s.mappingCost r pages ≤ s.mappingCost r ((pages ++ rest).take k) := by
      apply mappingCost_mono
      rw [List.take_append, List.take_of_length_le (by omega)]
      exact List.subset_append_left _ _
    omega

theorem Charged.lt_mappingCost {rest : List ℕ} (h : Charged r pages s s') (hpage : page ∉ pages)
    (haddress : r.Within (pagePath page)) (hfree : s'.frames.freeFrames = 0) :
    s.frames.freeFrames < s.mappingCost r (pages ++ page :: rest) := by
  have hcost := h.free
  have hnext := h.mappingCost_concat hpage haddress
  have hmono : s.mappingCost r (pages ++ [page]) ≤ s.mappingCost r (pages ++ page :: rest) := by
    apply mappingCost_mono
    simp
  omega

theorem Charged.starves {rest : List ℕ} (h : Charged r pages s s') (hpage : page ∉ pages)
    (haddress : r.Within (pagePath page)) (hfree : 0 < s'.frames.freeFrames)
    (hfew : s'.frames.freeFrames ≤ s'.missing r page) : s.Starves r (pages ++ page :: rest) := by
  have hcost := h.free
  have hnext := h.mappingCost_concat hpage haddress
  have hbefore : (pages ++ page :: rest).take pages.length = pages := List.take_left
  have hafter : (pages ++ page :: rest).take (pages.length + 1) = pages ++ [page] := by
    rw [List.take_length_add_append]
    rfl
  refine ⟨pages.length, by simp, ?_, ?_⟩
  · rw [hbefore]
    omega
  · rw [hafter]
    omega

end OxysOS.Mm
