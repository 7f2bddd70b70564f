import OxysOS.Proc.ProcessPages

/-!
# The loops over the pages of the stack and of the heap
-/

namespace OxysOS.Proc

open OxysOS.Library OxysOS.Mm OxysOS.Exec Action

variable {x x' : Running} {page address f n count : ℕ} {fixed heap : ℕ → Prop}

def PageRange (page count q : ℕ) : Prop := ∃ i, i < count ∧ q = page + i * pageSize

theorem pageRange_succ {q : ℕ} :
    PageRange page (count + 1) q ↔ q = page ∨ PageRange (page + pageSize) count q := by
  unfold PageRange
  constructor
  · rintro ⟨i, hi, rfl⟩
    cases i with
    | zero => exact Or.inl (by rw [Nat.zero_mul, Nat.add_zero])
    | succ i => exact Or.inr ⟨i, by omega, by rw [Nat.add_mul]; omega⟩
  · rintro (rfl | ⟨i, hi, rfl⟩)
    · exact ⟨0, Nat.succ_pos count, by rw [Nat.zero_mul, Nat.add_zero]⟩
    · exact ⟨i + 1, by omega, by rw [Nat.add_mul]; omega⟩

theorem PageRange.lt {q : ℕ} (h : PageRange page count q) : page ≤ q := by
  obtain ⟨i, -, rfl⟩ := h
  exact Nat.le_add_right _ _

theorem not_pageRange_self : ¬PageRange (page + pageSize) count page := by
  intro h
  have hle := h.lt
  unfold pageSize at hle
  omega

theorem room_weaken {fixed' heap' : ℕ → Prop} (h : Room fixed heap page)
    (hfixed : fixed' page → fixed page) (hheap : heap' page → heap page) : Room fixed' heap' page where
  aligned := h.aligned
  high := h.high
  fixed := mt hfixed h.fixed
  heap := mt hheap h.heap
  guard := h.guard

structure StackMapped (fixed heap : ℕ → Prop) (page count : ℕ) (x x' : Running)
    (frames : Option (List ℕ)) : Prop where
  harmless : Harmless x'
  standing : Standing (fun q ↦ fixed q ∨ PageRange page count q) heap x'
  like : x.process.Like x'.process
  owned : ∀ n, Private x.user x.machine n → Private x'.user x'.machine n
  frames : ∀ list, frames = some list → list.length = count ∧
    ∀ frame ∈ list, ∃ f, frame = f * pageSize ∧ Private x'.user x'.machine f

theorem Gains.owned (h : Gains page f x x') (hown : Private x.user x.machine n) :
    Private x'.user x'.machine n := by
  rw [h.user]
  exact h.others n hown

theorem Gains.new (h : Gains page f x x') : Private x'.user x'.machine f := by
  rw [h.user]
  exact h.own

theorem processMapStackPages_cases (h : Standing fixed heap x) (hlog : Harmless x)
    (hroom : ∀ q, PageRange page count q → Room fixed heap q) :
    (∃ text x', outcome (processMapStackPages count page) x = (.error text, x') ∧ Harmless x') ∨
    ∃ frames x', outcome (processMapStackPages count page) x = (.ok frames, x') ∧
      StackMapped fixed heap page count x x' frames := by
  induction count generalizing page fixed x with
  | zero =>
      right
      refine ⟨some [], x, rfl, hlog, h.mono fun q ↦ Or.inl, Process.Like.refl _, fun n ↦ id, ?_⟩
      intro list hlist
      cases hlist
      exact ⟨rfl, fun frame hframe ↦ by cases hframe⟩
  | succ count ih =>
      have hthis := hroom page (pageRange_succ.mpr (Or.inl rfl))
      rw [processMapStackPages, outcome_bind]
      rcases processMapZeroedPage_cases h.hierarchy hthis.high with
        ⟨-, heq⟩ | ⟨text, x1, heq, hmappings, -⟩ | ⟨f, x1, heq, hpositive, hgains⟩
      · right
        rw [heq]
        refine ⟨none, x, rfl, hlog, h.mono fun q ↦ Or.inl, Process.Like.refl _, fun n ↦ id, ?_⟩
        intro list hlist
        cases hlist
      · left
        rw [heq]
        exact ⟨text, x1, rfl, h.harmless hthis hlog hmappings⟩
      · have hstanding := h.gain_fixed hthis hgains
        have hlog' := h.harmless hthis hlog hgains.mappings
        rw [heq]
        dsimp only
        rw [if_neg hpositive, outcome_bind]
        rcases ih hstanding hlog' (fun q (hq : PageRange (page + pageSize) count q) ↦ by
            apply room_weaken (hroom q (pageRange_succ.mpr (Or.inr hq)))
            · rintro (hq' | rfl)
              · exact hq'
              · exact absurd hq not_pageRange_self
            · exact id) with ⟨text, x2, heq', hlog2⟩ | ⟨frames, x2, heq', hmapped⟩
        · left
          rw [heq']
          exact ⟨text, x2, rfl, hlog2⟩
        · right
          have hstanding2 : Standing (fun q ↦ fixed q ∨ PageRange page (count + 1) q) heap x2 := by
            apply hmapped.standing.mono
            rintro q ((hq | rfl) | hq)
            · exact Or.inl hq
            · exact Or.inr (pageRange_succ.mpr (Or.inl rfl))
            · exact Or.inr (pageRange_succ.mpr (Or.inr hq))
          have howned : ∀ n, Private x.user x.machine n → Private x2.user x2.machine n :=
            fun n hn ↦ hmapped.owned n (hgains.owned hn)
          rw [heq']
          dsimp only
          cases frames with
          | none =>
              refine ⟨none, x2, rfl, hmapped.harmless, hstanding2,
                hgains.like.trans hmapped.like, howned, ?_⟩
              intro list hlist
              cases hlist
          | some frames =>
              refine ⟨some (f * pageSize :: frames), x2, rfl, hmapped.harmless, hstanding2,
                hgains.like.trans hmapped.like, howned, ?_⟩
              intro list hlist
              cases hlist
              obtain ⟨hlength, hframes⟩ := hmapped.frames frames rfl
              refine ⟨by rw [List.length_cons, hlength], fun frame hframe ↦ ?_⟩
              rcases List.mem_cons.mp hframe with rfl | hframe
              · exact ⟨f, rfl, hmapped.owned f hgains.new⟩
              · exact hframes frame hframe

structure Sustained (mapped : ℕ → Prop) (x x' : Running) : Prop where
  hierarchy : Hierarchy x'.user x'.machine
  space : x'.process.space = x.process.space
  leaf : ∀ address, address < 2 ^ 47 → ¬mapped (alignDown address) → x'.leaf address = x.leaf address
  own : ∀ n, Private x.user x.machine n → Private x'.user x'.machine n
  memory : ∀ n, Private x.user x.machine n → x'.machine.memory n = x.machine.memory n

theorem missing_le (s : Machine) (r : PageRegion) (address : ℕ) : s.missing r address ≤ 3 := by
  unfold Machine.missing
  exact List.countP_le_length

theorem Gains.hierarchy' (h : Gains page f x x') : Hierarchy x'.user x'.machine := by
  rw [h.user]
  exact h.hierarchy

theorem processMapStackPages_made (h : Hierarchy x.user x.machine)
    (hpages : ∀ q, PageRange page count q → q % pageSize = 0 ∧ q < 2 ^ 47)
    (hfree : 4 * count ≤ x.machine.frames.freeFrames) :
    ∃ frames x', outcome (processMapStackPages count page) x = (.ok (some frames), x') ∧
      Sustained (PageRange page count) x x' := by
  induction count generalizing page x with
  | zero => exact ⟨[], x, rfl, h, rfl, fun _ _ _ ↦ rfl, fun _ ↦ id, fun _ _ ↦ rfl⟩
  | succ count ih =>
      obtain ⟨haligned, hhigh⟩ := hpages page (pageRange_succ.mpr (Or.inl rfl))
      have hfew := missing_le x.machine x.user page
      rw [processMapStackPages, outcome_bind]
      rcases processMapZeroedPage_cases h hhigh with
        ⟨hnone, -⟩ | ⟨text, x1, -, -, hless⟩ | ⟨f, x1, heq, hpositive, hgains⟩
      · omega
      · omega
      · have hspent := hgains.free
        obtain ⟨frames, x2, heq', hsustained⟩ := ih hgains.hierarchy'
          (fun q hq ↦ hpages q (pageRange_succ.mpr (Or.inr hq))) (by omega)
        rw [heq]
        dsimp only
        rw [if_neg hpositive, outcome_bind, heq']
        refine ⟨f * pageSize :: frames, x2, rfl, hsustained.hierarchy,
          hsustained.space.trans hgains.like.space, fun address haddress hnot ↦ ?_,
          fun n hn ↦ hsustained.own n (hgains.owned hn), fun n hn ↦ ?_⟩
        · rw [pageRange_succ, not_or] at hnot
          rw [hsustained.leaf address haddress hnot.2]
          unfold Running.leaf
          rw [hgains.user, hgains.leaf address haddress, if_neg]
          · rfl
          · rw [samePage_user haddress hhigh haligned]
            exact hnot.1
        · exact (hsustained.memory n (hgains.owned hn)).trans (hgains.memory n hn)

theorem Standing.heap_congr {heap' : ℕ → Prop} (h : Standing fixed heap x)
    (hheap : ∀ q, heap q ↔ heap' q) : Standing fixed heap' x := by
  have heq : heap = heap' := funext fun q ↦ propext (hheap q)
  rwa [← heq]

theorem processMapBreakPages_cases (h : Standing fixed heap x) (hlog : Harmless x)
    (hroom : ∀ q, PageRange page count q → Room fixed heap q) :
    (∃ text x', outcome (processMapBreakPages count page) x = (.error text, x') ∧ Harmless x') ∨
    (∃ x', outcome (processMapBreakPages count page) x = (.ok none, x') ∧ Harmless x' ∧
      x.process.Like x'.process ∧
      Standing fixed (fun q ↦ heap q ∨ PageRange page count q) x') ∨
    ∃ j x', j < count ∧
      outcome (processMapBreakPages count page) x = (.ok (some (page + j * pageSize)), x') ∧
      Harmless x' ∧ x.process.Like x'.process ∧
      Standing fixed (fun q ↦ heap q ∨ PageRange page j q) x' := by
  induction count generalizing page heap x with
  | zero =>
      right
      left
      refine ⟨x, rfl, hlog, Process.Like.refl _, h.heap_congr fun q ↦ ?_⟩
      exact ⟨Or.inl, fun hq ↦ hq.elim id fun ⟨i, hi, _⟩ ↦ absurd hi (Nat.not_lt_zero i)⟩
  | succ count ih =>
      have hthis := hroom page (pageRange_succ.mpr (Or.inl rfl))
      rw [processMapBreakPages, outcome_bind, processMapBreakPage, outcome_bind]
      rcases processMapZeroedPage_cases h.hierarchy hthis.high with
        ⟨-, heq⟩ | ⟨text, x1, heq, hmappings, -⟩ | ⟨f, x1, heq, hpositive, hgains⟩
      · right
        right
        rw [heq]
        refine ⟨0, x, Nat.succ_pos count, ?_, hlog, Process.Like.refl _, h.heap_congr fun q ↦ ?_⟩
        · rw [Nat.zero_mul, Nat.add_zero]
          rfl
        · exact ⟨Or.inl, fun hq ↦ hq.elim id fun ⟨i, hi, _⟩ ↦ absurd hi (Nat.not_lt_zero i)⟩
      · left
        rw [heq]
        exact ⟨text, x1, rfl, h.harmless hthis hlog hmappings⟩
      · have hstanding := h.gain_heap hthis hgains
        have hlog' := h.harmless hthis hlog hgains.mappings
        have hsplit : ∀ k q, (heap q ∨ q = page) ∨ PageRange (page + pageSize) k q ↔
            heap q ∨ PageRange page (k + 1) q := by
          intro k q
          rw [pageRange_succ, or_assoc]
        rw [heq]
        dsimp only
        rw [outcome_pure]
        dsimp only
        rw [if_pos (by simpa using hpositive)]
        rcases ih hstanding hlog' (fun q (hq : PageRange (page + pageSize) count q) ↦ by
            apply room_weaken (hroom q (pageRange_succ.mpr (Or.inr hq)))
            · exact id
            · rintro (hq' | rfl)
              · exact hq'
              · exact absurd hq not_pageRange_self) with
          ⟨text, x2, heq', hlog2⟩ | ⟨x2, heq', hlog2, hlike, hall⟩ |
          ⟨j, x2, hj, heq', hlog2, hlike, hpart⟩
        · exact Or.inl ⟨text, x2, heq', hlog2⟩
        · right
          left
          exact ⟨x2, heq', hlog2, hgains.like.trans hlike, hall.heap_congr (hsplit count)⟩
        · right
          right
          refine ⟨j + 1, x2, by omega, ?_, hlog2, hgains.like.trans hlike,
            hpart.heap_congr (hsplit j)⟩
          rw [heq', Nat.add_mul, Nat.one_mul, Nat.add_comm (j * pageSize), Nat.add_assoc]

theorem processUnmapBreakPages_eq (count page : ℕ) (h : Standing fixed heap x)
    (hpages : ∀ q, PageRange page count q → heap q) :
    ∃ x', outcome (processUnmapBreakPages count page) x = (.ok (), x') ∧
      x'.mappings = x.mappings ∧ x.process.Like x'.process ∧
      Standing fixed (fun q ↦ heap q ∧ ¬PageRange page count q) x' := by
  induction count generalizing page heap x with
  | zero =>
      refine ⟨x, rfl, rfl, Process.Like.refl _, h.heap_congr fun q ↦ ?_⟩
      exact ⟨fun hq ↦ ⟨hq, fun ⟨i, hi, _⟩ ↦ absurd hi (Nat.not_lt_zero i)⟩, And.left⟩
  | succ count ih =>
      obtain ⟨x1, heq, hmappings, hlike, hstanding⟩ :=
        h.lose (hpages page (pageRange_succ.mpr (Or.inl rfl)))
      obtain ⟨x2, heq', hmappings', hlike', hstanding'⟩ := ih _ hstanding
        (fun q hq ↦ ⟨hpages q (pageRange_succ.mpr (Or.inr hq)), by
          rintro rfl
          exact not_pageRange_self hq⟩)
      rw [processUnmapBreakPages, outcome_bind, heq]
      refine ⟨x2, heq', hmappings'.trans hmappings, hlike.trans hlike',
        hstanding'.heap_congr fun q ↦ ?_⟩
      rw [pageRange_succ, not_or, and_assoc]

end OxysOS.Proc
