import OxysOS.Library.Placement
import OxysOS.Mm.Frames

/-!
# The kernel arena

`kernel/mm/vmm.c`: which addresses of the arena are issued, and which are free to be issued again.
Whether there is a frame for each page, and whether each page is mapped, is given with the call.
The forfeited ranges are kept, where the source counts them.
-/

namespace OxysOS.Mm

open OxysOS.Library

def kernelArenaBase : ℕ := 0xFFFFC00000000000

def kernelArenaSize : ℕ := 0x0000200000000000

def arenaPageCapacity : ℕ := kernelArenaSize / pageSize

def arenaFreeListCapacity : ℕ := 128

structure ArenaFreeRange where
  base : ℕ
  pageCount : ℕ
  deriving DecidableEq

namespace ArenaFreeRange

/-- Where a range ends.  No range that was issued goes beyond the word. -/
def finish (range : ArenaFreeRange) : ℕ := range.base + range.pageCount * pageSize

def extend (range next : ArenaFreeRange) : ArenaFreeRange :=
  { range with pageCount := range.pageCount + next.pageCount }

/-- The ranges after one that ends where the first of them begins, with the two made one. -/
def joined (range : ArenaFreeRange) : List ArenaFreeRange → Option (List ArenaFreeRange)
  | next :: rest => if range.finish = next.base then some (range.extend next :: rest) else none
  | [] => none

/-- What a range and those after it become. -/
def beforeOf (range : ArenaFreeRange) (after : List ArenaFreeRange) : List ArenaFreeRange :=
  (range.joined after).getD (range :: after)

/-- What is left of a range when its first pages are taken. -/
def left (range : ArenaFreeRange) (pageCount : ℕ) : List ArenaFreeRange :=
  if range.pageCount = pageCount then []
  else [⟨range.base + pageCount * pageSize, range.pageCount - pageCount⟩]

end ArenaFreeRange

structure Arena where
  freeList : List ArenaFreeRange
  bumpPointer : ℕ
  forfeited : List ArenaFreeRange
  deriving DecidableEq

def kernelVirtualInitialise : Arena := ⟨[], kernelArenaBase, []⟩

def arenaFreeListInsert (range : ArenaFreeRange) (arena : Arena) : Arena :=
  let before := arena.freeList.takeWhile (·.base < range.base)
  let after := arena.freeList.dropWhile (·.base < range.base)
  match before.getLast?.filter (·.finish = range.base) with
  | some previous =>
      { arena with freeList := before.dropLast ++ (previous.extend range).beforeOf after }
  | none =>
      match range.joined after with
      | some after => { arena with freeList := before ++ after }
      | none =>
          if arenaFreeListCapacity ≤ arena.freeList.length then
            { arena with forfeited := range :: arena.forfeited }
          else { arena with freeList := before ++ range :: after }

/-- The answer is zero where no range is large enough. -/
def arenaFreeListTake (pageCount : ℕ) : List ArenaFreeRange → ℕ × List ArenaFreeRange
  | [] => (0, [])
  | range :: rest =>
      if pageCount ≤ range.pageCount then (range.base, range.left pageCount ++ rest)
      else ((arenaFreeListTake pageCount rest).1, range :: (arenaFreeListTake pageCount rest).2)

/-- What `KernelPagesAllocate` and `KernelDeviceMap` do for the addresses of so many pages. -/
def arenaClaim (pageCount : ℕ) (arena : Arena) : Option ℕ × Arena :=
  let (base, freeList) := arenaFreeListTake pageCount arena.freeList
  let arena := { arena with freeList }
  if base ≠ 0 then (some base, arena)
  else
    let finish := (arena.bumpPointer + pageCount * pageSize) % 2 ^ 64
    if kernelArenaBase + kernelArenaSize < finish then (none, arena)
    else (some arena.bumpPointer, { arena with bumpPointer := finish })

def kernelPagesAllocate (pageCount : ℕ) (frames : Bool) (arena : Arena) : Option ℕ × Arena :=
  if pageCount = 0 ∨ arenaPageCapacity < pageCount then (none, arena)
  else
    match arenaClaim pageCount arena with
    | (none, arena) => (none, arena)
    | (some base, arena) =>
        if frames then (some base, arena) else (none, arenaFreeListInsert ⟨base, pageCount⟩ arena)

/-- A panic is `none`. -/
def kernelPagesFree (address pageCount : ℕ) (mapped : Bool) (arena : Arena) : Option Arena :=
  if address = 0 ∨ pageCount = 0 then some arena
  else if address < kernelArenaBase ∨ kernelArenaBase + kernelArenaSize ≤ address then none
  else if (kernelArenaBase + kernelArenaSize - address) / pageSize < pageCount then none
  else if ¬isPageAligned address then none
  else if ¬mapped then none
  else some (arenaFreeListInsert ⟨address, pageCount⟩ arena)

/-- The pages that so many bytes of a device stand in. -/
def deviceRange (address length : ℕ) : ArenaFreeRange where
  base := address - address % pageSize
  pageCount := (length + address % pageSize + (pageSize - 1)) % 2 ^ 64 / pageSize

def kernelDeviceMap (physicalAddress length : ℕ) (arena : Arena) : Option ℕ × Arena :=
  let pageCount := (deviceRange physicalAddress length).pageCount
  if length = 0 ∨ kernelArenaSize - pageSize < length then (none, arena)
  else if pageCount = 0 ∨ arenaPageCapacity < pageCount then (none, arena)
  else
    let (base, arena) := arenaClaim pageCount arena
    (base.map (· + physicalAddress % pageSize), arena)

def kernelDeviceUnmap (address length : ℕ) (arena : Arena) : Arena :=
  if address = 0 ∨ length = 0 then arena
  else arenaFreeListInsert (deviceRange address length) arena

variable {range next : ArenaFreeRange} {before after due : List ArenaFreeRange}
  {arena arena' : Arena} {pageCount : ℕ}

namespace ArenaFreeRange

/-- Not empty, and of whole pages. -/
def Paged (range : ArenaFreeRange) : Prop := 0 < range.pageCount ∧ pageSize ∣ range.base

theorem Paged.lt_finish (h : range.Paged) : range.base < range.finish :=
  Nat.lt_add_of_pos_right (Nat.mul_pos h.1 (by decide))

theorem base_le_finish (range : ArenaFreeRange) : range.base ≤ range.finish := Nat.le_add_right _ _

theorem finish_extend (h : range.finish = next.base) : (range.extend next).finish = next.finish := by
  unfold finish at h ⊢
  rw [← h, extend, Nat.add_mul, Nat.add_assoc]

theorem covers_extend (h : range.finish = next.base) (x : ℕ) :
    covers base finish (range.extend next :: after) x =
      covers base finish (range :: next :: after) x := by
  have hrange := range.base_le_finish
  have hnext := next.base_le_finish
  have hbase : (range.extend next).base = range.base := rfl
  simp only [covers_cons, finish_extend h, hbase]
  split_ifs <;> omega

theorem beforeOf_cases (range : ArenaFreeRange) (after : List ArenaFreeRange) :
    (∃ next rest, after = next :: rest ∧ range.finish = next.base ∧
      range.beforeOf after = range.extend next :: rest) ∨
    (∀ next rest, after = next :: rest → range.finish ≠ next.base) ∧
      range.beforeOf after = range :: after := by
  cases after with
  | nil => exact Or.inr ⟨fun _ _ hcons ↦ absurd hcons (List.cons_ne_nil _ _).symm, rfl⟩
  | cons next rest =>
      rw [beforeOf, joined]
      split_ifs with hmeet
      · exact Or.inl ⟨next, rest, rfl, hmeet, rfl⟩
      · refine Or.inr ⟨fun _ _ hcons ↦ ?_, rfl⟩
        rwa [← (List.cons.inj hcons).1]

theorem covers_beforeOf (range : ArenaFreeRange) (after : List ArenaFreeRange) (x : ℕ) :
    covers base finish (range.beforeOf after) x = covers base finish (range :: after) x := by
  rcases beforeOf_cases range after with ⟨next, rest, rfl, hmeet, hjoined⟩ | ⟨-, hjoined⟩
  · rw [hjoined, covers_extend hmeet]
  · rw [hjoined]

theorem left_cases (hle : pageCount ≤ range.pageCount) :
    range.pageCount = pageCount ∧ range.left pageCount = [] ∨
    ∃ last : ArenaFreeRange, range.left pageCount = [last] ∧ 0 < last.pageCount ∧
      last.base = range.base + pageCount * pageSize ∧ last.finish = range.finish := by
  unfold left
  split_ifs with hall
  · exact Or.inl ⟨hall, rfl⟩
  · refine Or.inr ⟨_, rfl, Nat.sub_pos_of_lt (by omega), rfl, ?_⟩
    obtain ⟨rest, hrest⟩ := Nat.exists_eq_add_of_le hle
    simp only [finish, hrest, Nat.add_sub_cancel_left, Nat.add_mul, Nat.add_assoc]

theorem covers_left (hle : pageCount ≤ range.pageCount) (x : ℕ) :
    covers base finish (⟨range.base, pageCount⟩ :: (range.left pageCount ++ after)) x =
      covers base finish (range :: after) x := by
  have htaken : (⟨range.base, pageCount⟩ : ArenaFreeRange).finish =
      range.base + pageCount * pageSize := rfl
  rcases left_cases hle with ⟨rfl, hleft⟩ | ⟨last, hleft, -, hbase, hfinish⟩
  · rw [hleft]
    rfl
  · have hlast := last.base_le_finish
    rw [hleft]
    simp only [covers_append, covers_cons, covers_nil, htaken, hbase, hfinish]
    split_ifs <;> omega

end ArenaFreeRange

open ArenaFreeRange

/-- The range, or the last before it and it made one, is joined with what comes after it, or it
is forfeited. -/
theorem arenaFreeListInsert_cases (range : ArenaFreeRange) (arena : Arena) :
    ∃ before after, before ++ after = arena.freeList ∧ (∀ free ∈ before, free.base < range.base) ∧
      (∀ next rest, after = next :: rest → range.base ≤ next.base) ∧
      ((∃ front previous, before = front ++ [previous] ∧ previous.finish = range.base ∧
          arenaFreeListInsert range arena =
            { arena with freeList := front ++ (previous.extend range).beforeOf after }) ∨
        (∀ front last, before = front ++ [last] → last.finish ≠ range.base) ∧
          arenaFreeListInsert range arena =
            { arena with freeList := before ++ range.beforeOf after } ∨
        arenaFreeListInsert range arena =
          { arena with forfeited := range :: arena.forfeited }) := by
  have hlow := List.all_eq_true.mp
    (List.all_takeWhile (p := (·.base < range.base)) (l := arena.freeList))
  have hhigh := List.head?_dropWhile_not (·.base < range.base) arena.freeList
  refine ⟨_, _, List.takeWhile_append_dropWhile,
    fun free hfree ↦ of_decide_eq_true (hlow free hfree),
    fun next rest hcons ↦ by simpa [hcons] using hhigh, ?_⟩
  unfold arenaFreeListInsert beforeOf
  generalize arena.freeList.takeWhile (·.base < range.base) = before
  generalize arena.freeList.dropWhile (·.base < range.base) = after
  dsimp only
  cases hlast : before.getLast?.filter (·.finish = range.base) with
  | some previous =>
      obtain ⟨hprevious, hmeet⟩ := Option.filter_eq_some_iff.mp hlast
      obtain ⟨front, rfl⟩ := List.getLast?_eq_some_iff.mp hprevious
      refine Or.inl ⟨front, previous, rfl, of_decide_eq_true hmeet, ?_⟩
      rw [List.dropLast_concat]
  | none =>
      have hapart : ∀ front last, before = front ++ [last] → last.finish ≠ range.base := by
        rintro front last rfl hmeet
        simp [hmeet] at hlast
      cases range.joined after with
      | some joined => exact Or.inr (Or.inl ⟨hapart, rfl⟩)
      | none =>
          dsimp only
          split_ifs
          · exact Or.inr (Or.inr rfl)
          · exact Or.inr (Or.inl ⟨hapart, rfl⟩)

theorem covers_insert (range : ArenaFreeRange) (arena : Arena) (x : ℕ) :
    covers base finish ((arenaFreeListInsert range arena).freeList ++
      (arenaFreeListInsert range arena).forfeited) x =
        covers base finish (range :: (arena.freeList ++ arena.forfeited)) x := by
  obtain ⟨before, after, hsplit, -, -, hcases⟩ := arenaFreeListInsert_cases range arena
  rcases hcases with ⟨front, previous, rfl, hmeet, hinsert⟩ | ⟨-, hinsert⟩ | hinsert
  · have hextend : covers base finish [previous.extend range] x =
      covers base finish [previous, range] x := covers_extend hmeet x
    simp only [covers_cons, covers_nil] at hextend
    rw [hinsert, ← hsplit]
    simp only [covers_append, covers_cons, covers_nil, covers_beforeOf]
    omega
  · rw [hinsert, ← hsplit]
    simp only [covers_append, covers_cons, covers_beforeOf]
    omega
  · rw [hinsert]
    simp only [covers_append, covers_cons]
    omega

/-- In order, and no two of them meet. -/
@[mk_iff] structure FreeRanges (ranges : List ArenaFreeRange) : Prop where
  paged : ∀ range ∈ ranges, range.Paged
  apart : ranges.Pairwise (·.finish < ·.base)

theorem freeRanges_append : FreeRanges (before ++ after) ↔ FreeRanges before ∧ FreeRanges after ∧
    ∀ free ∈ before, ∀ free' ∈ after, free.finish < free'.base := by
  simp only [freeRanges_iff, List.forall_mem_append, List.pairwise_append]
  tauto

theorem freeRanges_cons : FreeRanges (range :: after) ↔
    range.Paged ∧ FreeRanges after ∧ ∀ free ∈ after, range.finish < free.base := by
  simp only [freeRanges_iff, List.forall_mem_cons, List.pairwise_cons]
  tauto

namespace FreeRanges

theorem beforeOf (hpaged : range.Paged) (hafter : FreeRanges after)
    (hend : ∀ free ∈ after, range.finish ≤ free.base) :
    FreeRanges (range.beforeOf after) ∧ ∀ free ∈ range.beforeOf after, range.base ≤ free.base := by
  have hle : ∀ free ∈ after, range.base ≤ free.base :=
    fun free hfree ↦ hpaged.lt_finish.le.trans (hend free hfree)
  rcases beforeOf_cases range after with ⟨next, rest, rfl, hmeet, hjoined⟩ | ⟨hmeet, hjoined⟩
  · rw [freeRanges_cons] at hafter
    rw [hjoined, freeRanges_cons, finish_extend hmeet]
    rw [List.forall_mem_cons] at hle ⊢
    exact ⟨⟨⟨Nat.add_pos_left hpaged.1 _, hpaged.2⟩, hafter.2⟩, le_rfl, hle.2⟩
  · rw [hjoined, freeRanges_cons, List.forall_mem_cons]
    refine ⟨⟨hpaged, hafter, ?_⟩, le_rfl, hle⟩
    cases after with
    | nil => exact List.forall_mem_nil _
    | cons next rest =>
        obtain ⟨hnext, -, hapart⟩ := freeRanges_cons.mp hafter
        rw [List.forall_mem_cons] at hend ⊢
        refine ⟨hend.1.lt_of_ne (hmeet next rest rfl), fun free hfree ↦ ?_⟩
        exact hend.1.trans_lt (hnext.lt_finish.trans (hapart free hfree))

/-- What comes before a place and does not end at it ends before it. -/
theorem finish_lt (h : FreeRanges before) {place : ℕ}
    (hend : ∀ free ∈ before, free.finish ≤ place)
    (hmeet : ∀ front last, before = front ++ [last] → last.finish ≠ place) :
    ∀ free ∈ before, free.finish < place := by
  rcases List.eq_nil_or_concat before with rfl | ⟨front, last, rfl⟩
  · exact List.forall_mem_nil _
  · rw [List.concat_eq_append] at *
    have hlast : last.finish < place := (hend last (by simp)).lt_of_ne (hmeet front last rfl)
    obtain ⟨-, -, hacross⟩ := freeRanges_append.mp h
    refine List.forall_mem_append.mpr ⟨fun free hfree ↦ ?_, by simpa using hlast⟩
    exact (hacross free hfree last (List.mem_singleton_self _)).trans_le
      (last.base_le_finish.trans hlast.le)

/-- What comes after a place, and does not begin before a range there, begins where it ends or
later. -/
theorem le_base (h : FreeRanges after) (hpaged : range.Paged)
    (hhead : ∀ next rest, after = next :: rest → range.base ≤ next.base)
    (hapart : ∀ free ∈ after, Apart range.base range.finish free.base free.finish) :
    ∀ free ∈ after, range.finish ≤ free.base := by
  have hle : ∀ free ∈ after, range.base ≤ free.base := by
    cases after with
    | nil => exact List.forall_mem_nil _
    | cons next rest =>
        obtain ⟨hnext, -, hacross⟩ := freeRanges_cons.mp h
        have hfirst := hhead next rest rfl
        refine List.forall_mem_cons.mpr ⟨hfirst, fun free hfree ↦ ?_⟩
        exact hfirst.trans (next.base_le_finish.trans (hacross free hfree).le)
  intro free hfree
  have hlt := (h.paged free hfree).lt_finish
  have hside := (apart_iff hpaged.lt_finish hlt).mp (hapart free hfree)
  have hstart := hle free hfree
  omega

theorem insert (hpaged : range.Paged) (hfree : FreeRanges arena.freeList)
    (hapart : ∀ free ∈ arena.freeList, Apart range.base range.finish free.base free.finish) :
    FreeRanges (arenaFreeListInsert range arena).freeList := by
  obtain ⟨before, after, hsplit, hlow, hhigh, hcases⟩ := arenaFreeListInsert_cases range arena
  rw [← hsplit] at hfree hapart
  obtain ⟨hfront, hback, hacross⟩ := freeRanges_append.mp hfree
  obtain ⟨hleft, hright⟩ := List.forall_mem_append.mp hapart
  have hend : ∀ free ∈ before, free.finish ≤ range.base := by
    intro free hmem
    have hbase := hlow free hmem
    have hlt := hpaged.lt_finish
    have hside := (apart_iff hlt (hfront.paged free hmem).lt_finish).mp (hleft free hmem)
    omega
  have hstart := hback.le_base hpaged hhigh hright
  rcases hcases with ⟨front, previous, rfl, hmeet, hinsert⟩ | ⟨hmeet, hinsert⟩ | hinsert
  · obtain ⟨hfront, hprevious, hfar⟩ := freeRanges_append.mp hfront
    have hextend : (previous.extend range).Paged :=
      ⟨Nat.add_pos_right _ hpaged.1, (hprevious.paged previous (by simp)).2⟩
    rw [← finish_extend hmeet] at hstart
    obtain ⟨hjoined, hle⟩ := hback.beforeOf hextend hstart
    rw [hinsert]
    refine freeRanges_append.mpr ⟨hfront, hjoined, fun free hmem free' hmem' ↦ ?_⟩
    exact (hfar free hmem previous (by simp)).trans_le (hle free' hmem')
  · obtain ⟨hjoined, hle⟩ := hback.beforeOf hpaged hstart
    rw [hinsert]
    refine freeRanges_append.mpr ⟨hfront, hjoined, fun free hmem free' hmem' ↦ ?_⟩
    exact (hfront.finish_lt hend hmeet free hmem).trans_le (hle free' hmem')
  · rw [hinsert, ← hsplit]
    exact hfree

theorem take {front rest : List ArenaFreeRange} (h : FreeRanges (front ++ range :: rest))
    (hle : pageCount ≤ range.pageCount) :
    FreeRanges (front ++ (range.left pageCount ++ rest)) := by
  obtain ⟨hfront, hback, hacross⟩ := freeRanges_append.mp h
  obtain ⟨hrange, hrest, hapart⟩ := freeRanges_cons.mp hback
  rcases left_cases hle with ⟨-, hleft⟩ | ⟨last, hleft, hpos, hbase, hfinish⟩
  · rw [hleft]
    exact freeRanges_append.mpr ⟨hfront, hrest, fun free hfree free' hrest ↦
      hacross free hfree free' (List.mem_cons_of_mem _ hrest)⟩
  · have haligned : pageSize ∣ last.base := by
      rw [hbase]
      exact Nat.dvd_add hrange.2 (Nat.dvd_mul_left _ _)
    rw [hleft]
    refine freeRanges_append.mpr ⟨hfront, freeRanges_cons.mpr ⟨⟨hpos, haligned⟩, hrest, ?_⟩, ?_⟩
    · rwa [hfinish]
    · intro free hfree
      rw [List.singleton_append, List.forall_mem_cons, hbase]
      obtain ⟨hlt, hfar⟩ := List.forall_mem_cons.mp (hacross free hfree)
      exact ⟨by omega, hfar⟩

end FreeRanges

theorem arenaFreeListTake_cases (pageCount : ℕ) (ranges : List ArenaFreeRange) :
    arenaFreeListTake pageCount ranges = (0, ranges) ∨
    ∃ front range rest, ranges = front ++ range :: rest ∧ pageCount ≤ range.pageCount ∧
      arenaFreeListTake pageCount ranges =
        (range.base, front ++ (range.left pageCount ++ rest)) := by
  induction ranges with
  | nil => exact Or.inl rfl
  | cons range rest ih =>
      rw [arenaFreeListTake]
      split_ifs with hlarge
      · exact Or.inr ⟨[], range, rest, rfl, hlarge, rfl⟩
      · rcases ih with htake | ⟨front, found, rest, rfl, hle, htake⟩
        · exact Or.inl (by rw [htake])
        · exact Or.inr ⟨range :: front, found, rest, rfl, hle, by rw [htake]; rfl⟩

/-- Each address that was ever issued is in one range that is due back, free or forfeited. -/
structure ArenaLedger (arena : Arena) (due : List ArenaFreeRange) : Prop where
  issued : ∀ x, covers base finish (due ++ (arena.freeList ++ arena.forfeited)) x =
    if kernelArenaBase ≤ x ∧ x < arena.bumpPointer then 1 else 0
  bump : kernelArenaBase ≤ arena.bumpPointer ∧
    arena.bumpPointer ≤ kernelArenaBase + kernelArenaSize ∧ pageSize ∣ arena.bumpPointer
  paged : ∀ range ∈ due, range.Paged
  free : FreeRanges arena.freeList

/-- What the guard relies upon: that the arena is not all issued, or not all of it asked for. -/
def Arena.Room (arena : Arena) (pageCount : ℕ) : Prop :=
  arena.bumpPointer < kernelArenaBase + kernelArenaSize ∨ pageCount < arenaPageCapacity

/-- Without room the guard's own sum wraps. -/
example : arenaClaim arenaPageCapacity ⟨[], kernelArenaBase + kernelArenaSize, []⟩ =
    (some (kernelArenaBase + kernelArenaSize), ⟨[], 0, []⟩) := by decide

namespace ArenaLedger

theorem within (h : ArenaLedger arena due) (hpaged : range.Paged)
    (hrange : range ∈ due ++ (arena.freeList ++ arena.forfeited)) :
    kernelArenaBase ≤ range.base ∧ range.finish ≤ arena.bumpPointer := by
  have hlt := hpaged.lt_finish
  have hfirst : 0 < covers base finish _ range.base := covers_pos hrange le_rfl hlt
  have hlast : 0 < covers base finish _ (range.finish - 1) :=
    covers_pos hrange (Nat.le_sub_one_of_lt hlt) (Nat.sub_one_lt_of_lt hlt)
  rw [h.issued] at hfirst hlast
  split_ifs at hfirst hlast <;> omega

theorem perm (h : ArenaLedger arena due) {due' : List ArenaFreeRange} (hdue : due.Perm due') :
    ArenaLedger arena due' := by
  refine ⟨fun x ↦ ?_, h.bump, fun range hrange ↦ h.paged range (hdue.mem_iff.mpr hrange), h.free⟩
  rw [← h.issued x]
  exact ((hdue.append_right _).countP_eq _).symm

theorem insert (h : ArenaLedger arena (range :: due)) :
    ArenaLedger (arenaFreeListInsert range arena) due := by
  obtain ⟨hrange, hdue⟩ := List.forall_mem_cons.mp h.paged
  have hapart : ∀ free ∈ arena.freeList,
      Apart range.base range.finish free.base free.finish := by
    intro free hfree
    refine apart_of_covers (fun x ↦ (h.issued x).le.trans ?_)
      (List.mem_append_right due (List.mem_append_left arena.forfeited hfree))
    split_ifs <;> omega
  have hbump : (arenaFreeListInsert range arena).bumpPointer = arena.bumpPointer := by
    obtain ⟨_, _, -, -, -, ⟨_, _, -, -, hinsert⟩ | ⟨-, hinsert⟩ | hinsert⟩ :=
      arenaFreeListInsert_cases range arena <;> rw [hinsert]
  refine ⟨fun x ↦ ?_, hbump ▸ h.bump, hdue, h.free.insert hrange hapart⟩
  have hinsert := covers_insert range arena x
  rw [hbump, ← h.issued]
  simp only [covers_cons, covers_append, List.cons_append] at hinsert ⊢
  omega

/-- Pages that were never issued are issued. -/
theorem advance (h : ArenaLedger arena due) (hpos : 0 < pageCount)
    (hle : arena.bumpPointer + pageCount * pageSize ≤ kernelArenaBase + kernelArenaSize) :
    ArenaLedger { arena with bumpPointer := arena.bumpPointer + pageCount * pageSize }
      (⟨arena.bumpPointer, pageCount⟩ :: due) := by
  obtain ⟨hbase, -, haligned⟩ := h.bump
  refine ⟨fun x ↦ ?_, ⟨hbase.trans (Nat.le_add_right _ _), hle,
    Nat.dvd_add haligned (Nat.dvd_mul_left _ _)⟩,
    List.forall_mem_cons.mpr ⟨⟨hpos, haligned⟩, h.paged⟩, h.free⟩
  have hfinish : (⟨arena.bumpPointer, pageCount⟩ : ArenaFreeRange).finish =
    arena.bumpPointer + pageCount * pageSize := rfl
  have hissued := h.issued x
  simp only [List.cons_append, covers_cons, hfinish] at hissued ⊢
  split_ifs at hissued ⊢ <;> omega

theorem take (h : ArenaLedger arena due) (hpos : 0 < pageCount) {front rest}
    (hfree : arena.freeList = front ++ range :: rest) (hle : pageCount ≤ range.pageCount) :
    ArenaLedger { arena with freeList := front ++ (range.left pageCount ++ rest) }
      (⟨range.base, pageCount⟩ :: due) := by
  have hpaged : range.Paged := h.free.paged range (by simp [hfree])
  refine ⟨fun x ↦ ?_, h.bump, List.forall_mem_cons.mpr ⟨⟨hpos, hpaged.2⟩, h.paged⟩,
    (hfree ▸ h.free).take hle⟩
  have hleft := @covers_left range rest pageCount hle x
  rw [← h.issued, hfree]
  simp only [covers_cons, covers_append, List.cons_append] at hleft ⊢
  omega

theorem claim (h : ArenaLedger arena due) (hpos : 0 < pageCount)
    (hcapacity : pageCount ≤ arenaPageCapacity) (hroom : arena.Room pageCount) :
    ArenaLedger (arenaClaim pageCount arena).2
      (((arenaClaim pageCount arena).1.map (⟨·, pageCount⟩)).toList ++ due) := by
  unfold arenaClaim
  rcases arenaFreeListTake_cases pageCount arena.freeList with
    htake | ⟨front, range, rest, hfree, hle, htake⟩
  · have hsum : arena.bumpPointer + pageCount * pageSize < 2 ^ 64 := by
      obtain ⟨-, hbump, haligned⟩ := h.bump
      unfold Arena.Room at hroom
      simp only [kernelArenaBase, kernelArenaSize, arenaPageCapacity, pageSize] at *
      omega
    rw [htake]
    dsimp only
    rw [if_neg (by simp), Nat.mod_eq_of_lt hsum]
    split_ifs with hend
    · exact h
    · exact h.advance hpos (Nat.le_of_not_lt hend)
  · have hrange := h.free.paged range (by simp [hfree])
    have hbase := (h.within hrange (by simp [hfree])).1
    have hpos' : 0 < kernelArenaBase := by decide
    rw [htake]
    dsimp only
    rw [if_pos (by omega)]
    exact h.take hpos hfree hle

theorem kernelPagesFree_eq (h : ArenaLedger arena due) (hrange : range ∈ due) :
    kernelPagesFree range.base range.pageCount true arena =
      some (arenaFreeListInsert range arena) := by
  have hpaged := h.paged range hrange
  have hlt := hpaged.lt_finish
  have hcount := hpaged.1
  obtain ⟨hbase, hfinish⟩ := h.within hpaged (List.mem_append_left _ hrange)
  have hbump := h.bump.2.1
  have hpos : 0 < kernelArenaBase := by decide
  have hpages : range.pageCount ≤
      (kernelArenaBase + kernelArenaSize - range.base) / pageSize := by
    rw [Nat.le_div_iff_mul_le (by decide)]
    unfold finish at hfinish
    omega
  have haligned : isPageAligned range.base := by
    rw [isPageAligned, Nat.mod_eq_zero_of_dvd hpaged.2]
    rfl
  unfold kernelPagesFree
  rw [if_neg (by omega), if_neg (by omega), if_neg (by omega), if_neg (by simp [haligned]),
    if_neg (by simp)]

theorem release (h : ArenaLedger arena due) (hrange : range ∈ due) :
    ArenaLedger (arenaFreeListInsert range arena) (due.erase range) :=
  (h.perm (List.perm_cons_erase hrange)).insert

theorem allocate (h : ArenaLedger arena due) (frames : Bool) (hroom : arena.Room pageCount) :
    ArenaLedger (kernelPagesAllocate pageCount frames arena).2
      (((kernelPagesAllocate pageCount frames arena).1.map (⟨·, pageCount⟩)).toList ++ due) := by
  unfold kernelPagesAllocate
  by_cases hrefused : pageCount = 0 ∨ arenaPageCapacity < pageCount
  · rw [if_pos hrefused]
    exact h
  · have hclaim := h.claim (by omega) (by omega) hroom
    rw [if_neg hrefused]
    generalize arenaClaim pageCount arena = answer at hclaim ⊢
    obtain ⟨_ | base, claimed⟩ := answer
    · exact hclaim
    · cases frames with
      | true => exact hclaim
      | false => exact hclaim.insert

theorem map (h : ArenaLedger arena due) {physicalAddress length : ℕ}
    (hroom : arena.Room (deviceRange physicalAddress length).pageCount) :
    ArenaLedger (kernelDeviceMap physicalAddress length arena).2
      (((kernelDeviceMap physicalAddress length arena).1.map (deviceRange · length)).toList ++
        due) := by
  unfold kernelDeviceMap
  dsimp only
  split_ifs with hlength hcount
  · exact h
  · exact h
  · have hclaim := h.claim (by omega) (by omega) hroom
    generalize arenaClaim _ arena = answer at hclaim ⊢
    obtain ⟨_ | base, claimed⟩ := answer
    · exact hclaim
    · have hbase : pageSize ∣ base := (hclaim.paged _ (List.mem_cons_self)).2
      have hrange : deviceRange (base + physicalAddress % pageSize) length =
          ⟨base, (deviceRange physicalAddress length).pageCount⟩ := by
        obtain ⟨k, rfl⟩ := hbase
        simp [deviceRange]
      dsimp only [Option.map_some] at hclaim ⊢
      rw [hrange]
      exact hclaim

end ArenaLedger

/-- Calls in any order, each release of what is due back as it was issued.  A release that panics
does not return. -/
inductive ArenaRun : Arena → List ArenaFreeRange → Prop
  | initialise : ArenaRun kernelVirtualInitialise []
  | allocate (pageCount : ℕ) (frames : Bool) {arena : Arena} {due : List ArenaFreeRange}
      (h : ArenaRun arena due) (hroom : arena.Room pageCount) :
      ArenaRun (kernelPagesAllocate pageCount frames arena).2
        (((kernelPagesAllocate pageCount frames arena).1.map (⟨·, pageCount⟩)).toList ++ due)
  | free {arena arena' : Arena} {due : List ArenaFreeRange} {range : ArenaFreeRange}
      (h : ArenaRun arena due) (hdue : range ∈ due)
      (hfree : kernelPagesFree range.base range.pageCount true arena = some arena') :
      ArenaRun arena' (due.erase range)
  | map (physicalAddress length : ℕ) {arena : Arena} {due : List ArenaFreeRange}
      (h : ArenaRun arena due) (hroom : arena.Room (deviceRange physicalAddress length).pageCount) :
      ArenaRun (kernelDeviceMap physicalAddress length arena).2
        (((kernelDeviceMap physicalAddress length arena).1.map (deviceRange · length)).toList ++ due)
  | unmap {address length : ℕ} {arena : Arena} {due : List ArenaFreeRange} (h : ArenaRun arena due)
      (hlength : length ≠ 0) (hdue : deviceRange address length ∈ due) :
      ArenaRun (kernelDeviceUnmap address length arena) (due.erase (deviceRange address length))

theorem ArenaRun.ledger (h : ArenaRun arena due) : ArenaLedger arena due := by
  induction h with
  | initialise =>
      refine ⟨fun x ↦ ?_, by decide, List.forall_mem_nil _,
        ⟨List.forall_mem_nil _, List.Pairwise.nil⟩⟩
      exact (if_neg fun hx ↦ Nat.lt_irrefl _ (hx.1.trans_lt hx.2)).symm
  | allocate pageCount frames _ hroom ih => exact ih.allocate frames hroom
  | free _ hdue hfree ih =>
      rw [ih.kernelPagesFree_eq hdue] at hfree
      cases hfree
      exact ih.release hdue
  | map physicalAddress length _ hroom ih => exact ih.map hroom
  | @unmap address length arena due _ hlength hdue ih =>
      have hbase := (ih.within (ih.paged _ hdue) (List.mem_append_left _ hdue)).1
      have haddress : address ≠ 0 := by
        rintro rfl
        simp [deviceRange, kernelArenaBase] at hbase
      rw [kernelDeviceUnmap, if_neg (by omega)]
      exact ih.release hdue

/-- In every run each address that was ever issued is in one range that is due back, free or
forfeited, the free ranges are in order and none meets the next, and what is due back can be
given back. -/
theorem arena_runs (h : ArenaRun arena due) : ArenaLedger arena due ∧
    ∀ range ∈ due, kernelPagesFree range.base range.pageCount true arena ≠ none := by
  refine ⟨h.ledger, fun range hrange hnone ↦ ?_⟩
  rw [h.ledger.kernelPagesFree_eq hrange] at hnone
  cases hnone

theorem arena_runs_two : ArenaLedger ⟨[], kernelArenaBase + 3 * pageSize, []⟩
    [⟨kernelArenaBase + 2 * pageSize, 1⟩, ⟨kernelArenaBase, 2⟩] :=
  (arena_runs (.map 0x1000 4096 (.allocate 2 true .initialise (Or.inl (by decide)))
    (Or.inl (by decide)))).1

end OxysOS.Mm
