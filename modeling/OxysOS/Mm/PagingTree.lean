import OxysOS.Library.Radix
import OxysOS.Mm.FrameSound
import OxysOS.Mm.PagingEntry

/-!
# The hierarchy of tables below a root

Part of a hierarchy is a range of the entries of its root.  Where its tables are
allocated frames, no frame is the table of two paths, and no entry upon the way
maps a large page, a page is mapped by making the tables that are missing and
writing one leaf.
-/

namespace OxysOS.Mm

open OxysOS.Library Action

structure PageRegion where
  root : ℕ
  low : ℕ
  high : ℕ
  rights : BitVec 64

def pageLink (entry : BitVec 64) : Option ℕ :=
  if entry &&& pageEntryPresent = 0 then none else some (frameIndexOf (entryAddress entry))

def pagePath (address : ℕ) : List ℕ :=
  [pagingLevel4Index address, pagingLevel3Index address, pagingLevel2Index address]

def PageRegion.Within (r : PageRegion) (path : List ℕ) : Prop :=
  path.length ≤ 3 ∧ (∀ i ∈ path, i < 512) ∧ ∀ i ∈ path.head?, r.low ≤ i ∧ i < r.high

namespace Machine

def table (s : Machine) (r : PageRegion) (path : List ℕ) : Option ℕ :=
  radixWalk pageLink s.slot (frameIndexOf r.root) path

def leafAt (s : Machine) (r : PageRegion) (path : List ℕ) (i : ℕ) : BitVec 64 :=
  (s.table r path).elim 0 fun n ↦ s.slot n i

def leaf (s : Machine) (r : PageRegion) (address : ℕ) : BitVec 64 :=
  s.leafAt r (pagePath address) (pagingLevel1Index address)

def missing (s : Machine) (r : PageRegion) (address : ℕ) : ℕ :=
  [(pagePath address).take 1, (pagePath address).take 2, pagePath address].countP
    fun path ↦ (s.table r path).isNone

end Machine

structure Hierarchy (r : PageRegion) (s : Machine) : Prop where
  tree : RadixTree pageLink s.slot (frameIndexOf r.root) r.Within
  used : ∀ p n, r.Within p → s.table r p = some n → s.frames.isUsed n = true
  plain : ∀ p i n, r.Within (p ++ [i]) → s.table r p = some n →
    s.slot n i &&& pageEntryPresent ≠ 0 → s.slot n i &&& pageEntryLarge = 0
  rights : ∀ p i n, r.Within (p ++ [i]) → s.table r p = some n →
    s.slot n i &&& pageEntryPresent ≠ 0 → s.slot n i &&& r.rights = r.rights
  sound : s.frames.Sound

structure Grows (r : PageRegion) (made : List ℕ → Prop) (s s' : Machine) : Prop where
  hierarchy : Hierarchy r s'
  tables : ∀ q, r.Within q → s'.table r q = s.table r q ∨
    (s.table r q = none ∧ made q ∧ ∃ n, s'.table r q = some n ∧ s.frames.isUsed n = false)
  data : ∀ f, s.frames.isUsed f = true → (∀ q, r.Within q → s.table r q ≠ some f) →
    s'.memory f = s.memory f
  outside : ∀ i, i < r.low ∨ r.high ≤ i →
    s'.slot (frameIndexOf r.root) i = s.slot (frameIndexOf r.root) i
  used : ∀ f, s.frames.isUsed f = true → s'.frames.isUsed f = true
  fresh : ∀ f, s.frames.isUsed f = false → s'.frames.isUsed f = true →
    ∃ q, r.Within q ∧ s'.table r q = some f
  holders : ∀ f, s.frames.isUsed f = true → s'.frames.holders f = s.frames.holders f
  frameCount : s'.frames.frameCount = s.frames.frameCount
  kernelRoot : s'.kernelRoot = s.kernelRoot
  activeRoot : s'.activeRoot = s.activeRoot

def SameLeaves (r : PageRegion) (s s' : Machine) : Prop :=
  ∀ q i, r.Within q → q.length = 3 → s'.leafAt r q i = s.leafAt r q i

variable {r : PageRegion} {s s' s'' : Machine} {made made' : List ℕ → Prop} {p q : List ℕ}
  {i n address physical : ℕ} {flags entry : BitVec 64}

theorem PageRegion.Within.shorter (h : r.Within (p ++ [i])) : r.Within p := by
  obtain ⟨hlength, hindices, hhead⟩ := h
  refine ⟨?_, fun j hj ↦ hindices j (by simp [hj]), ?_⟩
  · rw [List.length_append] at hlength
    omega
  · cases p with
    | nil => exact fun _ h ↦ nomatch h
    | cons j p => exact hhead

theorem PageRegion.Within.take (h : r.Within p) (k : ℕ) : r.Within (p.take k) := by
  obtain ⟨hlength, hindices, hhead⟩ := h
  refine ⟨?_, fun j hj ↦ hindices j (List.mem_of_mem_take hj), ?_⟩
  · exact (List.length_take_le' k p).trans hlength
  · cases p with
    | nil => simp
    | cons j p =>
        cases k with
        | zero => exact fun _ h ↦ nomatch h
        | succ k => exact hhead

def SamePage (address other : ℕ) : Prop :=
  address / 2 ^ 12 % 2 ^ 36 = other / 2 ^ 12 % 2 ^ 36

instance (address other : ℕ) : Decidable (SamePage address other) :=
  inferInstanceAs (Decidable (_ = _))

theorem samePage_iff (address other : ℕ) : SamePage address other ↔
    pagePath address = pagePath other ∧ pagingLevel1Index address = pagingLevel1Index other := by
  unfold SamePage pagePath pagingLevel4Index pagingLevel3Index pagingLevel2Index pagingLevel1Index
  simp only [List.cons.injEq, and_true]
  omega

theorem pageLink_eq_none : pageLink entry = none ↔ entry &&& pageEntryPresent = 0 := by
  unfold pageLink
  split <;> simp_all

theorem pageLink_of_present (h : entry &&& pageEntryPresent ≠ 0) :
    pageLink entry = some (frameIndexOf (entryAddress entry)) := if_neg h

theorem Machine.table_concat : s.table r (p ++ [i]) =
    (s.table r p).bind fun n ↦ pageLink (s.slot n i) := radixWalk_concat

theorem Machine.leafAt_of_none (h : s.table r p = none) : s.leafAt r p i = 0 := by
  unfold leafAt
  rw [h, Option.elim_none]

theorem Machine.leafAt_of_some (h : s.table r p = some n) : s.leafAt r p i = s.slot n i := by
  unfold leafAt
  rw [h, Option.elim_some]

theorem PageRegion.within_nil (r : PageRegion) : r.Within [] :=
  ⟨Nat.zero_le _, fun _ h ↦ by simp at h, fun _ h ↦ by simp at h⟩

theorem Hierarchy.ne_outside {j : ℕ} (h : Hierarchy r s) (hpath : r.Within (p ++ [i]))
    (hp : s.table r p = some n) (hj : j < r.low ∨ r.high ≤ j) :
    ¬(frameIndexOf r.root = n ∧ j = i) := by
  rintro ⟨rfl, rfl⟩
  have hroot : p = [] := h.tree.apart p [] _ hpath.shorter r.within_nil hp rfl
  rw [hroot] at hpath
  have hin := hpath.2.2 j rfl
  omega

theorem Hierarchy.apart (h : Hierarchy r s) (hp : r.Within p) (hq : r.Within q)
    (hpn : s.table r p = some n) (hqn : s.table r q = some n) : p = q :=
  h.tree.apart p q n hp hq hpn hqn

namespace Grows

theorem refl (h : Hierarchy r s) : Grows r made s s where
  hierarchy := h
  tables _ _ := Or.inl rfl
  data _ _ _ := rfl
  outside _ _ := rfl
  used _ hf := hf
  fresh _ hclear hused := by
    rw [hclear] at hused
    cases hused
  holders _ _ := rfl
  frameCount := rfl
  kernelRoot := rfl
  activeRoot := rfl

theorem kept (h : Grows r made s s') (hq : r.Within q) (hn : s.table r q = some n) :
    s'.table r q = some n := by
  rcases h.tables q hq with heq | ⟨hnone, -⟩
  · rw [heq, hn]
  · rw [hn] at hnone
    cases hnone

theorem old (h : Grows r made s s') (hq : r.Within q) (hn : s'.table r q = some n)
    (hused : s.frames.isUsed n = true) : s.table r q = some n := by
  rcases h.tables q hq with heq | ⟨-, -, m, hm, hclear⟩
  · rw [← heq, hn]
  · rw [hn] at hm
    cases hm
    rw [hclear] at hused
    cases hused

theorem trans (h : Grows r made s s') (h' : Grows r made' s' s'') :
    Grows r (fun q ↦ made q ∨ made' q) s s'' where
  hierarchy := h'.hierarchy
  tables q hq := by
    rcases h'.tables q hq with heq' | ⟨hnone', hmade', n, hn, hclear⟩
    · rcases h.tables q hq with heq | ⟨hnone, hmade, n, hn, hclear⟩
      · exact Or.inl (heq'.trans heq)
      · exact Or.inr ⟨hnone, Or.inl hmade, n, heq'.trans hn, hclear⟩
    · right
      have hnone : s.table r q = none := by
        by_contra hne
        obtain ⟨m, hm⟩ := Option.ne_none_iff_exists'.mp hne
        rw [h.kept hq hm] at hnone'
        cases hnone'
      refine ⟨hnone, Or.inr hmade', n, hn, ?_⟩
      by_contra hused
      have hstill := h.used n (by simpa using hused)
      rw [hclear] at hstill
      cases hstill
  data f hf hnot := by
    rw [h'.data f (h.used f hf) fun q hq hn ↦ hnot q hq (h.old hq hn hf), h.data f hf hnot]
  outside i hi := (h'.outside i hi).trans (h.outside i hi)
  used f hf := h'.used f (h.used f hf)
  fresh f hclear hused := by
    by_cases hmiddle : s'.frames.isUsed f = true
    · obtain ⟨q, hq, hn⟩ := h.fresh f hclear hmiddle
      exact ⟨q, hq, h'.kept hq hn⟩
    · exact h'.fresh f (by simpa using hmiddle) hused
  holders f hf := by rw [h'.holders f (h.used f hf), h.holders f hf]
  frameCount := h'.frameCount.trans h.frameCount
  kernelRoot := h'.kernelRoot.trans h.kernelRoot
  activeRoot := h'.activeRoot.trans h.activeRoot

theorem weaken (h : Grows r made s s') (hmade : ∀ q, made q → made' q) : Grows r made' s s' :=
  { h with
    tables := fun q hq ↦ (h.tables q hq).imp id fun ⟨hnone, hq', hrest⟩ ↦
      ⟨hnone, hmade q hq', hrest⟩ }

end Grows

def Machine.linkTable (s : Machine) (table i f : ℕ) (flags : BitVec 64) : Machine :=
  (({ s with frames := s.frames.issue f } : Machine).zeroFrame (f * pageSize)).writeEntry table i
    (BitVec.ofNat 64 (f * pageSize) ||| inheritedFlags flags)

theorem Machine.frames_linkTable {table f : ℕ} :
    (s.linkTable table i f flags).frames = s.frames.issue f := rfl

theorem Machine.roots_linkTable {table f : ℕ} :
    (s.linkTable table i f flags).kernelRoot = s.kernelRoot ∧
      (s.linkTable table i f flags).activeRoot = s.activeRoot := ⟨rfl, rfl⟩

theorem Machine.slot_linkTable {table f n j : ℕ} :
    (s.linkTable table i f flags).slot n j =
      if n = frameIndexOf table ∧ j = i then
        BitVec.ofNat 64 (f * pageSize) ||| inheritedFlags flags
      else if n = f then 0
      else s.slot n j := by
  unfold linkTable
  by_cases hhere : n = frameIndexOf table ∧ j = i
  · rw [if_pos hhere, hhere.1, hhere.2]
    exact slot_writeEntry_self ..
  · rw [if_neg hhere, slot_writeEntry_of_ne hhere]
    by_cases hnew : n = f
    · rw [if_pos hnew, hnew]
      have hzero := slot_zeroFrame_self { s with frames := s.frames.issue f } (f * pageSize) j
      rw [frameIndexOf_mul] at hzero
      exact hzero
    · rw [if_neg hnew]
      exact slot_zeroFrame_of_ne (by rwa [frameIndexOf_mul])

theorem Hierarchy.link {table f : ℕ} (h : Hierarchy r s) (hpath : r.Within (p ++ [i]))
    (hp : s.table r p = some (frameIndexOf table))
    (hempty : s.slot (frameIndexOf table) i &&& pageEntryPresent = 0)
    (hclear : s.frames.isUsed f = false) (hlow : frameIndexOf lowMemoryLimit ≤ f)
    (hrights : inheritedFlags flags &&& r.rights = r.rights) :
    Grows r (· = p ++ [i]) s (s.linkTable table i f flags) ∧
      SameLeaves r s (s.linkTable table i f flags) ∧
      ∀ q, r.Within q → (s.linkTable table i f flags).table r q =
        if q = p ++ [i] then some f else s.table r q := by
  generalize hs' : s.linkTable table i f flags = s'
  have hcount : f < s.frames.frameCount := h.sound.lt_of_clear hclear
  have hsmall : f < 2 ^ 40 := hcount.trans_le h.sound.machine
  have hne : f ≠ frameIndexOf table := by
    intro heq
    have hused := h.used p _ hpath.shorter hp
    rw [← heq, hclear] at hused
    cases hused
  have hslot : ∀ n j, s'.slot n j =
      if n = frameIndexOf table ∧ j = i then
        BitVec.ofNat 64 (f * pageSize) ||| inheritedFlags flags
      else if n = f then 0 else s.slot n j := by
    intro n j
    rw [← hs']
    exact Machine.slot_linkTable
  have hframes : s'.frames = s.frames.issue f := by rw [← hs', Machine.frames_linkTable]
  have hfresh : ∀ q, r.Within q → s.table r q ≠ some f := by
    intro q hq hn
    have hused := h.used q f hq hn
    rw [hclear] at hused
    cases hused
  have hlinks : RadixTree.Links pageLink s.slot s'.slot (frameIndexOf table) i f := by
    constructor
    · exact pageLink_eq_none.mpr hempty
    · rw [hslot, if_pos ⟨rfl, rfl⟩, pageLink_of_present, address_of_flags hsmall
        (inheritedFlags_address flags), frameIndexOf_mul]
      rw [and_or_of_and (inheritedFlags_present flags)]
      decide
    · intro j
      rw [hslot, if_neg (fun h ↦ hne h.1), if_pos rfl]
      exact pageLink_eq_none.mpr BitVec.zero_and
    · intro n j hn hhere
      rw [hslot, if_neg hhere, if_neg hn]
  have htable : ∀ q, r.Within q → s'.table r q = if q = p ++ [i] then some f else s.table r q :=
    fun q hq ↦ h.tree.walk_links hpath hp hfresh hlinks hq
  have hnone : s.table r (p ++ [i]) = none := by
    rw [Machine.table_concat, hp]
    exact pageLink_eq_none.mpr hempty
  -- An entry of a table of the new hierarchy is new, or was there.
  have hentry : ∀ q j n, r.Within (q ++ [j]) → s'.table r q = some n →
      s'.slot n j &&& pageEntryPresent ≠ 0 →
      s'.slot n j = BitVec.ofNat 64 (f * pageSize) ||| inheritedFlags flags ∨
        (s.table r q = some n ∧ s'.slot n j = s.slot n j) := by
    intro q j n hq hn hpresent
    rw [hslot] at hpresent ⊢
    rw [htable q hq.shorter] at hn
    split
    · exact Or.inl rfl
    · rename_i hhere
      rw [if_neg hhere] at hpresent
      split at hpresent
      · exact absurd BitVec.zero_and hpresent
      · rename_i hother
        right
        rw [if_neg hother]
        split at hn
        · exact absurd (Option.some.inj hn).symm hother
        · exact ⟨hn, rfl⟩
  have hused : ∀ n, s.frames.isUsed n = true → s'.frames.isUsed n = true := by
    intro n hn
    rw [hframes, FrameAllocator.isUsed_issue, hn, Bool.true_or]
  refine ⟨⟨⟨?_, ?_, ?_, ?_, ?_⟩, ?_, ?_, ?_, hused, ?_, ?_, ?_, ?_, ?_⟩, ?_, htable⟩
  · exact h.tree.links hpath hp hfresh hlinks
  · intro q n hq hn
    rw [htable q hq] at hn
    split at hn
    · cases hn
      rw [hframes, FrameAllocator.isUsed_issue]
      simp
    · exact hused n (h.used q n hq hn)
  · intro q j n hq hn hpresent
    rcases hentry q j n hq hn hpresent with heq | ⟨hold, heq⟩
    · rw [heq, or_and_of_zero (inheritedFlags_large flags)]
      exact frameAddress_and_large hsmall
    · rw [heq] at hpresent ⊢
      exact h.plain q j n hq hold hpresent
  · intro q j n hq hn hpresent
    rcases hentry q j n hq hn hpresent with heq | ⟨hold, heq⟩
    · rw [heq, and_or_of_and hrights]
    · rw [heq] at hpresent ⊢
      exact h.rights q j n hq hold hpresent
  · rw [hframes]
    exact h.sound.issue hlow
  · intro q hq
    by_cases hnew : q = p ++ [i]
    · right
      refine ⟨by rw [hnew, hnone], hnew, f, ?_, hclear⟩
      rw [htable q hq, if_pos hnew]
    · left
      rw [htable q hq, if_neg hnew]
  · intro n hn hnot
    have hntable : n ≠ frameIndexOf table := fun heq ↦ hnot p hpath.shorter (heq ▸ hp)
    have hnf : n ≠ f := by
      rintro rfl
      rw [hclear] at hn
      cases hn
    rw [← hs']
    exact (Machine.memory_writeEntry_of_ne hntable).trans
      (Machine.memory_zeroFrame_of_ne (by rwa [frameIndexOf_mul]))
  · intro j hj
    rw [hslot, if_neg (h.ne_outside hpath hp hj), if_neg]
    exact fun heq ↦ hfresh [] r.within_nil (congrArg some heq)
  · intro n hn hn'
    rw [hframes, FrameAllocator.isUsed_issue, hn, Bool.false_or, decide_eq_true_eq] at hn'
    refine ⟨p ++ [i], hpath, ?_⟩
    rw [htable _ hpath, if_pos rfl, hn']
  · intro n hn
    rw [hframes, FrameAllocator.holders_issue hcount, if_neg]
    rintro rfl
    rw [hclear] at hn
    cases hn
  · rw [hframes, FrameAllocator.frameCount_issue]
  · rw [← hs']
    exact Machine.roots_linkTable.1
  · rw [← hs']
    exact Machine.roots_linkTable.2
  · intro q j hq hlength
    have hq' := htable q hq
    by_cases hnew : q = p ++ [i]
    · rw [if_pos hnew] at hq'
      rw [Machine.leafAt_of_some hq', Machine.leafAt_of_none (hnew ▸ hnone), hslot,
        if_neg (fun h ↦ hne h.1), if_pos rfl]
    · rw [if_neg hnew] at hq'
      cases hn : s.table r q with
      | none => rw [Machine.leafAt_of_none (hq'.trans hn), Machine.leafAt_of_none hn]
      | some n =>
          rw [Machine.leafAt_of_some (hq'.trans hn), Machine.leafAt_of_some hn]
          have hnf : n ≠ f := fun heq ↦ hfresh q hq (heq ▸ hn)
          have hnt : n ≠ frameIndexOf table := by
            rintro rfl
            have hqp := h.apart hq hpath.shorter hn hp
            have hshort := hpath.1
            rw [List.length_append, ← hqp, hlength] at hshort
            simp at hshort
          rw [hslot, if_neg (fun h ↦ hnt h.1), if_neg hnf]

theorem Hierarchy.kept (s' : Machine) (h : Hierarchy r s)
    (hlink : ∀ q j n, r.Within (q ++ [j]) → s.table r q = some n →
      pageLink (s'.slot n j) = pageLink (s.slot n j))
    (hentry : ∀ q j n, r.Within (q ++ [j]) → s.table r q = some n →
      s'.slot n j &&& pageEntryPresent ≠ 0 →
        s'.slot n j &&& pageEntryLarge = 0 ∧ s'.slot n j &&& r.rights = r.rights)
    (hused : ∀ q n, r.Within q → s.table r q = some n → s'.frames.isUsed n = true)
    (hsound : s'.frames.Sound) :
    Hierarchy r s' ∧ ∀ q, r.Within q → s'.table r q = s.table r q := by
  have htable : ∀ q, r.Within q → s'.table r q = s.table r q :=
    fun q hq ↦ h.tree.walk_eq hlink hq
  refine ⟨⟨h.tree.of_walk_eq htable, ?_, ?_, ?_, hsound⟩, htable⟩
  · intro q n hq hn
    rw [htable q hq] at hn
    exact hused q n hq hn
  · intro q j n hq hn hpresent
    rw [htable q hq.shorter] at hn
    exact (hentry q j n hq hn hpresent).1
  · intro q j n hq hn hpresent
    rw [htable q hq.shorter] at hn
    exact (hentry q j n hq hn hpresent).2

theorem Hierarchy.grows_writeEntry {table : ℕ} (h : Hierarchy r (s.writeEntry table i entry))
    (htables : ∀ q, r.Within q → (s.writeEntry table i entry).table r q = s.table r q)
    (hp : r.Within p) (htable : s.table r p = some (frameIndexOf table))
    (hroot : ∀ j, j < r.low ∨ r.high ≤ j →
      ¬(frameIndexOf r.root = frameIndexOf table ∧ j = i)) :
    Grows r (fun _ ↦ False) s (s.writeEntry table i entry) := by
  have hframes : (s.writeEntry table i entry).frames = s.frames := Machine.frames_writeEntry
  refine ⟨h, fun q hq ↦ Or.inl (htables q hq), ?_, ?_, ?_, ?_, ?_, ?_, rfl, rfl⟩
  · intro n _ hnot
    exact Machine.memory_writeEntry_of_ne fun heq ↦ hnot p hp (heq ▸ htable)
  · intro j hj
    exact Machine.slot_writeEntry_of_ne (hroot j hj)
  · intro n hn
    rwa [hframes]
  · intro n hclear hused
    rw [hframes, hclear] at hused
    cases hused
  · intro n _
    rw [hframes]
  · rw [hframes]

theorem Hierarchy.permit {table : ℕ} (h : Hierarchy r s) (hpath : r.Within (p ++ [i]))
    (hp : s.table r p = some (frameIndexOf table))
    (flags : BitVec 64) (hentry : entry = s.entry table i ||| (flags &&& pageEntryUser)) :
    Grows r (fun _ ↦ False) s (s.writeEntry table i entry) ∧
      SameLeaves r s (s.writeEntry table i entry) ∧
      ∀ q, r.Within q → (s.writeEntry table i entry).table r q = s.table r q := by
  have hhere : (s.writeEntry table i entry).slot (frameIndexOf table) i =
      s.slot (frameIndexOf table) i ||| (flags &&& pageEntryUser) := by
    rw [Machine.slot_writeEntry_self, hentry]
    rfl
  have hothers : ∀ n j, ¬(n = frameIndexOf table ∧ j = i) →
      (s.writeEntry table i entry).slot n j = s.slot n j :=
    fun n j hne ↦ Machine.slot_writeEntry_of_ne hne
  have hframes : (s.writeEntry table i entry).frames = s.frames := Machine.frames_writeEntry
  have hlink : ∀ q j n, r.Within (q ++ [j]) → s.table r q = some n →
      pageLink ((s.writeEntry table i entry).slot n j) = pageLink (s.slot n j) := by
    intro q j n _ _
    by_cases hne : n = frameIndexOf table ∧ j = i
    · rw [hne.1, hne.2, hhere]
      unfold pageLink
      rw [present_or_user, address_or_user]
    · rw [hothers n j hne]
  have hlinked : ∀ q j n, r.Within (q ++ [j]) → s.table r q = some n →
      (s.writeEntry table i entry).slot n j &&& pageEntryPresent ≠ 0 →
        (s.writeEntry table i entry).slot n j &&& pageEntryLarge = 0 ∧
          (s.writeEntry table i entry).slot n j &&& r.rights = r.rights := by
    intro q j n hq hn hpresent
    by_cases hne : n = frameIndexOf table ∧ j = i
    · obtain ⟨rfl, rfl⟩ := hne
      rw [hhere, present_or_user] at hpresent
      rw [hhere, large_or_user, BitVec.or_comm]
      exact ⟨h.plain q j _ hq hn hpresent, and_or_of_and (h.rights q j _ hq hn hpresent)⟩
    · rw [hothers n j hne] at hpresent ⊢
      exact ⟨h.plain q j n hq hn hpresent, h.rights q j n hq hn hpresent⟩
  obtain ⟨hkept, htables⟩ := h.kept (s.writeEntry table i entry) hlink hlinked
    (hframes.symm ▸ h.used) (hframes.symm ▸ h.sound)
  refine ⟨hkept.grows_writeEntry htables hpath.shorter hp fun j hj ↦ h.ne_outside hpath hp hj,
    ?_, htables⟩
  intro q j hq hlength
  cases hn : s.table r q with
  | none => rw [Machine.leafAt_of_none ((htables q hq).trans hn), Machine.leafAt_of_none hn]
  | some n =>
      rw [Machine.leafAt_of_some ((htables q hq).trans hn), Machine.leafAt_of_some hn]
      apply hothers
      rintro ⟨rfl, -⟩
      have hqp := h.apart hq hpath.shorter hn hp
      have hshort := hpath.1
      rw [List.length_append, ← hqp, hlength] at hshort
      simp at hshort

theorem outcome_frameAllocate (s : Machine) : outcome frameAllocate s =
    (.ok s.frames.allocate.1, { s with frames := s.frames.allocate.2 }) := rfl

theorem pagingAllocateTable_cases (h : s.frames.Sound) :
    (s.frames.freeFrames = 0 ∧ outcome pagingAllocateTable s =
      (.error "No frame is available for a kernel paging structure.", s)) ∨
      ∃ f, outcome pagingAllocateTable s = (.ok (f * pageSize),
          ({ s with frames := s.frames.issue f } : Machine).zeroFrame (f * pageSize)) ∧
        s.frames.isUsed f = false ∧ frameIndexOf lowMemoryLimit ≤ f ∧ 0 < s.frames.freeFrames := by
  unfold pagingAllocateTable
  rw [outcome_bind, outcome_frameAllocate]
  rcases h.allocate_cases with ⟨hnone, heq⟩ | ⟨f, heq, hclear, -, hlow, hfree⟩
  · left
    rw [heq]
    exact ⟨hnone, rfl⟩
  · right
    refine ⟨f, ?_, hclear, hlow, hfree⟩
    have hpositive : f * pageSize ≠ frameAllocationFailed := by
      have hlow' : 256 ≤ f := hlow
      unfold pageSize frameAllocationFailed
      omega
    rw [heq]
    dsimp only
    rw [if_neg hpositive]
    rfl

structure Obtains (r : PageRegion) (path : List ℕ) (s s' : Machine) (next : ℕ) : Prop where
  grows : Grows r (· = path) s s'
  leaves : SameLeaves r s s'
  table : s'.table r path = some (frameIndexOf next)
  others : ∀ q, r.Within q → q ≠ path → s'.table r q = s.table r q
  free : s'.frames.freeFrames + (if s.table r path = none then 1 else 0) = s.frames.freeFrames

theorem pagingObtainTable_cases {table : ℕ} (h : Hierarchy r s) (hq : p ++ [i] = q)
    (hpath : r.Within q) (hp : s.table r p = some (frameIndexOf table))
    (hrights : inheritedFlags flags &&& r.rights = r.rights) :
    (∃ text, outcome (pagingObtainTable table i flags) s = (.error text, s) ∧
      s.frames.freeFrames = 0 ∧ s.table r q = none) ∨
      ∃ next s', outcome (pagingObtainTable table i flags) s = (.ok next, s') ∧
        Obtains r q s s' next := by
  subst hq
  unfold pagingObtainTable
  rw [outcome_bind, outcome_get]
  dsimp only
  have hstep : s.table r (p ++ [i]) = pageLink (s.slot (frameIndexOf table) i) := by
    rw [Machine.table_concat, hp]
    rfl
  split
  · rename_i hempty
    have hnone : s.table r (p ++ [i]) = none := by
      rw [hstep]
      exact pageLink_eq_none.mpr hempty
    rw [outcome_bind]
    rcases pagingAllocateTable_cases h.sound with ⟨hfree, heq⟩ | ⟨f, heq, hclear, hlow, hfree⟩
    · left
      rw [heq]
      exact ⟨_, rfl, hfree, hnone⟩
    · right
      rw [heq]
      obtain ⟨hgrows, hleaves, htable⟩ := h.link hpath hp hempty hclear hlow hrights
      refine ⟨f * pageSize, s.linkTable table i f flags, rfl, hgrows, hleaves, ?_, ?_, ?_⟩
      · rw [htable _ hpath, if_pos rfl, frameIndexOf_mul]
      · intro q hq hne
        rw [htable q hq, if_neg hne]
      · rw [if_pos hnone, Machine.frames_linkTable, FrameAllocator.freeFrames_issue hclear]
        omega
  · rename_i hpresent
    right
    obtain ⟨hgrows, hleaves, htable⟩ := h.permit hpath hp flags rfl
    refine ⟨_, _, rfl, hgrows.weaken fun _ h ↦ h.elim, hleaves, ?_, fun q hq _ ↦ htable q hq, ?_⟩
    · rw [htable _ hpath, hstep, address_or_user]
      exact pageLink_of_present hpresent
    · rw [hstep, if_neg]
      · rfl
      · exact fun hnone ↦ hpresent (pageLink_eq_none.mp hnone)

theorem Hierarchy.writeLeaf {table : ℕ} (entry : BitVec 64) (h : Hierarchy r s)
    (hp : r.Within p)
    (hlength : p.length = 3) (htable : s.table r p = some (frameIndexOf table)) :
    Grows r (fun _ ↦ False) s (s.writeEntry table i entry) ∧
      (∀ q, r.Within q → (s.writeEntry table i entry).table r q = s.table r q) ∧
      ∀ q j, r.Within q → q.length = 3 → (s.writeEntry table i entry).leafAt r q j =
        if q = p ∧ j = i then entry else s.leafAt r q j := by
  have hothers : ∀ n j, ¬(n = frameIndexOf table ∧ j = i) →
      (s.writeEntry table i entry).slot n j = s.slot n j :=
    fun n j hne ↦ Machine.slot_writeEntry_of_ne hne
  -- The entries that lead to tables are of other tables.
  have hupper : ∀ q j n, r.Within (q ++ [j]) → s.table r q = some n →
      (s.writeEntry table i entry).slot n j = s.slot n j := by
    intro q j n hq hn
    apply hothers
    rintro ⟨rfl, -⟩
    have hqp := h.apart hq.shorter hp hn htable
    have hshort := hq.1
    rw [List.length_append, hqp, hlength] at hshort
    simp at hshort
  have hframes : (s.writeEntry table i entry).frames = s.frames := Machine.frames_writeEntry
  have hlinked : ∀ q j n, r.Within (q ++ [j]) → s.table r q = some n →
      (s.writeEntry table i entry).slot n j &&& pageEntryPresent ≠ 0 →
        (s.writeEntry table i entry).slot n j &&& pageEntryLarge = 0 ∧
          (s.writeEntry table i entry).slot n j &&& r.rights = r.rights := by
    intro q j n hq hn hpresent
    rw [hupper q j n hq hn] at hpresent ⊢
    exact ⟨h.plain q j n hq hn hpresent, h.rights q j n hq hn hpresent⟩
  obtain ⟨hkept, hsame⟩ := h.kept (s.writeEntry table i entry)
    (fun q j n hq hn ↦ congrArg pageLink (hupper q j n hq hn)) hlinked
    (hframes.symm ▸ h.used) (hframes.symm ▸ h.sound)
  refine ⟨hkept.grows_writeEntry hsame hp htable ?_, hsame, ?_⟩
  · rintro j - ⟨heq, -⟩
    rw [← heq] at htable
    have hroot := h.apart hp r.within_nil htable rfl
    rw [hroot] at hlength
    cases hlength
  · intro q j hq _
    cases hn : s.table r q with
    | none =>
        have hne : ¬(q = p ∧ j = i) := by
          rintro ⟨rfl, -⟩
          rw [htable] at hn
          cases hn
        rw [Machine.leafAt_of_none ((hsame q hq).trans hn), if_neg hne,
          Machine.leafAt_of_none hn]
    | some n =>
        rw [Machine.leafAt_of_some ((hsame q hq).trans hn), Machine.leafAt_of_some hn]
        by_cases hhere : q = p ∧ j = i
        · rw [if_pos hhere]
          rw [hhere.1, htable] at hn
          rw [← Option.some.inj hn, hhere.2, Machine.slot_writeEntry_self]
        · rw [if_neg hhere]
          apply hothers
          rintro ⟨rfl, rfl⟩
          exact hhere ⟨h.apart hq hp hn htable, rfl⟩

def tablePaths (address : ℕ) : List (List ℕ) :=
  [(pagePath address).take 1, (pagePath address).take 2, pagePath address]

structure Maps (r : PageRegion) (address : ℕ) (entry : BitVec 64) (s s' : Machine) : Prop where
  grows : Grows r (· ∈ tablePaths address) s s'
  tables : ∀ q ∈ tablePaths address, s'.table r q ≠ none
  leaf : ∀ other, r.Within (pagePath other) →
    s'.leaf r other = if SamePage other address then entry else s.leaf r other
  free : s'.frames.freeFrames + s.missing r address = s.frames.freeFrames

def leafEntry (physical : ℕ) (flags : BitVec 64) : BitVec 64 :=
  (BitVec.ofNat 64 physical &&& pageEntryAddressMask) ||| flags ||| pageEntryPresent

theorem pagingMapPage_cases (physical : ℕ) (flags : BitVec 64) (h : Hierarchy r s)
    (haddress : r.Within (pagePath address))
    (hrights : inheritedFlags flags &&& r.rights = r.rights) :
    (∃ text s', outcome (pagingMapPage r.root address physical flags) s = (.error text, s') ∧
      s.frames.freeFrames < s.missing r address) ∨
      ∃ s', outcome (pagingMapPage r.root address physical flags) s = (.ok (), s') ∧
        Maps r address (leafEntry physical flags) s s' := by
  unfold pagingMapPage
  generalize h4 : pagingLevel4Index address = i4
  generalize h3 : pagingLevel3Index address = i3
  generalize h2 : pagingLevel2Index address = i2
  have hpath : pagePath address = [i4, i3, i2] := by
    unfold pagePath
    rw [h4, h3, h2]
  have hmissing : s.missing r address = (if s.table r [i4] = none then 1 else 0) +
      (if s.table r [i4, i3] = none then 1 else 0) +
      (if s.table r [i4, i3, i2] = none then 1 else 0) := by
    unfold Machine.missing
    rw [hpath]
    change ([[i4], [i4, i3], [i4, i3, i2]] : List (List ℕ)).countP _ = _
    simp only [List.countP_cons, List.countP_nil, Option.isNone_iff_eq_none, Nat.zero_add]
    omega
  rw [hpath] at haddress
  have hw1 : r.Within [i4] := haddress.take 1
  have hw2 : r.Within [i4, i3] := haddress.take 2
  rw [outcome_bind]
  rcases pagingObtainTable_cases (p := []) (q := [i4]) h rfl hw1 rfl hrights with
    ⟨text, heq, hfree, hnone⟩ | ⟨level3, s1, heq, hobtain1⟩
  · left
    rw [heq]
    refine ⟨text, s, rfl, ?_⟩
    rw [hmissing, if_pos hnone]
    omega
  rw [heq]
  dsimp only
  have hsame2 : s1.table r [i4, i3] = s.table r [i4, i3] := hobtain1.others _ hw2 (by simp)
  have hfree1 := hobtain1.free
  rw [outcome_bind]
  rcases pagingObtainTable_cases (q := [i4, i3]) hobtain1.grows.hierarchy rfl hw2 hobtain1.table
      hrights with
    ⟨text, heq, hfree, hnone⟩ | ⟨level2, s2, heq, hobtain2⟩
  · left
    rw [heq]
    refine ⟨text, s1, rfl, ?_⟩
    rw [hsame2] at hnone
    rw [hmissing, if_pos hnone]
    omega
  rw [heq]
  dsimp only
  have hsame3 : s2.table r [i4, i3, i2] = s.table r [i4, i3, i2] :=
    (hobtain2.others _ haddress (by simp)).trans (hobtain1.others _ haddress (by simp))
  have hfree2 := hobtain2.free
  rw [hsame2] at hfree2
  rw [outcome_bind]
  rcases pagingObtainTable_cases (q := [i4, i3, i2]) hobtain2.grows.hierarchy rfl haddress
      hobtain2.table hrights with
    ⟨text, heq, hfree, hnone⟩ | ⟨level1, s3, heq, hobtain3⟩
  · left
    rw [heq]
    refine ⟨text, s2, rfl, ?_⟩
    rw [hsame3] at hnone
    rw [hmissing, if_pos hnone]
    omega
  rw [heq]
  dsimp only
  have hfree3 := hobtain3.free
  rw [hsame3] at hfree3
  right
  obtain ⟨hgrows, htable, hleaf⟩ := hobtain3.grows.hierarchy.writeLeaf
    (i := pagingLevel1Index address) (leafEntry physical flags) haddress rfl hobtain3.table
  have hpaths : tablePaths address = [[i4], [i4, i3], [i4, i3, i2]] := by
    unfold tablePaths
    rw [hpath]
    rfl
  refine ⟨s3.writeEntry level1 (pagingLevel1Index address) (leafEntry physical flags), rfl,
    ?_, ?_, ?_, ?_⟩
  · refine (((hobtain1.grows.trans hobtain2.grows).trans hobtain3.grows).trans hgrows).weaken ?_
    intro q hq
    rw [hpaths]
    rcases hq with ((rfl | rfl) | rfl) | hfalse
    · simp
    · simp
    · simp
    · exact hfalse.elim
  · have htable1 := hobtain3.grows.kept hw1 (hobtain2.grows.kept hw1 hobtain1.table)
    have htable2 := hobtain3.grows.kept hw2 hobtain2.table
    intro q hq
    rw [hpaths] at hq
    rcases List.mem_cons.mp hq with rfl | hq
    · rw [htable [i4] hw1, htable1]
      exact fun h ↦ nomatch h
    · rcases List.mem_cons.mp hq with rfl | hq
      · rw [htable [i4, i3] hw2, htable2]
        exact fun h ↦ nomatch h
      · rw [List.mem_singleton.mp hq, htable [i4, i3, i2] haddress, hobtain3.table]
        exact fun h ↦ nomatch h
  · intro other hother
    unfold Machine.leaf
    rw [hleaf _ _ hother rfl, hobtain3.leaves _ _ hother rfl, hobtain2.leaves _ _ hother rfl,
      hobtain1.leaves _ _ hother rfl]
    simp only [samePage_iff, hpath]
  · rw [hmissing, Machine.frames_writeEntry]
    omega

theorem Hierarchy.elsewhere (s' : Machine) (h : Hierarchy r s)
    (hmemory : ∀ q n, r.Within q → s.table r q = some n → s'.memory n = s.memory n)
    (hused : ∀ q n, r.Within q → s.table r q = some n → s'.frames.isUsed n = true)
    (hsound : s'.frames.Sound) :
    Hierarchy r s' ∧ (∀ q, r.Within q → s'.table r q = s.table r q) ∧ SameLeaves r s s' := by
  have hslot : ∀ q n j, r.Within q → s.table r q = some n → s'.slot n j = s.slot n j := by
    intro q n j hq hn
    unfold Machine.slot
    rw [hmemory q n hq hn]
  have hlinked : ∀ q j n, r.Within (q ++ [j]) → s.table r q = some n →
      s'.slot n j &&& pageEntryPresent ≠ 0 →
        s'.slot n j &&& pageEntryLarge = 0 ∧ s'.slot n j &&& r.rights = r.rights := by
    intro q j n hq hn hpresent
    rw [hslot q n j hq.shorter hn] at hpresent ⊢
    exact ⟨h.plain q j n hq hn hpresent, h.rights q j n hq hn hpresent⟩
  obtain ⟨hkept, htable⟩ := h.kept s'
    (fun q j n hq hn ↦ congrArg pageLink (hslot q n j hq.shorter hn)) hlinked hused hsound
  refine ⟨hkept, htable, ?_⟩
  intro q j hq _
  cases hn : s.table r q with
  | none => rw [Machine.leafAt_of_none ((htable q hq).trans hn), Machine.leafAt_of_none hn]
  | some n =>
      rw [Machine.leafAt_of_some ((htable q hq).trans hn), Machine.leafAt_of_some hn]
      exact hslot q n j hq hn

theorem SameLeaves.leaf (h : SameLeaves r s s') (haddress : r.Within (pagePath address)) :
    s'.leaf r address = s.leaf r address := h _ _ haddress rfl

end OxysOS.Mm
