import OxysOS.Library.Lines
import OxysOS.Library.Source
import Mathlib.Data.List.Perm.Basic
import Mathlib.Data.List.Lex
import Mathlib.Order.Lattice

/-!
# sort

The files are read one after another into one text, which is split where its newlines are into
strings that end in a zero.
-/

namespace OxysOS.Userland

open OxysOS.Library

def sortChunkBytes : ℕ := 4096

/-- `SortRead`, with the text read so far. -/
def sortRead (grants : ℕ → Bool) (text : Gathered UInt8) (source : Source UInt8) :
    Option GatherFault × Gathered UInt8 :=
  gather grants sortChunkBytes text source

/-- The loop of `strcmp` from two places on.  Every string of the text has a zero at its end. -/
def strcmp : List UInt8 → List UInt8 → ℤ
  | left :: lefts, right :: rights =>
      if left = right ∧ left ≠ 0 then strcmp lefts rights else left.toNat - right.toNat
  | _, _ => 0

/-- `SortCompare`, of the strings at two places of the text. -/
def sortCompare (reverse : Bool) (text : List UInt8) (left right : ℕ) : ℤ :=
  let order := strcmp (text.drop left) (text.drop right)
  if reverse then -order else order

/-- The loops of `SortLines` that merge two halves. -/
def sortMerge {α : Type*} (compare : α → α → ℤ) : List α → List α → List α
  | [], rights => rights
  | lefts, [] => lefts
  | left :: lefts, right :: rights =>
      if compare right left < 0 then right :: sortMerge compare (left :: lefts) rights
      else left :: sortMerge compare lefts (right :: rights)

/-- `SortLines`, with what it leaves of the lines and of the scratch. -/
def sortLines {α : Type*} (compare : α → α → ℤ) (lines scratch : List α) : List α × List α :=
  if lines.length < 2 then (lines, scratch)
  else
    let half := lines.length / 2
    let lefts := sortLines compare (lines.take half) (scratch.take half)
    let rights := sortLines compare (lines.drop half) (scratch.drop half)
    let merged := sortMerge compare lefts.1 rights.1
    let scratch := merged ++ (lefts.2 ++ rights.2).drop merged.length
    (scratch.take lines.length, scratch)
  termination_by lines.length
  decreasing_by
  · rw [List.length_take]
    omega
  · rw [List.length_drop]
    omega

def sortStarts (start place : ℕ) : List UInt8 → List ℕ
  | [] => []
  | byte :: text =>
      if byte = newline then start :: sortStarts (place + 1) (place + 1) text
      else sortStarts start (place + 1) text

def sortTerminated (text : List UInt8) : List UInt8 :=
  text.map fun byte ↦ if byte = newline then 0 else byte

def sortString (text : List UInt8) (start : ℕ) : List UInt8 :=
  (text.drop start).takeWhile (· ≠ 0)

/-- What memory is granted: to `realloc`, to the array of lines, and to the scratch, with what
stands in it. -/
structure SortMemory where
  grants : ℕ → Bool
  lines : Bool
  scratch : Option (List ℕ)

/-- What `main` writes, and the status with which it exits. -/
structure SortOutcome where
  written : List UInt8
  status : ℕ

/-- An input of `main`, or an operand that it cannot open. -/
def sortInput (grants : ℕ → Bool) (state : Bool × Gathered UInt8) :
    Option (Source UInt8) → Bool × Gathered UInt8
  | none => (true, state.2)
  | some source =>
      let (fault, text) := sortRead grants state.2 source
      (state.1 || fault.isSome, text)

def sortText (read : List UInt8) : List UInt8 :=
  if unterminated newline read then read ++ [newline] else read

/-- What `main` writes of a text that has its last newline. -/
def sortWritten (reverse : Bool) (text : List UInt8) (scratch : List ℕ) : List UInt8 :=
  let terminated := sortTerminated text
  let sorted := (sortLines (sortCompare reverse terminated) (sortStarts 0 0 text) scratch).1
  sorted.flatMap fun start ↦ sortString terminated start ++ [newline]

/-- `main`, with the answers that the opening of each operand is given, or the standard input alone,
and whether the standard output takes what is written. -/
def sortMain (memory : SortMemory) (flushes reverse : Bool)
    (inputs : List (Option (Source UInt8))) : SortOutcome :=
  let (failed, read) := inputs.foldl (sortInput memory.grants) (false, ⟨0, []⟩)
  if unterminated newline read.held ∧ read.held.length + 1 > read.capacity ∧
      memory.grants (read.capacity + 1) = false then ⟨[], 2⟩
  else match memory.lines, memory.scratch with
    | true, some scratch =>
        ⟨sortWritten reverse (sortText read.held) scratch, if failed || !flushes then 2 else 0⟩
    | _, _ => ⟨[], 2⟩

section Merge

variable {α : Type*} {compare : α → α → ℤ} {lefts rights : List α}

theorem sortMerge_perm (compare : α → α → ℤ) (lefts rights : List α) :
    (sortMerge compare lefts rights).Perm (lefts ++ rights) := by
  fun_induction sortMerge compare lefts rights with
  | case1 => exact List.Perm.refl _
  | case2 => simp
  | case3 left lefts right rights _ ih =>
      exact (ih.cons right).trans List.perm_middle.symm
  | case4 left lefts right rights _ ih => exact ih.cons left

theorem sortLines_perm (compare : α → α → ℤ) (lines scratch : List α) :
    (sortLines compare lines scratch).1.Perm lines := by
  fun_induction sortLines compare lines scratch with
  | case1 => exact List.Perm.refl _
  | case2 lines scratch _ half lefts rights merged scratch' ihLefts ihRights =>
      have hmerged : merged.Perm lines := by
        calc merged
          _ |>.Perm (lefts.1 ++ rights.1) := sortMerge_perm compare _ _
          _ |>.Perm (lines.take half ++ lines.drop half) := ihLefts.append ihRights
          _ |>.Perm lines := by rw [List.take_append_drop]
      have htake : scratch'.take lines.length = merged :=
        List.take_left' hmerged.length_eq
      rwa [htake]

variable {κ : Type*} [LinearOrder κ] {key : α → κ} {arrives : α → α → Prop}

def Before (key : α → κ) (arrives : α → α → Prop) (a b : α) : Prop :=
  key a < key b ∨ key a = key b ∧ arrives a b

theorem Before.le {a b : α} (h : Before key arrives a b) : key a ≤ key b := by
  rcases h with hlt | ⟨heq, -⟩
  · exact hlt.le
  · exact heq.le

theorem sortMerge_pairwise
    (hcompare : ∀ left ∈ lefts, ∀ right ∈ rights, compare right left < 0 ↔ key right < key left)
    (harrives : ∀ left ∈ lefts, ∀ right ∈ rights, arrives left right)
    (hlefts : lefts.Pairwise (Before key arrives))
    (hrights : rights.Pairwise (Before key arrives)) :
    (sortMerge compare lefts rights).Pairwise (Before key arrives) := by
  fun_induction sortMerge compare lefts rights with
  | case1 => exact hrights
  | case2 => exact hlefts
  | case3 left lefts right rights hless ih =>
      have hkey := (hcompare left List.mem_cons_self right List.mem_cons_self).mp hless
      have hleft := List.pairwise_cons.mp hlefts
      have hright := List.pairwise_cons.mp hrights
      rw [List.pairwise_cons]
      constructor
      · intro line hline
        rcases List.mem_append.mp ((sortMerge_perm _ _ _).mem_iff.mp hline) with hmem | hmem
        · rcases List.mem_cons.mp hmem with rfl | hmem
          · exact Or.inl hkey
          · exact Or.inl (hkey.trans_le (hleft.1 line hmem).le)
        · exact hright.1 line hmem
      · apply ih _ _ hlefts hright.2
        · intro a ha b hb
          exact hcompare a ha b (List.mem_cons_of_mem _ hb)
        · intro a ha b hb
          exact harrives a ha b (List.mem_cons_of_mem _ hb)
  | case4 left lefts right rights hnot ih =>
      have hkey : key left ≤ key right := by
        have hiff := hcompare left List.mem_cons_self right List.mem_cons_self
        exact not_lt.mp (mt hiff.mpr hnot)
      have hleft := List.pairwise_cons.mp hlefts
      have hright := List.pairwise_cons.mp hrights
      rw [List.pairwise_cons]
      constructor
      · intro line hline
        rcases List.mem_append.mp ((sortMerge_perm _ _ _).mem_iff.mp hline) with hmem | hmem
        · exact hleft.1 line hmem
        · have hle : key left ≤ key line := by
            rcases List.mem_cons.mp hmem with rfl | hlater
            · exact hkey
            · exact hkey.trans (hright.1 line hlater).le
          rcases hle.lt_or_eq with hlt | heq
          · exact Or.inl hlt
          · exact Or.inr ⟨heq, harrives left List.mem_cons_self line hmem⟩
      · apply ih _ _ hleft.2 hrights
        · intro a ha b hb
          exact hcompare a (List.mem_cons_of_mem _ ha) b hb
        · intro a ha b hb
          exact harrives a (List.mem_cons_of_mem _ ha) b hb

theorem sortLines_pairwise (key : α → κ) (arrives : α → α → Prop) {lines : List α}
    (scratch : List α)
    (hcompare : ∀ a ∈ lines, ∀ b ∈ lines, compare a b < 0 ↔ key a < key b)
    (harrives : lines.Pairwise arrives) :
    (sortLines compare lines scratch).1.Pairwise (Before key arrives) := by
  fun_induction sortLines compare lines scratch with
  | case1 lines _ hfew =>
      match lines, hfew with
      | [], _ => exact List.Pairwise.nil
      | [line], _ => exact List.pairwise_singleton _ _
  | case2 lines scratch _ half lefts rights merged scratch' ihLefts ihRights =>
      have hleftsPerm : lefts.1.Perm (lines.take half) := sortLines_perm _ _ _
      have hrightsPerm : rights.1.Perm (lines.drop half) := sortLines_perm _ _ _
      have htake : scratch'.take lines.length = merged := by
        apply List.take_left'
        calc merged.length
          _ = lefts.1.length + rights.1.length := by
            rw [(sortMerge_perm _ _ _).length_eq, List.length_append]
          _ = (lines.take half).length + (lines.drop half).length := by
            rw [hleftsPerm.length_eq, hrightsPerm.length_eq]
          _ = lines.length := by rw [← List.length_append, List.take_append_drop]
      rw [← List.take_append_drop half lines, List.pairwise_append] at harrives
      obtain ⟨hfirst, hsecond, hacross⟩ := harrives
      rw [htake]
      apply sortMerge_pairwise
      · intro left hleft right hright
        exact hcompare right (List.mem_of_mem_drop (hrightsPerm.mem_iff.mp hright)) left
          (List.mem_of_mem_take (hleftsPerm.mem_iff.mp hleft))
      · intro left hleft right hright
        exact hacross left (hleftsPerm.mem_iff.mp hleft) right (hrightsPerm.mem_iff.mp hright)
      · apply ihLefts _ hfirst
        intro a ha b hb
        exact hcompare a (List.mem_of_mem_take ha) b (List.mem_of_mem_take hb)
      · apply ihRights _ hsecond
        intro a ha b hb
        exact hcompare a (List.mem_of_mem_drop ha) b (List.mem_of_mem_drop hb)

end Merge

/-- The values of the bytes of a line, of which the order is that of `strcmp`. -/
def byteValues (line : List UInt8) : List ℕ := line.map UInt8.toNat

theorem byteValues_injective : Function.Injective byteValues :=
  List.map_injective_iff.mpr fun _ _ ↦ UInt8.toNat_inj.mp

theorem strcmp_swap (left right : List UInt8) : strcmp right left = -strcmp left right := by
  induction left generalizing right with
  | nil => cases right <;> rfl
  | cons byte left ih =>
      cases right with
      | nil => rfl
      | cons other right =>
          by_cases hsame : byte = other
          · subst hsame
            by_cases hzero : byte = 0 <;> simp [strcmp, hzero, ih]
          · simp only [strcmp, hsame, Ne.symm hsame, false_and, if_false]
            omega

theorem strcmp_neg_iff {left right : List UInt8} (hleft : 0 ∉ left) (hright : 0 ∉ right)
    (afterLeft afterRight : List UInt8) :
    strcmp (left ++ 0 :: afterLeft) (right ++ 0 :: afterRight) < 0 ↔
      byteValues left < byteValues right := by
  have hpositive : ∀ byte : UInt8, 0 ≠ byte → 0 < byte.toNat := by
    intro byte hbyte
    have hne := mt UInt8.toNat_inj.mp hbyte
    simp only [UInt8.toNat_zero] at hne
    omega
  induction left generalizing right with
  | nil =>
      cases right with
      | nil => simp [strcmp, byteValues]
      | cons byte right =>
          have hbyte : 0 ≠ byte := by
            rintro rfl
            exact hright List.mem_cons_self
          simp [strcmp, byteValues, hbyte, hpositive byte hbyte]
  | cons byte left ih =>
      have hbyte : byte ≠ 0 := by
        rintro rfl
        exact hleft List.mem_cons_self
      cases right with
      | nil => simp [strcmp, byteValues, hbyte]
      | cons other right =>
          have hrest := @ih right (fun h ↦ hleft (List.mem_cons_of_mem _ h))
            fun h ↦ hright (List.mem_cons_of_mem _ h)
          by_cases hsame : byte = other
          · subst hsame
            simpa [strcmp, byteValues, hbyte] using hrest
          · have hvalue : byte.toNat ≠ other.toNat := mt UInt8.toNat_inj.mp hsame
            simp only [List.cons_append, strcmp, byteValues, hsame, false_and, if_false,
              List.map_cons, List.cons_lt_cons_iff, hvalue, or_false]
            omega

def cString (line : List UInt8) : List UInt8 := line.takeWhile (· ≠ 0)

theorem sortTerminated_of_not_mem {line : List UInt8} (h : newline ∉ line) :
    sortTerminated line = line := by
  calc sortTerminated line
    _ = line.map id := List.map_congr_left fun byte hbyte ↦ if_neg (ne_of_mem_of_not_mem hbyte h)
    _ = line := List.map_id line

def Stands (terminated : List UInt8) (start : ℕ) (line : List UInt8) : Prop :=
  ∃ after, terminated.drop start = line ++ 0 :: after

theorem stands_sortStarts (before pending rest : List UInt8)
    (hpending : newline ∉ pending) (hwhole : unterminated newline (pending ++ rest) = false) :
    List.Forall₂ (Stands (sortTerminated (before ++ (pending ++ rest))))
      (sortStarts before.length (before.length + pending.length) rest)
      (bareLines newline (pending ++ rest)) := by
  induction rest generalizing before pending with
  | nil =>
      have hnil : pending = [] := by
        by_contra hne
        have hlast := List.getLast_mem hne
        simp [unterminated, hne, List.getLast?_eq_some_getLast] at hwhole
        exact hpending (hwhole ▸ hlast)
      subst hnil
      exact List.Forall₂.nil
  | cons byte rest ih =>
      by_cases hbyte : byte = newline
      · subst hbyte
        have hrest : unterminated newline rest = false := by
          by_cases hnil : rest = []
          · simp [hnil, unterminated]
          · rwa [← List.singleton_append, ← List.append_assoc,
              unterminated_append_of_ne_nil newline _ hnil] at hwhole
        have htail := ih (before ++ (pending ++ [newline])) [] List.not_mem_nil hrest
        rw [bareLines_line hpending, sortStarts, if_pos rfl]
        constructor
        · refine ⟨sortTerminated rest, ?_⟩
          have hlength : (sortTerminated before).length = before.length := List.length_map ..
          calc (sortTerminated (before ++ (pending ++ newline :: rest))).drop before.length
            _ = sortTerminated (pending ++ newline :: rest) := by
              rw [sortTerminated, List.map_append]
              exact List.drop_left' hlength
            _ = sortTerminated pending ++ 0 :: sortTerminated rest := by
              simp [sortTerminated]
            _ = pending ++ 0 :: sortTerminated rest := by
              rw [sortTerminated_of_not_mem hpending]
        · simpa [Nat.add_assoc] using htail
      · have hpending' : newline ∉ pending ++ [byte] := by
          simp [hpending, Ne.symm hbyte]
        have hmore := ih before (pending ++ [byte]) hpending' (by simpa using hwhole)
        rw [sortStarts, if_neg hbyte]
        simpa [Nat.add_assoc] using hmore

theorem sortStarts_pairwise {start place : ℕ} (h : start ≤ place) (text : List UInt8) :
    (sortStarts start place text).Pairwise (· < ·) ∧
      ∀ later ∈ sortStarts start place text, start ≤ later := by
  induction text generalizing start place with
  | nil => simp [sortStarts]
  | cons byte text ih =>
      by_cases hbyte : byte = newline
      · obtain ⟨hpairwise, hle⟩ := ih (Nat.le_refl (place + 1))
        simp only [sortStarts, hbyte, if_true, List.pairwise_cons, List.mem_cons]
        refine ⟨⟨?_, hpairwise⟩, ?_⟩
        · intro later hlater
          have hafter := hle later hlater
          omega
        · rintro later (rfl | hlater)
          · exact Nat.le_refl _
          · have hafter := hle later hlater
            omega
      · simp only [sortStarts, hbyte, if_false]
        exact ih (by omega)

theorem Stands.sortString {terminated line : List UInt8} {start : ℕ}
    (h : Stands terminated start line) : sortString terminated start = cString line := by
  obtain ⟨after, hdrop⟩ := h
  rw [Userland.sortString, hdrop, List.takeWhile_append]
  split
  · next hlength =>
      have hwhole := (List.takeWhile_prefix (l := line) (· ≠ (0 : UInt8))).eq_of_length hlength
      rw [cString, hwhole, List.takeWhile_cons_of_neg (by simp), List.append_nil]
  · rfl

structure SortMemory.Suffices (memory : SortMemory) (size : ℕ) : Prop where
  text : MemorySuffices memory.grants sortChunkBytes size
  lines : memory.lines = true
  scratch : memory.scratch.isSome

theorem sortChunkBytes_pos : 0 < sortChunkBytes := by decide

structure SortHolds (grants : ℕ → Bool) (text : Gathered UInt8) : Prop where
  grown : ∃ chunks, text.capacity = chunks * sortChunkBytes ∧
    Grown grants sortChunkBytes chunks text.held
  free : text.held = [] ∨ text.held.length + sortChunkBytes ≤ text.capacity

theorem foldl_sortInput {grants : ℕ → Bool} (files : List (List UInt8 × (ℕ → ℕ)))
    {text : Gathered UInt8} (h : SortHolds grants text)
    (hmemory : MemorySuffices grants sortChunkBytes
      (text.held ++ (files.map Prod.fst).flatten).length) :
    ∃ read, (files.map fun file ↦ some (Source.steady file.1 file.2)).foldl (sortInput grants)
        (false, text) = (false, read) ∧
      read.held = text.held ++ (files.map Prod.fst).flatten ∧ SortHolds grants read := by
  induction files generalizing text with
  | nil => exact ⟨text, rfl, by simp, h⟩
  | cons file files ih =>
      obtain ⟨⟨chunks, hcapacity, hgrown⟩, -⟩ := h
      have hfirst : MemorySuffices grants sortChunkBytes (text.held ++ file.1).length := by
        apply hmemory.mono
        simp
      obtain ⟨more, hgather, hmore, hfree⟩ :=
        (gather_steady sortChunkBytes_pos file.1 file.2 hgrown).whole hfirst
      have hread : sortInput grants (false, text) (some (Source.steady file.1 file.2)) =
          (false, ⟨more * sortChunkBytes, text.held ++ file.1⟩) := by
        rw [← hcapacity] at hgather
        simp [sortInput, sortRead, hgather]
      have hholds : SortHolds grants ⟨more * sortChunkBytes, text.held ++ file.1⟩ :=
        ⟨⟨more, rfl, hmore⟩, Or.inr hfree⟩
      have hrest := ih hholds (by simpa using hmemory)
      simpa [hread] using hrest

theorem sortMain_written {memory : SortMemory} (flushes reverse : Bool)
    (files : List (List UInt8 × (ℕ → ℕ)))
    (hmemory : memory.Suffices (files.map Prod.fst).flatten.length) :
    ∃ scratch, (sortMain memory flushes reverse
        (files.map fun file ↦ some (Source.steady file.1 file.2))).written =
      sortWritten reverse (sortText (files.map Prod.fst).flatten) scratch := by
  obtain ⟨scratch, hscratch⟩ := Option.isSome_iff_exists.mp hmemory.scratch
  have hstart : SortHolds memory.grants ⟨0, []⟩ :=
    ⟨⟨0, by simp, grown_start _ sortChunkBytes_pos⟩, Or.inl rfl⟩
  obtain ⟨read, hfold, hheld, -, hfree⟩ := foldl_sortInput files hstart (by simpa using hmemory.text)
  rw [List.nil_append] at hheld
  have hroom : ¬(unterminated newline read.held = true ∧
      read.held.length + 1 > read.capacity ∧ memory.grants (read.capacity + 1) = false) := by
    rintro ⟨hlacking, hfull, -⟩
    have hpositive := sortChunkBytes_pos
    rcases hfree with hnil | hfree
    · simp [hnil, unterminated] at hlacking
    · omega
  rw [← hheld]
  refine ⟨scratch, ?_⟩
  simp only [sortMain, hfold, hroom, if_false, hmemory.lines, hscratch]

def SortBefore (reverse : Bool) (line other : List UInt8 × ℕ) : Prop :=
  (if reverse then byteValues other.1 < byteValues line.1
    else byteValues line.1 < byteValues other.1) ∨ line.1 = other.1 ∧ line.2 < other.2

/-- The lines of all the files are written, once each and in order. -/
def SortMeets (reverse : Bool) (files : List (List UInt8)) (written : List UInt8) : Prop :=
  ∃ arranged : List (List UInt8 × ℕ),
    arranged.Perm (files.flatMap (bareLines newline)).zipIdx ∧
    arranged.Pairwise (SortBefore reverse) ∧
    written = arranged.flatMap fun line ↦ line.1 ++ [newline]

/-- No file that lacks its last newline is read before one that is not empty. -/
def FilesApart (files : List (List UInt8)) : Prop :=
  files.Pairwise fun before after ↦ unterminated newline before = true → after = []

instance (files : List (List UInt8)) : Decidable (FilesApart files) :=
  inferInstanceAs (Decidable (List.Pairwise _ _))

def writtenLines (lines : List (List UInt8)) : List UInt8 :=
  lines.flatMap fun line ↦ line ++ [newline]

theorem count_writtenLines {lines : List (List UInt8)} (h : ∀ line ∈ lines, newline ∉ line) :
    (writtenLines lines).count newline = lines.length := by
  induction lines with
  | nil => rfl
  | cons line lines ih =>
      have hline := List.count_eq_zero.mpr (h line List.mem_cons_self)
      have hrest := ih fun other hother ↦ h other (List.mem_cons_of_mem _ hother)
      simp only [writtenLines] at hrest
      simp [writtenLines, hline, hrest]

theorem unterminated_sortText (read : List UInt8) :
    unterminated newline (sortText read) = false := by
  by_cases h : unterminated newline read = true
  · rw [sortText, if_pos h]
    simp [unterminated]
  · rw [sortText, if_neg h]
    simpa using h

theorem bareLines_sortText (read : List UInt8) :
    bareLines newline (sortText read) = bareLines newline read := by
  by_cases h : unterminated newline read = true
  · rw [sortText, if_pos h, bareLines_append_separator h]
  · rw [sortText, if_neg h]

def sortPlaces (read : List UInt8) : List ℕ := sortStarts 0 0 (sortText read)

theorem stands_sortPlaces (read : List UInt8) :
    List.Forall₂ (Stands (sortTerminated (sortText read))) (sortPlaces read)
      (bareLines newline read) := by
  have hstands := stands_sortStarts [] [] (sortText read) List.not_mem_nil
    (unterminated_sortText read)
  simpa [sortPlaces, bareLines_sortText] using hstands

theorem map_sortString {terminated : List UInt8} {starts : List ℕ} {lines : List (List UInt8)}
    (h : List.Forall₂ (Stands terminated) starts lines) :
    starts.map (sortString terminated) = lines.map cString := by
  induction h with
  | nil => rfl
  | cons hline _ ih => simp [hline.sortString, ih]

theorem exists_stands {terminated : List UInt8} {starts : List ℕ} {lines : List (List UInt8)}
    (h : List.Forall₂ (Stands terminated) starts lines) {start : ℕ} (hstart : start ∈ starts) :
    ∃ line ∈ lines, Stands terminated start line := by
  induction h with
  | nil => simp at hstart
  | cons hline _ ih =>
      rcases List.mem_cons.mp hstart with rfl | hlater
      · exact ⟨_, List.mem_cons_self, hline⟩
      · obtain ⟨line, hmem, hstands⟩ := ih hlater
        exact ⟨line, List.mem_cons_of_mem _ hmem, hstands⟩

theorem sortWritten_perm (reverse : Bool) (read : List UInt8) (scratch : List ℕ) :
    (sortWritten reverse (sortText read) scratch).Perm
      (writtenLines ((bareLines newline read).map cString)) := by
  rw [← map_sortString (stands_sortPlaces read), writtenLines, List.flatMap_map]
  exact (sortLines_perm _ _ _).flatMap_right _

theorem SortMeets.perm {reverse : Bool} {files : List (List UInt8)} {written : List UInt8}
    (h : SortMeets reverse files written) :
    written.Perm (writtenLines (files.flatMap (bareLines newline))) := by
  obtain ⟨arranged, hperm, -, rfl⟩ := h
  have hlines := (hperm.map Prod.fst).flatMap_right fun line ↦ line ++ [newline]
  simpa [writtenLines, List.flatMap_map] using hlines

theorem length_cString_le (line : List UInt8) : (cString line).length ≤ line.length :=
  (List.takeWhile_prefix _).length_le

theorem length_writtenLines_cString (lines : List (List UInt8)) :
    (writtenLines (lines.map cString)).length ≤ (writtenLines lines).length ∧
    ((writtenLines (lines.map cString)).length = (writtenLines lines).length →
      ∀ line ∈ lines, cString line = line) := by
  induction lines with
  | nil => simp [writtenLines]
  | cons line lines ih =>
      have hle := length_cString_le line
      obtain ⟨hrest, hall⟩ := ih
      simp only [writtenLines, List.map_cons, List.flatMap_cons, List.length_append] at hrest hall ⊢
      refine ⟨by omega, ?_⟩
      intro hlength other hother
      rcases List.mem_cons.mp hother with rfl | hlater
      · exact (List.takeWhile_prefix _).eq_of_length (by rw [cString] at *; omega)
      · exact hall (by omega) other hlater

theorem cString_eq_iff {line : List UInt8} : cString line = line ↔ 0 ∉ line := by
  rw [cString, List.takeWhile_eq_self_iff]
  constructor
  · intro h hmem
    simpa using h 0 hmem
  · intro h byte hbyte
    simpa using ne_of_mem_of_not_mem hbyte h

theorem map_arrival {β : Type*} {starts : List ℕ} (h : starts.Nodup) (f : ℕ → β) :
    starts.map (fun start ↦ (f start, starts.idxOf start)) = (starts.map f).zipIdx := by
  apply List.ext_getElem
  · simp
  · intro i hi hi'
    have hlt : i < starts.length := by simpa using hi
    have hplace : starts.idxOf starts[i] = i := h.idxOf_getElem i hlt
    simp [hplace]

theorem nodup_sortPlaces (read : List UInt8) : (sortPlaces read).Nodup :=
  (sortStarts_pairwise (Nat.le_refl 0) (sortText read)).1.imp Nat.ne_of_lt

section Ordered

variable {read : List UInt8} (hzero : 0 ∉ read)
include hzero

theorem stands_without_zero {start : ℕ} (hstart : start ∈ sortPlaces read) :
    ∃ line, 0 ∉ line ∧ Stands (sortTerminated (sortText read)) start line ∧
      sortString (sortTerminated (sortText read)) start = line := by
  obtain ⟨line, hline, hstands⟩ := exists_stands (stands_sortPlaces read) hstart
  have hnot : 0 ∉ line := fun h ↦ hzero (mem_of_mem_bareLines hline h)
  exact ⟨line, hnot, hstands, hstands.sortString.trans (cString_eq_iff.mpr hnot)⟩

theorem sortCompare_neg_iff {left right : ℕ} (hleft : left ∈ sortPlaces read)
    (hright : right ∈ sortPlaces read) :
    strcmp ((sortTerminated (sortText read)).drop left)
        ((sortTerminated (sortText read)).drop right) < 0 ↔
      byteValues (sortString (sortTerminated (sortText read)) left) <
        byteValues (sortString (sortTerminated (sortText read)) right) := by
  obtain ⟨line, hnot, ⟨after, hdrop⟩, hstring⟩ := stands_without_zero hzero hleft
  obtain ⟨line', hnot', ⟨after', hdrop'⟩, hstring'⟩ := stands_without_zero hzero hright
  rw [hdrop, hdrop', hstring, hstring']
  exact strcmp_neg_iff hnot hnot' after after'

theorem sortLines_before (reverse : Bool) (scratch : List ℕ) :
    ((sortLines (sortCompare reverse (sortTerminated (sortText read))) (sortPlaces read)
        scratch).1.map fun start ↦
      (sortString (sortTerminated (sortText read)) start, (sortPlaces read).idxOf start)).Pairwise
      (SortBefore reverse) := by
  have hnodup := nodup_sortPlaces read
  have harrives : (sortPlaces read).Pairwise fun start later ↦
      (sortPlaces read).idxOf start < (sortPlaces read).idxOf later := by
    rw [List.pairwise_iff_getElem]
    intro i j hi hj hlt
    rwa [hnodup.idxOf_getElem i hi, hnodup.idxOf_getElem j hj]
  rw [List.pairwise_map]
  cases reverse with
  | false =>
      have hsorted := sortLines_pairwise
        (fun start ↦ byteValues (sortString (sortTerminated (sortText read)) start)) _ scratch
        (fun a ha b hb ↦ sortCompare_neg_iff hzero ha hb) harrives
      apply hsorted.imp
      rintro start later (hlt | ⟨heq, hplace⟩)
      · exact Or.inl hlt
      · exact Or.inr ⟨byteValues_injective heq, hplace⟩
  | true =>
      have hreversed : ∀ a ∈ sortPlaces read, ∀ b ∈ sortPlaces read,
          sortCompare true (sortTerminated (sortText read)) a b < 0 ↔
            OrderDual.toDual (byteValues (sortString (sortTerminated (sortText read)) a)) <
              OrderDual.toDual (byteValues (sortString (sortTerminated (sortText read)) b)) := by
        intro a ha b hb
        rw [OrderDual.toDual_lt_toDual, ← sortCompare_neg_iff hzero hb ha, sortCompare, if_pos rfl,
          ← strcmp_swap]
      have hsorted := sortLines_pairwise
        (fun start ↦ OrderDual.toDual
          (byteValues (sortString (sortTerminated (sortText read)) start))) _ scratch
        hreversed harrives
      apply hsorted.imp
      rintro start later (hlt | ⟨heq, hplace⟩)
      · exact Or.inl hlt
      · exact Or.inr ⟨byteValues_injective (OrderDual.toDual_inj.mp heq), hplace⟩

end Ordered

theorem sortMeets_of_apart (reverse : Bool) {files : List (List UInt8)} (scratch : List ℕ)
    (hapart : FilesApart files) (hzero : 0 ∉ files.flatten) :
    SortMeets reverse files (sortWritten reverse (sortText files.flatten) scratch) := by
  refine ⟨_, ?_, sortLines_before hzero reverse scratch, ?_⟩
  · have hlines : (sortPlaces files.flatten).map
        (sortString (sortTerminated (sortText files.flatten))) =
          files.flatMap (bareLines newline) := by
      rw [map_sortString (stands_sortPlaces _), ← bareLines_flatten hapart]
      calc (bareLines newline files.flatten).map cString
        _ = (bareLines newline files.flatten).map id := by
          apply List.map_congr_left
          intro line hline
          exact cString_eq_iff.mpr fun hmem ↦ hzero (mem_of_mem_bareLines hline hmem)
        _ = bareLines newline files.flatten := List.map_id _
    rw [← hlines, ← map_arrival (nodup_sortPlaces _)]
    exact (sortLines_perm _ _ _).map _
  · rw [sortWritten, List.flatMap_map]
    rfl

theorem apart_of_sortMeets {reverse : Bool} {files : List (List UInt8)} {scratch : List ℕ}
    (h : SortMeets reverse files (sortWritten reverse (sortText files.flatten) scratch)) :
    FilesApart files ∧ 0 ∉ files.flatten := by
  have hperm := (sortWritten_perm reverse files.flatten scratch).symm.trans h.perm
  have hcut : ∀ line ∈ (bareLines newline files.flatten).map cString, newline ∉ line := by
    intro line hline hmem
    obtain ⟨whole, hwhole, rfl⟩ := List.mem_map.mp hline
    exact not_mem_of_mem_bareLines hwhole (List.takeWhile_subset _ hmem)
  have hlines : ∀ line ∈ files.flatMap (bareLines newline), newline ∉ line := by
    intro line hline
    obtain ⟨file, -, hmem⟩ := List.mem_flatMap.mp hline
    exact not_mem_of_mem_bareLines hmem
  -- each newline that is written ends a line
  have hcount := hperm.count_eq newline
  rw [count_writtenLines hcut, count_writtenLines hlines, List.length_map,
    length_bareLines] at hcount
  have hapart : FilesApart files := (length_lines_flatten files).2.mp hcount
  refine ⟨hapart, ?_⟩
  rw [← bareLines_flatten hapart] at hperm
  intro hmem
  obtain ⟨line, hline, hzero⟩ := exists_mem_bareLines hmem (by decide : (0 : UInt8) ≠ newline)
  exact cString_eq_iff.mp ((length_writtenLines_cString _).2 hperm.length_eq line hline) hzero

/-- The lines of the files are sorted exactly where the files stand apart and hold no zero. -/
theorem sortMain_writes_iff {memory : SortMemory} (flushes reverse : Bool)
    (files : List (List UInt8 × (ℕ → ℕ)))
    (hmemory : memory.Suffices (files.map Prod.fst).flatten.length) :
    SortMeets reverse (files.map Prod.fst) (sortMain memory flushes reverse
        (files.map fun file ↦ some (Source.steady file.1 file.2))).written ↔
      FilesApart (files.map Prod.fst) ∧ ∀ file ∈ files, 0 ∉ file.1 := by
  obtain ⟨scratch, hwritten⟩ := sortMain_written flushes reverse files hmemory
  have hzero : 0 ∉ (files.map Prod.fst).flatten ↔ ∀ file ∈ files, 0 ∉ file.1 := by
    simp [List.mem_flatten]
  rw [hwritten, ← hzero]
  constructor
  · exact apart_of_sortMeets
  · rintro ⟨hapart, hnot⟩
    exact sortMeets_of_apart reverse scratch hapart hnot

def ampleMemory : SortMemory := ⟨fun _ ↦ true, true, some (List.replicate 4 0)⟩

theorem ampleMemory_suffices (size : ℕ) : ampleMemory.Suffices size :=
  ⟨fun _ _ _ ↦ rfl, rfl, rfl⟩

def sortedFiles : List (List UInt8 × (ℕ → ℕ)) :=
  [([0x62, 0x0A, 0x61, 0x0A], fun _ ↦ 0), ([0x63], fun _ ↦ 0)]

theorem sortMain_writes_sortedFiles :
    SortMeets false (sortedFiles.map Prod.fst) (sortMain ampleMemory true false
      (sortedFiles.map fun file ↦ some (Source.steady file.1 file.2))).written :=
  (sortMain_writes_iff true false sortedFiles (ampleMemory_suffices _)).mpr (by decide)

/-- A file that does not end in a newline joins its last line to the next file's first. -/
theorem sortMain_not_writes :
    ¬SortMeets false (sortedFiles.reverse.map Prod.fst) (sortMain ampleMemory true false
      (sortedFiles.reverse.map fun file ↦ some (Source.steady file.1 file.2))).written := by
  obtain ⟨scratch, hwritten⟩ := sortMain_written true false sortedFiles.reverse
    (ampleMemory_suffices _)
  rw [hwritten]
  intro hmeets
  exact absurd (apart_of_sortMeets hmeets).1 (by decide)

end OxysOS.Userland
