import OxysOS.Libc.Line
import OxysOS.Library.Row

/-!
# What the line editor shows

Every edit goes back, writes part of the text and some blanks, and goes back
again.  One lemma says when the display still shows the line after this, and
each edit is an instance of it.
-/

namespace OxysOS.Libc

open OxysOS.Library

variable {editor editor' : LineEditor} {prompt : Row} {text : Bytes} {n bound : ℕ}

/-! ## Terminated printable text -/

structure IsLine (text : Bytes) (length : ℕ) : Prop where
  printable : ∀ i < length, isPrintable (text i)
  terminated : text length = 0

theorem not_isPrintable_zero : ¬isPrintable 0 := by decide

theorem strlen_eq (h : IsLine text n) (hbound : n < bound) : strlen text bound = n := by
  have hfind : (List.range bound).find? (fun i ↦ decide (text i = 0)) = some n := by
    rw [List.find?_range_eq_some]
    refine ⟨decide_eq_true h.terminated, List.mem_range.mpr hbound, fun i hi ↦ ?_⟩
    have hne : text i ≠ 0 := fun hzero ↦ not_isPrintable_zero (hzero ▸ h.printable i hi)
    simpa using hne
  unfold strlen
  rw [hfind]
  rfl

theorem slice_printable (h : IsLine text n) {offset count : ℕ} (hend : offset + count ≤ n) :
    ∀ byte ∈ slice text offset count, isPrintable byte := by
  intro byte hbyte
  unfold slice at hbyte
  obtain ⟨i, hi, rfl⟩ := List.mem_map.mp hbyte
  have hlt := List.mem_range.mp hi
  exact h.printable (offset + i) (by omega)

theorem isLine_of_shift {raw : Bytes} (h : IsLine text n) {offset : ℕ} (hoffset : offset ≤ n)
    (hraw : ∀ i ≤ n - offset, raw i = text (offset + i)) : IsLine raw (n - offset) := by
  constructor
  · intro i hi
    rw [hraw i hi.le]
    exact h.printable (offset + i) (by omega)
  · rw [hraw (n - offset) le_rfl, Nat.add_sub_cancel' hoffset]
    exact h.terminated

/-! ## The editor's own state -/

def IsRemembered (text : Bytes) : Prop := ∃ length < lineCapacity, IsLine text length

structure LineSound (editor : LineEditor) : Prop where
  room : editor.length < lineCapacity
  within : editor.cursor ≤ editor.length
  line : IsLine editor.text editor.length
  history : ∀ slot, IsRemembered (editor.history slot)
  draft : IsRemembered editor.draft
  browsing : editor.browsing ≤ editor.historyCount

def lineCell (text : Bytes) (length i : ℕ) : UInt8 :=
  if i < length then text i else lineBlank

namespace LineEditor

/-- The row shows the text and blanks beyond it, its cursor is the editor's, and
what stands before the line is untouched. -/
structure Shows (editor : LineEditor) (prompt : Row) : Prop where
  cursor : (prompt.write editor.output).cursor = editor.cursor
  cells : ∀ i : ℕ, (prompt.write editor.output).cells i = lineCell editor.text editor.length i
  before : ∀ i < 0, (prompt.write editor.output).cells i = prompt.cells i

structure Keeps (editor editor' : LineEditor) : Prop where
  sound : LineSound editor'
  shows : ∀ prompt, editor.Shows prompt → editor'.Shows prompt

theorem Keeps.trans {other : LineEditor} (h : Keeps editor editor') (h' : Keeps editor' other) :
    Keeps editor other :=
  ⟨h'.sound, fun prompt hshows ↦ h'.shows prompt (h.shows prompt hshows)⟩

theorem emitRun_eq (editor : LineEditor) (byte : UInt8) (count : ℕ) :
    editor.emitRun byte count = editor.emit (List.replicate count byte) := by
  fun_induction emitRun editor byte count with
  | case1 editor => simp [emit]
  | case2 editor count hcount now ih =>
      have hnow : now ≤ count := Nat.min_le_left ..
      rw [ih]
      unfold emit
      dsimp only
      rw [List.append_assoc, List.replicate_append_replicate, Nat.add_sub_cancel' hnow]

/-! ## One redraw -/

structure Redraw where
  back : ℕ
  first : ℕ
  count : ℕ
  blanks : ℕ
  again : ℕ

def Redraw.bytes (redraw : Redraw) (text : Bytes) : List UInt8 :=
  List.replicate redraw.back backspace ++ slice text redraw.first redraw.count ++
    List.replicate redraw.blanks lineBlank ++ List.replicate redraw.again backspace

def redrawn (editor : LineEditor) (text : Bytes) (length cursor : ℕ) (redraw : Redraw) :
    LineEditor :=
  { editor with
    output := editor.output ++ redraw.bytes text
    text := text
    length := length
    cursor := cursor }

structure Redraw.Suits (redraw : Redraw) (editor : LineEditor) (text : Bytes)
    (length cursor : ℕ) : Prop where
  back : redraw.first + redraw.back = editor.cursor
  count : redraw.first + redraw.count ≤ length
  again : cursor + redraw.again = redraw.first + redraw.count + redraw.blanks
  blanks : 0 < redraw.blanks → length ≤ redraw.first + redraw.count
  kept : ∀ i, i < redraw.first ∨ redraw.first + redraw.count + redraw.blanks ≤ i →
    lineCell text length i = lineCell editor.text editor.length i

theorem Shows.redrawn {length cursor : ℕ} {redraw : Redraw} (h : editor.Shows prompt)
    (hline : IsLine text length) (hsuits : redraw.Suits editor text length cursor) :
    (editor.redrawn text length cursor redraw).Shows prompt := by
  obtain ⟨back, first, count, blanks, again⟩ := redraw
  obtain ⟨hback, hcount, hagain, hblanks, hkept⟩ := hsuits
  dsimp only at hback hcount hagain hblanks hkept
  obtain ⟨hcursor, hcells⟩ := Row.write_redraw (prompt.write editor.output) back blanks again
    (slice_printable hline hcount) (by decide : isPrintable lineBlank)
  have hstart : (prompt.write editor.output).cursor - back = first := by
    rw [h.cursor]
    omega
  rw [hstart, length_slice] at hcursor hcells
  rw [← Row.write_append] at hcursor hcells
  refine ⟨hcursor.trans ?_, fun i ↦ (hcells i).trans ?_, fun i hi ↦ (hcells i).trans ?_⟩
  · change _ = (cursor : ℤ)
    omega
  · change _ = lineCell text length i
    by_cases hin : first ≤ i ∧ i < first + count
    · have hindex : ((i : ℤ) - first).toNat = i - first := by omega
      rw [if_pos (by omega), hindex, getD_slice _ _ (by omega), Nat.add_sub_cancel' hin.1]
      unfold lineCell
      rw [if_pos (by omega)]
    · rw [if_neg (by omega)]
      by_cases hblank : first + count ≤ i ∧ i < first + count + blanks
      · have hbeyond := hblanks (by omega)
        rw [if_pos (by omega)]
        unfold lineCell
        rw [if_neg (by omega)]
      · rw [if_neg (by omega), h.cells, hkept i (by omega)]
  · rw [if_neg (by omega), if_neg (by omega)]
    exact h.before i hi

theorem keeps_redrawn (h : LineSound editor) {length : ℕ} (cursor : ℕ) (redraw : Redraw)
    (hline : IsLine text length) (hroom : length < lineCapacity) (hwithin : cursor ≤ length)
    (hsuits : redraw.Suits editor text length cursor) :
    Keeps editor (editor.redrawn text length cursor redraw) :=
  ⟨⟨hroom, hwithin, hline, h.history, h.draft, h.browsing⟩,
    fun _ hshows ↦ hshows.redrawn hline hsuits⟩

theorem ignore_keeps (h : LineSound editor) : Keeps editor editor.ignore :=
  ⟨⟨h.room, h.within, h.line, h.history, h.draft, h.browsing⟩,
    fun _ hshows ↦ ⟨hshows.cursor, hshows.cells, hshows.before⟩⟩

/-! ## The moves -/

theorem keeps_move {cursor : ℕ} {redraw : Redraw} (h : LineSound editor)
    (hwithin : cursor ≤ editor.length) (hback : redraw.first + redraw.back = editor.cursor)
    (hcount : redraw.first + redraw.count ≤ editor.length) (hblanks : redraw.blanks = 0)
    (hagain : cursor + redraw.again = redraw.first + redraw.count) :
    Keeps editor (editor.redrawn editor.text editor.length cursor redraw) :=
  keeps_redrawn h _ _ h.line h.room hwithin
    { back := hback, count := hcount, again := by omega, blanks := by omega, kept := fun _ _ ↦ rfl }

theorem moveLeft_keeps (h : LineSound editor) : Keeps editor editor.moveLeft := by
  unfold moveLeft
  by_cases hcursor : editor.cursor = 0
  · rw [if_pos hcursor]
    exact ignore_keeps h
  · have hwithin := h.within
    rw [if_neg hcursor, emitRun_eq]
    have heq : ({ editor with cursor := editor.cursor - 1 } : LineEditor).emit
        (List.replicate 1 lineBackspace) = editor.redrawn editor.text editor.length
          (editor.cursor - 1) ⟨0, editor.cursor, 0, 0, 1⟩ := by
      simp [redrawn, Redraw.bytes, emit, slice, lineBackspace, backspace]
    rw [heq]
    exact keeps_move h (by omega) rfl hwithin rfl (by dsimp only; omega)

theorem moveRight_keeps (h : LineSound editor) : Keeps editor editor.moveRight := by
  unfold moveRight
  by_cases hcursor : editor.length ≤ editor.cursor
  · rw [if_pos hcursor]
    exact ignore_keeps h
  · rw [if_neg hcursor]
    have heq : ({ editor.emit (slice editor.text editor.cursor 1) with
        cursor := editor.cursor + 1 } : LineEditor) = editor.redrawn editor.text editor.length
          (editor.cursor + 1) ⟨0, editor.cursor, 1, 0, 0⟩ := by
      simp [redrawn, Redraw.bytes, emit]
    refine heq ▸ keeps_move h (by omega) rfl ?_ rfl rfl
    dsimp only
    omega

theorem moveToStart_eq (editor : LineEditor) : editor.moveToStart =
    editor.redrawn editor.text editor.length 0 ⟨editor.cursor, 0, 0, 0, 0⟩ := by
  simp [moveToStart, emitRun_eq, redrawn, Redraw.bytes, emit, slice, lineBackspace, backspace]

theorem moveToStart_keeps (h : LineSound editor) : Keeps editor editor.moveToStart := by
  rw [moveToStart_eq]
  exact keeps_move h (Nat.zero_le _) (Nat.zero_add _) (Nat.zero_le _) rfl rfl

theorem moveToEnd_keeps (h : LineSound editor) : Keeps editor editor.moveToEnd := by
  have heq : editor.moveToEnd = editor.redrawn editor.text editor.length editor.length
      ⟨0, editor.cursor, editor.length - editor.cursor, 0, 0⟩ := by
    simp [moveToEnd, redrawn, Redraw.bytes, emit]
  have hsum := Nat.add_sub_cancel' h.within
  rw [heq]
  exact keeps_move h le_rfl rfl hsum.le rfl hsum.symm

/-! ## The edits -/

theorem insert_keeps (h : LineSound editor) {byte : UInt8} (hbyte : isPrintable byte) :
    Keeps editor (editor.insert byte) := by
  unfold insert
  dsimp only
  by_cases hfull : lineCapacity ≤ editor.length + 1
  · rw [if_pos hfull]
    exact ⟨⟨h.room, h.within, h.line, h.history, h.draft, h.browsing⟩,
      fun _ hshows ↦ ⟨hshows.cursor, hshows.cells, hshows.before⟩⟩
  · rw [if_neg hfull, emitRun_eq]
    have hwithin := h.within
    set after := editor.length - editor.cursor with hafter
    set text := Function.update (splice editor.text (editor.cursor + 1) (after + 1) fun i ↦
      editor.text (editor.cursor + i)) editor.cursor byte with htext
    have hbelow : ∀ i < editor.cursor, text i = editor.text i := by
      intro i hi
      rw [htext, Function.update_of_ne hi.ne, splice_of_lt (by omega)]
    have hself : text editor.cursor = byte := Function.update_self ..
    have habove : ∀ i, editor.cursor < i → i ≤ editor.length + 1 →
        text i = editor.text (i - 1) := by
      intro i hi hle
      have hindex : editor.cursor + (i - (editor.cursor + 1)) = i - 1 := by omega
      rw [htext, Function.update_of_ne hi.ne', splice_of_mem (by omega) (by omega), hindex]
    have hline : IsLine text (editor.length + 1) := by
      constructor
      · intro i hi
        rcases lt_trichotomy i editor.cursor with hlt | heq | hgt
        · rw [hbelow i hlt]
          exact h.line.printable i (by omega)
        · rw [heq, hself]
          exact hbyte
        · rw [habove i hgt (by omega)]
          exact h.line.printable (i - 1) (by omega)
      · rw [habove (editor.length + 1) (by omega) le_rfl, Nat.add_sub_cancel]
        exact h.line.terminated
    have hredrawn := keeps_redrawn h (editor.cursor + 1)
      ⟨0, editor.cursor, after + 1, 0, after⟩ hline (by omega) (by omega)
      { back := rfl
        count := by dsimp only; omega
        again := by dsimp only; omega
        blanks := fun hpos ↦ absurd hpos (lt_irrefl 0)
        kept := by
          intro i hi
          dsimp only at hi
          unfold lineCell
          rcases hi with hi | hi
          · rw [if_pos (by omega), if_pos (by omega), hbelow i hi]
          · rw [if_neg (by omega), if_neg (by omega)] }
    convert hredrawn using 1
    simp [redrawn, Redraw.bytes, emit, lineBackspace, backspace]

def without (editor : LineEditor) (position : ℕ) : Bytes :=
  splice editor.text position (editor.length - position - 1 + 1) fun i ↦
    editor.text (position + 1 + i)

theorem without_of_lt {position i : ℕ} (hi : i < position) :
    editor.without position i = editor.text i := splice_of_lt hi

theorem without_of_le {position i : ℕ} (hposition : position < editor.length) (hi : position ≤ i)
    (hlt : i < editor.length) : editor.without position i = editor.text (i + 1) := by
  have hindex : position + 1 + (i - position) = i + 1 := by omega
  unfold without
  rw [splice_of_mem hi (by omega), hindex]

theorem keeps_without (h : LineSound editor) (position back : ℕ) (hposition : position < editor.length)
    (hback : position + back = editor.cursor) :
    Keeps editor (editor.redrawn (editor.without position) (editor.length - 1) position
      ⟨back, position, editor.length - position - 1, 1, editor.length - position - 1 + 1⟩) := by
  have hroom := h.room
  have hline : IsLine (editor.without position) (editor.length - 1) := by
    constructor
    · intro i hi
      by_cases hlt : i < position
      · rw [without_of_lt hlt]
        exact h.line.printable i (by omega)
      · rw [without_of_le hposition (by omega) (by omega)]
        exact h.line.printable (i + 1) (by omega)
    · rw [without_of_le hposition (by omega) (by omega), Nat.sub_add_cancel (by omega)]
      exact h.line.terminated
  apply keeps_redrawn h _ _ hline (by omega) (by omega)
  exact
    { back := hback
      count := by dsimp only; omega
      again := by dsimp only; omega
      blanks := fun _ ↦ by dsimp only; omega
      kept := by
        intro i hi
        dsimp only at hi
        unfold lineCell
        rcases hi with hi | hi
        · rw [if_pos (by omega), if_pos (by omega), without_of_lt hi]
        · rw [if_neg (by omega), if_neg (by omega)] }

theorem deleteBefore_keeps (h : LineSound editor) : Keeps editor editor.deleteBefore := by
  unfold deleteBefore
  by_cases hcursor : editor.cursor = 0
  · rw [if_pos hcursor]
    exact ignore_keeps h
  · have hwithin := h.within
    rw [if_neg hcursor]
    convert keeps_without h (editor.cursor - 1) 1 (by omega) (by omega) using 1
    simp [removeAt, emitRun_eq, emit, redrawn, Redraw.bytes, without, lineBackspace, backspace]

theorem deleteUnder_keeps (h : LineSound editor) : Keeps editor editor.deleteUnder := by
  unfold deleteUnder
  by_cases hcursor : editor.length ≤ editor.cursor
  · rw [if_pos hcursor]
    exact ignore_keeps h
  · rw [if_neg hcursor]
    convert keeps_without h editor.cursor 0 (by omega) rfl using 1
    simp [removeAt, emitRun_eq, emit, redrawn, Redraw.bytes, without, lineBackspace, backspace]

theorem killToEnd_keeps (h : LineSound editor) : Keeps editor editor.killToEnd := by
  have hwithin := h.within
  have hroom := h.room
  have hbelow : ∀ i < editor.cursor,
      Function.update editor.text editor.cursor 0 i = editor.text i :=
    fun i hi ↦ Function.update_of_ne hi.ne ..
  have hline : IsLine (Function.update editor.text editor.cursor 0) editor.cursor := by
    constructor
    · intro i hi
      rw [hbelow i hi]
      exact h.line.printable i (by omega)
    · exact Function.update_self ..
  have hredrawn := keeps_redrawn h editor.cursor
    ⟨0, editor.cursor, 0, editor.length - editor.cursor, editor.length - editor.cursor⟩ hline (by omega) le_rfl
    { back := rfl
      count := le_rfl
      again := rfl
      blanks := fun _ ↦ le_rfl
      kept := by
        intro i hi
        dsimp only at hi
        unfold lineCell
        by_cases hlt : i < editor.cursor
        · rw [if_pos hlt, if_pos (by omega), hbelow i hlt]
        · rw [if_neg hlt, if_neg (by omega)] }
  convert hredrawn using 1
  simp [killToEnd, emitRun_eq, emit, redrawn, Redraw.bytes, slice, lineBackspace, backspace]

theorem killToStart_keeps (h : LineSound editor) : Keeps editor editor.killToStart := by
  have hwithin := h.within
  have hroom := h.room
  set kept := editor.length - editor.cursor with hkept
  set text := splice editor.text 0 (kept + 1) fun i ↦ editor.text (editor.cursor + i) with htext
  have hline : IsLine text kept := by
    apply isLine_of_shift h.line hwithin
    intro i hi
    rw [htext, splice_of_mem (Nat.zero_le i) (by omega), Nat.sub_zero]
  have hredrawn := keeps_redrawn h 0
    ⟨editor.cursor, 0, kept, editor.cursor, kept + editor.cursor⟩ hline (by omega) (Nat.zero_le _)
    { back := Nat.zero_add _
      count := (Nat.zero_add _).le
      again := by dsimp only; omega
      blanks := fun _ ↦ (Nat.zero_add _).ge
      kept := by
        intro i hi
        dsimp only at hi
        unfold lineCell
        rw [if_neg (by omega), if_neg (by omega)] }
  convert hredrawn using 1
  simp [killToStart, emitRun_eq, emit, redrawn, Redraw.bytes, lineBackspace, backspace, ← hkept,
    ← htext]

theorem replace_keeps (h : LineSound editor) (hline : IsLine text n) (hroom : n < lineCapacity) :
    Keeps editor (editor.replace text) := by
  have hlength : strlen text lineCapacity = n := strlen_eq hline hroom
  set incoming := Function.update (splice editor.text 0 n text) n 0 with hincoming
  have hline' : IsLine incoming n := by
    constructor
    · intro i hi
      rw [hincoming, Function.update_of_ne hi.ne, splice_of_mem (Nat.zero_le i) (by omega),
        Nat.sub_zero]
      exact hline.printable i hi
    · exact Function.update_self ..
  have hredrawn := keeps_redrawn h n
    ⟨editor.cursor, 0, n, editor.length - n, editor.length - n⟩ hline' hroom le_rfl
    { back := Nat.zero_add _
      count := (Nat.zero_add _).le
      again := by dsimp only; omega
      blanks := fun _ ↦ (Nat.zero_add _).ge
      kept := by
        intro i hi
        dsimp only at hi
        unfold lineCell
        rw [if_neg (by omega), if_neg (by omega)] }
  convert hredrawn using 1
  unfold replace
  dsimp only
  rw [hlength, if_neg (Nat.not_le.mpr hroom), moveToStart_eq]
  by_cases hshorter : n < editor.length
  · rw [if_pos (by exact hshorter)]
    simp [emitRun_eq, emit, redrawn, Redraw.bytes, slice, lineBackspace, backspace, ← hincoming]
  · have hzero : editor.length - n = 0 := by omega
    rw [if_neg (by exact hshorter)]
    simp [emit, redrawn, Redraw.bytes, slice, hzero, ← hincoming]

/-! ## The history -/

theorem recall_keeps (h : LineSound editor) (htext : IsRemembered text) :
    Keeps editor (editor.replace text) := by
  obtain ⟨length, hroom, hline⟩ := htext
  exact replace_keeps h hline hroom

theorem isRemembered_copy (h : LineSound editor) (raw : Bytes) :
    IsRemembered (splice raw 0 (editor.length + 1) editor.text) := by
  refine ⟨editor.length, h.room, ?_⟩
  have hcopy : ∀ i ≤ editor.length, splice raw 0 (editor.length + 1) editor.text i =
      editor.text i := fun i hi ↦ splice_of_mem (Nat.zero_le i) (by omega)
  constructor
  · intro i hi
    rw [hcopy i hi.le]
    exact h.line.printable i hi
  · rw [hcopy editor.length le_rfl]
    exact h.line.terminated

theorem recallPrevious_keeps (h : LineSound editor) : Keeps editor editor.recallPrevious := by
  unfold recallPrevious
  by_cases holdest : editor.browsing = 0
  · rw [if_pos holdest]
    exact ignore_keeps h
  · rw [if_neg holdest]
    dsimp only
    have hbrowsing := h.browsing
    split
    · have hmoved : Keeps editor { editor with
          draft := splice editor.draft 0 (editor.length + 1) editor.text
          draftLength := editor.length
          browsing := editor.browsing - 1 } :=
        ⟨⟨h.room, h.within, h.line, h.history, isRemembered_copy h editor.draft,
          (Nat.sub_le ..).trans hbrowsing⟩, fun _ hshows ↦ ⟨hshows.cursor, hshows.cells, hshows.before⟩⟩
      apply hmoved.trans
      exact recall_keeps hmoved.sound (h.history _)
    · have hmoved : Keeps editor { editor with browsing := editor.browsing - 1 } :=
        ⟨⟨h.room, h.within, h.line, h.history, h.draft, (Nat.sub_le ..).trans hbrowsing⟩,
          fun _ hshows ↦ ⟨hshows.cursor, hshows.cells, hshows.before⟩⟩
      apply hmoved.trans
      exact recall_keeps hmoved.sound (h.history _)

theorem recallNext_keeps (h : LineSound editor) : Keeps editor editor.recallNext := by
  unfold recallNext
  by_cases hnewest : editor.historyCount ≤ editor.browsing
  · rw [if_pos hnewest]
    exact ignore_keeps h
  · rw [if_neg hnewest]
    dsimp only
    have hsound : LineSound { editor with browsing := editor.browsing + 1 } :=
      ⟨h.room, h.within, h.line, h.history, h.draft, Nat.lt_of_not_le hnewest⟩
    have hmoved : Keeps editor { editor with browsing := editor.browsing + 1 } :=
      ⟨hsound, fun _ hshows ↦ ⟨hshows.cursor, hshows.cells, hshows.before⟩⟩
    apply hmoved.trans
    · split
      · exact recall_keeps hsound h.draft
      · exact recall_keeps hsound (h.history _)

theorem remember_keeps (h : LineSound editor) : Keeps editor editor.remember := by
  have hwritten : ∀ slot other, IsRemembered (Function.update editor.history slot
      (splice (editor.history slot) 0 (editor.length + 1) editor.text) other) := by
    intro slot other
    by_cases hother : other = slot
    · rw [hother, Function.update_self]
      exact isRemembered_copy h _
    · rw [Function.update_of_ne hother]
      exact h.history other
  unfold remember
  dsimp only
  split
  · exact ⟨h, fun _ hshows ↦ hshows⟩
  · split
    · exact ⟨h, fun _ hshows ↦ hshows⟩
    · split
      · exact ⟨⟨h.room, h.within, h.line, hwritten _, h.draft, Nat.le_succ_of_le h.browsing⟩,
          fun _ hshows ↦ ⟨hshows.cursor, hshows.cells, hshows.before⟩⟩
      · exact ⟨⟨h.room, h.within, h.line, hwritten _, h.draft, h.browsing⟩,
          fun _ hshows ↦ ⟨hshows.cursor, hshows.cells, hshows.before⟩⟩

/-! ## The bytes that are fed -/

structure SameLine (editor editor' : LineEditor) : Prop where
  text : editor'.text = editor.text
  length : editor'.length = editor.length
  cursor : editor'.cursor = editor.cursor
  output : editor'.output = editor.output

theorem SameLine.trans {other : LineEditor} (h : SameLine editor editor')
    (h' : SameLine editor' other) : SameLine editor other :=
  ⟨h'.text.trans h.text, h'.length.trans h.length, h'.cursor.trans h.cursor,
    h'.output.trans h.output⟩

theorem dispatchSequence_keeps (h : LineSound editor) (final : UInt8) :
    Keeps editor (editor.dispatchSequence final).2 := by
  have hself : Keeps editor editor := ⟨h, fun _ hshows ↦ hshows⟩
  unfold dispatchSequence
  dsimp only
  split
  · exact recallPrevious_keeps h
  split
  · exact recallNext_keeps h
  split
  · exact moveRight_keeps h
  split
  · exact moveLeft_keeps h
  split
  · exact moveToStart_keeps h
  split
  · exact moveToEnd_keeps h
  split
  · split
    · exact moveToStart_keeps h
    split
    · exact moveToEnd_keeps h
    split
    · exact deleteUnder_keeps h
    · exact hself
  · exact hself

theorem finishSequence_keeps (h : LineSound editor) (final : UInt8) :
    Keeps editor (editor.finishSequence final) := by
  have hdispatch := dispatchSequence_keeps h final
  unfold finishSequence
  rcases heq : editor.dispatchSequence final with ⟨_ | _, editor'⟩
  · rw [heq] at hdispatch
    exact hdispatch.trans (ignore_keeps hdispatch.sound)
  · rw [heq] at hdispatch
    exact hdispatch

def Steps (editor : LineEditor) (fed : LineResult × LineEditor) : Prop :=
  LineSound fed.2 ∧ (fed.1 = .pending → ∀ prompt, editor.Shows prompt → fed.2.Shows prompt)

theorem Keeps.steps (h : Keeps editor editor') : Steps editor (.pending, editor') :=
  ⟨h.sound, fun _ ↦ h.shows⟩

theorem steps_ite {p : Prop} [Decidable p] {yes no : LineResult × LineEditor}
    (hyes : p → Steps editor yes) (hno : ¬p → Steps editor no) :
    Steps editor (if p then yes else no) := by
  by_cases hp : p
  · rw [if_pos hp]
    exact hyes hp
  · rw [if_neg hp]
    exact hno hp

theorem feedPlain_steps (h : LineSound editor) (byte : UInt8) :
    Steps editor (editor.feedPlain byte) := by
  have hended : ∀ result ≠ LineResult.pending,
      Steps editor (result, editor.emit [byteOf '\n']) := by
    intro result hresult
    exact ⟨⟨h.room, h.within, h.line, h.history, h.draft, h.browsing⟩,
      fun hpending ↦ absurd hpending hresult⟩
  have hescape : Steps editor (.pending, { editor with state := .escape }) :=
    ⟨⟨h.room, h.within, h.line, h.history, h.draft, h.browsing⟩,
      fun _ _ hshows ↦ ⟨hshows.cursor, hshows.cells, hshows.before⟩⟩
  unfold feedPlain
  apply steps_ite
  · exact fun hprintable ↦ (insert_keeps h hprintable).steps
  intro _
  apply steps_ite
  · exact fun _ ↦ hended .complete (by decide)
  intro _
  apply steps_ite
  · exact fun _ ↦ hescape
  intro _
  apply steps_ite
  · exact fun _ ↦ (deleteBefore_keeps h).steps
  intro _
  apply steps_ite
  · exact fun _ ↦ steps_ite (fun _ ↦ hended .finish (by decide)) fun _ ↦ (deleteUnder_keeps h).steps
  intro _
  apply steps_ite
  · exact fun _ ↦ (moveToStart_keeps h).steps
  intro _
  apply steps_ite
  · exact fun _ ↦ (moveToEnd_keeps h).steps
  intro _
  apply steps_ite
  · exact fun _ ↦ (moveLeft_keeps h).steps
  intro _
  apply steps_ite
  · exact fun _ ↦ (moveRight_keeps h).steps
  intro _
  apply steps_ite
  · exact fun _ ↦ (recallPrevious_keeps h).steps
  intro _
  apply steps_ite
  · exact fun _ ↦ (recallNext_keeps h).steps
  intro _
  apply steps_ite
  · exact fun _ ↦ (killToStart_keeps h).steps
  intro _
  apply steps_ite
  · exact fun _ ↦ (killToEnd_keeps h).steps
  intro _
  exact (ignore_keeps h).steps

theorem keeps_parsing (h : LineSound editor) (state : LineParseState) (parameter : Bytes)
    (parameterLength : ℕ) : Keeps editor { editor with
      state := state, parameter := parameter, parameterLength := parameterLength } :=
  ⟨⟨h.room, h.within, h.line, h.history, h.draft, h.browsing⟩,
    fun _ hshows ↦ ⟨hshows.cursor, hshows.cells, hshows.before⟩⟩

theorem feed_steps (h : LineSound editor) (byte : UInt8) : Steps editor (editor.feed byte) := by
  unfold feed
  split
  · dsimp only
    split
    · exact (keeps_parsing h .csi editor.parameter 0).steps
    split
    · exact (keeps_parsing h .ss3 editor.parameter 0).steps
    · have hparser := keeps_parsing h .plain editor.parameter 0
      exact (hparser.trans (ignore_keeps hparser.sound)).steps
  · split
    · exact (keeps_parsing h editor.state _ (editor.parameterLength + 1)).steps
    dsimp only
    split
    · have hparser := keeps_parsing h .plain editor.parameter
        (min editor.parameterLength lineParameterCapacity)
      exact (hparser.trans (finishSequence_keeps hparser.sound byte)).steps
    · have hparser := keeps_parsing h .plain editor.parameter editor.parameterLength
      exact (hparser.trans (ignore_keeps hparser.sound)).steps
  · have hparser := keeps_parsing h .plain editor.parameter 0
    exact (hparser.trans (finishSequence_keeps hparser.sound byte)).steps
  · exact feedPlain_steps h byte

/-! ## Sequences that are not acted upon -/

def ActsUpon (parameters : List UInt8) (final : UInt8) : Prop :=
  final ∈ ['A', 'B', 'C', 'D', 'H', 'F'].map byteOf ∨
    final = byteOf '~' ∧ parameters ∈ ['1', '7', '4', '8', '3'].map fun digit ↦ [byteOf digit]

def ActsUponControl (byte : UInt8) : Prop :=
  byte ∈ [byteOf '\r', byteOf '\n', lineEscape, lineBackspace, lineDelete] ∨
    byte ∈ ['A', 'B', 'D', 'E', 'F', 'K', 'N', 'P', 'U'].map lineControl

def isParameter (byte : UInt8) : Prop := 0x20 ≤ byte ∧ byte ≤ 0x3F

/-- What a display or a keyboard may send that means nothing to the editor: a
control byte, an escape that introduces no sequence, or a whole sequence. -/
inductive Unacted : List UInt8 → Prop
  | control (byte : UInt8) (hprintable : ¬isPrintable byte) (hacts : ¬ActsUponControl byte) :
      Unacted [byte]
  | escape (byte : UInt8) (hcsi : byte ≠ byteOf '[') (hss3 : byte ≠ byteOf 'O') :
      Unacted [lineEscape, byte]
  | ss3 (final : UInt8) (hacts : ¬ActsUpon [] final) : Unacted [lineEscape, byteOf 'O', final]
  | csi (parameters : List UInt8) (final : UInt8)
      (hparameters : ∀ byte ∈ parameters, isParameter byte) (hfinal : ¬isParameter final)
      (hacts : ¬ActsUpon parameters final) :
      Unacted ([lineEscape, byteOf '['] ++ parameters ++ [final])

/-- `LineFeed` of one byte after another, none of which completes the line. -/
def feedAll (editor : LineEditor) (bytes : List UInt8) : LineEditor :=
  bytes.foldl (fun editor byte ↦ (editor.feed byte).2) editor

/-- However many of these bytes have been fed, the line is as it was. -/
def Quiet (editor : LineEditor) (bytes : List UInt8) : Prop :=
  ∀ fed, fed <+: bytes → SameLine editor (editor.feedAll fed)

theorem quiet_nil (editor : LineEditor) : Quiet editor [] := by
  intro fed hfed
  rw [List.prefix_nil.mp hfed]
  exact ⟨rfl, rfl, rfl, rfl⟩

theorem quiet_cons {byte : UInt8} {bytes : List UInt8} (hbyte : SameLine editor (editor.feed byte).2)
    (hbytes : Quiet (editor.feed byte).2 bytes) : Quiet editor (byte :: bytes) := by
  intro fed hfed
  rcases List.prefix_cons_iff.mp hfed with rfl | ⟨rest, rfl, hrest⟩
  · exact ⟨rfl, rfl, rfl, rfl⟩
  · exact hbyte.trans (hbytes rest hrest)

structure Collected (editor : LineEditor) (parameters : List UInt8) : Prop where
  state : editor.state = .csi
  length : editor.parameterLength = parameters.length
  first : ∀ byte, parameters.head? = some byte → editor.parameter 0 = byte

theorem ignore_same (editor : LineEditor) : SameLine editor editor.ignore := ⟨rfl, rfl, rfl, rfl⟩

theorem finishSequence_of_not_actsUpon {parameters : List UInt8} {final : UInt8}
    (hacts : ¬ActsUpon parameters final)
    (hone : editor.parameterLength = 1 → parameters = [editor.parameter 0]) :
    editor.finishSequence final = editor.ignore := by
  obtain ⟨hletters, htilde⟩ := not_or.mp hacts
  have hdispatch : editor.dispatchSequence final = (false, editor) := by
    simp only [List.map_cons, List.map_nil, List.mem_cons, List.not_mem_nil, or_false,
      not_or] at hletters
    obtain ⟨hA, hB, hC, hD, hH, hF⟩ := hletters
    have hdigit : ∀ digit ∈ ['1', '7', '4', '8', '3'], final = byteOf '~' →
        ¬(editor.parameterLength = 1 ∧ editor.parameter 0 = byteOf digit) := by
      rintro digit hdigit hfinal ⟨hlength, hparameter⟩
      refine htilde ⟨hfinal, List.mem_map.mpr ⟨digit, hdigit, ?_⟩⟩
      rw [hone hlength, hparameter]
    unfold dispatchSequence
    dsimp only
    rw [if_neg hA, if_neg hB, if_neg hC, if_neg hD, if_neg hH, if_neg hF]
    by_cases hfinal : final = byteOf '~'
    · have h1 := hdigit '1' (by decide) hfinal
      have h7 := hdigit '7' (by decide) hfinal
      have h4 := hdigit '4' (by decide) hfinal
      have h8 := hdigit '8' (by decide) hfinal
      have h3 := hdigit '3' (by decide) hfinal
      have heither : ∀ {digit other : UInt8},
          ¬(editor.parameterLength = 1 ∧ editor.parameter 0 = digit) →
          ¬(editor.parameterLength = 1 ∧ editor.parameter 0 = other) →
          ¬(editor.parameterLength = 1 ∧
            (editor.parameter 0 = digit ∨ editor.parameter 0 = other)) := by
        rintro digit other hdigit hother ⟨hlength, hparameter⟩
        exact hparameter.elim (hdigit ⟨hlength, ·⟩) (hother ⟨hlength, ·⟩)
      rw [if_pos hfinal, if_neg (heither h1 h7), if_neg (heither h4 h8), if_neg h3]
    · rw [if_neg hfinal]
  unfold finishSequence
  rw [hdispatch]

theorem feedPlain_of_not_actsUpon {byte : UInt8} (hprintable : ¬isPrintable byte)
    (hacts : ¬ActsUponControl byte) : editor.feedPlain byte = (.pending, editor.ignore) := by
  obtain ⟨hnamed, hcontrol⟩ := not_or.mp hacts
  simp only [List.map_cons, List.map_nil, List.mem_cons, List.not_mem_nil, or_false,
    not_or] at hnamed hcontrol
  obtain ⟨hreturn, hnewline, hescape, hbackspace, hdelete⟩ := hnamed
  obtain ⟨hA, hB, hD, hE, hF, hK, hN, hP, hU⟩ := hcontrol
  unfold isPrintable at hprintable
  unfold feedPlain
  rw [if_neg hprintable, if_neg (not_or.mpr ⟨hreturn, hnewline⟩), if_neg hescape,
    if_neg (not_or.mpr ⟨hbackspace, hdelete⟩), if_neg hD, if_neg hA, if_neg hE, if_neg hB,
    if_neg hF, if_neg hP, if_neg hN, if_neg hU, if_neg hK]

theorem feed_plain (hstate : editor.state = .plain) (byte : UInt8) :
    editor.feed byte = editor.feedPlain byte := by
  unfold feed
  rw [hstate]

theorem feed_escape (hstate : editor.state = .plain) :
    (editor.feed lineEscape).2 = { editor with state := .escape } := by
  rw [feed_plain hstate]
  rfl

theorem Collected.feed {parameters : List UInt8} {byte : UInt8} (h : Collected editor parameters)
    (hbyte : isParameter byte) :
    Collected (editor.feed byte).2 (parameters ++ [byte]) ∧
      SameLine editor (editor.feed byte).2 := by
  have hfed : (editor.feed byte).2 = { editor with
      parameter := if editor.parameterLength < lineParameterCapacity then
        Function.update editor.parameter editor.parameterLength byte else editor.parameter
      parameterLength := editor.parameterLength + 1 } := by
    unfold isParameter at hbyte
    unfold LineEditor.feed
    rw [h.state]
    dsimp only
    rw [if_pos hbyte]
  rw [hfed]
  refine ⟨⟨h.state, by simp [h.length], fun first hfirst ↦ ?_⟩, rfl, rfl, rfl, rfl⟩
  dsimp only
  cases parameters with
  | nil =>
      have hlength : editor.parameterLength = 0 := h.length
      rw [hlength, if_pos (by decide), Function.update_self]
      exact Option.some.inj hfirst
  | cons other parameters =>
      have hlength : editor.parameterLength = parameters.length + 1 := h.length
      split
      · rw [Function.update_of_ne (by omega)]
        exact h.first first hfirst
      · exact h.first first hfirst

theorem Collected.final_same {parameters : List UInt8} {final : UInt8}
    (h : Collected editor parameters) (hfinal : ¬isParameter final)
    (hacts : ¬ActsUpon parameters final) : SameLine editor (editor.feed final).2 := by
  unfold isParameter at hfinal
  unfold LineEditor.feed
  rw [h.state]
  dsimp only
  rw [if_neg hfinal]
  split
  · rw [finishSequence_of_not_actsUpon hacts]
    · exact ⟨rfl, rfl, rfl, rfl⟩
    · intro hone
      dsimp only at hone ⊢
      have hlength : parameters.length = 1 := by
        rw [h.length] at hone
        unfold lineParameterCapacity at hone
        omega
      obtain ⟨byte, hbyte⟩ := List.length_eq_one_iff.mp hlength
      rw [hbyte, h.first byte (by rw [hbyte]; rfl)]
  · exact ⟨rfl, rfl, rfl, rfl⟩

theorem Collected.quiet (parameters : List UInt8) {more : List UInt8} {final : UInt8}
    (h : Collected editor parameters) (hmore : ∀ byte ∈ more, isParameter byte)
    (hfinal : ¬isParameter final) (hacts : ¬ActsUpon (parameters ++ more) final) :
    Quiet editor (more ++ [final]) := by
  induction more generalizing editor parameters with
  | nil =>
      rw [List.append_nil] at hacts
      exact quiet_cons (h.final_same hfinal hacts) (quiet_nil _)
  | cons byte more ih =>
      obtain ⟨hcollected, hsame⟩ := h.feed (hmore byte List.mem_cons_self)
      apply quiet_cons hsame
      apply ih _ hcollected fun other hother ↦ hmore other (List.mem_cons_of_mem byte hother)
      rwa [List.append_assoc]

theorem Unacted.quiet {bytes : List UInt8} (h : Unacted bytes) (hstate : editor.state = .plain) :
    Quiet editor bytes := by
  have hescaped := feed_escape hstate
  have hescape : ∀ rest, Quiet ({ editor with state := .escape } : LineEditor) rest →
      Quiet editor (lineEscape :: rest) := by
    intro rest hrest
    apply quiet_cons
    · exact hescaped ▸ ⟨rfl, rfl, rfl, rfl⟩
    · rwa [hescaped]
  cases h with
  | control byte hprintable hacts =>
      apply quiet_cons _ (quiet_nil _)
      rw [feed_plain hstate, feedPlain_of_not_actsUpon hprintable hacts]
      exact ignore_same editor
  | escape byte hcsi hss3 =>
      apply hescape
      apply quiet_cons _ (quiet_nil _)
      unfold LineEditor.feed
      dsimp only
      rw [if_neg hcsi, if_neg hss3]
      exact ⟨rfl, rfl, rfl, rfl⟩
  | ss3 final hacts =>
      apply hescape
      apply quiet_cons ⟨rfl, rfl, rfl, rfl⟩
      apply quiet_cons _ (quiet_nil _)
      unfold LineEditor.feed
      change SameLine _ (LineEditor.finishSequence _ final)
      rw [finishSequence_of_not_actsUpon hacts (fun hone ↦ absurd hone Nat.zero_ne_one)]
      exact ⟨rfl, rfl, rfl, rfl⟩
  | csi parameters final hparameters hfinal hacts =>
      apply hescape
      apply quiet_cons ⟨rfl, rfl, rfl, rfl⟩
      apply Collected.quiet [] ⟨rfl, rfl, nofun⟩ hparameters hfinal
      exact hacts

/-! ## Every run -/

/-- What the callers do with an editor: `isOpen` tells whether a line has been
begun and not completed. -/
inductive LineRun : LineEditor → Bool → Prop
  | initialise : LineRun initialise false
  | begin (editor : LineEditor) (isOpen : Bool) (run : LineRun editor isOpen) :
      LineRun editor.begin true
  | feed (editor : LineEditor) (byte : UInt8) (run : LineRun editor true) :
      LineRun (editor.feed byte).2 (decide ((editor.feed byte).1 = .pending))
  | preset (editor : LineEditor) (text : Bytes) (length : ℕ) (hline : IsLine text length)
      (hroom : length < lineCapacity) (run : LineRun editor true) : LineRun (editor.preset text) true
  | remember (editor : LineEditor) (isOpen : Bool) (run : LineRun editor isOpen) :
      LineRun editor.remember isOpen

theorem LineRun.pending {byte : UInt8} (run : LineRun editor true)
    (hpending : (editor.feed byte).1 = .pending) : LineRun (editor.feed byte).2 true := by
  have hfed := LineRun.feed editor byte run
  rwa [decide_eq_true hpending] at hfed

structure Prompts (prompt : Row) : Prop where
  cursor : prompt.cursor = 0
  blank : ∀ i : ℕ, prompt.cells i = lineBlank

theorem isLine_begun (text : Bytes) : IsLine (Function.update text 0 0) 0 :=
  ⟨nofun, Function.update_self ..⟩

theorem begin_sound (h : LineSound editor) : LineSound editor.begin where
  room := Nat.succ_pos _
  within := le_rfl
  line := isLine_begun editor.text
  history := h.history
  draft := ⟨0, by decide, isLine_begun editor.draft⟩
  browsing := le_rfl

theorem begin_shows (editor : LineEditor) (hprompt : Prompts prompt) :
    editor.begin.Shows prompt where
  cursor := hprompt.cursor
  cells := hprompt.blank
  before _ _ := rfl

theorem LineRun.sound {isOpen : Bool} (h : LineRun editor isOpen) : LineSound editor := by
  induction h with
  | initialise =>
      have hnone : IsRemembered fun _ ↦ 0 := ⟨0, by decide, nofun, rfl⟩
      exact ⟨by decide, le_rfl, ⟨nofun, rfl⟩, fun _ ↦ hnone, hnone, le_rfl⟩
  | begin editor isOpen run ih => exact begin_sound ih
  | feed editor byte run ih => exact (feed_steps ih byte).1
  | preset editor text length hline hroom run ih => exact (replace_keeps ih hline hroom).sound
  | remember editor isOpen run ih => exact (remember_keeps ih).sound

theorem LineRun.shows {isOpen : Bool} (h : LineRun editor isOpen) (hopen : isOpen = true)
    (hprompt : Prompts prompt) : editor.Shows prompt := by
  induction h with
  | initialise => exact absurd hopen (by decide)
  | begin editor isOpen run ih => exact begin_shows editor hprompt
  | feed editor byte run ih =>
      exact (feed_steps run.sound byte).2 (of_decide_eq_true hopen) prompt (ih rfl)
  | preset editor text length hline hroom run ih =>
      exact (replace_keeps run.sound hline hroom).shows prompt (ih rfl)
  | remember editor isOpen run ih => exact (remember_keeps run.sound).shows prompt (ih hopen)

/-- In every run the display shows the line that is open, the text is terminated
at its length within the capacity, and no sequence the editor does not act upon
changes the line or emits anything, however much of it has been fed. -/
theorem LineRun.display (h : LineRun editor true) :
    (∀ prompt, Prompts prompt → editor.Shows prompt) ∧
      editor.text editor.length = 0 ∧
      editor.length < lineCapacity ∧
      editor.cursor ≤ editor.length ∧
      ∀ bytes, Unacted bytes → editor.state = .plain → Quiet editor bytes :=
  ⟨fun _ hprompt ↦ h.shows rfl hprompt, h.sound.line.terminated, h.sound.room, h.sound.within,
    fun _ hbytes hstate ↦ hbytes.quiet hstate⟩

/-- The line holds one character, with the cursor gone back before it. -/
theorem display_moved :
    let editor := initialise.begin.feedAll [byteOf 'b', lineControl 'A']
    (editor.text 0 = byteOf 'b' ∧ editor.length = 1 ∧ editor.cursor = 0) ∧
      ∀ prompt, Prompts prompt → editor.Shows prompt := by
  have hbegun : LineRun initialise.begin true := .begin _ _ .initialise
  have hrun : LineRun (initialise.begin.feedAll [byteOf 'b', lineControl 'A']) true :=
    (hbegun.pending (by decide +kernel)).pending (by decide +kernel)
  exact ⟨by decide +kernel, (LineRun.display hrun).1⟩

end LineEditor

end OxysOS.Libc
