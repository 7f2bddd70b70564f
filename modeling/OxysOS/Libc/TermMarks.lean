import OxysOS.Libc.Term

/-!
# The marks of a terminal's rows

`libc/term/term.c`: a new size for the grid, and the rows that are owed to whoever draws them.
Whatever is written, each row keeps its text, the cursor is within the grid, and a row that is not
marked is as it was.
-/

namespace OxysOS.Libc

open OxysOS.Library

variable {screen before after : TermScreen}

/-- One cell of `TermResize`. -/
def termResizeCell (screen : TermScreen) (row source column : ℕ) : TermScreen :=
  { screen with
    cell := fun row' column' ↦
      if row' = row ∧ column' = column then
        if source < screen.rows ∧ column < screen.columns then screen.cell source column else 0x20
      else screen.cell row' column' }

/-- One row of `TermResize`. -/
def termResizeRow (columns dropped : ℕ) (screen : TermScreen) (row : ℕ) : TermScreen :=
  let screen := (List.range columns).foldl (fun screen column ↦
    termResizeCell screen row (row + dropped) column) screen
  { screen with
    cell := fun row' column ↦ if row' = row ∧ column = columns then 0 else screen.cell row' column
    changed := Function.update screen.changed row true }

/-- `TermResize`, of a screen that is somewhere. -/
def termResize (screen : TermScreen) (columns rows : ℕ) : Bool × TermScreen :=
  if columns = 0 ∨ rows = 0 ∨ columns > termColumnsMaximum ∨ rows > termRowsMaximum then
    (false, screen)
  else
    let dropped := if screen.cursorRow + 1 > rows then screen.cursorRow + 1 - rows else 0
    let screen := (List.range rows).foldl (termResizeRow columns dropped) screen
    (true, { screen with
      columns
      rows
      cursorRow := screen.cursorRow - dropped
      cursorColumn := if screen.cursorColumn ≥ columns then columns - 1 else screen.cursorColumn })

def termRow (screen : TermScreen) (row : ℕ) : Option (ℕ → UInt8) :=
  if row ≥ screen.rows then none else some (screen.cell row)

def termRowChanged (screen : TermScreen) (row : ℕ) : Bool :=
  row < screen.rows ∧ screen.changed row

def termRowDrawn (screen : TermScreen) (row : ℕ) : TermScreen :=
  if row < screen.rows then { screen with changed := Function.update screen.changed row false }
  else screen

def IsPrintable (byte : UInt8) : Prop := 0x20 ≤ byte ∧ byte ≤ 0x7E

def TermScreen.Terminated (screen : TermScreen) (row : ℕ) : Prop :=
  (∀ column < screen.columns, IsPrintable (screen.cell row column)) ∧
    screen.cell row screen.columns = 0

structure TermHolds (screen : TermScreen) : Prop where
  columns_pos : 0 < screen.columns
  columns_le : screen.columns ≤ termColumnsMaximum
  rows_pos : 0 < screen.rows
  rows_le : screen.rows ≤ termRowsMaximum
  cursor : screen.screen.Sound
  row : ∀ row < screen.rows, screen.Terminated row

structure TermStep (before after : TermScreen) : Prop where
  rows : after.rows = before.rows
  columns : after.columns = before.columns
  changed : ∀ row, before.changed row = true → after.changed row = true
  kept : ∀ row < before.rows, after.changed row = false → after.cell row = before.cell row
  terminated : (∀ row < before.rows, before.Terminated row) →
    ∀ row < before.rows, after.Terminated row

namespace TermStep

theorem refl (screen : TermScreen) : TermStep screen screen :=
  ⟨rfl, rfl, fun _ h ↦ h, fun _ _ _ ↦ rfl, fun h ↦ h⟩

theorem trans {later : TermScreen} (h : TermStep before after) (h' : TermStep after later) :
    TermStep before later where
  rows := h'.rows.trans h.rows
  columns := h'.columns.trans h.columns
  changed := fun row hrow ↦ h'.changed row (h.changed row hrow)
  kept := fun row hrow hlater ↦ by
    have hafter : after.changed row = false := by
      rw [← Bool.not_eq_true]
      intro hmarked
      exact absurd ((h'.changed row hmarked).symm.trans hlater) (by decide)
    exact (h'.kept row (h.rows ▸ hrow) hlater).trans (h.kept row hrow hafter)
  terminated := fun hbefore row hrow ↦
    h'.terminated (fun row hrow ↦ h.terminated hbefore row (h.rows ▸ hrow)) row (h.rows ▸ hrow)

theorem of_same (hrows : after.rows = before.rows) (hcolumns : after.columns = before.columns)
    (hchanged : after.changed = before.changed) (hcell : after.cell = before.cell) :
    TermStep before after where
  rows := hrows
  columns := hcolumns
  changed := fun row hrow ↦ by rwa [hchanged]
  kept := fun row _ _ ↦ by rw [hcell]
  terminated := fun hbefore row hrow ↦ by
    have hrow := hbefore row hrow
    unfold TermScreen.Terminated at *
    rwa [hcolumns, hcell]

theorem touch {changed : TermScreen} {row : ℕ} (hrows : changed.rows = before.rows)
    (hcolumns : changed.columns = before.columns) (hchanged : changed.changed = before.changed)
    (hcell : ∀ row' ≠ row, changed.cell row' = before.cell row')
    (hrow : row < before.rows → (∀ row < before.rows, before.Terminated row) →
      changed.Terminated row) :
    TermStep before (termTouch changed row) := by
  have hshape : (termTouch changed row).rows = changed.rows ∧
      (termTouch changed row).columns = changed.columns ∧
      (termTouch changed row).cell = changed.cell := by
    unfold termTouch
    split <;> exact ⟨rfl, rfl, rfl⟩
  have hmarks (row' : ℕ) (hlt : row' < before.rows) :
      (termTouch changed row).changed row' = if row' = row then true else before.changed row' := by
    unfold termTouch
    by_cases hsame : row' = row
    · subst hsame
      rw [if_pos (hrows ▸ hlt), if_pos rfl]
      exact Function.update_self row' true changed.changed
    · rw [if_neg hsame, ← hchanged]
      split
      · exact Function.update_of_ne hsame true changed.changed
      · rfl
  refine ⟨hshape.1.trans hrows, hshape.2.1.trans hcolumns, fun row' hmarked ↦ ?_,
    fun row' hlt hnone ↦ ?_, fun hbefore row' hlt ↦ ?_⟩
  · unfold termTouch
    split
    · by_cases hsame : row' = row
      · subst hsame
        exact Function.update_self row' true changed.changed
      · exact (Function.update_of_ne hsame true changed.changed).trans
          ((congrFun hchanged row').trans hmarked)
    · rwa [hchanged]
  · rw [hmarks row' hlt] at hnone
    rw [hshape.2.2]
    exact hcell row' fun hsame ↦ by simp [hsame] at hnone
  · unfold TermScreen.Terminated
    rw [hshape.2.1, hshape.2.2]
    by_cases hsame : row' = row
    · subst hsame
      exact hrow hlt hbefore
    · rw [hcell row' hsame, hcolumns]
      exact hbefore row' hlt

theorem foldl {α : Type} {f : TermScreen → α → TermScreen} (turns : List α)
    (h : ∀ next, TermStep before next → ∀ turn ∈ turns, TermStep next (f next turn))
    {screen : TermScreen} (hscreen : TermStep before screen) :
    TermStep before (turns.foldl f screen) := by
  induction turns generalizing screen with
  | nil => exact hscreen
  | cons turn turns ih =>
      refine ih (fun next hnext turn hmem ↦ h next hnext turn (List.mem_cons_of_mem _ hmem)) ?_
      exact hscreen.trans (h screen hscreen turn List.mem_cons_self)

end TermStep

theorem termTouch_step (screen : TermScreen) (row : ℕ) : TermStep screen (termTouch screen row) :=
  TermStep.touch rfl rfl rfl (fun _ _ ↦ rfl) fun hlt h ↦ h row hlt

theorem terminated_termTouch (row row' : ℕ) :
    (termTouch screen row).Terminated row' ↔ screen.Terminated row' := by
  unfold termTouch
  split <;> exact Iff.rfl

theorem termClearRow_terminated (screen : TermScreen) (row : ℕ) :
    (termClearRow screen row).Terminated row := by
  refine (terminated_termTouch row row).mpr ⟨fun column hlt ↦ ?_, by simp⟩
  have hcolumn : column < screen.columns := hlt
  simp only [true_and, if_pos hcolumn]
  exact ⟨by decide, by decide⟩

theorem termClearRow_step (screen : TermScreen) (row : ℕ) :
    TermStep screen (termClearRow screen row) := by
  refine TermStep.touch rfl rfl rfl (fun row' hne ↦ ?_) fun _ _ ↦
    (terminated_termTouch row row).mp (termClearRow_terminated screen row)
  funext column
  simp [hne]

theorem termCopyUp_step {row : ℕ} (hrow : row < screen.rows) :
    TermStep screen (termCopyUp screen row) := by
  refine TermStep.touch rfl rfl rfl (fun row' hne ↦ ?_) fun _ h ↦ ⟨fun column hlt ↦ ?_, ?_⟩
  · funext column
    simp [hne]
  · have hcolumn : column ≤ screen.columns := Nat.le_of_lt hlt
    simp only [true_and, if_pos hcolumn]
    exact (h row hrow).1 column hlt
  · simpa using (h row hrow).2

theorem termScroll_step (screen : TermScreen) : TermStep screen (termScroll screen) := by
  have hcopied : TermStep screen ((List.range (screen.rows - 1)).foldl
      (fun screen row ↦ termCopyUp screen (row + 1)) screen) := by
    refine TermStep.foldl _ (fun next hnext row hmem ↦ termCopyUp_step ?_) (TermStep.refl screen)
    have hrow := List.mem_range.mp hmem
    have hrows := hnext.rows
    omega
  exact (hcopied.trans (termClearRow_step _ _)).trans (TermStep.of_same rfl rfl rfl rfl)

theorem termDown_step (screen : TermScreen) : TermStep screen (termDown screen) := by
  unfold termDown
  split
  · exact TermStep.of_same rfl rfl rfl rfl
  · exact termScroll_step screen

namespace TermStep

theorem moved (h : TermStep before after) (row column : ℕ) (scrolls written : UInt64) :
    TermStep before { after with cursorRow := row, cursorColumn := column, scrolls, written } :=
  h.trans (of_same rfl rfl rfl rfl)

theorem touched (h : TermStep before after) (row : ℕ) : TermStep before (termTouch after row) :=
  h.trans (termTouch_step after row)

theorem down (h : TermStep before after) : TermStep before (termDown after) :=
  h.trans (termDown_step after)

theorem wrap (h : TermStep before after) : TermStep before (termWrap after) := by
  unfold termWrap
  split
  · exact ((h.moved _ 0 _ _).down).touched _
  · exact h

end TermStep

structure TabStep (before after : TermScreen) : Prop where
  rows : after.rows = before.rows
  columns : after.columns = before.columns
  changed : after.changed = before.changed
  cursorRow : after.cursorRow = before.cursorRow
  cursorColumn : after.cursorColumn ≤ before.columns
  other : ∀ row ≠ before.cursorRow, after.cell row = before.cell row
  terminated : before.Terminated before.cursorRow → after.Terminated before.cursorRow

theorem termTab_step (turns : ℕ) (h : screen.cursorColumn < screen.columns) :
    TabStep screen (termTab screen turns) := by
  induction turns generalizing screen with
  | zero => exact ⟨rfl, rfl, rfl, rfl, Nat.le_of_lt h, fun _ _ ↦ rfl, fun hrow ↦ hrow⟩
  | succ turns ih =>
      have hspace : TabStep screen { screen with
          cell := fun row column ↦
            if row = screen.cursorRow ∧ column = screen.cursorColumn then 0x20
            else screen.cell row column
          cursorColumn := screen.cursorColumn + 1 } := by
        refine ⟨rfl, rfl, rfl, rfl, h, fun row hne ↦ ?_, fun hrow ↦ ⟨fun column hlt ↦ ?_, ?_⟩⟩
        · funext column
          simp [hne]
        · dsimp only
          split
          · exact ⟨by decide, by decide⟩
          · exact hrow.1 column hlt
        · have hend : screen.columns ≠ screen.cursorColumn := Nat.ne_of_gt h
          simpa [hend] using hrow.2
      unfold termTab
      dsimp only
      split
      · next hmore =>
          have hnext : TabStep _ (termTab { screen with
              cell := fun row column ↦
                if row = screen.cursorRow ∧ column = screen.cursorColumn then 0x20
                else screen.cell row column
              cursorColumn := screen.cursorColumn + 1 } turns) := ih hmore.1
          exact ⟨hnext.rows, hnext.columns, hnext.changed, hnext.cursorRow, hnext.cursorColumn,
            fun row hne ↦ (hnext.other row hne).trans (hspace.other row hne),
            fun hrow ↦ hnext.terminated (hspace.terminated hrow)⟩
      · exact hspace

theorem termPut_step {byte : UInt8} (hbyte : IsPrintable byte)
    (h : screen.cursorColumn < screen.columns) : TermStep screen (termPut screen byte) := by
  have hput : TermStep screen (termTouch { screen with
      cell := fun row column ↦
        if row = screen.cursorRow ∧ column = screen.cursorColumn then byte
        else screen.cell row column } screen.cursorRow) := by
    refine TermStep.touch rfl rfl rfl (fun row hne ↦ ?_) fun hlt hrows ↦ ⟨fun column hcolumn ↦ ?_, ?_⟩
    · funext column
      simp [hne]
    · dsimp only
      split
      · exact hbyte
      · exact (hrows _ hlt).1 column hcolumn
    · have hend : screen.columns ≠ screen.cursorColumn := Nat.ne_of_gt h
      simpa [hend] using (hrows _ hlt).2
  exact (hput.moved _ _ _ _).wrap

theorem termBackspace_step (screen : TermScreen) : TermStep screen (termBackspace screen) := by
  unfold termBackspace
  split_ifs <;> exact TermStep.of_same rfl rfl rfl rfl

theorem TabStep.touched (h : TabStep before after) :
    TermStep before (termTouch after after.cursorRow) := by
  rw [h.cursorRow]
  exact TermStep.touch h.rows h.columns h.changed h.other fun hlt hrows ↦
    h.terminated (hrows _ hlt)

theorem isPrintable_of_not {byte : UInt8} (h : ¬(byte < 0x20 ∨ byte ≥ 0x80 ∨ byte = 0x7F)) :
    IsPrintable byte := by
  obtain ⟨hfirst, hlast, hdelete⟩ : 0x20 ≤ byte ∧ byte < 0x80 ∧ byte ≠ 0x7F := by
    simpa [UInt8.not_lt, UInt8.not_le] using h
  have hlt : byte.toNat < 0x80 := UInt8.lt_iff_toNat_lt.mp hlast
  have hne : byte.toNat ≠ 0x7F := fun hsame ↦ hdelete (UInt8.toNat_inj.mp hsame)
  have hle : byte.toNat ≤ 0x7E := by omega
  exact ⟨hfirst, UInt8.le_iff_toNat_le.mpr hle⟩

theorem termWriteByte_step (h : screen.cursorColumn < screen.columns) (byte : UInt8) :
    TermStep screen (termWriteByte screen byte) := by
  have hwritten := (TermStep.refl screen).moved screen.cursorRow screen.cursorColumn screen.scrolls
    (screen.written + 1)
  unfold termWriteByte
  split_ifs with hnone hreturn hfeed hback hclear htab hother
  · exact TermStep.refl screen
  · exact (hwritten.moved _ 0 _ _).touched _
  · exact (((hwritten.touched _).moved _ 0 _ _).down).touched _
  · exact (hwritten.trans (termBackspace_step _)).touched _
  · refine TermStep.moved ?_ 0 0 _ _
    exact TermStep.foldl _ (fun next _ row _ ↦ termClearRow_step next row) hwritten
  · refine (hwritten.trans (TabStep.touched (termTab_step 8 ?_))).wrap
    exact h
  · exact hwritten
  · refine hwritten.trans (termPut_step ?_ ?_)
    · exact isPrintable_of_not hother
    · exact h

theorem TermHolds.step (h : TermHolds before) (hstep : TermStep before after)
    (hcursor : after.screen.Sound) : TermHolds after where
  columns_pos := hstep.columns ▸ h.columns_pos
  columns_le := hstep.columns ▸ h.columns_le
  rows_pos := hstep.rows ▸ h.rows_pos
  rows_le := hstep.rows ▸ h.rows_le
  cursor := hcursor
  row := fun row hrow ↦ hstep.terminated h.row row (hstep.rows ▸ hrow)

theorem termBackspace_sound (h : screen.screen.Sound) : (termBackspace screen).screen.Sound := by
  have hrow : screen.cursorRow < screen.rows := h.row
  have hcolumn : screen.cursorColumn < screen.columns := h.column
  unfold termBackspace
  split_ifs
  · exact ⟨hrow, Nat.lt_of_le_of_lt (Nat.sub_le _ _) hcolumn⟩
  · exact ⟨Nat.lt_of_le_of_lt (Nat.sub_le _ _) hrow, Nat.sub_lt (Nat.zero_lt_of_lt hcolumn) Nat.one_pos⟩
  · exact h

theorem termWrap_sound (hrow : screen.cursorRow < screen.rows) (hcolumns : 0 < screen.columns) :
    (termWrap screen).screen.Sound := by
  unfold termWrap
  split
  · have hhome : { screen with cursorColumn := 0 }.screen.Sound := ⟨hrow, hcolumns⟩
    rw [screen_termTouch]
    exact (termDown_like { screen with cursorColumn := 0 } 0).sound (hhome.feed)
  · next hroom => exact ⟨hrow, Nat.lt_of_not_le hroom⟩

theorem termWriteByte_tab (h : 0 < screen.columns) :
    termWriteByte screen 0x09 =
      (let screen := termTab { screen with written := screen.written + 1 } 8
      termWrap (termTouch screen screen.cursorRow)) := by
  have hnone : ¬screen.columns = 0 := Nat.ne_of_gt h
  simp [termWriteByte, hnone]

theorem termWriteByte_other {byte : UInt8} (hcontrol : byte ≠ 0x0D ∧ byte ≠ 0x0A ∧ byte ≠ 0x08 ∧
    byte ≠ 0x0C ∧ byte ≠ 0x09) (hother : byte < 0x20 ∨ byte ≥ 0x80 ∨ byte = 0x7F) :
    (termWriteByte screen byte).screen = screen.screen := by
  obtain ⟨hreturn, hfeed, hback, hclear, htab⟩ := hcontrol
  simp only [termWriteByte, hreturn, hfeed, hback, hclear, htab, if_false, if_pos hother]
  split <;> rfl

theorem termWriteByte_sound (h : screen.screen.Sound) (byte : UInt8) :
    (termWriteByte screen byte).screen.Sound := by
  have hcolumns : 0 < screen.columns := Nat.zero_lt_of_lt h.column
  by_cases hreturn : byte = 0x0D
  · rw [hreturn, termWriteByte_return hcolumns]
    exact h.home
  by_cases hfeed : byte = 0x0A
  · rw [hfeed]
    exact (termWriteByte_feed hcolumns).sound h.feed
  by_cases hback : byte = 0x08
  · rw [hback, termWriteByte_backspace hcolumns]
    exact termBackspace_sound h
  by_cases hclear : byte = 0x0C
  · rw [hclear]
    exact (termWriteByte_clear hcolumns).sound h.clear
  by_cases htab : byte = 0x09
  · have hcolumn : { screen with written := screen.written + 1 }.cursorColumn <
        { screen with written := screen.written + 1 }.columns := h.column
    have hspaces := termTab_step 8 hcolumn
    rw [htab, termWriteByte_tab hcolumns]
    generalize termTab { screen with written := screen.written + 1 } 8 = spaces at hspaces ⊢
    have htouch := screen_termTouch spaces spaces.cursorRow
    have hrow : (termTouch spaces spaces.cursorRow).cursorRow = screen.cursorRow :=
      (congrArg Screen.cursorRow htouch).trans hspaces.cursorRow
    have hrows : (termTouch spaces spaces.cursorRow).rows = screen.rows :=
      (congrArg Screen.rows htouch).trans hspaces.rows
    have hwide : (termTouch spaces spaces.cursorRow).columns = screen.columns :=
      (congrArg Screen.columns htouch).trans hspaces.columns
    refine termWrap_sound ?_ ?_
    · rw [hrow, hrows]
      exact h.row
    · rwa [hwide]
  by_cases hother : byte < 0x20 ∨ byte ≥ 0x80 ∨ byte = 0x7F
  · rw [termWriteByte_other ⟨hreturn, hfeed, hback, hclear, htab⟩ hother]
    exact h
  · obtain ⟨hfirst, hlast⟩ := isPrintable_of_not hother
    exact (termWriteByte_put hcolumns hfirst hlast).sound h.put

theorem TermHolds.writeByte (h : TermHolds screen) (byte : UInt8) :
    TermHolds (termWriteByte screen byte) :=
  h.step (termWriteByte_step h.cursor.column byte) (termWriteByte_sound h.cursor byte)

theorem TermHolds.write (h : TermHolds screen) (bytes : List UInt8) :
    TermHolds (termWrite screen bytes) ∧ TermStep screen (termWrite screen bytes) := by
  induction bytes generalizing screen with
  | nil => exact ⟨h, TermStep.refl screen⟩
  | cons byte bytes ih =>
      obtain ⟨hholds, hstep⟩ := ih (h.writeByte byte)
      exact ⟨hholds, (termWriteByte_step h.cursor.column byte).trans hstep⟩

theorem termTouch_changed {row : ℕ} (h : row < screen.rows) :
    (termTouch screen row).changed row = true := by
  simp [termTouch, h]

theorem termTouch_changed_of_ne {row other : ℕ} (h : other ≠ row) :
    (termTouch screen row).changed other = screen.changed other := by
  unfold termTouch
  split
  · exact Function.update_of_ne h true screen.changed
  · rfl

theorem foldl_termClearRow (screen : TermScreen) {turns : ℕ} (h : turns ≤ screen.rows) :
    ∀ row < turns, ((List.range turns).foldl termClearRow screen).Terminated row ∧
      ((List.range turns).foldl termClearRow screen).changed row = true := by
  induction turns with
  | zero => exact fun row hrow ↦ absurd hrow (Nat.not_lt_zero row)
  | succ turns ih =>
      intro row hrow
      have hstep : TermStep screen ((List.range turns).foldl termClearRow screen) :=
        TermStep.foldl _ (fun next _ row _ ↦ termClearRow_step next row) (TermStep.refl screen)
      have hbefore := ih (Nat.le_of_succ_le h)
      have hrows := hstep.rows
      rw [List.range_succ, List.foldl_append, List.foldl_cons, List.foldl_nil]
      generalize (List.range turns).foldl termClearRow screen = cleared at hbefore hrows
      by_cases hlast : row = turns
      · subst hlast
        exact ⟨termClearRow_terminated cleared row, termTouch_changed (by rw [hrows]; exact h)⟩
      · have hlt : row < turns := by omega
        have hcell : (termClearRow cleared turns).cell row = cleared.cell row := by
          have hclear := congrArg Screen.cell (screen_termClearRow cleared turns)
          funext column
          refine (congrFun (congrFun hclear row) column).trans ?_
          simp [hlast]
        have hwide := (termClearRow_step cleared turns).columns
        refine ⟨?_, (termTouch_changed_of_ne hlast).trans (hbefore row hlt).2⟩
        unfold TermScreen.Terminated
        rw [hcell, hwide]
        exact (hbefore row hlt).1

theorem termInitialise_holds {started : TermScreen} {columns rows : ℕ}
    (h : termInitialise screen columns rows = (true, started)) :
    TermHolds started ∧ started.columns = columns ∧ started.rows = rows ∧
      ∀ row < started.rows, started.changed row = true := by
  unfold termInitialise at h
  by_cases hbad : columns = 0 ∨ rows = 0 ∨ columns > termColumnsMaximum ∨ rows > termRowsMaximum
  · rw [if_pos hbad] at h
    cases h
  rw [if_neg hbad] at h
  obtain ⟨hcolumns, hrows, hwide, htall⟩ : columns ≠ 0 ∧ rows ≠ 0 ∧ columns ≤ termColumnsMaximum ∧
      rows ≤ termRowsMaximum := by
    simpa using hbad
  rw [← (Prod.mk.inj h).2]
  have hcleared := foldl_termClearRow { screen with
    columns, rows, cursorColumn := 0, cursorRow := 0, scrolls := 0, written := 0 } (Nat.le_refl rows)
  have hlike := screen_foldl_termClearRow { screen with
    columns, rows, cursorColumn := 0, cursorRow := 0, scrolls := 0, written := 0 } rows
  generalize (List.range rows).foldl termClearRow { screen with
    columns, rows, cursorColumn := 0, cursorRow := 0, scrolls := 0, written := 0 } = next
    at hcleared hlike ⊢
  have hnextRows : next.rows = rows := hlike.rows
  have hnextColumns : next.columns = columns := hlike.columns
  subst hnextRows hnextColumns
  refine ⟨⟨Nat.pos_of_ne_zero hcolumns, hwide, Nat.pos_of_ne_zero hrows, htall, ?_,
    fun row hrow ↦ (hcleared row hrow).1⟩, rfl, rfl, fun row hrow ↦ (hcleared row hrow).2⟩
  exact hlike.sound ⟨Nat.pos_of_ne_zero hrows, Nat.pos_of_ne_zero hcolumns⟩

def termResized (screen : TermScreen) (dropped row column : ℕ) : UInt8 :=
  if row + dropped < screen.rows ∧ column < screen.columns then screen.cell (row + dropped) column
  else 0x20

theorem foldl_termResizeCell (screen : TermScreen) (row dropped turns : ℕ) :
    (List.range turns).foldl (fun screen column ↦
        termResizeCell screen row (row + dropped) column) screen =
      { screen with
        cell := fun row' column ↦
          if row' = row ∧ column < turns then termResized screen dropped row column
          else screen.cell row' column } := by
  induction turns with
  | zero => simp
  | succ turns ih =>
      rw [List.range_succ, List.foldl_append, List.foldl_cons, List.foldl_nil, ih]
      unfold termResizeCell
      congr 1
      funext row' column
      dsimp only
      by_cases hrow : row' = row
      · subst hrow
        by_cases hcolumn : column = turns
        · subst hcolumn
          simp [termResized]
        · have hiff : column < turns + 1 ↔ column < turns := by omega
          simp only [hcolumn, and_false, if_false, true_and, hiff]
      · simp [hrow]

theorem foldl_termResizeRow (screen : TermScreen) (columns dropped turns : ℕ) :
    (List.range turns).foldl (termResizeRow columns dropped) screen =
      { screen with
        cell := fun row column ↦
          if row < turns ∧ column < columns then termResized screen dropped row column
          else if row < turns ∧ column = columns then 0
          else screen.cell row column
        changed := fun row ↦ if row < turns then true else screen.changed row } := by
  induction turns with
  | zero => simp
  | succ turns ih =>
      rw [List.range_succ, List.foldl_append, List.foldl_cons, List.foldl_nil, ih]
      unfold termResizeRow
      rw [foldl_termResizeCell]
      dsimp only
      congr 1
      · funext row column
        have hafter : ¬turns + dropped < turns := by omega
        by_cases hrow : row = turns
        · subst hrow
          simp only [termResized, hafter, Nat.lt_irrefl, false_and, if_false, true_and,
            Nat.lt_succ_self]
          by_cases hend : column = columns
          · subst hend
            simp
          · simp [hend]
        · have hiff : row < turns + 1 ↔ row < turns := by omega
          simp only [hrow, false_and, if_false, hiff]
      · funext row
        by_cases hrow : row = turns
        · subst hrow
          simp
        · have hiff : row < turns + 1 ↔ row < turns := by omega
          simp only [Function.update_of_ne hrow, hiff]

structure TermKept (before after : TermScreen) : Prop where
  cursor : after.cursorRow + (before.cursorRow + 1 - after.rows) = before.cursorRow
  text : ∀ row < after.rows, ∀ column < after.columns, after.cell row column =
    termResized before (before.cursorRow + 1 - after.rows) row column

theorem termResize_spec (h : TermHolds screen) {columns rows : ℕ} (hcolumns : 0 < columns)
    (hwide : columns ≤ termColumnsMaximum) (hrows : 0 < rows) (htall : rows ≤ termRowsMaximum) :
    ∃ next, termResize screen columns rows = (true, next) ∧ TermHolds next ∧
      next.columns = columns ∧ next.rows = rows ∧ (∀ row < rows, next.changed row = true) ∧
      TermKept screen next := by
  have hgood : ¬(columns = 0 ∨ rows = 0 ∨ columns > termColumnsMaximum ∨ rows > termRowsMaximum) := by
    omega
  have hdropped : (if screen.cursorRow + 1 > rows then screen.cursorRow + 1 - rows else 0) =
      screen.cursorRow + 1 - rows := by
    split <;> omega
  have hrow : screen.cursorRow < screen.rows := h.cursor.row
  refine ⟨_, if_neg hgood, ?_, rfl, rfl, ?_, ?_⟩
  all_goals rw [hdropped, foldl_termResizeRow]
  · refine ⟨hcolumns, hwide, hrows, htall, ⟨?_, ?_⟩, fun row hlt ↦ ⟨fun column hcolumn ↦ ?_, ?_⟩⟩
    · change screen.cursorRow - (screen.cursorRow + 1 - rows) < rows
      omega
    · change (if screen.cursorColumn ≥ columns then columns - 1 else screen.cursorColumn) < columns
      split <;> omega
    · have hlt' : row < rows := hlt
      have hcolumn' : column < columns := hcolumn
      simp only [hlt', hcolumn', true_and, if_true]
      unfold termResized
      split
      · next hin => exact (h.row _ hin.1).1 column hin.2
      · exact ⟨by decide, by decide⟩
    · have hlt' : row < rows := hlt
      simp [hlt']
  · intro row hlt
    exact if_pos hlt
  · refine ⟨?_, fun row hlt column hcolumn ↦ if_pos ⟨hlt, hcolumn⟩⟩
    change screen.cursorRow - (screen.cursorRow + 1 - rows) + (screen.cursorRow + 1 - rows) = _
    omega

end OxysOS.Libc
