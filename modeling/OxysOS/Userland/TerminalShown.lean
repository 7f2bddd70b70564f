import OxysOS.Userland.TerminalWindow

/-!
# What the window of the terminal emulator shows

Every row of the grid that is not marked is shown as it is, but for the cursor's cell, which is
shown reversed where the cursor was drawn, and whatever is in no cell is the ground.
-/

namespace OxysOS.Userland

open OxysOS.Library OxysOS.Libc

variable {face : Face} {state : TerminalState} {grid : TermScreen}
  {row column : ℕ}

section Cells

variable {size cell offset first count : ℕ}

theorem first_le_cell (h : offset < size) : first * size ≤ cell * size + offset ↔ first ≤ cell := by
  rw [← Nat.le_div_iff_mul_le (Nat.zero_lt_of_lt h), Nat.mul_comm cell,
    Nat.mul_add_div (Nat.zero_lt_of_lt h), Nat.div_eq_of_lt h, Nat.add_zero]

theorem cell_lt_end (h : offset < size) :
    cell * size + offset < first * size + count * size ↔ cell < first + count := by
  rw [← Nat.add_mul, ← Nat.div_lt_iff_lt_mul (Nat.zero_lt_of_lt h), Nat.mul_comm cell,
    Nat.mul_add_div (Nat.zero_lt_of_lt h), Nat.div_eq_of_lt h, Nat.add_zero]

theorem cell_sub (h : first ≤ cell) :
    cell * size + offset - first * size = size * (cell - first) + offset := by
  obtain ⟨more, rfl⟩ := Nat.exists_eq_add_of_le h
  rw [Nat.add_sub_cancel_left, Nat.add_mul, Nat.add_assoc, Nat.add_sub_cancel_left, Nat.mul_comm]

theorem row_iff {height : ℕ} (h : offset < height) (hle : height ≤ size) :
    first * size ≤ cell * size + offset ∧ cell * size + offset < first * size + height ↔
      cell = first := by
  constructor
  · rintro ⟨hfirst, hend⟩
    have hle' := (first_le_cell (h.trans_le hle)).mp hfirst
    have hlt : cell * size + offset < first * size + 1 * size := by omega
    have hlt' := (cell_lt_end (h.trans_le hle)).mp hlt
    omega
  · rintro rfl
    omega

end Cells

def cellWidth (scale : ℕ) : ℕ := terminalAdvance * scale

def cellPitch (scale : ℕ) : ℕ := terminalPitch * scale

def cellHeight (scale : ℕ) : ℕ := syscallWindowTextHeight * scale

theorem cellHeight_le (scale : ℕ) : cellHeight scale ≤ cellPitch scale :=
  Nat.mul_le_mul_right scale (by decide)

theorem terminalDrawAt_cell (column row : ℕ) (text : Bytes) (ink paper : UInt32) {c r u v : ℕ}
    (hu : u < cellWidth state.scale) (hv : v < cellHeight state.scale) :
    (terminalDrawAt face state column row text ink paper).content
        (c * cellWidth state.scale + u) (r * cellPitch state.scale + v) =
      if r = row ∧ column ≤ c ∧ c < column + (stringAt text 0 128).length then
        face ((stringAt text 0 128).getD (c - column) 0) ink paper state.scale u v
      else state.content (c * cellWidth state.scale + u) (r * cellPitch state.scale + v) := by
  have hx : column * terminalAdvance * state.scale = column * cellWidth state.scale :=
    Nat.mul_assoc _ _ _
  have hy : row * terminalPitch * state.scale = row * cellPitch state.scale := Nat.mul_assoc _ _ _
  have hcell : syscallWindowTextAdvance * state.scale = cellWidth state.scale := rfl
  have hheight : syscallWindowTextHeight * state.scale = cellHeight state.scale := rfl
  have hbytes : syscallWindowTextMaximum + 1 = 128 := rfl
  simp only [terminalDrawAt, oxysWindowText, hx, hy, hcell, hheight, hbytes, first_le_cell hu,
    cell_lt_end hu, row_iff hv (cellHeight_le state.scale)]
  by_cases hin : r = row ∧ column ≤ c ∧ c < column + (stringAt text 0 128).length
  · obtain ⟨rfl, hfirst, hlast⟩ := hin
    have hrest : r * cellPitch state.scale + v - r * cellPitch state.scale = v :=
      Nat.add_sub_cancel_left _ _
    rw [if_pos ⟨hfirst, hlast, rfl⟩, if_pos ⟨rfl, hfirst, hlast⟩, cell_sub hfirst,
      Nat.mul_add_div (Nat.zero_lt_of_lt hu), Nat.div_eq_of_lt hu, Nat.add_zero,
      Nat.mul_add_mod, Nat.mod_eq_of_lt hu, hrest]
  · rw [if_neg hin, if_neg fun h ↦ hin ⟨h.2.2, h.1, h.2.1⟩]

def ShowsCell (face : Face) (content : Content) (scale row column : ℕ) (character : UInt8)
    (reversed : Bool) : Prop :=
  ∀ u < cellWidth scale, ∀ v < cellHeight scale,
    content (column * cellWidth scale + u) (row * cellPitch scale + v) =
      face character (if reversed then terminalPaper else terminalInk)
        (if reversed then terminalInk else terminalPaper) scale u v

def OnCell (grid : TermScreen) (scale x y : ℕ) : Prop :=
  ∃ row < grid.rows, ∃ column < grid.columns, ∃ u < cellWidth scale, ∃ v < cellHeight scale,
    x = column * cellWidth scale + u ∧ y = row * cellPitch scale + v

variable (face state) in
theorem terminalDrawAt_shows (row : ℕ) {column c : ℕ} (text : Bytes) (reversed : Bool)
    (hfirst : column ≤ c) (hlast : c < column + (stringAt text 0 128).length) :
    ShowsCell face (terminalDrawAt face state column row text
      (if reversed then terminalPaper else terminalInk)
      (if reversed then terminalInk else terminalPaper)).content state.scale row c
      ((stringAt text 0 128).getD (c - column) 0) reversed := by
  intro u hu v hv
  rw [terminalDrawAt_cell _ _ _ _ _ hu hv, if_pos ⟨rfl, hfirst, hlast⟩]

theorem terminalDrawAt_shows_other {column row r c : ℕ} {text : Bytes} {ink paper : UInt32}
    {character : UInt8} {reversed : Bool}
    (hother : ¬(r = row ∧ column ≤ c ∧ c < column + (stringAt text 0 128).length))
    (h : ShowsCell face state.content state.scale r c character reversed) :
    ShowsCell face (terminalDrawAt face state column row text ink paper).content state.scale r c
      character reversed := by
  intro u hu v hv
  rw [terminalDrawAt_cell _ _ _ _ _ hu hv, if_neg hother]
  exact h u hu v hv

theorem terminalDrawAt_ground {column row x y : ℕ} {text : Bytes} {ink paper : UInt32}
    (hscale : 0 < state.scale) (hrow : row < grid.rows)
    (hlast : column + (stringAt text 0 128).length ≤ grid.columns)
    (h : ¬OnCell grid state.scale x y) :
    (terminalDrawAt face state column row text ink paper).content x y = state.content x y := by
  have hwidth : 0 < cellWidth state.scale := Nat.mul_pos (by decide) hscale
  have hx : column * terminalAdvance * state.scale = column * cellWidth state.scale :=
    Nat.mul_assoc _ _ _
  have hy : row * terminalPitch * state.scale = row * cellPitch state.scale := Nat.mul_assoc _ _ _
  refine if_neg fun hin ↦ h ?_
  obtain ⟨-, hright, htop, hbottom⟩ := hin
  dsimp only at hright htop hbottom
  rw [hx] at hright
  rw [hy] at htop hbottom
  change x < column * cellWidth state.scale +
    (stringAt text 0 128).length * cellWidth state.scale at hright
  change y < row * cellPitch state.scale + cellHeight state.scale at hbottom
  have hend : x < grid.columns * cellWidth state.scale := by
    rw [← Nat.add_mul] at hright
    exact hright.trans_le (Nat.mul_le_mul_right _ hlast)
  refine ⟨row, hrow, x / cellWidth state.scale, ?_, x % cellWidth state.scale,
    Nat.mod_lt _ hwidth, y - row * cellPitch state.scale, by omega, ?_, by omega⟩
  · exact (Nat.div_lt_iff_lt_mul hwidth).mpr hend
  · rw [Nat.mul_comm]
    exact (Nat.div_add_mod x _).symm

theorem stringAt_row (h : TermHolds grid) {row : ℕ} (hrow : row < grid.rows) :
    stringAt (grid.cell row) 0 128 = (List.range grid.columns).map (grid.cell row) := by
  obtain ⟨hprintable, hend⟩ := h.row row hrow
  have hbound : grid.columns < 128 := h.columns_le.trans_lt (by decide)
  refine stringAt_eq ?_ ?_ (by simpa using hbound)
  · simp [slice, List.range_succ, hend]
  · simp only [List.mem_map, List.mem_range, not_exists, not_and]
    intro column hcolumn hzero
    obtain ⟨hfirst, -⟩ := hprintable column hcolumn
    rw [hzero] at hfirst
    exact absurd hfirst (by decide)

theorem stringAt_cellText {character : UInt8} (h : IsPrintable character) :
    stringAt (cellText character) 0 128 = [character] := by
  refine stringAt_eq ?_ ?_ (by simp)
  · simp [slice, cellText, List.range_succ]
  · intro hzero
    rw [← List.mem_singleton.mp hzero] at h
    exact absurd h.1 (by decide)

theorem oxysWindowBlit_paper (content : Content) (area : SyscallWindowRectangle) (x y : ℕ) :
    oxysWindowBlit content area (fun _ ↦ terminalPaper) x y =
      if area.x ≤ x ∧ x < area.x + area.width ∧ area.y ≤ y ∧ y < area.y + area.height then
        terminalPaper
      else content x y := rfl

theorem foldl_band (content : Content) (width height band turns : ℕ) {x y : ℕ} (hx : x < width)
    (hy : y < height) (hturns : y < turns * band) :
    (List.range turns).foldl (fun content turn ↦
      oxysWindowBlit content ⟨0, turn * band, width,
        if turn * band + band ≤ height then band else height - turn * band⟩
        fun _ ↦ terminalPaper) content x y = terminalPaper := by
  induction turns with
  | zero => omega
  | succ turns ih =>
      rw [List.range_succ, List.foldl_append, List.foldl_cons, List.foldl_nil,
        oxysWindowBlit_paper]
      rw [Nat.succ_mul] at hturns
      by_cases hbefore : y < turns * band
      · rw [ih hbefore, ite_self]
      · refine if_pos ⟨Nat.zero_le x, ?_, Nat.le_of_not_lt hbefore, ?_⟩
        · simpa using hx
        · dsimp only
          split <;> omega

theorem terminalPaintGround_content (hscale : 0 < state.scale) {x y : ℕ}
    (hx : x < state.contentWidth) (hy : y < state.contentHeight) :
    (terminalPaintGround state).content x y = terminalPaper := by
  have hwidth : ¬state.contentWidth = 0 := by omega
  have hband : 0 < terminalPitch * state.scale := Nat.mul_pos (by decide) hscale
  simp only [terminalPaintGround, hwidth, if_false]
  refine foldl_band _ _ _ _ _ hx hy ?_
  generalize terminalPitch * state.scale = band at hband ⊢
  have hdiv := Nat.div_add_mod (state.contentHeight + band - 1) band
  have hmod := Nat.mod_lt (state.contentHeight + band - 1) hband
  rw [Nat.mul_comm]
  omega

theorem terminalPaintGround_eq (state : TerminalState) :
    ∃ content, terminalPaintGround state = { state with content } := by
  unfold terminalPaintGround
  dsimp only
  split
  · exact ⟨state.content, rfl⟩
  · exact ⟨_, rfl⟩

def TerminalState.reversed (state : TerminalState) (row column : ℕ) : Bool :=
  state.cursorDrawn && decide (row = state.cursorRow ∧ column = state.cursorColumn)

def TerminalState.Grounded (state : TerminalState) : Prop :=
  ∀ x < state.contentWidth, ∀ y < state.contentHeight, ¬OnCell state.grid state.scale x y →
    state.content x y = terminalPaper

def TerminalState.Shown (face : Face) (state : TerminalState) (row : ℕ) : Prop :=
  ∀ column < state.grid.columns, ShowsCell face state.content state.scale row column
    (state.grid.cell row column) (state.reversed row column)

structure TerminalHolds (face : Face) (state : TerminalState) : Prop where
  grid : TermHolds state.grid
  scale : 0 < state.scale
  cursor : state.cursorDrawn = true →
    state.cursorRow < state.grid.rows ∧ state.cursorColumn < state.grid.columns
  shown : ∀ row < state.grid.rows, state.grid.changed row = false → state.Shown face row
  ground : state.Grounded

theorem reversed_of_not (h : ¬(state.cursorDrawn = true ∧ row = state.cursorRow ∧
    column = state.cursorColumn)) : state.reversed row column = false := by
  simpa [TerminalState.reversed] using h

theorem TerminalHolds.step (h : TerminalHolds face state) {next : TermScreen}
    (hstep : TermStep state.grid next) (hnext : TermHolds next) :
    TerminalHolds face { state with grid := next } where
  grid := hnext
  scale := h.scale
  cursor := fun hdrawn ↦ by
    rw [hstep.rows, hstep.columns]
    exact h.cursor hdrawn
  shown := fun row hrow hunmarked column hcolumn ↦ by
    have hrow' : row < state.grid.rows := hstep.rows ▸ hrow
    have hsame := hstep.kept row hrow' hunmarked
    have hbefore : state.grid.changed row = false := by
      rw [← Bool.not_eq_true]
      intro hmarked
      exact absurd ((hstep.changed row hmarked).symm.trans hunmarked) (by decide)
    have hshown := h.shown row hrow' hbefore column (hstep.columns ▸ hcolumn)
    rw [← hsame] at hshown
    exact hshown
  ground := fun x hx y hy hoff ↦ by
    refine h.ground x hx y hy fun hon ↦ hoff ?_
    unfold OnCell at *
    rwa [hstep.rows, hstep.columns]

theorem TerminalHolds.of_marked (hgrid : TermHolds state.grid) (hscale : 0 < state.scale)
    (hcursor : state.cursorDrawn = false)
    (hmarked : ∀ row < state.grid.rows, state.grid.changed row = true) :
    TerminalHolds face (terminalPaintGround state) := by
  have hground : (terminalPaintGround state).Grounded := by
    obtain ⟨content, hpaint⟩ := terminalPaintGround_eq state
    intro x hx y hy _
    have hwidth : (terminalPaintGround state).contentWidth = state.contentWidth := by rw [hpaint]
    have hheight : (terminalPaintGround state).contentHeight = state.contentHeight := by rw [hpaint]
    rw [hwidth] at hx
    rw [hheight] at hy
    exact terminalPaintGround_content hscale hx hy
  obtain ⟨content, hpaint⟩ := terminalPaintGround_eq state
  rw [hpaint] at hground ⊢
  refine ⟨hgrid, hscale, fun hdrawn ↦ ?_, fun row hrow hunmarked ↦ ?_, hground⟩
  · exact absurd (hcursor.symm.trans hdrawn) (by decide)
  · exact absurd ((hmarked row hrow).symm.trans hunmarked) (by decide)

theorem terminalResize_spec (h : TerminalHolds face state) {width height : ℕ} {content : Content}
    (hadmitted : (TerminalOp.resize width height content).Admitted state.scale) :
    TerminalHolds face (terminalResize state width height content) ∧
      TermKept state.grid (terminalResize state width height content).grid ∧
      (terminalResize state width height content).scale = state.scale := by
  obtain ⟨hcolumns, hrows⟩ := hadmitted
  unfold terminalResize
  dsimp only
  generalize width / (terminalAdvance * state.scale) = columns at hcolumns ⊢
  generalize height / (terminalPitch * state.scale) = rows at hrows ⊢
  have hwide : (if columns > termColumnsMaximum then termColumnsMaximum else columns) ≤
      termColumnsMaximum := by split <;> omega
  have htall : (if rows > termRowsMaximum then termRowsMaximum else rows) ≤ termRowsMaximum := by
    split <;> omega
  have hcolumns' : 0 < if columns > termColumnsMaximum then termColumnsMaximum else columns := by
    split
    · decide
    · exact hcolumns
  have hrows' : 0 < if rows > termRowsMaximum then termRowsMaximum else rows := by
    split
    · decide
    · exact hrows
  obtain ⟨next, hresize, hnext, -, htotal, hmarked, hkept⟩ :=
    termResize_spec h.grid hcolumns' hwide hrows' htall
  rw [if_neg (by omega), hresize]
  dsimp only
  refine ⟨TerminalHolds.of_marked hnext h.scale rfl fun row hrow ↦ hmarked row (htotal ▸ hrow), ?_⟩
  obtain ⟨painted, hpaint⟩ := terminalPaintGround_eq { state with
    contentWidth := width, contentHeight := height, content, grid := next, cursorDrawn := false }
  rw [hpaint]
  exact ⟨hkept, rfl⟩

structure DrawStep (before after : TerminalState) : Prop where
  grid : after.grid = { before.grid with changed := after.grid.changed }
  unmarked : ∀ row, before.grid.changed row = false → after.grid.changed row = false
  scale : after.scale = before.scale

theorem DrawStep.refl (state : TerminalState) : DrawStep state state := ⟨rfl, fun _ h ↦ h, rfl⟩

theorem DrawStep.trans {first second third : TerminalState} (h : DrawStep first second)
    (h' : DrawStep second third) : DrawStep first third where
  grid := by
    rw [h'.grid, h.grid]
  unmarked := fun row hrow ↦ h'.unmarked row (h.unmarked row hrow)
  scale := h'.scale.trans h.scale

theorem terminalDrawRow_unmarked {index : ℕ} (h : state.grid.changed index = false) :
    terminalDrawRow face state index = state := by
  simp [terminalDrawRow, termRowChanged, h]

theorem terminalDrawRow_marked {index : ℕ} (hindex : index < state.grid.rows)
    (h : state.grid.changed index = true) :
    terminalDrawRow face state index =
      { terminalDrawAt face state 0 index (state.grid.cell index) terminalInk terminalPaper with
        grid := { state.grid with changed := Function.update state.grid.changed index false }
        cursorDrawn := if index = state.cursorRow then false else state.cursorDrawn } := by
  have hrow : ¬index ≥ state.grid.rows := Nat.not_le.mpr hindex
  simp only [terminalDrawRow, termRowChanged, termRow, termRowDrawn, hindex, h, hrow, terminalDrawAt,
    decide_true, and_self, Bool.not_true, Bool.false_eq_true, if_true, if_false]
  split <;> rfl

theorem terminalDrawRow_spec (h : TerminalHolds face state) {index : ℕ}
    (hindex : index < state.grid.rows) :
    TerminalHolds face (terminalDrawRow face state index) ∧
      DrawStep state (terminalDrawRow face state index) ∧
      (terminalDrawRow face state index).grid.changed index = false := by
  cases hmark : state.grid.changed index with
  | false =>
      rw [terminalDrawRow_unmarked hmark]
      exact ⟨h, DrawStep.refl state, hmark⟩
  | true =>
      have htext := stringAt_row h.grid hindex
      have hlength : (stringAt (state.grid.cell index) 0 128).length = state.grid.columns := by
        simp [htext]
      have hreversed (row column : ℕ) :
          ((if index = state.cursorRow then false else state.cursorDrawn) &&
            decide (row = state.cursorRow ∧ column = state.cursorColumn)) =
              if row = index then false else state.reversed row column := by
        unfold TerminalState.reversed
        by_cases hcursor : index = state.cursorRow
        · by_cases hrow : row = index
          · simp [hrow, hcursor]
          · simp [hcursor ▸ hrow, hcursor]
        · by_cases hrow : row = index
          · simp [hrow, hcursor]
          · simp [hrow, hcursor]
      rw [terminalDrawRow_marked hindex hmark]
      refine ⟨⟨⟨h.grid.columns_pos, h.grid.columns_le, h.grid.rows_pos, h.grid.rows_le,
        h.grid.cursor, h.grid.row⟩, h.scale, fun hdrawn ↦ ?_,
        fun row hrow hunmarked column hcolumn ↦ ?_, fun x hx y hy hoff ↦ ?_⟩,
        ⟨rfl, fun row hunmarked ↦ ?_, rfl⟩, Function.update_self _ _ _⟩
      · refine h.cursor ?_
        dsimp only at hdrawn
        split at hdrawn
        · cases hdrawn
        · exact hdrawn
      · change ShowsCell face (terminalDrawAt face state 0 index (state.grid.cell index) terminalInk
          terminalPaper).content state.scale row column (state.grid.cell row column)
          ((if index = state.cursorRow then false else state.cursorDrawn) &&
            decide (row = state.cursorRow ∧ column = state.cursorColumn))
        rw [hreversed]
        have hcolumn' : column < state.grid.columns := hcolumn
        by_cases hsame : row = index
        · subst hsame
          have hshown := terminalDrawAt_shows face state row (state.grid.cell row) false
            (Nat.zero_le column) (by rw [hlength, Nat.zero_add]; exact hcolumn')
          rw [if_pos rfl]
          simpa [htext, hcolumn'] using hshown
        · have hbefore : state.grid.changed row = false :=
            (Function.update_of_ne hsame false state.grid.changed).symm.trans hunmarked
          rw [if_neg hsame]
          exact terminalDrawAt_shows_other (fun hin ↦ hsame hin.1) (h.shown row hrow hbefore column hcolumn)
      · refine (terminalDrawAt_ground h.scale hindex ?_ hoff).trans (h.ground x hx y hy hoff)
        rw [hlength, Nat.zero_add]
      · by_cases hsame : row = index
        · subst hsame
          exact Function.update_self _ _ _
        · exact (Function.update_of_ne hsame false state.grid.changed).trans hunmarked

theorem foldl_terminalDrawRow (h : TerminalHolds face state) {turns : ℕ}
    (hturns : turns ≤ state.grid.rows) :
    TerminalHolds face ((List.range turns).foldl (terminalDrawRow face) state) ∧
      DrawStep state ((List.range turns).foldl (terminalDrawRow face) state) ∧
      ∀ row < turns,
        ((List.range turns).foldl (terminalDrawRow face) state).grid.changed row = false := by
  induction turns with
  | zero => exact ⟨h, DrawStep.refl state, fun row hrow ↦ absurd hrow (Nat.not_lt_zero row)⟩
  | succ turns ih =>
      obtain ⟨hholds, hstep, hdrawn⟩ := ih (Nat.le_of_succ_le hturns)
      rw [List.range_succ, List.foldl_append, List.foldl_cons, List.foldl_nil]
      generalize (List.range turns).foldl (terminalDrawRow face) state = next at hholds hstep hdrawn
      have hrows : next.grid.rows = state.grid.rows := by rw [hstep.grid]
      obtain ⟨hholds', hstep', hlast⟩ := terminalDrawRow_spec hholds (hrows ▸ hturns)
      refine ⟨hholds', hstep.trans hstep', fun row hrow ↦ ?_⟩
      by_cases hsame : row = turns
      · exact hsame ▸ hlast
      · exact hstep'.unmarked row (hdrawn row (by omega))

theorem terminalDrawAt_cellText (h : TerminalHolds face state) {row column r c : ℕ}
    (hrow : row < state.grid.rows) (hcolumn : column < state.grid.columns) (reversed : Bool)
    (hshown : ¬(r = row ∧ c = column) → ShowsCell face state.content state.scale r c
      (state.grid.cell r c) false) :
    ShowsCell face (terminalDrawAt face state column row (cellText (state.grid.cell row column))
      (if reversed then terminalPaper else terminalInk)
      (if reversed then terminalInk else terminalPaper)).content state.scale r c
      (state.grid.cell r c) (reversed && decide (r = row ∧ c = column)) := by
  have htext := stringAt_cellText ((h.grid.row row hrow).1 column hcolumn)
  by_cases hcell : r = row ∧ c = column
  · obtain ⟨rfl, rfl⟩ := hcell
    have hself := terminalDrawAt_shows face state r (cellText (state.grid.cell r c)) reversed
      (Nat.le_refl c) (by simp [htext])
    simpa [htext] using hself
  · have hfalse : (reversed && decide (r = row ∧ c = column)) = false := by simp [hcell]
    rw [hfalse]
    refine terminalDrawAt_shows_other ?_ (hshown hcell)
    rw [htext, List.length_singleton]
    rintro ⟨hr, hfirst, hlast⟩
    exact hcell ⟨hr, by omega⟩

theorem terminalDrawAt_cellText_ground (h : TerminalHolds face state) {row column : ℕ}
    (hrow : row < state.grid.rows) (hcolumn : column < state.grid.columns) (ink paper : UInt32) :
    (terminalDrawAt face state column row (cellText (state.grid.cell row column)) ink
      paper).Grounded := by
  have htext := stringAt_cellText ((h.grid.row row hrow).1 column hcolumn)
  intro x hx y hy hoff
  refine (terminalDrawAt_ground h.scale hrow ?_ hoff).trans (h.ground x hx y hy hoff)
  rw [htext, List.length_singleton]
  exact hcolumn

structure PutBack (face : Face) (state : TerminalState) (column row : ℕ) : Prop where
  holds : TerminalHolds face state
  ordinary : ∀ r < state.grid.rows, ∀ c < state.grid.columns, ¬(r = row ∧ c = column) →
    ShowsCell face state.content state.scale r c (state.grid.cell r c) false

theorem terminalPutBack_spec (h : TerminalHolds face state)
    (hdrawn : ∀ row < state.grid.rows, state.grid.changed row = false) (column row : ℕ) :
    PutBack face (terminalPutBack face state column row) column row ∧
      (terminalPutBack face state column row).grid = state.grid := by
  unfold terminalPutBack
  by_cases hleft : state.cursorDrawn = true ∧ (state.cursorColumn ≠ column ∨ state.cursorRow ≠ row)
  · obtain ⟨hrow, hcolumn⟩ := h.cursor hleft.1
    have hin : ¬state.cursorRow ≥ state.grid.rows := Nat.not_le.mpr hrow
    rw [if_pos hleft]
    simp only [termRow, if_neg hin]
    have hall (r : ℕ) (hr : r < state.grid.rows) (c : ℕ) (hc : c < state.grid.columns) :=
      terminalDrawAt_cellText h hrow hcolumn false (r := r) (c := c) fun hother ↦ by
        have hshown := h.shown r hr (hdrawn r hr) c hc
        have hnone : state.reversed r c = false := reversed_of_not fun hat ↦ hother hat.2
        rwa [hnone] at hshown
    refine ⟨⟨⟨h.grid, h.scale, fun hnone ↦ ?_, fun r hr _ c hc ↦ ?_, ?_⟩, fun r hr c hc _ ↦ ?_⟩, rfl⟩
    · cases hnone
    · exact hall r hr c hc
    · exact terminalDrawAt_cellText_ground h hrow hcolumn _ _
    · exact hall r hr c hc
  · rw [if_neg hleft]
    refine ⟨⟨h, fun r hr c hc hother ↦ ?_⟩, rfl⟩
    have hshown := h.shown r hr (hdrawn r hr) c hc
    have hnone : state.reversed r c = false := reversed_of_not fun hat ↦ hother ?_
    · rwa [hnone] at hshown
    · have hplace : state.cursorColumn = column ∧ state.cursorRow = row := by
        by_contra hne
        exact hleft ⟨hat.1, by omega⟩
      exact ⟨hat.2.1.trans hplace.2, hat.2.2.trans hplace.1⟩

/-- The grid is shown: each cell with its character, in ordinary colours but for the cursor's, and
what is in no cell is the ground. -/
structure GridShown (face : Face) (state : TerminalState) : Prop where
  cell : ∀ row < state.grid.rows, ∀ column < state.grid.columns,
    ShowsCell face state.content state.scale row column (state.grid.cell row column)
      (decide (row = state.grid.cursorRow ∧ column = state.grid.cursorColumn))
  ground : state.Grounded

theorem terminalDraw_spec (h : TerminalHolds face state) :
    TerminalHolds face (terminalDraw face state) ∧ DrawStep state (terminalDraw face state) ∧
      GridShown face (terminalDraw face state) := by
  obtain ⟨hrows, hstep, hdrawn⟩ := foldl_terminalDrawRow h (Nat.le_refl state.grid.rows)
  unfold terminalDraw
  dsimp only
  generalize (List.range state.grid.rows).foldl (terminalDrawRow face) state = drawn
    at hrows hstep hdrawn ⊢
  have hsame : drawn.grid.rows = state.grid.rows := by rw [hstep.grid]
  have hcursorRow : drawn.grid.cursorRow = state.grid.cursorRow := by rw [hstep.grid]
  have hcursorColumn : drawn.grid.cursorColumn = state.grid.cursorColumn := by rw [hstep.grid]
  rw [← hsame] at hdrawn
  obtain ⟨hput, hgrid⟩ := terminalPutBack_spec hrows hdrawn state.grid.cursorColumn
    state.grid.cursorRow
  have hscale : (terminalPutBack face drawn state.grid.cursorColumn state.grid.cursorRow).scale =
      state.scale := by
    rw [← hstep.scale]
    unfold terminalPutBack
    split
    · dsimp only
      split <;> rfl
    · rfl
  rw [← hcursorRow, ← hcursorColumn] at hput hgrid hscale ⊢
  generalize terminalPutBack face drawn drawn.grid.cursorColumn drawn.grid.cursorRow = back
    at hput hgrid hscale ⊢
  rw [← hgrid] at hput ⊢
  have hrow : back.grid.cursorRow < back.grid.rows := hput.holds.grid.cursor.row
  have hcolumn : back.grid.cursorColumn < back.grid.columns := hput.holds.grid.cursor.column
  have hin : ¬back.grid.cursorRow ≥ back.grid.rows := Nat.not_le.mpr hrow
  simp only [termRow, if_neg hin]
  have hall (r : ℕ) (hr : r < back.grid.rows) (c : ℕ) (hc : c < back.grid.columns) :=
    terminalDrawAt_cellText hput.holds hrow hcolumn true (r := r) (c := c) (hput.ordinary r hr c hc)
  have hground := terminalDrawAt_cellText_ground hput.holds hrow hcolumn terminalPaper terminalInk
  refine ⟨⟨hput.holds.grid, hput.holds.scale, fun _ ↦ ⟨hrow, hcolumn⟩, fun r hr _ c hc ↦ ?_,
    hground⟩, ⟨?_, fun r hr ↦ ?_, hscale⟩, ⟨fun r hr c hc ↦ ?_, hground⟩⟩
  · exact hall r hr c hc
  · exact hgrid.trans hstep.grid |>.trans (by rw [← hgrid]; rfl)
  · exact (congrArg (fun grid ↦ grid.changed r) hgrid).trans (hstep.unmarked r hr)
  · have hshown := hall r hr c hc
    rwa [Bool.true_and] at hshown

theorem terminalDo_holds (h : TerminalHolds face state) {op : TerminalOp}
    (hop : op.Admitted state.scale) :
    TerminalHolds face (terminalDo face state op) ∧
      (terminalDo face state op).scale = state.scale := by
  cases op with
  | write bytes =>
      obtain ⟨hgrid, hstep⟩ := h.grid.write bytes
      exact ⟨h.step hstep hgrid, rfl⟩
  | resize width height content =>
      obtain ⟨hholds, -, hscale⟩ := terminalResize_spec h hop
      exact ⟨hholds, hscale⟩
  | draw =>
      obtain ⟨hholds, hstep, -⟩ := terminalDraw_spec h
      exact ⟨hholds, hstep.scale⟩

theorem terminalRun_holds (h : TerminalHolds face state) {ops : List TerminalOp}
    (hops : ∀ op ∈ ops, op.Admitted state.scale) :
    TerminalHolds face (terminalRun face state ops) ∧
      (terminalRun face state ops).scale = state.scale := by
  induction ops generalizing state with
  | nil => exact ⟨h, rfl⟩
  | cons op ops ih =>
      obtain ⟨hholds, hscale⟩ := terminalDo_holds h (hops op List.mem_cons_self)
      have hrest := ih hholds fun op hmem ↦ hscale ▸ hops op (List.mem_cons_of_mem _ hmem)
      exact ⟨hrest.1, hrest.2.trans hscale⟩

theorem terminalStart_holds (face : Face) {screen grid : TermScreen} {columns rows : ℕ}
    (h : termInitialise screen columns rows = (true, grid)) (screenWidth : ℤ) (content : Content) :
    TerminalHolds face (terminalStart grid (terminalScale screenWidth) content) := by
  obtain ⟨hgrid, -, -, hmarked⟩ := termInitialise_holds h
  refine TerminalHolds.of_marked hgrid ?_ rfl hmarked
  unfold terminalScale
  dsimp only
  split <;> decide

/-- What the window shows is its grid.  Whatever is written, and whatever new extents the window is
given, each row is so many printable characters and the byte that ends it, the cursor is within the
grid, a drawing shows every cell with its character and only the cursor's reversed, and a new extent
keeps the rows that remain. -/
theorem terminalRun_shows (face : Face) {screen grid : TermScreen} {columns rows : ℕ}
    (h : termInitialise screen columns rows = (true, grid)) (screenWidth : ℤ) (content : Content)
    {ops : List TerminalOp} (hops : ∀ op ∈ ops, op.Admitted (terminalScale screenWidth))
    {state : TerminalState}
    (hstate : terminalRun face (terminalStart grid (terminalScale screenWidth) content) ops =
      state) :
    (∀ row < state.grid.rows, state.grid.Terminated row) ∧
      (state.grid.cursorRow < state.grid.rows ∧ state.grid.cursorColumn < state.grid.columns) ∧
      GridShown face (terminalDraw face state) ∧
      (terminalDraw face state).grid =
        { state.grid with changed := (terminalDraw face state).grid.changed } ∧
      ∀ width height content, (TerminalOp.resize width height content).Admitted state.scale →
        TermKept state.grid (terminalResize state width height content).grid := by
  have hstart := terminalStart_holds face h screenWidth content
  have hscale : (terminalStart grid (terminalScale screenWidth) content).scale =
      terminalScale screenWidth := by
    unfold terminalStart
    obtain ⟨painted, hpaint⟩ := terminalPaintGround_eq _
    rw [hpaint]
  rw [← hscale] at hops
  obtain ⟨hholds, -⟩ := terminalRun_holds hstart hops
  rw [hstate] at hholds
  obtain ⟨-, hstep, hshown⟩ := terminalDraw_spec hholds
  refine ⟨hholds.grid.row, ⟨hholds.grid.cursor.row, hholds.grid.cursor.column⟩, hshown, hstep.grid,
    fun width height content hadmitted ↦ ?_⟩
  exact (terminalResize_spec hholds hadmitted).2.1

theorem terminalRun_shows_line :
    GridShown (fun code ink paper _ _ _ ↦ if code = 0x20 then paper else ink)
      (terminalDraw (fun code ink paper _ _ _ ↦ if code = 0x20 then paper else ink)
        (terminalRun (fun code ink paper _ _ _ ↦ if code = 0x20 then paper else ink)
          (terminalStart (termInitialise ⟨0, 0, 0, 0, fun _ _ ↦ 0, fun _ ↦ false, 0, 0⟩ 2 1).2
            (terminalScale 800) fun _ _ ↦ 7)
          [.write [0x41, 0x0A], .resize 10 20 fun _ _ ↦ 7])) := by
  have hops : ∀ op ∈ [TerminalOp.write [0x41, 0x0A], .resize 10 20 fun _ _ ↦ 7],
      op.Admitted (terminalScale 800) := by
    simp [TerminalOp.Admitted, terminalScale, terminalAdvance, syscallWindowTextAdvance,
      terminalPitch]
  have hgrid : termInitialise ⟨0, 0, 0, 0, fun _ _ ↦ 0, fun _ ↦ false, 0, 0⟩ 2 1 =
      (true, (termInitialise ⟨0, 0, 0, 0, fun _ _ ↦ 0, fun _ ↦ false, 0, 0⟩ 2 1).2) := rfl
  exact (terminalRun_shows _ hgrid 800 _ hops rfl).2.2.1

end OxysOS.Userland
