import OxysOS.Library.Bytes
import Mathlib.Algebra.Order.Group.Int

/-!
# A row of a display

A row of cells without end, and a cursor.
-/

namespace OxysOS.Library

structure Row where
  cells : ℤ → UInt8
  cursor : ℤ

def isPrintable (byte : UInt8) : Prop := 0x20 ≤ byte ∧ byte ≤ 0x7E

instance (byte : UInt8) : Decidable (isPrintable byte) := inferInstanceAs (Decidable (_ ∧ _))

def backspace : UInt8 := 0x08

namespace Row

def put (row : Row) (byte : UInt8) : Row :=
  if byte = backspace then { row with cursor := row.cursor - 1 }
  else if isPrintable byte then
    { cells := Function.update row.cells row.cursor byte, cursor := row.cursor + 1 }
  else row

def write (row : Row) (bytes : List UInt8) : Row := bytes.foldl put row

variable {row : Row} {bytes more : List UInt8}

@[simp] theorem write_nil : row.write [] = row := rfl

theorem write_append : row.write (bytes ++ more) = (row.write bytes).write more :=
  List.foldl_append

theorem write_backspaces (row : Row) (count : ℕ) :
    row.write (List.replicate count backspace) = { row with cursor := row.cursor - count } := by
  induction count generalizing row with
  | zero => simp
  | succ count ih =>
      rw [List.replicate_succ]
      change (row.put backspace).write (List.replicate count backspace) = _
      rw [ih]
      unfold put
      rw [if_pos rfl]
      simp only [Row.mk.injEq, true_and]
      push_cast
      omega

theorem write_printable (row : Row) (hbytes : ∀ byte ∈ bytes, isPrintable byte) :
    (row.write bytes).cursor = row.cursor + bytes.length ∧
      ∀ i, (row.write bytes).cells i =
        if row.cursor ≤ i ∧ i < row.cursor + bytes.length then
          bytes.getD (i - row.cursor).toNat 0
        else row.cells i := by
  induction bytes generalizing row with
  | nil =>
      refine ⟨by simp, fun i ↦ ?_⟩
      rw [if_neg (by rw [List.length_nil]; omega)]
      rfl
  | cons byte bytes ih =>
      have hbyte := hbytes byte List.mem_cons_self
      have hput : row.put byte =
          { cells := Function.update row.cells row.cursor byte, cursor := row.cursor + 1 } := by
        unfold put
        rw [if_neg, if_pos hbyte]
        rintro rfl
        exact absurd hbyte (by decide)
      obtain ⟨hcursor, hcells⟩ := ih (row.put byte) fun other hother ↦
        hbytes other (List.mem_cons_of_mem byte hother)
      change ((row.put byte).write bytes).cursor = _ ∧ ∀ i, ((row.put byte).write bytes).cells i = _
      rw [hput] at hcursor hcells ⊢
      constructor
      · rw [hcursor, List.length_cons]
        push_cast
        ring
      · intro i
        rw [hcells]
        dsimp only
        rw [List.length_cons]
        push_cast
        by_cases hself : i = row.cursor
        · subst hself
          rw [if_neg (by omega), if_pos (by omega), Function.update_self, sub_self]
          rfl
        · rw [Function.update_of_ne hself]
          by_cases hin : row.cursor + 1 ≤ i ∧ i < row.cursor + 1 + bytes.length
          · have hindex : (i - row.cursor).toNat = (i - (row.cursor + 1)).toNat + 1 := by omega
            rw [if_pos hin, if_pos (by omega), hindex, List.getD_cons_succ]
          · rw [if_neg hin, if_neg (by omega)]

theorem write_redraw (row : Row) (back blanks again : ℕ) (hbytes : ∀ byte ∈ bytes, isPrintable byte)
    {blank : UInt8} (hblank : isPrintable blank) :
    let start := row.cursor - back
    let shown := row.write (List.replicate back backspace ++ bytes ++
      List.replicate blanks blank ++ List.replicate again backspace)
    shown.cursor = start + bytes.length + blanks - again ∧
      ∀ i, shown.cells i =
        if start ≤ i ∧ i < start + bytes.length then bytes.getD (i - start).toNat 0
        else if start + bytes.length ≤ i ∧ i < start + bytes.length + blanks then blank
        else row.cells i := by
  intro start shown
  have hblanks : ∀ byte ∈ List.replicate blanks blank, isPrintable byte := by
    intro byte hbyte
    rw [List.eq_of_mem_replicate hbyte]
    exact hblank
  have hfirst := write_backspaces row back
  obtain ⟨hcursor, hcells⟩ := write_printable { row with cursor := start } hbytes
  obtain ⟨hcursor', hcells'⟩ :=
    write_printable (({ row with cursor := start } : Row).write bytes) hblanks
  have hshown : shown = { (({ row with cursor := start } : Row).write bytes).write
      (List.replicate blanks blank) with
      cursor := start + bytes.length + blanks - again } := by
    change row.write (_ ++ _ ++ _ ++ _) = _
    rw [write_append, write_append, write_append, hfirst, write_backspaces, hcursor', hcursor,
      List.length_replicate]
  rw [hshown]
  refine ⟨rfl, fun i ↦ ?_⟩
  dsimp only
  rw [hcells', hcells, hcursor, List.length_replicate]
  dsimp only
  by_cases hin : start ≤ i ∧ i < start + bytes.length
  · rw [if_neg (by omega), if_pos hin, if_pos hin]
  · rw [if_neg hin, if_neg hin]
    by_cases hblankAt : start + bytes.length ≤ i ∧ i < start + bytes.length + blanks
    · have hindex : (i - (start + bytes.length)).toNat < blanks := by omega
      rw [if_pos hblankAt, if_pos hblankAt, List.getD_eq_getElem?_getD, List.getElem?_replicate,
        if_pos hindex, Option.getD_some]
    · rw [if_neg hblankAt, if_neg hblankAt]

end Row

end OxysOS.Library
