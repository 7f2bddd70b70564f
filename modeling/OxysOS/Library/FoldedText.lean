import Mathlib.Data.Nat.Notation
import Mathlib.Tactic.Common

/-!
# Text that is folded into rows

A text is one row of cells without an end, each a letter or the end of a line, with a
cursor between two of them, and is folded at the columns of a screen.  The cells before
the cursor are kept with the nearest first.

A letter that is written takes the place of the letter at the cursor.  At the end of a
line it goes before it, and takes its place where it fills the row.
-/

namespace OxysOS.Library

inductive TextCell (α : Type)
  | letter (a : α)
  | feed
  deriving DecidableEq

structure FoldedText (α : Type) where
  before : List (TextCell α)
  after : List (TextCell α)
  deriving DecidableEq

namespace FoldedText

variable {α : Type}

def next (columns : ℕ) (place : ℕ × ℕ) : TextCell α → ℕ × ℕ
  | .letter _ => if place.2 + 1 < columns then (place.1, place.2 + 1) else (place.1 + 1, 0)
  | .feed => (place.1 + 1, 0)

def placeOf (columns start : ℕ) : List (TextCell α) → ℕ × ℕ
  | [] => (0, start)
  | cell :: cells => next columns (placeOf columns start cells) cell

def lastRow (columns : ℕ) (place : ℕ × ℕ) : List (TextCell α) → ℕ
  | [] => place.1
  | cell :: cells => lastRow columns (next columns place cell) cells

def lettersBefore (columns start : ℕ) : List (TextCell α) → ℕ → ℕ → Option α
  | [], _, _ => none
  | .letter a :: cells, row, column =>
      if (row, column) = placeOf columns start cells then some a
      else lettersBefore columns start cells row column
  | .feed :: cells, row, column => lettersBefore columns start cells row column

def lettersFrom (columns : ℕ) (place : ℕ × ℕ) : List (TextCell α) → ℕ → ℕ → Option α
  | [], _, _ => none
  | .letter a :: cells, row, column =>
      if (row, column) = place then some a
      else lettersFrom columns (next columns place (.letter a)) cells row column
  | .feed :: cells, row, column =>
      lettersFrom columns (next columns place (.feed : TextCell α)) cells row column

def letters (columns start : ℕ) (text : FoldedText α) (row column : ℕ) : Option α :=
  lettersBefore columns start text.before row column <|>
    lettersFrom columns (placeOf columns start text.before) text.after row column

def Ends (columns start : ℕ) (ends : ℕ → ℕ) : List (TextCell α) → Prop
  | [] => True
  | .letter a :: cells => Ends columns start ends cells ∧
      ((next columns (placeOf columns start cells) (.letter a)).2 = 0 →
        ends (placeOf columns start cells).1 = columns)
  | .feed :: cells => Ends columns start ends cells ∧
      ends (placeOf columns start cells).1 = (placeOf columns start cells).2

def put (columns start : ℕ) (a : α) (text : FoldedText α) : FoldedText α :=
  match text.after with
  | [] => ⟨.letter a :: text.before, []⟩
  | .letter _ :: after => ⟨.letter a :: text.before, after⟩
  | .feed :: after =>
      if (placeOf columns start text.before).2 + 1 < columns then
        ⟨.letter a :: text.before, .feed :: after⟩
      else ⟨.letter a :: text.before, after⟩

def feed (text : FoldedText α) : Option (FoldedText α) :=
  match text.after with
  | [] => some ⟨.feed :: text.before, []⟩
  | .letter _ :: _ => none
  | .feed :: after => some ⟨.feed :: text.before, after⟩

def back (text : FoldedText α) : FoldedText α :=
  match text.before with
  | [] => text
  | cell :: before => ⟨before, cell :: text.after⟩

def Precedes (p q : ℕ × ℕ) : Prop := p.1 < q.1 ∨ p.1 = q.1 ∧ p.2 < q.2

variable {columns start : ℕ} {text : FoldedText α} {place : ℕ × ℕ} {row column : ℕ}
  {cell : TextCell α} {cells : List (TextCell α)} {a : α}

theorem placeOf_cons (columns start : ℕ) (cell : TextCell α) (cells : List (TextCell α)) :
    placeOf columns start (cell :: cells) = next columns (placeOf columns start cells) cell := rfl

theorem lettersBefore_letter (columns start : ℕ) (a : α) (cells : List (TextCell α))
    (row column : ℕ) : lettersBefore columns start (.letter a :: cells) row column =
      if (row, column) = placeOf columns start cells then some a
      else lettersBefore columns start cells row column := rfl

theorem lettersFrom_letter (columns : ℕ) (place : ℕ × ℕ) (a : α) (cells : List (TextCell α))
    (row column : ℕ) : lettersFrom columns place (.letter a :: cells) row column =
      if (row, column) = place then some a
      else lettersFrom columns (next columns place (.letter a)) cells row column := rfl

theorem next_of_room (h : place.2 + 1 < columns) (a : α) :
    next columns place (.letter a) = (place.1, place.2 + 1) := if_pos h

theorem next_of_full (h : ¬place.2 + 1 < columns) (a : α) :
    next columns place (.letter a) = (place.1 + 1, 0) := if_neg h

theorem precedes_next (columns : ℕ) (place : ℕ × ℕ) (cell : TextCell α) :
    Precedes place (next columns place cell) := by
  unfold Precedes
  cases cell with
  | letter a =>
      unfold next
      split_ifs
      · exact Or.inr ⟨rfl, Nat.lt_succ_self _⟩
      · exact Or.inl (Nat.lt_succ_self _)
  | feed => exact Or.inl (Nat.lt_succ_self _)

theorem Precedes.trans {p q r : ℕ × ℕ} (h : Precedes p q) (h' : Precedes q r) : Precedes p r := by
  unfold Precedes at *
  omega

theorem Precedes.ne {p q : ℕ × ℕ} (h : Precedes p q) : p ≠ q := by
  rintro rfl
  unfold Precedes at h
  omega

theorem start_precedes (columns start : ℕ) (cell : TextCell α) (cells : List (TextCell α)) :
    Precedes (0, start) (placeOf columns start (cell :: cells)) := by
  have hnext := precedes_next columns (placeOf columns start cells) cell
  rw [placeOf_cons]
  cases cells with
  | nil => exact hnext
  | cons cell' cells => exact (start_precedes columns start cell' cells).trans hnext

theorem placeOf_column (hstart : start < columns) (cells : List (TextCell α)) :
    (placeOf columns start cells).2 < columns := by
  induction cells with
  | nil => exact hstart
  | cons cell cells ih =>
      cases cell with
      | letter a =>
          unfold placeOf next
          split_ifs with hroom
          · exact hroom
          · exact Nat.zero_lt_of_lt hstart
      | feed => exact Nat.zero_lt_of_lt hstart

theorem Ends.congr {ends ends' : ℕ → ℕ} (h : Ends columns start ends cells)
    (hsame : ∀ row < (placeOf columns start cells).1, ends row = ends' row) :
    Ends columns start ends' cells := by
  induction cells with
  | nil => trivial
  | cons cell cells ih =>
      have hnext := precedes_next columns (placeOf columns start cells) cell
      rw [placeOf_cons] at hsame
      unfold Precedes at hnext
      cases cell with
      | letter a =>
          refine ⟨ih h.1 fun row hrow ↦ hsame row (by omega), fun hfold ↦ ?_⟩
          rw [← hsame _ (by omega)]
          exact h.2 hfold
      | feed =>
          refine ⟨ih h.1 fun row hrow ↦ hsame row (by omega), ?_⟩
          rw [← hsame _ (Nat.lt_succ_self _)]
          exact h.2

theorem lettersBefore_of_not_precedes
    (h : ¬Precedes (row, column) (placeOf columns start cells)) :
    lettersBefore columns start cells row column = none := by
  induction cells with
  | nil => rfl
  | cons cell cells ih =>
      have hnext := precedes_next columns (placeOf columns start cells) cell
      have hrest : ¬Precedes (row, column) (placeOf columns start cells) :=
        fun hset ↦ h (hset.trans hnext)
      cases cell with
      | letter a =>
          have hother : (row, column) ≠ placeOf columns start cells := fun hsame ↦
            h (hsame ▸ hnext)
          unfold lettersBefore
          rw [if_neg hother]
          exact ih hrest
      | feed => exact ih hrest

theorem lettersFrom_of_precedes (h : Precedes (row, column) place) :
    lettersFrom columns place cells row column = none := by
  induction cells generalizing place with
  | nil => rfl
  | cons cell cells ih =>
      have hrest := ih (h.trans (precedes_next columns place cell))
      cases cell with
      | letter a =>
          unfold lettersFrom
          rw [if_neg h.ne]
          exact hrest
      | feed => exact hrest

theorem letters_of_precedes (h : Precedes (row, column) (0, start)) (text : FoldedText α) :
    text.letters columns start row column = none := by
  have hplace : ∀ cells : List (TextCell α), Precedes (row, column) (placeOf columns start cells) :=
    fun cells ↦ by
      cases cells with
      | nil => exact h
      | cons cell cells => exact h.trans (start_precedes columns start cell cells)
  have hbefore : ∀ cells : List (TextCell α),
      lettersBefore columns start cells row column = none := fun cells ↦ by
    induction cells with
    | nil => rfl
    | cons cell cells ih =>
        cases cell with
        | letter a =>
            rw [lettersBefore_letter, if_neg (hplace cells).ne]
            exact ih
        | feed => exact ih
  unfold letters
  rw [hbefore, lettersFrom_of_precedes (hplace text.before)]
  rfl

theorem le_lastRow (columns : ℕ) (place : ℕ × ℕ) (cells : List (TextCell α)) :
    place.1 ≤ lastRow columns place cells := by
  induction cells generalizing place with
  | nil => exact Nat.le_refl _
  | cons cell cells ih =>
      have hnext := precedes_next columns place cell
      have hrest := ih (next columns place cell)
      unfold Precedes at hnext
      unfold lastRow
      omega

theorem lettersFrom_of_lastRow (h : lastRow columns place cells < row) :
    lettersFrom columns place cells row column = none := by
  induction cells generalizing place with
  | nil => rfl
  | cons cell cells ih =>
      have hrest := ih h
      cases cell with
      | letter a =>
          have hbelow := le_lastRow columns place (.letter a :: cells)
          have hother : (row, column) ≠ place := by
            rintro rfl
            omega
          unfold lettersFrom
          rw [if_neg hother]
          exact hrest
      | feed => exact hrest

theorem letters_of_lastRow
    (h : lastRow columns (placeOf columns start text.before) text.after < row) :
    text.letters columns start row column = none := by
  have hcursor := le_lastRow columns (placeOf columns start text.before) text.after
  unfold letters
  rw [lettersFrom_of_lastRow h, lettersBefore_of_not_precedes]
  · rfl
  · unfold Precedes
    dsimp only
    omega

theorem put_of_room {before after : List (TextCell α)}
    (h : (placeOf columns start before).2 + 1 < columns) (a : α) :
    put columns start a ⟨before, .feed :: after⟩ = ⟨.letter a :: before, .feed :: after⟩ := if_pos h

theorem put_of_full {before after : List (TextCell α)}
    (h : ¬(placeOf columns start before).2 + 1 < columns) (a : α) :
    put columns start a ⟨before, .feed :: after⟩ = ⟨.letter a :: before, after⟩ := if_neg h

theorem before_put (columns start : ℕ) (a : α) (text : FoldedText α) :
    (text.put columns start a).before = .letter a :: text.before := by
  unfold put
  rcases text.after with _ | ⟨_ | _, after⟩
  · rfl
  · rfl
  · dsimp only
    split_ifs <;> rfl

theorem letters_put (columns start : ℕ) (a : α) (text : FoldedText α) (row column : ℕ) :
    (text.put columns start a).letters columns start row column =
      if (row, column) = placeOf columns start text.before then some a
      else text.letters columns start row column := by
  unfold letters
  rw [before_put, lettersBefore_letter, placeOf_cons]
  by_cases hcursor : (row, column) = placeOf columns start text.before
  · rw [if_pos hcursor, if_pos hcursor]
    rfl
  · rw [if_neg hcursor, if_neg hcursor]
    obtain ⟨before, after⟩ := text
    rcases after with _ | ⟨_ | _, after⟩
    · rfl
    · rw [lettersFrom_letter, if_neg hcursor]
      rfl
    · by_cases hroom : (placeOf columns start before).2 + 1 < columns
      · rw [put_of_room hroom]
        dsimp only
        rw [next_of_room hroom]
        rfl
      · rw [put_of_full hroom]
        dsimp only
        rw [next_of_full hroom]
        rfl

theorem lastRow_put (columns start : ℕ) (a : α) (text : FoldedText α) :
    lastRow columns (placeOf columns start (text.put columns start a).before)
        (text.put columns start a).after ≤
      max (next columns (placeOf columns start text.before) (.letter a)).1
        (lastRow columns (placeOf columns start text.before) text.after) := by
  rw [before_put, placeOf_cons]
  obtain ⟨before, after⟩ := text
  rcases after with _ | ⟨_ | _, after⟩
  · exact Nat.le_max_left _ _
  · exact Nat.le_max_right _ _
  · by_cases hroom : (placeOf columns start before).2 + 1 < columns
    · rw [put_of_room hroom]
      dsimp only
      rw [next_of_room hroom]
      exact Nat.le_max_right _ _
    · rw [put_of_full hroom]
      dsimp only
      rw [next_of_full hroom]
      exact Nat.le_max_right _ _

theorem letters_feed (columns start : ℕ) {text' : FoldedText α} (h : text.feed = some text')
    (row column : ℕ) :
    text'.letters columns start row column = text.letters columns start row column := by
  obtain ⟨before, after⟩ := text
  unfold feed at h
  rcases after with _ | ⟨_ | _, after⟩
  · cases h
    rfl
  · cases h
  · cases h
    rfl

theorem before_feed {text' : FoldedText α} (h : text.feed = some text') :
    text'.before = .feed :: text.before := by
  obtain ⟨before, after⟩ := text
  unfold feed at h
  rcases after with _ | ⟨_ | _, after⟩ <;> cases h <;> rfl

theorem lastRow_feed (columns start : ℕ) {text' : FoldedText α} (h : text.feed = some text') :
    lastRow columns (placeOf columns start text'.before) text'.after ≤
      max ((placeOf columns start text.before).1 + 1)
        (lastRow columns (placeOf columns start text.before) text.after) := by
  obtain ⟨before, after⟩ := text
  unfold feed at h
  rcases after with _ | ⟨_ | _, after⟩
  · cases h
    exact Nat.le_max_left _ _
  · cases h
  · cases h
    exact Nat.le_max_right _ _

theorem letters_back (before after : List (TextCell α)) (cell : TextCell α) (row column : ℕ) :
    letters columns start ⟨before, cell :: after⟩ row column =
      letters columns start ⟨cell :: before, after⟩ row column := by
  cases cell with
  | feed => rfl
  | letter a =>
      have hfrom : Precedes (placeOf columns start before)
          (placeOf columns start (.letter a :: before)) := precedes_next _ _ _
      unfold letters
      rw [lettersBefore_letter, lettersFrom_letter, placeOf_cons]
      by_cases hcell : (row, column) = placeOf columns start before
      · rw [if_pos hcell, if_pos hcell, lettersBefore_of_not_precedes fun hset ↦ hset.ne hcell]
        rfl
      · rw [if_neg hcell, if_neg hcell]

end FoldedText

end OxysOS.Library
