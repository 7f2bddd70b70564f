import OxysOS.Library.Decimal
import OxysOS.Library.Lines
import OxysOS.Library.Source

/-!
# tail

The program reads the whole of its input into a buffer that grows, and looks for the last lines from
the end.  The scan counts the newlines before the last byte, begins the count at one where the last
line has no newline, and stops at a newline as soon as the count is that of the lines.  So it writes
one line where none is asked for, and one too few of a text whose last line has no newline.
-/

namespace OxysOS.Userland

open OxysOS.Library

def tailChunkBytes : ℕ := 4096

/-- What `TailCopy` says upon the standard error. -/
inductive TailComplaint
  | outOfMemory | notRead | notWritten
  deriving DecidableEq

/-- The loop of `TailCopy` that reads, with the capacities that `realloc` grants. -/
def tailRead (grants : ℕ → Bool) (source : Source UInt8) : Except TailComplaint (List UInt8) :=
  match gather grants tailChunkBytes ⟨0, []⟩ source with
  | (some .refused, _) => .error .outOfMemory
  | (some .unread, _) => .error .notRead
  | (none, buffer) => .ok buffer.held

/-- The loop of `TailCopy` that goes back over what is held, with the lines that it has seen. -/
def tailScan (lines : UInt64) (held : List UInt8) : ℕ → ℕ → ℕ
  | _, 0 => 0
  | seen, start + 1 =>
      if held[start]? = some newline ∧ start + 1 ≠ held.length then
        if seen + 1 ≥ lines.toNat then start + 1 else tailScan lines held (seen + 1) start
      else tailScan lines held seen start

/-- Where `TailCopy` begins to write what is held. -/
def tailStart (lines : UInt64) (held : List UInt8) : ℕ :=
  tailScan lines held (if unterminated newline held then 1 else 0) held.length

/-- What `TailCopy` writes, and what it says where it answers that it has failed. -/
structure TailOutcome where
  written : List UInt8
  complaint : Option TailComplaint

/-- `TailCopy`, upon a standard output that takes so many bytes, or all of them. -/
def tailCopy (grants : ℕ → Bool) (takes : Option ℕ) (lines : UInt64) (source : Source UInt8) :
    TailOutcome :=
  match tailRead grants source with
  | .error complaint => ⟨[], some complaint⟩
  | .ok held =>
      let last := held.drop (tailStart lines held)
      let written := (takes.map last.take).getD last
      ⟨written, if last ≠ [] ∧ written.length ≠ last.length then some .notWritten else none⟩

theorem tailChunkBytes_pos : 0 < tailChunkBytes := by decide

variable {grants : ℕ → Bool} {held : List UInt8}

theorem tailRead_steady {input : List UInt8} (sizes : ℕ → ℕ)
    (hmemory : MemorySuffices grants tailChunkBytes input.length) :
    tailRead grants (Source.steady input sizes) = .ok input := by
  have hsteady := gather_steady tailChunkBytes_pos input sizes
    (grown_start grants tailChunkBytes_pos)
  rw [Nat.zero_mul] at hsteady
  obtain ⟨more, hgather, -, -⟩ := hsteady.whole hmemory
  simp [tailRead, hgather]

theorem tailRead_refused {input : List UInt8} (sizes : ℕ → ℕ)
    (hmemory : ¬MemorySuffices grants tailChunkBytes input.length) :
    tailRead grants (Source.steady input sizes) = .error .outOfMemory := by
  have hsteady := gather_steady tailChunkBytes_pos input sizes
    (grown_start grants tailChunkBytes_pos)
  rw [Nat.zero_mul] at hsteady
  have hrefused := hsteady.refused hmemory
  rcases hgather : gather grants tailChunkBytes ⟨0, []⟩ (Source.steady input sizes) with
    ⟨fault, buffer⟩
  rw [hgather] at hrefused
  obtain rfl : fault = some .refused := hrefused
  simp [tailRead, hgather]

def tailReach (lines : ℕ) (held : List UInt8) : ℕ :=
  if unterminated newline held then max 1 (lines - 1) else max 1 lines

structure TailSeen (lines : ℕ) (held : List UInt8) (seen start : ℕ) : Prop where
  within : start < held.length
  counted : seen + 1 = (Library.lines newline (held.drop start)).length +
    if unterminated newline held then 1 else 0
  below : seen ≤ max (lines - 1) (if unterminated newline held then 1 else 0)

theorem drop_eq_cons {start : ℕ} {byte : UInt8} (h : held[start]? = some byte) :
    held.drop start = byte :: held.drop (start + 1) := by
  obtain ⟨hlt, rfl⟩ := List.getElem?_eq_some_iff.mp h
  exact List.drop_eq_getElem_cons hlt

theorem split_at_newline {start : ℕ} (h : held[start]? = some newline) :
    held = held.take start ++ newline :: held.drop (start + 1) := by
  rw [← drop_eq_cons h, List.take_append_drop]

theorem drop_tailScan {lines : UInt64} {seen start : ℕ}
    (h : TailSeen lines.toNat held seen start) :
    held.drop (tailScan lines held seen start) =
      lastLines newline (tailReach lines.toNat held) held := by
  induction start generalizing seen with
  | zero =>
      have hcounted := h.counted
      have hbelow := h.below
      rw [List.drop_zero] at hcounted
      rw [tailScan, List.drop_zero, lastLines_of_length_le]
      simp only [tailReach]
      split at hcounted <;> simp_all <;> omega
  | succ start ih =>
      have hwithin := h.within
      have hcounted := h.counted
      have hbelow := h.below
      rw [tailScan]
      have hbyte : held[start]? = some held[start] := List.getElem?_eq_getElem (by omega)
      have hdrop := drop_eq_cons hbyte
      have hrest : held.drop (start + 1) ≠ [] := by
        rw [ne_eq, List.drop_eq_nil_iff]
        omega
      have hlength := length_lines_cons newline held[start] hrest
      rw [← hdrop] at hlength
      by_cases hnewline : held[start]? = some newline
      · have hbyte' : held[start] = newline := by simpa [hbyte] using hnewline
        rw [if_pos ⟨hnewline, by omega⟩]
        rw [if_pos hbyte'] at hlength
        by_cases hreached : seen + 1 ≥ lines.toNat
        · have hreach : tailReach lines.toNat held =
              (Library.lines newline (held.drop (start + 1))).length := by
            have hpositive := List.length_pos_iff.mpr
              (mt (lines_eq_nil_iff newline).mp hrest)
            simp only [tailReach]
            split at hcounted <;> simp_all <;> omega
          have hlast := lastLines_append_separator newline (held.take start)
            (held.drop (start + 1))
          rw [← split_at_newline hnewline] at hlast
          rw [if_pos hreached, hreach, hlast]
        · rw [if_neg hreached]
          exact ih ⟨by omega, by omega, by omega⟩
      · have hbyte' : held[start] ≠ newline := by simpa [hbyte] using hnewline
        rw [if_neg fun h ↦ hnewline h.1]
        rw [if_neg hbyte'] at hlength
        exact ih ⟨by omega, by omega, hbelow⟩

theorem drop_tailStart (lines : UInt64) (held : List UInt8) :
    held.drop (tailStart lines held) = lastLines newline (tailReach lines.toNat held) held := by
  induction held using List.reverseRecOn with
  | nil => simp [tailStart, lastLines]
  | append_singleton held byte =>
      -- the last byte is gone over whatever it is
      have hstep : tailStart lines (held ++ [byte]) = tailScan lines (held ++ [byte])
          (if unterminated newline (held ++ [byte]) then 1 else 0) held.length := by
        simp [tailStart, tailScan]
      rw [hstep]
      apply drop_tailScan
      refine ⟨by simp, ?_, le_max_right _ _⟩
      rw [List.drop_left, length_lines_singleton]
      omega

theorem tailReach_pos (lines : ℕ) (held : List UInt8) : 0 < tailReach lines held := by
  simp only [tailReach]
  split <;> omega

/-- The counts of which a text's last lines are written: not none, and of a text without a newline
at its end one, or more than it has.  A count that no 64 bits hold is taken modulo their number. -/
def TailMeets (count : ℕ) (input : List UInt8) : Prop :=
  let size := (lines newline input).length
  input = [] ∨ 1 ≤ count ∧
    if count < 2 ^ 64 then unterminated newline input = false ∨ count = 1 ∨ size < count
    else size ≤ tailReach (count % 2 ^ 64) input

theorem lastLines_tailReach_iff (count : ℕ) (input : List UInt8) :
    lastLines newline (tailReach (count % 2 ^ 64) input) input = lastLines newline count input ↔
      TailMeets count input := by
  rw [lastLines_eq_iff]
  have hreach := tailReach_pos (count % 2 ^ 64) input
  by_cases hinput : input = []
  · simp [TailMeets, hinput]
  · have hpositive := List.length_pos_iff.mpr (mt (lines_eq_nil_iff newline).mp hinput)
    simp only [TailMeets, hinput, false_or]
    by_cases hcount : count < 2 ^ 64
    · rw [if_pos hcount, Nat.mod_eq_of_lt hcount]
      simp only [tailReach]
      cases unterminated newline input <;> simp <;> omega
    · rw [if_neg hcount]
      have hlt : count % 2 ^ 64 < 2 ^ 64 := Nat.mod_lt _ (by norm_num)
      have hbound : tailReach (count % 2 ^ 64) input < count := by
        simp only [tailReach]
        split <;> omega
      omega

/-- `TailCopy` writes the last lines of its input exactly where the memory that the input needs is
granted and the count is one that it meets, or where there is nothing to write. -/
theorem tailCopy_writes_iff (grants : ℕ → Bool) (sizes : ℕ → ℕ) (input : List UInt8) (count : ℕ) :
    (tailCopy grants none (UInt64.ofNat count) (Source.steady input sizes)).written =
        lastLines newline count input ↔
      MemorySuffices grants tailChunkBytes input.length ∧ TailMeets count input ∨
        ¬MemorySuffices grants tailChunkBytes input.length ∧ (count = 0 ∨ input = []) := by
  by_cases hmemory : MemorySuffices grants tailChunkBytes input.length
  · have hwritten : (tailCopy grants none (UInt64.ofNat count) (Source.steady input sizes)).written =
        lastLines newline (tailReach (count % 2 ^ 64) input) input := by
      simp [tailCopy, tailRead_steady sizes hmemory, drop_tailStart]
    rw [hwritten, lastLines_tailReach_iff]
    simp [hmemory]
  · have hwritten : (tailCopy grants none (UInt64.ofNat count) (Source.steady input sizes)).written =
        lastLines newline 0 input := by
      simp [tailCopy, tailRead_refused sizes hmemory, lastLines]
    have hempty : (lines newline input).length ≤ 0 ↔ input = [] := by
      rw [Nat.le_zero, List.length_eq_zero_iff, lines_eq_nil_iff]
    have hnone : lastLines newline 0 input = lastLines newline count input ↔
        count = 0 ∨ input = [] := by
      rw [lastLines_eq_iff, hempty]
      constructor
      · rintro (hcount | hinput)
        · exact Or.inl hcount.symm
        · exact Or.inr hinput.1
      · rintro (rfl | rfl)
        · exact Or.inl rfl
        · exact Or.inr ⟨rfl, Nat.zero_le _⟩
    rw [hwritten, hnone]
    simp [hmemory]

def twoLines : List UInt8 := [0x61, 0x0A, 0x62]

/-- The last line alone is written where both are asked for. -/
theorem tailCopy_not_writes :
    (tailCopy (fun _ ↦ true) none 2 (Source.steady twoLines fun _ ↦ 0)).written ≠
      lastLines newline 2 twoLines := by
  have hmemory : MemorySuffices (fun _ ↦ true) tailChunkBytes twoLines.length := fun _ _ _ ↦ rfl
  simp [tailCopy, tailRead_steady _ hmemory]
  decide

end OxysOS.Userland
