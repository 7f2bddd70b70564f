import OxysOS.Library.Bytes
import OxysOS.Library.Source

/-!
# Opening a file in Notepad

A file is read over the text that is being edited, before its length is known.  A file that is
longer than Notepad holds is refused once the text is gone, and a read that fails is taken for the
end of the file.
-/

namespace OxysOS.Userland

open OxysOS.Library

def notepadBytes : ℕ := 64 * 1024

/-- The bytes that `NotepadMessage` holds, without the zero at their end. -/
def notepadMessageMaximum : ℕ := 256

/-- The bytes that `NotepadPath` holds, without the zero at their end. -/
def notepadPathMaximum : ℕ := 255

structure Notepad where
  buffer : Bytes
  length : ℕ
  cursor : ℕ
  path : List UInt8
  modified : Bool
  top : ℕ
  left : ℕ
  message : List UInt8
  cursor_le : cursor ≤ length
  length_le : length ≤ notepadBytes

def Notepad.text (pad : Notepad) : List UInt8 := slice pad.buffer 0 pad.length

/-- The loop of `NotepadLoad` with so many bytes read, and what it leaves in the buffer: the bytes
that were read, or nothing where the file is longer than the buffer. -/
def notepadRead (source : Source UInt8) (buffer : Bytes) (total : ℕ) : Bytes × Option ℕ :=
  if total < notepadBytes then
    match _hread : source.read (notepadBytes - total) with
    | (none, _) => (buffer, some total)
    | (some given, rest) =>
        if _hgiven : given = [] then (buffer, some total)
        else notepadRead rest (splice buffer total given.length fun i ↦ given.getD i 0)
          (total + given.length)
  else match source.read 1 with
    | (none, _) => (buffer, some total)
    | (some given, _) => (buffer, if given = [] then some total else none)
  termination_by source.left.length
  decreasing_by exact Source.length_left_of_read _hread _hgiven

theorem notepadRead_le (source : Source UInt8) (buffer : Bytes) {total : ℕ}
    (htotal : total ≤ notepadBytes) :
    ∀ read ∈ (notepadRead source buffer total).2, read ≤ notepadBytes := by
  fun_induction notepadRead source buffer total with
  | case1 => simpa using htotal
  | case2 => simpa using htotal
  | case3 source buffer total hroom given rest hread hgiven ih =>
      have hlength := Source.length_of_read hread
      exact ih (by omega)
  | case4 => simpa using htotal
  | case5 source buffer total hfull given rest hread =>
      by_cases hgiven : given = []
      · simpa [hgiven] using htotal
      · simp [hgiven]

def notepadSay (pad : Notepad) (message : List UInt8) : Notepad :=
  { pad with message := message.take notepadMessageMaximum }

def notepadTooLong : List UInt8 :=
  "The file is longer than Notepad holds; it was not opened.".toList.map byteOf

def Notepad.emptied (pad : Notepad) (buffer : Bytes) : Notepad :=
  { pad with buffer, length := 0, cursor := 0, cursor_le := le_rfl, length_le := Nat.zero_le _ }

def Notepad.opened (pad : Notepad) (path : List UInt8) (buffer : Bytes) (total : ℕ)
    (htotal : total ≤ notepadBytes) : Notepad :=
  { pad with
    buffer
    length := total
    cursor := 0
    path := path.take notepadPathMaximum
    modified := false
    top := 0
    left := 0
    cursor_le := Nat.zero_le _
    length_le := htotal }

/-- `NotepadLoad`, with what `OxysOpen` gives: the text of its error, or the file to be read. -/
def notepadLoad (opened : Except (List UInt8) (Source UInt8)) (path : List UInt8)
    (pad : Notepad) : Bool × Notepad :=
  match opened with
  | .error reason =>
      (false, notepadSay pad ((path ++ [byteOf ':', byteOf ' '] ++ reason).take
        notepadMessageMaximum))
  | .ok source =>
      match hread : notepadRead source pad.buffer 0 with
      | (buffer, none) => (false, notepadSay (pad.emptied buffer) notepadTooLong)
      | (buffer, some total) =>
          (true, notepadSay (pad.opened path buffer total
            (notepadRead_le source pad.buffer (Nat.zero_le _) total (by simp [hread])))
            ("Opened.".toList.map byteOf))

theorem slice_append_splice (buffer : Bytes) (total : ℕ) (given : List UInt8) :
    slice (splice buffer total given.length fun i ↦ given.getD i 0) 0 (total + given.length) =
      slice buffer 0 total ++ given := by
  have hbefore : slice (splice buffer total given.length fun i ↦ given.getD i 0) 0 total =
      slice buffer 0 total := by
    apply slice_congr
    intro i _ hi
    exact splice_of_lt (by omega)
  rw [slice_add, Nat.zero_add, hbefore, slice_splice _ _ _ _ rfl]

theorem notepadRead_spec (source : Source UInt8) (buffer : Bytes) {total : ℕ}
    (htotal : total ≤ notepadBytes) :
    (¬source.Interrupted (notepadBytes - total) →
      total + source.left.length ≤ notepadBytes →
      (notepadRead source buffer total).2 = some (total + source.left.length) ∧
        slice (notepadRead source buffer total).1 0 (total + source.left.length) =
          slice buffer 0 total ++ source.left) ∧
    (¬source.Interrupted (notepadBytes - total) →
      notepadBytes < total + source.left.length → (notepadRead source buffer total).2 = none) ∧
    (source.Interrupted (notepadBytes - total) →
      ∃ part < total + source.left.length, (notepadRead source buffer total).2 = some part) := by
  fun_induction notepadRead source buffer total with
  | case1 source buffer total hroom _ hread =>
      -- the read fails
      have hnone := Source.answers_of_read_none hread
      by_cases hleft : source.left = []
      · have hnot := Source.not_interrupted_nil (notepadBytes - total) hleft
        simp [hleft, hnot, htotal]
      · have hinterrupted := Source.interrupted_of_none (notepadBytes - total) hnone hleft
        have hpositive := List.length_pos_iff.mpr hleft
        simp [hinterrupted]
        omega
  | case2 source buffer total hroom rest hread =>
      have hleft := Source.left_of_read_nil (by omega) hread
      have hnot := Source.not_interrupted_nil (notepadBytes - total) hleft
      simp [hleft, hnot, htotal]
  | case3 source buffer total hroom given rest hread hgiven ih =>
      have hlength := Source.length_of_read hread
      have hleft := Source.left_of_read hread
      have hfits : total + given.length ≤ notepadBytes := by omega
      have hsize : total + source.left.length = total + given.length + rest.left.length := by
        rw [hleft, List.length_append, Nat.add_assoc]
      rw [Source.interrupted_read_iff (by omega) hread, hsize, Nat.sub_sub]
      have hih := ih hfits
      rw [slice_append_splice, List.append_assoc, ← hleft] at hih
      exact hih
  | case4 source buffer total hfull _ hread =>
      have hnone := Source.answers_of_read_none hread
      by_cases hleft : source.left = []
      · have hnot := Source.not_interrupted_nil (notepadBytes - total) hleft
        simp [hleft, hnot, htotal]
      · have hinterrupted := Source.interrupted_of_none (notepadBytes - total) hnone hleft
        have hpositive := List.length_pos_iff.mpr hleft
        simp [hinterrupted]
        omega
  | case5 source buffer total hfull given rest hread =>
      -- the buffer is full, and the read asks whether anything is left
      obtain rfl : total = notepadBytes := by omega
      have hnot := Source.not_interrupted_full (Source.answers_of_read hread)
      have hleft := Source.left_of_read hread
      by_cases hgiven : given = []
      · have hempty := Source.left_of_read_nil Nat.one_pos (hgiven ▸ hread)
        simp [hgiven, hempty, hnot]
      · have hlonger : source.left ≠ [] := by
          simp [hleft, hgiven]
        simp [hgiven, hnot, hlonger]

/-- An open that fails keeps the text, the cursor, the path and the mark of what is modified, and
one that does not gives the text of the whole file. -/
def LoadKeeps (opened : Except (List UInt8) (Source UInt8)) (path : List UInt8)
    (pad : Notepad) : Prop :=
  let (succeeded, after) := notepadLoad opened path pad
  if succeeded then ∃ source, opened = .ok source ∧ after.text = source.left
  else after.text = pad.text ∧ after.length = pad.length ∧ after.cursor = pad.cursor ∧
    after.path = pad.path ∧ after.modified = pad.modified

variable {source : Source UInt8} {path : List UInt8} {pad : Notepad}

theorem loadKeeps_of_none (h : (notepadRead source pad.buffer 0).2 = none) :
    LoadKeeps (.ok source) path pad ↔ pad.length = 0 := by
  have hload : notepadLoad (.ok source) path pad =
      (false, notepadSay (pad.emptied (notepadRead source pad.buffer 0).1) notepadTooLong) := by
    simp only [notepadLoad]
    split
    · next buffer hread => simp [hread]
    · next buffer total hread => simp [hread] at h
  have hcursor := pad.cursor_le
  simp only [LoadKeeps, hload, notepadSay, Notepad.emptied, Notepad.text, slice_zero,
    Bool.false_eq_true, if_false, and_true]
  constructor
  · rintro ⟨-, hlength, -⟩
    exact hlength.symm
  · intro hlength
    exact ⟨by rw [hlength, slice_zero], hlength.symm, by omega⟩

theorem loadKeeps_of_some {total : ℕ} (h : (notepadRead source pad.buffer 0).2 = some total) :
    LoadKeeps (.ok source) path pad ↔
      slice (notepadRead source pad.buffer 0).1 0 total = source.left := by
  have hload : notepadLoad (.ok source) path pad =
      (true, notepadSay (pad.opened path (notepadRead source pad.buffer 0).1 total
        (notepadRead_le source pad.buffer (Nat.zero_le _) total h))
        ("Opened.".toList.map byteOf)) := by
    simp only [notepadLoad]
    split
    · next buffer hread => simp [hread] at h
    · next buffer read hread =>
        obtain rfl : read = total := by simpa [hread] using h
        simp [hread]
  simp [LoadKeeps, hload, notepadSay, Notepad.opened, Notepad.text]

/-- A file is opened or refused as it should be exactly where no read fails before its end, and
where it fits or there is no text to be lost. -/
theorem loadKeeps_iff (opened : Except (List UInt8) (Source UInt8)) (path : List UInt8)
    (pad : Notepad) :
    LoadKeeps opened path pad ↔ ∀ source, opened = .ok source →
      ¬source.Interrupted notepadBytes ∧
        (source.left.length ≤ notepadBytes ∨ pad.length = 0) := by
  cases opened with
  | error reason => simp [LoadKeeps, notepadLoad, notepadSay, Notepad.text]
  | ok source =>
      have hspec := notepadRead_spec source pad.buffer (Nat.zero_le notepadBytes)
      simp only [Nat.sub_zero, Nat.zero_add, slice_zero, List.nil_append] at hspec
      obtain ⟨hwhole, hlonger, hpart⟩ := hspec
      simp only [Except.ok.injEq, forall_eq']
      by_cases hinterrupted : source.Interrupted notepadBytes
      · obtain ⟨part, hlt, hread⟩ := hpart hinterrupted
        have hne : slice (notepadRead source pad.buffer 0).1 0 part ≠ source.left := by
          intro hsame
          have hlength := congrArg List.length hsame
          rw [length_slice] at hlength
          omega
        simp [loadKeeps_of_some hread, hne, hinterrupted]
      · by_cases hfits : source.left.length ≤ notepadBytes
        · obtain ⟨hread, hslice⟩ := hwhole hinterrupted hfits
          simp [loadKeeps_of_some hread, hslice, hinterrupted, hfits]
        · have hread := hlonger hinterrupted (by omega)
          simp [loadKeeps_of_none hread, hinterrupted, hfits]

def editedPad : Notepad where
  buffer := fun _ ↦ 0x61
  length := 1
  cursor := 1
  path := [0x66]
  modified := true
  top := 0
  left := 0
  message := []
  cursor_le := le_rfl
  length_le := by decide

def brokenFile : Source UInt8 :=
  ⟨[0x62, 0x63], fun call ↦ if call = 0 then some 0 else none⟩

/-- The half of a file is opened as if it were the whole. -/
theorem notepadLoad_not_keeps : ¬LoadKeeps (.ok brokenFile) [0x67] editedPad := by
  intro hkeeps
  have hspec := (loadKeeps_iff (.ok brokenFile) [0x67] editedPad).mp hkeeps brokenFile rfl
  apply hspec.1
  refine ⟨1, rfl, ?_, by decide⟩
  intro earlier hearlier
  obtain rfl : earlier = 0 := by omega
  decide

end OxysOS.Userland
