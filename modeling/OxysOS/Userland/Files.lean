import Mathlib.Logic.Function.Basic
import Mathlib.Tactic.Common

/-!
# Files and their names

What a program may do to files by way of the system's calls.  A name stands for a file, and several
may stand for one; a symbolic link stands for the file that it leads to.  A call that fails changes
nothing, but for a write, which may have written part.
-/

namespace OxysOS.Userland

abbrev Path := List UInt8

structure Files where
  named : Path → Option ℕ
  content : ℕ → List UInt8
  next : ℕ
  named_lt : ∀ path file, named path = some file → file < next

namespace Files

variable {files : Files} {path other : Path} {file : ℕ} {text : List UInt8}

def reads (files : Files) (path : Path) : Option (List UInt8) :=
  (files.named path).map files.content

def store (files : Files) (file : ℕ) (text : List UInt8) : Files :=
  { files with content := Function.update files.content file text }

def make (files : Files) (path : Path) : Files where
  named := Function.update files.named path (some files.next)
  content := Function.update files.content files.next []
  next := files.next + 1
  named_lt other file h := by
    by_cases hother : other = path
    · rw [hother, Function.update_self] at h
      cases h
      exact Nat.lt_succ_self _
    · rw [Function.update_of_ne hother] at h
      exact Nat.lt_succ_of_lt (files.named_lt other file h)

def drop (files : Files) (path : Path) : Files where
  named := Function.update files.named path none
  content := files.content
  next := files.next
  named_lt other file h := by
    by_cases hother : other = path
    · rw [hother, Function.update_self] at h
      cases h
    · rw [Function.update_of_ne hother] at h
      exact files.named_lt other file h

def share (files : Files) (existing name : Path) : Files where
  named := Function.update files.named name (files.named existing)
  content := files.content
  next := files.next
  named_lt other file h := by
    by_cases hother : other = name
    · rw [hother, Function.update_self] at h
      exact files.named_lt existing file h
    · rw [Function.update_of_ne hother] at h
      exact files.named_lt other file h

inductive CallError
  | noEntry | other
  deriving DecidableEq

structure WriteOutcome where
  taken : ℕ
  fails : Bool

def WriteOutcome.Whole (outcome : WriteOutcome) (bytes : List UInt8) : Prop :=
  outcome.fails = false ∧ bytes.length ≤ outcome.taken

instance (outcome : WriteOutcome) (bytes : List UInt8) : Decidable (outcome.Whole bytes) :=
  inferInstanceAs (Decidable (_ ∧ _))

/-- `OxysWrite`, which answers how much it has written where it does not fail. -/
def write (files : Files) (file : ℕ) (bytes : List UInt8) (outcome : WriteOutcome) :
    Option ℕ × Files :=
  (if outcome.fails then none else some (min outcome.taken bytes.length),
    files.store file (files.content file ++ bytes.take outcome.taken))

/-- `OxysUnlink` -/
def unlink (files : Files) (path : Path) (fails : Bool) : Option CallError × Files :=
  match files.named path with
  | none => (some .noEntry, files)
  | some _ => if fails then (some .other, files) else (none, files.drop path)

/-- `OxysLink`, of a name that stands for no file. -/
def link (files : Files) (existing name : Path) (fails : Bool) : Option CallError × Files :=
  match files.named existing, files.named name with
  | none, _ => (some .noEntry, files)
  | some _, some _ => (some .other, files)
  | some _, none => if fails then (some .other, files) else (none, files.share existing name)

theorem store_store (files : Files) (file : ℕ) (text text' : List UInt8) :
    (files.store file text).store file text' = files.store file text' := by
  unfold store
  dsimp only
  congr 1
  exact Function.update_idem _ _ _

theorem content_store (files : Files) (file : ℕ) (text : List UInt8) :
    (files.store file text).content file = text := Function.update_self _ _ _

theorem store_content (files : Files) (file : ℕ) :
    files.store file (files.content file) = files := by
  unfold store
  rw [Function.update_eq_self]

theorem reads_of_named (h : files.named path = some file) :
    files.reads path = some (files.content file) := by
  unfold reads
  rw [h]
  rfl

theorem reads_store (h : files.named path ≠ some file) (text : List UInt8) :
    (files.store file text).reads path = files.reads path := by
  unfold reads store
  dsimp only
  cases hnamed : files.named path with
  | none => rfl
  | some file' =>
      have hne : file' ≠ file := fun hsame ↦ h (hsame ▸ hnamed)
      exact congrArg some (Function.update_of_ne hne text files.content)

end Files

end OxysOS.Userland
