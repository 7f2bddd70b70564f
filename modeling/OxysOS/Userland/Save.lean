import OxysOS.Userland.Files

/-!
# Saving a file

The editors write a file beside the one that is saved, remove the name of the old one and give it to
the new.
-/

namespace OxysOS.Userland

open Files

def syscallPathMaximum : ℕ := 255

structure SaveCalls where
  openFails : Bool
  write : ℕ → WriteOutcome
  closeFails : Bool
  unlinkFails : Bool
  linkFails : Bool
  cleanupFails : Bool

/-- What writes of parts one after another leave, the first that is not whole being the last, and
whether all are whole. -/
def written (write : ℕ → WriteOutcome) : List (List UInt8) → ℕ → Bool × List UInt8
  | [], _ => (true, [])
  | part :: parts, call =>
      if (write call).Whole part then
        let rest := written write parts (call + 1)
        (rest.1, part ++ rest.2)
      else (false, part.take (write call).taken)

variable {files : Files} {path beside : Path} {descriptor : ℕ} {text : List UInt8}

variable {calls : SaveCalls} {files' : Files}

def linkFails : SaveCalls := ⟨false, fun _ ↦ ⟨1, false⟩, false, false, true, false⟩

end OxysOS.Userland
