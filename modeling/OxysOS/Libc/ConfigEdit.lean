import OxysOS.Libc.Config

/-!
# The editing of a configuration

`libc/config/edit.c`.  The text is edited in place, so that every result is given
with the text as it then stands.
-/

namespace OxysOS.Libc

open OxysOS.Library

def editIsSpace (c : UInt8) : Bool := c = byteOf ' ' ∨ c = byteOf '\t' ∨ c = byteOf '\r'

def editLower (c : UInt8) : UInt8 :=
  if byteOf 'A' ≤ c ∧ c ≤ byteOf 'Z' then c - byteOf 'A' + byteOf 'a' else c

def editSame : List UInt8 → List UInt8 → Bool
  | c :: text, d :: name => if editLower c ≠ editLower d then false else editSame text name
  | [], [] => true
  | _, _ => false

structure EditScan where
  place : ℕ
  seen : ℕ
  inside : Bool
  foundBlock : Bool
  afterBlockSetting : ℕ

structure EditMatch where
  kept : List UInt8
  removed : ℕ

def editHeaderName (rest : List UInt8) : List UInt8 :=
  ((rest.takeWhile (· ≠ byteOf ']')).dropWhile editIsSpace).rdropWhile editIsSpace

def editSetting (line key : List UInt8) : Option (List UInt8) :=
  let first := line.dropWhile editIsSpace
  let before := first.takeWhile (· ≠ byteOf '=')
  if before.length < first.length ∧ editSame (before.rdropWhile editIsSpace) key then
    some (line.take (line.length - first.length + before.length + 1))
  else none

/-- The loop of `OxysConfigEdit` -/
def editLines (sectionName : List UInt8) (occurrence : ℕ) (key : List UInt8) (scan : EditScan) :
    List (List UInt8) → EditScan × Option EditMatch
  | [] => (scan, none)
  | raw :: raws =>
      let line := lineOf raw
      let next := scan.place + raw.length
      match line.dropWhile editIsSpace with
      | [] => editLines sectionName occurrence key { scan with place := next } raws
      | c :: rest =>
          if c = byteOf '[' then
            if scan.inside then (scan, none)
            else if editSame (editHeaderName rest) sectionName then
              if scan.seen = occurrence then
                editLines sectionName occurrence key { scan with
                  place := next
                  seen := scan.seen + 1
                  inside := true
                  foundBlock := true
                  afterBlockSetting := next } raws
              else
                editLines sectionName occurrence key
                  { scan with place := next, seen := scan.seen + 1 } raws
            else editLines sectionName occurrence key { scan with place := next } raws
          else if scan.inside ∧ c ≠ byteOf '#' then
            match editSetting line key with
            | some kept => (scan, some ⟨kept, raw.length⟩)
            | none =>
                editLines sectionName occurrence key
                  { scan with place := next, afterBlockSetting := next } raws
          else editLines sectionName occurrence key { scan with place := next } raws

def editValueAccepted (value : List UInt8) : Bool :=
  ¬(configValueMaximum < value.length ∨
    value.head?.any editIsSpace ∨ value.getLast?.any editIsSpace ∨
    byteOf '\n' ∈ value ∨ byteOf '#' ∈ value)

end OxysOS.Libc
