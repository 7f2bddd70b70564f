import OxysOS.Library.Bytes
import Mathlib.Data.List.DropRight

/-!
# The configuration and its parser

`libc/config/config.c`.  A text is the list of its bytes, and a string is the list
of the bytes before its end, so that a zero byte in a text ends what is copied of
it.
-/

namespace OxysOS.Libc

open OxysOS.Library

def configSectionMaximum : ℕ := 31

def configKeyMaximum : ℕ := 31

def configValueMaximum : ℕ := 127

def configFaultsMaximum : ℕ := 8

inductive ConfigFault
  | noSection | noEquals | emptyKey | longSection | longKey | longValue | unclosedSection
  | unclosedQuote | duplicateKey | full
  deriving DecidableEq

def ConfigFault.reason : ConfigFault → String
  | noSection => "a setting before any section"
  | noEquals => "neither a section, a comment, nor key = value"
  | emptyKey => "a setting with no name before the equals sign"
  | longSection => "a section name beyond the bound"
  | longKey => "a key beyond the bound"
  | longValue => "a value beyond the bound"
  | unclosedSection => "a section that is not closed by a bracket"
  | unclosedQuote => "a quoted value that is not closed"
  | duplicateKey => "a key given twice within one section"
  | full => "more settings than memory could be found for"

structure OxysConfigEntry where
  sectionName : List UInt8
  occurrence : ℕ
  key : List UInt8
  value : List UInt8
  deriving DecidableEq

/-- `OxysConfig`.  Whether the store holds, or can be grown to hold, one more entry
is told by how many it has. -/
structure OxysConfig where
  holds : ℕ → Bool
  entries : List OxysConfigEntry
  faults : List (ℕ × ConfigFault)
  faultsDropped : ℕ

def configIsSpace (c : UInt8) : Bool := c = byteOf ' ' ∨ c = byteOf '\t' ∨ c = byteOf '\r'

def configLower (c : UInt8) : UInt8 :=
  if byteOf 'A' ≤ c ∧ c ≤ byteOf 'Z' then c - byteOf 'A' + byteOf 'a' else c

def configSame : List UInt8 → List UInt8 → Bool
  | c :: first, d :: second => if configLower c ≠ configLower d then false else configSame first second
  | [], [] => true
  | _, _ => false

def cString (bytes : List UInt8) : List UInt8 := bytes.takeWhile (· ≠ 0)

def configCopyBounded (capacity : ℕ) (source : List UInt8) : Option (List UInt8) :=
  if capacity < source.length then none else some (cString source)

def trim (bytes : List UInt8) : List UInt8 :=
  (bytes.dropWhile configIsSpace).rdropWhile configIsSpace

def configValueSpan (line : List UInt8) : Except ConfigFault (List UInt8) :=
  let line := line.dropWhile configIsSpace
  if line.head? = some (byteOf '"') then
    let value := line.tail.takeWhile (· ≠ byteOf '"')
    if value.length = line.tail.length then .error .unclosedQuote else .ok value
  else .ok ((line.takeWhile (· ≠ byteOf '#')).rdropWhile configIsSpace)

def configHasKey (config : OxysConfig) (sectionName : List UInt8) (occurrence : ℕ)
    (key : List UInt8) : Bool :=
  config.entries.any fun entry ↦
    entry.occurrence = occurrence ∧ configSame entry.sectionName sectionName ∧ configSame entry.key key

structure ConfigReader where
  config : OxysConfig
  sectionName : List UInt8
  occurrence : ℕ
  haveSection : Bool

def configRecordFault (reader : ConfigReader) (number : ℕ) (fault : ConfigFault) : ConfigReader :=
  let config := reader.config
  if config.faults.length < configFaultsMaximum then
    { reader with config := { config with faults := config.faults ++ [(number, fault)] } }
  else { reader with config := { config with faultsDropped := config.faultsDropped + 1 } }

def configHeader (rest : List UInt8) : Except ConfigFault (List UInt8) :=
  let name := rest.takeWhile (· ≠ byteOf ']')
  if name.length = rest.length then .error .unclosedSection
  else
    match configCopyBounded configSectionMaximum (trim name) with
    | none => .error .longSection
    | some sectionName => .ok sectionName

def configKey (line : List UInt8) : Except ConfigFault (List UInt8 × List UInt8) :=
  let before := line.takeWhile fun c ↦ c ≠ byteOf '=' ∧ c ≠ byteOf '#'
  let after := line.drop before.length
  if after.head? ≠ some (byteOf '=') then .error .noEquals
  else
    let key := before.rdropWhile configIsSpace
    if key = [] then .error .emptyKey else .ok (key, after.tail)

def configSetting (key after : List UInt8) : Except ConfigFault (List UInt8 × List UInt8) :=
  match configCopyBounded configKeyMaximum key with
  | none => .error .longKey
  | some key =>
      match configValueSpan after with
      | .error fault => .error fault
      | .ok value =>
          match configCopyBounded configValueMaximum value with
          | none => .error .longValue
          | some value => .ok (key, value)

def configOccurrence (config : OxysConfig) (sectionName : List UInt8) : ℕ :=
  config.entries.foldl (fun occurrence entry ↦
    if configSame entry.sectionName sectionName ∧ occurrence ≤ entry.occurrence then entry.occurrence + 1
    else occurrence) 0

def configParseLine (reader : ConfigReader) (line : List UInt8) (number : ℕ) :
    Bool × ConfigReader :=
  let refuse (fault : ConfigFault) : Bool × ConfigReader :=
    (false, configRecordFault reader number fault)
  match line.dropWhile configIsSpace with
  | [] => (true, reader)
  | c :: rest =>
      if c = byteOf '#' then (true, reader)
      else if c = byteOf '[' then
        match configHeader rest with
        | .error fault => refuse fault
        | .ok sectionName =>
            (true, { reader with
              sectionName := sectionName
              occurrence := configOccurrence reader.config sectionName
              haveSection := true })
      else if ¬reader.haveSection then refuse .noSection
      else
        match configKey (c :: rest) with
        | .error fault => refuse fault
        | .ok (key, after) =>
            if ¬reader.config.holds reader.config.entries.length then refuse .full
            else
              match configSetting key after with
              | .error fault => refuse fault
              | .ok (key, value) =>
                  if configHasKey reader.config reader.sectionName reader.occurrence key then
                    refuse .duplicateKey
                  else
                    let entry : OxysConfigEntry :=
                      ⟨reader.sectionName, reader.occurrence, key, value⟩
                    (true, { reader with config := { reader.config with
                      entries := reader.config.entries ++ [entry] } })

def rawLines : List UInt8 → List (List UInt8)
  | [] => []
  | c :: text =>
      if c = byteOf '\n' then [c] :: rawLines text
      else
        match rawLines text with
        | [] => [[c]]
        | line :: lines => (c :: line) :: lines

def lineOf (raw : List UInt8) : List UInt8 := raw.takeWhile (· ≠ byteOf '\n')

/-- The loop of `OxysConfigParse`.  The empty line after the last newline says
nothing, and is not looked at here. -/
def configParseLines (reader : ConfigReader) (number : ℕ) :
    List (List UInt8) → Bool × ConfigReader
  | [] => (true, reader)
  | raw :: raws =>
      let (whole, reader) := configParseLine reader (lineOf raw) number
      let (rest, reader) := configParseLines reader (number + 1) raws
      (whole && rest, reader)

def oxysConfigParse (holds : ℕ → Bool) (text : List UInt8) : Bool × OxysConfig :=
  let reader : ConfigReader := ⟨⟨holds, [], [], 0⟩, [], 0, false⟩
  let (whole, reader) := configParseLines reader 1 (rawLines text)
  (whole, reader.config)

def oxysConfigValue (config : OxysConfig) (sectionName : List UInt8) (occurrence : ℕ)
    (key : List UInt8) : Option (List UInt8) :=
  (config.entries.find? fun entry ↦ entry.occurrence = occurrence ∧
    configSame entry.sectionName sectionName ∧ configSame entry.key key).map OxysConfigEntry.value

end OxysOS.Libc
