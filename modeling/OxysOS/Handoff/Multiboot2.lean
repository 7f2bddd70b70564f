import OxysOS.Library.Bytes
import OxysOS.Library.Traced

/-!
# The boot information parser

`kernel/handoff/multiboot2.c`.  Memory is a run of bytes indexed by virtual
address, and pointers are added to modulo `2 ^ 64`.  A read is noted with the
pointer it is made through and its displacement from it; an entry of the memory
map is read through the pointer to its tag.
-/

namespace OxysOS.Handoff

open OxysOS.Library
open OxysOS.Library.Traced

inductive BootMemoryType
  | usable
  | reserved
  | acpiReclaimable
  | nonVolatile
  | defective
  deriving DecidableEq

structure BootMemoryRegion where
  baseAddress : ℕ
  length : ℕ
  type : BootMemoryType

/-- `BootModule`; the name is what stands before its terminator. -/
structure BootModule where
  start : ℕ
  finish : ℕ
  name : List UInt8

inductive BootFramebufferFormat
  | none
  | indexed
  | rgb
  | egaText
  deriving DecidableEq

structure BootFramebuffer where
  format : BootFramebufferFormat
  address : ℕ
  pitch : ℕ
  width : ℕ
  height : ℕ
  bitsPerPixel : ℕ
  redPosition : ℕ
  redSize : ℕ
  greenPosition : ℕ
  greenSize : ℕ
  bluePosition : ℕ
  blueSize : ℕ

structure BootInformation where
  memoryRegions : List BootMemoryRegion
  memoryMapTruncated : Bool
  usableByteCount : ℕ
  highestUsableAddress : ℕ
  kernelPhysicalStart : ℕ
  kernelPhysicalEnd : ℕ
  bootInformationStart : ℕ
  bootInformationEnd : ℕ
  modules : List BootModule
  modulesTruncated : Bool
  elfSectionCount : ℕ
  acpiRsdpAddress : ℕ
  acpiRsdpRevision : ℕ
  bootLoaderName : List UInt8
  commandLine : List UInt8
  framebuffer : BootFramebuffer

def BootInformation.initial : BootInformation where
  memoryRegions := []
  memoryMapTruncated := false
  usableByteCount := 0
  highestUsableAddress := 0
  kernelPhysicalStart := 0
  kernelPhysicalEnd := 0
  bootInformationStart := 0
  bootInformationEnd := 0
  modules := []
  modulesTruncated := false
  elfSectionCount := 0
  acpiRsdpAddress := 0
  acpiRsdpRevision := 0
  bootLoaderName := []
  commandLine := []
  framebuffer := ⟨.none, 0, 0, 0, 0, 0, 0, 0, 0, 0, 0, 0⟩

def bootMemoryRegionMaximum : ℕ := 64

def bootModuleMaximum : ℕ := 4

def kernelVirtualBase : ℕ := 0xFFFFFFFF80000000

def physicalToVirtual (physicalAddress : ℕ) : ℕ := (physicalAddress + kernelVirtualBase) % 2 ^ 64

def virtualToPhysical (virtualAddress : ℕ) : ℕ :=
  (virtualAddress + (2 ^ 64 - kernelVirtualBase)) % 2 ^ 64

inductive Effect
  | read (pointer displacement : ℕ)
  | wrote (text : String)
  | wroteHexadecimal (value : ℕ)

def advance (pointer displacement : ℕ) : ℕ := (pointer + displacement) % 2 ^ 64

def member (memory : Bytes) (pointer displacement width : ℕ) : Traced Effect ℕ := do
  notes ((List.range' displacement width).map (Effect.read pointer))
  return readField memory (advance pointer displacement) width

def kernelWriteString (text : String) : Traced Effect Unit := note (.wrote text)

variable (memory : Bytes)

def multiboot2TotalSizeMaximum : ℕ := 0x00100000

def multiboot2AlignTagSize (size : ℕ) : ℕ := (size + 7) % 2 ^ 32 / 8 * 8

def multiboot2TranslateMemoryType (multibootType : ℕ) : BootMemoryType :=
  match multibootType with
  | 1 => .usable
  | 3 => .acpiReclaimable
  | 4 => .nonVolatile
  | 5 => .defective
  | _ => .reserved

/-- The characters copied from a displacement on, at most `room` of them. -/
def copyCharacters (source : ℕ) : ℕ → ℕ → Traced Effect (List UInt8)
  | _, 0 => return []
  | displacement, room + 1 => do
      let character ← member memory source displacement 1
      if character = 0 then return []
      else do
        let rest ← copyCharacters source (displacement + 1) room
        return UInt8.ofNat character :: rest

/-- `Multiboot2CopyString`, from what stands at a displacement from `source`. -/
def multiboot2CopyString (source displacement capacity : ℕ) : Traced Effect (List UInt8) :=
  copyCharacters memory source displacement (capacity - 1)

def multiboot2ParseModule (tag : ℕ) (information : BootInformation) :
    Traced Effect BootInformation := do
  let size ← member memory tag 4 4
  if size < 17 then do
    kernelWriteString "A Multiboot2 module tag is too short to describe a module.\n"
    return information
  else do
    let moduleEnd ← member memory tag 12 4
    let moduleStart ← member memory tag 8 4
    if moduleEnd ≤ moduleStart then do
      kernelWriteString "A Multiboot2 module tag describes an empty or inverted extent.\n"
      return information
    else if bootModuleMaximum ≤ information.modules.length then
      return { information with modulesTruncated := true }
    else do
      let name ← multiboot2CopyString memory tag 16 32
      return { information with
        modules := information.modules ++ [⟨moduleStart, moduleEnd, name⟩] }

def recordRegion (information : BootInformation) (region : BootMemoryRegion) : BootInformation :=
  let information :=
    if information.memoryRegions.length < bootMemoryRegionMaximum then
      { information with memoryRegions := information.memoryRegions ++ [region] }
    else { information with memoryMapTruncated := true }
  if region.type = .usable then
    { information with
      usableByteCount := (information.usableByteCount + region.length) % 2 ^ 64
      highestUsableAddress :=
        max information.highestUsableAddress ((region.baseAddress + region.length) % 2 ^ 64) }
  else information

def recordEntry (information : BootInformation) (baseAddress length type : ℕ) : BootInformation :=
  if length ≠ 0 then
    recordRegion information ⟨baseAddress, length, multiboot2TranslateMemoryType type⟩
  else information

def parseEntries (tag size entrySize : ℕ) :
    ℕ → ℕ → BootInformation → Traced Effect BootInformation
  | 0, _, _ => unending
  | turns + 1, displacement, information =>
      if advance tag (displacement + entrySize) ≤ advance tag size then do
        let type ← member memory tag (displacement + 16) 4
        let length ← member memory tag (displacement + 8) 8
        let baseAddress ← member memory tag displacement 8
        parseEntries tag size entrySize turns (displacement + entrySize)
          (recordEntry information baseAddress length type)
      else return information

def multiboot2ParseMemoryMap (turns tag : ℕ) (information : BootInformation) :
    Traced Effect BootInformation := do
  let entrySize ← member memory tag 8 4
  if entrySize < 24 ∨ entrySize % 8 ≠ 0 then do
    kernelWriteString "  The memory map entry size is invalid; the map is ignored.\n"
    return information
  else do
    let size ← member memory tag 4 4
    parseEntries memory tag size entrySize turns 16 information

def parseColours (tag size : ℕ) (framebuffer : BootFramebuffer) :
    Traced Effect BootFramebuffer := do
  if size < 38 then do
    kernelWriteString "The framebuffer tag claims RGB and omits the colour description.\n"
    return framebuffer
  else do
    let redPosition ← member memory tag 32 1
    let redSize ← member memory tag 33 1
    let greenPosition ← member memory tag 34 1
    let greenSize ← member memory tag 35 1
    let bluePosition ← member memory tag 36 1
    let blueSize ← member memory tag 37 1
    let framebuffer := { framebuffer with
      redPosition := redPosition
      redSize := redSize
      greenPosition := greenPosition
      greenSize := greenSize
      bluePosition := bluePosition
      blueSize := blueSize }
    if framebuffer.bitsPerPixel < redPosition + redSize ∨
        framebuffer.bitsPerPixel < greenPosition + greenSize ∨
        framebuffer.bitsPerPixel < bluePosition + blueSize then do
      kernelWriteString "The framebuffer colour description places a channel outside the pixel.\n"
      return framebuffer
    else return { framebuffer with format := .rgb }

def parseFramebufferKind (tag size kind : ℕ) (framebuffer : BootFramebuffer) :
    Traced Effect BootFramebuffer :=
  match kind with
  | 1 => parseColours memory tag size framebuffer
  | 2 => return { framebuffer with format := .egaText }
  | 0 => return { framebuffer with format := .indexed }
  | _ => do
      kernelWriteString "The framebuffer tag states a kind this kernel does not recognise.\n"
      return framebuffer

/-- `Multiboot2ParseFramebuffer`, of the description's display. -/
def parseFramebuffer (tag : ℕ) (framebuffer : BootFramebuffer) :
    Traced Effect BootFramebuffer := do
  let framebuffer := { framebuffer with format := .none }
  let size ← member memory tag 4 4
  if size < 32 then do
    kernelWriteString "The framebuffer tag is shorter than its own common fields.\n"
    return framebuffer
  else do
    let address ← member memory tag 8 8
    let width ← member memory tag 20 4
    let height ← member memory tag 24 4
    let pitch ← member memory tag 16 4
    let bitsPerPixel ← member memory tag 28 1
    if address = 0 ∨ width = 0 ∨ height = 0 ∨ pitch = 0 ∨ bitsPerPixel = 0 then do
      kernelWriteString "The framebuffer tag describes a display of no extent.\n"
      return framebuffer
    else if pitch * 8 < width * bitsPerPixel then do
      kernelWriteString "The framebuffer pitch is narrower than one row.\n"
      return framebuffer
    else do
      let kind ← member memory tag 29 1
      parseFramebufferKind memory tag size kind { framebuffer with
        address := address
        pitch := pitch
        width := width
        height := height
        bitsPerPixel := bitsPerPixel }

def multiboot2ParseFramebuffer (tag : ℕ) (information : BootInformation) :
    Traced Effect BootInformation := do
  let framebuffer ← parseFramebuffer memory tag information.framebuffer
  return { information with framebuffer := framebuffer }

def multiboot2ParseElfSections (tag : ℕ) (information : BootInformation) :
    Traced Effect BootInformation := do
  let entrySize ← member memory tag 12 4
  if entrySize ≠ 64 then do
    kernelWriteString "  The ELF sections tag has an unexpected entry size: "
    note (.wroteHexadecimal entrySize)
    kernelWriteString "; the tag is ignored.\n"
    return information
  else do
    let entryCount ← member memory tag 8 4
    return { information with elfSectionCount := entryCount }

def multiboot2ParseAcpiPointer (tag : ℕ) (extended : Bool) (information : BootInformation) :
    Traced Effect BootInformation := do
  let size ← member memory tag 4 4
  if size < 8 + (if extended then 36 else 20) then do
    kernelWriteString
      "  An ACPI pointer tag is shorter than the structure it declares; it is ignored.\n"
    return information
  else if extended = false ∧ information.acpiRsdpAddress ≠ 0 then return information
  else do
    let revision ← member memory tag 23 1
    return { information with
      acpiRsdpAddress := virtualToPhysical (advance tag 8)
      acpiRsdpRevision := revision }

def interpretTag (turns tag type : ℕ) (information : BootInformation) :
    Traced Effect (BootInformation × Bool) :=
  match type with
  | 6 => do
      let information ← multiboot2ParseMemoryMap memory turns tag information
      return (information, true)
  | 8 => do
      let information ← multiboot2ParseFramebuffer memory tag information
      return (information, false)
  | 3 => do
      let information ← multiboot2ParseModule memory tag information
      return (information, false)
  | 9 => do
      let information ← multiboot2ParseElfSections memory tag information
      return (information, false)
  | 14 => do
      let information ← multiboot2ParseAcpiPointer memory tag false information
      return (information, false)
  | 15 => do
      let information ← multiboot2ParseAcpiPointer memory tag true information
      return (information, false)
  | 2 => do
      let name ← multiboot2CopyString memory tag 8 128
      return ({ information with bootLoaderName := name }, false)
  | 1 => do
      let line ← multiboot2CopyString memory tag 8 128
      return ({ information with commandLine := line }, false)
  | _ => return (information, false)

def parseTags (tagLimit : ℕ) :
    ℕ → ℕ → BootInformation → Bool → Traced Effect (BootInformation × Bool)
  | 0, _, _, _ => unending
  | turns + 1, tag, information, memoryMapFound =>
      if tagLimit < advance tag 8 then return (information, memoryMapFound)
      else do
        let size ← member memory tag 4 4
        if size < 8 ∨ tagLimit < advance tag size then do
          kernelWriteString "The Multiboot2 tag series is malformed; parsing stops.\n"
          return (information, memoryMapFound)
        else do
          let type ← member memory tag 0 4
          if type = 0 then return (information, memoryMapFound)
          else do
            let answer ← interpretTag memory turns tag type information
            parseTags tagLimit turns (advance tag (multiboot2AlignTagSize size)) answer.1
              (memoryMapFound || answer.2)

/-- `BootInformationParseMultiboot2`, of a kernel that lies between the two
addresses its linking gave. -/
def bootInformationParseMultiboot2 (kernelStart kernelEnd turns informationAddress : ℕ) :
    Traced Effect (Bool × BootInformation) :=
  if informationAddress % 8 ≠ 0 then do
    kernelWriteString "The Multiboot2 information structure is misaligned.\n"
    return (false, .initial)
  else do
    let header := physicalToVirtual informationAddress
    let totalSize ← member memory header 0 4
    if totalSize < 8 ∨ multiboot2TotalSizeMaximum < totalSize then do
      kernelWriteString "The Multiboot2 information structure declares an implausible size.\n"
      return (false, .initial)
    else do
      let answer ← parseTags memory (advance header totalSize) turns (advance header 8)
        { BootInformation.initial with
          bootInformationStart := informationAddress
          bootInformationEnd := informationAddress + totalSize
          kernelPhysicalStart := kernelStart
          kernelPhysicalEnd := kernelEnd } false
      if answer.2 = false then do
        kernelWriteString "The Multiboot2 information structure contains no memory map.\n"
        return (false, answer.1)
      else return (true, answer.1)

end OxysOS.Handoff
