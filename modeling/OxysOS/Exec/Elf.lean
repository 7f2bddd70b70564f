import OxysOS.Mm.AddressSpace

/-!
# The ELF loader

`kernel/exec/elf.c`.  An image is a run of bytes and a length.  The arithmetic
is that of natural numbers: the source checks each sum before it is formed.
-/

namespace OxysOS.Exec

open OxysOS.Library OxysOS.Mm

inductive ElfResult
  | notElf
  | wrongClass
  | wrongEncoding
  | wrongVersion
  | wrongMachine
  | wrongType
  | malformed
  | badAddress
  | noSegments
  | noMemory
  deriving DecidableEq, Repr

def elfHeaderBytes : ℕ := 64
def elfProgramHeaderBytes : ℕ := 56
def elfClass64 : ℕ := 2
def elfDataLittleEndian : ℕ := 1
def elfVersionCurrent : ℕ := 1
def elfTypeExecutable : ℕ := 2
def elfMachineX8664 : ℕ := 62
def elfSegmentLoad : ℕ := 1
def elfSegmentInterpreter : ℕ := 3
def elfSegmentMaximum : ℕ := 16

def syscallUserLimit : ℕ := 0x0000800000000000

/-- `ElfHeader`, as far as the loader reads it after it is decoded. -/
structure ElfHeader where
  entry : ℕ
  programHeaderOffset : ℕ
  headerSize : ℕ
  programHeaderSize : ℕ
  programHeaderCount : ℕ

structure ElfProgramHeader where
  type : ℕ
  flags : ℕ
  fileOffset : ℕ
  virtualAddress : ℕ
  fileSize : ℕ
  memorySize : ℕ

structure ElfImage where
  entry : ℕ
  lowest : ℕ
  highest : ℕ
  segments : ℕ
  pages : ℕ

def elfDecode (image : Bytes) (length : ℕ) : Except ElfResult ElfHeader :=
  if length < elfHeaderBytes then .error .notElf
  else if image 0 ≠ 0x7F ∨ image 1 ≠ 0x45 ∨ image 2 ≠ 0x4C ∨ image 3 ≠ 0x46 then .error .notElf
  else if readField image 4 1 ≠ elfClass64 then .error .wrongClass
  else if readField image 5 1 ≠ elfDataLittleEndian then .error .wrongEncoding
  else if readField image 6 1 ≠ elfVersionCurrent then .error .wrongVersion
  else if readField image 20 4 ≠ elfVersionCurrent then .error .wrongVersion
  else if readField image 18 2 ≠ elfMachineX8664 then .error .wrongMachine
  else if readField image 16 2 ≠ elfTypeExecutable then .error .wrongType
  else
    .ok
      { entry := readField image 24 8
        programHeaderOffset := readField image 32 8
        headerSize := readField image 52 2
        programHeaderSize := readField image 54 2
        programHeaderCount := readField image 56 2 }

def elfRangeIsWithinFile (offset size length : ℕ) : Bool :=
  decide (offset ≤ length ∧ size ≤ length - offset)

def elfRangeIsWithinUserSpace (address size : ℕ) : Bool :=
  if syscallUserLimit ≤ address then false
  else if size = 0 then true
  else decide (size ≤ syscallUserLimit - address)

def elfReadProgramHeader (image : Bytes) (offset : ℕ) : ElfProgramHeader where
  type := readField image offset 4
  flags := readField image (offset + 4) 4
  fileOffset := readField image (offset + 8) 8
  virtualAddress := readField image (offset + 16) 8
  fileSize := readField image (offset + 32) 8
  memorySize := readField image (offset + 40) 8

/-- What the loop of `ElfReadSegments` makes of one program header: the end of
the last segment that occupies memory, if there is one yet. -/
def elfAdmitSegment (segment : ElfProgramHeader) (length : ℕ) (previousEnd : Option ℕ) :
    Except ElfResult (Option ℕ) :=
  if segment.type ≠ elfSegmentLoad then
    if segment.type = elfSegmentInterpreter then .error .wrongType else .ok previousEnd
  else if ¬elfRangeIsWithinFile segment.fileOffset segment.fileSize length then .error .malformed
  else if segment.memorySize < segment.fileSize then .error .malformed
  else if ¬elfRangeIsWithinUserSpace segment.virtualAddress segment.memorySize then
    .error .badAddress
  else if segment.virtualAddress < pageSize then .error .badAddress
  else if segment.memorySize = 0 then .ok previousEnd
  else if previousEnd.any fun finish ↦ segment.virtualAddress < finish then .error .malformed
  else .ok (some (segment.virtualAddress + segment.memorySize))

/-- The loop of `ElfReadSegments` -/
def elfReadSegmentsFrom (image : Bytes) (length : ℕ) :
    ℕ → ℕ → Option ℕ → Except ElfResult (List ElfProgramHeader)
  | 0, _, previousEnd => if previousEnd.isSome then .ok [] else .error .noSegments
  | count + 1, offset, previousEnd => do
      let segment := elfReadProgramHeader image offset
      let previousEnd ← elfAdmitSegment segment length previousEnd
      let rest ← elfReadSegmentsFrom image length count (offset + elfProgramHeaderBytes) previousEnd
      return segment :: rest

/-- `ElfReadSegments`.  It answers with what it leaves in `ElfSegments`. -/
def elfReadSegments (image : Bytes) (length : ℕ) (header : ElfHeader) :
    Except ElfResult (List ElfProgramHeader) :=
  if header.headerSize ≠ elfHeaderBytes then .error .malformed
  else if header.programHeaderSize ≠ elfProgramHeaderBytes then .error .malformed
  else if header.programHeaderCount = 0 then .error .noSegments
  else if elfSegmentMaximum < header.programHeaderCount then .error .malformed
  else if ¬elfRangeIsWithinFile header.programHeaderOffset
      (header.programHeaderCount * header.programHeaderSize) length then .error .malformed
  else
    elfReadSegmentsFrom image length header.programHeaderCount header.programHeaderOffset none

/-- `ElfValidate`.  It answers with what it leaves in `ElfLastHeader` and
`ElfSegments`. -/
def elfValidate (image : Bytes) (length : ℕ) :
    Except ElfResult (ElfHeader × List ElfProgramHeader) := do
  let header ← elfDecode image length
  let segments ← elfReadSegments image length header
  return (header, segments)

def ElfProgramHeader.isWritable (segment : ElfProgramHeader) : Bool :=
  segment.flags.testBit 1

def ElfProgramHeader.pageFlags (segment : ElfProgramHeader) : BitVec 64 :=
  if segment.isWritable then pageEntryUser ||| pageEntryWritable else pageEntryUser

def elfCopySegment (image : Bytes) (segment : ElfProgramHeader) (page : ℕ) (bytes : Bytes) :
    Bytes :=
  let within := if segment.virtualAddress < page then page - segment.virtualAddress else 0
  if within < segment.fileSize then
    let start := if segment.virtualAddress < page then 0 else segment.virtualAddress - page
    let copy := segment.fileSize - within
    let copy := if pageSize - start < copy then pageSize - start else copy
    splice bytes start copy fun offset ↦ image (segment.fileOffset + within + offset)
  else bytes

structure ElfProgress where
  sharedPage : ℕ
  sharedFrame : ℕ
  loaded : ElfImage

def ElfProgress.share (progress : ElfProgress) (page frame : ℕ) : ElfProgress :=
  { progress with sharedPage := page, sharedFrame := frame }

def ElfProgress.fresh (progress : ElfProgress) (page frame : ℕ) : ElfProgress :=
  { sharedPage := page
    sharedFrame := frame
    loaded := { progress.loaded with pages := progress.loaded.pages + 1 } }

/-- One turn of the loop of `ElfLoadSegment`. -/
def elfLoadPage (space : AddressSpace) (image : Bytes) (segment : ElfProgramHeader) (page : ℕ)
    (progress : ElfProgress) : Kernel (Except ElfResult ElfProgress) := do
  if progress.sharedFrame ≠ 0 ∧ page = progress.sharedPage then
    let frame := progress.sharedFrame
    modify fun s ↦ s.alterFrame frame (elfCopySegment image segment page)
    if segment.isWritable then
      addressSpaceMapPage space page frame segment.pageFlags
      return .ok (progress.share page frame)
    else
      return .ok (progress.share page frame)
  else
    let frame ← frameAllocate
    if frame = 0 then return .error .noMemory
    else
      modify fun s ↦ (s.zeroFrame frame).alterFrame frame (elfCopySegment image segment page)
      addressSpaceMapPage space page frame segment.pageFlags
      return .ok (progress.fresh page frame)

/-- The loop of `ElfLoadSegment` -/
def elfLoadPages (space : AddressSpace) (image : Bytes) (segment : ElfProgramHeader) :
    ℕ → ℕ → ElfProgress → Kernel (Except ElfResult ElfProgress)
  | 0, _, progress => return .ok progress
  | count + 1, page, progress => do
      match ← elfLoadPage space image segment page progress with
      | .error result => return .error result
      | .ok progress => elfLoadPages space image segment count (page + pageSize) progress

/-- What `ElfLoadSegment` records of a segment it has loaded. -/
def ElfImage.extend (loaded : ElfImage) (segment : ElfProgramHeader) : ElfImage :=
  { loaded with
    lowest :=
      if loaded.lowest = 0 ∨ segment.virtualAddress < loaded.lowest then segment.virtualAddress
      else loaded.lowest
    highest := max loaded.highest (segment.virtualAddress + segment.memorySize)
    segments := loaded.segments + 1 }

def ElfProgramHeader.firstPage (segment : ElfProgramHeader) : ℕ :=
  alignDown segment.virtualAddress

def ElfProgramHeader.lastPage (segment : ElfProgramHeader) : ℕ :=
  alignDown (segment.virtualAddress + (segment.memorySize - 1))

def elfLoadSegment (space : AddressSpace) (image : Bytes) (segment : ElfProgramHeader)
    (progress : ElfProgress) : Kernel (Except ElfResult ElfProgress) := do
  let count := (segment.lastPage - segment.firstPage) / pageSize + 1
  match ← elfLoadPages space image segment count segment.firstPage progress with
  | .error result => return .error result
  | .ok progress => return .ok { progress with loaded := progress.loaded.extend segment }

/-- The loop of `ElfLoad` -/
def elfLoadSegments (space : AddressSpace) (image : Bytes) :
    List ElfProgramHeader → ElfProgress → Kernel (Except ElfResult ElfProgress)
  | [], progress => return .ok progress
  | segment :: rest, progress => do
      if segment.type ≠ elfSegmentLoad ∨ segment.memorySize = 0 then
        elfLoadSegments space image rest progress
      else
        match ← elfLoadSegment space image segment progress with
        | .error result => return .error result
        | .ok progress => elfLoadSegments space image rest progress

def elfLoad (space : AddressSpace) (image : Bytes) (length : ℕ) :
    Kernel (Except ElfResult ElfImage) := do
  match elfValidate image length with
  | .error result => return .error result
  | .ok (header, segments) =>
      match ← elfLoadSegments space image segments ⟨0, 0, ⟨0, 0, 0, 0, 0⟩⟩ with
      | .error result => return .error result
      | .ok progress =>
          if header.entry < progress.loaded.lowest ∨ progress.loaded.highest ≤ header.entry then
            return .error .badAddress
          else return .ok { progress.loaded with entry := header.entry }

end OxysOS.Exec
