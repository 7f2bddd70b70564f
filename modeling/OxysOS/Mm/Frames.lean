import OxysOS.Library.Bitmap
import Mathlib.Algebra.Group.Nat.Defs

/-!
# The physical frame allocator

`kernel/mm/pmm.c`.  A set bit of the bitmap denotes a frame that is allocated
or reserved.  An address is a natural number and what the source computes upon
one is taken modulo `2 ^ 64` where it may wrap.  A panic is an error that bears
the panic's text.
-/

namespace OxysOS.Mm

open OxysOS.Library

def pageSize : ℕ := 4096

def lowMemoryLimit : ℕ := 0x100000

def frameAllocationFailed : ℕ := 0

/-- `AlignUp`, to a page. -/
def alignUp (value : ℕ) : ℕ := (value + (pageSize - 1)) % 2 ^ 64 / pageSize * pageSize

/-- `AlignDown`, to a page. -/
def alignDown (value : ℕ) : ℕ := value / pageSize * pageSize

def isPageAligned (value : ℕ) : Bool := value % pageSize == 0

def frameIndexOf (address : ℕ) : ℕ := address / pageSize

def frameAddressOf (index : ℕ) : ℕ := index * pageSize % 2 ^ 64

inductive BootMemoryType
  | usable
  | other
  deriving DecidableEq

structure BootMemoryRegion where
  baseAddress : ℕ
  length : ℕ
  type : BootMemoryType

structure BootModule where
  start : ℕ
  finish : ℕ

/-- `BootInformation`, as far as the allocator reads it. -/
structure BootInformation where
  memoryRegions : List BootMemoryRegion
  highestUsableAddress : ℕ
  kernelPhysicalStart : ℕ
  kernelPhysicalEnd : ℕ
  bootInformationStart : ℕ
  bootInformationEnd : ℕ
  modules : List BootModule

/-- The allocator's variables.  `references` is the table of
`FrameReferenceTable`, which is absent until counting is established. -/
structure FrameAllocator where
  bitmap : Bitmap
  frameCount : ℕ
  wordCount : ℕ
  freeFrames : ℕ
  searchHint : ℕ
  references : Option (ℕ → ℕ)

namespace FrameAllocator

/-- `FrameIsUsed` -/
def isUsed (s : FrameAllocator) (index : ℕ) : Bool := s.bitmap.test index

/-- `FrameMarkUsed` -/
def markUsed (s : FrameAllocator) (index : ℕ) : FrameAllocator :=
  if s.isUsed index then s
  else { s with bitmap := s.bitmap.set index, freeFrames := s.freeFrames - 1 }

/-- `FrameMarkFree` -/
def markFree (s : FrameAllocator) (index : ℕ) : FrameAllocator :=
  if s.isUsed index then
    { s with bitmap := s.bitmap.clear index, freeFrames := s.freeFrames + 1 }
  else s

/-- `FrameMarkRange` -/
def markRange (s : FrameAllocator) (start finish : ℕ) : FrameAllocator :=
  if finish ≤ start then s
  else
    let first := frameIndexOf (alignDown start)
    let last := frameIndexOf ((alignUp finish + (2 ^ 64 - 1)) % 2 ^ 64)
    if s.frameCount ≤ first then s
    else
      let last := if s.frameCount ≤ last then s.frameCount - 1 else last
      (List.range' first (last + 1 - first)).foldl markUsed s

/-- `FrameReleaseRange` -/
def releaseRange (s : FrameAllocator) (start finish : ℕ) : FrameAllocator :=
  let alignedStart := alignUp start
  let alignedEnd := alignDown finish
  if alignedEnd ≤ alignedStart then s
  else
    let first := frameIndexOf alignedStart
    let last := frameIndexOf alignedEnd - 1
    if s.frameCount ≤ first then s
    else
      let last := if s.frameCount ≤ last then s.frameCount - 1 else last
      (List.range' first (last + 1 - first)).foldl markFree s

end FrameAllocator

def advanceCandidate (information : BootInformation) (requiredBytes candidate : ℕ) : ℕ :=
  let candidate :=
    if candidate < information.kernelPhysicalEnd ∧
        information.kernelPhysicalStart < (candidate + requiredBytes) % 2 ^ 64 then
      alignUp information.kernelPhysicalEnd
    else candidate
  if candidate < information.bootInformationEnd ∧
      information.bootInformationStart < (candidate + requiredBytes) % 2 ^ 64 then
    alignUp information.bootInformationEnd
  else candidate

def placeWithin (information : BootInformation) (requiredBytes : ℕ) (region : BootMemoryRegion) :
    Option ℕ :=
  if region.type ≠ .usable then none
  else
    let regionEnd := min ((region.baseAddress + region.length) % 2 ^ 64) 0x40000000
    let candidate := max (alignUp region.baseAddress) lowMemoryLimit
    let candidate :=
      advanceCandidate information requiredBytes
        (advanceCandidate information requiredBytes candidate)
    if region.baseAddress ≤ candidate ∧ (candidate + requiredBytes) % 2 ^ 64 ≤ regionEnd then
      some candidate
    else none

def physicalMemoryPlaceBitmap (information : BootInformation) (requiredBytes : ℕ) : ℕ :=
  (information.memoryRegions.findSome? (placeWithin information requiredBytes)).getD
    frameAllocationFailed

def releaseRegion (s : FrameAllocator) (region : BootMemoryRegion) : FrameAllocator :=
  if region.type = .usable then
    s.releaseRange region.baseAddress ((region.baseAddress + region.length) % 2 ^ 64)
  else s

def unavailableFrames (frameCount : ℕ) : FrameAllocator where
  bitmap _ := BitVec.allOnes 64
  frameCount := frameCount
  wordCount := (frameCount + 63) / 64
  freeFrames := 0
  searchHint := frameIndexOf lowMemoryLimit
  references := none

/-- The reservations of `PhysicalMemoryInitialise`, the usable regions having
been released. -/
def reserveExtents (information : BootInformation) (bitmapStart bitmapEnd : ℕ)
    (s : FrameAllocator) : FrameAllocator :=
  let s := s.markRange 0 lowMemoryLimit
  let s := s.markRange information.kernelPhysicalStart information.kernelPhysicalEnd
  let s := s.markRange information.bootInformationStart information.bootInformationEnd
  let s := s.markRange bitmapStart bitmapEnd
  information.modules.foldl (fun s image ↦ s.markRange image.start image.finish) s

def physicalMemoryInitialise (information : BootInformation) : Except String FrameAllocator :=
  if information.highestUsableAddress = 0 then
    .error "The boot loader reported no usable physical memory."
  else
    let s := unavailableFrames (frameIndexOf (alignUp information.highestUsableAddress))
    let bitmapBytes := s.wordCount * 8
    let bitmapStart := physicalMemoryPlaceBitmap information bitmapBytes
    if bitmapStart = frameAllocationFailed then
      .error "No usable region can accommodate the physical memory bitmap."
    else
      .ok (reserveExtents information bitmapStart (bitmapStart + bitmapBytes)
        (information.memoryRegions.foldl releaseRegion s))

namespace FrameAllocator

/-- One pass of the search of `FrameAllocateBelow`, from `index` to `last`.
Every turn advances, so as many turns as there are indices suffice. -/
def search (s : FrameAllocator) : ℕ → ℕ → ℕ → Option ℕ
  | 0, _, _ => none
  | turns + 1, index, last =>
      if last ≤ index then none
      else if index % 64 = 0 ∧ s.bitmap (index / 64) = BitVec.allOnes 64 then
        s.search turns (index + 64) last
      else if s.isUsed index then s.search turns (index + 1) last
      else some index

def issue (s : FrameAllocator) (index : ℕ) : FrameAllocator :=
  let s := s.markUsed index
  { s with
    references := s.references.map fun table ↦ Function.update table index 1
    searchHint := index + 1 }

def limitIndex (s : FrameAllocator) (limit : ℕ) : ℕ :=
  min (frameIndexOf (alignDown limit)) s.frameCount

def startIndex (s : FrameAllocator) (limit : ℕ) : ℕ :=
  if s.limitIndex limit ≤ s.searchHint then frameIndexOf lowMemoryLimit else s.searchHint

/-- `FrameAllocateBelow` -/
def allocateBelow (s : FrameAllocator) (limit : ℕ) : ℕ × FrameAllocator :=
  let limitIndex := s.limitIndex limit
  let startIndex := s.startIndex limit
  let low := frameIndexOf lowMemoryLimit
  match s.search (limitIndex - startIndex) startIndex limitIndex with
  | some index => (frameAddressOf index, s.issue index)
  | none =>
      match s.search (startIndex - low) low startIndex with
      | some index => (frameAddressOf index, s.issue index)
      | none => (frameAllocationFailed, s)

/-- `FrameAllocate` -/
def allocate (s : FrameAllocator) : ℕ × FrameAllocator :=
  s.allocateBelow (frameAddressOf s.frameCount)

def restore (s : FrameAllocator) (index : ℕ) : FrameAllocator :=
  let s := s.markFree index
  { s with searchHint := min index s.searchHint }

def setReference (s : FrameAllocator) (table : ℕ → ℕ) (index count : ℕ) : FrameAllocator :=
  { s with references := some (Function.update table index count) }

/-- `FrameFree` -/
def free (s : FrameAllocator) (frame : ℕ) : Except String FrameAllocator :=
  if ¬isPageAligned frame then .error "A misaligned address was passed to FrameFree."
  else
    let index := frameIndexOf frame
    if s.frameCount ≤ index then .error "An out-of-range address was passed to FrameFree."
    else if ¬s.isUsed index then
      .error "A frame that was already free was passed to FrameFree."
    else
      match s.references with
      | none => .ok (s.restore index)
      | some table =>
          if table index = 0 then
            .error "A frame with no references was passed to FrameFree."
          else
            let s := s.setReference table index (table index - 1)
            if table index - 1 ≠ 0 then .ok s else .ok (s.restore index)

/-- `FrameReferenceInitialise`, the kernel heap having been asked for the table.
The frames the heap drew for it were drawn by calls of its own. -/
def referenceInitialise (s : FrameAllocator) (granted : Bool) : Except String FrameAllocator :=
  match s.references with
  | some _ => .ok s
  | none =>
      if ¬granted then .error "The frame reference table could not be allocated."
      else
        .ok { s with references := some fun index ↦
          if index < s.frameCount ∧ s.isUsed index then 1 else 0 }

/-- `FrameReferenceIncrement` -/
def referenceIncrement (s : FrameAllocator) (frame : ℕ) : Except String FrameAllocator :=
  if ¬isPageAligned frame then
    .error "A misaligned address was passed to FrameReferenceIncrement."
  else
    let index := frameIndexOf frame
    if s.frameCount ≤ index then
      .error "An out-of-range address was passed to FrameReferenceIncrement."
    else
      match s.references with
      | none => .error "A reference was taken before reference counting was established."
      | some table =>
          if table index = 0 then
            .error "A reference was taken to a frame that is not allocated."
          else if table index = 65535 then
            .error "The reference count of a frame would overflow."
          else
            .ok (s.setReference table index (table index + 1))

/-- `FrameReferenceCount` -/
def referenceCount (s : FrameAllocator) (frame : ℕ) : ℕ :=
  let index := frameIndexOf frame
  if s.frameCount ≤ index then 0
  else
    match s.references with
    | none => if s.isUsed index then 1 else 0
    | some table => table index

end FrameAllocator

end OxysOS.Mm
