import OxysOS.Library.Action
import OxysOS.Library.Bytes
import OxysOS.Mm.Frames

/-!
# Paging

`kernel/arch/x86_64/mm/paging.c`, once the direct map is in force, so that every
frame is reached by its address.  Memory is held by frame, and a paging structure
is read out of the bytes of its frame.  What the processor has cached of a
translation, and its invalidation, are not modelled.
-/

namespace OxysOS.Mm

open OxysOS.Library

def pageEntryPresent : BitVec 64 := 0x001
def pageEntryWritable : BitVec 64 := 0x002
def pageEntryUser : BitVec 64 := 0x004
def pageEntryLarge : BitVec 64 := 0x080
def pageEntryAddressMask : BitVec 64 := 0x000FFFFFFFFFF000

def pageTableEntryCount : ℕ := 512

/-- The frames, what they hold, and the two roots the paging code keeps:
`PagingRootTable` and `PagingActiveTable`. -/
structure Machine where
  frames : FrameAllocator
  memory : ℕ → Bytes
  kernelRoot : ℕ
  activeRoot : ℕ

abbrev Kernel (α : Type) := Action Machine String α

namespace Machine

def slot (s : Machine) (frame index : ℕ) : BitVec 64 :=
  BitVec.ofNat 64 (readField (s.memory frame) (8 * index) 8)

def entry (s : Machine) (table index : ℕ) : BitVec 64 := s.slot (frameIndexOf table) index

def writeFrame (s : Machine) (frame : ℕ) (bytes : Bytes) : Machine :=
  { s with memory := Function.update s.memory frame bytes }

def writeEntry (s : Machine) (table index : ℕ) (entry : BitVec 64) : Machine :=
  s.writeFrame (frameIndexOf table)
    (writeField (s.memory (frameIndexOf table)) (8 * index) 8 entry.toNat)

def zeroFrame (s : Machine) (frame : ℕ) : Machine :=
  s.writeFrame (frameIndexOf frame) fun _ ↦ 0

end Machine

def frameAllocate : Kernel ℕ := do
  let s ← get
  let (frame, frames) := s.frames.allocate
  set { s with frames := frames }
  return frame

def frameFree (frame : ℕ) : Kernel Unit := do
  let s ← get
  match s.frames.free frame with
  | .ok frames => set { s with frames := frames }
  | .error text => throw text

def pagingLevel4Index (address : ℕ) : ℕ := address / 2 ^ 39 % 512

def pagingLevel3Index (address : ℕ) : ℕ := address / 2 ^ 30 % 512

def pagingLevel2Index (address : ℕ) : ℕ := address / 2 ^ 21 % 512

def pagingLevel1Index (address : ℕ) : ℕ := address / 2 ^ 12 % 512

def entryAddress (entry : BitVec 64) : ℕ := (entry &&& pageEntryAddressMask).toNat

/-- `PagingAllocateTable`, and `PagingAllocateStructure`, which is no more. -/
def pagingAllocateTable : Kernel ℕ := do
  let frame ← frameAllocate
  if frame = frameAllocationFailed then
    throw "No frame is available for a kernel paging structure."
  else
    modify fun s ↦ s.zeroFrame frame
    return frame

def inheritedFlags (flags : BitVec 64) : BitVec 64 :=
  pageEntryPresent ||| pageEntryWritable ||| (flags &&& pageEntryUser)

def pagingObtainTable (table index : ℕ) (flags : BitVec 64) : Kernel ℕ := do
  let s ← get
  if s.entry table index &&& pageEntryPresent = 0 then
    let allocated ← pagingAllocateTable
    modify fun s ↦ s.writeEntry table index (BitVec.ofNat 64 allocated ||| inheritedFlags flags)
    return allocated
  else
    let entry := s.entry table index ||| (flags &&& pageEntryUser)
    set (s.writeEntry table index entry)
    return entryAddress entry

/-- `PagingMapPage`, and `PagingMapPageIn`, which invalidates besides. -/
def pagingMapPage (root virtualAddress physicalAddress : ℕ) (flags : BitVec 64) :
    Kernel Unit := do
  let level3 ← pagingObtainTable root (pagingLevel4Index virtualAddress) flags
  let level2 ← pagingObtainTable level3 (pagingLevel3Index virtualAddress) flags
  let level1 ← pagingObtainTable level2 (pagingLevel2Index virtualAddress) flags
  modify fun s ↦ s.writeEntry level1 (pagingLevel1Index virtualAddress)
    ((BitVec.ofNat 64 physicalAddress &&& pageEntryAddressMask) ||| flags ||| pageEntryPresent)

/-- `PagingUnmapPageIn`.  It answers with the frame that was mapped. -/
def pagingUnmapPageIn (root virtualAddress : ℕ) : Kernel ℕ := do
  let s ← get
  let entry4 := s.entry root (pagingLevel4Index virtualAddress)
  let entry3 := s.entry (entryAddress entry4) (pagingLevel3Index virtualAddress)
  let entry2 := s.entry (entryAddress entry3) (pagingLevel2Index virtualAddress)
  let entry1 := s.entry (entryAddress entry2) (pagingLevel1Index virtualAddress)
  if entry4 &&& pageEntryPresent = 0 then return frameAllocationFailed
  else if entry3 &&& pageEntryPresent = 0 then return frameAllocationFailed
  else if entry3 &&& pageEntryLarge ≠ 0 then
    throw "An attempt was made to unmap a page within a large mapping."
  else if entry2 &&& pageEntryPresent = 0 then return frameAllocationFailed
  else if entry2 &&& pageEntryLarge ≠ 0 then
    throw "An attempt was made to unmap a page within a large mapping."
  else if entry1 &&& pageEntryPresent = 0 then return frameAllocationFailed
  else
    set (s.writeEntry (entryAddress entry2) (pagingLevel1Index virtualAddress) 0)
    return entryAddress entry1

def pagingTranslate (s : Machine) (address : ℕ) : ℕ :=
  let entry4 := s.entry s.activeRoot (pagingLevel4Index address)
  let entry3 := s.entry (entryAddress entry4) (pagingLevel3Index address)
  let entry2 := s.entry (entryAddress entry3) (pagingLevel2Index address)
  let entry1 := s.entry (entryAddress entry2) (pagingLevel1Index address)
  if s.activeRoot = 0 then 0
  else if entry4 &&& pageEntryPresent = 0 then 0
  else if entry3 &&& pageEntryPresent = 0 then 0
  else if entry3 &&& pageEntryLarge ≠ 0 then entryAddress entry3 + address % 2 ^ 30
  else if entry2 &&& pageEntryPresent = 0 then 0
  else if entry2 &&& pageEntryLarge ≠ 0 then entryAddress entry2 + address % 2 ^ 21
  else if entry1 &&& pageEntryPresent = 0 then 0
  else entryAddress entry1 + address % pageSize

/-- `PagingAddressPermits`, upon the root it is given in place of the active one. -/
def pagingAddressPermits (s : Machine) (root address : ℕ) (permission : BitVec 64) : Bool :=
  let entry4 := s.entry root (pagingLevel4Index address)
  let entry3 := s.entry (entryAddress entry4) (pagingLevel3Index address)
  let entry2 := s.entry (entryAddress entry3) (pagingLevel2Index address)
  let entry1 := s.entry (entryAddress entry2) (pagingLevel1Index address)
  if entry4 &&& pageEntryPresent = 0 then false
  else if entry3 &&& pageEntryPresent = 0 then false
  else if entry2 &&& pageEntryPresent = 0 then false
  else if entry2 &&& pageEntryLarge ≠ 0 then
    permission &&& entry4 &&& entry3 &&& entry2 &&& permission ≠ 0
  else if entry1 &&& pageEntryPresent = 0 then false
  else permission &&& entry4 &&& entry3 &&& entry2 &&& entry1 &&& permission ≠ 0

end OxysOS.Mm
