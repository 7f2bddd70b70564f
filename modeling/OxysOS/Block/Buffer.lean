import OxysOS.Library.Chain
import Mathlib.Data.UInt

/-!
# The buffer cache and the block layer beneath it

`kernel/block/buffer.c` and the transfer of `kernel/block/block.c`.  The tables
of the cache are functions on their indices, a null link is `none`, and a device
is named by the address of its description.

An operation takes the outcomes of the transfers it may make as an argument, and
a transfer that fails may leave anything behind.
-/

namespace OxysOS.Block

open OxysOS.Library

abbrev bufferCapacity : ℕ := 64

abbrev bufferBucketCount : ℕ := 128

def bufferBlockSize : UInt32 := 512

abbrev Index := Fin bufferCapacity

abbrev Bucket := Fin bufferBucketCount

abbrev Sector := Fin 512 → UInt8

abbrev DeviceAddress := UInt64

/-- The fields of a `BlockDevice` that a transfer consults. -/
structure BlockDevice where
  blockSize : UInt32
  blockCount : UInt64
  readOnly : Bool
  registered : Bool

/-- What a driver reports of one transfer, with what a failing one leaves in
its destination. -/
inductive Transfer where
  | succeeded
  | failed (left : Sector)

structure Buffer where
  device : Option DeviceAddress
  block : UInt64
  data : Sector
  references : UInt32
  valid : Bool
  dirty : Bool

structure BufferEntry where
  hashNext : Option Index
  older : Option Index
  newer : Option Index
  linked : Bool
  listed : Bool

/-- The static tables of `buffer.c` together with the devices and what their
media hold. -/
structure System where
  table : Index → Buffer
  entries : Index → BufferEntry
  buckets : Bucket → Option Index
  newest : Option Index
  oldest : Option Index
  ready : Bool
  devices : DeviceAddress → BlockDevice
  medium : DeviceAddress → UInt64 → Sector

namespace System

def putBuffer (s : System) (index : Index) (buffer : Buffer) : System :=
  { s with table := Function.update s.table index buffer }

def putEntry (s : System) (index : Index) (entry : BufferEntry) : System :=
  { s with entries := Function.update s.entries index entry }

def putMedium (s : System) (device : DeviceAddress) (block : UInt64) (data : Sector) : System :=
  { s with
    medium := Function.update s.medium device
      (Function.update (s.medium device) block data) }

def setNewest (s : System) (index : Option Index) : System :=
  { s with newest := index }

def setOldest (s : System) (index : Option Index) : System :=
  { s with oldest := index }

end System

/-- The validation of `BlockTransfer` for one block: a device that is absent,
withdrawn or too short refuses, and so does a write to a read-only one. -/
def blockAdmits (s : System) (device : Option DeviceAddress) (block : UInt64)
    (writing : Bool) : Option DeviceAddress :=
  match device with
  | none => none
  | some address =>
      let description := s.devices address
      if !description.registered then none
      else if writing && description.readOnly then none
      else if description.blockCount ≤ block ∨ description.blockCount - block < 1 then none
      else some address

/-- `BlockRead` of one block into a buffer holding `into`. -/
def blockRead (s : System) (device : Option DeviceAddress) (block : UInt64)
    (into : Sector) (transfer : Transfer) : Bool × Sector :=
  match blockAdmits s device block false with
  | none => (false, into)
  | some address =>
      match transfer with
      | .succeeded => (true, s.medium address block)
      | .failed left => (false, left)

/-- `BlockWrite` of one block. -/
def blockWrite (s : System) (device : Option DeviceAddress) (block : UInt64)
    (data : Sector) (transfer : Transfer) : Bool × System :=
  match blockAdmits s device block true with
  | none => (false, s)
  | some address =>
      match transfer with
      | .succeeded => (true, s.putMedium address block data)
      | .failed left => (false, s.putMedium address block left)

def bufferBucketOf (device : Option DeviceAddress) (block : UInt64) : Bucket :=
  let address := device.getD 0
  Fin.ofNat bufferBucketCount ((block ^^^ (address >>> 4)) &&& 127).toNat

def bucketAt (s : System) (index : Index) : Bucket :=
  bufferBucketOf (s.table index).device (s.table index).block

def bufferLink (s : System) (index : Index) : System :=
  let bucket := bucketAt s index
  { s.putEntry index { s.entries index with hashNext := s.buckets bucket, linked := true } with
    buckets := Function.update s.buckets bucket (some index) }

/-- The search within `BufferUnlink` for the entry whose successor is `index`. -/
def predecessor (s : System) (bucket : Bucket) (index : Index) : Option Index :=
  follow (fun current ↦ (s.entries current).hashNext)
    (fun current ↦ (s.entries current).hashNext == some index) bufferCapacity
    (s.buckets bucket)

def bufferUnlink (s : System) (index : Index) : System :=
  if !(s.entries index).linked then s
  else
    let bucket := bucketAt s index
    let s' :=
      if s.buckets bucket = some index then
        { s with buckets := Function.update s.buckets bucket (s.entries index).hashNext }
      else
        match predecessor s bucket index with
        | none => s
        | some current =>
            s.putEntry current
              { s.entries current with hashNext := (s.entries index).hashNext }
    s'.putEntry index { s'.entries index with hashNext := none, linked := false }

def bufferFind (s : System) (device : Option DeviceAddress) (block : UInt64) : Option Index :=
  follow (fun current ↦ (s.entries current).hashNext)
    (fun current ↦ (s.table current).valid && ((s.table current).device == device) &&
      ((s.table current).block == block)) bufferCapacity
    (s.buckets (bufferBucketOf device block))

/-- Set the `older` link of an entry, where one is named. -/
def setOlder (s : System) (index : Option Index) (value : Option Index) : System :=
  match index with
  | none => s
  | some i => s.putEntry i { s.entries i with older := value }

/-- Set the `newer` link of an entry, where one is named. -/
def setNewer (s : System) (index : Option Index) (value : Option Index) : System :=
  match index with
  | none => s
  | some i => s.putEntry i { s.entries i with newer := value }

def bufferDetach (s : System) (index : Index) : System :=
  let older := (s.entries index).older
  let newer := (s.entries index).newer
  if !(s.entries index).listed then s
  else
    let s₁ := setOlder s newer older
    let s₂ := s₁.setNewest (if newer.isNone then older else s₁.newest)
    let s₃ := setNewer s₂ older newer
    let s₄ := s₃.setOldest (if older.isNone then newer else s₃.oldest)
    s₄.putEntry index { s₄.entries index with older := none, newer := none, listed := false }

def bufferTouch (s : System) (index : Index) : System :=
  let s₁ := bufferDetach s index
  let s₂ := s₁.putEntry index { s₁.entries index with older := s₁.newest, newer := none }
  let s₃ := setNewer s₂ s₁.newest (some index)
  let s₄ := s₃.setNewest (some index)
  let s₅ := s₄.putEntry index { s₄.entries index with listed := true }
  s₅.setOldest (if s₅.oldest.isNone then some index else s₅.oldest)

/-- The end of `BufferInvalidateDevice`'s loop body: the entry becomes the next
to be claimed. -/
def bufferDemote (s : System) (index : Index) : System :=
  let s₁ := bufferDetach s index
  let s₂ := s₁.putEntry index { s₁.entries index with newer := s₁.oldest, older := none }
  let s₃ := setOlder s₂ s₁.oldest (some index)
  let s₄ := s₃.setOldest (some index)
  let s₅ := s₄.putEntry index { s₄.entries index with listed := true }
  s₅.setNewest (if s₅.newest.isNone then some index else s₅.newest)

def bufferWriteBack (s : System) (index : Index) (transfer : Transfer) : Bool × System :=
  let buffer := s.table index
  if !buffer.valid || !buffer.dirty then (true, s)
  else
    match blockWrite s buffer.device buffer.block buffer.data transfer with
    | (false, s') => (false, s')
    | (true, s') => (true, s'.putBuffer index { s'.table index with dirty := false })

def emptied (buffer : Buffer) : Buffer :=
  { buffer with valid := false, dirty := false, device := none, block := 0 }

def bufferClaim (s : System) (transfer : Transfer) : Option Index × System :=
  match follow (fun current ↦ (s.entries current).newer)
      (fun current ↦ (s.table current).references == 0) bufferCapacity s.oldest with
  | none => (none, s)
  | some index =>
      if (s.table index).valid then
        match bufferWriteBack s index transfer with
        | (false, s') => (none, s')
        | (true, s') =>
            let s'' := bufferUnlink s' index
            (some index, s''.putBuffer index (emptied (s''.table index)))
      else (some index, s.putBuffer index (emptied (s.table index)))

/-- A hit within `BufferGet`. -/
def bufferHold (s : System) (index : Index) : System :=
  let s₁ := bufferTouch s index
  s₁.putBuffer index
    { s₁.table index with references := (s₁.table index).references + 1 }

/-- The end of `BufferGet` upon a miss, with an entry claimed. -/
def bufferFill (s : System) (index : Index) (device : Option DeviceAddress) (block : UInt64)
    (read : Transfer) : Option Index × System :=
  match blockRead s device block (s.table index).data read with
  | (false, left) =>
      (none, s.putBuffer index
        { s.table index with device := none, block := 0, data := left })
  | (true, contents) =>
      let s₁ := s.putBuffer index
        { device := device, block := block, data := contents,
          references := 1, valid := true, dirty := false }
      (some index, bufferTouch (bufferLink s₁ index) index)

/-- `BufferGet`, with the outcomes of the write-back that a claim may make and
of the read. -/
def bufferGet (s : System) (device : Option DeviceAddress) (block : UInt64)
    (writeBack read : Transfer) : Option Index × System :=
  match device with
  | none => (none, s)
  | some address =>
      if !s.ready then (none, s)
      else if (s.devices address).blockSize ≠ bufferBlockSize then (none, s)
      else
        match bufferFind s device block with
        | some index => (some index, bufferHold s index)
        | none =>
            match bufferClaim s writeBack with
            | (none, s₁) => (none, s₁)
            | (some index, s₁) => bufferFill s₁ index device block read

def bufferRelease (s : System) (buffer : Option Index) : System :=
  match buffer with
  | none => s
  | some index =>
      if (s.table index).references = 0 then s
      else s.putBuffer index
        { s.table index with references := (s.table index).references - 1 }

def bufferMarkDirty (s : System) (buffer : Option Index) : System :=
  match buffer with
  | none => s
  | some index =>
      if !(s.table index).valid then s
      else s.putBuffer index { s.table index with dirty := true }

/-- A caller writing through `data` into a buffer. -/
def bufferModify (s : System) (index : Index) (change : Sector → Sector) : System :=
  s.putBuffer index { s.table index with data := change (s.table index).data }

/-- `BufferFlush`; a pointer that is no element of the table is `none`. -/
def bufferFlush (s : System) (buffer : Option Index) (transfer : Transfer) : Bool × System :=
  match buffer with
  | none => (false, s)
  | some index => bufferWriteBack s index transfer

/-- The loop of `BufferSync` -/
def bufferSyncLoop (transfers : Index → Transfer) : List Index → System → Bool × System
  | [], s => (true, s)
  | index :: rest, s =>
      let (written, s₁) := bufferWriteBack s index (transfers index)
      let (succeeded, s₂) := bufferSyncLoop transfers rest s₁
      (written && succeeded, s₂)

def bufferSync (s : System) (transfers : Index → Transfer) : Bool × System :=
  bufferSyncLoop transfers (List.finRange bufferCapacity) s

/-- One entry of `BufferInvalidateDevice`'s second loop. -/
def bufferInvalidateEntry (s : System) (device : DeviceAddress) (index : Index)
    (transfer : Transfer) : Bool × System :=
  if (s.table index).device ≠ some device then (true, s)
  else
    match bufferWriteBack s index transfer with
    | (false, s₁) => (false, s₁)
    | (true, s₁) =>
        let s₂ := bufferUnlink s₁ index
        let s₃ := s₂.putBuffer index (emptied (s₂.table index))
        (true, bufferDemote s₃ index)

/-- The second loop of `BufferInvalidateDevice`. -/
def bufferInvalidateLoop (device : DeviceAddress) (transfers : Index → Transfer) :
    List Index → System → Bool × System
  | [], s => (true, s)
  | index :: rest, s =>
      let (discarded, s₁) := bufferInvalidateEntry s device index (transfers index)
      let (succeeded, s₂) := bufferInvalidateLoop device transfers rest s₁
      (discarded && succeeded, s₂)

def deviceIsHeld (s : System) (device : DeviceAddress) : Bool :=
  (List.finRange bufferCapacity).any fun index ↦
    ((s.table index).device == some device) && ((s.table index).references != 0)

def bufferInvalidateDevice (s : System) (device : Option DeviceAddress)
    (transfers : Index → Transfer) : Bool × System :=
  match device with
  | none => (false, s)
  | some address =>
      if deviceIsHeld s address then (false, s)
      else bufferInvalidateLoop address transfers (List.finRange bufferCapacity) s

/-- One pass of `BufferInitialise` over the table. -/
def bufferInitialiseLoop : List Index → System → System
  | [], s => s
  | index :: rest, s =>
      let s₁ := s.putBuffer index
        { s.table index with device := none, block := 0, references := 0,
                             valid := false, dirty := false }
      let s₂ := s₁.putEntry index
        { hashNext := none, older := none, newer := none, linked := false, listed := false }
      bufferInitialiseLoop rest (bufferTouch s₂ index)

/-- `BufferInitialise`, the storage having been allocated. -/
def bufferInitialise (s : System) : System :=
  let s₁ := { s with buckets := fun _ ↦ none, newest := none, oldest := none }
  { bufferInitialiseLoop (List.finRange bufferCapacity) s₁ with ready := true }

end OxysOS.Block
