import OxysOS.Library.Bytes

/-!
# The buffered stream

`libc/stdio/stream.c`, less its census.  What is beneath a descriptor is reached
by `OxysStreamWrite` and `OxysStreamFill` alone, and is a parameter: how much of a
transfer it moves is any function of those before it and of what it is asked.
-/

namespace OxysOS.Libc

open OxysOS.Library

def bufsiz : ℕ := 1024

def ioFbf : ℤ := 0

def ioLbf : ℤ := 1

def ioNbf : ℤ := 2

/-- `EOF`, as a character that is pushed back. -/
def eof : ℤ := -1

def newline : UInt8 := 0x0A

structure Device where
  /-- The answer to a write, by the calls before it and its length. -/
  accepts : ℕ → ℕ → ℤ
  /-- The answer to a fill, by the calls before it, its capacity and what is left. -/
  yields : ℕ → ℕ → ℕ → ℤ
  calls : ℕ
  taken : List UInt8
  remaining : List UInt8

def oxysStreamWrite (device : Device) (bytes : List UInt8) : ℤ × Device :=
  let moved := device.accepts device.calls bytes.length
  (moved, { device with
    calls := device.calls + 1
    taken := device.taken ++ bytes.take moved.toNat })

/-- `OxysStreamFill`: its answer, the bytes it gave, and what is left. -/
def oxysStreamFill (device : Device) (capacity : ℕ) : ℤ × List UInt8 × Device :=
  let moved := device.yields device.calls capacity device.remaining.length
  (moved, device.remaining.take moved.toNat, { device with
    calls := device.calls + 1
    remaining := device.remaining.drop moved.toNat })

/-- `struct OxysStream`.  `OXYS_STREAM_NO_DESCRIPTOR` and `STREAM_NO_PUSHBACK` are
`none`. -/
structure Stream where
  readable : Bool
  writable : Bool
  touched : Bool
  atEnd : Bool
  failed : Bool
  descriptor : Option ℕ
  mode : ℤ
  buffer : Bytes
  capacity : ℕ
  pending : ℕ
  filled : ℕ
  cursor : ℕ
  pushback : Option UInt8
  delivered : ℕ
  region : Option Bytes
  regionCapacity : ℕ
  source : Option Bytes
  sourceLength : ℕ
  sourceCursor : ℕ
  device : Device

namespace Stream

/-- What `StreamTake` makes of an entry of the pool. -/
def take (buffer : Bytes) (device : Device) : Stream where
  readable := false
  writable := false
  touched := false
  atEnd := false
  failed := false
  descriptor := none
  mode := ioFbf
  buffer := buffer
  capacity := bufsiz
  pending := 0
  filled := 0
  cursor := 0
  pushback := none
  delivered := 0
  region := none
  regionCapacity := 0
  source := none
  sourceLength := 0
  sourceCursor := 0
  device := device

/-- An entry of `StreamPool` that is one of the three standard streams. -/
def standard (descriptor : ℕ) (buffer : Bytes) (device : Device) : Stream :=
  { take buffer device with
    readable := descriptor = 0
    writable := descriptor ≠ 0
    descriptor := some descriptor
    mode := if descriptor = 0 then ioFbf else if descriptor = 1 then ioLbf else ioNbf }

def setvbuf (stream : Stream) (buffer : Option Bytes) (mode : ℤ) (size : ℕ) : Bool × Stream :=
  if mode ≠ ioFbf ∧ mode ≠ ioLbf ∧ mode ≠ ioNbf then (false, stream)
  else if stream.touched then (false, stream)
  else if mode = ioNbf then (true, { stream with mode := ioNbf })
  else
    let use (stream : Stream) : Stream :=
      { stream with mode := mode, pending := 0, filled := 0, cursor := 0 }
    match buffer with
    | none => (true, use stream)
    | some buffer =>
        if size = 0 then (false, stream)
        else (true, use { stream with buffer := buffer, capacity := size })

/-- The loop of `StreamDeliver` upon a descriptor. -/
def deliverLoop (stream : Stream) (bytes : List UInt8) : Bool × Stream :=
  if bytes = [] then (true, stream)
  else
    let (moved, device) := oxysStreamWrite stream.device bytes
    let stream := { stream with device := device }
    if moved ≤ 0 then (false, { stream with failed := true })
    else
      deliverLoop { stream with delivered := stream.delivered + moved.toNat }
        (bytes.drop moved.toNat)
  termination_by bytes.length
  decreasing_by
    rename_i hne hmoved
    have hpos := List.length_pos_iff.mpr hne
    rw [List.length_drop]
    omega

/-- `StreamDeliver` -/
def deliver (stream : Stream) (bytes : List UInt8) : Bool × Stream :=
  if bytes = [] then (true, stream)
  else
    match stream.descriptor with
    | some _ => stream.deliverLoop bytes
    | none =>
        match stream.region with
        | none => (false, { stream with failed := true })
        | some region =>
            let room := min (stream.regionCapacity - stream.delivered) bytes.length
            let stream := { stream with
              region := some (splice region stream.delivered room fun i ↦ bytes.getD i 0)
              delivered := stream.delivered + room }
            if room < bytes.length then (false, { stream with failed := true })
            else (true, stream)

/-- `StreamObtain`, into the stream's own buffer. -/
def streamObtain (stream : Stream) (capacity : ℕ) : ℤ × Stream :=
  if capacity = 0 then (0, stream)
  else
    match stream.descriptor with
    | none =>
        match stream.source with
        | none => (0, stream)
        | some source =>
            let available := min (stream.sourceLength - stream.sourceCursor) capacity
            (available, { stream with
              buffer := splice stream.buffer 0 available fun i ↦ source (stream.sourceCursor + i)
              sourceCursor := stream.sourceCursor + available })
    | some _ =>
        let (moved, bytes, device) := oxysStreamFill stream.device capacity
        let stream := { stream with
          buffer := splice stream.buffer 0 bytes.length fun i ↦ bytes.getD i 0
          device := device }
        if moved < 0 then (-1, stream) else (moved, stream)

/-- `StreamFlushOne`, which is `fflush` upon one stream. -/
def fflush (stream : Stream) : Bool × Stream :=
  if ¬stream.writable ∨ stream.pending = 0 then (true, stream)
  else
    { stream with pending := 0 }.deliver (slice stream.buffer 0 stream.pending)

def touch (stream : Stream) : Stream := { stream with touched := true }

def placed (stream : Stream) (byte : UInt8) : Stream :=
  { stream with
    buffer := Function.update stream.buffer stream.pending byte
    pending := stream.pending + 1 }

/-- The end of `fputc`: the byte is put into the buffer, and a line is delivered. -/
def place (stream : Stream) (byte : UInt8) : Option UInt8 × Stream :=
  let stream := stream.placed byte
  if stream.mode = ioLbf ∧ byte = newline then
    match stream.fflush with
    | (true, stream) => (some byte, stream)
    | (false, stream) => (none, stream)
  else (some byte, stream)

/-- `fputc`: the character, or no answer for `EOF`. -/
def fputc (stream : Stream) (character : ℤ) : Option UInt8 × Stream :=
  let byte := UInt8.ofInt character
  if ¬stream.writable then (none, stream)
  else
    let stream := stream.touch
    if stream.mode = ioNbf then
      match stream.deliver [byte] with
      | (true, stream) => (some byte, stream)
      | (false, stream) => (none, stream)
    else if stream.capacity ≤ stream.pending then
      match stream.fflush with
      | (true, stream) => stream.place byte
      | (false, stream) => (none, stream)
    else stream.place byte

/-- `fputc` of one byte after another, until one is refused. -/
def putAll (stream : Stream) : List UInt8 → Bool × Stream
  | [] => (true, stream)
  | byte :: bytes =>
      match stream.fputc byte.toNat with
      | (some _, stream) => stream.putAll bytes
      | (none, stream) => (false, stream)

/-- `fputs` of a string that has these bytes before its end. -/
def fputs (stream : Stream) (string : List UInt8) : Bool × Stream := stream.putAll string

/-- The loop of `fwrite` over elements, from the one at `written`. -/
def fwriteLoop (stream : Stream) (buffer : Bytes) (size : ℕ) : ℕ → ℕ → ℕ × Stream
  | 0, written => (written, stream)
  | count + 1, written =>
      match stream.putAll (slice buffer (size * written) size) with
      | (true, stream) => stream.fwriteLoop buffer size count (written + 1)
      | (false, stream) => (written, stream)

def fwrite (stream : Stream) (buffer : Bytes) (size count : ℕ) : ℕ × Stream :=
  if size = 0 ∨ count = 0 then (0, stream) else stream.fwriteLoop buffer size count 0

/-- The end of `fgetc`: the next byte of the buffer. -/
def next (stream : Stream) : Option UInt8 × Stream :=
  (some (stream.buffer stream.cursor), { stream with cursor := stream.cursor + 1 })

def emptied (stream : Stream) : Stream := { stream with filled := 0, cursor := 0 }

/-- The part of `fgetc` that fills a buffer that has nothing left in it. -/
def refill (stream : Stream) : Option UInt8 × Stream :=
  if stream.atEnd ∨ stream.failed then (none, stream)
  else
    let (obtained, stream) := stream.emptied.streamObtain
      (if stream.mode = ioNbf then 1 else stream.capacity)
    if obtained < 0 then (none, { stream with failed := true })
    else if obtained = 0 then (none, { stream with atEnd := true })
    else { stream with filled := obtained.toNat }.next

/-- `fgetc`: the character, or no answer for `EOF`. -/
def fgetc (stream : Stream) : Option UInt8 × Stream :=
  if ¬stream.readable then (none, stream)
  else
    let stream := stream.touch
    match stream.pushback with
    | some character => (some character, { stream with pushback := none })
    | none => if stream.filled ≤ stream.cursor then stream.refill else stream.next

def ungetc (stream : Stream) (character : ℤ) : Option UInt8 × Stream :=
  if ¬stream.readable ∨ character = eof then (none, stream)
  else
    match stream.pushback with
    | some _ => (none, stream)
    | none =>
        let byte := UInt8.ofInt character
        (some byte, { stream with pushback := some byte, atEnd := false })

/-- The loop of `fgets`: at most so many characters, up to a newline. -/
def fgetsLoop (stream : Stream) : ℕ → List UInt8 × Stream
  | 0 => ([], stream)
  | count + 1 =>
      match stream.fgetc with
      | (none, stream) => ([], stream)
      | (some character, stream) =>
          if character = newline then ([character], stream)
          else
            let (rest, stream) := stream.fgetsLoop count
            (character :: rest, stream)

/-- `fgets`: what stands in the caller's buffer before the terminator, or no
answer for a null pointer. -/
def fgets (stream : Stream) (count : ℤ) : Option (List UInt8) × Stream :=
  if count ≤ 0 then (none, stream)
  else
    let (written, stream) := stream.fgetsLoop (count - 1).toNat
    if stream.failed then (none, stream)
    else if written = [] ∧ stream.atEnd then (none, stream)
    else (some written, stream)

/-- `fgetc` so many times, until it answers `EOF`. -/
def getAll (stream : Stream) : ℕ → List UInt8 × Stream
  | 0 => ([], stream)
  | count + 1 =>
      match stream.fgetc with
      | (none, stream) => ([], stream)
      | (some character, stream) =>
          let (rest, stream) := stream.getAll count
          (character :: rest, stream)

/-- The loop of `fread` over elements: how many were obtained, and the bytes put
into the caller's buffer, those of an element that was not finished among them. -/
def freadLoop (stream : Stream) (size : ℕ) : ℕ → ℕ × List UInt8 × Stream
  | 0 => (0, [], stream)
  | count + 1 =>
      let (bytes, stream) := stream.getAll size
      if bytes.length < size then (0, bytes, stream)
      else
        let (obtained, rest, stream) := stream.freadLoop size count
        (obtained + 1, bytes ++ rest, stream)

def fread (stream : Stream) (size count : ℕ) : ℕ × List UInt8 × Stream :=
  if size = 0 ∨ count = 0 then (0, [], stream) else stream.freadLoop size count

end Stream

end OxysOS.Libc
