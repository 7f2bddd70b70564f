import OxysOS.Exec.Elf

/-!
# A process's image, stack and heap

`kernel/proc/process.c`, as far as it maps pages for a program.
-/

namespace OxysOS.Proc

open OxysOS.Library OxysOS.Mm OxysOS.Exec Action

def syscallEinval : ℤ := -3
def syscallEnomem : ℤ := -7

def processUserStackPages : ℕ := 16

def processUserStackTop : ℕ := 0x0000700000000000

def processUserStackFrameBytes : ℕ := 48

def processBreakGapPages : ℕ := 1

def processBreakMaximum : ℕ := 0x1000000

def processArgumentCountMaximum : ℕ := 128

def processArgumentBytesMaximum : ℕ := 8192

def userStackBase : ℕ := processUserStackTop - processUserStackPages * pageSize

/-- `Process`, as far as its pages are concerned. -/
structure Process where
  space : AddressSpace
  imageLowest : ℕ
  imageHighest : ℕ
  imageEntry : ℕ
  mappedPages : ℕ
  userStackTop : ℕ
  userStackPages : ℕ
  breakStart : ℕ
  breakCurrent : ℕ

/-- `ProcessArguments`: the strings, without their terminators. -/
structure ProcessArguments where
  argument : List (List UInt8)
  environment : List (List UInt8)
  storageUsed : ℕ

structure Mapping where
  page : ℕ
  found : BitVec 64

structure Running where
  machine : Machine
  process : Process
  mappings : List Mapping

abbrev ProcessAction (α : Type) := Action Running String α

def onMachine {α : Type} (action : Kernel α) : ProcessAction α :=
  ExceptT.mk fun x ↦ ((outcome action x.machine).1, { x with machine := (outcome action x.machine).2 })

def alterProcess (f : Process → Process) : ProcessAction Unit :=
  modify fun x ↦ { x with process := f x.process }

/-- `ProcessEstablishBreak` -/
def Process.establishBreak (process : Process) : Process :=
  if process.imageHighest = 0 then { process with breakStart := 0, breakCurrent := 0 }
  else
    let start := alignUp process.imageHighest + processBreakGapPages * pageSize
    { process with breakStart := start, breakCurrent := start }

/-- `ProcessRecordImage` -/
def Process.recordImage (process : Process) (image : ElfImage) : Process :=
  { process with
    imageLowest := image.lowest
    imageHighest := image.highest
    imageEntry := image.entry
    mappedPages := process.mappedPages + image.pages }.establishBreak

/-- What `ProcessExecute` makes of the process before it gives it a stack. -/
def Process.replaceImage (process : Process) (space : AddressSpace) (image : ElfImage) : Process :=
  { process with
    space := space
    imageLowest := image.lowest
    imageHighest := image.highest
    imageEntry := image.entry
    mappedPages := image.pages
    userStackTop := 0
    userStackPages := 0 }.establishBreak

/-- A zeroed page of the process's own, writable by the program.  The answer is
its frame, or `frameAllocationFailed` where there is none. -/
def processMapZeroedPage (page : ℕ) : ProcessAction ℕ := do
  let frame ← onMachine frameAllocate
  if frame = frameAllocationFailed then return frameAllocationFailed
  else
    onMachine (modify fun s ↦ s.zeroFrame frame)
    let x ← get
    modify fun x ↦
      { x with mappings := ⟨page, x.machine.leaf x.process.space.user page⟩ :: x.mappings }
    onMachine (addressSpaceMapPage x.process.space page frame (pageEntryWritable ||| pageEntryUser))
    alterProcess fun process ↦ { process with mappedPages := process.mappedPages + 1 }
    return frame

/-- `ProcessWriteUserStack`, over the bytes that remain. -/
def processWriteUserStack (frames : ℕ → ℕ) : List UInt8 → ℕ → Kernel Bool
  | [], _ => return true
  | byte :: bytes, address => do
      if address < userStackBase ∨ processUserStackTop ≤ address then return false
      else
        modify fun s ↦ s.alterFrame (frames ((address - userStackBase) / pageSize)) fun contents ↦
          Function.update contents (address % pageSize) byte
        processWriteUserStack frames bytes (address + 1)

def wordBytes (value : ℕ) : List UInt8 :=
  (List.range 8).map fun i ↦ UInt8.ofNat (value / 256 ^ i)

def processWriteUserStackWords (frames : ℕ → ℕ) : List ℕ → ℕ → Kernel Bool
  | [], _ => return true
  | word :: words, address => do
      if ← processWriteUserStack frames (wordBytes word) address then
        processWriteUserStackWords frames words (address + 8)
      else return false

def processWriteStrings (frames : ℕ → ℕ) : List (List UInt8) → ℕ → Kernel (Option (List ℕ × ℕ))
  | [], address => return some ([], address)
  | string :: strings, address => do
      match ← processWriteStrings frames strings address with
      | none => return none
      | some (addresses, above) =>
          let address := above - (string.length + 1)
          if ← processWriteUserStack frames (string ++ [0]) address then
            return some (address :: addresses, address)
          else return none

def processLayOutArguments (frames : ℕ → ℕ) (arguments : ProcessArguments) : Kernel ℕ := do
  if processArgumentCountMaximum < arguments.argument.length ∨
      processArgumentCountMaximum < arguments.environment.length ∨
      processArgumentBytesMaximum < arguments.storageUsed then
    return 0
  else
    match ← processWriteStrings frames arguments.environment processUserStackTop with
    | none => return 0
    | some (environmentAddresses, address) =>
        match ← processWriteStrings frames arguments.argument address with
        | none => return 0
        | some (argumentAddresses, address) =>
            let words := [arguments.argument.length] ++ argumentAddresses ++ [0] ++
              environmentAddresses ++ [0, 0, 0]
            let pointer := (address / 8 * 8 - 8 * words.length) / 16 * 16
            if ← processWriteUserStackWords frames words pointer then return pointer else return 0

/-- The loop of `ProcessCreateUserStack`, over the pages that remain.  The
answer is their frames, unless one could not be had. -/
def processMapStackPages : ℕ → ℕ → ProcessAction (Option (List ℕ))
  | 0, _ => return some []
  | count + 1, page => do
      let frame ← processMapZeroedPage page
      if frame = frameAllocationFailed then return none
      else
        match ← processMapStackPages count (page + pageSize) with
        | none => return none
        | some frames => return some (frame :: frames)

def processCreateUserStack (arguments : Option ProcessArguments) : ProcessAction ℕ := do
  let x ← get
  if x.process.userStackTop ≠ 0 then return 0
  else
    match ← processMapStackPages processUserStackPages userStackBase with
    | none => return 0
    | some frames =>
        alterProcess fun process ↦
          { process with
            userStackTop := processUserStackTop
            userStackPages := processUserStackPages }
        match arguments with
        | none => return processUserStackTop - processUserStackFrameBytes
        | some arguments =>
            if arguments.argument.length = 0 ∧ arguments.environment.length = 0 then
              return processUserStackTop - processUserStackFrameBytes
            else onMachine (processLayOutArguments (fun i ↦ frames.getD i 0) arguments)

def processMapBreakPage (page : ℕ) : ProcessAction Bool := do
  let frame ← processMapZeroedPage page
  return frame ≠ frameAllocationFailed

def processUnmapBreakPage (page : ℕ) : ProcessAction Unit := do
  let x ← get
  let frame ← onMachine (addressSpaceUnmapPage x.process.space page)
  if frame = frameAllocationFailed then return
  else
    onMachine (frameFree frame)
    alterProcess fun process ↦ { process with mappedPages := process.mappedPages - 1 }

def processMapBreakPages : ℕ → ℕ → ProcessAction (Option ℕ)
  | 0, _ => return none
  | count + 1, page => do
      if ← processMapBreakPage page then processMapBreakPages count (page + pageSize)
      else return some page

def processUnmapBreakPages : ℕ → ℕ → ProcessAction Unit
  | 0, _ => return
  | count + 1, page => do
      processUnmapBreakPage page
      processUnmapBreakPages count (page + pageSize)

def processSetBreak (requested : ℕ) : ProcessAction ℤ := do
  let x ← get
  if x.process.breakStart = 0 then return syscallEinval
  else if requested < x.process.breakStart then return syscallEinval
  else if processBreakMaximum < requested - x.process.breakStart then return syscallEnomem
  else
    let established := alignUp x.process.breakCurrent
    let wanted := alignUp requested
    if established < wanted then
      match ← processMapBreakPages ((wanted - established) / pageSize) established with
      | some page =>
          processUnmapBreakPages ((page - established) / pageSize) established
          return syscallEnomem
      | none =>
          alterProcess fun process ↦ { process with breakCurrent := requested }
          return requested
    else
      processUnmapBreakPages ((established - wanted) / pageSize) wanted
      alterProcess fun process ↦ { process with breakCurrent := requested }
      return requested

end OxysOS.Proc
