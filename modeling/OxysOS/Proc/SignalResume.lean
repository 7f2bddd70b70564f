import OxysOS.Proc.SignalFrame

/-!
# Resuming after a handler

A handler is entered upon the program's own stack, where the registers have been
saved, and returns into the restorer, which asks by `sigreturn` for them.  They
are put back into the frame of that call, so that the program resumes by
`SYSRET` whichever frame the signal came in by.
-/

namespace OxysOS.Proc

open OxysOS.Library OxysOS.Mm OxysOS.Exec

/-- The words of a `SignalContext`, in the order of its fields. -/
def SignalContext.words (context : SignalContext) : List Word :=
  let r := context.registers
  [context.restorer, context.signal, r.rip, r.rsp, r.rflags, r.rax, r.rbx, r.rcx, r.rdx, r.rsi,
    r.rdi, r.rbp, r.r8, r.r9, r.r10, r.r11, r.r12, r.r13, r.r14, r.r15]

def writeContext (memory : Bytes) (base : ℕ) (context : SignalContext) : Bytes :=
  writeFields memory base 8 (context.words.map BitVec.toNat)

def readContext (memory : Bytes) (base : ℕ) : SignalContext :=
  let word (i : ℕ) : Word := BitVec.ofNat 64 (readField memory (base + 8 * i) 8)
  ⟨word 0, word 1, ⟨word 2, word 3, word 4, word 5, word 6, word 7, word 8, word 9, word 10,
    word 11, word 12, word 13, word 14, word 15, word 16, word 17, word 18, word 19⟩⟩

theorem readField_writeContext (memory : Bytes) (base : ℕ) (context : SignalContext) (i : ℕ)
    (h : i < context.words.length) :
    BitVec.ofNat 64 (readField (writeContext memory base context) (base + 8 * i) 8) =
      context.words[i] := by
  have hlength : i < (context.words.map BitVec.toNat).length := by rwa [List.length_map]
  have hvalues : ∀ value ∈ context.words.map BitVec.toNat, value < 256 ^ 8 := by
    intro value hvalue
    obtain ⟨word, -, rfl⟩ := List.mem_map.mp hvalue
    exact word.isLt
  unfold writeContext
  rw [readField_writeFields hlength hvalues, List.getElem_map, BitVec.ofNat_toNat,
    BitVec.setWidth_eq]

theorem readContext_writeContext (memory : Bytes) (base : ℕ) (context : SignalContext) :
    readContext (writeContext memory base context) base = context := by
  have hlength : context.words.length = 20 := rfl
  have hword := fun i (hi : i < 20) ↦ readField_writeContext memory base context i hi
  unfold readContext
  dsimp only
  rw [hword 0 (by decide), hword 1 (by decide), hword 2 (by decide), hword 3 (by decide),
    hword 4 (by decide), hword 5 (by decide), hword 6 (by decide), hword 7 (by decide),
    hword 8 (by decide), hword 9 (by decide), hword 10 (by decide), hword 11 (by decide),
    hword 12 (by decide), hword 13 (by decide), hword 14 (by decide), hword 15 (by decide),
    hword 16 (by decide), hword 17 (by decide), hword 18 (by decide), hword 19 (by decide)]
  rfl

theorem readContext_above {memory : Bytes} {base above : ℕ} {context : SignalContext}
    (h : base + signalContextBytes ≤ above) :
    readContext (writeContext memory base context) above = readContext memory above := by
  have hword : ∀ i, readField (writeContext memory base context) (above + 8 * i) 8 =
      readField memory (above + 8 * i) 8 := by
    intro i
    apply readField_writeFields_of_disjoint
    right
    have hlength : (context.words.map BitVec.toNat).length = 20 := rfl
    have hbytes : signalContextBytes = 160 := rfl
    omega
  unfold readContext
  simp only [hword]

structure User where
  registers : SignalRegisters
  memory : Bytes
  signals : Signals

/-- What `SyscallUserRangeIsReadable` and `SyscallUserRangeIsWritable` answer. -/
structure UserAccess where
  readable : Word → ℕ → Bool
  writable : Word → ℕ → Bool
  within : ∀ address length, writable address length = true →
    address.toNat + length ≤ syscallUserLimit

/-- `SYSCALL`, and what `SyscallEntry` pushes: the instruction leaves the
address after it in `RCX` and the flags in `R11`. -/
def syscallEntry (r : SignalRegisters) : SyscallFrame where
  rcx := r.rip
  r11 := r.rflags
  userStack := r.rsp
  rax := r.rax
  rbx := r.rbx
  rdx := r.rdx
  rsi := r.rsi
  rdi := r.rdi
  rbp := r.rbp
  r8 := r.r8
  r9 := r.r9
  r10 := r.r10
  r12 := r.r12
  r13 := r.r13
  r14 := r.r14
  r15 := r.r15

/-- The flags that `SYSRET` takes from `R11`. -/
def sysretFlags : Word := 0x3C7FD7

/-- What `SyscallEntry` pops, and `SYSRET`. -/
def sysret (frame : SyscallFrame) : SignalRegisters where
  rip := frame.rcx
  rsp := frame.userStack
  rflags := (frame.r11 &&& sysretFlags) ||| 2
  rax := frame.rax
  rbx := frame.rbx
  rcx := frame.rcx
  rdx := frame.rdx
  rsi := frame.rsi
  rdi := frame.rdi
  rbp := frame.rbp
  r8 := frame.r8
  r9 := frame.r9
  r10 := frame.r10
  r11 := frame.r11
  r12 := frame.r12
  r13 := frame.r13
  r14 := frame.r14
  r15 := frame.r15

/-- What the stubs of the interrupts pop, and `IRETQ`. -/
def iret (frame : TrapFrame) : SignalRegisters := signalRegistersFromTrapFrame frame

/-- The `ret` of a handler, and the two instructions of `OxysSignalRestorer`. -/
def throughRestorer (r : SignalRegisters) (restorer : Word) : SignalRegisters :=
  { r with rip := restorer + 7, rsp := r.rsp + 8, rax := syscallSigreturn }

inductive FrameKind
  | syscall | trap
  deriving DecidableEq

inductive Interrupts (access : UserAccess) (u : User) :
    FrameKind → Signals → SignalRegisters → BuiltContext → Prop
  | syscall {frame frame' : SyscallFrame} {number : Word} {signals : Signals}
      {built : BuiltContext} :
      u.registers = sysret frame →
      SignalDeliversToSyscallFrame access.writable frame number u.signals signals frame'
        (some built) →
      Interrupts access u .syscall signals (sysret frame') built
  | trap {frame frame' : TrapFrame} {signals : Signals} {built : BuiltContext} :
      u.registers = iret frame →
      SignalDeliversToTrapFrame access.writable frame u.signals signals frame' (some built) →
      Interrupts access u .trap signals (iret frame') built

def entered (u : User) (signals : Signals) (r : SignalRegisters) (built : BuiltContext) : User :=
  ⟨r, writeContext u.memory built.base.toNat built.context, signals⟩

def Signals.Deaf (signals : Signals) (signal : ℕ) : Prop := (signals.send signal).2 = signals

/-- The registers that `sigreturn` leaves a program with.  Where its answer is
`SYSCALL_EFAULT` the dispatcher sends `SIGSEGV`, and the program does not resume. -/
inductive Resumes (access : UserAccess) (q : User) (restorer : Word) : SignalRegisters → Prop
  | sigreturn {answer : Word} {frame : SyscallFrame} :
      signalReturn access.readable (fun address ↦ readContext q.memory address.toNat)
        (syscallEntry (throughRestorer q.registers restorer)) = (answer, frame) →
      (answer = syscallEfault → q.signals.Deaf syscallSigsegv) →
      Resumes access q restorer (sysret frame)

/-- What a handler does before it returns: instructions of the program, which
leave alone the contexts that are saved, and interruptions by further handlers,
which come while the stack is below them. -/
inductive HandlerRun (step : User → User → Prop) : List BuiltContext → User → User → Prop
  | refl (saved : List BuiltContext) (u : User) : HandlerRun step saved u u
  | instruction {saved : List BuiltContext} {u v w : User} :
      step u v →
      (∀ built ∈ saved, readContext v.memory built.base.toNat =
        readContext u.memory built.base.toNat) →
      HandlerRun step saved v w → HandlerRun step saved u w
  | interrupted {saved : List BuiltContext} {u q w : User} {access access' : UserAccess}
      {kind : FrameKind} {signals : Signals} {r r' : SignalRegisters} {built : BuiltContext} :
      Interrupts access u kind signals r built →
      (∀ other ∈ saved, u.registers.rsp.toNat ≤ other.base.toNat) →
      HandlerRun step (built :: saved) (entered u signals r built) q →
      q.registers.rsp = built.base → access'.readable built.base signalContextBytes = true →
      Resumes access' q built.context.restorer r' →
      HandlerRun step saved ⟨r', q.memory, q.signals⟩ w → HandlerRun step saved u w

/-- A program resumes with what it had when it was interrupted, except for
`RCX` and `R11` where a system call had taken them. -/
structure Transparent (kind : FrameKind) (r v : SignalRegisters) : Prop where
  rip : v.rip = r.rip
  rsp : v.rsp = r.rsp
  flags : v.rflags &&& signalUserFlags = r.rflags &&& signalUserFlags
  rax : v.rax = r.rax
  rbx : v.rbx = r.rbx
  rdx : v.rdx = r.rdx
  rsi : v.rsi = r.rsi
  rdi : v.rdi = r.rdi
  rbp : v.rbp = r.rbp
  r8 : v.r8 = r.r8
  r9 : v.r9 = r.r9
  r10 : v.r10 = r.r10
  r12 : v.r12 = r.r12
  r13 : v.r13 = r.r13
  r14 : v.r14 = r.r14
  r15 : v.r15 = r.r15
  rcx : kind = .trap → v.rcx = r.rcx
  r11 : kind = .trap → v.r11 = r.r11

/-- The flags that `SignalReturn` puts in `R11`. -/
def restoredFlags (flags : Word) : Word := (flags &&& signalUserFlags) ||| rflagsInterruptEnable ||| 2

structure Restorable (kind : FrameKind) (r : SignalRegisters) (signals : Signals) : Prop where
  rip : r.rip.toNat < syscallUserLimit
  rax : r.rax = syscallEfault → signals.Deaf syscallSigsegv
  rcx : kind = .trap → r.rcx = r.rip
  r11 : kind = .trap → r.r11 = restoredFlags r.rflags

theorem toNat_aligned (x : Word) :
    (x &&& ~~~(signalStackAlignment - 1)).toNat = x.toNat / 16 * 16 := by
  have hmask : ∀ i < 64, (~~~(signalStackAlignment - 1)).getLsbD i = decide (4 ≤ i) := by decide
  have hshift : x &&& ~~~(signalStackAlignment - 1) = (x >>> 4) <<< 4 := by
    apply BitVec.eq_of_getLsbD_eq
    intro i hi
    rw [BitVec.getLsbD_and, hmask i hi, BitVec.getLsbD_shiftLeft, BitVec.getLsbD_ushiftRight]
    by_cases hlow : 4 ≤ i
    · have hback : 4 + (i - 4) = i := by omega
      simp [hlow, hi, hback, Nat.not_lt.mpr hlow]
    · simp [hlow, Nat.not_le.mp hlow]
  have hlt := x.isLt
  rw [hshift, BitVec.toNat_shiftLeft, BitVec.toNat_ushiftRight, Nat.shiftRight_eq_div_pow,
    Nat.shiftLeft_eq]
  omega

def handlerBase (rsp : Word) : Word :=
  ((rsp - signalRedZoneBytes - BitVec.ofNat 64 signalContextBytes) &&&
    ~~~(signalStackAlignment - 1)) - 8

theorem handlerBase_ne (rsp : Word) : handlerBase rsp + 8 ≠ rsp := by
  have haligned := toNat_aligned (rsp - signalRedZoneBytes - BitVec.ofNat 64 signalContextBytes)
  unfold handlerBase
  generalize rsp - signalRedZoneBytes - BitVec.ofNat 64 signalContextBytes &&&
    ~~~(signalStackAlignment - 1) = y at *
  unfold signalRedZoneBytes signalContextBytes at haligned
  bv_omega

theorem handlerBase_below {rsp : Word}
    (h : (handlerBase rsp).toNat + signalContextBytes ≤ syscallUserLimit) :
    (handlerBase rsp).toNat + signalContextBytes + 128 ≤ rsp.toNat := by
  have hlimit : syscallUserLimit = 2 ^ 47 := rfl
  have hbytes : signalContextBytes = 160 := rfl
  have haligned := toNat_aligned (rsp - signalRedZoneBytes - BitVec.ofNat 64 signalContextBytes)
  unfold handlerBase at h ⊢
  generalize rsp - signalRedZoneBytes - BitVec.ofNat 64 signalContextBytes &&&
    ~~~(signalStackAlignment - 1) = y at *
  rw [hlimit] at h
  unfold signalRedZoneBytes at haligned
  rw [hbytes] at haligned h ⊢
  bv_omega

structure BuiltFor (access : UserAccess) (r : SignalRegisters) (r' : SignalRegisters)
    (built : BuiltContext) : Prop where
  context : built.context.registers = r
  base : built.base = handlerBase r.rsp
  writable : access.writable built.base signalContextBytes = true
  stack : r'.rsp = built.base

theorem signalDeliverTurn_built {access : UserAccess} {signals signals' : Signals}
    {r r' : SignalRegisters} {built : BuiltContext}
    (h : signalDeliverTurn access.writable signals r = .left signals' r' (some built)) :
    BuiltFor access r r' built := by
  unfold signalDeliverTurn at h
  generalize signals.take = taken at h
  obtain ⟨signal, more⟩ := taken
  dsimp only at h
  split_ifs at h with hnone hignore hdefault
  · cases h
  · cases hact : signalDefaultAction signal <;> rw [hact] at h <;> cases h
  · cases henter : signalEnterHandler more access.writable signal (more.disposition signal) r with
    | none =>
        rw [henter] at h
        cases h
    | some pair =>
        rw [henter] at h
        cases h
        unfold signalEnterHandler at henter
        dsimp only at henter
        split at henter
        · cases henter
        · rename_i hwritable
          cases henter
          exact ⟨rfl, rfl, Bool.not_eq_false _ ▸ hwritable, rfl⟩

theorem SignalDelivers.built {access : UserAccess} {signals signals' : Signals}
    {r r' : SignalRegisters} {built : BuiltContext}
    (h : SignalDelivers access.writable r signals signals' r' (some built)) :
    BuiltFor access r r' built := by
  generalize hsome : some built = found at h
  induction h with
  | left hturn =>
      subst hsome
      exact signalDeliverTurn_built hturn
  | again _ _ ih => exact ih hsome
  | stopped _ _ _ _ ih => exact ih hsome

structure Saved (access : UserAccess) (kind : FrameKind) (r r' : SignalRegisters)
    (built : BuiltContext) : Prop where
  transparent : Transparent kind r built.context.registers
  whole : kind = .trap → built.context.registers = r
  base : built.base = handlerBase r.rsp
  writable : access.writable built.base signalContextBytes = true
  stack : r'.rsp = built.base

theorem flags_sysret (flags : Word) :
    ((flags &&& sysretFlags) ||| 2) &&& signalUserFlags = flags &&& signalUserFlags := by
  have hmask : sysretFlags &&& signalUserFlags = signalUserFlags := by decide
  rw [or_and_of_zero (by decide), BitVec.and_assoc, hmask]

theorem flags_restored (flags : Word) :
    restoredFlags flags &&& signalUserFlags = flags &&& signalUserFlags := by
  unfold restoredFlags
  rw [or_and_of_zero (by decide), or_and_of_zero (by decide), BitVec.and_assoc, BitVec.and_self]

theorem Interrupts.saved {access : UserAccess} {u : User} {kind : FrameKind} {signals : Signals}
    {r : SignalRegisters} {built : BuiltContext} (h : Interrupts access u kind signals r built) :
    Saved access kind u.registers r built := by
  cases h with
  | @syscall frame frame' number _ _ hregisters hdelivers =>
      rw [hregisters]
      cases hdelivers with
      | @delivered _ r' _ _ hdelivers =>
          obtain ⟨hcontext, hbase, hwritable, hstack⟩ := hdelivers.built
          refine ⟨?_, fun htrap ↦ (by cases htrap), hbase, hwritable, ?_⟩
          · rw [hcontext]
            constructor <;> first | rfl | (intro htrap; cases htrap) | skip
            exact (flags_sysret frame.r11).symm
          · rw [← hstack]
            unfold signalLeave
            dsimp only
            split <;> rfl
  | trap hregisters hdelivers =>
      rw [hregisters]
      cases hdelivers with
      | delivered _ _ hdelivers =>
          obtain ⟨hcontext, hbase, hwritable, hstack⟩ := hdelivers.built
          have hwhole : built.context.registers = iret _ := hcontext
          refine ⟨?_, fun _ ↦ hwhole, hbase, hwritable, hstack⟩
          rw [hwhole]
          constructor <;> first | rfl | exact fun _ ↦ rfl

theorem Interrupts.below {access : UserAccess} {u : User} {kind : FrameKind} {signals : Signals}
    {r : SignalRegisters} {built : BuiltContext} (h : Interrupts access u kind signals r built) :
    built.base.toNat + signalContextBytes ≤ u.registers.rsp.toNat := by
  have hwithin := access.within _ _ h.saved.writable
  have hbase := h.saved.base
  rw [hbase] at hwithin ⊢
  have hbelow := handlerBase_below hwithin
  omega

theorem HandlerRun.unaltered {step : User → User → Prop} {saved : List BuiltContext} {u w : User}
    (hrun : HandlerRun step saved u w) : ∀ built ∈ saved,
      readContext w.memory built.base.toNat = readContext u.memory built.base.toNat := by
  induction hrun with
  | refl saved u => exact fun built _ ↦ rfl
  | instruction _ hkept _ ih =>
      intro built hbuilt
      exact (ih built hbuilt).trans (hkept built hbuilt)
  | interrupted hinterrupts hbelow _ _ _ _ _ ihinner ih =>
      intro other hother
      have hend := hinterrupts.below
      have hstack := hbelow other hother
      have hinner := ihinner other (List.mem_cons_of_mem _ hother)
      exact ((ih other hother).trans hinner).trans (readContext_above (hend.trans hstack))

theorem syscallEntry_stack (r : SignalRegisters) (restorer : Word) :
    (syscallEntry (throughRestorer r restorer)).userStack - 8 = r.rsp := by
  change r.rsp + 8 - 8 = r.rsp
  bv_omega

theorem signalReturn_of_unaltered {access : UserAccess} {q : User} {built : BuiltContext}
    (restorer : Word) (hstack : q.registers.rsp = built.base)
    (hreadable : access.readable built.base signalContextBytes = true)
    (hunaltered : readContext q.memory built.base.toNat = built.context) :
    signalReturn access.readable (fun address ↦ readContext q.memory address.toNat)
        (syscallEntry (throughRestorer q.registers restorer)) =
      if syscallUserLimit ≤ built.context.registers.rip.toNat then
        (syscallEfault, syscallEntry (throughRestorer q.registers restorer))
      else
        (built.context.registers.rax,
          { signalRegistersToSyscallFrame built.context.registers with
            r11 := restoredFlags built.context.registers.rflags }) := by
  unfold signalReturn
  dsimp only
  rw [syscallEntry_stack, hstack, hreadable, hunaltered, if_neg (by decide)]
  rfl

def restoredRegisters (r : SignalRegisters) : SignalRegisters :=
  sysret { signalRegistersToSyscallFrame r with r11 := restoredFlags r.rflags }

theorem transparent_restored {kind : FrameKind} {r c : SignalRegisters} (h : Transparent kind r c)
    (hwhole : kind = .trap → c = r) (hrcx : kind = .trap → r.rcx = r.rip)
    (hr11 : kind = .trap → r.r11 = restoredFlags r.rflags) :
    Transparent kind r (restoredRegisters c) := by
  have hflags : (restoredRegisters c).rflags &&& signalUserFlags = r.rflags &&& signalUserFlags := by
    rw [← h.flags]
    exact (flags_sysret _).trans (flags_restored _)
  refine ⟨h.rip, h.rsp, hflags, h.rax, h.rbx, h.rdx, h.rsi, h.rdi, h.rbp, h.r8, h.r9, h.r10,
    h.r12, h.r13, h.r14, h.r15, fun htrap ↦ ?_, fun htrap ↦ ?_⟩
  · rw [hrcx htrap]
    exact h.rip
  · rw [hr11 htrap, hwhole htrap]
    rfl

theorem transparent_iff_of_saved {access access' : UserAccess} {kind : FrameKind}
    {r r' : SignalRegisters} {q : User} {built : BuiltContext}
    (hsaved : Saved access kind r r' built) (hstack : q.registers.rsp = built.base)
    (hreadable : access'.readable built.base signalContextBytes = true)
    (hunaltered : readContext q.memory built.base.toNat = built.context) :
    (∃ v, Resumes access' q built.context.restorer v ∧ Transparent kind r v) ↔
      Restorable kind r q.signals := by
  have hreturn := signalReturn_of_unaltered built.context.restorer hstack hreadable hunaltered
  have hsame := hsaved.transparent
  rw [hsame.rip] at hreturn
  constructor
  · rintro ⟨v, hresumes, htransparent⟩
    cases hresumes with
    | sigreturn hcall hquiet =>
        rw [hreturn] at hcall
        split at hcall
        · cases hcall
          have hrsp := htransparent.rsp
          change q.registers.rsp + 8 = r.rsp at hrsp
          rw [hstack, hsaved.base] at hrsp
          exact absurd hrsp (handlerBase_ne r.rsp)
        · rename_i hbelow
          cases hcall
          refine ⟨not_le.mp hbelow, fun hrax ↦ hquiet (hsame.rax.trans hrax), ?_, ?_⟩
          · intro htrap
            exact (htransparent.rcx htrap).symm.trans hsame.rip
          · intro htrap
            rw [← htransparent.r11 htrap]
            change restoredFlags _ = _
            rw [hsaved.whole htrap]
  · rintro ⟨hrip, hrax, hrcx, hr11⟩
    rw [if_neg (not_le.mpr hrip)] at hreturn
    refine ⟨restoredRegisters built.context.registers, Resumes.sigreturn hreturn ?_,
      transparent_restored hsame hsaved.whole hrcx hr11⟩
    exact fun hanswer ↦ hrax (hsame.rax.symm.trans hanswer)

/-- A handler that leaves alone what was saved, and is interrupted by handlers
to any depth, gives back what it interrupted when that can be put back through
a system call, and not otherwise. -/
theorem Interrupts.transparent_iff {step : User → User → Prop} {access access' : UserAccess}
    {kind : FrameKind} {u q : User} {signals : Signals} {r : SignalRegisters}
    {built : BuiltContext} {saved : List BuiltContext}
    (hinterrupts : Interrupts access u kind signals r built)
    (hrun : HandlerRun step (built :: saved) (entered u signals r built) q)
    (hstack : q.registers.rsp = built.base)
    (hreadable : access'.readable built.base signalContextBytes = true) :
    (∃ v, Resumes access' q built.context.restorer v ∧ Transparent kind u.registers v) ↔
      Restorable kind u.registers q.signals := by
  apply transparent_iff_of_saved hinterrupts.saved hstack hreadable
  rw [hrun.unaltered built List.mem_cons_self]
  exact readContext_writeContext _ _ _

def openAccess : UserAccess where
  readable _ _ := true
  writable address length := address.toNat + length ≤ syscallUserLimit
  within _ _ h := of_decide_eq_true h

/-- A process that catches `SIGALRM`, which is pending. -/
def alarmed : Signals :=
  ⟨fun signal ↦ if signal = 14 then 0x402000 else 0, signalBit 14, 0x403000, false⟩

/-- A program that was interrupted while it counted in `RCX`. -/
def countingFrame : TrapFrame :=
  ⟨0, 0, 0, 0, 0, 0, 0, 0, 0, 0, 0, 0, 7, 0, 0, 0x401000, 0x2B, 0x202, 0x500000⟩

/-- A program that was in `pause` when the signal came. -/
def pausedFrame : SyscallFrame :=
  ⟨0, 0, 0, 0, 0x202, 0, 0, 0, 0, 0, 0, 0, 0x401002, 0, syscallEintr, 0x500000⟩

theorem delivers_alarmed {r : SignalRegisters}
    (h : openAccess.writable (handlerBase r.rsp) signalContextBytes = true) :
    ∃ signals r' built, SignalDelivers openAccess.writable r alarmed signals r' (some built) := by
  have htake : alarmed.take = (14, { alarmed with pending := 0 }) := rfl
  have henter : ∃ entry, signalEnterHandler { alarmed with pending := 0 } openAccess.writable 14
      0x402000 r = some entry := by
    unfold signalEnterHandler
    change ∃ entry, (if openAccess.writable (handlerBase r.rsp) signalContextBytes = false then _
      else _) = some entry
    rw [h]
    exact ⟨_, rfl⟩
  obtain ⟨⟨r', built⟩, henter⟩ := henter
  refine ⟨{ alarmed with pending := 0 }, r', built, .left ?_⟩
  unfold signalDeliverTurn
  rw [htake]
  have hhandler : { alarmed with pending := 0 }.disposition 14 = 0x402000 := rfl
  dsimp only
  rw [hhandler, if_neg (by decide), if_neg (by decide), if_neg (by decide), henter]

theorem interrupts_counting : ∃ signals r built,
    Interrupts openAccess ⟨iret countingFrame, fun _ ↦ 0, alarmed⟩ .trap signals r built := by
  obtain ⟨signals, r, built, hdelivers⟩ :=
    delivers_alarmed (r := signalRegistersFromTrapFrame countingFrame) (by decide)
  exact ⟨signals, _, built, .trap rfl (.delivered (by decide) (by decide) hdelivers)⟩

theorem interrupts_paused : ∃ signals r built,
    Interrupts openAccess ⟨sysret pausedFrame, fun _ ↦ 0, alarmed⟩ .syscall signals r built := by
  obtain ⟨signals, r, built, hdelivers⟩ :=
    delivers_alarmed (r := signalRegistersFromSyscallFrame pausedFrame) (by decide)
  have hframe : SignalDeliversToSyscallFrame openAccess.writable pausedFrame 36 alarmed signals
      (signalLeave pausedFrame 36 r) (some built) := .delivered (by decide) hdelivers
  exact ⟨signals, _, built, .syscall rfl hframe⟩

theorem transparent_iff_paused : ∃ signals r built v,
    Interrupts openAccess ⟨sysret pausedFrame, fun _ ↦ 0, alarmed⟩ .syscall signals r built ∧
      Resumes openAccess (entered ⟨sysret pausedFrame, fun _ ↦ 0, alarmed⟩ signals r built)
        built.context.restorer v ∧ Transparent .syscall (sysret pausedFrame) v := by
  obtain ⟨signals, r, built, hinterrupts⟩ := interrupts_paused
  have hrun : HandlerRun (fun _ _ ↦ False) [built]
      (entered ⟨sysret pausedFrame, fun _ ↦ 0, alarmed⟩ signals r built) _ := HandlerRun.refl _ _
  have hreadable : openAccess.readable built.base signalContextBytes = true := rfl
  obtain ⟨v, hresumes⟩ := (hinterrupts.transparent_iff hrun hinterrupts.saved.stack hreadable).mpr
    ⟨by decide, fun hrax ↦ absurd hrax (by decide), fun htrap ↦ (by cases htrap),
      fun htrap ↦ (by cases htrap)⟩
  exact ⟨signals, r, built, v, hinterrupts, hresumes⟩

/-- The count is lost. -/
theorem transparent_fails : ¬∀ (step : User → User → Prop) (access access' : UserAccess)
    (kind : FrameKind) (u q : User) (signals : Signals) (r : SignalRegisters) (built : BuiltContext)
    (saved : List BuiltContext), Interrupts access u kind signals r built →
      HandlerRun step (built :: saved) (entered u signals r built) q →
      q.registers.rsp = built.base → access'.readable built.base signalContextBytes = true →
      ∃ v, Resumes access' q built.context.restorer v ∧ Transparent kind u.registers v := by
  intro h
  obtain ⟨signals, r, built, hinterrupts⟩ := interrupts_counting
  generalize hu : (⟨iret countingFrame, fun _ ↦ 0, alarmed⟩ : User) = u at hinterrupts
  have hsaved := hinterrupts.saved
  have hreadable : openAccess.readable built.base signalContextBytes = true := rfl
  have hunaltered : readContext (entered u signals r built).memory built.base.toNat =
      built.context := readContext_writeContext _ _ _
  have hresumes := h (fun _ _ ↦ False) openAccess openAccess .trap u _ signals r built []
    hinterrupts (HandlerRun.refl _ _) hsaved.stack hreadable
  have hrcx := ((transparent_iff_of_saved hsaved hsaved.stack hreadable hunaltered).mp hresumes).rcx
    rfl
  rw [← hu] at hrcx
  exact absurd hrcx (by decide)

end OxysOS.Proc
