import OxysOS.Exec.Elf
import OxysOS.Proc.Signal

/-!
# The frames of signals and system calls

`kernel/arch/x86_64/syscall/sigframe.c`, as far as a system call is left through
it.
-/

namespace OxysOS.Proc

open OxysOS.Exec

def syscallEfault : Word := BitVec.ofInt 64 (-2)

def syscallEintr : Word := BitVec.ofInt 64 (-22)

def syscallSigreturn : Word := 22

def signalRedZoneBytes : Word := 128

def signalStackAlignment : Word := 16

/-- `sizeof(SignalContext)` -/
def signalContextBytes : ℕ := 160

def rflagsInterruptEnable : Word := 0x200
def rflagsDirection : Word := 0x400

/-- `SIGNAL_USER_FLAGS`: carry, parity, auxiliary, zero, sign, trap, direction
and overflow. -/
def signalUserFlags : Word := 0x001 ||| 0x004 ||| 0x010 ||| 0x040 ||| 0x080 ||| 0x100 |||
  rflagsDirection ||| 0x800

structure SyscallFrame where
  r15 : Word
  r14 : Word
  r13 : Word
  r12 : Word
  r11 : Word
  r10 : Word
  r9 : Word
  r8 : Word
  rbp : Word
  rdi : Word
  rsi : Word
  rdx : Word
  rcx : Word
  rbx : Word
  rax : Word
  userStack : Word

/-- `TrapFrame`, as far as a return to a program depends upon it. -/
structure TrapFrame where
  r15 : Word
  r14 : Word
  r13 : Word
  r12 : Word
  r11 : Word
  r10 : Word
  r9 : Word
  r8 : Word
  rbp : Word
  rdi : Word
  rsi : Word
  rdx : Word
  rcx : Word
  rbx : Word
  rax : Word
  rip : Word
  cs : Word
  rflags : Word
  rsp : Word

structure SignalRegisters where
  rip : Word
  rsp : Word
  rflags : Word
  rax : Word
  rbx : Word
  rcx : Word
  rdx : Word
  rsi : Word
  rdi : Word
  rbp : Word
  r8 : Word
  r9 : Word
  r10 : Word
  r11 : Word
  r12 : Word
  r13 : Word
  r14 : Word
  r15 : Word

structure SignalContext where
  restorer : Word
  signal : Word
  registers : SignalRegisters

def signalRegistersFromSyscallFrame (frame : SyscallFrame) : SignalRegisters where
  rip := frame.rcx
  rsp := frame.userStack
  rflags := frame.r11
  rax := frame.rax
  rbx := frame.rbx
  rcx := frame.rcx
  rdx := frame.rdx
  rsi := frame.rsi
  rdi := frame.rdi
  rbp := frame.rbp
  r8 := frame.r8
  r9 := frame.r9
  r10 := frame.r10
  r11 := frame.r11
  r12 := frame.r12
  r13 := frame.r13
  r14 := frame.r14
  r15 := frame.r15

/-- `SignalRegistersToSyscallFrame`: every field of the frame is written, and
the registers' own `rcx` and `r11` are lost. -/
def signalRegistersToSyscallFrame (r : SignalRegisters) : SyscallFrame where
  rcx := r.rip
  userStack := r.rsp
  r11 := r.rflags
  rax := r.rax
  rbx := r.rbx
  rdx := r.rdx
  rsi := r.rsi
  rdi := r.rdi
  rbp := r.rbp
  r8 := r.r8
  r9 := r.r9
  r10 := r.r10
  r12 := r.r12
  r13 := r.r13
  r14 := r.r14
  r15 := r.r15

def signalRegistersFromTrapFrame (frame : TrapFrame) : SignalRegisters where
  rip := frame.rip
  rsp := frame.rsp
  rflags := frame.rflags
  rax := frame.rax
  rbx := frame.rbx
  rcx := frame.rcx
  rdx := frame.rdx
  rsi := frame.rsi
  rdi := frame.rdi
  rbp := frame.rbp
  r8 := frame.r8
  r9 := frame.r9
  r10 := frame.r10
  r11 := frame.r11
  r12 := frame.r12
  r13 := frame.r13
  r14 := frame.r14
  r15 := frame.r15

def signalRegistersToTrapFrame (r : SignalRegisters) (frame : TrapFrame) : TrapFrame where
  cs := frame.cs
  rip := r.rip
  rsp := r.rsp
  rflags := r.rflags
  rax := r.rax
  rbx := r.rbx
  rcx := r.rcx
  rdx := r.rdx
  rsi := r.rsi
  rdi := r.rdi
  rbp := r.rbp
  r8 := r.r8
  r9 := r.r9
  r10 := r.r10
  r11 := r.r11
  r12 := r.r12
  r13 := r.r13
  r14 := r.r14
  r15 := r.r15

structure BuiltContext where
  base : Word
  context : SignalContext

/-- `SignalEnterHandler`: the registers the handler is entered with and what
was written, unless the stack could not hold it. -/
def signalEnterHandler (signals : Signals) (writable : Word → ℕ → Bool) (signal : ℕ)
    (handler : Word) (r : SignalRegisters) : Option (SignalRegisters × BuiltContext) :=
  let base := r.rsp - signalRedZoneBytes - BitVec.ofNat 64 signalContextBytes
  let base := base &&& ~~~(signalStackAlignment - 1)
  let base := base - 8
  if writable base signalContextBytes = false then none
  else
    some ({ r with
      rip := handler
      rsp := base
      rdi := BitVec.ofNat 64 signal
      rflags := r.rflags &&& ~~~rflagsDirection },
      ⟨base, ⟨signals.restorer, BitVec.ofNat 64 signal, r⟩⟩)

/-- What one turn of `SignalDeliver` comes to: the loop is left, turned again,
turned again when the process has been continued, or the process is ended. -/
inductive SignalTurn
  | left (signals : Signals) (r : SignalRegisters) (built : Option BuiltContext)
  | again (signals : Signals)
  | stopped (signals : Signals)
  | terminated

/-- One turn of the loop of `SignalDeliver`. -/
def signalDeliverTurn (writable : Word → ℕ → Bool) (signals : Signals) (r : SignalRegisters) :
    SignalTurn :=
  let (signal, signals) := signals.take
  if signal = 0 then .left signals r none
  else
    let disposition := signals.disposition signal
    if disposition = syscallSignalIgnore then .again signals
    else if disposition = syscallSignalDefault then
      match signalDefaultAction signal with
      | .ignore => .again signals
      | .resume => .again signals
      | .stop => .stopped { signals with stopped := true }
      | .terminate => .terminated
    else
      match signalEnterHandler signals writable signal disposition r with
      | none => .terminated
      | some (r, built) => .left signals r (some built)

/-- `SignalDeliver`, where the process is not ended.  While it is stopped,
others may send it signals. -/
inductive SignalDelivers (writable : Word → ℕ → Bool) (r : SignalRegisters) :
    Signals → Signals → SignalRegisters → Option BuiltContext → Prop
  | left {signals signals' : Signals} {r' : SignalRegisters} {built : Option BuiltContext} :
      signalDeliverTurn writable signals r = .left signals' r' built →
      SignalDelivers writable r signals signals' r' built
  | again {signals more signals' : Signals} {r' : SignalRegisters} {built : Option BuiltContext} :
      signalDeliverTurn writable signals r = .again more →
      SignalDelivers writable r more signals' r' built →
      SignalDelivers writable r signals signals' r' built
  | stopped {signals more woken signals' : Signals} {r' : SignalRegisters}
      {built : Option BuiltContext} :
      signalDeliverTurn writable signals r = .stopped more →
      more.Sent woken → woken.stopped = false →
      SignalDelivers writable r woken signals' r' built →
      SignalDelivers writable r signals signals' r' built

/-- The end of `SignalDeliverToSyscallFrame`: a call that was interrupted is
put back to its instruction where no handler was entered. -/
def signalLeave (frame : SyscallFrame) (number : Word) (r : SignalRegisters) : SyscallFrame :=
  let left := signalRegistersToSyscallFrame r
  if frame.rax = syscallEintr ∧ number ≠ syscallSigreturn ∧ r.rip = frame.rcx then
    { left with rax := number, rcx := left.rcx - 2 }
  else left

/-- `SignalDeliverToSyscallFrame`, where the process is not ended. -/
inductive SignalDeliversToSyscallFrame (writable : Word → ℕ → Bool) (frame : SyscallFrame)
    (number : Word) (signals : Signals) : Signals → SyscallFrame → Option BuiltContext → Prop
  | quiet : signals.isPending = false →
      SignalDeliversToSyscallFrame writable frame number signals signals frame none
  | delivered {signals' : Signals} {r : SignalRegisters} {built : Option BuiltContext} :
      signals.isPending = true →
      SignalDelivers writable (signalRegistersFromSyscallFrame frame) signals signals' r built →
      SignalDeliversToSyscallFrame writable frame number signals signals'
        (signalLeave frame number r) built

/-- `SignalDeliverToTrapFrame`, where the process is not ended. -/
inductive SignalDeliversToTrapFrame (writable : Word → ℕ → Bool) (frame : TrapFrame)
    (signals : Signals) : Signals → TrapFrame → Option BuiltContext → Prop
  | quiet : frame.cs &&& 3 = 0 ∨ signals.isPending = false →
      SignalDeliversToTrapFrame writable frame signals signals frame none
  | delivered {signals' : Signals} {r : SignalRegisters} {built : Option BuiltContext} :
      frame.cs &&& 3 ≠ 0 → signals.isPending = true →
      SignalDelivers writable (signalRegistersFromTrapFrame frame) signals signals' r built →
      SignalDeliversToTrapFrame writable frame signals signals'
        (signalRegistersToTrapFrame r frame) built

/-- `SignalReturn`, upon what the program's memory holds: its answer and the
frame it leaves. -/
def signalReturn (readable : Word → ℕ → Bool) (contextAt : Word → SignalContext)
    (frame : SyscallFrame) : Word × SyscallFrame :=
  let address := frame.userStack - 8
  if readable address signalContextBytes = false then (syscallEfault, frame)
  else
    let context := (contextAt address).registers
    if syscallUserLimit ≤ context.rip.toNat then (syscallEfault, frame)
    else
      (context.rax, { signalRegistersToSyscallFrame context with
        r11 := (context.rflags &&& signalUserFlags) ||| rflagsInterruptEnable ||| 2 })

end OxysOS.Proc
