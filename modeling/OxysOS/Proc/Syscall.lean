import OxysOS.Proc.ProcessRun
import OxysOS.Proc.SignalFrame

/-!
# System calls

`kernel/arch/x86_64/syscall/syscall.c` and `syscall_entry.asm`, as far as they
decide where a program is returned to.  `SYSCALL` leaves the address of the next
instruction in `RCX`, and `SYSRET` takes the frame's.  Most calls write the
frame's `RAX` alone, and what they do besides is not modelled.
-/

namespace OxysOS.Proc

open OxysOS.Library OxysOS.Mm OxysOS.Exec Action

def syscallEnosys : Word := BitVec.ofInt 64 (-1)

def syscallCount : ℕ := 47

def syscallTicks : Word := 1

def syscallExit : Word := 5

def syscallBrk : Word := 7

def syscallSigaction : Word := 21

structure Task where
  running : Running
  signals : Signals

def syscallRangeIsWithinUserSpace (address length : ℕ) : Bool :=
  if length = 0 ∨ address = 0 then false
  else if syscallUserLimit ≤ address then false
  else length ≤ syscallUserLimit - address

/-- `SyscallPagesArePermitted`, where `resolves` answers for
`PagingResolveCopyOnWriteFault`. -/
def syscallPagesArePermitted (x : Running) (resolves : ℕ → Bool) (address length : ℕ)
    (writing : Bool) : Bool :=
  let first := alignDown address
  let last := alignDown (address + (length - 1))
  (List.range ((last - first) / pageSize + 1)).all fun i ↦
    let page := first + i * pageSize
    pagingAddressPermits x.machine x.process.space.root page pageEntryUser &&
      (!writing || pagingAddressPermits x.machine x.process.space.root page pageEntryWritable ||
        resolves page)

def syscallUserRangeIsReadable (x : Running) (address : Word) (length : ℕ) : Bool :=
  syscallRangeIsWithinUserSpace address.toNat length &&
    syscallPagesArePermitted x (fun _ ↦ false) address.toNat length false

def syscallUserRangeIsWritable (x : Running) (resolves : ℕ → Bool) (address : Word)
    (length : ℕ) : Bool :=
  syscallRangeIsWithinUserSpace address.toNat length &&
    syscallPagesArePermitted x resolves address.toNat length true

def contextAt (x : Running) (base : Word) : SignalContext :=
  let word (i : ℕ) : Word :=
    BitVec.ofNat 64 (readField (readIn x.process.space x.machine) (base.toNat + 8 * i) 8)
  ⟨word 0, word 1, ⟨word 2, word 3, word 4, word 5, word 6, word 7, word 8, word 9, word 10,
    word 11, word 12, word 13, word 14, word 15, word 16, word 17, word 18, word 19⟩⟩

def syscallDoBrk (requested : ℕ) : ProcessAction ℤ := do
  if requested = 0 then
    let established := (← get).process.breakCurrent
    if established = 0 then return syscallEnomem else return established
  else processSetBreak requested

def syscallDoSignalAction (task : Task) (signal disposition restorer : Word) : Word × Signals :=
  if disposition ≠ syscallSignalDefault ∧ disposition ≠ syscallSignalIgnore ∧
      (syscallUserRangeIsReadable task.running disposition 1 = false ∨
        syscallUserRangeIsReadable task.running restorer 1 = false) then
    (syscallEfault, task.signals)
  else
    match task.signals.setDisposition (signal.setWidth 32).toNat disposition restorer with
    | none => (BitVec.ofInt 64 syscallEinval, task.signals)
    | some answer => answer

/-- The `switch` of `SyscallDispatch`, where it is left.  A call that succeeds
in `execve`, that exits or that panics does not leave it. -/
inductive SyscallServes (frame : SyscallFrame) (task : Task) : SyscallFrame → Task → Prop
  | brk {answer : ℤ} {x : Running} :
      frame.rax = syscallBrk →
      outcome (syscallDoBrk frame.rdi.toNat) task.running = (.ok answer, x) →
      SyscallServes frame task { frame with rax := BitVec.ofInt 64 answer }
        { task with running := x }
  | sigaction {answer : Word} {signals : Signals} :
      frame.rax = syscallSigaction →
      syscallDoSignalAction task frame.rdi frame.rsi frame.rdx = (answer, signals) →
      SyscallServes frame task { frame with rax := answer } { task with signals := signals }
  | sigreturn {answer : Word} {frame' : SyscallFrame} :
      frame.rax = syscallSigreturn →
      signalReturn (syscallUserRangeIsReadable task.running) (contextAt task.running) frame =
        (answer, frame') →
      SyscallServes frame task frame'
        (if answer = syscallEfault then
          { task with signals := (task.signals.send syscallSigsegv).2 }
        else task)
  | other {answer : Word} {m : Machine} {signals : Signals} :
      frame.rax ≠ syscallBrk → frame.rax ≠ syscallSigaction → frame.rax ≠ syscallSigreturn →
      frame.rax ≠ syscallExit → task.signals.Sent signals →
      SyscallServes frame task { frame with rax := answer }
        ⟨{ task.running with machine := m }, signals⟩

/-- `SyscallDispatch`, where the program is returned to.  What `SignalDeliver`
writes upon the program's stack stands there afterwards. -/
inductive SyscallDispatches (frame : SyscallFrame) (task : Task) : SyscallFrame → Task → Prop
  | refused : syscallCount ≤ frame.rax.toNat →
      SyscallDispatches frame task { frame with rax := syscallEnosys } task
  | served {frame' frame'' : SyscallFrame} {task' : Task} (resolves : ℕ → Bool)
      {signals : Signals} {m : Machine} {built : Option BuiltContext} :
      frame.rax.toNat < syscallCount → SyscallServes frame task frame' task' →
      SignalDeliversToSyscallFrame (syscallUserRangeIsWritable task'.running resolves) frame'
        frame.rax task'.signals signals frame'' built →
      (built = none → m = task'.running.machine) →
      (∀ written, built = some written →
        contextAt { task'.running with machine := m } written.base = written.context) →
      SyscallDispatches frame task frame'' ⟨{ task'.running with machine := m }, signals⟩

/-- Both bytes of a `SYSCALL` stand at an address, where the program may reach
them. -/
def Running.fetches (x : Running) (address : ℕ) : Bool :=
  pagingAddressPermits x.machine x.process.space.root address pageEntryUser &&
    pagingAddressPermits x.machine x.process.space.root (address + 1) pageEntryUser &&
    readIn x.process.space x.machine address = 0x0F &&
    readIn x.process.space x.machine (address + 1) = 0x05

/-- A `SYSCALL` at an address, and the frame that `SYSRET` was reached with. -/
structure SyscallReturn where
  address : ℕ
  frame : SyscallFrame

/-- The runs of a program from the image it is made of, with the calls that
were returned from, the last first.  Between its calls the program and the rest
of the kernel write memory, and signals are sent and taken. -/
inductive CallRun (image : Bytes) (length : ℕ) : List SyscallReturn → Task → Prop
  | start {x : Running} (signals : Signals) :
      Reaches image length true [] x → x.process.userStackTop = processUserStackTop →
      CallRun image length [] ⟨x, signals.resetForExecute⟩
  | elsewhere {calls : List SyscallReturn} {task : Task} {m : Machine} {signals : Signals} :
      CallRun image length calls task → task.signals.Sent signals →
      CallRun image length calls ⟨{ task.running with machine := m }, signals⟩
  | call {calls : List SyscallReturn} {task task' : Task} {address : ℕ}
      {frame frame' : SyscallFrame} :
      CallRun image length calls task → address + 1 < 2 ^ 64 →
      task.running.fetches address = true → frame.rcx = BitVec.ofNat 64 (address + 2) →
      SyscallDispatches frame task frame' task' →
      CallRun image length (⟨address, frame'⟩ :: calls) task'

def Signals.Bounded (signals : Signals) : Prop :=
  ∀ signal, signalNumberIsValid signal = true → (signals.handlers signal).toNat < syscallUserLimit

theorem Signals.Bounded.sent {signals signals' : Signals} (h : signals.Bounded)
    (hsent : signals.Sent signals') : signals'.Bounded := by
  intro signal hvalid
  rw [hsent.1]
  exact h signal hvalid

theorem Signals.bounded_resetForExecute (signals : Signals) : signals.resetForExecute.Bounded := by
  intro signal hvalid
  unfold Signals.resetForExecute
  dsimp only
  split_ifs with hreset
  · decide
  · have hignored : signals.handlers signal = syscallSignalIgnore := by
      by_contra hne
      exact hreset ⟨hvalid, hne⟩
    rw [hignored]
    decide

theorem Signals.Bounded.disposition {signals : Signals} (h : signals.Bounded) (signal : ℕ) :
    (signals.disposition signal).toNat < syscallUserLimit := by
  unfold Signals.disposition
  split_ifs with hvalid
  · exact h signal hvalid
  · decide

theorem Signals.Bounded.setDisposition {signals signals' : Signals} {signal : ℕ}
    {disposition restorer previous : Word} (h : signals.Bounded)
    (hdisposition : disposition.toNat < syscallUserLimit)
    (hset : signals.setDisposition signal disposition restorer = some (previous, signals')) :
    signals'.Bounded := by
  unfold Signals.setDisposition at hset
  split_ifs at hset <;>
  · cases hset
    intro other hvalid
    dsimp only
    rw [Function.update_apply]
    split
    · exact hdisposition
    · exact h other hvalid

theorem lt_of_readable {x : Running} {address : Word} {length : ℕ}
    (h : syscallUserRangeIsReadable x address length = true) :
    address.toNat < syscallUserLimit := by
  unfold syscallUserRangeIsReadable syscallRangeIsWithinUserSpace at h
  by_contra hlimit
  simp [not_lt.mp hlimit] at h

theorem Signals.Bounded.syscallDoSignalAction {task : Task} {signal disposition restorer answer : Word}
    {signals : Signals} (h : task.signals.Bounded)
    (hcall : syscallDoSignalAction task signal disposition restorer = (answer, signals)) :
    signals.Bounded := by
  unfold OxysOS.Proc.syscallDoSignalAction at hcall
  split at hcall
  · cases hcall
    exact h
  · rename_i hchecked
    have hdisposition : disposition.toNat < syscallUserLimit := by
      by_cases hdefault : disposition = syscallSignalDefault
      · rw [hdefault]
        decide
      · by_cases hignore : disposition = syscallSignalIgnore
        · rw [hignore]
          decide
        · have hreadable : syscallUserRangeIsReadable task.running disposition 1 = true := by
            by_contra hread
            exact hchecked ⟨hdefault, hignore, Or.inl (Bool.eq_false_iff.mpr hread)⟩
          exact lt_of_readable hreadable
    split at hcall
    · cases hcall
      exact h
    · rename_i pair hset
      cases hcall
      exact h.setDisposition hdisposition hset

/-- What a turn of `SignalDeliver` leaves of the handlers and of where the
program resumes. -/
def SignalTurn.Keeps (signals : Signals) (r : SignalRegisters) : SignalTurn → Prop
  | .left signals' r' _ =>
      signals.Sent signals' ∧ (r'.rip = r.rip ∨ r'.rip.toNat < syscallUserLimit)
  | .again signals' => signals.Sent signals'
  | .stopped signals' => signals.Sent signals'
  | .terminated => True

theorem signalDeliverTurn_keeps {signals : Signals} (h : signals.Bounded)
    (writable : Word → ℕ → Bool) (r : SignalRegisters) :
    (signalDeliverTurn writable signals r).Keeps signals r := by
  have htake := signals.take_sent
  unfold signalDeliverTurn
  generalize signals.take = taken at htake
  obtain ⟨signal, more⟩ := taken
  dsimp only at htake ⊢
  split_ifs
  · exact ⟨htake, Or.inl rfl⟩
  · exact htake
  · cases signalDefaultAction signal with
    | ignore => exact htake
    | resume => exact htake
    | stop => exact htake
    | terminate => trivial
  · cases henter : signalEnterHandler more writable signal (more.disposition signal) r with
    | none => trivial
    | some entered =>
        obtain ⟨r', built⟩ := entered
        refine ⟨htake, Or.inr ?_⟩
        unfold signalEnterHandler at henter
        dsimp only at henter
        split at henter
        · cases henter
        · cases henter
          exact (h.sent htake).disposition signal

theorem SignalDelivers.keeps {writable : Word → ℕ → Bool} {signals signals' : Signals}
    {r r' : SignalRegisters} {built : Option BuiltContext}
    (hdelivers : SignalDelivers writable r signals signals' r' built) (h : signals.Bounded) :
    signals'.Bounded ∧ (r'.rip = r.rip ∨ r'.rip.toNat < syscallUserLimit) := by
  induction hdelivers with
  | left hturn =>
      have hkeeps := signalDeliverTurn_keeps h writable r
      rw [hturn] at hkeeps
      exact ⟨h.sent hkeeps.1, hkeeps.2⟩
  | again hturn _ ih =>
      have hkeeps := signalDeliverTurn_keeps h writable r
      rw [hturn] at hkeeps
      exact ih (h.sent hkeeps)
  | stopped hturn hsent _ _ ih =>
      have hkeeps := signalDeliverTurn_keeps h writable r
      rw [hturn] at hkeeps
      exact ih ((h.sent hkeeps).sent hsent)

theorem signalReturn_rcx (readable : Word → ℕ → Bool) (contextAt : Word → SignalContext)
    (frame : SyscallFrame) :
    (signalReturn readable contextAt frame).2.rcx = frame.rcx ∨
      (signalReturn readable contextAt frame).2.rcx.toNat < syscallUserLimit := by
  unfold signalReturn
  dsimp only
  split_ifs with hreadable hbelow
  · exact Or.inl rfl
  · exact Or.inl rfl
  · exact Or.inr (not_le.mp hbelow)

theorem SyscallServes.keeps {frame frame' : SyscallFrame} {task task' : Task}
    (hserves : SyscallServes frame task frame' task') (h : task.signals.Bounded) :
    task'.signals.Bounded ∧
      (frame'.rcx = frame.rcx ∨
        (frame.rax = syscallSigreturn ∧ frame'.rcx.toNat < syscallUserLimit)) := by
  cases hserves with
  | brk _ _ => exact ⟨h, Or.inl rfl⟩
  | sigaction _ hcall => exact ⟨h.syscallDoSignalAction hcall, Or.inl rfl⟩
  | sigreturn hnumber hcall =>
      constructor
      · split
        · exact h.sent (task.signals.send_sent _)
        · exact h
      · have hrcx := signalReturn_rcx (syscallUserRangeIsReadable task.running)
          (contextAt task.running) frame
        rw [hcall] at hrcx
        exact hrcx.imp id fun hless ↦ ⟨hnumber, hless⟩
  | other _ _ _ _ hsent => exact ⟨h.sent hsent, Or.inl rfl⟩

theorem SyscallDispatches.keeps {frame frame' : SyscallFrame} {task task' : Task}
    (hdispatches : SyscallDispatches frame task frame' task') (h : task.signals.Bounded) :
    task'.signals.Bounded ∧
      (frame'.rcx = frame.rcx ∨ frame'.rcx = frame.rcx - 2 ∨
        frame'.rcx.toNat < syscallUserLimit) := by
  cases hdispatches with
  | refused _ => exact ⟨h, Or.inl rfl⟩
  | served _ hvalid hserves hdelivers _ _ =>
      obtain ⟨hbounded, hserved⟩ := hserves.keeps h
      cases hdelivers with
      | quiet _ =>
          refine ⟨hbounded, hserved.imp id fun hreturned ↦ Or.inr hreturned.2⟩
      | delivered _ hdelivers =>
          obtain ⟨hbounded', hrip⟩ := hdelivers.keeps hbounded
          refine ⟨hbounded', ?_⟩
          unfold signalLeave
          dsimp only
          split_ifs with hrestarted
          · obtain ⟨-, hnumber, hsame⟩ := hrestarted
            rcases hserved with hserved | hreturned
            · right; left
              change _ - 2 = _
              rw [← hserved, ← hsame]
              rfl
            · exact absurd hreturned.1 hnumber
          · rcases hrip with hrip | hrip
            · rcases hserved with hserved | hreturned
              · exact Or.inl (hrip.trans hserved)
              · right; right
                change BitVec.toNat (SignalRegisters.rip _) < _
                rw [hrip]
                exact hreturned.2
            · exact Or.inr (Or.inr hrip)

theorem CallRun.bounded {image : Bytes} {length : ℕ} {calls : List SyscallReturn} {task : Task}
    (hrun : CallRun image length calls task) : task.signals.Bounded := by
  induction hrun with
  | start signals _ _ => exact signals.bounded_resetForExecute
  | elsewhere _ hsent ih => exact ih.sent hsent
  | call _ _ _ _ hdispatches ih => exact (hdispatches.keeps ih).1

/-- In every run whose calls are made below the last two bytes of the user's
half, each returns to an address of the user's half. -/
theorem CallRun.returns_below {image : Bytes} {length : ℕ} {calls : List SyscallReturn}
    {task : Task} (hrun : CallRun image length calls task)
    (hbelow : ∀ call ∈ calls, call.address < syscallUserLimit - 2) :
    ∀ call ∈ calls, call.frame.rcx.toNat < syscallUserLimit := by
  induction hrun with
  | start _ _ _ => exact fun call hcall ↦ by cases hcall
  | elsewhere _ _ ih => exact ih hbelow
  | @call calls task task' address frame frame' hrun haddress _ hnext hdispatches ih =>
      intro call hcall
      rcases List.mem_cons.mp hcall with rfl | hcall
      · have hlimit : syscallUserLimit = 0x800000000000 := rfl
        have hthis : address < syscallUserLimit - 2 := hbelow _ List.mem_cons_self
        have hrcx : frame.rcx.toNat = address + 2 := by
          rw [hnext, BitVec.toNat_ofNat, Nat.mod_eq_of_lt (by omega)]
        rcases (hdispatches.keeps hrun.bounded).2 with heq | heq | hless
        · rw [heq]
          omega
        · rw [heq]
          bv_omega
        · exact hless
      · exact ih (fun other hother ↦ hbelow other (List.mem_cons_of_mem _ hother)) call hcall

/-- An image whose one segment holds the whole of its file, which ends with its
one instruction, `SYSCALL`. -/
def callImage (address : ℕ) : Bytes :=
  [(0, 4, 0x464C457F), (4, 3, 0x010102), (16, 2, 2), (18, 2, 62), (20, 4, 1),
    (24, 8, address + 120), (32, 8, 64), (52, 2, 64), (54, 2, 56), (56, 2, 1), (64, 4, 1),
    (68, 4, 5), (80, 8, address), (96, 8, 122), (104, 8, 122), (120, 2, 0x050F)].foldl
    (fun raw (field : ℕ × ℕ × ℕ) ↦ writeField raw field.1 field.2.1 field.2.2) fun _ ↦ 0

/-- Whether the two bytes of a `SYSCALL` at an address come from an image's file. -/
def hasCall (image : Bytes) (length address : ℕ) : Bool :=
  match elfValidate image length with
  | .ok (_, segments) => segments.any fun segment ↦
      segment.loads && segment.virtualAddress ≤ address && address + 1 < segment.finish &&
        address + 1 - segment.virtualAddress < segment.fileSize &&
        image (segment.fileOffset + (address - segment.virtualAddress)) = 0x0F &&
        image (segment.fileOffset + (address + 1 - segment.virtualAddress)) = 0x05
  | .error _ => false

def loadsWithRoom (image : Bytes) (length : ℕ) (s : Machine) : Bool :=
  match outcome addressSpaceCreate s with
  | (.ok (some space), start) =>
      match outcome (elfLoad space image length) start with
      | (.ok (.ok _), m) => 4 * processUserStackPages ≤ m.frames.freeFrames
      | _ => false
  | _ => false

theorem establishBreak_stack (process : Process) :
    process.establishBreak.userStackTop = process.userStackTop := by
  unfold Process.establishBreak
  split <;> rfl

theorem Sustained.fetched {mapped : ℕ → Prop} {x x' : Running} {address : ℕ}
    (h : Sustained mapped x x') (hhierarchy : Hierarchy x.user x.machine)
    (hroot : x.process.space.root ≠ 0) (haddress : address < 2 ^ 47)
    (hnot : ¬mapped (alignDown address))
    (hown : Private x.user x.machine (frameIndexOf (translateIn x.process.space x.machine address))) :
    readIn x'.process.space x'.machine address = readIn x.process.space x.machine address ∧
      pagingAddressPermits x'.machine x'.process.space.root address pageEntryUser =
        pagingAddressPermits x.machine x.process.space.root address pageEntryUser := by
  have hleaf := h.leaf address haddress hnot
  have hhierarchy' := h.hierarchy
  unfold Running.leaf at hleaf
  unfold Running.user at hleaf hhierarchy' hhierarchy
  rw [h.space] at hleaf hhierarchy' ⊢
  constructor
  · exact readIn_congr hhierarchy hhierarchy' hroot haddress hleaf (h.memory _ hown)
  · rw [permits_user hhierarchy haddress, permits_user hhierarchy' haddress, hleaf]

theorem fetched_stackOf {image : Bytes} {segments : List ElfProgramHeader}
    {segment : ElfProgramHeader} {space : AddressSpace} {start : Machine} {x x' : Running}
    {a : ℕ} (hdescribes : Describes space image segments start x.machine)
    (hspace : x.process.space = space) (hroot : space.root ≠ 0)
    (hhierarchy : Hierarchy x.user x.machine)
    (h : Sustained (PageRange userStackBase processUserStackPages) x x')
    (hsegment : segment ∈ segments) (hloads : segment.loads = true) (hcontains : segment.Contains a)
    (hfile : a - segment.virtualAddress < segment.fileSize)
    (hclear : a < userStackBase ∨ processUserStackTop ≤ a) :
    pagingAddressPermits x'.machine x'.process.space.root a pageEntryUser = true ∧
      readIn x'.process.space x'.machine a =
        image (segment.fileOffset + (a - segment.virtualAddress)) := by
  have hhigh : a < 2 ^ 47 := (hdescribes.lower segment hsegment hloads a hcontains.touches).2
  have hmapped : translateIn space x.machine a ≠ 0 :=
    (hdescribes.mapped a hhigh).mpr ⟨segment, hsegment, hloads, hcontains.touches⟩
  have hoff : ¬PageRange userStackBase processUserStackPages (alignDown a) := by
    rw [mem_stack]
    rintro ⟨-, hlow, hbelow⟩
    have hbase : userStackBase = 0x700000000000 - 16 * 4096 := by decide
    have htop : processUserStackTop = 0x700000000000 := rfl
    unfold alignDown pageSize at hlow hbelow
    omega
  subst hspace
  obtain ⟨hread, hpermits⟩ := h.fetched hhierarchy hroot hhigh hoff (hdescribes.own a hhigh hmapped).1
  rw [hpermits, hread, hdescribes.byte segment hsegment hloads a hcontains, if_pos hfile]
  exact ⟨hdescribes.user a hhigh hmapped, rfl⟩

theorem exists_callRun {image : Bytes} {length address : ℕ} {s : Machine} (hsound : s.frames.Sound)
    (hroom : loadsWithRoom image length s = true) (hcall : hasCall image length address = true)
    (hclear : address + 1 < userStackBase ∨ processUserStackTop ≤ address) :
    ∃ task, CallRun image length [] task ∧ task.running.fetches address = true ∧
      task.signals.pending = 0 := by
  unfold loadsWithRoom at hroom
  rcases addressSpaceCreate_cases hsound with ⟨-, text, heq⟩ | ⟨space, start, heq, hempty, -⟩
  · rw [heq] at hroom
    cases hroom
  rw [heq] at hroom
  dsimp only at hroom
  cases hload : outcome (elfLoad space image length) start with
  | mk answer m =>
      rw [hload] at hroom
      rcases answer with ⟨text⟩ | ⟨⟨result⟩ | ⟨loaded⟩⟩
      · cases hroom
      · cases hroom
      · obtain ⟨header, segments, hvalid, hdescribes⟩ := elfLoad_describes hempty hload
        obtain ⟨-, frame, progress, hloaded⟩ := (elfLoad_run hempty hvalid).answered loaded
          (congrArg Prod.fst hload)
        rw [hload] at hloaded
        unfold hasCall at hcall
        rw [hvalid] at hcall
        obtain ⟨segment, hsegment, hchecks⟩ := List.any_eq_true.mp hcall
        simp only [Bool.and_eq_true, decide_eq_true_eq] at hchecks
        obtain ⟨⟨⟨⟨⟨hloads, hlow⟩, hhigh⟩, hfile⟩, hfirst⟩, hsecond⟩ := hchecks
        have hspace : ((blankProcess space).recordImage loaded).space = space :=
          establishBreak_space _
        have hhierarchy : Hierarchy (Running.user ⟨m, (blankProcess space).recordImage loaded, []⟩) m := by
          unfold Running.user
          rw [hspace]
          exact hloaded.hierarchy
        obtain ⟨x', hmade, htop, hsustained⟩ := processCreateUserStack_made hhierarchy
          (establishBreak_stack _) (of_decide_eq_true hroom)
        have hfetched : ∀ a, segment.Contains a → a - segment.virtualAddress < segment.fileSize →
            a < userStackBase ∨ processUserStackTop ≤ a → _ := fun a ↦
          fetched_stackOf hdescribes hspace hempty.made hhierarchy hsustained hsegment hloads
        obtain ⟨huser, hread⟩ := hfetched address ⟨hlow, by omega⟩ (by omega) (by omega)
        obtain ⟨huser', hread'⟩ := hfetched (address + 1) ⟨by omega, hhigh⟩ hfile (by omega)
        have hreaches := reaches_stackOf hempty hload
        unfold stackOf at hreaches
        rw [hmade] at hreaches
        refine ⟨_, CallRun.start ⟨fun _ ↦ 0, 0, 0, false⟩ hreaches htop, ?_, rfl⟩
        unfold Running.fetches
        rw [huser, huser', hread, hread', hfirst, hsecond]
        rfl

theorem CallRun.ticks {image : Bytes} {length address : ℕ} {calls : List SyscallReturn} {task : Task}
    (hrun : CallRun image length calls task) (haddress : address + 1 < 2 ^ 64)
    (hfetch : task.running.fetches address = true) (hquiet : task.signals.pending = 0) :
    ∃ frame, frame.rcx = BitVec.ofNat 64 (address + 2) ∧
      CallRun image length (⟨address, frame⟩ :: calls) task := by
  have hframe : ∃ frame : SyscallFrame, frame.rax = syscallTicks ∧
      frame.rcx = BitVec.ofNat 64 (address + 2) :=
    ⟨⟨0, 0, 0, 0, 0, 0, 0, 0, 0, 0, 0, 0, BitVec.ofNat 64 (address + 2), 0, syscallTicks, 0⟩, rfl, rfl⟩
  obtain ⟨frame, hrax, hrcx⟩ := hframe
  have hpending : task.signals.isPending = false := by
    unfold Signals.isPending
    rw [hquiet]
    rfl
  have hserves : SyscallServes frame task { frame with rax := 0 } task := by
    apply SyscallServes.other (m := task.running.machine)
    · rw [hrax]
      decide
    · rw [hrax]
      decide
    · rw [hrax]
      decide
    · rw [hrax]
      decide
    · exact ⟨rfl, rfl⟩
  have hdispatches : SyscallDispatches frame task { frame with rax := 0 } task := by
    apply SyscallDispatches.served (fun _ ↦ false) _ hserves
      (SignalDeliversToSyscallFrame.quiet hpending) (fun _ ↦ rfl)
    · intro written hwritten
      cases hwritten
    · rw [hrax]
      decide
  exact ⟨{ frame with rax := 0 }, hrcx, hrun.call haddress hfetch hrcx hdispatches⟩

theorem returns_below_call : ∃ task frame,
    CallRun (callImage 0x400F80) 122 [⟨0x400FF8, frame⟩] task ∧
      frame.rcx.toNat < syscallUserLimit := by
  obtain ⟨machine, hsound, hroom⟩ := exists_bootMachine 345
    (loadsWithRoom (callImage 0x400F80) 122) (by decide +kernel)
  obtain ⟨task, hrun, hfetch, hquiet⟩ := exists_callRun hsound hroom
    (by decide +kernel : hasCall (callImage 0x400F80) 122 0x400FF8 = true) (Or.inl (by decide))
  obtain ⟨frame, -, hcalled⟩ := hrun.ticks (by decide) hfetch hquiet
  refine ⟨task, frame, hcalled, hcalled.returns_below ?_ _ List.mem_cons_self⟩
  intro call hcall
  rw [List.mem_singleton.mp hcall]
  change 0x400FF8 < syscallUserLimit - 2
  decide

/-- An image that ends with the user's half is accepted, and its call returns
to the first address that is not canonical. -/
theorem returns_below_fails : ¬∀ (image : Bytes) (length : ℕ) (calls : List SyscallReturn)
    (task : Task), CallRun image length calls task →
      ∀ call ∈ calls, call.frame.rcx.toNat < syscallUserLimit := by
  intro h
  obtain ⟨machine, hsound, hroom⟩ := exists_bootMachine 345
    (loadsWithRoom (callImage (syscallUserLimit - 122)) 122) (by decide +kernel)
  obtain ⟨task, hrun, hfetch, hquiet⟩ := exists_callRun hsound hroom
    (by decide +kernel :
      hasCall (callImage (syscallUserLimit - 122)) 122 (syscallUserLimit - 2) = true)
    (Or.inr (by decide))
  obtain ⟨frame, hrcx, hcalled⟩ := hrun.ticks (by decide) hfetch hquiet
  have hbelow := h _ _ _ _ hcalled _ List.mem_cons_self
  rw [hrcx] at hbelow
  exact absurd hbelow (by decide)

end OxysOS.Proc
