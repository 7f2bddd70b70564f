import OxysOS.Proc.BreakAgrees
import OxysOS.Proc.ProcessRun

/-!
# Runs of a heap

A program asks for breaks and stores bytes in its heap, and elsewhere frames are taken and
given back.  The pages of the heap are kept over every such run, and so is what lies below
every break that it had.
-/

namespace OxysOS.Proc

open OxysOS.Library OxysOS.Mm OxysOS.Exec Action

variable {x x' : Running} {c c' c'' : Accounted} {requested address other q : ℕ} {value : UInt8}

inductive BreakEvent
  | request (requested : ℕ)
  | store (address : ℕ) (value : UInt8)
  | elsewhere

def Running.store (x : Running) (address : ℕ) (value : UInt8) : Running :=
  let bytes := Function.update (x.machine.memory (x.frameAt address)) (address % pageSize) value
  { x with machine := x.machine.writeFrame (x.frameAt address) bytes }

structure Elsewhere (x x' : Running) : Prop where
  process : x'.process = x.process
  hierarchy : Hierarchy x.user x'.machine
  leaf : ∀ q, HeapRegion x.process q → x'.leaf q = x.leaf q
  bystander : ∀ q, HeapOf x.process q → Bystander x.user x'.machine (x.frameAt q)
  memory : ∀ q, HeapOf x.process q → x'.machine.memory (x.frameAt q) = x.machine.memory (x.frameAt q)
  frameCount : x'.machine.frames.frameCount = x.machine.frames.frameCount

inductive BreakStep : BreakEvent → Accounted → Accounted → Prop
  | request {c c' : Accounted} {requested : ℕ} {answer : ℤ}
      (henough : TablesSuffice c.running requested)
      (hcall : outcome (accountedSetBreak requested) c = (.ok answer, c')) :
      BreakStep (.request requested) c c'
  | store {c : Accounted} {address : ℕ} (value : UInt8)
      (hin : HeapOf c.running.process (alignDown address))
      (hwritable : c.running.leaf address &&& pageEntryWritable ≠ 0) :
      BreakStep (.store address value) c { c with running := c.running.store address value }
  | elsewhere {c c' : Accounted} (h : Elsewhere c.running c'.running) : BreakStep .elsewhere c c'

abbrev BreakRun : Accounted → Accounted → Prop :=
  Relation.ReflTransGen fun c c' ↦ ∃ event, BreakStep event c c'

def StepBelow (address : ℕ) (c c' : Accounted) : Prop :=
  ∃ event, BreakStep event c c' ∧ (∀ value, event ≠ .store address value) ∧
    address < c.running.process.breakCurrent ∧ address < c'.running.process.breakCurrent

theorem HeapKept.store (h : HeapKept x) (hin : HeapOf x.process (alignDown address)) :
    HeapKept (x.store address value) ∧
      (∀ other, other < 2 ^ 47 → (x.store address value).leaf other = x.leaf other) ∧
      ∀ other, HeapOf x.process (alignDown other) → other ≠ address →
        (x.store address value).byteAt other = x.byteAt other := by
  have hframe := x.frameAt_alignDown address
  have hbystander := h.holding.bystander _ hin
  rw [hframe] at hbystander
  have hbelow : ∀ other, HeapOf x.process (alignDown other) → other < 2 ^ 47 := by
    intro other hother
    have hhigh := (h.holding.within _ hother).2
    unfold alignDown pageSize at hhigh
    omega
  obtain ⟨hhierarchy, htables, hleaves⟩ := h.holding.hierarchy.elsewhere (x.store address value).machine
    (fun q n hq hn ↦ Machine.memory_writeFrame_of_ne fun heq ↦ hbystander.outside q hq (heq ▸ hn))
    h.holding.hierarchy.used h.holding.hierarchy.sound
  have hleaf : ∀ other, other < 2 ^ 47 → (x.store address value).leaf other = x.leaf other :=
    fun other hother ↦ hleaves.leaf (x.process.space.within_user hother)
  have hsame : ∀ q, HeapOf x.process q → (x.store address value).frameAt q = x.frameAt q :=
    fun q hq ↦ Running.frameAt_congr (hleaf q (h.holding.within q hq).2)
  refine ⟨⟨h.sound, h.unmade, h.below, ?_, fun q hq hnot ↦ ?_, h.counted⟩, hleaf,
    fun other hother hne ↦ ?_⟩
  · refine ⟨h.holding.made, hhierarchy, h.holding.within, fun q hq ↦ ?_, fun q hq ↦ ?_,
      fun q hq ↦ ?_, fun q q' hq hq' heq ↦ ?_⟩
    · rw [hleaf q (h.holding.within q hq).2]
      exact h.holding.present q hq
    · rw [hsame q hq]
      refine ⟨(h.holding.bystander q hq).used, fun p hp hn ↦ ?_⟩
      exact (h.holding.bystander q hq).outside p hp ((htables p hp).symm.trans hn)
    · rw [hsame q hq]
      exact h.holding.frames q hq
    · rw [hsame q hq, hsame q' hq'] at heq
      exact h.holding.apart q q' hq hq' heq
  · rw [hleaf q (hq.lt h)]
    exact h.rest q hq hnot
  · have hplace : (x.store address value).frameAt other = x.frameAt other :=
      Running.frameAt_congr (hleaf other (hbelow other hother))
    unfold Running.byteAt
    rw [hplace]
    change (x.machine.writeFrame _ _).memory _ _ = _
    by_cases hshared : x.frameAt other = x.frameAt address
    · -- within one page the two lie apart
      have hpage : alignDown other = alignDown address := by
        apply h.holding.apart _ _ hother hin
        rw [x.frameAt_alignDown, x.frameAt_alignDown, hshared]
      have hoffset : other % pageSize ≠ address % pageSize := by
        unfold alignDown pageSize at *
        omega
      rw [hshared, Machine.memory_writeFrame_self, Function.update_of_ne hoffset]
    · rw [Machine.memory_writeFrame_of_ne hshared]

theorem HeapKept.elsewhere (h : HeapKept x) (helse : Elsewhere x x') : HeapKept x' := by
  have huser : x'.user = x.user := by
    unfold Running.user
    rw [helse.process]
  have hleaf : ∀ q, HeapOf x.process q → x'.leaf q = x.leaf q :=
    fun q hq ↦ helse.leaf q (hq.region h)
  have hsame : ∀ q, HeapOf x.process q → x'.frameAt q = x.frameAt q :=
    fun q hq ↦ Running.frameAt_congr (hleaf q hq)
  constructor
  · rw [helse.process]
    exact h.sound
  · rw [helse.process]
    exact h.unmade
  · rw [helse.process]
    exact h.below
  · rw [helse.process]
    refine ⟨?_, ?_, h.holding.within, fun q hq ↦ ?_, fun q hq ↦ ?_, fun q hq ↦ ?_,
      fun q q' hq hq' heq ↦ ?_⟩
    · rw [helse.process]
      exact h.holding.made
    · rw [huser]
      exact helse.hierarchy
    · rw [hleaf q hq]
      exact h.holding.present q hq
    · rw [huser, hsame q hq]
      exact helse.bystander q hq
    · rw [hsame q hq, helse.frameCount]
      exact h.holding.frames q hq
    · rw [hsame q hq, hsame q' hq'] at heq
      exact h.holding.apart q q' hq hq' heq
  · rw [helse.process]
    intro q hq hnot
    rw [helse.leaf q hq]
    exact h.rest q hq hnot
  · rw [helse.process]
    exact h.counted

def OthersAlike (process process' : Process) : Prop :=
  process'.mappedPages + heapPages process = process.mappedPages + heapPages process'

theorem HeapKept.step {event : BreakEvent} (h : HeapKept c.running) (hstep : BreakStep event c c') :
    HeapKept c'.running ∧ OthersAlike c.running.process c'.running.process ∧
      c'.running.process.breakStart = c.running.process.breakStart := by
  cases hstep with
  | request henough hcall =>
      obtain ⟨answer, c1, heq, hkept, ⟨-, hgranted⟩ | ⟨-, hrefused⟩⟩ := accountedSetBreak_cases h henough
      · cases hcall.symm.trans heq
        exact ⟨hkept, hgranted.mapped, by rw [hgranted.process]⟩
      · cases hcall.symm.trans heq
        unfold OthersAlike
        rw [hrefused.process]
        exact ⟨hkept, rfl, rfl⟩
  | store value hin _ => exact ⟨(h.store hin).1, rfl, rfl⟩
  | elsewhere helse =>
      unfold OthersAlike
      rw [helse.process]
      exact ⟨h.elsewhere helse, rfl, rfl⟩

theorem heapOf_below {process : Process} (h : BreakSound process)
    (hlow : process.breakStart ≤ address) (hhigh : address < process.breakCurrent) :
    HeapOf process (alignDown address) := by
  obtain ⟨haligned, -, hmost, hsmall⟩ := h
  unfold HeapOf
  unfold alignUp alignDown pageSize processBreakMaximum at *
  omega

theorem HeapKept.byteAt_step (h : HeapKept c.running) (hstep : StepBelow address c c')
    (hlow : c.running.process.breakStart ≤ address) :
    c'.running.byteAt address = c.running.byteAt address := by
  obtain ⟨event, hstep, hnot, hbefore, hafter⟩ := hstep
  obtain ⟨hkept, -, hstart⟩ := h.step hstep
  have hheap := heapOf_below h.sound hlow hbefore
  have hheap' := heapOf_below hkept.sound (hstart ▸ hlow) hafter
  have hhigh : address < 2 ^ 47 := by
    have hpage := (h.holding.within _ hheap).2
    unfold alignDown pageSize at hpage
    omega
  have hframe := c.running.frameAt_alignDown address
  have hbystander := h.holding.bystander _ hheap
  unfold Running.byteAt
  cases hstep with
  | request henough hcall =>
      obtain ⟨answer, c1, heq, -, ⟨-, hgranted⟩ | ⟨-, hrefused⟩⟩ := accountedSetBreak_cases h henough
      · cases hcall.symm.trans heq
        have hleaf := hgranted.leaf address hhigh ⟨fun _ ↦ hheap', fun _ ↦ hheap⟩
        have huntouched := hgranted.untouched _ hbystander fun q hq hlost hsame ↦
          hlost (h.holding.apart q _ hq hheap hsame ▸ hheap')
        rw [Running.frameAt_congr hleaf, ← hframe, huntouched.memory]
      · cases hcall.symm.trans heq
        rw [Running.frameAt_congr (hrefused.leaf address hhigh), ← hframe,
          (hrefused.untouched _ hbystander).memory]
  | store value hin _ =>
      exact (h.store hin).2.2 address hheap fun heq ↦ hnot value (heq ▸ rfl)
  | elsewhere helse =>
      have hleaf := helse.leaf _ (hheap.region h)
      have hsame : c'.running.frameAt address = c.running.frameAt address := by
        rw [← c'.running.frameAt_alignDown, ← hframe]
        exact Running.frameAt_congr hleaf
      rw [hsame, ← hframe, helse.memory _ hheap]

theorem HeapKept.run (h : HeapKept c.running) (hrun : BreakRun c c') :
    HeapKept c'.running ∧ OthersAlike c.running.process c'.running.process := by
  induction hrun with
  | refl => exact ⟨h, rfl⟩
  | tail _ hstep ih =>
      obtain ⟨event, hstep⟩ := hstep
      obtain ⟨hkept, halike, -⟩ := ih.1.step hstep
      have hbefore := ih.2
      unfold OthersAlike at *
      exact ⟨hkept, by omega⟩

theorem HeapKept.byteAt_run (h : HeapKept c.running) (hlow : c.running.process.breakStart ≤ address)
    (hrun : Relation.ReflTransGen (StepBelow address) c c') :
    c'.running.byteAt address = c.running.byteAt address := by
  suffices hall : HeapKept c'.running ∧
      c'.running.process.breakStart = c.running.process.breakStart ∧
      c'.running.byteAt address = c.running.byteAt address from hall.2.2
  induction hrun with
  | refl => exact ⟨h, rfl, rfl⟩
  | tail _ hstep ih =>
      obtain ⟨hkept, hstart, hbyte⟩ := ih
      obtain ⟨event, hthis, -⟩ := id hstep
      obtain ⟨hkept', -, hstart'⟩ := hkept.step hthis
      exact ⟨hkept', hstart'.trans hstart,
        (hkept.byteAt_step hstep (hstart.symm ▸ hlow)).trans hbyte⟩

theorem HeapKept.established (hmade : x.process.space.root ≠ frameAllocationFailed)
    (hhierarchy : Hierarchy x.user x.machine) (haligned : x.process.breakStart % pageSize = 0)
    (hcurrent : x.process.breakCurrent = x.process.breakStart)
    (hbelow : x.process.breakStart + processBreakMaximum ≤ 2 ^ 47)
    (hclear : ∀ q, HeapRegion x.process q → x.leaf q = 0) : HeapKept x := by
  have hup : alignUp x.process.breakStart = x.process.breakStart := by
    unfold alignUp pageSize at *
    omega
  have hnone : ∀ q, ¬HeapOf x.process q := by
    rintro q ⟨-, hlow, hhigh⟩
    rw [hcurrent, hup] at hhigh
    omega
  refine ⟨⟨haligned, by omega, by omega, by omega⟩, fun hzero ↦ hcurrent.trans hzero, hbelow, ?_,
    fun q hq _ ↦ hclear q hq, ?_⟩
  · exact ⟨hmade, hhierarchy, fun q hq ↦ absurd hq (hnone q), fun q hq ↦ absurd hq (hnone q),
      fun q hq ↦ absurd hq (hnone q), fun q hq ↦ absurd hq (hnone q), fun q _ hq ↦ absurd hq (hnone q)⟩
  · unfold heapPages
    rw [hcurrent, hup, Nat.sub_self, Nat.zero_div]
    exact Nat.zero_le _

structure BreakAgrees (c c' : Accounted) : Prop where
  pages : ∀ q, HeapRegion c'.running.process q →
    (c'.running.leaf q &&& pageEntryPresent ≠ 0 ↔ HeapOf c'.running.process q)
  counted : c'.running.process.mappedPages + heapPages c.running.process =
    c.running.process.mappedPages + heapPages c'.running.process
  calls : ∀ requested, TablesSuffice c'.running requested →
    ∃ answer c'', outcome (accountedSetBreak requested) c' = (.ok answer, c'') ∧
      (answer = requested ∧ Granted requested c' c'' ∨
        Refusal c'.running requested answer ∧ Refused c' c'')
  bytes : ∀ address c'', c'.running.process.breakStart ≤ address →
    Relation.ReflTransGen (StepBelow address) c' c'' →
      c''.running.byteAt address = c'.running.byteAt address

theorem break_agrees (h : HeapKept c.running) (hrun : BreakRun c c') : BreakAgrees c c' := by
  obtain ⟨hkept, halike⟩ := h.run hrun
  refine ⟨fun q ↦ hkept.present_iff, halike, fun requested henough ↦ ?_,
    fun address c'' hlow ↦ hkept.byteAt_run hlow⟩
  obtain ⟨answer, c'', heq, -, hcases⟩ := accountedSetBreak_cases hkept henough
  exact ⟨answer, c'', heq, hcases⟩

/-- A process in an empty space whose heap begins at `0x402000`. -/
def heapless (space : AddressSpace) (s : Machine) : Accounted :=
  ⟨⟨s, { blankProcess space with breakStart := 0x402000, breakCurrent := 0x402000 }, []⟩, 0, 0, 0⟩

def hasByte (s : Machine) : Bool :=
  match outcome addressSpaceCreate s with
  | (.ok (some space), t) =>
      let c := heapless space t
      decide (¬c.running.machine.Starves c.running.user (addedPages c.running.process 0x402001)) &&
        match (outcome (accountedSetBreak 0x402001) c).1 with
        | .ok answer => answer == 0x402001
        | .error _ => false
  | _ => false

theorem HeapKept.heapless {space : AddressSpace} {s : Machine} (h : EmptySpace space s) :
    HeapKept (heapless space s).running := by
  have haligned : 0x402000 % pageSize = 0 := by decide
  have hbelow : 0x402000 + processBreakMaximum ≤ 2 ^ 47 := by decide
  refine HeapKept.established h.made h.hierarchy haligned rfl hbelow fun q hq ↦ ?_
  apply h.empty q
  have hhigh : q < 0x402000 + 0x1000000 := hq.2.2.2
  exact space.within_user (by omega)

theorem break_agrees_byte : ∃ c c', c'.running.process.breakCurrent = 0x402001 ∧ BreakAgrees c c' := by
  obtain ⟨machine, hsound, hhas⟩ := exists_bootMachine 280 hasByte (by decide +kernel)
  unfold hasByte at hhas
  rcases addressSpaceCreate_cases hsound with ⟨-, text, heq⟩ | ⟨space, s, heq, hempty, -⟩
  · rw [heq] at hhas
    cases hhas
  · rw [heq] at hhas
    dsimp only at hhas
    rw [Bool.and_eq_true, decide_eq_true_eq] at hhas
    obtain ⟨henough, hanswer⟩ := hhas
    have hkept := HeapKept.heapless hempty
    have hsuffice : TablesSuffice (heapless space s).running 0x402001 := fun _ ↦ henough
    obtain ⟨answer, c', heq', -, ⟨-, hgranted⟩ | ⟨hrefusal, -⟩⟩ :=
      accountedSetBreak_cases hkept hsuffice
    · refine ⟨heapless space s, c', by rw [hgranted.process], break_agrees hkept ?_⟩
      exact Relation.ReflTransGen.single ⟨_, BreakStep.request hsuffice heq'⟩
    · rw [heq'] at hanswer
      have hnot : answer ≠ 0x402001 := by
        rcases hrefusal with ⟨-, rfl⟩ | ⟨-, rfl⟩
        · decide
        · decide
      exact absurd (by simpa using hanswer) hnot

end OxysOS.Proc
