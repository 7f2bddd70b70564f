import OxysOS.Proc.Process

/-!
# The counts of the break

`ProcessSetBreak` of `kernel/proc/process.c` with what it counts besides the pages of the
process: `ProcessBreakPages`, `ProcessBreakGrowths` and `ProcessBreakShrinks`.  What it
answers and does is what it does where they are not kept.
-/

namespace OxysOS.Proc

open OxysOS.Library OxysOS.Mm OxysOS.Exec Action

structure Accounted where
  running : Running
  breakPages : ℕ
  breakGrowths : ℕ
  breakShrinks : ℕ

abbrev AccountedAction (α : Type) := Action Accounted String α

def onRunning {α : Type} (action : ProcessAction α) : AccountedAction α :=
  ExceptT.mk fun c ↦
    ((outcome action c.running).1, { c with running := (outcome action c.running).2 })

/-- `ProcessMapBreakPage` -/
def accountedMapBreakPage (page : ℕ) : AccountedAction Bool := do
  if ← onRunning (processMapBreakPage page) then
    modify fun c ↦ { c with breakPages := c.breakPages + 1 }
    return true
  else return false

/-- `ProcessUnmapBreakPage` -/
def accountedUnmapBreakPage (page : ℕ) : AccountedAction Unit := do
  let c ← get
  let frame ← onRunning (onMachine (addressSpaceUnmapPage c.running.process.space page))
  if frame = frameAllocationFailed then return
  else
    onRunning (onMachine (frameFree frame))
    onRunning (alterProcess fun process ↦ { process with mappedPages := process.mappedPages - 1 })
    modify fun c ↦ { c with breakPages := c.breakPages - 1 }

def accountedMapBreakPages : ℕ → ℕ → AccountedAction (Option ℕ)
  | 0, _ => return none
  | count + 1, page => do
      if ← accountedMapBreakPage page then accountedMapBreakPages count (page + pageSize)
      else return some page

def accountedUnmapBreakPages : ℕ → ℕ → AccountedAction Unit
  | 0, _ => return
  | count + 1, page => do
      accountedUnmapBreakPage page
      accountedUnmapBreakPages count (page + pageSize)

/-- `ProcessSetBreak` -/
def accountedSetBreak (requested : ℕ) : AccountedAction ℤ := do
  let c ← get
  if c.running.process.breakStart = 0 then return syscallEinval
  else if requested < c.running.process.breakStart then return syscallEinval
  else if processBreakMaximum < requested - c.running.process.breakStart then return syscallEnomem
  else
    let established := alignUp c.running.process.breakCurrent
    let wanted := alignUp requested
    if established < wanted then
      match ← accountedMapBreakPages ((wanted - established) / pageSize) established with
      | some page =>
          accountedUnmapBreakPages ((page - established) / pageSize) established
          return syscallEnomem
      | none =>
          modify fun c ↦ { c with breakGrowths := c.breakGrowths + 1 }
          onRunning (alterProcess fun process ↦ { process with breakCurrent := requested })
          return requested
    else if wanted < established then
      accountedUnmapBreakPages ((established - wanted) / pageSize) wanted
      modify fun c ↦ { c with breakShrinks := c.breakShrinks + 1 }
      onRunning (alterProcess fun process ↦ { process with breakCurrent := requested })
      return requested
    else
      onRunning (alterProcess fun process ↦ { process with breakCurrent := requested })
      return requested

variable {α : Type} {action : AccountedAction α} {action' : ProcessAction α}

theorem outcome_onRunning (action : ProcessAction α) (c : Accounted) :
    outcome (onRunning action) c =
      ((outcome action c.running).1, { c with running := (outcome action c.running).2 }) := rfl

abbrev Follows (action : AccountedAction α) (action' : ProcessAction α) : Prop :=
  Mirrors Accounted.running action action'

theorem Follows.onRunning (action : ProcessAction α) : Follows (onRunning action) action :=
  fun _ ↦ ⟨rfl, rfl⟩

theorem Follows.count {f : Accounted → Accounted} (hf : ∀ c, (f c).running = c.running)
    (h : Follows action action') : Follows (modify f >>= fun _ ↦ action) action' := by
  intro c
  rw [outcome_bind, outcome_modify, ← hf c]
  exact h (f c)

theorem follows_mapBreakPage (page : ℕ) :
    Follows (accountedMapBreakPage page) (processMapBreakPage page) := by
  intro c
  unfold accountedMapBreakPage
  rw [outcome_bind, outcome_onRunning]
  cases (outcome (processMapBreakPage page) c.running) with
  | mk answer x' =>
      cases answer with
      | error text => exact ⟨rfl, rfl⟩
      | ok mapped => cases mapped with
        | false | true => exact ⟨rfl, rfl⟩

theorem follows_unmapBreakPage (page : ℕ) :
    Follows (accountedUnmapBreakPage page) (processUnmapBreakPage page) := by
  apply Mirrors.get
  intro c
  refine (Follows.onRunning _).bind fun frame ↦ Mirrors.ite (Mirrors.pure ()) ?_
  refine (Follows.onRunning _).bind fun _ c' ↦ ?_
  rw [outcome_bind, outcome_onRunning]
  exact ⟨rfl, rfl⟩

theorem follows_mapBreakPages (count page : ℕ) :
    Follows (accountedMapBreakPages count page) (processMapBreakPages count page) := by
  induction count generalizing page with
  | zero => exact Mirrors.pure none
  | succ count ih =>
      refine (follows_mapBreakPage page).bind fun mapped ↦ ?_
      exact Mirrors.ite (ih _) (Mirrors.pure _)

theorem follows_unmapBreakPages (count page : ℕ) :
    Follows (accountedUnmapBreakPages count page) (processUnmapBreakPages count page) := by
  induction count generalizing page with
  | zero => exact Mirrors.pure ()
  | succ count ih => exact (follows_unmapBreakPage page).bind fun _ ↦ ih _

theorem follows_setBreak (requested : ℕ) :
    Follows (accountedSetBreak requested) (processSetBreak requested) := by
  apply Mirrors.get
  intro c
  refine Mirrors.ite (Mirrors.pure _) (Mirrors.ite (Mirrors.pure _) (Mirrors.ite (Mirrors.pure _) ?_))
  have hmoved : Follows
      (onRunning (alterProcess fun process ↦ { process with breakCurrent := requested }) >>=
        fun _ ↦ Pure.pure (requested : ℤ))
      (alterProcess (fun process ↦ { process with breakCurrent := requested }) >>=
        fun _ ↦ Pure.pure (requested : ℤ)) :=
    (Follows.onRunning _).bind fun _ ↦ Mirrors.pure _
  dsimp only
  split
  · refine (follows_mapBreakPages _ _).bind fun found ↦ ?_
    cases found with
    | none => exact Follows.count (fun _ ↦ rfl) hmoved
    | some page => exact (follows_unmapBreakPages _ _).bind fun _ ↦ Mirrors.pure _
  · split
    · exact (follows_unmapBreakPages _ _).bind fun _ ↦ Follows.count (fun _ ↦ rfl) hmoved
    · next hless =>
      have hnone : (alignUp c.running.process.breakCurrent - alignUp requested) / pageSize = 0 := by
        rw [Nat.sub_eq_zero_of_le (not_lt.mp hless), Nat.zero_div]
      rw [hnone]
      exact hmoved

end OxysOS.Proc
