import OxysOS.Proc.JobControl

/-!
# A continue continues, unless it is ignored

`SignalSend` does to a process's signals what `Signals.send` says, and wakes some
of its threads.  From the two, an invariant of every run says where the thread of
a stopped process stands, and so that whatever continues it also makes it run.
-/

namespace OxysOS.Proc

/-! ## The pending set -/

/-- `SIGCONT` and a stop signal are not both in the set. -/
def Exclusive (pending : BitVec 32) : Prop :=
  pending &&& signalBit syscallSigcont = 0 ∨ pending &&& signalStopMask = 0

theorem and_not_and (x mask : BitVec 32) : x &&& ~~~mask &&& mask = 0 := by
  rw [BitVec.and_assoc, BitVec.and_comm (~~~mask), BitVec.and_not_self]
  simp

theorem or_and_eq_zero {x y mask : BitVec 32} (hx : x &&& mask = 0) (hy : y &&& mask = 0) :
    (x ||| y) &&& mask = 0 := by
  simp [BitVec.and_or_distrib_right, hx, hy]

theorem not_and_or_and {x y mask : BitVec 32} (h : y &&& mask = 0) :
    (x &&& ~~~mask ||| y) &&& mask = 0 :=
  or_and_eq_zero (and_not_and x mask) h

theorem Exclusive.and {pending : BitVec 32} (h : Exclusive pending) (mask : BitVec 32) :
    Exclusive (pending &&& mask) := by
  unfold Exclusive at h ⊢
  rw [BitVec.and_assoc, BitVec.and_comm mask, ← BitVec.and_assoc, BitVec.and_assoc pending mask,
    BitVec.and_comm mask, ← BitVec.and_assoc pending]
  rcases h with h | h
  · left
    simp [h]
  · right
    simp [h]

theorem signalBit_and_stopMask {signal : ℕ} (hvalid : signalNumberIsValid signal = true)
    (hstop : signalIsStop signal = false) : signalBit signal &&& signalStopMask = 0 := by
  have hsmall : signal < 32 := by
    simp only [signalNumberIsValid, Bool.and_eq_true, decide_eq_true_eq] at hvalid
    exact Nat.lt_succ_of_le hvalid.2
  revert hstop
  clear hvalid
  decide +revert

theorem signalBit_and_sigcont {signal : ℕ} (hvalid : signalNumberIsValid signal = true)
    (hcont : signal ≠ syscallSigcont) : signalBit signal &&& signalBit syscallSigcont = 0 := by
  have hsmall : signal < 32 := by
    simp only [signalNumberIsValid, Bool.and_eq_true, decide_eq_true_eq] at hvalid
    exact Nat.lt_succ_of_le hvalid.2
  revert hcont
  clear hvalid
  decide +revert

namespace Signals

variable (signals : Signals) (signal : ℕ)

theorem send_exclusive (h : Exclusive signals.pending) :
    Exclusive (signals.send signal).2.pending := by
  unfold send
  by_cases hzero : signal = 0
  · simpa [hzero] using h
  cases hvalid : signalNumberIsValid signal with
  | false => simpa [hzero] using h
  | true =>
      dsimp only
      split_ifs with _ _ _ hcont _ hstop
      · exact h
      · exact h
      · exact h
      · exact Or.inr (and_not_and _ _)
      · subst hcont
        exact Or.inr (not_and_or_and (by decide))
      · exact Or.inl (not_and_or_and (signalBit_and_sigcont hvalid hcont))
      · rcases h with h | h
        · exact Or.inl (or_and_eq_zero h (signalBit_and_sigcont hvalid hcont))
        · exact Or.inr (or_and_eq_zero h (signalBit_and_stopMask hvalid (by simpa using hstop)))

end Signals

namespace JobControl

/-! ## What a change of one table leaves of the other -/

namespace System

variable (s : System) (p q t : ℕ) (channel : Channel) (f : Process → Process)
  (g : Thread Channel → Thread Channel) (thread : Option ℕ)

@[simp] theorem processes_edit_self : (s.edit p f).processes p = f (s.processes p) :=
  Function.update_self _ _ _

theorem processes_edit_of_ne (h : q ≠ p) : (s.edit p f).processes q = s.processes q :=
  Function.update_of_ne h _ _

@[simp] theorem threads_edit : (s.edit p f).threads = s.threads := rfl

@[simp] theorem online_edit : (s.edit p f).online = s.online := rfl

@[simp] theorem slots_edit : (s.edit p f).slots = s.slots := rfl

@[simp] theorem processes_wake : (s.wake channel).processes = s.processes := rfl

@[simp] theorem online_wake : (s.wake channel).online = s.online := rfl

@[simp] theorem slots_wake : (s.wake channel).slots = s.slots := rfl

@[simp] theorem processes_editThread : (s.editThread t g).processes = s.processes := rfl

@[simp] theorem online_editThread : (s.editThread t g).online = s.online := rfl

@[simp] theorem slots_editThread : (s.editThread t g).slots = s.slots := rfl

@[simp] theorem threads_editThread_self : (s.editThread t g).threads t = g (s.threads t) :=
  Function.update_self _ _ _

theorem threads_editThread_of_ne (h : q ≠ t) : (s.editThread t g).threads q = s.threads q :=
  Function.update_of_ne h _ _

@[simp] theorem processes_wakeThread : (s.wakeThread thread).processes = s.processes := by
  cases thread <;> rfl

@[simp] theorem online_wakeThread : (s.wakeThread thread).online = s.online := by
  cases thread <;> rfl

@[simp] theorem slots_wakeThread : (s.wakeThread thread).slots = s.slots := by
  cases thread <;> rfl

end System

/-! ## What sending does to the process -/

/-- What `SignalContinue` makes of a process. -/
def Process.continued (process : Process) : Process :=
  if process.used = false ∨ process.state ≠ .stopped then process
  else { process with state := .ready, stopSignal := 0, stopReported := false }

def Process.pend (process : Process) (change : BitVec 32 → BitVec 32) : Process :=
  { process with pending := change process.pending }

section Process

variable (process : Process) (change : BitVec 32 → BitVec 32)

theorem Process.continued_of_not_stopped (h : process.state ≠ .stopped) :
    process.continued = process := if_pos (Or.inr h)

@[simp] theorem Process.continued_pend :
    (process.pend change).continued = process.continued.pend change := by
  unfold continued pend
  split_ifs <;> rfl

@[simp] theorem Process.used_continued : process.continued.used = process.used := by
  unfold continued
  split_ifs <;> rfl

@[simp] theorem Process.thread_continued : process.continued.thread = process.thread := by
  unfold continued
  split_ifs <;> rfl

@[simp] theorem Process.handlers_continued : process.continued.handlers = process.handlers := by
  unfold continued
  split_ifs <;> rfl

@[simp] theorem Process.pending_continued : process.continued.pending = process.pending := by
  unfold continued
  split_ifs <;> rfl

theorem Process.state_continued (h : process.used = true) : process.continued.state ≠ .stopped := by
  unfold continued
  split_ifs with hstopped
  · simpa [h] using hstopped
  · simp

@[simp] theorem Process.pend_pending :
    (process.pend change).pending = change process.pending := rfl

@[simp] theorem Process.pend_state : (process.pend change).state = process.state := rfl

@[simp] theorem Process.pend_used : (process.pend change).used = process.used := rfl

@[simp] theorem Process.pend_thread : (process.pend change).thread = process.thread := rfl

@[simp] theorem Process.pend_handlers : (process.pend change).handlers = process.handlers := rfl

theorem Process.signals_continued (h : process.used = true) :
    process.continued.signals = { process.signals with stopped := false } := by
  unfold continued Process.signals
  split_ifs with hstopped
  · simpa [h] using hstopped
  · simp

theorem signals_pend :
    (process.pend change).signals =
      { process.signals with pending := change process.signals.pending } := rfl

end Process

namespace System

variable (s : System) (p q : ℕ) (change : BitVec 32 → BitVec 32) (signal : ℕ)

@[simp] theorem processes_setPending_self :
    (s.setPending p change).processes p = (s.processes p).pend change :=
  s.processes_edit_self p _

theorem processes_setPending_of_ne (h : q ≠ p) :
    (s.setPending p change).processes q = s.processes q :=
  s.processes_edit_of_ne p q _ h

@[simp] theorem threads_setPending : (s.setPending p change).threads = s.threads := rfl

@[simp] theorem processes_signalContinue_self :
    (s.signalContinue p).processes p = (s.processes p).continued := by
  unfold signalContinue Process.continued
  split_ifs <;> simp

theorem processes_signalContinue_of_ne (h : q ≠ p) :
    (s.signalContinue p).processes q = s.processes q := by
  unfold signalContinue
  split_ifs
  · rfl
  · simp [processes_edit_of_ne _ _ _ _ h]

theorem processes_signalRaise_self :
    (s.signalRaise p signal).processes p =
      if signal = syscallSigkill then (s.processes p).continued.pend (· ||| signalBit signal)
      else (s.processes p).pend (· ||| signalBit signal) := by
  unfold signalRaise
  by_cases hstopped : (s.processes p).state = .stopped
  · by_cases hkill : signal = syscallSigkill <;> simp [hstopped, hkill]
  · simp [hstopped, Process.continued_of_not_stopped]

theorem processes_signalRaise_of_ne (h : q ≠ p) :
    (s.signalRaise p signal).processes q = s.processes q := by
  unfold signalRaise
  dsimp only
  split_ifs <;>
    simp [processes_signalContinue_of_ne _ _ _ h, processes_setPending_of_ne _ _ _ _ h]

theorem processes_signalSendContinue_self :
    (s.signalSendContinue p).processes p =
      if (s.processes p).handlers syscallSigcont = syscallSignalDefault then
        (s.processes p).continued.pend (· &&& ~~~signalStopMask)
      else
        (s.processes p).continued.pend
          fun pending ↦ pending &&& ~~~signalStopMask ||| signalBit syscallSigcont := by
  have hkill : syscallSigcont ≠ syscallSigkill := by decide
  unfold signalSendContinue
  by_cases hdefault : (s.processes p).handlers syscallSigcont = syscallSignalDefault <;>
    by_cases hstopped : (s.processes p).state = .stopped
  · simp [hdefault, hstopped]
  · simp [hdefault, hstopped, Process.continued_of_not_stopped]
  · simp [hdefault, hstopped]
    rfl
  · simp [hdefault, hstopped, Process.continued_of_not_stopped, processes_signalRaise_self, hkill]
    rfl

theorem processes_signalSendContinue_of_ne (h : q ≠ p) :
    (s.signalSendContinue p).processes q = s.processes q := by
  unfold signalSendContinue
  dsimp only
  split_ifs <;>
    simp [processes_signalContinue_of_ne _ _ _ h, processes_setPending_of_ne _ _ _ _ h,
      processes_signalRaise_of_ne _ _ _ _ h]

theorem processes_signalSend_of_ne (h : q ≠ p) :
    (s.signalSend (some p) signal).2.processes q = s.processes q := by
  unfold signalSend
  dsimp only
  split_ifs <;>
    simp [processes_signalSendContinue_of_ne _ _ _ h, processes_setPending_of_ne _ _ _ _ h,
      processes_signalRaise_of_ne _ _ _ _ h]

end System

section Signals

variable {s : System} {p q : ℕ}

theorem signals_signalSend (signal : ℕ) (hlive : (s.processes p).Live) :
    (s.signalSend (some p) signal).1 = ((s.processes p).signals.send signal).1 ∧
      ((s.signalSend (some p) signal).2.processes p).signals =
        ((s.processes p).signals.send signal).2 := by
  have hsignals := Process.signals_continued _ hlive.1
  unfold System.signalSend Signals.send
  dsimp only
  rw [if_neg (not_not.mpr hlive)]
  by_cases hzero : signal = 0
  · simp [hzero]
  cases hvalid : signalNumberIsValid signal with
  | false => simp [hzero]
  | true =>
      by_cases hignored : (s.processes p).handlers signal = syscallSignalIgnore
      · simp [hzero, hignored, Process.signals]
      by_cases hdiscarded : (s.processes p).handlers signal = syscallSignalDefault ∧
          signalDefaultAction signal = .ignore
      · simp [hzero, hdiscarded, Process.signals]
      have hdiscarded' : ¬ ((s.processes p).signals.handlers signal = syscallSignalDefault ∧
          signalDefaultAction signal = .ignore) := hdiscarded
      have hignored' : ¬ (s.processes p).signals.handlers signal = syscallSignalIgnore := hignored
      simp only [hzero, hignored, hdiscarded, hignored', hdiscarded', if_false, reduceCtorEq]
      by_cases hcont : signal = syscallSigcont
      · subst hcont
        by_cases hdefault : (s.processes p).handlers syscallSigcont = syscallSignalDefault
        · have hdefault' : (s.processes p).signals.handlers syscallSigcont = syscallSignalDefault :=
            hdefault
          simp only [if_true, s.processes_signalSendContinue_self, hdefault, hdefault',
            signals_pend, hsignals]
          trivial
        · have hdefault' : ¬ (s.processes p).signals.handlers syscallSigcont =
            syscallSignalDefault := hdefault
          simp only [if_true, s.processes_signalSendContinue_self, hdefault, hdefault', if_false,
            signals_pend, hsignals]
          trivial
      · by_cases hkill : signal = syscallSigkill
        · subst hkill
          simp [hcont, show signalIsStop syscallSigkill = false by decide,
            System.processes_signalRaise_self, signals_pend, hsignals]
        · cases hstop : signalIsStop signal <;>
            simp [hcont, hkill, System.processes_signalRaise_self, signals_pend]

end Signals

/-! ## A group -/

/-- A live process of a group. -/
def Process.Of (process : Process) (group : ℕ) : Prop :=
  group ≠ 0 ∧ process.Live ∧ process.group = group

instance decidableOf (process : Process) (group : ℕ) : Decidable (process.Of group) :=
  inferInstanceAs (Decidable (_ ∧ _ ∧ _))

/-- So many processes were reached, each of the slots that is of the group by the signal, and
no other process altered. -/
structure Reached (group signal : ℕ) (slots : List ℕ) (s : System) (r : ℕ × System) : Prop where
  count : r.1 = slots.countP fun p ↦
    (s.processes p).Of group ∧ ((s.processes p).signals.send signal).1
  signals : ∀ p ∈ slots, (s.processes p).Of group →
    (r.2.processes p).signals = ((s.processes p).signals.send signal).2
  others : ∀ p, (p ∈ slots → ¬(s.processes p).Of group) → r.2.processes p = s.processes p

theorem reached_groupFrom {group signal : ℕ} {slots : List ℕ} (h : slots.Nodup) (hgroup : group ≠ 0)
    (s : System) : Reached group signal slots s (System.signalSendGroupFrom group signal slots s) := by
  induction slots generalizing s with
  | nil => exact ⟨rfl, by simp, fun _ _ ↦ rfl⟩
  | cons p slots ih =>
      obtain ⟨hp, hslots⟩ := List.nodup_cons.mp h
      unfold System.signalSendGroupFrom
      by_cases hof : (s.processes p).Of group
      · obtain ⟨hcount, hsignals, hothers⟩ := ih hslots (s.signalSend (some p) signal).2
        have hother : ∀ q, q ≠ p → (s.signalSend (some p) signal).2.processes q = s.processes q :=
          fun q hq ↦ s.processes_signalSend_of_ne p q signal hq
        have hsame : ∀ q ∈ slots, (s.signalSend (some p) signal).2.processes q = s.processes q :=
          fun q hq ↦ hother q fun heq ↦ hp (heq ▸ hq)
        obtain ⟨hsent, hraised⟩ := signals_signalSend signal hof.2.1
        rw [if_neg (by simp [hof.2.1.1, hof.2.2, hof.2.1.2.1])]
        refine ⟨?_, fun q hq hqof ↦ ?_, fun q hq ↦ ?_⟩
        · rw [List.countP_cons, ← hsent]
          refine congrArg₂ (· + ·) (hcount.trans (List.countP_congr fun q hq ↦ ?_)) ?_
          · rw [hsame q hq]
          · cases (s.signalSend (some p) signal).1 <;> simp [hof]
        · rcases List.mem_cons.mp hq with rfl | hmem
          · exact (congrArg _ (hothers q fun hmem ↦ absurd hmem hp)).trans hraised
          · rw [← hsame q hmem] at hqof ⊢
            exact hsignals q hmem hqof
        · have hne : q ≠ p := fun heq ↦ hq (heq ▸ List.mem_cons_self) (heq ▸ hof)
          rw [← hother q hne]
          refine hothers q fun hmem ↦ ?_
          rw [hother q hne]
          exact hq (List.mem_cons_of_mem _ hmem)
      · have hrest : Reached group signal (p :: slots) s
            (System.signalSendGroupFrom group signal slots s) := by
          obtain ⟨hcount, hsignals, hothers⟩ := ih hslots s
          refine ⟨?_, fun q hq hqof ↦ ?_, fun q hq ↦ hothers q fun hmem ↦ hq (.tail _ hmem)⟩
          · rw [List.countP_cons, if_neg (by simp [hof])]
            exact hcount
          · rcases List.mem_cons.mp hq with rfl | hmem
            · exact absurd hqof hof
            · exact hsignals q hmem hqof
        split_ifs with hskip
        · exact hrest
        · have hdead : ¬(s.processes p).Live := fun hlive ↦ hof ⟨hgroup, hlive, by tauto⟩
          have hnone : s.signalSend (some p) signal = (false, s) := if_pos hdead
          rw [hnone]
          exact hrest

/-- `SignalSendGroup` sends to each live process of the group, and to no other. -/
theorem signalSendGroup_reached (s : System) (group signal : ℕ) :
    Reached group signal (List.range s.slots) s (s.signalSendGroup group signal) := by
  unfold System.signalSendGroup
  split_ifs with hgroup
  · have hnone : ∀ p, ¬(s.processes p).Of group := fun p hof ↦ hof.1 hgroup
    exact ⟨by simp [hnone], fun p _ hof ↦ absurd hof (hnone p), fun _ _ ↦ rfl⟩
  · exact reached_groupFrom List.nodup_range hgroup s

/-! ## Steps that stop no process -/

structure Keeps (s s' : System) : Prop where
  online : s'.online = s.online
  slots : s'.slots = s.slots
  used : ∀ p, (s'.processes p).used = (s.processes p).used
  thread : ∀ p, (s'.processes p).thread = (s.processes p).thread
  stopped : ∀ p, (s'.processes p).state = .stopped → (s.processes p).state = .stopped
  unkillable : ∀ p, (s.processes p).handlers syscallSigkill = syscallSignalDefault →
    (s'.processes p).handlers syscallSigkill = syscallSignalDefault
  woken : ∀ t, s'.threads t = s.threads t ∨
    (s.threads t).state = .blocked ∧ s'.threads t = readied (s.threads t)

def Wakeful (s : System) : Prop := ∀ t, Wakeable s.online (s.threads t)

theorem wakeable_readied {online : ℕ} {thread : Thread Channel} (h : Wakeable online thread) :
    Wakeable online (readied thread) := by
  refine ⟨h.placed, ?_⟩
  rintro (hstate | hstate) <;> cases hstate

namespace Keeps

variable {s s' s'' : System}

theorem refl (s : System) : Keeps s s :=
  ⟨rfl, rfl, fun _ ↦ rfl, fun _ ↦ rfl, fun _ h ↦ h, fun _ h ↦ h, fun _ ↦ Or.inl rfl⟩

theorem trans (h : Keeps s s') (h' : Keeps s' s'') : Keeps s s'' where
  online := h'.online.trans h.online
  slots := h'.slots.trans h.slots
  used p := (h'.used p).trans (h.used p)
  thread p := (h'.thread p).trans (h.thread p)
  stopped p hp := h.stopped p (h'.stopped p hp)
  unkillable p hp := h'.unkillable p (h.unkillable p hp)
  woken t := by
    rcases h.woken t with hsame | ⟨hblocked, hready⟩
    · rcases h'.woken t with hsame' | ⟨hblocked', hready'⟩
      · exact Or.inl (hsame'.trans hsame)
      · exact Or.inr ⟨hsame ▸ hblocked', by rw [hready', hsame]⟩
    · rcases h'.woken t with hsame' | ⟨hblocked', -⟩
      · exact Or.inr ⟨hblocked, hsame'.trans hready⟩
      · rw [hready] at hblocked'
        cases hblocked'

theorem wakeful (h : Keeps s s') (hs : Wakeful s) : Wakeful s' := by
  intro t
  rw [h.online]
  rcases h.woken t with hsame | ⟨-, hready⟩
  · rw [hsame]
    exact hs t
  · rw [hready]
    exact wakeable_readied (hs t)

theorem wake (hs : Wakeful s) (channel : Channel) : Keeps s (s.wake channel) := by
  refine ⟨rfl, rfl, fun _ ↦ rfl, fun _ ↦ rfl, fun _ h ↦ h, fun _ h ↦ h, fun t ↦ ?_⟩
  change wakeFrom s.online channel (s.threads t) = _ ∨ _ ∧
    wakeFrom s.online channel (s.threads t) = _
  rw [wakeFrom_eq (hs t)]
  split_ifs with hasleep
  · exact Or.inr ⟨hasleep.1, rfl⟩
  · exact Or.inl rfl

theorem wakeThread (hs : Wakeful s) (thread : Option ℕ) : Keeps s (s.wakeThread thread) := by
  cases thread with
  | none => exact refl s
  | some u =>
      refine ⟨rfl, rfl, fun _ ↦ rfl, fun _ ↦ rfl, fun _ h ↦ h, fun _ h ↦ h, fun t ↦ ?_⟩
      by_cases ht : t = u
      · subst ht
        rw [System.wakeThread, System.threads_editThread_self, schedulerWakeThread_eq (hs t)]
        split_ifs with hasleep
        · exact Or.inr ⟨hasleep.1, rfl⟩
        · exact Or.inl rfl
      · exact Or.inl (s.threads_editThread_of_ne _ _ _ ht)

theorem edit {p : ℕ} {f : Process → Process} (hused : (f (s.processes p)).used = (s.processes p).used)
    (hthread : (f (s.processes p)).thread = (s.processes p).thread)
    (hstopped : (f (s.processes p)).state = .stopped → (s.processes p).state = .stopped)
    (hkill : (s.processes p).handlers syscallSigkill = syscallSignalDefault →
      (f (s.processes p)).handlers syscallSigkill = syscallSignalDefault) :
    Keeps s (s.edit p f) := by
  refine ⟨rfl, rfl, fun q ↦ ?_, fun q ↦ ?_, fun q ↦ ?_, fun q ↦ ?_, fun t ↦ Or.inl rfl⟩ <;>
    by_cases hq : q = p
  all_goals first
    | subst hq
      simpa using by assumption
    | simp [s.processes_edit_of_ne _ _ _ hq]

theorem setPending (p : ℕ) (change : BitVec 32 → BitVec 32) : Keeps s (s.setPending p change) :=
  edit rfl rfl (fun h ↦ h) fun h ↦ h

theorem signalContinue (hs : Wakeful s) (p : ℕ) : Keeps s (s.signalContinue p) := by
  unfold System.signalContinue
  split_ifs
  · exact refl s
  · have hedit : Keeps s (s.edit p fun process ↦
        { process with state := .ready, stopSignal := 0, stopReported := false }) := by
      refine edit rfl rfl (fun h ↦ ?_) fun h ↦ h
      cases h
    exact hedit.trans (wake (hedit.wakeful hs) (.stop p))

theorem signalRaise (hs : Wakeful s) (p signal : ℕ) : Keeps s (s.signalRaise p signal) := by
  have hpend : Keeps s (s.setPending p (· ||| signalBit signal)) := setPending p _
  have hs' := hpend.wakeful hs
  unfold System.signalRaise
  dsimp only
  split_ifs
  · exact hpend.trans (signalContinue hs' p)
  · exact hpend
  · exact hpend.trans (wakeThread hs' _)

theorem signalSendContinue (hs : Wakeful s) (p : ℕ) : Keeps s (s.signalSendContinue p) := by
  have hpend : Keeps s (s.setPending p (· &&& ~~~signalStopMask)) := setPending p _
  have hs' := hpend.wakeful hs
  have hcontinue := hpend.trans (signalContinue hs' p)
  unfold System.signalSendContinue
  dsimp only
  split_ifs
  · exact hcontinue.trans (setPending p _)
  · exact hcontinue
  · exact hpend.trans (signalRaise hs' p _)
  · exact hpend

theorem signalSend (hs : Wakeful s) (process : Option ℕ) (signal : ℕ) :
    Keeps s (s.signalSend process signal).2 := by
  cases process with
  | none => exact refl s
  | some p =>
      have hpend : Keeps s (s.setPending p (· &&& ~~~signalBit syscallSigcont)) := setPending p _
      unfold System.signalSend
      dsimp only
      split_ifs
      · exact refl s
      · exact refl s
      · exact refl s
      · exact refl s
      · exact signalSendContinue hs p
      · exact hpend.trans (signalRaise (hpend.wakeful hs) p signal)
      · exact signalRaise hs p signal
      · exact refl s

theorem signalSendGroupFrom (group signal : ℕ) (slots : List ℕ) (hs : Wakeful s) :
    Keeps s (System.signalSendGroupFrom group signal slots s).2 := by
  induction slots generalizing s with
  | nil => exact refl s
  | cons p rest ih =>
      unfold System.signalSendGroupFrom
      split_ifs
      · exact ih hs
      · have hsend := signalSend hs (some p) signal
        exact hsend.trans (ih (hsend.wakeful hs))

theorem signalSendGroup (hs : Wakeful s) (group signal : ℕ) :
    Keeps s (s.signalSendGroup group signal).2 := by
  unfold System.signalSendGroup
  split_ifs
  · exact refl s
  · exact signalSendGroupFrom group signal _ hs

end Keeps

/-! ## Every pending set is exclusive -/

/-- No process has both `SIGCONT` and a stop signal pending. -/
def AllExclusive (s : System) : Prop := ∀ p, Exclusive (s.processes p).pending

theorem AllExclusive.edit {s : System} (h : AllExclusive s) {p : ℕ} {f : Process → Process}
    (hf : Exclusive (f (s.processes p)).pending) : AllExclusive (s.edit p f) := by
  intro q
  by_cases hq : q = p
  · subst hq
    simpa using hf
  · rw [s.processes_edit_of_ne _ _ _ hq]
    exact h q

theorem AllExclusive.signalSend {s : System} (h : AllExclusive s) (process : Option ℕ)
    (signal : ℕ) : AllExclusive (s.signalSend process signal).2 := by
  cases process with
  | none => exact h
  | some p =>
      intro q
      by_cases hq : q = p
      · subst hq
        by_cases hlive : (s.processes q).Live
        · have hsent := (signals_signalSend signal hlive).2
          have hexclusive := (s.processes q).signals.send_exclusive signal (h q)
          rw [← hsent] at hexclusive
          exact hexclusive
        · simpa [System.signalSend, hlive] using h q
      · rw [s.processes_signalSend_of_ne _ _ _ hq]
        exact h q

theorem AllExclusive.signalSendGroupFrom (group signal : ℕ) (slots : List ℕ) {s : System}
    (h : AllExclusive s) : AllExclusive (System.signalSendGroupFrom group signal slots s).2 := by
  induction slots generalizing s with
  | nil => exact h
  | cons p rest ih =>
      unfold System.signalSendGroupFrom
      split_ifs
      · exact ih h
      · exact ih (h.signalSend (some p) signal)

/-! ## The invariant -/

def Stands (p : ℕ) (thread : Thread Channel) : Prop :=
  thread.state = .ready ∨ thread.state = .running ∨
    thread.state = .blocked ∧ thread.waitChannel = some (.stop p)

structure Sound (s : System) : Prop where
  wakeful : Wakeful s
  placed : ∀ affinity : ℕ, affinity.testBit 0 = true → schedulerPlaces s.online affinity = true
  exclusive : AllExclusive s
  bounded : ∀ p, (s.processes p).used = true → p < s.slots
  unkillable : ∀ p, (s.processes p).handlers syscallSigkill = syscallSignalDefault
  threaded : ∀ p t, (s.processes p).thread = some t → (s.processes p).used = true
  distinct : ∀ p q t, (s.processes p).thread = some t → (s.processes q).thread = some t → p = q
  stopped : ∀ p, (s.processes p).used = true → (s.processes p).state = .stopped →
    ∃ t, (s.processes p).thread = some t ∧ Stands p (s.threads t)

theorem Sound.keeps {s s' : System} (h : Sound s) (hkeeps : Keeps s s')
    (hexclusive : AllExclusive s') : Sound s' where
  wakeful := hkeeps.wakeful h.wakeful
  placed affinity haffinity := by
    rw [hkeeps.online]
    exact h.placed affinity haffinity
  exclusive := hexclusive
  bounded p hp := by
    rw [hkeeps.slots]
    exact h.bounded p (hkeeps.used p ▸ hp)
  unkillable p := hkeeps.unkillable p (h.unkillable p)
  threaded p t ht := by
    rw [hkeeps.thread] at ht
    rw [hkeeps.used]
    exact h.threaded p t ht
  distinct p q t hpt hqt := by
    rw [hkeeps.thread] at hpt hqt
    exact h.distinct p q t hpt hqt
  stopped p hp hstopped := by
    rw [hkeeps.used] at hp
    obtain ⟨t, ht, hstands⟩ := h.stopped p hp (hkeeps.stopped p hstopped)
    refine ⟨t, (hkeeps.thread p).trans ht, ?_⟩
    rcases hkeeps.woken t with hsame | ⟨-, hready⟩
    · rwa [hsame]
    · rw [hready]
      exact Or.inl rfl

theorem Sound.editThread {s : System} (h : Sound s) {p t : ℕ}
    {g : Thread Channel → Thread Channel} (ht : (s.processes p).thread = some t) (hwakeable : Wakeable s.online (g (s.threads t)))
    (hstands : (s.processes p).state = .stopped → Stands p (g (s.threads t))) :
    Sound (s.editThread t g) where
  wakeful u := by
    by_cases hu : u = t
    · subst hu
      simpa using hwakeable
    · rw [s.threads_editThread_of_ne _ _ _ hu]
      exact h.wakeful u
  placed := h.placed
  exclusive := h.exclusive
  bounded := h.bounded
  unkillable := h.unkillable
  threaded := h.threaded
  distinct := h.distinct
  stopped q hq hstopped := by
    obtain ⟨u, hu, hstands'⟩ := h.stopped q hq hstopped
    refine ⟨u, hu, ?_⟩
    by_cases hut : u = t
    · subst hut
      obtain rfl := h.distinct q p u hu ht
      rw [s.threads_editThread_self]
      exact hstands hstopped
    · rw [s.threads_editThread_of_ne _ _ _ hut]
      exact hstands'

theorem System.runs_eq {s : System} {p t : ℕ} (h : s.runs p = some t) :
    (s.processes p).thread = some t ∧ (s.threads t).state = .running ∧
      (s.processes p).Live ∧ (s.processes p).state ≠ .stopped := by
  unfold System.runs at h
  rw [Option.filter_eq_some_iff] at h
  simpa using h

theorem Sound.sleepStopped {s : System} (h : Sound s) {p t : ℕ}
    (ht : (s.processes p).thread = some t) (hrunning : (s.threads t).state = .running) :
    Sound (s.sleepStopped p) := by
  unfold System.sleepStopped
  rw [ht]
  dsimp only
  split_ifs with hsleeps
  · refine h.editThread ht ⟨(h.wakeful t).placed, fun _ ↦ ?_⟩ fun _ ↦ Or.inr (Or.inr ⟨rfl, rfl⟩)
    exact (h.wakeful t).unqueued (Or.inr hrunning)
  · exact h

theorem Sound.edit {s : System} (h : Sound s) {p : ℕ} {f : Process → Process}
    (hexclusive : Exclusive (f (s.processes p)).pending)
    (hkill : (f (s.processes p)).handlers syscallSigkill = syscallSignalDefault)
    (hbounded : (f (s.processes p)).used = true → p < s.slots)
    (hthread : ∀ t, (f (s.processes p)).thread = some t → (f (s.processes p)).used = true ∧
      ∀ q, q ≠ p → (s.processes q).thread ≠ some t)
    (hstopped : (f (s.processes p)).used = true → (f (s.processes p)).state = .stopped →
      ∃ t, (f (s.processes p)).thread = some t ∧ Stands p (s.threads t)) :
    Sound (s.edit p f) := by
  have hself : (s.edit p f).processes p = f (s.processes p) := s.processes_edit_self p f
  have hother : ∀ q, q ≠ p → (s.edit p f).processes q = s.processes q :=
    fun q hq ↦ s.processes_edit_of_ne _ _ _ hq
  refine ⟨h.wakeful, h.placed, h.exclusive.edit hexclusive, fun q hq ↦ ?_, fun q ↦ ?_,
    fun q u hu ↦ ?_, fun q r u hq hr ↦ ?_, fun q hq hq' ↦ ?_⟩
  · by_cases hqp : q = p
    · subst hqp
      exact hbounded (hself ▸ hq)
    · exact h.bounded q (hother q hqp ▸ hq)
  · by_cases hqp : q = p
    · subst hqp
      rw [hself]
      exact hkill
    · rw [hother q hqp]
      exact h.unkillable q
  · by_cases hqp : q = p
    · subst hqp
      rw [hself] at hu ⊢
      exact (hthread u hu).1
    · rw [hother q hqp] at hu ⊢
      exact h.threaded q u hu
  · by_cases hqp : q = p <;> by_cases hrp : r = p
    · rw [hqp, hrp]
    · subst hqp
      rw [hself] at hq
      rw [hother r hrp] at hr
      exact absurd hr ((hthread u hq).2 r hrp)
    · subst hrp
      rw [hself] at hr
      rw [hother q hqp] at hq
      exact absurd hq ((hthread u hr).2 q hqp)
    · rw [hother q hqp] at hq
      rw [hother r hrp] at hr
      exact h.distinct q r u hq hr
  · by_cases hqp : q = p
    · subst hqp
      rw [hself] at hq hq' ⊢
      exact hstopped hq hq'
    · rw [hother q hqp] at hq hq' ⊢
      exact h.stopped q hq hq'

theorem Sound.thread_ne {s : System} (h : Sound s) {p t : ℕ}
    (ht : (s.processes p).thread = some t) (q : ℕ) (hq : q ≠ p) :
    (s.processes q).thread ≠ some t :=
  fun hqt ↦ hq (h.distinct q p t hqt ht)

theorem Sound.signalStopCurrent {s : System} (h : Sound s) {p t : ℕ} (signal : ℕ)
    (ht : (s.processes p).thread = some t) (hrunning : (s.threads t).state = .running) :
    Sound (s.signalStopCurrent p signal) := by
  have hused := h.threaded p t ht
  let s₁ := s.edit p fun process ↦
    { process with state := .stopped, stopSignal := signal, stopReported := false }
  have hself : s₁.processes p = { s.processes p with
      state := .stopped, stopSignal := signal, stopReported := false } := s.processes_edit_self p _
  have h₁ : Sound s₁ := by
    refine h.edit (h.exclusive p) (h.unkillable p) (fun _ ↦ h.bounded p hused) (fun u hu ↦ ?_)
      fun _ _ ↦ ⟨t, ht, Or.inr (Or.inl hrunning)⟩
    exact ⟨hused, h.thread_ne hu⟩
  have ht₁ : (s₁.processes p).thread = some t := by
    rw [hself]
    exact ht
  unfold System.signalStopCurrent
  rw [if_neg (by simp [hused])]
  dsimp only
  split
  · exact h₁.sleepStopped ht₁ hrunning
  · rename_i parent hparent
    have hwake := Keeps.wake h₁.wakeful (.process parent)
    have hsend := Keeps.signalSend (hwake.wakeful h₁.wakeful) (some parent) syscallSigchld
    have hkeeps := hwake.trans hsend
    have h₂ := h₁.keeps hkeeps (AllExclusive.signalSend (s := s₁.wake (.process parent))
      h₁.exclusive (some parent) syscallSigchld)
    refine h₂.sleepStopped ((hkeeps.thread p).trans ht₁) ?_
    rcases hkeeps.woken t with hsame | ⟨hblocked, -⟩
    · rw [hsame]
      exact hrunning
    · have hrunning₁ : (s₁.threads t).state = .running := hrunning
      rw [hrunning₁] at hblocked
      cases hblocked

theorem Sound.withSignals {s : System} (h : Sound s) (p : ℕ) (g : Process → Signals)
    (hkill : (g (s.processes p)).handlers syscallSigkill = syscallSignalDefault)
    (hexclusive : Exclusive (g (s.processes p)).pending) :
    Sound (s.edit p fun process ↦ process.withSignals (g process)) := by
  refine h.edit hexclusive hkill (fun hused ↦ h.bounded p hused) (fun t ht ↦ ?_)
    fun hused hstopped ↦ h.stopped p hused hstopped
  exact ⟨h.threaded p t ht, h.thread_ne ht⟩

theorem setDisposition_keeps {signals signals' : Signals} {signal : ℕ}
    {disposition restorer previous : Word} (hexclusive : Exclusive signals.pending)
    (hkill : signals.handlers syscallSigkill = syscallSignalDefault)
    (hset : signals.setDisposition signal disposition restorer = some (previous, signals')) :
    signals'.handlers syscallSigkill = syscallSignalDefault ∧ Exclusive signals'.pending := by
  unfold Signals.setDisposition at hset
  by_cases hvalid : signalNumberIsValid signal = false
  · rw [if_pos hvalid] at hset
    cases hset
  by_cases hwithheld : signal = syscallSigkill ∨ signal = syscallSigstop
  · rw [if_neg hvalid, if_pos hwithheld] at hset
    cases hset
  rw [if_neg hvalid, if_neg hwithheld] at hset
  obtain ⟨-, rfl⟩ := Prod.mk.inj (Option.some.inj hset)
  constructor
  · have hne : syscallSigkill ≠ signal := fun heq ↦ hwithheld (Or.inl heq.symm)
    simpa [Function.update_of_ne hne] using hkill
  · dsimp only
    split_ifs
    · exact hexclusive.and _
    · exact hexclusive

theorem take_exclusive {signals : Signals} (hexclusive : Exclusive signals.pending) :
    Exclusive signals.take.2.pending := by
  unfold Signals.take
  split
  · exact hexclusive
  · exact hexclusive.and _

theorem Sound.create {s : System} (h : Sound s) {p t : ℕ} (hp : p < s.slots) (hfree : s.Free p t)
    (parent : Option ℕ) (id : ℕ) :
    Sound ((s.edit p fun process ↦ process.made id (parent.map s.processes) t).editThread t
      fun _ ↦ admittedThread) := by
  have hkill : (((s.processes p).made id (parent.map s.processes) t).handlers syscallSigkill) =
      syscallSignalDefault := by
    cases parent with
    | none => rfl
    | some q => exact h.unkillable q
  have hnew : ∀ q, (s.processes q).thread ≠ some t := by
    intro q hq
    have hused := h.threaded q t hq
    exact hfree.2 q (h.bounded q hused) hused hq
  have hedit : Sound (s.edit p fun process ↦ process.made id (parent.map s.processes) t) := by
    refine h.edit (Or.inl (by simp [Process.made])) hkill (fun _ ↦ hp) (fun u hu ↦ ?_)
      fun _ hstopped ↦ ?_
    · obtain rfl : t = u := Option.some.inj hu
      exact ⟨rfl, fun q _ ↦ hnew q⟩
    · cases parent <;> cases hstopped
  refine hedit.editThread (p := p) (by simp [Process.made]) ⟨?_, ?_⟩ fun _ ↦ Or.inl rfl
  · exact h.placed _ (by decide)
  · rintro (hstate | hstate) <;> cases hstate

/-! ## Every run -/

theorem Sound.step {s : System} (h : Sound s) (event : Event) : Sound (s.step event) := by
  cases event with
  | send process signal =>
      exact h.keeps (Keeps.signalSend h.wakeful process signal) (h.exclusive.signalSend _ _)
  | sendGroup group signal =>
      refine h.keeps (Keeps.signalSendGroup h.wakeful group signal) ?_
      dsimp only [System.step, System.signalSendGroup]
      split_ifs
      · exact h.exclusive
      · exact h.exclusive.signalSendGroupFrom group signal _
  | setDisposition p signal disposition restorer =>
      dsimp only [System.step]
      split_ifs
      · cases hset : (s.processes p).signals.setDisposition signal disposition restorer with
        | none => exact h
        | some answer =>
            obtain ⟨hkill, hexclusive⟩ :=
              setDisposition_keeps (h.exclusive p) (h.unkillable p) hset
            exact h.withSignals p (fun _ ↦ _) hkill hexclusive
      · exact h
  | resetForExecute p =>
      refine h.withSignals p (fun process ↦ process.signals.resetForExecute) ?_ (h.exclusive p)
      have hkill : (s.processes p).signals.handlers syscallSigkill = syscallSignalDefault :=
        h.unkillable p
      simp [Signals.resetForExecute, hkill]
  | take p =>
      refine h.withSignals p (fun process ↦ process.signals.take.2) ?_ (take_exclusive (h.exclusive p))
      exact (congrFun (s.processes p).signals.take_sent.1 _).trans (h.unkillable p)
  | stopCurrent p signal =>
      dsimp only [System.step]
      split_ifs with hruns
      · obtain ⟨t, ht⟩ := Option.isSome_iff_exists.mp hruns
        obtain ⟨hthread, hrunning, -, -⟩ := System.runs_eq ht
        exact h.signalStopCurrent signal hthread hrunning
      · exact h
  | sleep p address =>
      dsimp only [System.step]
      cases hruns : s.runs p with
      | none => exact h
      | some t =>
          obtain ⟨hthread, hrunning, -, hstopped⟩ := System.runs_eq hruns
          dsimp only
          split_ifs
          · refine h.editThread hthread ⟨(h.wakeful t).placed, fun _ ↦ ?_⟩
              fun h' ↦ absurd h' hstopped
            exact (h.wakeful t).unqueued (Or.inr hrunning)
          · exact h
  | wake channel => exact h.keeps (Keeps.wake h.wakeful channel) h.exclusive
  | wakeThread t => exact h.keeps (Keeps.wakeThread h.wakeful (some t)) h.exclusive
  | dispatch p =>
      dsimp only [System.step]
      cases ht : (s.processes p).thread with
      | none => exact h
      | some t =>
          dsimp only
          split_ifs
          · have hedit : Sound (s.editThread t fun thread ↦
                schedulerAwake (schedulerDispatch thread)) := by
              refine h.editThread ht ⟨(h.wakeful t).placed, fun _ ↦ rfl⟩ fun _ ↦ ?_
              exact Or.inr (Or.inl rfl)
            exact hedit.sleepStopped ht (by simp [schedulerAwake])
          · exact h
  | requeue p =>
      dsimp only [System.step]
      cases hruns : s.runs p with
      | none => exact h
      | some t =>
          obtain ⟨hthread, -, -, hstopped⟩ := System.runs_eq hruns
          refine h.editThread hthread ⟨(h.wakeful t).placed, ?_⟩ fun h' ↦ absurd h' hstopped
          rintro (hstate | hstate) <;> cases hstate
  | create parent p id t =>
      dsimp only [System.step]
      split_ifs with hfree
      · exact h.create hfree.1 hfree.2 parent id
      · exact h
  | exit p =>
      dsimp only [System.step]
      cases hruns : s.runs p with
      | none => exact h
      | some t =>
          obtain ⟨hthread, -, -, -⟩ := System.runs_eq hruns
          have hedit : Sound (s.edit p fun process ↦ { process with state := .exited }) := by
            refine h.edit (h.exclusive p) (h.unkillable p) (fun hused ↦ h.bounded p hused)
              (fun u hu ↦ ⟨h.threaded p u hu, h.thread_ne hu⟩) fun _ hstopped ↦ ?_
            cases hstopped
          refine hedit.editThread (p := p) (by simpa using hthread)
            ⟨(h.wakeful t).placed, ?_⟩ fun hstopped ↦ ?_
          · rintro (hstate | hstate) <;> cases hstate
          · simp at hstopped
  | destroy p =>
      dsimp only [System.step]
      refine h.edit ?_ ?_ (fun hused ↦ ?_) (fun u hu ↦ ?_) fun hused ↦ ?_
      · exact h.exclusive p
      · exact h.unkillable p
      · cases hused
      · cases hu
      · cases hused

theorem Sound.start (slots others : ℕ) : Sound (System.start slots others) := by
  have hplaces : ∀ affinity : ℕ, affinity.testBit 0 = true →
      schedulerPlaces (others + 1) affinity = true := by
    intro affinity haffinity
    simp only [schedulerPlaces, List.any_eq_true, List.mem_range]
    exact ⟨0, Nat.lt_min.mpr ⟨Nat.succ_pos _, by decide⟩, haffinity⟩
  refine ⟨fun t ↦ ⟨hplaces 1 rfl, ?_⟩, hplaces, fun p ↦ Or.inl ?_, fun p hp ↦ ?_, fun p ↦ rfl,
    fun p t ht ↦ ?_, fun p q t ht ↦ ?_, fun p hp ↦ ?_⟩
  · rintro (hstate | hstate) <;> cases hstate
  · simp [System.start]
  · cases hp
  · cases ht
  · cases ht
  · cases hp

theorem Sound.run {s : System} (h : Sound s) (events : List Event) : Sound (s.run events) := by
  induction events generalizing s with
  | nil => exact h
  | cons event rest ih => exact ih (h.step event)

/-! ## Continuing -/

def Runnable (thread : Thread Channel) : Prop :=
  thread.state = .ready ∨ thread.state = .running

theorem Sound.runnable_signalContinue {s : System} (h : Sound s) {p : ℕ}
    (hused : (s.processes p).used = true) (hstopped : (s.processes p).state = .stopped) :
    ∃ t, (s.processes p).thread = some t ∧ Runnable ((s.signalContinue p).threads t) := by
  obtain ⟨t, ht, hstands⟩ := h.stopped p hused hstopped
  refine ⟨t, ht, ?_⟩
  have hthread : (s.signalContinue p).threads t = wakeFrom s.online (.stop p) (s.threads t) := by
    unfold System.signalContinue
    rw [if_neg (by simp [hused, hstopped])]
    rfl
  rw [hthread, wakeFrom_eq (h.wakeful t)]
  rcases hstands with hready | hrunning | ⟨hblocked, hchannel⟩
  · simp [hready, Runnable]
  · simp [hrunning, Runnable]
  · simp [hblocked, hchannel, Runnable, readied]

/-- What is expected of `SIGCONT` and of `SIGKILL` sent to a process, and of the
pending sets when nothing is sent. -/
structure Continues (s : System) (p : ℕ) : Prop where
  continued : (s.processes p).state = .stopped →
    ((s.signalSend (some p) syscallSigcont).2.processes p).state ≠ .stopped ∧
      ∃ t, (s.processes p).thread = some t ∧
        Runnable ((s.signalSend (some p) syscallSigcont).2.threads t)
  discarded : ((s.signalSend (some p) syscallSigcont).2.processes p).pending &&& signalStopMask = 0
  killed : ((s.signalSend (some p) syscallSigkill).2.processes p).pending &&&
      signalBit syscallSigkill ≠ 0 ∧
    ((s.signalSend (some p) syscallSigkill).2.processes p).state ≠ .stopped
  exclusive : ∀ q, (s.processes q).pending &&& signalBit syscallSigcont = 0 ∨
    (s.processes q).pending &&& signalStopMask = 0

section Sent

variable {s : System} {p : ℕ}

theorem signalSend_sigcont (hlive : (s.processes p).Live) :
    (s.signalSend (some p) syscallSigcont).2 =
      if (s.processes p).handlers syscallSigcont = syscallSignalIgnore then s
      else s.signalSendContinue p := by
  have haction : signalDefaultAction syscallSigcont ≠ .ignore := by decide
  have hvalid : signalNumberIsValid syscallSigcont = true := by decide
  have hzero : syscallSigcont ≠ 0 := by decide
  unfold System.signalSend
  simp only [hlive, hzero, hvalid, haction, and_false, if_false, not_true_eq_false, if_true,
    reduceCtorEq]
  split_ifs <;> rfl

theorem signalSend_sigkill (hlive : (s.processes p).Live)
    (hdefault : (s.processes p).handlers syscallSigkill = syscallSignalDefault) :
    (s.signalSend (some p) syscallSigkill).2 = s.signalRaise p syscallSigkill := by
  have haction : signalDefaultAction syscallSigkill ≠ .ignore := by decide
  have hvalid : signalNumberIsValid syscallSigkill = true := by decide
  have hzero : syscallSigkill ≠ 0 := by decide
  have hignored : syscallSignalDefault ≠ syscallSignalIgnore := by decide
  have hcont : syscallSigkill ≠ syscallSigcont := by decide
  have hstop : signalIsStop syscallSigkill = false := by decide
  unfold System.signalSend
  simp [hlive, hzero, hvalid, haction, hdefault, hignored, hcont, hstop]

theorem Sound.signalSendContinue (h : Sound s) (hlive : (s.processes p).Live) :
    ((s.signalSendContinue p).processes p).state ≠ .stopped ∧
      ((s.signalSendContinue p).processes p).pending &&& signalStopMask = 0 ∧
        ((s.processes p).state = .stopped → ∃ t, (s.processes p).thread = some t ∧
          Runnable ((s.signalSendContinue p).threads t)) := by
  have hcontinued := Process.state_continued _ hlive.1
  refine ⟨?_, ?_, fun hstopped ↦ ?_⟩
  · rw [s.processes_signalSendContinue_self]
    split_ifs <;> simpa using hcontinued
  · rw [s.processes_signalSendContinue_self]
    split_ifs
    · exact and_not_and _ _
    · exact not_and_or_and (by decide)
  · have hkeeps : Keeps s (s.setPending p (· &&& ~~~signalStopMask)) := Keeps.setPending p _
    have hs := h.keeps hkeeps (h.exclusive.edit ((h.exclusive p).and _))
    obtain ⟨t, ht, hrunnable⟩ := hs.runnable_signalContinue (p := p) (by simpa using hlive.1)
      (by simpa using hstopped)
    refine ⟨t, by simpa using ht, ?_⟩
    unfold System.signalSendContinue
    simp only [System.processes_setPending_self, Process.pend_state, hstopped, if_true]
    split_ifs <;> exact hrunnable

theorem Sound.signalRaise_sigkill (h : Sound s) (hlive : (s.processes p).Live) :
    ((s.signalSend (some p) syscallSigkill).2.processes p).pending &&&
        signalBit syscallSigkill ≠ 0 ∧
      ((s.signalSend (some p) syscallSigkill).2.processes p).state ≠ .stopped := by
  rw [signalSend_sigkill hlive (h.unkillable p), s.processes_signalRaise_self, if_pos rfl]
  refine ⟨?_, by simpa using Process.state_continued _ hlive.1⟩
  rw [Process.pend_pending, BitVec.and_or_distrib_right, BitVec.and_self]
  intro hzero
  have hbit := (BitVec.or_eq_zero_iff.mp hzero).2
  exact absurd hbit (by decide)

end Sent

/-- At every point of every run, and for every process that a signal can
reach, a continue does what is expected of it exactly when the process does not
ignore `SIGCONT` or has nothing that a continue would undo: it is not stopped and
no stop is pending. -/
theorem continues_iff (slots others : ℕ) (events : List Event) (p : ℕ)
    (hlive : (((System.start slots others).run events).processes p).Live) :
    Continues ((System.start slots others).run events) p ↔
      (((System.start slots others).run events).processes p).handlers syscallSigcont ≠
          syscallSignalIgnore ∨
        (((System.start slots others).run events).processes p).state ≠ .stopped ∧
          (((System.start slots others).run events).processes p).pending &&& signalStopMask = 0 := by
  have h := (Sound.start slots others).run events
  generalize (System.start slots others).run events = s at h hlive ⊢
  have hkilled := h.signalRaise_sigkill hlive
  by_cases hignored : (s.processes p).handlers syscallSigcont = syscallSignalIgnore
  · have hsent : (s.signalSend (some p) syscallSigcont).2 = s := by
      rw [signalSend_sigcont hlive, if_pos hignored]
    constructor
    · intro hcontinues
      refine Or.inr ⟨fun hstopped ↦ ?_, ?_⟩
      · have hnot := (hcontinues.continued hstopped).1
        rw [hsent] at hnot
        exact hnot hstopped
      · have hdiscarded := hcontinues.discarded
        rwa [hsent] at hdiscarded
    · rintro (hheeded | ⟨hstopped, hpending⟩)
      · exact absurd hignored hheeded
      · refine ⟨fun hstopped' ↦ absurd hstopped' hstopped, ?_, hkilled, h.exclusive⟩
        rwa [hsent]
  · have hsent : (s.signalSend (some p) syscallSigcont).2 = s.signalSendContinue p := by
      rw [signalSend_sigcont hlive, if_neg hignored]
    obtain ⟨hstate, hpending, hrunnable⟩ := h.signalSendContinue hlive
    refine ⟨fun _ ↦ Or.inl hignored, fun _ ↦ ⟨fun hstopped ↦ ?_, ?_, hkilled, h.exclusive⟩⟩
    · rw [hsent]
      exact ⟨hstate, hrunnable hstopped⟩
    · rwa [hsent]

/-- One process ignores `SIGCONT`, is stopped, and is sent `SIGCONT`. -/
def ignoringContinue : List Event :=
  [.create none 0 1 0, .dispatch 0, .setDisposition 0 syscallSigcont syscallSignalIgnore 0,
    .stopCurrent 0 syscallSigtstp]

theorem ignoringContinue_live :
    (((System.start 1 0).run ignoringContinue).processes 0).Live := by
  decide

theorem continues_iff_ignoringContinue :
    Continues ((System.start 1 0).run ignoringContinue) 0 ↔
      (((System.start 1 0).run ignoringContinue).processes 0).handlers syscallSigcont ≠
          syscallSignalIgnore ∨
        (((System.start 1 0).run ignoringContinue).processes 0).state ≠ .stopped ∧
          (((System.start 1 0).run ignoringContinue).processes 0).pending &&& signalStopMask = 0 :=
  continues_iff 1 0 ignoringContinue 0 ignoringContinue_live

/-- The process stays stopped. -/
theorem ignoringContinue_stays_stopped :
    (((System.start 1 0).run ignoringContinue).processes 0).Live ∧
      (((System.start 1 0).run ignoringContinue).processes 0).state = .stopped ∧
        ((((System.start 1 0).run ignoringContinue).signalSend (some 0)
          syscallSigcont).2.processes 0).state = .stopped := by
  decide

end JobControl

end OxysOS.Proc
