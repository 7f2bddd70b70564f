import OxysOS.Fs.Vfs.PipeQueue

/-!
# No sleeper of a pipe is forgotten

A thread goes to sleep when what it waits for does not hold.  A thread whose
step makes it hold next wakes every thread asleep upon the pipe.
-/

namespace OxysOS.Fs

open OxysOS.Library OxysOS.Proc

def PipePlace.awaited (pipe : VfsPipe) : PipePlace → Prop
  | .readAsleep _ => 0 < (vfsPipeHeld pipe).toNat ∨ pipe.writers = 0
  | .writeAsleep _ data written =>
      pipe.readers = 0 ∨ vfsPipeNeeded (data.drop written).length ≤ (vfsPipeRoom pipe).toNat
  | _ => False

theorem PipePlace.sleeps_of_idle {place : PipePlace} (h : place.idle) : place.sleeps = false := by
  cases place <;> first | rfl | cases h

theorem PipePlace.wakes_of_idle {place : PipePlace} (h : place.idle) : place.wakes = false := by
  cases place <;> first | rfl | cases h

theorem PipePlace.idle_of_wakes {place : PipePlace} (h : place.wakes) : place.idle = false := by
  cases place <;> first | rfl | cases h

theorem PipePlace.sleeps_of_wakes {place : PipePlace} (h : place.wakes) :
    place.sleeps = false := by
  cases place <;> first | rfl | cases h

theorem VfsPipe.awaited_retired {pipe : VfsPipe} {place : PipePlace}
    (hawaited : place.awaited pipe.retired) : place.awaited pipe := by
  unfold VfsPipe.retired at hawaited
  split at hawaited <;> cases place <;> exact hawaited

namespace PipeSystem

variable {τ : Type} {s s' : PipeSystem τ} {t u : τ} {length write written : ℕ} {data : List UInt8}
  {place : PipePlace} {thread : Thread PipeChannel} {online : ℕ}

structure Settled (online : ℕ) (thread : Thread PipeChannel) (place : PipePlace) : Prop where
  wakeable : Wakeable online thread
  channel : place.sleeps → thread.state = .blocked → thread.waitChannel = some .pipe
  awake : place.idle = false → place.sleeps = false →
    thread.state = .running ∨ thread.state = .ready

def AllSettled (s : PipeSystem τ) : Prop := ∀ t, Settled s.online (s.threads t) (s.places t)

theorem Settled.of_running (hwakeable : Wakeable online thread) (hrunning : thread.state = .running) :
    Settled online thread place := by
  refine ⟨hwakeable, fun _ hblocked ↦ ?_, fun _ _ ↦ Or.inl hrunning⟩
  rw [hrunning] at hblocked
  cases hblocked

theorem Settled.of_ready (hplaced : schedulerPlaces online thread.affinity = true)
    (hready : thread.state = .ready) : Settled online thread place := by
  refine ⟨⟨hplaced, fun hstate ↦ ?_⟩, fun _ hblocked ↦ ?_, fun _ _ ↦ Or.inr hready⟩
  · rw [hready] at hstate
    rcases hstate with hstate | hstate <;> cases hstate
  · rw [hready] at hblocked
    cases hblocked

theorem Settled.wakeFrom (h : Settled online thread place) (channel : PipeChannel) :
    Settled online (Proc.wakeFrom online channel thread) place := by
  rw [wakeFrom_eq h.wakeable]
  split
  · exact Settled.of_ready h.wakeable.placed rfl
  · exact h

theorem Settled.wakeThread (h : Settled online thread place) :
    Settled online (schedulerWakeThread online thread) place := by
  rw [schedulerWakeThread_eq h.wakeable]
  split
  · exact Settled.of_ready h.wakeable.placed rfl
  · exact h

theorem Settled.sleep (hwakeable : Wakeable online thread) (hrunning : thread.state = .running)
    (hsleeps : place.sleeps) : Settled online (schedulerSleep .pipe thread) place := by
  refine ⟨⟨hwakeable.placed, fun _ ↦ ?_⟩, fun _ _ ↦ rfl, fun _ hawake ↦ ?_⟩
  · exact hwakeable.unqueued (Or.inr hrunning)
  · rw [hsleeps] at hawake
    cases hawake

theorem Settled.resume (hwakeable : Wakeable online thread)
    (hstate : thread.state = .blocked ∨ thread.state = .running) :
    Settled online (schedulerAwake thread) place :=
  Settled.of_running ⟨hwakeable.placed, fun _ ↦ hwakeable.unqueued hstate⟩ rfl

theorem Settled.moreOnline (h : Settled online thread place) :
    Settled (online + 1) thread place := by
  refine ⟨⟨?_, h.wakeable.unqueued⟩, h.channel, h.awake⟩
  have hplaced := h.wakeable.placed
  unfold schedulerPlaces at hplaced ⊢
  rw [List.any_eq_true] at hplaced ⊢
  obtain ⟨processor, hmem, hbit⟩ := hplaced
  refine ⟨processor, ?_, hbit⟩
  rw [List.mem_range] at hmem ⊢
  omega

theorem AllSettled.wake (h : s.AllSettled) (channel : PipeChannel) : (s.wake channel).AllSettled :=
  fun t ↦ (h t).wakeFrom channel

theorem AllSettled.unblocked (h : s.AllSettled) (hsleeps : (s.places t).sleeps) :
    ((s.wake .pipe).threads t).state ≠ .blocked := by
  change (wakeFrom s.online .pipe (s.threads t)).state ≠ .blocked
  rw [wakeFrom_eq (h t).wakeable]
  split
  · simp [readied]
  · rename_i hnot
    intro hblocked
    exact hnot ⟨hblocked, (h t).channel hsleeps hblocked⟩

theorem AllSettled.readies (h : s.AllSettled) (hsleeps : (s.places t).sleeps)
    (hblocked : (s.threads t).state = .blocked) :
    ((s.wake .pipe).threads t).state = .ready := by
  change (wakeFrom s.online .pipe (s.threads t)).state = .ready
  rw [wakeFrom_eq (h t).wakeable, if_pos ⟨hblocked, (h t).channel hsleeps hblocked⟩]
  rfl

theorem AllSettled.same (h : s.AllSettled) (honline : s'.online = s.online)
    (hthreads : s'.threads = s.threads) (hplaces : s'.places = s.places) : s'.AllSettled := by
  intro t
  rw [honline, hthreads, hplaces]
  exact h t

variable [DecidableEq τ]

theorem AllSettled.one (h : s.AllSettled) (honline : s'.online = s.online)
    (hthreads : ∀ u, u ≠ t → s'.threads u = s.threads u)
    (hplaces : ∀ u, u ≠ t → s'.places u = s.places u)
    (ht : Settled s.online (s'.threads t) (s'.places t)) : s'.AllSettled := by
  intro u
  rw [honline]
  by_cases hu : u = t
  · rw [hu]
    exact ht
  · rw [hthreads u hu, hplaces u hu]
    exact h u

theorem AllSettled.go (h : s.AllSettled) (hrunning : (s.threads t).state = .running)
    (place : PipePlace) : (s.go t place).AllSettled :=
  h.one rfl (fun _ _ ↦ rfl) (fun _ hu ↦ places_go_ne hu)
    (Settled.of_running (h t).wakeable hrunning)

theorem AllSettled.schedule (h : s.AllSettled) {f : Thread PipeChannel → Thread PipeChannel}
    (ht : Settled s.online (f (s.threads t)) (s.places t)) : (s.schedule t f).AllSettled := by
  refine h.one (t := t) rfl (fun u hu ↦ ?_) (fun _ _ ↦ rfl) ?_
  · exact threads_schedule_ne hu
  · rw [threads_schedule_self]
    exact ht

theorem AllSettled.scheduleGo (h : s.AllSettled) {f : Thread PipeChannel → Thread PipeChannel}
    (ht : Settled s.online (f (s.threads t)) place) : ((s.schedule t f).go t place).AllSettled := by
  refine h.one rfl (fun u hu ↦ ?_) (fun u hu ↦ places_go_ne hu) ?_
  · exact threads_schedule_ne hu
  · rw [places_go_self]
    change Settled s.online ((s.schedule t f).threads t) place
    rw [threads_schedule_self]
    exact ht

theorem AllSettled.advance (h : s.AllSettled) (hrunning : (s.threads t).state = .running) :
    (s.advance t).AllSettled := by
  unfold PipeSystem.advance
  have hwoken : ∀ channel, ((s.wake channel).threads t).state = .running := by
    intro channel
    change (wakeFrom s.online channel (s.threads t)).state = .running
    rw [wakeFrom_eq (h t).wakeable, if_neg (by simp [hrunning])]
    exact hrunning
  split
  case h_1 => exact h
  case h_2 length _ =>
    unfold readTurn
    split
    · exact (h.same rfl rfl rfl).go hrunning _
    · exact h.go hrunning _
    · split
      · exact h.scheduleGo (Settled.sleep (h t).wakeable hrunning rfl)
      · exact h.go hrunning _
  case h_5 write data written _ =>
    unfold writeTurn
    split
    · exact h.go hrunning _
    · split
      · exact h.go hrunning _
      · exact (h.same rfl rfl rfl).go hrunning _
      · split
        · exact h.scheduleGo (Settled.sleep (h t).wakeable hrunning rfl)
        · split <;> exact h.go hrunning _
  case h_3 => exact h.scheduleGo (Settled.resume (h t).wakeable (Or.inr hrunning))
  case h_6 => exact h.scheduleGo (Settled.resume (h t).wakeable (Or.inr hrunning))
  case h_10 => exact ((h.wake _).same rfl rfl rfl).go (hwoken _) _
  case h_11 => exact h
  all_goals exact (h.wake _).go (hwoken _) _

theorem Step.allSettled (hstep : Step s s') (h : s.AllSettled) : s'.AllSettled := by
  cases hstep with
  | read t length hrunning => exact h.go hrunning _
  | write t data hrunning => exact (h.same rfl rfl rfl).go hrunning _
  | close t reads hrunning => exact (h.same rfl rfl rfl).go hrunning _
  | advance t hrunning => exact h.advance hrunning
  | dispatch t hready =>
      exact h.schedule (Settled.of_running ⟨(h t).wakeable.placed, fun _ ↦ rfl⟩ rfl)
  | preempt t hrunning => exact h.schedule (Settled.of_ready (h t).wakeable.placed rfl)
  | atOnce t hsleeps hblocked =>
      exact h.schedule (Settled.resume (h t).wakeable (Or.inl hblocked))
  | signal t => exact (h.same rfl rfl rfl).schedule (h t).wakeThread
  | taken t => exact h.same rfl rfl rfl
  | online => exact fun t ↦ (h t).moreOnline
  | elsewhere t thread hidle hwakeable hchannel =>
      apply h.schedule
      refine ⟨hwakeable, fun hsleeps ↦ ?_, fun hbusy ↦ ?_⟩
      · rw [PipePlace.sleeps_of_idle hidle] at hsleeps
        cases hsleeps
      · rw [hidle] at hbusy
        cases hbusy

omit [DecidableEq τ] in
theorem Created.allSettled (h : Created s) : s.AllSettled := by
  intro t
  have houtside := h.places t
  refine ⟨h.wakeable t, fun hsleeps ↦ ?_, fun hbusy ↦ ?_⟩
  · rw [houtside] at hsleeps
    cases hsleeps
  · rw [houtside] at hbusy
    cases hbusy

def Oversleeps (s : PipeSystem τ) (t : τ) : Prop :=
  (s.places t).sleeps ∧ (s.threads t).state = .blocked ∧ (s.places t).awaited s.pipe

def Watched (s : PipeSystem τ) : Prop :=
  ∀ t, s.Oversleeps t → ∃ u, (s.places u).wakes

omit [DecidableEq τ] in
theorem Watched.mono (h : s.Watched) (hasleep : ∀ t, s'.Oversleeps t → s.Oversleeps t)
    (hwakes : ∀ t, (s.places t).wakes → (s'.places t).wakes) : s'.Watched := by
  intro t ht
  obtain ⟨u, hu⟩ := h t (hasleep t ht)
  exact ⟨u, hwakes u hu⟩

omit [DecidableEq τ] in
theorem Watched.of_wakes (hu : (s.places u).wakes) : s.Watched := fun _ _ ↦ ⟨u, hu⟩

theorem Watched.one (h : s.Watched) (hpipe : ∀ place : PipePlace, place.awaited s'.pipe →
      place.awaited s.pipe)
    (hthreads : ∀ u, u ≠ t → (s'.threads u).state = .blocked → (s.threads u).state = .blocked)
    (hplaces : ∀ u, u ≠ t → s'.places u = s.places u)
    (hquiet : (s.places t).wakes → (s'.places t).wakes)
    (ht : s'.Oversleeps t → s.Oversleeps t) : s'.Watched := by
  apply h.mono
  · intro u hu
    by_cases hut : u = t
    · rw [hut] at hu ⊢
      exact ht hu
    · obtain ⟨hsleeps, hblocked, hawaited⟩ := hu
      rw [hplaces u hut] at hsleeps hawaited
      exact ⟨hsleeps, hthreads u hut hblocked, hpipe _ hawaited⟩
  · intro u hu
    by_cases hut : u = t
    · rw [hut] at hu ⊢
      exact hquiet hu
    · rw [hplaces u hut]
      exact hu

theorem Watched.go (h : s.Watched) (hquiet : (s.places t).wakes = false)
    (hplace : place.sleeps = false) : (s.go t place).Watched := by
  refine h.one (t := t) (fun _ h ↦ h) (fun _ _ h ↦ h) (fun _ hu ↦ places_go_ne hu) ?_ ?_
  · rw [hquiet]
    exact fun h ↦ by cases h
  · rintro ⟨hsleeps, -⟩
    rw [places_go_self, hplace] at hsleeps
    cases hsleeps

theorem Watched.scheduleGo (h : s.Watched) (hquiet : (s.places t).wakes = false) (place : PipePlace)
    (hawaits : place.sleeps → ¬place.awaited s.pipe)
    (f : Thread PipeChannel → Thread PipeChannel) : ((s.schedule t f).go t place).Watched := by
  refine h.one (t := t) (fun _ h ↦ h) (fun u hu hblocked ↦ ?_) (fun _ hu ↦ places_go_ne hu) ?_ ?_
  · rw [← threads_schedule_ne (f := f) hu]
    exact hblocked
  · rw [hquiet]
    exact fun h ↦ by cases h
  · rintro ⟨hsleeps, -, hawaited⟩
    rw [places_go_self] at hsleeps hawaited
    exact absurd hawaited (hawaits hsleeps)

theorem Watched.schedule (h : s.Watched) {f : Thread PipeChannel → Thread PipeChannel}
    (hf : (f (s.threads t)).state = .blocked → (s.places t).sleeps →
      (s.threads t).state = .blocked) : (s.schedule t f).Watched := by
  refine h.one (t := t) (fun _ h ↦ h) (fun u hu hblocked ↦ ?_) (fun _ _ ↦ rfl) (fun h ↦ h) ?_
  · rw [← threads_schedule_ne (f := f) hu]
    exact hblocked
  · intro ⟨hsleeps, hblocked, hawaited⟩
    rw [threads_schedule_self] at hblocked
    exact ⟨hsleeps, hf hblocked hsleeps, hawaited⟩

theorem AllSettled.watchedGo (h : s.AllSettled) (hplace : place.sleeps = false) :
    ((s.wake .pipe).go t place).Watched := by
  rintro u ⟨hsleeps, hblocked, -⟩
  by_cases hut : u = t
  · rw [hut, places_go_self, hplace] at hsleeps
    cases hsleeps
  · rw [places_go_ne hut] at hsleeps
    exact absurd hblocked (h.unblocked hsleeps)

omit [DecidableEq τ] in
theorem Watched.wake (h : s.Watched) (hsettled : s.AllSettled) (channel : PipeChannel) :
    (s.wake channel).Watched := by
  refine h.mono (fun t ⟨hsleeps, hblocked, hawaited⟩ ↦ ⟨hsleeps, ?_, hawaited⟩) (fun _ h ↦ h)
  change (wakeFrom s.online channel (s.threads t)).state = .blocked at hblocked
  rw [wakeFrom_eq (hsettled t).wakeable] at hblocked
  split at hblocked
  · cases hblocked
  · exact hblocked

theorem Watched.readTurn (h : s.Watched) (hplace : s.places t = .reading length) :
    (s.readTurn t length).Watched := by
  have hquiet : (s.places t).wakes = false := by rw [hplace]; rfl
  unfold PipeSystem.readTurn
  cases hsection : vfsPipeReadSection s.pipe length with
  | transferred bytes pipe => exact Watched.of_wakes (u := t) (by rw [places_go_self]; rfl)
  | atEnd => exact h.go hquiet rfl
  | empty =>
      dsimp only
      split
      · exact h.scheduleGo hquiet (.readAsleep length) (fun _ ↦ VfsPipe.Holds.empty hsection) _
      · exact h.go hquiet rfl

theorem Watched.writeTurn (h : s.Watched) (hplace : s.places t = .writing write data written) :
    (s.writeTurn t write data written).Watched := by
  have hquiet : (s.places t).wakes = false := by rw [hplace]; rfl
  unfold PipeSystem.writeTurn
  split
  · exact h.go hquiet rfl
  · cases hsection : vfsPipeWriteSection s.pipe (data.drop written) with
    | broken => exact h.go hquiet rfl
    | put count pipe => exact Watched.of_wakes (u := t) (by rw [places_go_self]; rfl)
    | full =>
        dsimp only
        split
        · exact h.scheduleGo hquiet (.writeAsleep write data written)
            (fun _ ↦ VfsPipe.Holds.full hsection) _
        · split <;> exact h.go hquiet rfl

theorem Watched.advance (h : s.Watched) (hsettled : s.AllSettled) : (s.advance t).Watched := by
  unfold PipeSystem.advance
  split
  case h_1 => exact h
  case h_2 hplace => exact h.readTurn hplace
  case h_3 hplace => exact h.scheduleGo (congrArg PipePlace.wakes hplace) _ (by split <;> exact fun h ↦ nomatch h) _
  case h_5 hplace => exact h.writeTurn hplace
  case h_6 hplace => exact h.scheduleGo (congrArg PipePlace.wakes hplace) _ (by split <;> exact fun h ↦ nomatch h) _
  case h_8 hplace => exact (h.wake hsettled _).go (congrArg PipePlace.wakes hplace) rfl
  case h_10 hplace =>
    refine Watched.go (fun u hu ↦ ?_) (congrArg PipePlace.wakes hplace) rfl
    obtain ⟨hsleeps, hblocked, hawaited⟩ := hu
    exact h.wake hsettled _ u ⟨hsleeps, hblocked, VfsPipe.awaited_retired hawaited⟩
  case h_11 => exact h
  all_goals exact hsettled.watchedGo rfl

theorem Step.watched (hstep : Step s s') (hsettled : s.AllSettled) (h : s.Watched) :
    s'.Watched := by
  cases hstep with
  | read t length hrunning hidle => exact h.go (PipePlace.wakes_of_idle hidle) rfl
  | write t data hrunning hidle =>
      exact Watched.go (h.mono (fun _ h ↦ h) fun _ h ↦ h) (PipePlace.wakes_of_idle hidle) rfl
  | close t reads => exact Watched.of_wakes (u := t) (by rw [places_go_self]; rfl)
  | advance t => exact h.advance hsettled
  | dispatch t => exact h.schedule fun hblocked ↦ by cases hblocked
  | preempt t => exact h.schedule fun hblocked ↦ by cases hblocked
  | atOnce t => exact h.schedule fun hblocked ↦ by cases hblocked
  | signal t =>
      refine Watched.schedule (h.mono (fun _ h ↦ h) fun _ h ↦ h) fun hblocked _ ↦ ?_
      rw [schedulerWakeThread_eq (hsettled t).wakeable] at hblocked
      split at hblocked
      · cases hblocked
      · exact hblocked
  | taken t => exact h.mono (fun _ h ↦ h) fun _ h ↦ h
  | online => exact h.mono (fun _ h ↦ h) fun _ h ↦ h
  | elsewhere t thread hidle =>
      refine h.schedule fun _ hsleeps ↦ ?_
      rw [PipePlace.sleeps_of_idle hidle] at hsleeps
      cases hsleeps

omit [DecidableEq τ] in
theorem Created.watched (h : Created s) : s.Watched := by
  rintro t ⟨hsleeps, -⟩
  rw [h.places t] at hsleeps
  cases hsleeps

/-- A reader about to be told that nothing was read asked for nothing. -/
def Told (s : PipeSystem τ) : Prop :=
  ∀ t length, s.places t = .readWaking length [] → length = 0

theorem Told.go (h : s.Told) (hplace : ∀ length, place = .readWaking length [] → length = 0) :
    (s.go t place).Told := by
  intro u length hu
  by_cases hut : u = t
  · rw [hut, places_go_self] at hu
    exact hplace length hu
  · rw [places_go_ne hut] at hu
    exact h u length hu

theorem Told.readTurn (h : s.Told) (hflows : s.Flows) : (s.readTurn t length).Told := by
  obtain ⟨content, hholds, -⟩ := hflows
  unfold PipeSystem.readTurn
  cases hsection : vfsPipeReadSection s.pipe length with
  | transferred bytes pipe =>
      obtain ⟨rest, -, -, -, hnothing, -⟩ := hholds.transferred hsection
      refine Told.go (fun u length ↦ h u length) fun length' heq ↦ ?_
      cases heq
      exact hnothing rfl
  | atEnd => exact h.go fun _ heq ↦ nomatch heq
  | empty =>
      dsimp only
      split
      · exact Told.go (fun u length ↦ h u length) fun _ heq ↦ nomatch heq
      · exact h.go fun _ heq ↦ nomatch heq

theorem Told.advance (h : s.Told) (hflows : s.Flows) : (s.advance t).Told := by
  unfold PipeSystem.advance
  split
  case h_1 => exact h
  case h_2 => exact h.readTurn hflows
  case h_5 =>
    unfold writeTurn
    split
    · exact h.go fun _ heq ↦ nomatch heq
    · split
      · exact h.go fun _ heq ↦ nomatch heq
      · exact Told.go (fun u length ↦ h u length) fun _ heq ↦ nomatch heq
      · split
        · exact Told.go (fun u length ↦ h u length) fun _ heq ↦ nomatch heq
        · split <;> exact h.go fun _ heq ↦ nomatch heq
  case h_3 =>
    refine Told.go (fun u length ↦ h u length) fun _ heq ↦ ?_
    split at heq <;> cases heq
  case h_6 =>
    refine Told.go (fun u length ↦ h u length) fun _ heq ↦ ?_
    split at heq <;> cases heq
  case h_11 => exact h
  all_goals exact Told.go (fun u length ↦ h u length) fun _ heq ↦ nomatch heq

theorem Step.told (hstep : Step s s') (hflows : s.Flows) (h : s.Told) : s'.Told := by
  cases hstep with
  | read t => exact h.go fun _ heq ↦ nomatch heq
  | write t => exact Told.go (fun u length ↦ h u length) fun _ heq ↦ nomatch heq
  | close t => exact Told.go (fun u length ↦ h u length) fun _ heq ↦ nomatch heq
  | advance t => exact h.advance hflows
  | _ => exact h

structure Sound (s : PipeSystem τ) : Prop where
  flows : s.Flows
  accounted : s.Accounted
  settled : s.AllSettled
  watched : s.Watched
  told : s.Told

theorem Reachable.sound (h : Reachable s) : s.Sound := by
  induction h with
  | created h =>
      refine ⟨h.flows, h.accounted, h.allSettled, h.watched, fun t length ht ↦ ?_⟩
      rw [h.places t] at ht
      cases ht
  | step _ hstep ih =>
      exact ⟨hstep.flows ih.flows, hstep.accounted ih.flows ih.accounted,
        hstep.allSettled ih.settled, hstep.watched ih.settled ih.watched,
        hstep.told ih.flows ih.told⟩

omit [DecidableEq τ] in
theorem Accounted.contiguous (h : s.Accounted) {data : List UInt8}
    (hdata : s.writes[write]? = some data) (hsmall : data.length ≤ vfsPipeBufferSize) :
    s.piecesOf write = [] ∨ s.piecesOf write = [data] ∧
      ∃ before after, s.accepted = before ++ (write, data) :: after ∧
        s.stream = before.flatMap Prod.snd ++ data ++ after.flatMap Prod.snd := by
  rcases h.whole write data hdata hsmall with hnone | hwhole
  · exact Or.inl hnone
  · right
    have hmem : (write, data) ∈ s.accepted := by
      have hpiece : data ∈ s.piecesOf write := by simp [hwhole]
      unfold piecesOf at hpiece
      obtain ⟨⟨name, bytes⟩, hfiltered, rfl⟩ := List.mem_map.mp hpiece
      obtain ⟨haccepted, hname⟩ := List.mem_filter.mp hfiltered
      rw [← of_decide_eq_true hname]
      exact haccepted
    obtain ⟨before, after, haccepted⟩ := List.append_of_mem hmem
    refine ⟨hwhole, before, after, haccepted, ?_⟩
    unfold stream
    rw [haccepted, List.flatMap_append, List.flatMap_cons, List.append_assoc]

theorem Sound.endOfFile (h : s.Sound) (hbusy : (s.places t).idle = false) (hlength : 0 < length)
    (htold : (s.advance t).places t = .returned (.read length [])) :
    vfsPipeHeld s.pipe = 0 ∧ s.pipe.writers = 0 := by
  obtain ⟨content, hholds, -⟩ := h.flows
  unfold PipeSystem.advance at htold
  split at htold
  case h_1 hplace => simp [hplace, PipePlace.idle] at hbusy
  case h_11 hplace => simp [hplace, PipePlace.idle] at hbusy
  case h_2 length' hplace =>
    unfold readTurn at htold
    cases hsection : vfsPipeReadSection s.pipe length' with
    | transferred bytes pipe => simp [hsection] at htold
    | atEnd =>
        obtain ⟨hempty, hwriters⟩ := hholds.atEnd hsection
        refine ⟨?_, hwriters⟩
        have hheld := hholds.held
        rw [hempty] at hheld
        exact UInt64.toNat_inj.mp hheld
    | empty =>
        rw [hsection] at htold
        dsimp only at htold
        split at htold <;> simp at htold
  case h_4 length' bytes hplace =>
    rw [places_go_self] at htold
    cases htold
    have := h.told t length hplace
    omega
  case h_5 =>
    unfold writeTurn at htold
    split at htold
    · simp at htold
    · split at htold
      · simp at htold
      · simp at htold
      · split at htold
        · simp at htold
        · split at htold <;> simp at htold
  case h_3 =>
    rw [places_go_self] at htold
    split at htold <;> cases htold
  case h_6 =>
    rw [places_go_self] at htold
    split at htold <;> cases htold
  all_goals
    rw [places_go_self] at htold
    cases htold

theorem AllSettled.rouses (h : s.AllSettled) (hwakes : (s.places u).wakes)
    (hsleeps : (s.places t).sleeps) (hblocked : (s.threads t).state = .blocked) :
    ((s.advance u).threads t).state = .ready := by
  unfold PipeSystem.advance
  split
  case h_4 => exact h.readies hsleeps hblocked
  case h_7 => exact h.readies hsleeps hblocked
  case h_9 => exact h.readies hsleeps hblocked
  all_goals
    rename_i hplace
    rw [hplace] at hwakes
    cases hwakes

/-- Over every interleaving a pipe is an ordered queue that loses nothing. -/
theorem Reachable.queue (h : Reachable s) :
    s.delivered <+: s.stream ∧
    (∀ write data, s.writes[write]? = some data → (s.piecesOf write).flatten <+: data) ∧
    (∀ write data, s.writes[write]? = some data → data.length ≤ vfsPipeBufferSize →
      s.piecesOf write = [] ∨ s.piecesOf write = [data] ∧
        ∃ before after, s.accepted = before ++ (write, data) :: after ∧
          s.stream = before.flatMap Prod.snd ++ data ++ after.flatMap Prod.snd) ∧
    (vfsPipeHeld s.pipe).toNat ≤ vfsPipeBufferSize ∧
    (∀ t length, (s.places t).idle = false → 0 < length →
      (s.advance t).places t = .returned (.read length []) →
        vfsPipeHeld s.pipe = 0 ∧ s.pipe.writers = 0) ∧
    ∀ t, (s.places t).sleeps → (s.threads t).state = .blocked → (s.places t).awaited s.pipe →
      ∃ u, (s.places u).wakes ∧
        ((s.threads u).state = .running ∨ (s.threads u).state = .ready) ∧
        ((s.advance u).threads t).state = .ready := by
  have hsound := h.sound
  obtain ⟨content, hholds, hstream⟩ := hsound.flows
  refine ⟨⟨content, hstream.symm⟩, hsound.accounted.pieces, ?_, ?_, ?_, ?_⟩
  · exact fun write data hdata hsmall ↦ hsound.accounted.contiguous hdata hsmall
  · rw [hholds.held]
    exact hholds.length_le
  · exact fun t length hbusy hlength htold ↦ hsound.endOfFile hbusy hlength htold
  · intro t hsleeps hblocked hawaited
    obtain ⟨u, hu⟩ := hsound.watched t ⟨hsleeps, hblocked, hawaited⟩
    refine ⟨u, hu, ?_, hsound.settled.rouses hu hsleeps hblocked⟩
    exact (hsound.settled u).awake (PipePlace.idle_of_wakes hu) (PipePlace.sleeps_of_wakes hu)

def newPair : PipeSystem Bool where
  pipe := { VfsPipe.zero with readers := 1, writers := 1, inUse := true }
  online := 1
  threads := fun _ ↦ ⟨.running, false, none, 1, true⟩
  places := fun _ ↦ .outside
  pending := fun _ ↦ false
  writes := []
  accepted := []
  delivered := []

theorem created_newPair : Created newPair := by
  refine ⟨rfl, fun _ ↦ rfl, fun _ ↦ ⟨?_, fun _ ↦ rfl⟩, fun t ↦ ?_, rfl, rfl, rfl⟩
  · change schedulerPlaces 1 1 = true
    decide
  · exact fun h ↦ nomatch h

/-- Three bytes are written and two of them read. -/
theorem queue_newPair : ∃ s : PipeSystem Bool, s.stream = [7, 8, 9] ∧ s.delivered = [7, 8] ∧
    s.delivered <+: s.stream := by
  have hbegun : Reachable _ := (Reachable.created created_newPair).step
    (Step.write false [7, 8, 9] rfl rfl)
  have hwritten := hbegun.step (Step.advance false rfl)
  have hreading := hwritten.step (Step.read true 2 rfl rfl)
  have hread := hreading.step (Step.advance true rfl)
  exact ⟨_, by decide +kernel, by decide +kernel, hread.queue.1⟩

end PipeSystem

end OxysOS.Fs
