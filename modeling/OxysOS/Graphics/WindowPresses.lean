import OxysOS.Graphics.WindowButtons
import OxysOS.Library.Runs
import Mathlib.Logic.Relation

/-!
# Presses and releases pair up

A press binds the pointer, and the window that is bound is told of what follows until no button is
held, it is destroyed, or it is minimised.  What pairs up is what it was told since it last was.
-/

namespace OxysOS.Graphics

open OxysOS.Drivers OxysOS.Library OxysOS.Mm

variable {manager manager' manager'' : WindowManager} {identifier : ℕ} {window window' : Window}
  {event : WindowEvent} {button : MouseButton}

def windowArrivals : Option Window → Option Window → List WindowEvent
  | _, none => []
  | none, some window => window.events
  | some window, some window' => window'.events.drop window.events.length

def windowShrinks : Option Window → Option Window → Bool
  | some window, some window' => !window.minimised && window'.minimised
  | _, _ => false

def Silent (manager manager' : WindowManager) : Prop :=
  ∀ identifier, ∀ event ∈ windowArrivals (windowAt manager identifier)
    (windowAt manager' identifier), ¬event.IsButton

structure Unheard (manager manager' : WindowManager) : Prop where
  arrivals : Silent manager manager'
  grabbed : ∀ identifier window', windowAt manager' identifier = some window' →
    manager.grabbed = some identifier →
    windowShrinks (windowAt manager identifier) (some window') = false →
    manager'.grabbed = some identifier
  dragged : manager.dragged = none → manager'.dragged = none

theorem Unheard.refl (manager : WindowManager) : Unheard manager manager := by
  refine ⟨fun identifier event hevent ↦ ?_, fun _ _ _ h _ ↦ h, id⟩
  cases hwindow : windowAt manager identifier with
  | none => rw [hwindow] at hevent; exact absurd hevent List.not_mem_nil
  | some window =>
      rw [hwindow, windowArrivals, List.drop_length] at hevent
      exact absurd hevent List.not_mem_nil

theorem Unheard.trans_quiet (h : Unheard manager manager') (hquiet : Quiet manager' manager'') :
    Unheard manager manager'' := by
  refine ⟨fun identifier event hevent ↦ ?_, fun identifier window'' hwindow'' hgrabbed hshrinks ↦ ?_,
    hquiet.dragged ∘ h.dragged⟩
  · cases hwindow'' : windowAt manager'' identifier with
    | none => rw [hwindow''] at hevent; exact absurd hevent List.not_mem_nil
    | some window'' =>
        obtain ⟨window', hwindow', ⟨⟨more, hmore, hnone⟩, -, -⟩, -⟩ :=
          hquiet.windows identifier window'' hwindow''
        have hsplit : event ∈ windowArrivals (windowAt manager identifier)
            (windowAt manager' identifier) ∨ event ∈ more := by
          rw [hwindow'']  at hevent
          rw [hwindow']
          cases hwindow : windowAt manager identifier with
          | none =>
              rw [hwindow, windowArrivals, hmore] at hevent
              exact List.mem_append.mp hevent
          | some window =>
              rw [hwindow, windowArrivals, hmore, List.drop_append] at hevent
              exact (List.mem_append.mp hevent).imp_right List.mem_of_mem_drop
        rcases hsplit with hfirst | hlast
        · exact h.arrivals identifier event hfirst
        · exact hnone event hlast
  · obtain ⟨window', hwindow', hkept, hstays⟩ := hquiet.windows identifier window'' hwindow''
    have hsame : windowShrinks (windowAt manager identifier) (some window') =
        windowShrinks (windowAt manager identifier) (some window'') := by
      cases windowAt manager identifier with
      | none => rfl
      | some window => rw [windowShrinks, windowShrinks, hkept.minimised]
    exact hstays (h.grabbed identifier window' hwindow' hgrabbed (hsame.trans hshrinks))

theorem Quiet.unheard (h : Quiet manager manager') : Unheard manager manager' :=
  (Unheard.refl manager).trans_quiet h

theorem unheard_put (h : windowAt manager identifier = some window)
    (huse : window'.inUse = window.inUse) (hevents : window'.events.length ≤ window.events.length) :
    Unheard manager (windowPut manager identifier window') := by
  have hused : window'.inUse := huse.trans (inUse_of_windowAt h)
  refine ⟨fun other event hevent ↦ ?_, fun _ _ _ hgrabbed _ ↦ hgrabbed, id⟩
  rw [windowAt_put h hused] at hevent
  split_ifs at hevent with hsame
  · rw [hsame, h, windowArrivals, List.drop_of_length_le hevents] at hevent
    exact absurd hevent List.not_mem_nil
  · exact (Unheard.refl manager).arrivals other event hevent

theorem unheard_readEvent (manager : WindowManager) (identifier : ℕ) :
    Unheard manager (windowReadEvent manager identifier).1 := by
  rw [windowReadEvent]
  cases hwindow : windowAt manager identifier with
  | none => exact Unheard.refl manager
  | some window =>
      dsimp only
      split
      · exact Unheard.refl manager
      · rename_i event events hevents
        refine unheard_put hwindow rfl ?_
        rw [hevents]
        exact Nat.le_succ _

theorem unheard_restore (manager : WindowManager) (identifier : ℕ) :
    Unheard manager (windowRestore manager identifier).1 := by
  rw [windowRestore]
  cases hwindow : windowAt manager identifier with
  | none => exact Unheard.refl manager
  | some window =>
      dsimp only
      by_cases hplain : ¬window.decorated
      · rw [if_pos hplain]
        exact Unheard.refl manager
      rw [if_neg hplain]
      refine Unheard.trans_quiet ?_ (((quiet_raise _ _).trans (quiet_transferFocus _ _)).trans
        (quiet_notifyRoots _))
      split_ifs
      · exact unheard_put hwindow rfl le_rfl
      · exact Unheard.refl manager

def Grown (manager manager' : WindowManager) : Prop :=
  ∀ identifier window', windowAt manager' identifier = some window' →
    ∃ window, windowAt manager identifier = some window ∧
      ∃ more, window'.events = window.events ++ more ∧ ∀ event ∈ more, ¬event.IsButton

theorem Quiet.grown (h : Quiet manager manager') : Grown manager manager' := by
  intro identifier window' hwindow'
  obtain ⟨window, hwindow, hkept, -⟩ := h.windows identifier window' hwindow'
  exact ⟨window, hwindow, hkept.events⟩

theorem Grown.trans (h : Grown manager manager') (h' : Grown manager' manager'') :
    Grown manager manager'' := by
  intro identifier window'' hwindow''
  obtain ⟨window', hwindow', more', hmore', hquiet'⟩ := h' identifier window'' hwindow''
  obtain ⟨window, hwindow, more, hmore, hquiet⟩ := h identifier window' hwindow'
  refine ⟨window, hwindow, more ++ more', ?_, fun event hevent ↦ ?_⟩
  · rw [hmore', hmore, List.append_assoc]
  · rcases List.mem_append.mp hevent with hfirst | hlast
    · exact hquiet event hfirst
    · exact hquiet' event hlast

theorem Grown.silent (h : Grown manager manager') : Silent manager manager' := by
  intro identifier event hevent
  cases hwindow' : windowAt manager' identifier with
  | none =>
      rw [hwindow'] at hevent
      exact absurd hevent List.not_mem_nil
  | some window' =>
      obtain ⟨window, hwindow, more, hmore, hquiet⟩ := h identifier window' hwindow'
      rw [hwindow', hwindow, windowArrivals, hmore, List.drop_left] at hevent
      exact hquiet event hevent

theorem grown_minimised (h : windowAt manager identifier = some window)
    (hsame : ∀ other, windowAt manager' other =
      windowAt (windowPut manager identifier { window with minimised := true }) other) :
    Grown manager manager' := by
  have huse := inUse_of_windowAt h
  intro other window' hwindow'
  rw [hsame, @windowAt_put manager identifier window { window with minimised := true } h huse]
    at hwindow'
  split_ifs at hwindow' with hother
  · obtain rfl := Option.some.inj hwindow'
    rw [hother]
    exact ⟨window, h, [], (List.append_nil _).symm, by simp⟩
  · exact ⟨window', hwindow', [], (List.append_nil _).symm, by simp⟩

theorem unheard_minimised (h : windowAt manager identifier = some window)
    (hshown : window.minimised = false) :
    Unheard manager
      { windowPut manager identifier { window with minimised := true } with
        grabbed := if manager.grabbed = some identifier then none else manager.grabbed
        dragged := if manager.dragged = some identifier then none else manager.dragged } := by
  have huse := inUse_of_windowAt h
  refine ⟨(grown_minimised h fun _ ↦ rfl).silent,
    fun other window' hwindow' hgrabbed hshrinks ↦ ?_, fun hnone ↦ ?_⟩
  · have hput := @windowAt_put manager identifier window { window with minimised := true } h huse
      other
    have hne : ¬other = identifier := by
      rintro rfl
      rw [if_pos rfl] at hput
      obtain rfl := Option.some.inj (hput.symm.trans hwindow')
      rw [h, windowShrinks, hshown] at hshrinks
      exact Bool.false_ne_true hshrinks.symm
    have hbound : ¬manager.grabbed = some identifier := by
      rw [hgrabbed, Option.some.injEq]
      exact hne
    dsimp only
    rw [if_neg hbound, hgrabbed]
  · dsimp only
    rw [hnone]
    split_ifs <;> rfl

theorem quiet_defocus (manager : WindowManager) (identifier : ℕ) :
    Quiet manager
      (if manager.focused = some identifier then
        windowTransferFocus manager (windowTopmostFocusable manager)
      else manager) := by
  split_ifs
  · exact quiet_transferFocus _ _
  · exact Quiet.refl manager

theorem minimise_cases (manager : WindowManager) (identifier : ℕ) :
    (windowMinimise manager identifier).1 = manager ∨
      ∃ window, windowAt manager identifier = some window ∧ window.minimised = false ∧
        Quiet
          { windowPut manager identifier { window with minimised := true } with
            grabbed := if manager.grabbed = some identifier then none else manager.grabbed
            dragged := if manager.dragged = some identifier then none else manager.dragged }
          (windowMinimise manager identifier).1 := by
  rw [windowMinimise]
  cases hwindow : windowAt manager identifier with
  | none => exact Or.inl rfl
  | some window =>
      dsimp only
      by_cases hplain : ¬window.decorated
      · rw [if_pos hplain]
        exact Or.inl rfl
      rw [if_neg hplain]
      by_cases hminimised : window.minimised
      · rw [if_pos hminimised]
        exact Or.inl rfl
      rw [if_neg hminimised]
      exact Or.inr ⟨window, rfl, Bool.eq_false_iff.mpr hminimised,
        (quiet_defocus _ identifier).trans (quiet_notifyRoots _)⟩

theorem unheard_minimise (manager : WindowManager) (identifier : ℕ) :
    Unheard manager (windowMinimise manager identifier).1 := by
  rcases minimise_cases manager identifier with hsame | ⟨window, hwindow, hshown, hquiet⟩
  · rw [hsame]
    exact Unheard.refl manager
  · exact (unheard_minimised hwindow hshown).trans_quiet hquiet

theorem grown_minimise (manager : WindowManager) (identifier : ℕ) :
    Grown manager (windowMinimise manager identifier).1 := by
  rcases minimise_cases manager identifier with hsame | ⟨window, hwindow, -, hquiet⟩
  · rw [hsame]
    exact (Quiet.refl manager).grown
  · exact Grown.trans (grown_minimised hwindow fun _ ↦ rfl) hquiet.grown

theorem windowAt_tableReady (manager : WindowManager) (supply : WindowSupply) (identifier : ℕ) :
    windowAt (windowTableReady manager supply) identifier = windowAt manager identifier := by
  rw [windowTableReady]
  split_ifs
  · ext window
    rw [windowAt_eq_some_iff, windowAt_eq_some_iff]
    dsimp only
    by_cases hless : identifier < manager.windows.capacity
    · have hmore := hless.trans (manager.windows.capacity_lt_grow zeroedWindow)
      rw [GrowingTable.grow_entry_of_lt _ _ hless]
      simp only [hless, hmore]
    · rw [GrowingTable.grow_entry_of_le _ _ (not_lt.mp hless)]
      simp only [hless, zeroedWindow, Bool.false_eq_true, false_and, and_false]
  · rfl

theorem tableReady_grabbed (manager : WindowManager) (supply : WindowSupply) :
    (windowTableReady manager supply).grabbed = manager.grabbed := by
  rw [windowTableReady]
  split_ifs <;> rfl

theorem tableReady_dragged (manager : WindowManager) (supply : WindowSupply) :
    (windowTableReady manager supply).dragged = manager.dragged := by
  rw [windowTableReady]
  split_ifs <;> rfl

theorem stackReady_eq (supplied : ℕ) (manager : WindowManager) :
    ∃ stackChunkCount, windowStackReady supplied manager = { manager with stackChunkCount } := by
  induction supplied generalizing manager with
  | zero => exact ⟨_, rfl⟩
  | succ supplied ih =>
      rw [windowStackReady]
      split_ifs
      · exact ih _
      · exact ⟨_, rfl⟩

theorem unheard_made (hat : ∀ other, windowAt manager' other = windowAt manager other)
    (hgrabbed : manager'.grabbed = manager.grabbed) (hdragged : manager'.dragged = manager.dragged)
    (hfree : ¬(windowSlot manager' identifier).inUse) (hevents : window.events = []) :
    Unheard manager (windowPut manager' identifier window) := by
  refine ⟨fun other event hevent ↦ ?_, fun _ _ _ hbound _ ↦ hgrabbed.trans hbound,
    fun hnone ↦ hdragged.trans hnone⟩
  by_cases hother : other = identifier
  · subst hother
    have hbefore : windowAt manager other = none := by
      rw [← hat, windowAt, if_pos (Or.inr (Or.inr hfree))]
    have hempty : windowArrivals none (windowAt (windowPut manager' other window) other) = [] := by
      cases hafter : windowAt (windowPut manager' other window) other with
      | none => rfl
      | some window' =>
          obtain ⟨-, -, -, rfl⟩ := windowAt_eq_some_iff.mp hafter
          rw [windowPut, GrowingTable.put_entry_self]
          exact hevents
    rw [hbefore, hempty] at hevent
    exact absurd hevent List.not_mem_nil
  · rw [windowAt_put_of_ne manager' window hother, hat] at hevent
    exact (Unheard.refl manager).arrivals other event hevent

theorem unheard_create (manager : WindowManager) (x y width height : ℤ) (layer : WindowLayer)
    (supply : WindowSupply) :
    Unheard manager (windowCreate manager x y width height layer supply).1 := by
  have htable : Unheard manager (windowTableReady manager supply) :=
    (quiet_of_same (windowAt_tableReady manager supply) (tableReady_grabbed manager supply)
      fun h ↦ (tableReady_dragged manager supply).trans h).unheard
  obtain ⟨stackChunkCount, hstack⟩ :=
    stackReady_eq supply.stack (windowTableReady manager supply)
  rw [windowCreate]
  by_cases hrefused : ¬manager.active ∨ width < windowMinimumExtent ∨
      height < windowMinimumExtent ∨ width > windowMaximumExtent ∨ height > windowMaximumExtent
  · rw [if_pos hrefused]
    exact Unheard.refl manager
  rw [if_neg hrefused]
  dsimp only
  split
  · exact htable
  · rename_i identifier hfound
    obtain ⟨-, hfree⟩ := GrowingTable.find_some hfound
    rw [hstack]
    split
    · exact htable.trans_quiet (quiet_of_same (fun _ ↦ rfl) rfl id)
    · have hmade := fun window ↦ @unheard_made manager
        { windowTableReady manager supply with stackChunkCount } identifier window
        (windowAt_tableReady manager supply) (tableReady_grabbed manager supply)
        (tableReady_dragged manager supply) (by simpa [windowSlot] using hfree)
      split
      · refine Unheard.trans_quiet (Unheard.trans_quiet (Unheard.trans_quiet (hmade _ rfl)
          (quiet_stack _ _)) (quiet_transferFocus _ _)) (quiet_notifyRoots _)
      · exact (hmade _ rfl).trans_quiet (quiet_stack _ _)

/-- A window is told of events, and no other changes, nor does the binding or the drag. -/
structure Told (manager manager' : WindowManager) (identifier : ℕ) (events : List WindowEvent) :
    Prop where
  told : windowAt manager' identifier =
    (windowAt manager identifier).map fun window ↦ events.foldl Window.given window
  others : ∀ other, other ≠ identifier → windowAt manager' other = windowAt manager other
  grabbed : manager'.grabbed = manager.grabbed
  dragged : manager'.dragged = manager.dragged

theorem Told.refl (manager : WindowManager) (identifier : ℕ) : Told manager manager identifier [] :=
  ⟨Option.map_id'.symm, fun _ _ ↦ rfl, rfl, rfl⟩

theorem Told.trans {events more : List WindowEvent} (h : Told manager manager' identifier events)
    (h' : Told manager' manager'' identifier more) :
    Told manager manager'' identifier (events ++ more) := by
  refine ⟨?_, fun other hother ↦ (h'.others other hother).trans (h.others other hother),
    h'.grabbed.trans h.grabbed, h'.dragged.trans h.dragged⟩
  rw [h'.told, h.told, Option.map_map]
  congr 1
  funext window
  exact List.foldl_append.symm

theorem Window.dropped_le_givens (window : Window) (events : List WindowEvent) :
    window.dropped ≤ (events.foldl Window.given window).dropped := by
  induction events generalizing window with
  | nil => exact le_rfl
  | cons event events ih =>
      have hone : window.dropped ≤ (window.given event).dropped := by
        rw [given]
        split_ifs
        · exact Nat.le_succ _
        · exact le_rfl
      exact hone.trans (ih (window.given event))

theorem Window.givens_events {events : List WindowEvent}
    (h : (events.foldl Window.given window).dropped = window.dropped) :
    (events.foldl Window.given window).events = window.events ++ events := by
  induction events generalizing window with
  | nil => exact (List.append_nil _).symm
  | cons event events ih =>
      rw [List.foldl_cons] at h ⊢
      have hmore := (window.given event).dropped_le_givens events
      by_cases hfull : window.events.length = windowEventCapacity
      · have hlost : (window.given event).dropped = window.dropped + 1 := by
          rw [given, if_pos hfull]
        omega
      · have hgiven : window.given event = { window with events := window.events ++ [event] } := by
          rw [given, if_neg hfull]
        rw [ih (by rw [h, hgiven]), hgiven, List.append_assoc, List.singleton_append]

theorem Window.givens_minimised (window : Window) (events : List WindowEvent) :
    (events.foldl Window.given window).minimised = window.minimised := by
  induction events generalizing window with
  | nil => rfl
  | cons event events ih =>
      rw [List.foldl_cons, ih, given]
      split_ifs <;> rfl

theorem told_enqueuePointer (manager : WindowManager) (identifier : ℕ) (kind : WindowEventKind)
    (x y : ℤ) (pressed buttons : UInt8) :
    ∃ event : WindowEvent, event.kind = kind ∧ event.button = pressed ∧
      Told manager (windowEnqueuePointer manager identifier kind x y pressed buttons) identifier
        [event] := by
  rw [windowEnqueuePointer]
  cases hwindow : windowAt manager identifier with
  | none =>
      refine ⟨⟨kind, x, y, pressed, buttons, noKey⟩, rfl, rfl, ?_, fun _ _ ↦ rfl, rfl, rfl⟩
      rw [hwindow]
      exact hwindow
  | some target =>
      refine ⟨⟨kind, x - (windowContentOf target).x, y - (windowContentOf target).y, pressed, buttons,
        noKey⟩, rfl, rfl, ?_, fun other hother ↦ ?_, enqueue_grabbed _ _ _, enqueue_dragged _ _ _⟩
      · rw [windowAt_enqueue, if_pos rfl, hwindow]
        rfl
      · rw [windowAt_enqueue, if_neg hother]

theorem told_ite (given : Prop) [Decidable given] (manager : WindowManager) (identifier : ℕ)
    (kind : WindowEventKind) (x y : ℤ) (pressed buttons : UInt8) :
    ∃ events, (∀ button : MouseButton, signals button events =
        if given ∧ pressed = button.mask then kind.signal.toList else []) ∧
      Told manager
        (if given then windowEnqueuePointer manager identifier kind x y pressed buttons
        else manager) identifier events := by
  by_cases h : given
  · obtain ⟨event, hkind, hpressed, htold⟩ :=
      told_enqueuePointer manager identifier kind x y pressed buttons
    refine ⟨[event], fun button ↦ ?_, by rwa [if_pos h]⟩
    rw [signals, List.filterMap_cons, WindowEvent.signal, hkind, hpressed]
    by_cases hmask : pressed = button.mask
    · rw [if_pos hmask, if_pos ⟨h, hmask⟩]
      cases kind <;> rfl
    · rw [if_neg hmask, if_neg fun hboth ↦ hmask hboth.2]
      rfl
  · refine ⟨[], fun button ↦ ?_, by rw [if_neg h]; exact Told.refl manager identifier⟩
    rw [if_neg fun hboth ↦ h hboth.1]
    rfl

theorem told_boundMovement (manager : WindowManager) (bound : ℕ) (movement : MouseEvent)
    (pressed released : UInt8) :
    ∃ manager' events, Told manager manager' bound events ∧
      (∀ button : MouseButton, signals button events =
        (if windowLowestButton pressed = button.mask then [true] else []) ++
          if windowLowestButton released = button.mask then [false] else []) ∧
      windowBoundMovement manager bound movement pressed released =
        if movement.buttons = 0 then { manager' with grabbed := none } else manager' := by
  obtain ⟨moves, hmoves, hmoved⟩ := told_ite (movement.deltaX ≠ 0 ∨ movement.deltaY ≠ 0) manager
    bound .pointerMove movement.x movement.y 0 movement.buttons
  obtain ⟨presses, hpresses, hpressed⟩ := told_ite (pressed ≠ 0) _ bound .buttonPress movement.x
    movement.y (windowLowestButton pressed) movement.buttons
  obtain ⟨releases, hreleases, hreleased⟩ := told_ite (released ≠ 0) _ bound .buttonRelease
    movement.x movement.y (windowLowestButton released) movement.buttons
  refine ⟨_, _, (hmoved.trans hpressed).trans hreleased, fun button ↦ ?_, rfl⟩
  have hlowest : ∀ buttons : UInt8, (buttons ≠ 0 ∧ windowLowestButton buttons = button.mask) ↔
      windowLowestButton buttons = button.mask :=
    fun buttons ↦ and_iff_right_of_imp fun h ↦ MouseButton.ne_zero (MouseButton.in_of_lowest h)
  rw [signals_append, signals_append, hmoves, hpresses, hreleases, if_congr (hlowest _) rfl rfl,
    if_congr (hlowest _) rfl rfl]
  simp [WindowEventKind.signal]

theorem Silent.of_same (h : Silent manager manager')
    (hsame : ∀ identifier, windowAt manager'' identifier = windowAt manager' identifier) :
    Silent manager manager'' := by
  intro identifier event hevent
  rw [hsame] at hevent
  exact h identifier event hevent

theorem quiet_ite {p : Prop} [Decidable p] (h : Quiet manager manager')
    (h' : Quiet manager manager'') : Quiet manager (if p then manager' else manager'') := by
  split_ifs
  · exact h
  · exact h'

theorem beginPress_cases (manager : WindowManager) (x y : ℤ) (pressed buttons : UInt8)
    (pixels : Bool) :
    Silent manager (windowBeginPress manager x y pressed buttons pixels) ∨
      ∃ manager' identifier events, Quiet manager manager' ∧
        Told { manager' with grabbed := some identifier }
          (windowBeginPress manager x y pressed buttons pixels) identifier events ∧
        ∀ button : MouseButton, signals button events =
          if pressed = button.mask then [true] else [] := by
  rw [windowBeginPress]
  split
  · exact Or.inl (Unheard.refl manager).arrivals
  · rename_i identifier _
    dsimp only
    set raised : WindowManager := if (windowSlot manager identifier).layer ≠ .root then
      windowRaise manager identifier else manager
    set focused : WindowManager := if (windowSlot manager identifier).layer = .normal then
      windowTransferFocus raised (some identifier) else raised
    have hraised : Quiet manager raised := quiet_ite (quiet_raise _ _) (Quiet.refl manager)
    have hfocused : Quiet manager focused :=
      quiet_ite (hraised.trans (quiet_transferFocus _ _)) hraised
    split
    · left
      exact (hfocused.trans (quiet_enqueueKind _ _ ⟨by decide, by decide⟩)).grown.silent
    · split
      · exact Or.inl (hfocused.trans (quiet_setFull _ _ _ _)).grown.silent
      · split
        · exact Or.inl (hfocused.grown.trans (grown_minimise _ _)).silent
        · split
          · left
            split
            · exact hfocused.grown.silent
            · exact hfocused.grown.silent.of_same fun _ ↦ rfl
          · right
            obtain ⟨events, hevents, htold⟩ := told_ite True
              { focused with grabbed := some identifier } identifier .buttonPress x y pressed buttons
            refine ⟨focused, identifier, events, hfocused, htold, fun button ↦ ?_⟩
            rw [hevents, if_congr (and_iff_right trivial) rfl rfl]
            rfl

/-- The manager, the buttons that are held, and what each window was given since it was made, and
since it was made or was last minimised. -/
structure Desk where
  manager : WindowManager
  held : UInt8
  sinceMade : ℕ → List WindowEvent
  sinceMinimised : ℕ → List WindowEvent

def deskStart (held : UInt8) : Desk := ⟨windowManagerStart, held, fun _ ↦ [], fun _ ↦ []⟩

def WindowCall.held (held : UInt8) : WindowCall → UInt8
  | mouse movement _ => movement.buttons
  | _ => held

def WindowCall.Differs (held : UInt8) : WindowCall → Prop
  | mouse movement _ => movement.changed = movement.buttons ^^^ held
  | _ => True

def Desk.call (desk : Desk) (call : WindowCall) : Desk where
  manager := call.run desk.manager
  held := call.held desk.held
  sinceMade identifier :=
    let before := windowAt desk.manager identifier
    let after := windowAt (call.run desk.manager) identifier
    (if before.isNone then [] else desk.sinceMade identifier) ++ windowArrivals before after
  sinceMinimised identifier :=
    let before := windowAt desk.manager identifier
    let after := windowAt (call.run desk.manager) identifier
    (if before.isNone ∨ windowShrinks before after then [] else desk.sinceMinimised identifier) ++
      windowArrivals before after

variable {desk : Desk} {call : WindowCall}

def Desk.pressed (desk : Desk) (identifier : ℕ) (button : MouseButton) : Bool :=
  stands (signals button (desk.sinceMinimised identifier))

/-- A movement says rightly what has changed, and no window drops an event. -/
structure Desk.Fits (desk : Desk) (call : WindowCall) : Prop where
  changed : call.Differs desk.held
  lossless : ∀ identifier window, windowAt (call.run desk.manager) identifier = some window →
    window.dropped = 0

/-- Of the buttons that a movement releases over a window that is bound, the window was told of the
press of the lowest, and of no other. -/
def Desk.Answers (desk : Desk) : WindowCall → Prop
  | .mouse movement _ =>
      let released := movement.changed &&& ~~~movement.buttons
      ∀ bound, desk.manager.dragged = none → desk.manager.grabbed = some bound →
        (windowAt desk.manager bound).isSome → ∀ button : MouseButton, button.In released →
          (desk.pressed bound button ↔ windowLowestButton released = button.mask)
  | _ => True

def DeskStep (allowed : Desk → WindowCall → Prop) (desk desk' : Desk) : Prop :=
  ∃ call, allowed desk call ∧ desk' = desk.call call

/-- The presses and releases of a button that a window is told of alternate, and where a press
stands the button is held. -/
def Paired (events : List WindowEvent) (button : MouseButton) (held : UInt8) : Prop :=
  Alternates (signals button events) ∧ (stands (signals button events) → button.In held)

structure Desk.Bound (desk : Desk) (identifier : ℕ) (button : MouseButton) : Prop where
  paired : Paired (desk.sinceMinimised identifier) button desk.held
  grabbed : desk.pressed identifier button → desk.manager.grabbed = some identifier
  dragged : desk.pressed identifier button → desk.manager.dragged = none

def Desk.Sound (desk : Desk) : Prop :=
  ∀ identifier window, windowAt desk.manager identifier = some window →
    ∀ button, desk.Bound identifier button

theorem Desk.Bound.of_nil (h : signals button (desk.sinceMinimised identifier) = []) :
    desk.Bound identifier button := by
  have hstands : ¬desk.pressed identifier button := by
    rw [Desk.pressed, h]
    exact Bool.false_ne_true
  refine ⟨⟨?_, fun hpressed ↦ absurd hpressed hstands⟩, fun hpressed ↦ absurd hpressed hstands,
    fun hpressed ↦ absurd hpressed hstands⟩
  rw [h]
  exact alternates_nil

theorem Desk.Bound.of_not_pressed (h : Alternates (signals button (desk.sinceMinimised identifier)))
    (hstands : ¬desk.pressed identifier button) : desk.Bound identifier button :=
  ⟨⟨h, fun hpressed ↦ absurd hpressed hstands⟩, fun hpressed ↦ absurd hpressed hstands,
    fun hpressed ↦ absurd hpressed hstands⟩

theorem signals_call (hsilent : Silent desk.manager (call.run desk.manager)) (identifier : ℕ)
    (button : MouseButton) :
    signals button ((desk.call call).sinceMinimised identifier) =
      if (windowAt desk.manager identifier).isNone ∨
        windowShrinks (windowAt desk.manager identifier)
          (windowAt (call.run desk.manager) identifier) then []
      else signals button (desk.sinceMinimised identifier) := by
  dsimp only [Desk.call]
  rw [signals_append, signals_of_quiet (hsilent identifier), List.append_nil]
  split_ifs <;> rfl

theorem sound_call_of_silent (hsound : desk.Sound)
    (hsilent : Silent desk.manager (call.run desk.manager))
    (hnone : ∀ identifier window, windowAt desk.manager identifier = some window →
      ∀ button, ¬desk.pressed identifier button) : (desk.call call).Sound := by
  intro identifier window' hwindow' button
  have hsignals := signals_call hsilent identifier button
  split_ifs at hsignals with hfresh
  · exact Desk.Bound.of_nil hsignals
  · rw [not_or, Option.isNone_iff_eq_none, ← ne_eq, Option.ne_none_iff_exists'] at hfresh
    obtain ⟨⟨window, hwindow⟩, -⟩ := hfresh
    apply Desk.Bound.of_not_pressed
    · rw [hsignals]
      exact (hsound identifier window hwindow button).paired.1
    · rw [Desk.pressed, hsignals]
      exact hnone identifier window hwindow button

theorem sound_call_of_unheard (hsound : desk.Sound)
    (hunheard : Unheard desk.manager (call.run desk.manager))
    (hheld : call.held desk.held = desk.held) : (desk.call call).Sound := by
  intro identifier window' hwindow' button
  have hsignals := signals_call hunheard.arrivals identifier button
  split_ifs at hsignals with hfresh
  · exact Desk.Bound.of_nil hsignals
  · rw [not_or, Option.isNone_iff_eq_none, ← ne_eq, Option.ne_none_iff_exists'] at hfresh
    obtain ⟨⟨window, hwindow⟩, hshown⟩ := hfresh
    have hpressed : (desk.call call).pressed identifier button = desk.pressed identifier button := by
      rw [Desk.pressed, hsignals, Desk.pressed]
    obtain ⟨⟨halternates, hheld'⟩, hgrabbed, hdragged⟩ := hsound identifier window hwindow button
    refine ⟨⟨?_, fun hstands ↦ ?_⟩, fun hstands ↦ ?_, fun hstands ↦ ?_⟩
    · rw [hsignals]
      exact halternates
    · rw [hsignals] at hstands
      have hbutton := hheld' hstands
      rwa [← hheld] at hbutton
    · rw [hpressed] at hstands
      have hafter : windowAt (call.run desk.manager) identifier = some window' := hwindow'
      rw [hafter] at hshown
      exact hunheard.grabbed identifier window' hwindow' (hgrabbed hstands)
        (Bool.eq_false_iff.mpr hshown)
    · rw [hpressed] at hstands
      exact hunheard.dragged (hdragged hstands)

theorem signals_call_of_events {more : List WindowEvent}
    (hwindow : windowAt desk.manager identifier = some window)
    (hwindow' : windowAt (call.run desk.manager) identifier = some window')
    (hevents : window'.events = window.events ++ more)
    (hminimised : window'.minimised = window.minimised) (button : MouseButton) :
    signals button ((desk.call call).sinceMinimised identifier) =
      signals button (desk.sinceMinimised identifier) ++ signals button more := by
  have hshows : windowShrinks (some window) (some window') = false := by
    rw [windowShrinks, hminimised, Bool.not_and_self]
  dsimp only [Desk.call]
  rw [signals_append, hwindow, hwindow', hshows, windowArrivals, hevents, List.drop_left]
  rfl

theorem events_of_told {events : List WindowEvent} (htold : Told manager manager' identifier events)
    (hlossless : ∀ window', windowAt manager' identifier = some window' → window'.dropped = 0)
    (hwindow' : windowAt manager' identifier = some window') :
    ∃ window, windowAt manager identifier = some window ∧
      window'.events = window.events ++ events ∧ window'.minimised = window.minimised := by
  have hkept := hlossless window' hwindow'
  rw [htold.told] at hwindow'
  obtain ⟨window, hwindow, rfl⟩ := Option.map_eq_some_iff.mp hwindow'
  have hmore := window.dropped_le_givens events
  exact ⟨window, hwindow, Window.givens_events (by omega), window.givens_minimised events⟩

theorem sound_call_of_press {events : List WindowEvent} {pressed : UInt8} {bound : ℕ}
    (hsound : desk.Sound)
    (hnone : ∀ identifier window, windowAt desk.manager identifier = some window →
      ∀ button, ¬desk.pressed identifier button)
    (hlossless : ∀ identifier window, windowAt (call.run desk.manager) identifier = some window →
      window.dropped = 0)
    (hquiet : Quiet desk.manager manager) (hundragged : desk.manager.dragged = none)
    (htold : Told { manager with grabbed := some bound } (call.run desk.manager) bound events)
    (hevents : ∀ button : MouseButton, signals button events =
      if pressed = button.mask then [true] else [])
    (hheld : ∀ button : MouseButton, pressed = button.mask → button.In (call.held desk.held)) :
    (desk.call call).Sound := by
  intro identifier window' hwindow' button
  have hafter : windowAt (call.run desk.manager) identifier = some window' := hwindow'
  by_cases hbound : identifier = bound
  · subst hbound
    obtain ⟨middle, hmiddle, hgiven, hshown⟩ :=
      events_of_told htold (hlossless identifier) hafter
    obtain ⟨window, hwindow, ⟨⟨more, hmore, hsilent⟩, hkept, -⟩, -⟩ :=
      hquiet.windows identifier middle hmiddle
    have hall : window'.events = window.events ++ (more ++ events) := by
      rw [hgiven, hmore, List.append_assoc]
    have hsignals := signals_call_of_events hwindow hafter hall (hshown.trans hkept) button
    rw [signals_append, signals_of_quiet hsilent, List.nil_append, hevents] at hsignals
    have halternates := (hsound identifier window hwindow button).paired.1
    have hstands := hnone identifier window hwindow button
    rw [Desk.pressed, Bool.not_eq_true] at hstands
    split_ifs at hsignals with hpressed
    · refine ⟨⟨?_, fun _ ↦ hheld button hpressed⟩, fun _ ↦ htold.grabbed, fun _ ↦ ?_⟩
      · rw [hsignals, alternates_concat, hstands]
        exact ⟨halternates, Bool.false_ne_true⟩
      · exact htold.dragged.trans (hquiet.dragged hundragged)
    · rw [List.append_nil] at hsignals
      apply Desk.Bound.of_not_pressed
      · rwa [hsignals]
      · rw [Desk.pressed, hsignals, hstands]
        exact Bool.false_ne_true
  · have hmiddle := (htold.others identifier hbound).symm.trans hafter
    obtain ⟨window, hwindow, ⟨⟨more, hmore, hsilent⟩, hkept, -⟩, -⟩ :=
      hquiet.windows identifier window' hmiddle
    have hsignals := signals_call_of_events hwindow hafter hmore hkept button
    rw [signals_of_quiet hsilent, List.append_nil] at hsignals
    apply Desk.Bound.of_not_pressed
    · rw [hsignals]
      exact (hsound identifier window hwindow button).paired.1
    · rw [Desk.pressed, hsignals]
      exact hnone identifier window hwindow button

theorem in_pressed {changed buttons held : UInt8} (h : changed = buttons ^^^ held) :
    button.In (changed &&& buttons) ↔ button.In buttons ∧ ¬button.In held := by
  rw [h, MouseButton.in_and, MouseButton.in_xor]
  tauto

theorem in_released {changed buttons held : UInt8} (h : changed = buttons ^^^ held) :
    button.In (changed &&& ~~~buttons) ↔ ¬button.In buttons ∧ button.In held := by
  rw [h, MouseButton.in_and, MouseButton.in_xor, MouseButton.in_not]
  tauto

theorem alternates_movement {told : List Bool} {changed buttons held : UInt8}
    (hchanged : changed = buttons ^^^ held) (halternates : Alternates told)
    (hstill : stands told → button.In held)
    (hanswer : button.In (changed &&& ~~~buttons) →
      (stands told ↔ windowLowestButton (changed &&& ~~~buttons) = button.mask)) :
    let after := told ++
      ((if windowLowestButton (changed &&& buttons) = button.mask then [true] else []) ++
        if windowLowestButton (changed &&& ~~~buttons) = button.mask then [false] else [])
    Alternates after ∧ (stands after → button.In buttons) := by
  by_cases hpressed : windowLowestButton (changed &&& buttons) = button.mask
  · obtain ⟨hdown, hup⟩ := (in_pressed hchanged).mp (MouseButton.in_of_lowest hpressed)
    have hreleased : ¬windowLowestButton (changed &&& ~~~buttons) = button.mask := fun h ↦
      ((in_released hchanged).mp (MouseButton.in_of_lowest h)).1 hdown
    have hstands : stands told = false := Bool.eq_false_iff.mpr fun h ↦ hup (hstill h)
    rw [if_pos hpressed, if_neg hreleased, List.append_nil]
    refine ⟨?_, fun _ ↦ hdown⟩
    rw [alternates_concat, hstands]
    exact ⟨halternates, Bool.false_ne_true⟩
  · rw [if_neg hpressed, List.nil_append]
    by_cases hreleased : windowLowestButton (changed &&& ~~~buttons) = button.mask
    · have hstands : stands told = true := (hanswer (MouseButton.in_of_lowest hreleased)).mpr hreleased
      rw [if_pos hreleased]
      dsimp only
      rw [alternates_concat, stands_concat, hstands]
      exact ⟨⟨halternates, fun h ↦ Bool.false_ne_true h.symm⟩, fun h ↦ absurd h Bool.false_ne_true⟩
    · rw [if_neg hreleased, List.append_nil]
      refine ⟨halternates, fun hstands ↦ ?_⟩
      by_contra hup
      exact hreleased ((hanswer ((in_released hchanged).mpr ⟨hup, hstill hstands⟩)).mp hstands)

theorem sound_call_of_bound {movement : MouseEvent} {pixels : Bool} {bound : ℕ}
    {events : List WindowEvent} (hsound : desk.Sound) (hfits : desk.Fits (.mouse movement pixels))
    (hanswers : desk.Answers (.mouse movement pixels))
    (hundragged : desk.manager.dragged = none) (hbound : desk.manager.grabbed = some bound)
    (htold : Told desk.manager manager bound events)
    (hevents : ∀ button : MouseButton, signals button events =
      (if windowLowestButton (movement.changed &&& movement.buttons) = button.mask then [true]
        else []) ++
        if windowLowestButton (movement.changed &&& ~~~movement.buttons) = button.mask then [false]
        else [])
    (hrun : windowManagerHandleMouse desk.manager movement pixels =
      if movement.buttons = 0 then { manager with grabbed := none } else manager) :
    (desk.call (.mouse movement pixels)).Sound := by
  intro identifier window' hwindow' button
  have hafter : windowAt (WindowCall.run desk.manager (.mouse movement pixels)) identifier =
      some window' := hwindow'
  have hsame : ∀ other, windowAt (WindowCall.run desk.manager (.mouse movement pixels)) other =
      windowAt manager other := by
    intro other
    rw [WindowCall.run, hrun]
    split_ifs <;> rfl
  by_cases hother : identifier = bound
  · subst hother
    have hlossless : ∀ window', windowAt manager identifier = some window' → window'.dropped = 0 :=
      fun window' h ↦ hfits.lossless identifier window' ((hsame identifier).trans h)
    obtain ⟨window, hwindow, hgiven, hshown⟩ :=
      events_of_told htold hlossless ((hsame identifier).symm.trans hafter)
    obtain ⟨⟨halternates, hstill⟩, -, -⟩ := hsound identifier window hwindow button
    have hsignals := signals_call_of_events hwindow hafter hgiven hshown button
    have hanswer := hanswers identifier hundragged hbound
      (Option.isSome_iff_exists.mpr ⟨window, hwindow⟩) button
    have hmoved := alternates_movement hfits.changed halternates hstill hanswer
    dsimp only at hmoved
    rw [← hevents, ← hsignals] at hmoved
    refine ⟨hmoved, fun hpressed ↦ ?_, fun hpressed ↦ ?_⟩
    · rw [if_neg (MouseButton.ne_zero (hmoved.2 hpressed))] at hrun
      exact (congrArg WindowManager.grabbed hrun).trans (htold.grabbed.trans hbound)
    · rw [if_neg (MouseButton.ne_zero (hmoved.2 hpressed))] at hrun
      exact (congrArg WindowManager.dragged hrun).trans (htold.dragged.trans hundragged)
  · have hwindow : windowAt desk.manager identifier = some window' :=
      (htold.others identifier hother).symm.trans ((hsame identifier).symm.trans hafter)
    have hsignals := signals_call_of_events hwindow hafter (List.append_nil _).symm rfl button
    have hnothing : signals button [] = [] := rfl
    rw [hnothing, List.append_nil] at hsignals
    obtain ⟨⟨halternates, -⟩, hgrabbed, -⟩ := hsound identifier window' hwindow button
    apply Desk.Bound.of_not_pressed
    · rw [hsignals]
      exact halternates
    · rw [Desk.pressed, hsignals]
      intro hstands
      exact hother (Option.some.inj ((hgrabbed hstands).symm.trans hbound))

def windowPointed (manager : WindowManager) (movement : MouseEvent) : WindowManager :=
  { manager with pointerX := movement.x, pointerY := movement.y }

theorem quiet_pointed (manager : WindowManager) (movement : MouseEvent) :
    Quiet manager (windowPointed manager movement) := quiet_of_same (fun _ ↦ rfl) rfl id

section

variable {movement : MouseEvent} {pixels : Bool} (hactive : manager.active)
include hactive

theorem handleMouse_of_dragged {dragged : ℕ} (h : manager.dragged = some dragged) :
    windowManagerHandleMouse manager movement pixels =
      windowDrag (windowPointed manager movement) dragged movement := by
  cases manager
  dsimp only at h
  subst h
  exact if_neg (not_not.mpr hactive)

theorem handleMouse_of_bound {bound : ℕ} (hdragged : manager.dragged = none)
    (hgrabbed : manager.grabbed = some bound) :
    windowManagerHandleMouse manager movement pixels =
      windowBoundMovement (windowPointed manager movement) bound movement
        (movement.changed &&& movement.buttons) (movement.changed &&& ~~~movement.buttons) := by
  cases manager
  dsimp only at hdragged hgrabbed
  subst hdragged hgrabbed
  exact if_neg (not_not.mpr hactive)

theorem handleMouse_of_free (hdragged : manager.dragged = none) (hgrabbed : manager.grabbed = none) :
    movement.changed &&& movement.buttons ≠ 0 ∧
      windowManagerHandleMouse manager movement pixels =
        windowBeginPress (windowPointed manager movement) movement.x movement.y
          (windowLowestButton (movement.changed &&& movement.buttons)) movement.buttons pixels ∨
    Quiet manager (windowManagerHandleMouse manager movement pixels) := by
  cases manager
  dsimp only at hdragged hgrabbed
  subst hdragged hgrabbed
  unfold windowManagerHandleMouse
  rw [if_neg (not_not.mpr hactive)]
  dsimp only
  split_ifs with hpressed hreleased hmoved
  · exact Or.inl ⟨hpressed, rfl⟩
  · exact Or.inr (quiet_pointed _ movement)
  · right
    split
    · exact quiet_pointed _ movement
    · exact (quiet_pointed _ movement).trans (quiet_enqueuePointerMove _ _ _ _ _ _)
  · exact Or.inr (quiet_pointed _ movement)

end

theorem quiet_drag (manager : WindowManager) (dragged : ℕ) (movement : MouseEvent) :
    Quiet manager (windowDrag manager dragged movement) := by
  have hmoved := quiet_move manager dragged (movement.x - manager.dragOffsetX)
    (movement.y - manager.dragOffsetY)
  rw [windowDrag]
  split_ifs
  · exact hmoved.trans (quiet_of_same (fun _ ↦ rfl) rfl fun _ ↦ rfl)
  · exact hmoved

theorem sound_mouse {movement : MouseEvent} {pixels : Bool} (hsound : desk.Sound)
    (hfits : desk.Fits (.mouse movement pixels)) (hanswers : desk.Answers (.mouse movement pixels)) :
    (desk.call (.mouse movement pixels)).Sound := by
  have hrun : WindowCall.run desk.manager (.mouse movement pixels) =
      windowManagerHandleMouse desk.manager movement pixels := rfl
  by_cases hactive : ¬desk.manager.active
  · apply sound_call_of_silent hsound
    · rw [hrun, windowManagerHandleMouse, if_pos hactive]
      exact (Unheard.refl desk.manager).arrivals
    · intro identifier window hwindow
      exact absurd (windowAt_eq_some_iff.mp hwindow).1 hactive
  rw [not_not] at hactive
  cases hdragged : desk.manager.dragged with
  | some dragged =>
      apply sound_call_of_silent hsound
      · rw [hrun, handleMouse_of_dragged hactive hdragged]
        exact ((quiet_pointed _ _).trans (quiet_drag _ _ _)).grown.silent
      · intro identifier window hwindow button hpressed
        have hnone := (hsound identifier window hwindow button).dragged hpressed
        rw [hdragged] at hnone
        exact Option.some_ne_none dragged hnone
  | none =>
      cases hgrabbed : desk.manager.grabbed with
      | some bound =>
          obtain ⟨manager, events, htold, hevents, hmoved⟩ :=
            told_boundMovement (windowPointed desk.manager movement) bound movement
              (movement.changed &&& movement.buttons) (movement.changed &&& ~~~movement.buttons)
          have hbound := (@handleMouse_of_bound _ movement pixels hactive bound hdragged
            hgrabbed).trans hmoved
          have htold' : Told desk.manager manager bound events :=
            ⟨htold.told, htold.others, htold.grabbed, htold.dragged⟩
          exact sound_call_of_bound hsound hfits hanswers hdragged hgrabbed htold' hevents
            hbound
      | none =>
          have hnone : ∀ identifier window, windowAt desk.manager identifier = some window →
              ∀ button, ¬desk.pressed identifier button := by
            intro identifier window hwindow button hpressed
            have hsome := (hsound identifier window hwindow button).grabbed hpressed
            rw [hgrabbed] at hsome
            exact Option.some_ne_none identifier hsome.symm
          rcases handleMouse_of_free hactive hdragged hgrabbed with ⟨-, hpress⟩ | hquiet
          · rcases beginPress_cases (windowPointed desk.manager movement) movement.x movement.y
              (windowLowestButton (movement.changed &&& movement.buttons)) movement.buttons pixels
              with hsilent | ⟨manager, bound, events, hquiet, htold, hevents⟩
            · apply sound_call_of_silent hsound _ hnone
              rw [hrun, hpress]
              exact hsilent
            · rw [← hpress] at htold
              refine sound_call_of_press hsound hnone hfits.lossless
                ((quiet_pointed _ _).trans hquiet) hdragged htold hevents fun button hlowest ↦ ?_
              exact (MouseButton.in_and.mp (MouseButton.in_of_lowest hlowest)).2
          · exact sound_call_of_silent hsound hquiet.grown.silent hnone

theorem sound_call (hsound : desk.Sound) (hfits : desk.Fits call) (hanswers : desk.Answers call) :
    (desk.call call).Sound := by
  cases call with
  | initialise screenWidth screenHeight =>
      exact sound_call_of_unheard hsound (quiet_initialise _ _ _).unheard rfl
  | shutdown => exact sound_call_of_unheard hsound (quiet_shutdown _).unheard rfl
  | create x y width height layer supply =>
      exact sound_call_of_unheard hsound (unheard_create _ _ _ _ _ _ _) rfl
  | destroy identifier => exact sound_call_of_unheard hsound (quiet_destroy _ _).unheard rfl
  | destroyOwnedBy owner => exact sound_call_of_unheard hsound (quiet_destroyOwnedBy _ _).unheard rfl
  | setOwner identifier owner => exact sound_call_of_unheard hsound (quiet_setOwner _ _ _).unheard rfl
  | raise identifier => exact sound_call_of_unheard hsound (quiet_raise _ _).unheard rfl
  | focus identifier => exact sound_call_of_unheard hsound (quiet_focus _ _).unheard rfl
  | move identifier x y => exact sound_call_of_unheard hsound (quiet_move _ _ _ _).unheard rfl
  | setFull identifier full pixels =>
      exact sound_call_of_unheard hsound (quiet_setFull _ _ _ _).unheard rfl
  | minimise identifier => exact sound_call_of_unheard hsound (unheard_minimise _ _) rfl
  | restore identifier => exact sound_call_of_unheard hsound (unheard_restore _ _) rfl
  | readEvent identifier => exact sound_call_of_unheard hsound (unheard_readEvent _ _) rfl
  | announceNotification =>
      exact sound_call_of_unheard hsound (quiet_notifyRootsOf _ ⟨by decide, by decide⟩).unheard rfl
  | press key => exact sound_call_of_unheard hsound (quiet_handleKey _ _).unheard rfl
  | mouse movement pixels => exact sound_mouse hsound hfits hanswers

theorem sound_start (held : UInt8) : (deskStart held).Sound := by
  intro identifier window hwindow
  exact absurd (windowAt_eq_some_iff.mp hwindow).1 Bool.false_ne_true

theorem sound_run {held : UInt8}
    (hrun : Relation.ReflTransGen (DeskStep fun desk call ↦ desk.Fits call ∧ desk.Answers call)
      (deskStart held) desk) : desk.Sound := by
  induction hrun with
  | refl => exact sound_start held
  | tail _ hstep ih =>
      obtain ⟨call, ⟨hfits, hanswers⟩, rfl⟩ := hstep
      exact sound_call ih hfits hanswers

/-- In every run, what a window was told of a button, since it was made or was last minimised, are
presses and releases that alternate, and where a press stands the button is held. -/
theorem windows_paired {held : UInt8}
    (hrun : Relation.ReflTransGen (DeskStep fun desk call ↦ desk.Fits call ∧ desk.Answers call)
      (deskStart held) desk)
    (hwindow : windowAt desk.manager identifier = some window) (button : MouseButton) :
    Paired (desk.sinceMinimised identifier) button desk.held :=
  (sound_run hrun identifier window hwindow button).paired

def DeskRuns (allowed : Desk → WindowCall → Prop) : Desk → List WindowCall → Prop
  | _, [] => True
  | desk, call :: calls => allowed desk call ∧ DeskRuns allowed (desk.call call) calls

theorem reflTransGen_of_runs {allowed : Desk → WindowCall → Prop} {calls : List WindowCall}
    (h : DeskRuns allowed desk calls) :
    Relation.ReflTransGen (DeskStep allowed) desk (calls.foldl Desk.call desk) := by
  induction calls generalizing desk with
  | nil => exact Relation.ReflTransGen.refl
  | cons call calls ih => exact Relation.ReflTransGen.head ⟨call, h.1, rfl⟩ (ih h.2)

theorem Desk.fits_of (hchanged : call.Differs desk.held)
    (hdropped : ∀ identifier < (call.run desk.manager).windows.capacity,
      ((call.run desk.manager).windows.entry identifier).dropped = 0) : desk.Fits call := by
  refine ⟨hchanged, fun identifier window hwindow ↦ ?_⟩
  obtain ⟨-, hless, -, rfl⟩ := windowAt_eq_some_iff.mp hwindow
  exact hdropped identifier hless

def callsOfMinimised : List WindowCall :=
  [.initialise 640 480, .create 100 100 200 200 .normal ⟨true, 1, true⟩,
    .mouse ⟨150, 200, 0, 0, 0, mouseButtonLeft, mouseButtonLeft⟩ true, .minimise 0,
    .mouse ⟨150, 200, 0, 0, 0, 0, mouseButtonLeft⟩ true]

/-- A press that was told before a window was minimised is not answered. -/
theorem windows_not_paired_sinceMade :
    ¬∀ held desk, Relation.ReflTransGen (DeskStep Desk.Fits) (deskStart held) desk →
      ∀ identifier window, windowAt desk.manager identifier = some window →
        ∀ button, Paired (desk.sinceMade identifier) button desk.held := by
  intro hall
  have hruns : DeskRuns Desk.Fits (deskStart 0) callsOfMinimised := by
    exact ⟨Desk.fits_of trivial (by decide +kernel), Desk.fits_of trivial (by decide +kernel),
      Desk.fits_of rfl (by decide +kernel), Desk.fits_of trivial (by decide +kernel),
      Desk.fits_of rfl (by decide +kernel), trivial⟩
  have hpaired := hall 0 _ (reflTransGen_of_runs hruns) 0 _ rfl .left
  exact absurd (hpaired.2 (by decide +kernel)) (by decide +kernel)

theorem Desk.answers_of {movement : MouseEvent} {pixels : Bool}
    (h : ∀ bound ∈ desk.manager.grabbed, ∀ button ∈ [MouseButton.left, .right, .middle],
      button.In (movement.changed &&& ~~~movement.buttons) →
        (desk.pressed bound button ↔
          windowLowestButton (movement.changed &&& ~~~movement.buttons) = button.mask)) :
    desk.Answers (.mouse movement pixels) := by
  intro bound _ hbound _ button
  exact h bound hbound button (by cases button <;> decide)

def callsOfTwoButtons : List WindowCall :=
  [.initialise 640 480, .create 100 100 200 200 .normal ⟨true, 1, true⟩,
    .mouse ⟨150, 200, 0, 0, 0, mouseButtonLeft, mouseButtonLeft⟩ true,
    .mouse ⟨150, 200, 0, 0, 0, mouseButtonLeft ||| mouseButtonRight, mouseButtonRight⟩ true,
    .readEvent 0,
    .mouse ⟨600, 200, 450, 0, 0, mouseButtonRight, mouseButtonLeft⟩ true,
    .mouse ⟨600, 200, 0, 0, 0, 0, mouseButtonRight⟩ true]

theorem windows_paired_twoButtons :
    Paired ((callsOfTwoButtons.foldl Desk.call (deskStart 0)).sinceMinimised 0) .left 0 := by
  have hruns : DeskRuns (fun desk call ↦ desk.Fits call ∧ desk.Answers call) (deskStart 0)
      callsOfTwoButtons := by
    exact ⟨⟨Desk.fits_of trivial (by decide +kernel), trivial⟩,
      ⟨Desk.fits_of trivial (by decide +kernel), trivial⟩,
      ⟨Desk.fits_of rfl (by decide +kernel), Desk.answers_of (by decide +kernel)⟩,
      ⟨Desk.fits_of rfl (by decide +kernel), Desk.answers_of (by decide +kernel)⟩,
      ⟨Desk.fits_of trivial (by decide +kernel), trivial⟩,
      ⟨Desk.fits_of rfl (by decide +kernel), Desk.answers_of (by decide +kernel)⟩,
      ⟨Desk.fits_of rfl (by decide +kernel), Desk.answers_of (by decide +kernel)⟩, trivial⟩
  exact windows_paired (reflTransGen_of_runs hruns) rfl .left

end OxysOS.Graphics
