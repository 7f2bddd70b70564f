import OxysOS.Graphics.Window
import Mathlib.Data.Nat.Bitwise

/-!
# What the windows are told of the buttons

The presses and releases of a button among the events of a window.
-/

namespace OxysOS.Graphics

open OxysOS.Mm

inductive MouseButton
  | left
  | right
  | middle
  deriving DecidableEq

def MouseButton.mask : MouseButton → UInt8
  | left => mouseButtonLeft
  | right => mouseButtonRight
  | middle => mouseButtonMiddle

def MouseButton.In (button : MouseButton) (buttons : UInt8) : Prop := buttons &&& button.mask ≠ 0

instance (button : MouseButton) (buttons : UInt8) : Decidable (button.In buttons) :=
  inferInstanceAs (Decidable (_ ≠ _))

variable {button : MouseButton} {buttons : UInt8}

def MouseButton.place : MouseButton → ℕ
  | left => 0
  | right => 1
  | middle => 2

theorem MouseButton.in_iff :
    button.In buttons ↔ buttons.toBitVec.getLsbD button.place = true := by
  have hmask : button.mask.toNat = 2 ^ button.place := by cases button <;> rfl
  rw [MouseButton.In, ne_eq, ← UInt8.toNat_inj, UInt8.toNat_and, hmask, Nat.and_two_pow,
    ← BitVec.testBit_toNat, UInt8.toNat_toBitVec]
  cases buttons.toNat.testBit button.place <;> simp

theorem MouseButton.in_and {other : UInt8} :
    button.In (buttons &&& other) ↔ button.In buttons ∧ button.In other := by
  rw [in_iff, in_iff, in_iff, UInt8.toBitVec_and, BitVec.getLsbD_and, Bool.and_eq_true]

theorem MouseButton.in_not : button.In (~~~buttons) ↔ ¬button.In buttons := by
  have hplace : button.place < 8 := by cases button <;> decide
  rw [in_iff, in_iff, UInt8.toBitVec_not, BitVec.getLsbD_not, decide_eq_true hplace, Bool.true_and,
    Bool.not_eq_true', Bool.not_eq_true]

theorem MouseButton.in_xor {other : UInt8} :
    button.In (buttons ^^^ other) ↔ (button.In buttons ↔ ¬button.In other) := by
  rw [in_iff, in_iff, in_iff, UInt8.toBitVec_xor, BitVec.getLsbD_xor]
  cases buttons.toBitVec.getLsbD button.place <;> cases other.toBitVec.getLsbD button.place <;>
    decide

theorem MouseButton.not_in_zero : ¬button.In 0 := by cases button <;> decide

theorem MouseButton.ne_zero (h : button.In buttons) : buttons ≠ 0 := by
  rintro rfl
  exact not_in_zero h

theorem MouseButton.mask_injective {other : MouseButton} (h : button.mask = other.mask) :
    button = other := by
  revert h
  cases button <;> cases other <;> decide

theorem MouseButton.in_of_lowest (h : windowLowestButton buttons = button.mask) :
    button.In buttons := by
  unfold windowLowestButton at h
  split_ifs at h with hleft hright hmiddle
  · obtain rfl : MouseButton.left = button := mask_injective h
    exact hleft
  · obtain rfl : MouseButton.right = button := mask_injective h
    exact hright
  · obtain rfl : MouseButton.middle = button := mask_injective h
    exact hmiddle
  · exact absurd h (by cases button <;> decide)

def WindowEvent.IsButton (event : WindowEvent) : Prop :=
  event.kind = .buttonPress ∨ event.kind = .buttonRelease

def WindowEventKind.signal : WindowEventKind → Option Bool
  | .buttonPress => some true
  | .buttonRelease => some false
  | _ => none

def WindowEvent.signal (button : MouseButton) (event : WindowEvent) : Option Bool :=
  if event.button = button.mask then event.kind.signal else none

def signals (button : MouseButton) (events : List WindowEvent) : List Bool :=
  events.filterMap (WindowEvent.signal button)

theorem signals_append (button : MouseButton) (events more : List WindowEvent) :
    signals button (events ++ more) = signals button events ++ signals button more :=
  List.filterMap_append

theorem signals_of_quiet {events : List WindowEvent} (h : ∀ event ∈ events, ¬event.IsButton) :
    signals button events = [] := by
  rw [signals, List.filterMap_eq_nil_iff]
  intro event hevent
  have hquiet := h event hevent
  rw [WindowEvent.IsButton, not_or] at hquiet
  rw [WindowEvent.signal, ite_eq_right_iff]
  intro _
  cases hkind : event.kind with
  | buttonPress => exact absurd hkind hquiet.1
  | buttonRelease => exact absurd hkind hquiet.2
  | _ => rfl

variable {manager manager' manager'' : WindowManager} {identifier other : ℕ}
  {window window' : Window} {event : WindowEvent}

theorem windowAt_eq_some_iff : windowAt manager identifier = some window ↔
    manager.active ∧ identifier < manager.windows.capacity ∧
      (manager.windows.entry identifier).inUse ∧ manager.windows.entry identifier = window := by
  unfold windowAt windowSlot
  split_ifs with h
  · refine iff_of_false (by simp) ?_
    rintro ⟨hactive, hless, huse, -⟩
    rcases h with hnot | hge | hnot
    · exact hnot hactive
    · omega
    · exact hnot huse
  · rw [not_or, not_or, not_not, not_le, not_not] at h
    rw [Option.some.injEq]
    exact ⟨fun heq ↦ ⟨h.1, h.2.1, h.2.2, heq⟩, fun hall ↦ hall.2.2.2⟩

theorem windowAt_put_of_ne (manager : WindowManager) (window : Window) (h : other ≠ identifier) :
    windowAt (windowPut manager identifier window) other = windowAt manager other := by
  unfold windowAt windowSlot windowPut
  dsimp only
  rw [GrowingTable.put_entry_of_ne _ _ h]
  rfl

theorem windowAt_put (h : windowAt manager identifier = some window) (huse : window'.inUse)
    (other : ℕ) : windowAt (windowPut manager identifier window') other =
      if other = identifier then some window' else windowAt manager other := by
  obtain ⟨hactive, hless, -, -⟩ := windowAt_eq_some_iff.mp h
  split_ifs with hother
  · subst hother
    apply windowAt_eq_some_iff.mpr
    rw [windowPut, GrowingTable.put_entry_self]
    exact ⟨hactive, hless, huse, rfl⟩
  · exact windowAt_put_of_ne manager window' hother

theorem inUse_of_windowAt (h : windowAt manager identifier = some window) : window.inUse := by
  obtain ⟨-, -, huse, rfl⟩ := windowAt_eq_some_iff.mp h
  exact huse

structure WindowKept (window window' : Window) : Prop where
  events : ∃ more, window'.events = window.events ++ more ∧ ∀ event ∈ more, ¬event.IsButton
  minimised : window'.minimised = window.minimised
  dropped : window.dropped ≤ window'.dropped

theorem WindowKept.refl (window : Window) : WindowKept window window :=
  ⟨⟨[], (List.append_nil _).symm, by simp⟩, rfl, le_rfl⟩

theorem WindowKept.trans {window'' : Window} (h : WindowKept window window')
    (h' : WindowKept window' window'') : WindowKept window window'' := by
  obtain ⟨more, hmore, hquiet⟩ := h.events
  obtain ⟨more', hmore', hquiet'⟩ := h'.events
  refine ⟨⟨more ++ more', ?_, ?_⟩, h'.minimised.trans h.minimised, h.dropped.trans h'.dropped⟩
  · rw [hmore', hmore, List.append_assoc]
  · intro event hevent
    rcases List.mem_append.mp hevent with hfirst | hlast
    · exact hquiet event hfirst
    · exact hquiet' event hlast

/-- What a call that tells of no button does: the windows that are left are what they were, a
window that is bound stays so, and no drag begins. -/
structure Quiet (manager manager' : WindowManager) : Prop where
  windows : ∀ identifier window', windowAt manager' identifier = some window' →
    ∃ window, windowAt manager identifier = some window ∧ WindowKept window window' ∧
      (manager.grabbed = some identifier → manager'.grabbed = some identifier)
  dragged : manager.dragged = none → manager'.dragged = none

theorem Quiet.refl (manager : WindowManager) : Quiet manager manager :=
  ⟨fun _ window hwindow ↦ ⟨window, hwindow, WindowKept.refl window, id⟩, id⟩

theorem Quiet.trans (h : Quiet manager manager') (h' : Quiet manager' manager'') :
    Quiet manager manager'' := by
  refine ⟨fun identifier window'' hwindow'' ↦ ?_, h'.dragged ∘ h.dragged⟩
  obtain ⟨window', hwindow', hkept', hgrabbed'⟩ := h'.windows identifier window'' hwindow''
  obtain ⟨window, hwindow, hkept, hgrabbed⟩ := h.windows identifier window' hwindow'
  exact ⟨window, hwindow, hkept.trans hkept', hgrabbed' ∘ hgrabbed⟩

theorem quiet_of_same (hat : ∀ identifier, windowAt manager' identifier = windowAt manager identifier)
    (hgrabbed : manager'.grabbed = manager.grabbed)
    (hdragged : manager.dragged = none → manager'.dragged = none) : Quiet manager manager' := by
  refine ⟨fun identifier window' hwindow' ↦ ?_, hdragged⟩
  rw [hat] at hwindow'
  exact ⟨window', hwindow', WindowKept.refl window', fun h ↦ hgrabbed.trans h⟩

theorem quiet_put (h : windowAt manager identifier = some window) (huse : window'.inUse)
    (hkept : WindowKept window window') : Quiet manager (windowPut manager identifier window') := by
  refine ⟨fun other other' hother' ↦ ?_, id⟩
  rw [windowAt_put h huse] at hother'
  split_ifs at hother' with hsame
  · cases hother'
    subst hsame
    exact ⟨window, h, hkept, id⟩
  · exact ⟨other', hother', WindowKept.refl other', id⟩

theorem quiet_alter (h : windowAt manager identifier = some window)
    (huse : window'.inUse = window.inUse) (hevents : window'.events = window.events)
    (hminimised : window'.minimised = window.minimised)
    (hdropped : window'.dropped = window.dropped) :
    Quiet manager (windowPut manager identifier window') := by
  apply quiet_put h
  · rw [huse]
    exact inUse_of_windowAt h
  · exact ⟨⟨[], by rw [hevents, List.append_nil], by simp⟩, hminimised, hdropped.ge⟩

theorem quiet_foldl {α : Type} {f : WindowManager → α → WindowManager}
    (h : ∀ manager item, Quiet manager (f manager item)) (items : List α)
    (manager : WindowManager) : Quiet manager (items.foldl f manager) := by
  induction items generalizing manager with
  | nil => exact Quiet.refl manager
  | cons item items ih => exact (h manager item).trans (ih (f manager item))

def Window.given (window : Window) (event : WindowEvent) : Window :=
  if window.events.length = windowEventCapacity then { window with dropped := window.dropped + 1 }
  else { window with events := window.events ++ [event] }

theorem Window.given_inUse (window : Window) (event : WindowEvent) :
    (window.given event).inUse = window.inUse := by
  rw [given]
  split_ifs <;> rfl

theorem Window.kept_given (window : Window) (hevent : ¬event.IsButton) :
    WindowKept window (window.given event) := by
  rw [given]
  split_ifs
  · exact ⟨⟨[], (List.append_nil _).symm, by simp⟩, rfl, Nat.le_succ _⟩
  · exact ⟨⟨[event], rfl, by simpa using hevent⟩, rfl, le_rfl⟩

theorem windowAt_enqueue (manager : WindowManager) (identifier : ℕ) (event : WindowEvent)
    (other : ℕ) : windowAt (windowEnqueue manager identifier event) other =
      if other = identifier then (windowAt manager identifier).map (Window.given · event)
      else windowAt manager other := by
  rw [windowEnqueue]
  cases hwindow : windowAt manager identifier with
  | none =>
      dsimp only
      split_ifs with hother
      · subst hother
        exact hwindow
      · rfl
  | some window =>
      have hgiven := @windowAt_put manager identifier window (window.given event) hwindow
        (by rw [Window.given_inUse]; exact inUse_of_windowAt hwindow) other
      rw [Option.map_some, ← hgiven, Window.given]
      dsimp only
      split_ifs <;> rfl

@[simp] theorem enqueue_grabbed (manager : WindowManager) (identifier : ℕ) (event : WindowEvent) :
    (windowEnqueue manager identifier event).grabbed = manager.grabbed := by
  rw [windowEnqueue]
  split
  · rfl
  · split_ifs <;> rfl

@[simp] theorem enqueue_dragged (manager : WindowManager) (identifier : ℕ) (event : WindowEvent) :
    (windowEnqueue manager identifier event).dragged = manager.dragged := by
  rw [windowEnqueue]
  split
  · rfl
  · split_ifs <;> rfl

theorem quiet_enqueue (manager : WindowManager) (identifier : ℕ) (hevent : ¬event.IsButton) :
    Quiet manager (windowEnqueue manager identifier event) := by
  refine ⟨fun other window' hwindow' ↦ ?_, fun h ↦ by rw [enqueue_dragged, h]⟩
  rw [windowAt_enqueue] at hwindow'
  rw [enqueue_grabbed]
  split_ifs at hwindow' with hother
  · obtain ⟨window, hwindow, rfl⟩ := Option.map_eq_some_iff.mp hwindow'
    subst hother
    exact ⟨window, hwindow, window.kept_given hevent, id⟩
  · exact ⟨window', hwindow', WindowKept.refl window', id⟩

def WindowEventKind.IsQuiet (kind : WindowEventKind) : Prop :=
  kind ≠ .buttonPress ∧ kind ≠ .buttonRelease

theorem quiet_enqueueKind (manager : WindowManager) (identifier : ℕ) {kind : WindowEventKind}
    (hkind : kind.IsQuiet) : Quiet manager (windowEnqueueKind manager identifier kind) := by
  apply quiet_enqueue
  rintro (hpress | hrelease)
  · exact hkind.1 hpress
  · exact hkind.2 hrelease

theorem quiet_notifyRootsOf (manager : WindowManager) {kind : WindowEventKind}
    (hkind : kind.IsQuiet) : Quiet manager (windowNotifyRootsOf manager kind) := by
  apply quiet_foldl
  intro manager identifier
  cases windowAt manager identifier with
  | none => exact Quiet.refl manager
  | some root =>
      dsimp only
      split_ifs
      · exact Quiet.refl manager
      · exact Quiet.refl manager
      · exact quiet_enqueueKind manager identifier hkind

theorem quiet_notifyRoots (manager : WindowManager) : Quiet manager (windowNotifyRoots manager) :=
  quiet_notifyRootsOf manager ⟨by decide, by decide⟩

theorem quiet_enqueuePointerMove (manager : WindowManager) (identifier : ℕ) (x y : ℤ)
    (button buttons : UInt8) :
    Quiet manager (windowEnqueuePointer manager identifier .pointerMove x y button buttons) := by
  rw [windowEnqueuePointer]
  cases windowAt manager identifier with
  | none => exact quiet_of_same (fun _ ↦ rfl) rfl id
  | some target =>
      apply quiet_enqueue
      rintro (hpress | hrelease) <;> contradiction

theorem quiet_tell (manager : WindowManager) (identifier : Option ℕ) {kind : WindowEventKind}
    (hkind : kind.IsQuiet) : Quiet manager (windowTell manager identifier kind) := by
  cases identifier with
  | none => exact Quiet.refl manager
  | some identifier =>
      rw [windowTell]
      split_ifs
      · exact Quiet.refl manager
      · exact quiet_enqueueKind manager identifier hkind

theorem quiet_transferFocus (manager : WindowManager) (identifier : Option ℕ) :
    Quiet manager (windowTransferFocus manager identifier) := by
  rw [windowTransferFocus]
  dsimp only
  have hfocused : Quiet manager { manager with focused := identifier } :=
    quiet_of_same (fun _ ↦ rfl) rfl id
  have hout := hfocused.trans (@quiet_tell { manager with focused := identifier } manager.focused
    .focusOut ⟨by decide, by decide⟩)
  have hin := hout.trans (@quiet_tell _ identifier .focusIn ⟨by decide, by decide⟩)
  split_ifs
  · exact Quiet.refl manager
  · exact hin.trans (quiet_notifyRoots _)
  · exact hin

theorem quiet_focus (manager : WindowManager) (identifier : ℕ) :
    Quiet manager (windowFocus manager identifier) := by
  rw [windowFocus]
  split_ifs
  · exact Quiet.refl manager
  · exact quiet_transferFocus manager (some identifier)

theorem quiet_stack (manager : WindowManager) (stack : List ℕ) :
    Quiet manager { manager with stack } := quiet_of_same (fun _ ↦ rfl) rfl id

theorem quiet_raise (manager : WindowManager) (identifier : ℕ) :
    Quiet manager (windowRaise manager identifier) := by
  rw [windowRaise]
  split
  · exact Quiet.refl manager
  · split
    · exact Quiet.refl manager
    · split
      · exact Quiet.refl manager
      · split_ifs
        · exact Quiet.refl manager
        · exact (quiet_stack manager _).trans (quiet_stack _ _)

theorem quiet_move (manager : WindowManager) (identifier : ℕ) (x y : ℤ) :
    Quiet manager (windowMove manager identifier x y) := by
  rw [windowMove]
  cases hwindow : windowAt manager identifier with
  | none => exact Quiet.refl manager
  | some window =>
      dsimp only
      split_ifs
      · exact Quiet.refl manager
      · exact quiet_alter hwindow rfl rfl rfl rfl

theorem quiet_setOwner (manager : WindowManager) (identifier owner : ℕ) :
    Quiet manager (windowSetOwner manager identifier owner) := by
  rw [windowSetOwner]
  cases hwindow : windowAt manager identifier with
  | none => exact Quiet.refl manager
  | some window => exact quiet_alter hwindow rfl rfl rfl rfl

theorem windowSlot_of_windowAt (h : windowAt manager identifier = some window) :
    windowSlot manager identifier = window := by
  obtain ⟨-, -, -, hentry⟩ := windowAt_eq_some_iff.mp h
  exact hentry

theorem quiet_resizeContent {x y width height : ℤ} {pixels : Bool}
    (h : windowAt manager identifier = some window)
    (hresized : windowResizeContent manager identifier x y width height pixels = some manager') :
    Quiet manager manager' ∧ ∃ window', windowAt manager' identifier = some window' := by
  rw [windowResizeContent, windowSlot_of_windowAt h] at hresized
  split_ifs at hresized
  obtain rfl := Option.some.inj hresized
  have huse := inUse_of_windowAt h
  have hput := @quiet_alter manager identifier window { window with x, y, width, height } h rfl rfl
    rfl rfl
  have hat := @windowAt_put manager identifier window { window with x, y, width, height } h huse
    identifier
  refine ⟨hput.trans (quiet_enqueue _ _ ?_), ?_⟩
  · rintro (hpress | hrelease) <;> contradiction
  · rw [windowAt_enqueue, if_pos rfl, hat, if_pos rfl]
    exact ⟨_, rfl⟩

theorem quiet_fullSet (manager : WindowManager) (identifier : ℕ) :
    Quiet manager (windowFullSet manager identifier) := by
  refine Quiet.trans ?_ (quiet_notifyRoots _)
  refine quiet_of_same (fun _ ↦ rfl) rfl fun hnone ↦ ?_
  dsimp only
  rw [hnone]
  split_ifs <;> rfl

theorem quiet_setFull (manager : WindowManager) (identifier : ℕ) (full pixels : Bool) :
    Quiet manager (windowSetFull manager identifier full pixels).1 := by
  rw [windowSetFull]
  cases hwindow : windowAt manager identifier with
  | none => exact Quiet.refl manager
  | some window =>
      dsimp only
      by_cases hplain : ¬window.decorated
      · rw [if_pos hplain]
        exact Quiet.refl manager
      rw [if_neg hplain]
      by_cases hsame : full = window.full
      · rw [if_pos hsame]
        exact Quiet.refl manager
      rw [if_neg hsame]
      cases full with
      | true =>
          rw [if_pos rfl]
          split
          · exact Quiet.refl manager
          · rename_i resized hresized
            obtain ⟨hquiet, window', hwindow'⟩ := quiet_resizeContent hwindow hresized
            dsimp only
            rw [windowSlot_of_windowAt hwindow']
            refine (hquiet.trans ?_).trans (quiet_fullSet _ _)
            exact quiet_alter hwindow' rfl rfl rfl rfl
      | false =>
          rw [if_neg Bool.false_ne_true]
          split
          · exact Quiet.refl manager
          · rename_i resized hresized
            obtain ⟨hquiet, window', hwindow'⟩ := quiet_resizeContent hwindow hresized
            dsimp only
            rw [windowSlot_of_windowAt hwindow']
            refine Quiet.trans (Quiet.trans (hquiet.trans ?_) (quiet_move _ _ _ _))
              (quiet_fullSet _ _)
            exact quiet_alter hwindow' rfl rfl rfl rfl

theorem not_inUse_of_releaseAll {identifier : ℕ} (h : identifier < manager.windows.capacity) :
    ¬((windowReleaseAll manager).windows.entry identifier).inUse := by
  dsimp only [windowReleaseAll]
  split_ifs with huse
  · exact not_false
  · exact fun hused ↦ huse ⟨h, hused⟩

theorem quiet_initialise (manager : WindowManager) (screenWidth screenHeight : ℤ) :
    Quiet manager (windowManagerInitialise manager screenWidth screenHeight) := by
  refine ⟨fun identifier window' hwindow' ↦ ?_, fun _ ↦ rfl⟩
  obtain ⟨-, hless, huse, -⟩ := windowAt_eq_some_iff.mp hwindow'
  exact absurd huse (not_inUse_of_releaseAll hless)

theorem quiet_shutdown (manager : WindowManager) :
    Quiet manager (windowManagerShutdown manager) := by
  rw [windowManagerShutdown]
  by_cases hactive : ¬manager.active
  · rw [if_pos hactive]
    exact Quiet.refl manager
  · rw [if_neg hactive]
    refine ⟨fun identifier window' hwindow' ↦ ?_, fun _ ↦ rfl⟩
    obtain ⟨hstill, -, -, -⟩ := windowAt_eq_some_iff.mp hwindow'
    exact absurd hstill Bool.false_ne_true

theorem quiet_vacate (manager : WindowManager) (identifier : ℕ) (h : ¬window'.inUse) :
    Quiet manager
      { windowPut manager identifier window' with
        grabbed := if manager.grabbed = some identifier then none else manager.grabbed
        dragged := if manager.dragged = some identifier then none else manager.dragged } := by
  refine ⟨fun other other' hother' ↦ ?_, fun hnone ↦ ?_⟩
  · obtain ⟨hactive, hless, huse, hentry⟩ := windowAt_eq_some_iff.mp hother'
    have hne : other ≠ identifier := by
      rintro rfl
      dsimp only [windowPut] at huse
      rw [GrowingTable.put_entry_self] at huse
      exact h huse
    dsimp only [windowPut] at hless huse hentry
    rw [GrowingTable.put_entry_of_ne _ _ hne] at huse hentry
    have hother : windowAt manager other = some other' :=
      windowAt_eq_some_iff.mpr ⟨hactive, hless, huse, hentry⟩
    refine ⟨other', hother, WindowKept.refl other', fun hgrabbed ↦ ?_⟩
    have hbound : ¬manager.grabbed = some identifier := by
      rw [hgrabbed, Option.some.injEq]
      exact hne
    dsimp only
    rw [if_neg hbound, hgrabbed]
  · dsimp only
    rw [hnone]
    split_ifs <;> rfl

theorem quiet_unfocus (h : Quiet manager manager') (identifier : ℕ) :
    Quiet manager
      (if manager'.focused ≠ some identifier then manager'
      else
        let unfocused : WindowManager := { manager' with focused := none }
        if unfocused.stack.isEmpty then unfocused
        else windowTransferFocus unfocused (windowTopmostFocusable unfocused)) := by
  have hunfocused : Quiet manager { manager' with focused := none } :=
    h.trans (quiet_of_same (fun _ ↦ rfl) rfl id)
  dsimp only
  split_ifs
  · exact h
  · exact hunfocused
  · exact hunfocused.trans (quiet_transferFocus _ _)

theorem quiet_destroy (manager : WindowManager) (identifier : ℕ) :
    Quiet manager (windowDestroy manager identifier) := by
  rw [windowDestroy]
  cases hwindow : windowAt manager identifier with
  | none => exact Quiet.refl manager
  | some window =>
      have hvacated := (quiet_stack manager (manager.stack.erase identifier)).trans
        (@quiet_vacate { window with inUse := false, events := [] } _ identifier
          Bool.false_ne_true)
      have hunfocused := quiet_unfocus hvacated identifier
      dsimp only
      by_cases hnormal : window.layer = .normal
      · rw [if_pos hnormal]
        exact hunfocused.trans (quiet_notifyRoots _)
      · rw [if_neg hnormal]
        exact hunfocused

theorem quiet_destroyOwnedBy (manager : WindowManager) (owner : ℕ) :
    Quiet manager (windowDestroyOwnedBy manager owner) := by
  rw [windowDestroyOwnedBy]
  by_cases hactive : ¬manager.active
  · rw [if_pos hactive]
    exact Quiet.refl manager
  · rw [if_neg hactive]
    apply quiet_foldl
    intro manager index
    split_ifs
    · exact quiet_destroy manager index
    · exact Quiet.refl manager

theorem quiet_handleKey (manager : WindowManager) (key : KeyEvent) :
    Quiet manager (windowManagerHandleKey manager key) := by
  have hdiscarded : Quiet manager { manager with discarded := manager.discarded + 1 } :=
    quiet_of_same (fun _ ↦ rfl) rfl id
  rw [windowManagerHandleKey]
  by_cases hactive : ¬manager.active
  · rw [if_pos hactive]
    exact Quiet.refl manager
  rw [if_neg hactive]
  split
  · exact hdiscarded
  · split_ifs
    · exact hdiscarded
    · apply quiet_enqueue
      rintro (hpress | hrelease) <;> contradiction

end OxysOS.Graphics
