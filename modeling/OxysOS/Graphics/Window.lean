import OxysOS.Drivers.Mouse
import OxysOS.Graphics.Surface
import OxysOS.Mm.Table

/-!
# The window manager

`graphics/window.c`: the table of windows, the stack they stand in, the focus, the binding of the
pointer, and the queues of events.  The surface, the title and the damage of a window are no part
of what is routed.  Whether the heap supplies what a call asks of it is given with the call.
-/

namespace OxysOS.Graphics

open OxysOS.Drivers OxysOS.Mm

def windowChunk : ℕ := 16

def windowEventCapacity : ℕ := 32

def windowTitleHeight : ℤ := 24

def windowBorder : ℤ := 1

def windowMinimumExtent : ℤ := 16

def windowMaximumExtent : ℤ := 4096

def windowReachableWidth : ℤ := 48

def windowCloseInset : ℤ := 14

def windowCloseReach : ℤ := 12

def windowControlSpacing : ℤ := 2 * windowCloseReach + 2

def windowControlClose : ℤ := 0

def windowControlFull : ℤ := 1

def windowControlMinimise : ℤ := 2

def windowControlsMinimumWidth : ℤ := 120

def mouseButtonLeft : UInt8 := 0x01

def mouseButtonRight : UInt8 := 0x02

def mouseButtonMiddle : UInt8 := 0x04

/-- `WindowLayer`, from the bottom of the screen upward. -/
inductive WindowLayer
  | root
  | normal
  | panel
  deriving DecidableEq

def WindowLayer.rank : WindowLayer → ℕ
  | root => 0
  | normal => 1
  | panel => 2

inductive WindowEventKind
  | key
  | pointerMove
  | buttonPress
  | buttonRelease
  | focusIn
  | focusOut
  | close
  | resize
  | windows
  | notify
  deriving DecidableEq

structure KeyEvent where
  scancode : UInt8
  character : UInt8
  modifiers : UInt8
  pressed : Bool
  extended : Bool
  deriving DecidableEq

def noKey : KeyEvent := ⟨0, 0, 0, false, false⟩

structure WindowEvent where
  kind : WindowEventKind
  x : ℤ
  y : ℤ
  button : UInt8
  buttons : UInt8
  key : KeyEvent
  deriving DecidableEq

/-- `Window`, with its queue as the events in it, the oldest first. -/
structure Window where
  inUse : Bool
  x : ℤ
  y : ℤ
  width : ℤ
  height : ℤ
  owner : ℕ
  layer : WindowLayer
  decorated : Bool
  minimised : Bool
  full : Bool
  restoreX : ℤ
  restoreY : ℤ
  restoreWidth : ℤ
  restoreHeight : ℤ
  events : List WindowEvent
  dropped : ℕ

def zeroedWindow : Window where
  inUse := false
  x := 0
  y := 0
  width := 0
  height := 0
  owner := 0
  layer := .root
  decorated := false
  minimised := false
  full := false
  restoreX := 0
  restoreY := 0
  restoreWidth := 0
  restoreHeight := 0
  events := []
  dropped := 0

/-- The state of the manager.  Where no window is meant, as by `WINDOW_NONE`, there is none. -/
structure WindowManager where
  active : Bool
  screenWidth : ℤ
  screenHeight : ℤ
  windows : GrowingTable Window
  stackChunkCount : ℕ
  stack : List ℕ
  focused : Option ℕ
  grabbed : Option ℕ
  dragged : Option ℕ
  dragOffsetX : ℤ
  dragOffsetY : ℤ
  pointerX : ℤ
  pointerY : ℤ
  routed : ℕ
  discarded : ℕ

def windowManagerStart : WindowManager where
  active := false
  screenWidth := 0
  screenHeight := 0
  windows := ⟨windowChunk, by decide, 1, fun _ ↦ zeroedWindow⟩
  stackChunkCount := 1
  stack := []
  focused := none
  grabbed := none
  dragged := none
  dragOffsetX := 0
  dragOffsetY := 0
  pointerX := 0
  pointerY := 0
  routed := 0
  discarded := 0

variable (manager : WindowManager)

def windowSlot (identifier : ℕ) : Window := manager.windows.entry identifier

def windowPut (identifier : ℕ) (window : Window) : WindowManager :=
  { manager with windows := manager.windows.put identifier window }

def windowAt (identifier : ℕ) : Option Window :=
  if ¬manager.active ∨ identifier ≥ manager.windows.capacity ∨
      ¬(windowSlot manager identifier).inUse then none
  else some (windowSlot manager identifier)

def windowFrameOf (window : Window) : GraphicsRectangle :=
  if ¬window.decorated then ⟨window.x, window.y, window.width, window.height⟩
  else ⟨window.x, window.y, window.width + 2 * windowBorder,
    window.height + windowTitleHeight + 2 * windowBorder⟩

def windowContentOf (window : Window) : GraphicsRectangle :=
  if ¬window.decorated then ⟨window.x, window.y, window.width, window.height⟩
  else ⟨window.x + windowBorder, window.y + windowBorder + windowTitleHeight, window.width,
    window.height⟩

def windowTitleBandOf (window : Window) : GraphicsRectangle :=
  if ¬window.decorated then ⟨0, 0, 0, 0⟩
  else ⟨window.x + windowBorder, window.y + windowBorder, window.width, windowTitleHeight⟩

def windowControlReachOf (window : Window) (control : ℤ) : GraphicsRectangle :=
  let frame := windowFrameOf window
  if ¬window.decorated ∨
      control ≠ windowControlClose ∧ frame.width < windowControlsMinimumWidth then ⟨0, 0, 0, 0⟩
  else
    let centreX := frame.x + frame.width - windowBorder - windowCloseInset -
      control * windowControlSpacing
    let centreY := frame.y + windowBorder + windowTitleHeight / 2
    ⟨centreX - windowCloseReach, centreY - windowCloseReach, 2 * windowCloseReach + 1,
      2 * windowCloseReach + 1⟩

def windowCloseReachOf (window : Window) : GraphicsRectangle :=
  windowControlReachOf window windowControlClose

def windowConfine (window : Window) (x y : ℤ) : ℤ × ℤ :=
  let frameWidth := window.width + 2 * windowBorder
  let bandHeight := windowTitleHeight + 2 * windowBorder
  let reach := if windowReachableWidth > frameWidth then frameWidth else windowReachableWidth
  let x := if x < reach - frameWidth then reach - frameWidth else x
  let x := if x > manager.screenWidth - reach then manager.screenWidth - reach else x
  let y := if y < 0 then 0 else y
  let y := if y > manager.screenHeight - bandHeight then manager.screenHeight - bandHeight else y
  (x, y)

def windowEnqueue (identifier : ℕ) (event : WindowEvent) : WindowManager :=
  match windowAt manager identifier with
  | none => { manager with discarded := manager.discarded + 1 }
  | some target =>
      if target.events.length = windowEventCapacity then
        { windowPut manager identifier { target with dropped := target.dropped + 1 } with
          discarded := manager.discarded + 1 }
      else
        { windowPut manager identifier { target with events := target.events ++ [event] } with
          routed := manager.routed + 1 }

def windowEnqueueKind (identifier : ℕ) (kind : WindowEventKind) : WindowManager :=
  windowEnqueue manager identifier ⟨kind, 0, 0, 0, 0, noKey⟩

def windowNotifyRootsOf (kind : WindowEventKind) : WindowManager :=
  (List.range manager.windows.capacity).foldl (fun manager identifier ↦
    match windowAt manager identifier with
    | none => manager
    | some root =>
        if root.layer ≠ .root then manager
        else if root.events.any (fun event ↦ event.kind = kind) then manager
        else windowEnqueueKind manager identifier kind) manager

def windowNotifyRoots : WindowManager := windowNotifyRootsOf manager .windows

def windowAnnounceNotification : WindowManager := windowNotifyRootsOf manager .notify

def windowEnqueuePointer (identifier : ℕ) (kind : WindowEventKind) (x y : ℤ)
    (button buttons : UInt8) : WindowManager :=
  match windowAt manager identifier with
  | none => { manager with discarded := manager.discarded + 1 }
  | some target =>
      windowEnqueue manager identifier
        ⟨kind, x - (windowContentOf target).x, y - (windowContentOf target).y, button, buttons,
          noKey⟩

def windowStackPositionOf (identifier : ℕ) : Option ℕ := manager.stack.idxOf? identifier

def windowStackRemove (identifier : ℕ) : WindowManager :=
  { manager with stack := manager.stack.erase identifier }

def windowStackInsert (identifier : ℕ) : WindowManager :=
  let rank := (windowSlot manager identifier).layer.rank
  let stands := fun other ↦ decide ((windowSlot manager other).layer.rank ≤ rank)
  { manager with
    stack := manager.stack.takeWhile stands ++ identifier :: manager.stack.dropWhile stands }

def windowTopmostFocusable : Option ℕ :=
  manager.stack.reverse.find? fun identifier ↦
    (windowSlot manager identifier).layer = .normal ∧ ¬(windowSlot manager identifier).minimised

def windowTell (identifier : Option ℕ) (kind : WindowEventKind) : WindowManager :=
  match identifier with
  | none => manager
  | some identifier =>
      if (windowAt manager identifier).isNone then manager
      else windowEnqueueKind manager identifier kind

def windowIsNormal (identifier : Option ℕ) : Bool :=
  match identifier.bind (windowAt manager) with
  | none => false
  | some window => window.layer = .normal

def windowTransferFocus (identifier : Option ℕ) : WindowManager :=
  let previous := manager.focused
  if previous = identifier then manager
  else
    let manager := windowTell { manager with focused := identifier } previous .focusOut
    let manager := windowTell manager identifier .focusIn
    if windowIsNormal manager previous ∨ windowIsNormal manager identifier then
      windowNotifyRoots manager
    else manager

def windowReleaseAll : WindowManager :=
  { manager with
    windows :=
      { manager.windows with
        entry := fun index ↦
          if index < manager.windows.capacity ∧ (manager.windows.entry index).inUse then
            { manager.windows.entry index with inUse := false }
          else manager.windows.entry index }
    stack := []
    focused := none
    grabbed := none
    dragged := none }

/-- `WindowManagerInitialise`, of a screen that is somewhere. -/
def windowManagerInitialise (screenWidth screenHeight : ℤ) : WindowManager :=
  { windowReleaseAll manager with
    screenWidth, screenHeight
    active := true
    pointerX := 0
    pointerY := 0
    routed := 0
    discarded := 0 }

def windowManagerShutdown : WindowManager :=
  if ¬manager.active then manager else { windowReleaseAll manager with active := false }

structure WindowSupply where
  table : Bool
  stack : ℕ
  pixels : Bool

def windowTableReady (supply : WindowSupply) : WindowManager :=
  if (manager.windows.find fun window ↦ !window.inUse).isNone ∧ supply.table ∧
      manager.windows.chunkCount < growingTableDirectoryCapacity then
    { manager with windows := manager.windows.grow zeroedWindow }
  else manager

def windowStackReady : ℕ → WindowManager → WindowManager
  | 0, manager => manager
  | supplied + 1, manager =>
      if manager.stackChunkCount * windowChunk < manager.windows.capacity ∧
          manager.stackChunkCount < growingTableDirectoryCapacity then
        windowStackReady supplied { manager with stackChunkCount := manager.stackChunkCount + 1 }
      else manager

/-- `WindowCreate`, with the identifier it answers. -/
def windowCreate (x y width height : ℤ) (layer : WindowLayer) (supply : WindowSupply) :
    WindowManager × Option ℕ :=
  if ¬manager.active ∨ width < windowMinimumExtent ∨ height < windowMinimumExtent ∨
      width > windowMaximumExtent ∨ height > windowMaximumExtent then (manager, none)
  else
    let manager := windowTableReady manager supply
    match manager.windows.find fun window ↦ !window.inUse with
    | none => (manager, none)
    | some identifier =>
        let manager := windowStackReady supply.stack manager
        if manager.stackChunkCount * windowChunk < manager.windows.capacity ∨ ¬supply.pixels then
          (manager, none)
        else
          let window :=
            { windowSlot manager identifier with
              inUse := true
              layer, width, height, x, y
              decorated := layer = .normal
              minimised := false
              full := false
              owner := 0
              events := []
              dropped := 0 }
          let place := if window.decorated then windowConfine manager window x y else (x, y)
          let manager := windowPut manager identifier { window with x := place.1, y := place.2 }
          let manager := windowStackInsert manager identifier
          if layer = .normal then
            (windowNotifyRoots (windowTransferFocus manager (some identifier)), some identifier)
          else (manager, some identifier)

def windowDestroy (identifier : ℕ) : WindowManager :=
  match windowAt manager identifier with
  | none => manager
  | some window =>
      let manager := windowStackRemove manager identifier
      let manager : WindowManager :=
        { windowPut manager identifier { window with inUse := false, events := [] } with
          grabbed := if manager.grabbed = some identifier then none else manager.grabbed
          dragged := if manager.dragged = some identifier then none else manager.dragged }
      let manager :=
        if manager.focused ≠ some identifier then manager
        else
          let manager : WindowManager := { manager with focused := none }
          if manager.stack.isEmpty then manager
          else windowTransferFocus manager (windowTopmostFocusable manager)
      if window.layer = .normal then windowNotifyRoots manager else manager

def windowSetOwner (identifier owner : ℕ) : WindowManager :=
  match windowAt manager identifier with
  | none => manager
  | some window => windowPut manager identifier { window with owner }

def windowDestroyOwnedBy (owner : ℕ) : WindowManager :=
  if ¬manager.active then manager
  else (List.range manager.windows.capacity).foldl (fun manager index ↦
    if (windowSlot manager index).inUse ∧ (windowSlot manager index).owner = owner then
      windowDestroy manager index
    else manager) manager

def windowRaise (identifier : ℕ) : WindowManager :=
  match windowAt manager identifier with
  | none => manager
  | some window =>
      match windowStackPositionOf manager identifier with
      | none => manager
      | some position =>
          match manager.stack[position + 1]? with
          | none => manager
          | some above =>
              if (windowSlot manager above).layer.rank > window.layer.rank then manager
              else windowStackInsert (windowStackRemove manager identifier) identifier

def windowFocus (identifier : ℕ) : WindowManager :=
  if (windowAt manager identifier).isNone then manager
  else windowTransferFocus manager (some identifier)

def windowMove (identifier : ℕ) (x y : ℤ) : WindowManager :=
  match windowAt manager identifier with
  | none => manager
  | some window =>
      let (x, y) := windowConfine manager window x y
      if x = window.x ∧ y = window.y then manager
      else windowPut manager identifier { window with x, y }

def windowManagerWorkArea : GraphicsRectangle :=
  if ¬manager.active then ⟨0, 0, 0, 0⟩
  else
    let (top, bottom) := (List.range manager.windows.capacity).foldl (fun edges identifier ↦
      match windowAt manager identifier with
      | none => edges
      | some window =>
          if window.layer ≠ .panel ∨ window.minimised then edges
          else
            let top :=
              if window.y ≤ 0 ∧ window.y + window.height > edges.1 then window.y + window.height
              else edges.1
            let bottom :=
              if window.y + window.height ≥ manager.screenHeight ∧ window.y < edges.2 then window.y
              else edges.2
            (top, bottom)) ((0 : ℤ), manager.screenHeight)
    if top ≥ bottom ∨ top ≥ manager.screenHeight ∨ bottom ≤ 0 then
      ⟨0, 0, manager.screenWidth, manager.screenHeight⟩
    else ⟨0, top, manager.screenWidth, bottom - top⟩

/-- `WindowResizeContent`, or nothing where it answers false. -/
def windowResizeContent (identifier : ℕ) (x y width height : ℤ) (pixels : Bool) :
    Option WindowManager :=
  if width < windowMinimumExtent ∨ height < windowMinimumExtent ∨ width > windowMaximumExtent ∨
      height > windowMaximumExtent ∨ ¬pixels then none
  else
    let manager := windowPut manager identifier
      { windowSlot manager identifier with x, y, width, height }
    some (windowEnqueue manager identifier ⟨.resize, width, height, 0, 0, noKey⟩)

def windowFullSet (identifier : ℕ) : WindowManager :=
  windowNotifyRoots
    { manager with
      dragged := if manager.dragged = some identifier then none else manager.dragged }

def windowSetFull (identifier : ℕ) (full pixels : Bool) : WindowManager × Bool :=
  match windowAt manager identifier with
  | none => (manager, false)
  | some window =>
      if ¬window.decorated then (manager, false)
      else if full = window.full then (manager, true)
      else if full then
        let area := windowManagerWorkArea manager
        match windowResizeContent manager identifier area.x area.y
            (area.width - 2 * windowBorder)
            (area.height - windowTitleHeight - 2 * windowBorder) pixels with
        | none => (manager, false)
        | some manager =>
            let manager := windowPut manager identifier
              { windowSlot manager identifier with
                restoreX := window.x
                restoreY := window.y
                restoreWidth := window.width
                restoreHeight := window.height
                full := true }
            (windowFullSet manager identifier, true)
      else
        match windowResizeContent manager identifier window.restoreX window.restoreY
            window.restoreWidth window.restoreHeight pixels with
        | none => (manager, false)
        | some manager =>
            let manager := windowPut manager identifier
              { windowSlot manager identifier with full := false }
            let manager := windowMove manager identifier (windowSlot manager identifier).x
              (windowSlot manager identifier).y
            (windowFullSet manager identifier, true)

def windowMinimise (identifier : ℕ) : WindowManager × Bool :=
  match windowAt manager identifier with
  | none => (manager, false)
  | some window =>
      if ¬window.decorated then (manager, false)
      else if window.minimised then (manager, true)
      else
        let manager : WindowManager :=
          { windowPut manager identifier { window with minimised := true } with
            grabbed := if manager.grabbed = some identifier then none else manager.grabbed
            dragged := if manager.dragged = some identifier then none else manager.dragged }
        let manager :=
          if manager.focused = some identifier then
            windowTransferFocus manager (windowTopmostFocusable manager)
          else manager
        (windowNotifyRoots manager, true)

def windowRestore (identifier : ℕ) : WindowManager × Bool :=
  match windowAt manager identifier with
  | none => (manager, false)
  | some window =>
      if ¬window.decorated then (manager, false)
      else
        let manager :=
          if window.minimised then windowPut manager identifier { window with minimised := false }
          else manager
        let manager := windowRaise manager identifier
        let manager := windowTransferFocus manager (some identifier)
        (windowNotifyRoots manager, true)

/-- `WindowReadEvent`, with the event that it gives. -/
def windowReadEvent (identifier : ℕ) : WindowManager × Option WindowEvent :=
  match windowAt manager identifier with
  | none => (manager, none)
  | some window =>
      match window.events with
      | [] => (manager, none)
      | event :: events => (windowPut manager identifier { window with events }, some event)

def windowManagerHandleKey (key : KeyEvent) : WindowManager :=
  if ¬manager.active then manager
  else
    match manager.focused with
    | none => { manager with discarded := manager.discarded + 1 }
    | some focused =>
        if (windowAt manager focused).isNone then
          { manager with discarded := manager.discarded + 1 }
        else windowEnqueue manager focused ⟨.key, 0, 0, 0, 0, key⟩

def windowManagerWindowAt (x y : ℤ) : Option ℕ :=
  if ¬manager.active then none
  else manager.stack.reverse.find? fun identifier ↦
    ¬(windowSlot manager identifier).minimised ∧
      graphicsRectangleContains (windowFrameOf (windowSlot manager identifier)) x y

def windowLowestButton (buttons : UInt8) : UInt8 :=
  if buttons &&& mouseButtonLeft ≠ 0 then mouseButtonLeft
  else if buttons &&& mouseButtonRight ≠ 0 then mouseButtonRight
  else if buttons &&& mouseButtonMiddle ≠ 0 then mouseButtonMiddle
  else 0

/-- `WindowBeginPress`.  The heap supplies the pixels of a window that is made full, or not. -/
def windowBeginPress (x y : ℤ) (button buttons : UInt8) (pixels : Bool) : WindowManager :=
  match windowManagerWindowAt manager x y with
  | none => manager
  | some identifier =>
      let layer := (windowSlot manager identifier).layer
      let manager := if layer ≠ .root then windowRaise manager identifier else manager
      let manager :=
        if layer = .normal then windowTransferFocus manager (some identifier) else manager
      let window := windowSlot manager identifier
      if graphicsRectangleContains (windowCloseReachOf window) x y then
        windowEnqueueKind manager identifier .close
      else if graphicsRectangleContains (windowControlReachOf window windowControlFull) x y then
        (windowSetFull manager identifier (!window.full) pixels).1
      else if graphicsRectangleContains (windowControlReachOf window windowControlMinimise) x y then
        (windowMinimise manager identifier).1
      else if graphicsRectangleContains (windowTitleBandOf window) x y then
        if window.full then manager
        else
          { manager with
            dragged := some identifier
            dragOffsetX := x - window.x
            dragOffsetY := y - window.y }
      else
        windowEnqueuePointer { manager with grabbed := some identifier } identifier .buttonPress x y
          button buttons

def windowDrag (dragged : ℕ) (movement : MouseEvent) : WindowManager :=
  let manager := windowMove manager dragged (movement.x - manager.dragOffsetX)
    (movement.y - manager.dragOffsetY)
  if movement.buttons = 0 then { manager with dragged := none } else manager

def windowBoundMovement (bound : ℕ) (movement : MouseEvent) (pressed released : UInt8) :
    WindowManager :=
  let manager :=
    if movement.deltaX ≠ 0 ∨ movement.deltaY ≠ 0 then
      windowEnqueuePointer manager bound .pointerMove movement.x movement.y 0 movement.buttons
    else manager
  let manager :=
    if pressed ≠ 0 then
      windowEnqueuePointer manager bound .buttonPress movement.x movement.y
        (windowLowestButton pressed) movement.buttons
    else manager
  let manager :=
    if released ≠ 0 then
      windowEnqueuePointer manager bound .buttonRelease movement.x movement.y
        (windowLowestButton released) movement.buttons
    else manager
  if movement.buttons = 0 then { manager with grabbed := none } else manager

def windowManagerHandleMouse (movement : MouseEvent) (pixels : Bool) : WindowManager :=
  if ¬manager.active then manager
  else
    let pressed := movement.changed &&& movement.buttons
    let released := movement.changed &&& ~~~movement.buttons
    let manager := { manager with pointerX := movement.x, pointerY := movement.y }
    match manager.dragged, manager.grabbed with
    | some dragged, _ => windowDrag manager dragged movement
    | none, some bound => windowBoundMovement manager bound movement pressed released
    | none, none =>
        if pressed ≠ 0 then
          windowBeginPress manager movement.x movement.y (windowLowestButton pressed)
            movement.buttons pixels
        else if released ≠ 0 then manager
        else if movement.deltaX ≠ 0 ∨ movement.deltaY ≠ 0 then
          match windowManagerWindowAt manager movement.x movement.y with
          | none => manager
          | some under =>
              windowEnqueuePointer manager under .pointerMove movement.x movement.y 0
                movement.buttons
        else manager

inductive WindowCall
  | initialise (screenWidth screenHeight : ℤ)
  | shutdown
  | create (x y width height : ℤ) (layer : WindowLayer) (supply : WindowSupply)
  | destroy (identifier : ℕ)
  | destroyOwnedBy (owner : ℕ)
  | setOwner (identifier owner : ℕ)
  | raise (identifier : ℕ)
  | focus (identifier : ℕ)
  | move (identifier : ℕ) (x y : ℤ)
  | setFull (identifier : ℕ) (full pixels : Bool)
  | minimise (identifier : ℕ)
  | restore (identifier : ℕ)
  | readEvent (identifier : ℕ)
  | announceNotification
  | press (key : KeyEvent)
  | mouse (movement : MouseEvent) (pixels : Bool)

def WindowCall.run : WindowCall → WindowManager
  | initialise screenWidth screenHeight =>
      windowManagerInitialise manager screenWidth screenHeight
  | shutdown => windowManagerShutdown manager
  | create x y width height layer supply => (windowCreate manager x y width height layer supply).1
  | destroy identifier => windowDestroy manager identifier
  | destroyOwnedBy owner => windowDestroyOwnedBy manager owner
  | setOwner identifier owner => windowSetOwner manager identifier owner
  | raise identifier => windowRaise manager identifier
  | focus identifier => windowFocus manager identifier
  | move identifier x y => windowMove manager identifier x y
  | setFull identifier full pixels => (windowSetFull manager identifier full pixels).1
  | minimise identifier => (windowMinimise manager identifier).1
  | restore identifier => (windowRestore manager identifier).1
  | readEvent identifier => (windowReadEvent manager identifier).1
  | announceNotification => windowAnnounceNotification manager
  | press key => windowManagerHandleKey manager key
  | mouse movement pixels => windowManagerHandleMouse manager movement pixels

end OxysOS.Graphics
