import OxysOS.Library.Ring

/-!
# The events of the mouse

The bytes of the mouse make packets, and each packet moves the pointer, keeps the buttons and adds
an event to a buffer.  Where the buffer is full the event is discarded and the buttons are kept, so
that what later events say has changed is not what the reader last saw.
-/

namespace OxysOS.Drivers

open OxysOS.Library

abbrev mouseBufferCapacity : ℕ := 64

local instance mouseBufferCapacity_ne : NeZero mouseBufferCapacity := ⟨by decide⟩

structure MouseEvent where
  x : ℤ
  y : ℤ
  deltaX : ℤ
  deltaY : ℤ
  deltaWheel : ℤ
  buttons : UInt8
  changed : UInt8
  deriving DecidableEq, Inhabited

structure Mouse where
  packet : List UInt8
  packetLength : ℕ
  positionX : ℤ
  positionY : ℤ
  boundWidth : ℤ
  boundHeight : ℤ
  buttonState : UInt8
  buffer : Fin mouseBufferCapacity → MouseEvent
  writeIndex : UInt32
  readIndex : UInt32

def mouseStart (packetLength : ℕ) : Mouse where
  packet := []
  packetLength
  positionX := 0
  positionY := 0
  boundWidth := 1
  boundHeight := 1
  buttonState := 0
  buffer _ := default
  writeIndex := 0
  readIndex := 0

def mouseAppendEvent (mouse : Mouse) (event : MouseEvent) : Mouse :=
  if mouse.writeIndex - mouse.readIndex ≥ UInt32.ofNat mouseBufferCapacity then mouse
  else { mouse with
    buffer := Function.update mouse.buffer (Fin.ofNat _ mouse.writeIndex.toNat) event
    writeIndex := mouse.writeIndex + 1 }

def mouseExtendMovement (magnitude : UInt8) (negative : Bool) : ℤ :=
  magnitude.toNat - if negative then 256 else 0

def mouseClamp (value extent : ℤ) : ℤ :=
  if value < 0 then 0 else if value > extent - 1 then extent - 1 else value

def mouseExtractWheel (byte : UInt8) : ℤ :=
  let nibble := byte &&& 0x0F
  if nibble > 0x07 then nibble.toNat - 16 else nibble.toNat

def int32Sum (a b : ℤ) : Option ℤ :=
  if -2 ^ 31 ≤ a + b ∧ a + b < 2 ^ 31 then some (a + b) else none

def mouseMovement (packet : List UInt8) : ℤ × ℤ :=
  let flags := packet.getD 0 0
  if flags &&& 0xC0 ≠ 0 then (0, 0)
  else (mouseExtendMovement (packet.getD 1 0) (flags &&& 0x10 ≠ 0),
    -mouseExtendMovement (packet.getD 2 0) (flags &&& 0x20 ≠ 0))

def mouseButtons (packet : List UInt8) : UInt8 := packet.getD 0 0 &&& 0x07

/-- `MouseCompletePacket`, with the event that it makes, or nothing where a sum overflows. -/
def mouseCompletePacket (mouse : Mouse) : Option (MouseEvent × Mouse) := do
  let (movementX, movementY) := mouseMovement mouse.packet
  let sumX ← int32Sum mouse.positionX movementX
  let sumY ← int32Sum mouse.positionY movementY
  let positionX := mouseClamp sumX mouse.boundWidth
  let positionY := mouseClamp sumY mouse.boundHeight
  let buttons := mouseButtons mouse.packet
  let event : MouseEvent :=
    { x := positionX
      y := positionY
      deltaX := movementX
      deltaY := movementY
      deltaWheel := if mouse.packetLength = 4 then mouseExtractWheel (mouse.packet.getD 3 0) else 0
      buttons
      changed := buttons ^^^ mouse.buttonState }
  some (event, mouseAppendEvent
    { mouse with packet := [], positionX, positionY, buttonState := buttons } event)

/-- `MouseProcessByte`, with the event that is made where the byte ends a packet. -/
def mouseProcessByte (mouse : Mouse) (byte : UInt8) : Option (Option MouseEvent × Mouse) :=
  if mouse.packet = [] ∧ byte &&& 0x08 = 0 then some (none, mouse)
  else
    let received := { mouse with packet := mouse.packet ++ [byte] }
    if received.packet.length < received.packetLength then some (none, received)
    else (mouseCompletePacket received).map fun made ↦ (some made.1, made.2)

def mouseSetBounds (mouse : Mouse) (width height : ℤ) : Mouse :=
  if width < 1 ∨ height < 1 then mouse
  else { mouse with
    boundWidth := width
    boundHeight := height
    positionX := mouseClamp mouse.positionX width
    positionY := mouseClamp mouse.positionY height }

def mouseSetPosition (mouse : Mouse) (x y : ℤ) : Mouse :=
  { mouse with
    positionX := mouseClamp x mouse.boundWidth
    positionY := mouseClamp y mouse.boundHeight }

def mouseReadEvent (mouse : Mouse) : Option MouseEvent × Mouse :=
  if mouse.writeIndex = mouse.readIndex then (none, mouse)
  else (some (mouse.buffer (Fin.ofNat _ mouse.readIndex.toNat)),
    { mouse with readIndex := mouse.readIndex + 1 })

inductive MouseCall
  | byte (byte : UInt8)
  | read
  | bounds (width height : ℤ)
  | position (x y : ℤ)

structure MouseHistory where
  made : List (MouseEvent × ℤ × ℤ)
  read : List MouseEvent

def mouseStep (run : Mouse × MouseHistory) : MouseCall → Option (Mouse × MouseHistory)
  | .byte byte => (mouseProcessByte run.1 byte).map fun made ↦
      (made.2, { run.2 with made := run.2.made ++ made.1.toList.map fun event ↦
        (event, run.1.boundWidth, run.1.boundHeight) })
  | .read =>
      let (event, mouse) := mouseReadEvent run.1
      some (mouse, { run.2 with read := run.2.read ++ event.toList })
  | .bounds width height => some (mouseSetBounds run.1 width height, run.2)
  | .position x y => some (mouseSetPosition run.1 x y, run.2)

def mouseRun (run : Mouse × MouseHistory) : List MouseCall → Option (Mouse × MouseHistory)
  | [] => some run
  | call :: calls => (mouseStep run call).bind fun next ↦ mouseRun next calls

def Mouse.waiting (mouse : Mouse) : List MouseEvent :=
  ringRead mouse.buffer mouse.readIndex.toUInt64 (mouse.writeIndex - mouse.readIndex).toNat

def Truthful : UInt8 → List MouseEvent → Prop
  | _, [] => True
  | buttons, event :: events =>
      event.changed = event.buttons ^^^ buttons ∧ Truthful event.buttons events

instance decidableTruthful : (buttons : UInt8) → (events : List MouseEvent) →
    Decidable (Truthful buttons events)
  | _, [] => inferInstanceAs (Decidable True)
  | buttons, event :: events =>
      have := decidableTruthful event.buttons events
      inferInstanceAs (Decidable (event.changed = event.buttons ^^^ buttons ∧
        Truthful event.buttons events))

def buttonsAfter (buttons : UInt8) (events : List MouseEvent) : UInt8 :=
  events.foldl (fun _ event ↦ event.buttons) buttons

/-- The events tell the truth: each was made within the bounds in force, they are read in the order
in which they were made, each has changed what differs from the one that was read before it, and
each of those that change the buttons is read or waits. -/
structure MouseTells (run : Mouse × MouseHistory) : Prop where
  within : ∀ made ∈ run.2.made, 0 ≤ made.1.x ∧ made.1.x < made.2.1 ∧ 0 ≤ made.1.y ∧
    made.1.y < made.2.2
  ordered : (run.2.read ++ run.1.waiting).Sublist (run.2.made.map Prod.fst)
  truthful : Truthful 0 (run.2.read ++ run.1.waiting)
  seen : (run.2.read ++ run.1.waiting).filter (fun event ↦ event.changed ≠ 0) =
    (run.2.made.map Prod.fst).filter fun event ↦ event.changed ≠ 0

def CallMeets (mouse : Mouse) : MouseCall → Prop
  | .byte byte =>
      let packet := mouse.packet ++ [byte]
      mouse.packetLength ≤ packet.length →
        mouse.positionX + (mouseMovement packet).1 < 2 ^ 31 ∧
        mouse.positionY + (mouseMovement packet).2 < 2 ^ 31 ∧
        (mouseButtons packet ≠ mouse.buttonState →
          mouse.writeIndex - mouse.readIndex < UInt32.ofNat mouseBufferCapacity)
  | _ => True

def CallsMeet (run : Mouse × MouseHistory) : List MouseCall → Prop
  | [] => True
  | call :: calls => CallMeets run.1 call ∧ ∀ next ∈ mouseStep run call, CallsMeet next calls

instance (mouse : Mouse) : (call : MouseCall) → Decidable (CallMeets mouse call)
  | .byte _ => inferInstanceAs (Decidable (_ → _ ∧ _ ∧ (_ → _)))
  | .read => inferInstanceAs (Decidable True)
  | .bounds .. => inferInstanceAs (Decidable True)
  | .position .. => inferInstanceAs (Decidable True)

instance decidableCallsMeet : (run : Mouse × MouseHistory) → (calls : List MouseCall) →
    Decidable (CallsMeet run calls)
  | _, [] => inferInstanceAs (Decidable True)
  | run, call :: calls =>
      have := fun next ↦ decidableCallsMeet next calls
      inferInstanceAs (Decidable (CallMeets run.1 call ∧
        ∀ next ∈ mouseStep run call, CallsMeet next calls))

variable {mouse : Mouse}

@[simp] theorem length_waiting (mouse : Mouse) :
    mouse.waiting.length = (mouse.writeIndex - mouse.readIndex).toNat := length_ringRead _ _ _

def Mouse.Fits (mouse : Mouse) : Prop :=
  (mouse.writeIndex - mouse.readIndex).toNat ≤ mouseBufferCapacity

theorem capacity_dvd : mouseBufferCapacity ∣ 2 ^ 64 := by decide

theorem Mouse.Fits.holds (h : mouse.Fits) :
    RingHolds mouse.buffer mouse.readIndex.toUInt64 mouse.waiting := by
  constructor
  · rw [length_waiting]
    exact h
  · rw [length_waiting]
    rfl

theorem toNat_writeIndex (mouse : Mouse) :
    mouse.writeIndex.toNat =
      (mouse.readIndex.toNat + (mouse.writeIndex - mouse.readIndex).toNat) % 2 ^ 32 := by
  rw [← UInt32.toNat_add]
  congr 1
  simp [UInt32.add_comm mouse.readIndex]

theorem waiting_appendEvent {event : MouseEvent}
    (hroom : mouse.writeIndex - mouse.readIndex < UInt32.ofNat mouseBufferCapacity) :
    (mouseAppendEvent mouse event).waiting = mouse.waiting ++ [event] ∧
      (mouseAppendEvent mouse event).Fits := by
  have hlt : (mouse.writeIndex - mouse.readIndex).toNat < mouseBufferCapacity := hroom
  have hfits : mouse.Fits := hlt.le
  have hcell : Fin.ofNat mouseBufferCapacity mouse.writeIndex.toNat =
      ringCell mouseBufferCapacity (mouse.readIndex.toUInt64 + UInt64.ofNat mouse.waiting.length) := by
    apply Fin.ext
    rw [ringCell_add capacity_dvd, Fin.val_ofNat, length_waiting, toNat_writeIndex,
      Nat.mod_mod_of_dvd _ (by decide)]
    rfl
  have hnext : (mouse.writeIndex + 1 - mouse.readIndex).toNat =
      (mouse.writeIndex - mouse.readIndex).toNat + 1 := by
    have hsplit : mouse.writeIndex + 1 - mouse.readIndex =
        mouse.writeIndex - mouse.readIndex + 1 := by
      rw [UInt32.sub_eq_add_neg, UInt32.sub_eq_add_neg, UInt32.add_assoc, UInt32.add_comm 1,
        ← UInt32.add_assoc]
    have hsmall : (mouse.writeIndex - mouse.readIndex).toNat + 1 < 2 ^ 32 :=
      Nat.lt_of_lt_of_le (Nat.succ_lt_succ hlt) (by decide)
    rw [hsplit, UInt32.toNat_add]
    exact Nat.mod_eq_of_lt hsmall
  have happend : mouseAppendEvent mouse event = { mouse with
      buffer := Function.update mouse.buffer (Fin.ofNat _ mouse.writeIndex.toNat) event
      writeIndex := mouse.writeIndex + 1 } :=
    if_neg (UInt32.not_le.mpr hroom)
  have hput := hfits.holds.put capacity_dvd (by rw [length_waiting]; exact hlt) event
  rw [happend]
  constructor
  · have hreads := hput.reads
    rw [← hcell, List.length_append, List.length_singleton, length_waiting, ← hnext] at hreads
    exact hreads
  · simp only [Mouse.Fits, hnext]
    exact hlt

theorem appendEvent_full {event : MouseEvent}
    (hfull : ¬mouse.writeIndex - mouse.readIndex < UInt32.ofNat mouseBufferCapacity) :
    mouseAppendEvent mouse event = mouse := if_pos (UInt32.not_lt.mp hfull)

theorem waiting_readEvent (hfits : mouse.Fits) :
    mouse.waiting = (mouseReadEvent mouse).1.toList ++ (mouseReadEvent mouse).2.waiting ∧
      (mouseReadEvent mouse).2.Fits := by
  by_cases hempty : mouse.writeIndex = mouse.readIndex
  · have hread : mouseReadEvent mouse = (none, mouse) := if_pos hempty
    rw [hread]
    exact ⟨rfl, hfits⟩
  · have hread : mouseReadEvent mouse = (some (mouse.buffer (Fin.ofNat _ mouse.readIndex.toNat)),
        { mouse with readIndex := mouse.readIndex + 1 }) := if_neg hempty
    have hpositive : 1 ≤ mouse.waiting.length := by
      rw [length_waiting, Nat.one_le_iff_ne_zero]
      intro hzero
      apply hempty
      have hdifference : mouse.writeIndex - mouse.readIndex = 0 := UInt32.toNat_inj.mp hzero
      rwa [UInt32.sub_eq_iff_eq_add, UInt32.zero_add] at hdifference
    have hfirst : mouse.waiting.take 1 = [mouse.buffer (Fin.ofNat _ mouse.readIndex.toNat)] := by
      rw [← hfits.holds.take hpositive]
      simp [ringRead, ringCell]
    have hnext : (mouse.writeIndex - (mouse.readIndex + 1)).toNat =
        (mouse.writeIndex - mouse.readIndex).toNat - 1 := by
      rw [length_waiting, UInt32.toNat_sub] at hpositive
      have hbound := mouse.readIndex.toNat_lt
      simp only [UInt32.toNat_sub, UInt32.toNat_add, UInt32.toNat_one]
      omega
    have hdrop : RingHolds mouse.buffer (mouse.readIndex + 1).toUInt64 (mouse.waiting.drop 1) := by
      apply (hfits.holds.drop hpositive).of_mod capacity_dvd
      simp only [UInt32.toNat_toUInt64, UInt64.toNat_add, UInt32.toNat_add, UInt64.toNat_ofNat',
        UInt32.toNat_one, mouseBufferCapacity]
      omega
    have hreads := hdrop.reads
    rw [List.length_drop, length_waiting, ← hnext] at hreads
    rw [hread]
    refine ⟨?_, ?_⟩
    · calc mouse.waiting
        _ = mouse.waiting.take 1 ++ mouse.waiting.drop 1 := (List.take_append_drop 1 _).symm
        _ = _ := by
          rw [hfirst, ← hreads]
          rfl
    · have hle : mouse.waiting.length ≤ mouseBufferCapacity := hfits.holds.fits
      rw [length_waiting] at hle
      simp only [Mouse.Fits, hnext]
      omega

theorem mouseClamp_mem {value extent : ℤ} (h : 1 ≤ extent) :
    0 ≤ mouseClamp value extent ∧ mouseClamp value extent < extent := by
  simp only [mouseClamp]
  split
  · omega
  · split <;> omega

theorem le_mouseMovement (packet : List UInt8) :
    -256 ≤ (mouseMovement packet).1 ∧ -256 ≤ (mouseMovement packet).2 := by
  have hextend : ∀ (magnitude : UInt8) (negative : Bool),
      -256 ≤ mouseExtendMovement magnitude negative ∧
        mouseExtendMovement magnitude negative ≤ 256 := by
    intro magnitude negative
    have hlt := magnitude.toNat_lt
    cases negative <;> simp only [mouseExtendMovement] <;> omega
  simp only [mouseMovement]
  split
  · omega
  · have hright := hextend (packet.getD 1 0) (decide (packet.getD 0 0 &&& 0x10 ≠ 0))
    have hdown := hextend (packet.getD 2 0) (decide (packet.getD 0 0 &&& 0x20 ≠ 0))
    omega

theorem truthful_append {buttons : UInt8} {events : List MouseEvent} {event : MouseEvent} :
    Truthful buttons (events ++ [event]) ↔ Truthful buttons events ∧
      event.changed = event.buttons ^^^ buttonsAfter buttons events := by
  induction events generalizing buttons with
  | nil => simp [Truthful, buttonsAfter]
  | cons first events ih =>
      simp only [List.cons_append, Truthful, ih, and_assoc]
      rfl

structure MouseHolds (run : Mouse × MouseHistory) : Prop where
  fits : run.1.Fits
  bounds : 1 ≤ run.1.boundWidth ∧ 1 ≤ run.1.boundHeight
  positionX : 0 ≤ run.1.positionX ∧ run.1.positionX < run.1.boundWidth
  positionY : 0 ≤ run.1.positionY ∧ run.1.positionY < run.1.boundHeight
  buttons : buttonsAfter 0 (run.2.read ++ run.1.waiting) = run.1.buttonState
  tells : MouseTells run

theorem mouseHolds_start (packetLength : ℕ) : MouseHolds (mouseStart packetLength, ⟨[], []⟩) := by
  have hwaiting : (mouseStart packetLength).waiting = [] := by
    simp [Mouse.waiting, mouseStart, ringRead]
  refine ⟨by simp [Mouse.Fits, mouseStart], by simp [mouseStart], by simp [mouseStart],
    by simp [mouseStart], ?_, ?_⟩
  · rw [hwaiting]
    rfl
  · constructor <;> simp [hwaiting, Truthful]

variable {run next : Mouse × MouseHistory}

theorem mouseCompletePacket_some {event : MouseEvent} {after : Mouse}
    (h : mouseCompletePacket mouse = some (event, after)) :
    (∃ sumX sumY, event.x = mouseClamp sumX mouse.boundWidth ∧
      event.y = mouseClamp sumY mouse.boundHeight) ∧
    event.buttons = mouseButtons mouse.packet ∧
    event.changed = event.buttons ^^^ mouse.buttonState ∧
    after = mouseAppendEvent { mouse with
      packet := []
      positionX := event.x
      positionY := event.y
      buttonState := event.buttons } event := by
  simp only [mouseCompletePacket, Option.bind_eq_bind, Option.bind_eq_some_iff, Option.some.injEq,
    Prod.mk.injEq] at h
  obtain ⟨sumX, -, sumY, -, rfl, rfl⟩ := h
  exact ⟨⟨sumX, sumY, rfl, rfl⟩, rfl, rfl, rfl⟩

theorem appendEvent_eq (mouse : Mouse) (event : MouseEvent) : ∃ buffer writeIndex,
    mouseAppendEvent mouse event = { mouse with buffer, writeIndex } := by
  simp only [mouseAppendEvent]
  split
  · exact ⟨mouse.buffer, mouse.writeIndex, rfl⟩
  · exact ⟨_, _, rfl⟩

theorem readEvent_eq (mouse : Mouse) : ∃ readIndex,
    (mouseReadEvent mouse).2 = { mouse with readIndex } := by
  simp only [mouseReadEvent]
  split
  · exact ⟨mouse.readIndex, rfl⟩
  · exact ⟨_, rfl⟩

theorem MouseHolds.moved (h : MouseHolds run) {mouse : Mouse}
    (hwaiting : mouse.waiting = run.1.waiting) (hfits : mouse.Fits)
    (hbuttons : mouse.buttonState = run.1.buttonState)
    (hbounds : 1 ≤ mouse.boundWidth ∧ 1 ≤ mouse.boundHeight)
    (hx : 0 ≤ mouse.positionX ∧ mouse.positionX < mouse.boundWidth)
    (hy : 0 ≤ mouse.positionY ∧ mouse.positionY < mouse.boundHeight) :
    MouseHolds (mouse, run.2) := by
  refine ⟨hfits, hbounds, hx, hy, ?_, ?_⟩
  · simp only [hwaiting, hbuttons]
    exact h.buttons
  · obtain ⟨hwithin, hordered, htruthful, hseen⟩ := h.tells
    constructor
    · exact hwithin
    · simpa only [hwaiting] using hordered
    · simpa only [hwaiting] using htruthful
    · simpa only [hwaiting] using hseen

theorem MouseHolds.made (h : MouseHolds run) {event : MouseEvent} {after : Mouse}
    (hx : 0 ≤ event.x ∧ event.x < run.1.boundWidth)
    (hy : 0 ≤ event.y ∧ event.y < run.1.boundHeight)
    (hchanged : event.changed = event.buttons ^^^ run.1.buttonState)
    (hafter : after = mouseAppendEvent { run.1 with
      packet := []
      positionX := event.x
      positionY := event.y
      buttonState := event.buttons } event)
    (hroom : event.buttons ≠ run.1.buttonState →
      run.1.writeIndex - run.1.readIndex < UInt32.ofNat mouseBufferCapacity) :
    MouseHolds (after, { run.2 with
      made := run.2.made ++ [(event, run.1.boundWidth, run.1.boundHeight)] }) := by
  have hwithin : ∀ made ∈ run.2.made ++ [(event, run.1.boundWidth, run.1.boundHeight)],
      0 ≤ made.1.x ∧ made.1.x < made.2.1 ∧ 0 ≤ made.1.y ∧ made.1.y < made.2.2 := by
    intro made hmem
    rcases List.mem_append.mp hmem with hold | hnew
    · exact h.tells.within made hold
    · obtain rfl := List.mem_singleton.mp hnew
      exact ⟨hx.1, hx.2, hy.1, hy.2⟩
  by_cases hlt : run.1.writeIndex - run.1.readIndex < UInt32.ofNat mouseBufferCapacity
  · obtain ⟨hwaiting, hfits⟩ := @waiting_appendEvent { run.1 with
      packet := []
      positionX := event.x
      positionY := event.y
      buttonState := event.buttons } event hlt
    obtain ⟨buffer, writeIndex, hfields⟩ := appendEvent_eq { run.1 with
      packet := []
      positionX := event.x
      positionY := event.y
      buttonState := event.buttons } event
    rw [← hafter] at hwaiting hfits hfields
    have hevents : run.2.read ++ after.waiting = (run.2.read ++ run.1.waiting) ++ [event] := by
      rw [hwaiting, List.append_assoc]
      rfl
    refine ⟨hfits, ?_, ?_, ?_, ?_, ?_⟩
    · rw [hfields]
      exact h.bounds
    · rw [hfields]
      exact hx
    · rw [hfields]
      exact hy
    · rw [hevents, hfields]
      simp [buttonsAfter]
    · constructor
      · exact hwithin
      · rw [hevents, List.map_append]
        exact h.tells.ordered.append (List.Sublist.refl _)
      · rw [hevents, truthful_append, h.buttons]
        exact ⟨h.tells.truthful, hchanged⟩
      · rw [hevents, List.filter_append, h.tells.seen, List.map_append, List.filter_append]
        rfl
  · have hsame : event.buttons = run.1.buttonState := by
      by_contra hne
      exact hlt (hroom hne)
    have hnone : event.changed = 0 := by
      rw [hchanged, hsame, UInt8.xor_self]
    have hfields : after = { run.1 with
        packet := []
        positionX := event.x
        positionY := event.y
        buttonState := event.buttons } := hafter.trans (appendEvent_full hlt)
    have hmoved : MouseHolds (after, run.2) := by
      rw [hfields]
      exact h.moved rfl h.fits hsame h.bounds hx hy
    refine ⟨hmoved.fits, hmoved.bounds, hmoved.positionX, hmoved.positionY, hmoved.buttons, ?_⟩
    constructor
    · exact hwithin
    · rw [List.map_append]
      exact hmoved.tells.ordered.trans (List.sublist_append_left _ _)
    · exact hmoved.tells.truthful
    · rw [List.map_append, List.filter_append]
      simpa [hnone] using hmoved.tells.seen

theorem int32Sum_eq {a b : ℤ} (hlow : -2 ^ 31 ≤ a + b) (hhigh : a + b < 2 ^ 31) :
    int32Sum a b = some (a + b) := if_pos ⟨hlow, hhigh⟩

theorem MouseHolds.byte (h : MouseHolds run) {byte : UInt8} (hmeets : CallMeets run.1 (.byte byte)) :
    ∃ next, mouseStep run (.byte byte) = some next ∧ MouseHolds next := by
  simp only [mouseStep, mouseProcessByte]
  split
  · -- no packet begins with the byte
    exact ⟨_, rfl, by simpa using h⟩
  · split
    · have hkept : MouseHolds ({ run.1 with packet := run.1.packet ++ [byte] }, run.2) :=
        h.moved rfl h.fits rfl h.bounds h.positionX h.positionY
      exact ⟨_, rfl, by simpa using hkept⟩
    · next hlong =>
        obtain ⟨hx, hy, hroom⟩ := hmeets (by simpa using hlong)
        obtain ⟨hleft, hdown⟩ := le_mouseMovement (run.1.packet ++ [byte])
        have hpositionX := h.positionX
        have hpositionY := h.positionY
        have hmade : ∃ event after, mouseCompletePacket
            { run.1 with packet := run.1.packet ++ [byte] } = some (event, after) := by
          simp [mouseCompletePacket, int32Sum_eq (show -2 ^ 31 ≤ run.1.positionX +
            (mouseMovement (run.1.packet ++ [byte])).1 by omega) hx, int32Sum_eq (show -2 ^ 31 ≤
            run.1.positionY + (mouseMovement (run.1.packet ++ [byte])).2 by omega) hy]
        obtain ⟨event, after, hmade⟩ := hmade
        obtain ⟨⟨sumX, sumY, heventX, heventY⟩, hbuttons, hchanged, hafter⟩ :=
          mouseCompletePacket_some hmade
        refine ⟨_, by rw [hmade]; rfl, ?_⟩
        apply h.made
        · rw [heventX]
          exact mouseClamp_mem h.bounds.1
        · rw [heventY]
          exact mouseClamp_mem h.bounds.2
        · exact hchanged
        · exact hafter
        · rw [hbuttons]
          exact hroom

theorem MouseHolds.step (h : MouseHolds run) {call : MouseCall} (hmeets : CallMeets run.1 call) :
    ∃ next, mouseStep run call = some next ∧ MouseHolds next := by
  cases call with
  | byte byte => exact h.byte hmeets
  | read =>
      obtain ⟨hwaiting, hfits⟩ := waiting_readEvent h.fits
      refine ⟨((mouseReadEvent run.1).2,
        { run.2 with read := run.2.read ++ (mouseReadEvent run.1).1.toList }), rfl, ?_⟩
      have hevents : (run.2.read ++ (mouseReadEvent run.1).1.toList) ++
          (mouseReadEvent run.1).2.waiting = run.2.read ++ run.1.waiting := by
        rw [hwaiting, List.append_assoc]
      obtain ⟨readIndex, hfields⟩ := readEvent_eq run.1
      have hbuttons := h.buttons
      obtain ⟨hwithin, hordered, htruthful, hseen⟩ := h.tells
      rw [← hevents] at hbuttons hordered htruthful hseen
      refine ⟨hfits, ?_, ?_, ?_, ?_, ⟨hwithin, hordered, htruthful, hseen⟩⟩
      · simp only [hfields]
        exact h.bounds
      · simp only [hfields]
        exact h.positionX
      · simp only [hfields]
        exact h.positionY
      · simp only [hfields] at hbuttons ⊢
        exact hbuttons
  | bounds width height =>
      refine ⟨_, rfl, ?_⟩
      simp only [mouseSetBounds]
      split
      · exact h
      · next hbounds =>
          have hwidth : 1 ≤ width := by omega
          have hheight : 1 ≤ height := by omega
          exact h.moved rfl h.fits rfl ⟨hwidth, hheight⟩ (mouseClamp_mem hwidth)
            (mouseClamp_mem hheight)
  | position x y =>
      exact ⟨_, rfl, h.moved rfl h.fits rfl h.bounds (mouseClamp_mem h.bounds.1)
        (mouseClamp_mem h.bounds.2)⟩

theorem MouseHolds.calls {calls : List MouseCall} (h : MouseHolds run)
    (hmeet : CallsMeet run calls) :
    ∃ after, mouseRun run calls = some after ∧ MouseHolds after := by
  induction calls generalizing run with
  | nil => exact ⟨run, rfl, h⟩
  | cons call calls ih =>
      obtain ⟨next, hnext, hholds⟩ := h.step hmeet.1
      obtain ⟨after, hafter, hkept⟩ := ih hholds (hmeet.2 next hnext)
      exact ⟨after, by simp [mouseRun, hnext, hafter], hkept⟩

/-- The events tell the truth in every state that is reached by calls that meet the condition. -/
theorem mouseRun_tells (packetLength : ℕ) (calls : List MouseCall)
    (hmeet : CallsMeet (mouseStart packetLength, ⟨[], []⟩) calls) :
    ∃ run, mouseRun (mouseStart packetLength, ⟨[], []⟩) calls = some run ∧ MouseTells run := by
  obtain ⟨run, hrun, hholds⟩ := (mouseHolds_start packetLength).calls hmeet
  exact ⟨run, hrun, hholds.tells⟩

def pressedCalls : List MouseCall := [.byte 0x09, .byte 1, .byte 0, .read]

theorem mouseRun_tells_pressed :
    ∃ run, mouseRun (mouseStart 3, ⟨[], []⟩) pressedCalls = some run ∧ MouseTells run := by
  apply mouseRun_tells
  decide

def buttonCalls (buttons : UInt8) : List MouseCall :=
  [.byte (0x08 ||| buttons), .byte 0, .byte 0]

def overfullCalls : List MouseCall :=
  (List.replicate mouseBufferCapacity (buttonCalls 0)).flatten ++ buttonCalls 1 ++ [.read] ++
    buttonCalls 1

/-- The press that the full buffer discards has not changed anything when the next event tells of
the button. -/
theorem mouseRun_not_tells :
    ∃ run, mouseRun (mouseStart 3, ⟨[], []⟩) overfullCalls = some run ∧ ¬MouseTells run := by
  have hlie : (mouseRun (mouseStart 3, ⟨[], []⟩) overfullCalls).any (fun run ↦
      !decide (Truthful 0 (run.2.read ++ run.1.waiting))) = true := by
    decide +kernel
  obtain ⟨run, hrun, hnot⟩ := (Option.any_eq_true _ _).mp hlie
  refine ⟨run, hrun, fun htells ↦ ?_⟩
  simp [htells.truthful] at hnot

end OxysOS.Drivers
