import OxysOS.Terminal.Input
import Mathlib.Data.List.TakeWhile

/-!
# What the terminal delivers

The ring of the terminal holds a list of bytes, and each call does to the list what
`TerminalView` says.
-/

namespace OxysOS.Terminal

open OxysOS.Library

structure TerminalInput.Holds (t : TerminalInput) (content : List UInt8) : Prop where
  ring : RingHolds t.queue t.readIndex.toUInt64 content
  writeIndex : t.writeIndex = t.readIndex + UInt32.ofNat content.length

namespace TerminalInput.Holds

variable {t : TerminalInput} {content : List UInt8} {byte : UInt8}

theorem length_le (h : t.Holds content) : content.length ≤ 1024 := h.ring.fits

theorem queued (h : t.Holds content) : terminalQueued t = content.length := by
  have hle := h.length_le
  unfold terminalQueued
  rw [h.writeIndex, UInt32.add_comm, UInt32.add_sub_cancel, UInt32.toNat_ofNat']
  omega

theorem dvd : terminalQueueCapacity ∣ 2 ^ 64 := by decide

theorem index_mod (index : UInt32) (n : ℕ) :
    (index + UInt32.ofNat n).toUInt64.toNat % terminalQueueCapacity =
      (index.toUInt64 + UInt64.ofNat n).toNat % terminalQueueCapacity := by
  simp [terminalQueueCapacity, UInt64.toNat_add]

theorem head (h : t.Holds (byte :: content)) : terminalHead t = byte := by
  have hone : 1 ≤ (byte :: content).length := by simp
  simpa [ringRead, terminalHead] using h.ring.take hone

theorem advance (h : t.Holds (byte :: content)) :
    RingHolds t.queue (t.readIndex + 1).toUInt64 content ∧
      t.writeIndex = t.readIndex + 1 + UInt32.ofNat content.length := by
  constructor
  · have hone : 1 ≤ (byte :: content).length := by simp
    exact (h.ring.drop hone).of_mod dvd (index_mod t.readIndex 1)
  · rw [h.writeIndex, List.length_cons, UInt32.add_assoc, Nat.add_comm, UInt32.ofNat_add]
    rfl

theorem put (h : t.Holds content) (hroom : content.length < 1024) (byte : UInt8) :
    RingHolds (Function.update t.queue (ringCell terminalQueueCapacity t.writeIndex.toUInt64) byte)
        t.readIndex.toUInt64 (content ++ [byte]) ∧
      t.writeIndex + 1 = t.readIndex + UInt32.ofNat (content ++ [byte]).length := by
  have hcell : ringCell terminalQueueCapacity t.writeIndex.toUInt64 =
      ringCell terminalQueueCapacity (t.readIndex.toUInt64 + UInt64.ofNat content.length) := by
    rw [h.writeIndex]
    exact Fin.ext (index_mod t.readIndex content.length)
  constructor
  · rw [hcell]
    exact h.ring.put dvd hroom byte
  · rw [h.writeIndex, List.length_append, List.length_singleton, UInt32.ofNat_add, UInt32.add_assoc]
    rfl

end TerminalInput.Holds

structure TerminalView where
  content : List UInt8
  keyboard : List KeyEvent
  serial : List UInt8
  foreground : UInt64
  keyboardDetached : Bool

structure TerminalInput.Shows (t : TerminalInput) (v : TerminalView) : Prop where
  holds : t.Holds v.content
  keyboard : t.keyboard = v.keyboard
  serial : t.serial = v.serial
  foreground : t.foreground = v.foreground
  keyboardDetached : t.keyboardDetached = v.keyboardDetached

def keyBytes (event : KeyEvent) : List UInt8 :=
  if !event.pressed then []
  else if event.character ≠ 0 then [controlled event]
  else if event.extended then (terminalSequenceForScancode event.scancode).getD []
  else []

namespace TerminalView

def accept (v : TerminalView) (bytes : List UInt8) : List UInt8 × TerminalView :=
  let taken := bytes.take (terminalQueueCapacity - v.content.length)
  (taken, { v with content := v.content ++ taken })

def pollKeyboard (v : TerminalView) : List KeyEvent → List TerminalEvent × TerminalView
  | [] => ([], v)
  | event :: events =>
      let (taken, v) := { v with keyboard := events }.accept (keyBytes event)
      let (more, v) := v.pollKeyboard events
      (.key event taken :: more, v)

def poll (v : TerminalView) : List TerminalEvent × TerminalView :=
  let (keys, v) := if v.keyboardDetached then ([], v) else v.pollKeyboard v.keyboard
  let (taken, v') := { v with serial := [] }.accept v.serial
  (keys ++ [.serial v.serial taken], v')

def sent (group : UInt64) (byte : UInt8) : Option (UInt64 × ℕ) :=
  if group ≠ 0 then (signalOf byte).map fun signal ↦ (group, signal) else none

def intercept (v : TerminalView) : List TerminalEvent × TerminalView :=
  ((v.content.takeWhile fun byte ↦ (signalOf byte).isSome).map fun byte ↦
      .intercepted byte (sent v.foreground byte),
    { v with content := v.content.dropWhile fun byte ↦ (signalOf byte).isSome })

def take (v : TerminalView) (capacity : ℕ) : List UInt8 × TerminalView :=
  let bytes := (v.content.takeWhile fun byte ↦ !(signalOf byte).isSome).take capacity
  (bytes, { v with content := v.content.drop bytes.length })

def service (v : TerminalView) : List TerminalEvent × TerminalView :=
  let (polled, v) := v.poll
  let (acted, v) := v.intercept
  (polled ++ acted, v)

def read (v : TerminalView) (capacity : ℕ) : List TerminalEvent × TerminalView :=
  if capacity = 0 then ([], v)
  else
    let (polled, v) := v.poll
    let (acted, v) := v.intercept
    let (bytes, v) := v.take capacity
    (polled ++ acted ++ [.read bytes], v)

def step (v : TerminalView) : TerminalCall → List TerminalEvent × TerminalView
  | .press event =>
      ([], if v.keyboard.length < keyboardBufferCapacity then
        { v with keyboard := v.keyboard ++ [event] } else v)
  | .receive byte =>
      ([], if v.serial.length < serialReceiveBufferCapacity then
        { v with serial := v.serial ++ [byte] } else v)
  | .service => v.service
  | .read capacity => v.read capacity
  | .setForegroundGroup group => ([.foreground group], { v with foreground := group })

def run (v : TerminalView) : List TerminalCall → List TerminalEvent × TerminalView
  | [] => ([], v)
  | call :: calls =>
      let (seen, v) := v.step call
      let (more, v) := v.run calls
      (seen ++ more, v)

end TerminalView

def Agrees {α : Type} (result : α × TerminalInput) (viewed : α × TerminalView) : Prop :=
  result.1 = viewed.1 ∧ result.2.Shows viewed.2

variable {t : TerminalInput} {v : TerminalView}

theorem terminalAppend_agrees (h : t.Shows v) (byte : UInt8) :
    Agrees (terminalAppend t byte) (v.accept [byte]) := by
  unfold terminalAppend TerminalView.accept
  rw [h.holds.queued]
  by_cases hfull : terminalQueueCapacity ≤ v.content.length
  · rw [if_pos hfull, Nat.sub_eq_zero_of_le hfull]
    refine ⟨rfl, ?_, h.keyboard, h.serial, h.foreground, h.keyboardDetached⟩
    simpa using ⟨h.holds.ring, h.holds.writeIndex⟩
  · have hroom : v.content.length < 1024 := Nat.lt_of_not_le hfull
    have htake : [byte].take (terminalQueueCapacity - v.content.length) = [byte] :=
      List.take_of_length_le (by simp [terminalQueueCapacity]; omega)
    rw [if_neg hfull, htake]
    obtain ⟨hring, hwrite⟩ := h.holds.put hroom byte
    exact ⟨rfl, ⟨hring, hwrite⟩, h.keyboard, h.serial, h.foreground, h.keyboardDetached⟩

theorem TerminalView.accept_cons (v : TerminalView) (byte : UInt8) (bytes : List UInt8) :
    v.accept (byte :: bytes) =
      ((v.accept [byte]).1 ++ ((v.accept [byte]).2.accept bytes).1,
        ((v.accept [byte]).2.accept bytes).2) := by
  unfold TerminalView.accept
  cases hroom : terminalQueueCapacity - v.content.length with
  | zero => simp [hroom]
  | succ room =>
      have hleft : terminalQueueCapacity - (v.content.length + 1) = room := by omega
      simp [hleft]

theorem terminalAppendAll_agrees (h : t.Shows v) (bytes : List UInt8) :
    Agrees (terminalAppendAll t bytes) (v.accept bytes) := by
  induction bytes generalizing t v with
  | nil =>
      have hsame : v.accept [] = ([], v) := by simp [TerminalView.accept]
      exact hsame ▸ ⟨rfl, h⟩
  | cons byte bytes ih =>
      obtain ⟨htaken, hshows⟩ := terminalAppend_agrees h byte
      obtain ⟨hmore, hshows'⟩ := ih hshows
      rw [TerminalView.accept_cons]
      exact ⟨congrArg₂ (· ++ ·) htaken hmore, hshows'⟩

theorem terminalTranslate_agrees (h : t.Shows v) (event : KeyEvent) :
    Agrees (terminalTranslate t event) (v.accept (keyBytes event)) := by
  have hnothing : Agrees ([], t) (v.accept []) := terminalAppendAll_agrees h []
  unfold terminalTranslate keyBytes
  by_cases hpressed : !event.pressed
  · rw [if_pos hpressed, if_pos hpressed]
    exact hnothing
  rw [if_neg hpressed, if_neg hpressed]
  by_cases hcharacter : event.character ≠ 0
  · rw [if_pos hcharacter, if_pos hcharacter]
    exact terminalAppend_agrees h _
  rw [if_neg hcharacter, if_neg hcharacter]
  by_cases hextended : event.extended
  · rw [if_pos hextended, if_pos hextended]
    cases terminalSequenceForScancode event.scancode with
    | none => exact hnothing
    | some sequence =>
        have hcounted : TerminalInput.Shows { t with translated := t.translated + 1 } v :=
          ⟨⟨h.holds.ring, h.holds.writeIndex⟩, h.keyboard, h.serial, h.foreground,
            h.keyboardDetached⟩
        exact terminalAppendAll_agrees hcounted sequence
  · rw [if_neg hextended, if_neg hextended]
    exact hnothing

theorem terminalPollKeyboard_agrees (h : t.Shows v) (events : List KeyEvent) :
    Agrees (terminalPollKeyboard t events) (v.pollKeyboard events) := by
  induction events generalizing t v with
  | nil => exact ⟨rfl, h⟩
  | cons event events ih =>
      have hleft : TerminalInput.Shows { t with keyboard := events }
          { v with keyboard := events } :=
        ⟨⟨h.holds.ring, h.holds.writeIndex⟩, rfl, h.serial, h.foreground, h.keyboardDetached⟩
      obtain ⟨htaken, hshows⟩ := terminalTranslate_agrees hleft event
      obtain ⟨hmore, hshows'⟩ := ih hshows
      exact ⟨congrArg₂ (fun taken more ↦ TerminalEvent.key event taken :: more) htaken hmore,
        hshows'⟩

theorem terminalPollSerial_agrees (h : t.Shows v) :
    Agrees (terminalPollSerial t)
      ([.serial v.serial ({ v with serial := [] }.accept v.serial).1],
        ({ v with serial := [] }.accept v.serial).2) := by
  have hleft : TerminalInput.Shows { t with serial := [] } { v with serial := [] } :=
    ⟨⟨h.holds.ring, h.holds.writeIndex⟩, h.keyboard, rfl, h.foreground, h.keyboardDetached⟩
  obtain ⟨htaken, hshows⟩ := terminalAppendAll_agrees hleft v.serial
  unfold terminalPollSerial
  rw [h.serial]
  exact ⟨congrArg (fun taken ↦ [TerminalEvent.serial v.serial taken]) htaken, hshows⟩

theorem terminalPoll_agrees (h : t.Shows v) : Agrees (terminalPoll t) v.poll := by
  unfold terminalPoll TerminalView.poll
  rw [h.keyboardDetached, h.keyboard]
  by_cases hdetached : v.keyboardDetached
  · rw [if_pos hdetached, if_pos hdetached]
    exact terminalPollSerial_agrees h
  · rw [if_neg hdetached, if_neg hdetached]
    obtain ⟨hkeys, hshows⟩ := terminalPollKeyboard_agrees h v.keyboard
    obtain ⟨hline, hshows'⟩ := terminalPollSerial_agrees hshows
    exact ⟨congrArg₂ (· ++ ·) hkeys hline, hshows'⟩

variable {byte : UInt8} {rest : List UInt8}

theorem TerminalView.intercept_nil (h : v.content = []) : v.intercept = ([], v) := by
  obtain ⟨content, _, _, _, _⟩ := v
  subst h
  rfl

theorem TerminalView.intercept_other (h : v.content = byte :: rest) (hother : signalOf byte = none) :
    v.intercept = ([], v) := by
  obtain ⟨content, _, _, _, _⟩ := v
  subst h
  simp [intercept, hother]

theorem TerminalView.intercept_signal (h : v.content = byte :: rest) {signal : ℕ}
    (hsignal : signalOf byte = some signal) :
    v.intercept = (.intercepted byte (sent v.foreground byte) ::
      ({ v with content := rest }.intercept).1, ({ v with content := rest }.intercept).2) := by
  obtain ⟨content, _, _, _, _⟩ := v
  subst h
  simp [intercept, hsignal]

theorem terminalInterceptLoop_agrees (h : t.Shows v) {fuel : ℕ} (hfuel : v.content.length ≤ fuel) :
    Agrees (terminalInterceptLoop fuel t) v.intercept := by
  induction fuel generalizing t v with
  | zero =>
      rw [v.intercept_nil (List.length_eq_zero_iff.mp (Nat.le_zero.mp hfuel))]
      exact ⟨rfl, h⟩
  | succ fuel ih =>
      unfold terminalInterceptLoop
      rw [h.holds.queued]
      cases hcontent : v.content with
      | nil =>
          rw [v.intercept_nil hcontent]
          exact ⟨rfl, h⟩
      | cons byte rest =>
          have hholds := h.holds
          rw [hcontent] at hholds hfuel
          rw [if_pos (by simp), hholds.head]
          obtain ⟨hring, hwrite⟩ := hholds.advance
          cases hsignal : signalOf byte with
          | none =>
              rw [TerminalView.intercept_other hcontent hsignal]
              exact ⟨rfl, h⟩
          | some signal =>
              have hrest : rest.length ≤ fuel := Nat.le_of_succ_le_succ hfuel
              rw [TerminalView.intercept_signal hcontent hsignal]
              dsimp only
              by_cases hgroup : t.foreground ≠ 0
              · have hsent : TerminalView.sent v.foreground byte = some (t.foreground, signal) := by
                  rw [← h.foreground]
                  simp [TerminalView.sent, hgroup, hsignal]
                rw [if_pos hgroup, hsent]
                have hshows : TerminalInput.Shows
                    { t with
                      readIndex := t.readIndex + 1
                      intercepted := t.intercepted + 1
                      signalsSent := t.signalsSent + 1 } { v with content := rest } :=
                  ⟨⟨hring, hwrite⟩, h.keyboard, h.serial, h.foreground, h.keyboardDetached⟩
                obtain ⟨hmore, hshows'⟩ := ih hshows hrest
                exact ⟨congrArg _ hmore, hshows'⟩
              · have hsent : TerminalView.sent v.foreground byte = none := by
                  rw [← h.foreground]
                  exact if_neg hgroup
                rw [if_neg hgroup, hsent]
                have hshows : TerminalInput.Shows
                    { t with readIndex := t.readIndex + 1, intercepted := t.intercepted + 1 }
                    { v with content := rest } :=
                  ⟨⟨hring, hwrite⟩, h.keyboard, h.serial, h.foreground, h.keyboardDetached⟩
                obtain ⟨hmore, hshows'⟩ := ih hshows hrest
                exact ⟨congrArg _ hmore, hshows'⟩

theorem terminalInterceptHead_agrees (h : t.Shows v) :
    Agrees (terminalInterceptHead t) v.intercept := by
  unfold terminalInterceptHead
  rw [h.holds.queued]
  exact terminalInterceptLoop_agrees h le_rfl

theorem TerminalView.take_cons (h : v.content = byte :: rest) (hother : signalOf byte = none)
    (capacity : ℕ) : v.take (capacity + 1) =
      (byte :: ({ v with content := rest }.take capacity).1,
        ({ v with content := rest }.take capacity).2) := by
  obtain ⟨content, _, _, _, _⟩ := v
  subst h
  simp [take, hother]

theorem terminalReadLoop_agrees (h : t.Shows v) (capacity : ℕ) :
    Agrees (terminalReadLoop capacity t) (v.take capacity) := by
  induction capacity generalizing t v with
  | zero =>
      refine ⟨by simp [terminalReadLoop, TerminalView.take], ?_⟩
      simpa [terminalReadLoop, TerminalView.take] using h
  | succ capacity ih =>
      unfold terminalReadLoop terminalHeadIsSignal
      rw [h.holds.queued]
      cases hcontent : v.content with
      | nil =>
          have hsame : v.take (capacity + 1) = ([], v) := by
            obtain ⟨content, _, _, _, _⟩ := v
            subst hcontent
            rfl
          exact hsame ▸ ⟨rfl, h⟩
      | cons byte rest =>
          have hholds := h.holds
          rw [hcontent] at hholds
          rw [hholds.head]
          obtain ⟨hring, hwrite⟩ := hholds.advance
          cases hsignal : signalOf byte with
          | none =>
              rw [if_pos (by simp), TerminalView.take_cons hcontent hsignal]
              have hshows : TerminalInput.Shows { t with readIndex := t.readIndex + 1 }
                  { v with content := rest } :=
                ⟨⟨hring, hwrite⟩, h.keyboard, h.serial, h.foreground, h.keyboardDetached⟩
              obtain ⟨hmore, hshows'⟩ := ih hshows
              exact ⟨congrArg _ hmore, hshows'⟩
          | some signal =>
              have hsame : v.take (capacity + 1) = ([], v) := by
                obtain ⟨content, _, _, _, _⟩ := v
                subst hcontent
                simp [TerminalView.take, hsignal]
              rw [if_neg (by simp), hsame]
              exact ⟨rfl, h⟩

theorem terminalService_agrees (h : t.Shows v) : Agrees (terminalService t) v.service := by
  obtain ⟨hpolled, hshows⟩ := terminalPoll_agrees h
  obtain ⟨hacted, hshows'⟩ := terminalInterceptHead_agrees hshows
  exact ⟨congrArg₂ (· ++ ·) hpolled hacted, hshows'⟩

theorem terminalRead_agrees (h : t.Shows v) (capacity : ℕ) :
    Agrees (terminalRead t capacity) (v.read capacity) := by
  unfold terminalRead TerminalView.read
  by_cases hnone : capacity = 0
  · rw [if_pos hnone, if_pos hnone]
    exact ⟨rfl, h⟩
  rw [if_neg hnone, if_neg hnone]
  obtain ⟨hpolled, hshows⟩ := terminalPoll_agrees h
  obtain ⟨hacted, hshows'⟩ := terminalInterceptHead_agrees hshows
  obtain ⟨hread, hshows''⟩ := terminalReadLoop_agrees hshows' capacity
  refine ⟨?_, ⟨hshows''.holds.ring, hshows''.holds.writeIndex⟩, hshows''.keyboard, hshows''.serial,
    hshows''.foreground, hshows''.keyboardDetached⟩
  exact congrArg₂ (fun acted bytes ↦ acted ++ [TerminalEvent.read bytes])
    (congrArg₂ (· ++ ·) hpolled hacted) hread

theorem TerminalCall.step_agrees (h : t.Shows v) (call : TerminalCall) :
    Agrees (call.step t) (v.step call) := by
  cases call with
  | press event =>
      unfold TerminalCall.step TerminalView.step
      refine ⟨rfl, ?_⟩
      dsimp only
      rw [h.keyboard]
      by_cases hroom : v.keyboard.length < keyboardBufferCapacity
      · rw [if_pos hroom, if_pos hroom]
        exact ⟨⟨h.holds.ring, h.holds.writeIndex⟩, rfl, h.serial, h.foreground,
          h.keyboardDetached⟩
      · rw [if_neg hroom, if_neg hroom]
        exact h
  | receive byte =>
      unfold TerminalCall.step TerminalView.step
      refine ⟨rfl, ?_⟩
      dsimp only
      rw [h.serial]
      by_cases hroom : v.serial.length < serialReceiveBufferCapacity
      · rw [if_pos hroom, if_pos hroom]
        exact ⟨⟨h.holds.ring, h.holds.writeIndex⟩, h.keyboard, rfl, h.foreground,
          h.keyboardDetached⟩
      · rw [if_neg hroom, if_neg hroom]
        exact h
  | service => exact terminalService_agrees h
  | read capacity => exact terminalRead_agrees h capacity
  | setForegroundGroup group =>
      exact ⟨rfl, ⟨h.holds.ring, h.holds.writeIndex⟩, h.keyboard, h.serial, rfl,
        h.keyboardDetached⟩

theorem terminalRun_agrees (h : t.Shows v) (calls : List TerminalCall) :
    Agrees (terminalRun t calls) (v.run calls) := by
  induction calls generalizing t v with
  | nil => exact ⟨rfl, h⟩
  | cons call calls ih =>
      obtain ⟨hseen, hshows⟩ := call.step_agrees h
      obtain ⟨hmore, hshows'⟩ := ih hshows
      exact ⟨congrArg₂ (· ++ ·) hseen hmore, hshows'⟩

namespace TerminalEvent

def accepted : TerminalEvent → List UInt8
  | .key _ taken | .serial _ taken => taken
  | _ => []

def removed : TerminalEvent → List UInt8
  | .intercepted byte _ => [byte]
  | .read bytes => bytes
  | _ => []

def typed : TerminalEvent → List UInt8
  | .key _ taken => taken
  | _ => []

def origins : TerminalEvent → List (UInt8 × Bool)
  | .key _ taken => taken.map (·, true)
  | .serial _ taken => taken.map (·, false)
  | _ => []

def keys : TerminalEvent → List KeyEvent
  | .key event _ => [event]
  | _ => []

def groupAfter (group : UInt64) : TerminalEvent → UInt64
  | .foreground group => group
  | _ => group

def Sound (held : ℕ) (group : UInt64) : TerminalEvent → Prop
  | .key event taken => taken = (keyBytes event).take (terminalQueueCapacity - held)
  | .serial bytes taken => taken = bytes.take (terminalQueueCapacity - held)
  | .intercepted byte sent =>
      ∃ signal, signalOf byte = some signal ∧
        sent = if group = 0 then none else some (group, signal)
  | .read bytes => ∀ byte ∈ bytes, signalOf byte = none
  | .foreground _ => True

end TerminalEvent

open TerminalEvent

/-- What is seen leads from one queue and foreground group to another, and is right throughout. -/
inductive Explained :
    List UInt8 → UInt64 → List TerminalEvent → List UInt8 → UInt64 → Prop
  | nil (content : List UInt8) (group : UInt64) : Explained content group [] content group
  | cons {content rest content' : List UInt8} {group group' : UInt64} {event : TerminalEvent}
      {events : List TerminalEvent} (hsound : event.Sound content.length group)
      (hmoves : content ++ event.accepted = event.removed ++ rest)
      (hrest : Explained rest (event.groupAfter group) events content' group') :
      Explained content group (event :: events) content' group'

namespace Explained

variable {content content' content'' : List UInt8} {group group' group'' : UInt64}
  {event : TerminalEvent} {events events' : List TerminalEvent}

theorem append (h : Explained content group events content' group')
    (h' : Explained content' group' events' content'' group'') :
    Explained content group (events ++ events') content'' group'' := by
  induction h with
  | nil => exact h'
  | cons hsound hmoves _ ih => exact .cons hsound hmoves (ih h')

theorem single (hsound : event.Sound content.length group)
    (hmoves : content ++ event.accepted = event.removed ++ content')
    (hgroup : event.groupAfter group = group') : Explained content group [event] content' group' :=
  .cons hsound hmoves (hgroup ▸ .nil _ _)

theorem total (h : Explained content group events content' group') :
    content ++ events.flatMap accepted = events.flatMap removed ++ content' := by
  induction h with
  | nil => simp
  | cons hsound hmoves _ ih =>
      rw [List.flatMap_cons, List.flatMap_cons, ← List.append_assoc, hmoves, List.append_assoc, ih,
        List.append_assoc]

theorem sound_at (h : Explained content group events content' group')
    {before after : List TerminalEvent} (hevents : events = before ++ event :: after) :
    event.Sound (content.length + (before.flatMap accepted).length -
      (before.flatMap removed).length) (before.foldl groupAfter group) := by
  induction before generalizing content group events with
  | nil =>
      subst hevents
      cases h with
      | cons hsound _ _ => simpa using hsound
  | cons first before ih =>
      subst hevents
      cases h with
      | cons hsound hmoves hrest =>
          have hlength := congrArg List.length hmoves
          have hlater := ih hrest rfl
          rw [List.length_append, List.length_append] at hlength
          refine (congrArg (fun held ↦ Sound held _ event) ?_).mpr hlater
          rw [List.flatMap_cons, List.flatMap_cons, List.length_append, List.length_append]
          omega

end Explained

namespace TerminalView

theorem pollKeyboard_explained (v : TerminalView) (events : List KeyEvent) :
    Explained v.content v.foreground (v.pollKeyboard events).1 (v.pollKeyboard events).2.content
      (v.pollKeyboard events).2.foreground := by
  induction events generalizing v with
  | nil => exact .nil _ _
  | cons event events ih =>
      exact .cons rfl rfl (ih ({ v with keyboard := events }.accept (keyBytes event)).2)

theorem poll_explained (v : TerminalView) :
    Explained v.content v.foreground v.poll.1 v.poll.2.content v.poll.2.foreground := by
  unfold poll
  by_cases hdetached : v.keyboardDetached
  · rw [if_pos hdetached]
    exact .single rfl rfl rfl
  · rw [if_neg hdetached]
    exact (v.pollKeyboard_explained v.keyboard).append (.single rfl rfl rfl)

theorem intercept_explained (v : TerminalView) :
    Explained v.content v.foreground v.intercept.1 v.intercept.2.content
      v.intercept.2.foreground := by
  induction hcontent : v.content generalizing v with
  | nil =>
      rw [intercept_nil hcontent, hcontent]
      exact .nil _ _
  | cons byte rest ih =>
      cases hsignal : signalOf byte with
      | none =>
          rw [intercept_other hcontent hsignal, hcontent]
          exact .nil _ _
      | some signal =>
          rw [intercept_signal hcontent hsignal]
          refine .cons ⟨signal, hsignal, ?_⟩ (List.append_nil _) (ih { v with content := rest } rfl)
          unfold sent
          rw [hsignal, ite_not]
          rfl

theorem take_explained (v : TerminalView) (capacity : ℕ) :
    Explained v.content v.foreground [.read (v.take capacity).1] (v.take capacity).2.content
      (v.take capacity).2.foreground := by
  refine .single (fun byte hmem ↦ ?_) ?_ rfl
  · have hother := List.mem_takeWhile_imp (List.mem_of_mem_take hmem)
    simpa using hother
  · have hprefix : (v.take capacity).1 <+: v.content :=
      (List.take_prefix _ _).trans (List.takeWhile_prefix _)
    exact (List.append_nil _).trans (List.prefix_iff_eq_append.mp hprefix).symm

theorem step_explained (v : TerminalView) (call : TerminalCall) :
    Explained v.content v.foreground (v.step call).1 (v.step call).2.content
      (v.step call).2.foreground := by
  cases call with
  | press event =>
      unfold step
      dsimp only
      split <;> exact .nil _ _
  | receive byte =>
      unfold step
      dsimp only
      split <;> exact .nil _ _
  | service => exact v.poll_explained.append (intercept_explained _)
  | read capacity =>
      change Explained _ _ (v.read capacity).1 (v.read capacity).2.content _
      change Explained _ _ _ _ (v.read capacity).2.foreground
      unfold read
      by_cases hnone : capacity = 0
      · rw [if_pos hnone]
        exact .nil _ _
      · rw [if_neg hnone]
        exact (v.poll_explained.append (intercept_explained _)).append (take_explained _ capacity)
  | setForegroundGroup group => exact .single trivial (List.append_nil _) rfl

theorem run_explained (v : TerminalView) (calls : List TerminalCall) :
    Explained v.content v.foreground (v.run calls).1 (v.run calls).2.content
      (v.run calls).2.foreground := by
  induction calls generalizing v with
  | nil => exact .nil _ _
  | cons call calls ih => exact (v.step_explained call).append (ih _)

end TerminalView

def TerminalCall.pressed : TerminalCall → List KeyEvent
  | .press event => [event]
  | _ => []

namespace TerminalView

theorem pollKeyboard_keys (v : TerminalView) {events : List KeyEvent} (h : v.keyboard = events) :
    (v.pollKeyboard events).1.flatMap keys = events ∧ (v.pollKeyboard events).2.keyboard = [] := by
  induction events generalizing v with
  | nil => exact ⟨rfl, h⟩
  | cons event events ih =>
      obtain ⟨hkeys, hkeyboard⟩ := ih ({ v with keyboard := events }.accept (keyBytes event)).2 rfl
      exact ⟨congrArg (event :: ·) hkeys, hkeyboard⟩

theorem poll_keys (v : TerminalView) : v.poll.1.flatMap keys ++ v.poll.2.keyboard = v.keyboard := by
  unfold poll
  by_cases hdetached : v.keyboardDetached
  · rw [if_pos hdetached]
    rfl
  · rw [if_neg hdetached]
    obtain ⟨hkeys, hkeyboard⟩ := v.pollKeyboard_keys rfl
    simp [List.flatMap_append, hkeys, accept, hkeyboard, keys]

theorem intercept_keys (v : TerminalView) : v.intercept.1.flatMap keys = [] := by
  simp [intercept, List.flatMap_map, keys]

theorem step_keys (v : TerminalView) (call : TerminalCall) :
    ((v.step call).1.flatMap keys ++ (v.step call).2.keyboard).Sublist
      (v.keyboard ++ call.pressed) := by
  have hpoll := v.poll_keys
  cases call with
  | press event =>
      unfold step TerminalCall.pressed
      dsimp only
      split
      · exact List.Sublist.refl _
      · exact List.sublist_append_left _ _
  | receive byte =>
      unfold step TerminalCall.pressed
      dsimp only
      split <;> simp
  | service =>
      change ((v.poll.1 ++ v.poll.2.intercept.1).flatMap keys ++ v.poll.2.keyboard).Sublist _
      rw [List.flatMap_append, intercept_keys, List.append_nil, hpoll]
      exact List.sublist_append_left _ _
  | read capacity =>
      change ((v.read capacity).1.flatMap keys ++ (v.read capacity).2.keyboard).Sublist _
      unfold read
      by_cases hnone : capacity = 0
      · rw [if_pos hnone]
        exact List.sublist_append_left _ _
      · rw [if_neg hnone]
        change ((v.poll.1 ++ v.poll.2.intercept.1 ++ [_]).flatMap keys ++ v.poll.2.keyboard).Sublist _
        rw [List.flatMap_append, List.flatMap_append, intercept_keys, List.append_nil]
        change (v.poll.1.flatMap keys ++ [] ++ _).Sublist _
        rw [List.append_nil, hpoll]
        exact List.sublist_append_left _ _
  | setForegroundGroup group => exact List.sublist_append_left _ _

theorem run_keys (v : TerminalView) (calls : List TerminalCall) :
    ((v.run calls).1.flatMap keys ++ (v.run calls).2.keyboard).Sublist
      (v.keyboard ++ calls.flatMap TerminalCall.pressed) := by
  induction calls generalizing v with
  | nil => simp [run]
  | cons call calls ih =>
      have hfirst := (v.step_keys call).append_right (calls.flatMap TerminalCall.pressed)
      have hlater := (ih (v.step call).2).append_left ((v.step call).1.flatMap keys)
      change (((v.step call).1 ++ ((v.step call).2.run calls).1).flatMap keys ++
        ((v.step call).2.run calls).2.keyboard).Sublist _
      rw [List.flatMap_append, List.append_assoc, List.flatMap_cons]
      refine hlater.trans ?_
      rw [← List.append_assoc, ← List.append_assoc]
      exact hfirst

end TerminalView

def heldAfter (seen : List TerminalEvent) : ℕ :=
  (seen.flatMap accepted).length - (seen.flatMap removed).length

def removedKeys (seen : List TerminalEvent) : List UInt8 :=
  (((seen.flatMap origins).take (seen.flatMap removed).length).filter (·.2)).map (·.1)

theorem removedKeys_prefix (seen : List TerminalEvent) :
    removedKeys seen <+: seen.flatMap typed := by
  have htyped : ((seen.flatMap origins).filter (·.2)).map (·.1) = seen.flatMap typed := by
    induction seen with
    | nil => rfl
    | cons event seen ih =>
        rw [List.flatMap_cons, List.filter_append, List.map_append, ih, List.flatMap_cons]
        congr 1
        cases event <;> simp [origins, typed, List.filter_map, Function.comp_def]
  rw [← htyped]
  exact ((List.take_prefix _ _).filter _).map _

def TerminalInput.emptied (t : TerminalInput) : TerminalView :=
  ⟨[], t.keyboard, t.serial, t.foreground, t.keyboardDetached⟩

theorem terminalInitialise_shows (t : TerminalInput) : (terminalInitialise t).Shows t.emptied :=
  ⟨⟨RingHolds.nil _ _, rfl⟩, rfl, rfl, rfl, rfl⟩

/-- What is read and what is taken as signals is, in order, what the queue has accepted, and each is
right where it stands: a read is given no signal, a signal is sent once to the group that is then in
the foreground, and the queue takes of each key that is pressed, in order, as much of its
translation as there is room for. -/
theorem terminalRun_delivers (t : TerminalInput) (calls : List TerminalCall) :
    let seen := (terminalRun (terminalInitialise t) calls).1
    (∃ content, (terminalRun (terminalInitialise t) calls).2.Holds content ∧
      seen.flatMap accepted = seen.flatMap removed ++ content) ∧
    (seen.flatMap keys).Sublist (t.keyboard ++ calls.flatMap TerminalCall.pressed) ∧
    removedKeys seen <+: seen.flatMap typed ∧
    ∀ before event after, seen = before ++ event :: after →
      event.Sound (heldAfter before) (before.foldl groupAfter t.foreground) := by
  obtain ⟨hseen, hshows⟩ := terminalRun_agrees (terminalInitialise_shows t) calls
  have hexplained := t.emptied.run_explained calls
  dsimp only
  rw [hseen]
  refine ⟨⟨_, hshows.holds, hexplained.total⟩, ?_, removedKeys_prefix _, ?_⟩
  · exact (List.sublist_append_left _ _).trans (t.emptied.run_keys calls)
  · intro before event after hevents
    simpa [heldAfter, TerminalInput.emptied] using hexplained.sound_at hevents

def freshTerminal : TerminalInput where
  queue _ := 0
  writeIndex := 0
  readIndex := 0
  delivered := 0
  discarded := 0
  translated := 0
  foreground := 0
  signalsSent := 0
  intercepted := 0
  keyboardDetached := false
  keyboard := []
  serial := []

def cursorUp : KeyEvent := ⟨0x48, 0, 0, true, true⟩

def filledThenUp : List TerminalCall :=
  (List.replicate 3 (List.replicate 256 (.receive 0x61) ++ [.service])).flatten ++
    List.replicate 255 (.receive 0x61) ++ [.service, .press cursorUp, .service, .read 1024]

/-- The first byte of the key is read and the other two never are. -/
theorem terminalRun_cut :
    removedKeys (terminalRun (terminalInitialise freshTerminal) filledThenUp).1 = [0x1B] ∧
      keyBytes cursorUp = [0x1B, 0x5B, 0x41] ∧
        ∀ some : List KeyEvent, some.Sublist (filledThenUp.flatMap TerminalCall.pressed) →
          some.flatMap keyBytes ≠
            removedKeys (terminalRun (terminalInitialise freshTerminal) filledThenUp).1 := by
  have hseen := (terminalRun_agrees (terminalInitialise_shows freshTerminal) filledThenUp).1
  have hremoved : removedKeys (freshTerminal.emptied.run filledThenUp).1 = [0x1B] := by
    decide +kernel
  rw [hseen, hremoved]
  refine ⟨rfl, rfl, fun some hsome ↦ ?_⟩
  have hpressed : filledThenUp.flatMap TerminalCall.pressed = [cursorUp] := by decide +kernel
  rw [hpressed] at hsome
  rcases List.sublist_singleton.mp hsome with rfl | rfl
  · decide
  · decide

end OxysOS.Terminal
