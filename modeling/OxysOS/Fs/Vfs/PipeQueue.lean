import OxysOS.Fs.Vfs.Pipe

/-!
# A pipe is an ordered queue

What was accepted is what was delivered followed by what is held.  A write that
fits the buffer is accepted in one piece.  A thread is left asleep upon the pipe
while what it waits for holds only until a wake that is already on its way.
-/

namespace OxysOS.Fs

open OxysOS.Library OxysOS.Proc

structure VfsPipe.Holds (pipe : VfsPipe) (content : List UInt8) : Prop where
  ring : RingHolds pipe.buffer pipe.readIndex content
  writeIndex : pipe.writeIndex = pipe.readIndex + UInt64.ofNat content.length

namespace VfsPipe.Holds

variable {pipe pipe' : VfsPipe} {content bytes remaining : List UInt8} {length count : ℕ}

theorem length_le (h : pipe.Holds content) : content.length ≤ 4096 := h.ring.fits

theorem held (h : pipe.Holds content) : (vfsPipeHeld pipe).toNat = content.length := by
  have hle := h.length_le
  unfold vfsPipeHeld
  rw [h.writeIndex, UInt64.add_comm, UInt64.add_sub_cancel, UInt64.toNat_ofNat']
  omega

theorem room (h : pipe.Holds content) :
    (vfsPipeRoom pipe).toNat = vfsPipeBufferSize - content.length := by
  have hle := h.length_le
  have hheld := h.held
  have hsize : (UInt64.ofNat vfsPipeBufferSize).toNat = vfsPipeBufferSize := by decide
  unfold vfsPipeRoom
  rw [UInt64.toNat_sub_of_le, hsize, hheld]
  rw [UInt64.le_iff_toNat_le, hsize, hheld]
  exact hle

theorem transferred (h : pipe.Holds content)
    (hsection : vfsPipeReadSection pipe length = .transferred bytes pipe') :
    ∃ rest, content = bytes ++ rest ∧ pipe'.Holds rest ∧ content ≠ [] ∧
      (bytes = [] → length = 0) ∧ pipe'.readers = pipe.readers ∧ pipe'.writers = pipe.writers := by
  unfold vfsPipeReadSection at hsection
  rw [h.held] at hsection
  dsimp only at hsection
  split at hsection
  · rename_i hpositive
    cases hsection
    generalize hcount : (if content.length < length then content.length else length) = count
    have hle : count ≤ content.length := by
      rw [← hcount]
      split <;> omega
    refine ⟨content.drop count, ?_, ⟨h.ring.drop hle, ?_⟩, ?_, ?_, rfl, rfl⟩
    · rw [h.ring.take hle, List.take_append_drop]
    · change pipe.writeIndex = _
      rw [h.writeIndex, List.length_drop, UInt64.add_assoc, ← UInt64.ofNat_add,
        Nat.add_sub_cancel' hle]
    · exact List.ne_nil_of_length_pos hpositive
    · intro hbytes
      have hlength := congrArg List.length hbytes
      rw [length_ringRead, List.length_nil] at hlength
      rw [← hcount] at hlength
      split at hlength <;> omega
  · split at hsection <;> cases hsection

theorem atEnd (h : pipe.Holds content) (hsection : vfsPipeReadSection pipe length = .atEnd) :
    content = [] ∧ pipe.writers = 0 := by
  unfold vfsPipeReadSection at hsection
  rw [h.held] at hsection
  dsimp only at hsection
  split at hsection
  · cases hsection
  · rename_i hempty
    split at hsection
    · rename_i hwriters
      exact ⟨List.eq_nil_of_length_eq_zero (by omega), hwriters⟩
    · cases hsection

theorem empty (hsection : vfsPipeReadSection pipe length = .empty) :
    ¬(0 < (vfsPipeHeld pipe).toNat ∨ pipe.writers = 0) := by
  unfold vfsPipeReadSection at hsection
  dsimp only at hsection
  split at hsection
  · cases hsection
  · rename_i hempty
    split at hsection
    · cases hsection
    · rename_i hwriters
      exact not_or.mpr ⟨hempty, hwriters⟩

theorem put (h : pipe.Holds content) (hsection : vfsPipeWriteSection pipe remaining = .put count pipe') :
    pipe'.Holds (content ++ remaining.take count) ∧ count ≤ remaining.length ∧
      (remaining.length ≤ vfsPipeBufferSize → count = remaining.length) := by
  have hfits := h.length_le
  unfold vfsPipeWriteSection at hsection
  rw [h.room] at hsection
  dsimp only at hsection
  split at hsection
  · cases hsection
  · split at hsection
    · rename_i hneeded
      cases hsection
      generalize hcount : (if vfsPipeBufferSize - content.length < remaining.length then
        vfsPipeBufferSize - content.length else remaining.length) = count
      have hle : count ≤ remaining.length := by
        rw [← hcount]
        split <;> omega
      have hroom : content.length + (remaining.take count).length ≤ vfsPipeBufferSize := by
        rw [List.length_take, min_eq_left hle, ← hcount]
        change content.length ≤ vfsPipeBufferSize at hfits
        split <;> omega
      refine ⟨⟨?_, ?_⟩, hle, ?_⟩
      · have hwrite := h.ring.write (by decide) hroom
        rw [← h.writeIndex] at hwrite
        exact hwrite
      · change pipe.writeIndex + _ = pipe.readIndex + _
        rw [h.writeIndex, List.length_append, List.length_take, min_eq_left hle,
          UInt64.ofNat_add, UInt64.add_assoc]
      · intro hsmall
        unfold vfsPipeNeeded at hneeded
        rw [if_pos hsmall] at hneeded
        rw [← hcount]
        split <;> omega
    · cases hsection

theorem full (hsection : vfsPipeWriteSection pipe remaining = .full) :
    ¬(pipe.readers = 0 ∨ vfsPipeNeeded remaining.length ≤ (vfsPipeRoom pipe).toNat) := by
  unfold vfsPipeWriteSection at hsection
  dsimp only at hsection
  split at hsection
  · cases hsection
  · rename_i hreaders
    split at hsection
    · cases hsection
    · rename_i hneeded
      exact not_or.mpr ⟨hreaders, hneeded⟩

theorem released (h : pipe.Holds content) (reads : Bool) : (pipe.released reads).Holds content := by
  unfold VfsPipe.released
  split
  · split <;> exact ⟨h.ring, h.writeIndex⟩
  · split <;> exact ⟨h.ring, h.writeIndex⟩

theorem retired (h : pipe.Holds content) : pipe.retired.Holds content := by
  unfold VfsPipe.retired
  split <;> exact ⟨h.ring, h.writeIndex⟩

end VfsPipe.Holds

namespace PipeSystem

variable {τ : Type} {s s' : PipeSystem τ} {t : τ} {length write written count : ℕ}
  {data : List UInt8}

def Flows (s : PipeSystem τ) : Prop :=
  ∃ content, s.pipe.Holds content ∧ s.stream = s.delivered ++ content

theorem Created.flows (h : Created s) : s.Flows := by
  refine ⟨[], ⟨⟨by simp, rfl⟩, ?_⟩, ?_⟩
  · rw [h.pipe]
    rfl
  · simp [stream, h.accepted, h.delivered]

variable [DecidableEq τ]

theorem Flows.readTurn (h : s.Flows) : (s.readTurn t length).Flows := by
  obtain ⟨content, hholds, hstream⟩ := h
  unfold PipeSystem.readTurn
  cases hsection : vfsPipeReadSection s.pipe length with
  | transferred bytes pipe =>
      obtain ⟨rest, hcontent, hrest, -⟩ := hholds.transferred hsection
      refine ⟨rest, hrest, ?_⟩
      change s.stream = (s.delivered ++ bytes) ++ rest
      rw [hstream, hcontent, List.append_assoc]
  | atEnd => exact ⟨content, hholds, hstream⟩
  | empty =>
      dsimp only
      split <;> exact ⟨content, hholds, hstream⟩

theorem Flows.writeTurn (h : s.Flows) : (s.writeTurn t write data written).Flows := by
  obtain ⟨content, hholds, hstream⟩ := h
  unfold PipeSystem.writeTurn
  split
  · exact ⟨content, hholds, hstream⟩
  · cases hsection : vfsPipeWriteSection s.pipe (data.drop written) with
    | broken => exact ⟨content, hholds, hstream⟩
    | put count pipe =>
        obtain ⟨hput, -⟩ := hholds.put hsection
        refine ⟨_, hput, ?_⟩
        change (s.accepted ++ [(write, (data.drop written).take count)]).flatMap Prod.snd = _
        rw [List.flatMap_append, List.flatMap_singleton]
        change s.stream ++ _ = s.delivered ++ _
        rw [hstream, List.append_assoc]
    | full =>
        dsimp only
        split
        · exact ⟨content, hholds, hstream⟩
        · split <;> exact ⟨content, hholds, hstream⟩

theorem Flows.advance (h : s.Flows) : (s.advance t).Flows := by
  obtain ⟨content, hholds, hstream⟩ := id h
  unfold PipeSystem.advance
  split
  case h_2 => exact h.readTurn
  case h_5 => exact h.writeTurn
  case h_10 => exact ⟨content, hholds.retired, hstream⟩
  all_goals exact ⟨content, hholds, hstream⟩

theorem Step.flows (hstep : Step s s') (h : s.Flows) : s'.Flows := by
  obtain ⟨content, hholds, hstream⟩ := id h
  cases hstep with
  | close t reads => exact ⟨content, hholds.released reads, hstream⟩
  | advance t => exact h.advance
  | _ => exact ⟨content, hholds, hstream⟩

structure Accounted (s : PipeSystem τ) : Prop where
  named : ∀ piece ∈ s.accepted, piece.1 < s.writes.length
  current : ∀ t write data written, (s.places t).write = some (write, data, written) →
    s.writes[write]? = some data ∧ (s.piecesOf write).flatten = data.take written ∧
      written ≤ data.length
  apart : ∀ t u write data written data' written',
    (s.places t).write = some (write, data, written) →
    (s.places u).write = some (write, data', written') → t = u
  pieces : ∀ write data, s.writes[write]? = some data → (s.piecesOf write).flatten <+: data
  whole : ∀ write data, s.writes[write]? = some data → data.length ≤ vfsPipeBufferSize →
    s.piecesOf write = [] ∨ s.piecesOf write = [data]

omit [DecidableEq τ] in
theorem Accounted.still (h : s.Accounted) (hwrites : s'.writes = s.writes)
    (haccepted : s'.accepted = s.accepted)
    (hplaces : ∀ t, (s'.places t).write = none ∨ (s'.places t).write = (s.places t).write) :
    s'.Accounted := by
  have hpieces : ∀ write, s'.piecesOf write = s.piecesOf write := by
    intro write
    unfold piecesOf
    rw [haccepted]
  have hback : ∀ t x, (s'.places t).write = some x → (s.places t).write = some x := by
    intro t x hx
    rcases hplaces t with hnone | hsame
    · rw [hnone] at hx
      cases hx
    · rw [← hsame]
      exact hx
  constructor
  · rw [hwrites, haccepted]
    exact h.named
  · intro t write data written hplace
    rw [hwrites, hpieces]
    exact h.current t write data written (hback t _ hplace)
  · intro t u write data written data' written' ht hu
    exact h.apart t u write data written data' written' (hback t _ ht) (hback u _ hu)
  · intro write data hdata
    rw [hwrites] at hdata
    rw [hpieces]
    exact h.pieces write data hdata
  · intro write data hdata
    rw [hwrites] at hdata
    rw [hpieces]
    exact h.whole write data hdata

omit [DecidableEq τ] in
theorem Accounted.unbegun (h : s.Accounted) (hwrite : s.writes.length ≤ write) :
    s.piecesOf write = [] := by
  unfold piecesOf
  rw [List.map_eq_nil_iff, List.filter_eq_nil_iff]
  intro piece hpiece
  have := h.named piece hpiece
  simp only [decide_eq_true_eq]
  omega

omit [DecidableEq τ] in
theorem Created.accounted (h : Created s) : s.Accounted := by
  have hplace : ∀ t, (s.places t).write = none := by
    intro t
    rw [h.places t]
    rfl
  constructor
  · simp [h.accepted]
  · intro t write data written ht
    rw [hplace t] at ht
    cases ht
  · intro t u write data written data' written' ht
    rw [hplace t] at ht
    cases ht
  · simp [h.writes]
  · simp [h.writes]

theorem Accounted.go (h : s.Accounted) {place : PipePlace}
    (hplace : place.write = none ∨ place.write = (s.places t).write) : (s.go t place).Accounted := by
  refine h.still rfl rfl fun u ↦ ?_
  by_cases hu : u = t
  · rw [hu, places_go_self]
    exact hplace
  · right
    rw [places_go_ne hu]

theorem Accounted.schedule (h : s.Accounted) (f : Thread PipeChannel → Thread PipeChannel) :
    (s.schedule t f).Accounted := h.still rfl rfl fun _ ↦ Or.inr rfl

omit [DecidableEq τ] in
theorem Accounted.wake (h : s.Accounted) {channel : PipeChannel} : (s.wake channel).Accounted :=
  h.still rfl rfl fun _ ↦ Or.inr rfl

omit [DecidableEq τ] in
theorem Accounted.carry (h : s.Accounted) (pipe : VfsPipe) (delivered : List UInt8) :
    ({ s with pipe := pipe, delivered := delivered } : PipeSystem τ).Accounted :=
  h.still rfl rfl fun _ ↦ Or.inr rfl

theorem Accounted.readTurn (h : s.Accounted) : (s.readTurn t length).Accounted := by
  unfold PipeSystem.readTurn
  split
  · exact (h.carry _ _).go (Or.inl rfl)
  · exact h.go (Or.inl rfl)
  · split
    · exact (h.schedule _).go (Or.inl rfl)
    · exact h.go (Or.inl rfl)

theorem Accounted.begin (h : s.Accounted) :
    ({ s with writes := s.writes ++ [data] }.go t (.writing s.writes.length data 0)).Accounted := by
  generalize hs' : { s with writes := s.writes ++ [data] }.go t (.writing s.writes.length data 0) = s'
  have hwrites : s'.writes = s.writes ++ [data] := by rw [← hs']; rfl
  have haccepted : s'.accepted = s.accepted := by rw [← hs']; rfl
  have hpieces : ∀ write, s'.piecesOf write = s.piecesOf write := by
    intro write
    unfold piecesOf
    rw [haccepted]
  have hold : ∀ (write' : ℕ) (data' : List UInt8), s.writes[write']? = some data' →
      s'.writes[write']? = some data' := by
    intro write' data' hdata
    obtain ⟨hlt, -⟩ := List.getElem?_eq_some_iff.mp hdata
    rw [hwrites, List.getElem?_append_left hlt]
    exact hdata
  have hnew : ∀ (write' : ℕ) (data' : List UInt8), s'.writes[write']? = some data' →
      s.writes[write']? = some data' ∨ (write' = s.writes.length ∧ data' = data) := by
    intro write' data' hdata
    rw [hwrites, List.getElem?_append] at hdata
    split at hdata
    · exact Or.inl hdata
    · right
      rw [List.getElem?_singleton] at hdata
      split at hdata
      · constructor
        · omega
        · exact (Option.some.inj hdata).symm
      · cases hdata
  have hplace : ∀ u x, (s'.places u).write = some x →
      (u = t ∧ x = (s.writes.length, data, 0)) ∨ (s.places u).write = some x := by
    intro u x hx
    by_cases hu : u = t
    · left
      rw [hu, ← hs', places_go_self] at hx
      exact ⟨hu, (Option.some.inj hx).symm⟩
    · right
      rw [← hs', places_go_ne hu] at hx
      exact hx
  have hunbegun : s.piecesOf s.writes.length = [] := h.unbegun le_rfl
  constructor
  · rw [haccepted, hwrites]
    intro piece hpiece
    have := h.named piece hpiece
    rw [List.length_append]
    omega
  · intro u write' data' written' hu
    rw [hpieces]
    rcases hplace u _ hu with ⟨-, heq⟩ | hu
    · cases heq
      refine ⟨by simp [hwrites], ?_, Nat.zero_le _⟩
      rw [hunbegun, List.take_zero]
      rfl
    · obtain ⟨hdata, hrest⟩ := h.current u write' data' written' hu
      exact ⟨hold _ _ hdata, hrest⟩
  · intro u v write' data₁ written₁ data₂ written₂ hu hv
    have hfresh : ∀ w data' written', (s.places w).write ≠ some (s.writes.length, data', written') := by
      intro w data' written' hw
      have := (h.current w _ _ _ hw).1
      simp at this
    rcases hplace u _ hu with ⟨hut, heq⟩ | hu <;> rcases hplace v _ hv with ⟨hvt, heq'⟩ | hv
    · rw [hut, hvt]
    · cases heq
      exact absurd hv (hfresh v _ _)
    · cases heq'
      exact absurd hu (hfresh u _ _)
    · exact h.apart u v write' _ _ _ _ hu hv
  · intro write' data' hdata
    rw [hpieces]
    rcases hnew write' data' hdata with hdata | ⟨rfl, rfl⟩
    · exact h.pieces write' data' hdata
    · rw [hunbegun]
      exact List.nil_prefix
  · intro write' data' hdata
    rw [hpieces]
    rcases hnew write' data' hdata with hdata | ⟨rfl, rfl⟩
    · exact h.whole write' data' hdata
    · exact fun _ ↦ Or.inl hunbegun

theorem Accounted.put (h : s.Accounted) {pipe : VfsPipe}
    (hplace : (s.places t).write = some (write, data, written)) (hunfinished : written < data.length)
    (hcount : count ≤ (data.drop written).length)
    (hall : (data.drop written).length ≤ vfsPipeBufferSize → count = (data.drop written).length) :
    ({ s with
        pipe := pipe
        accepted := s.accepted ++ [(write, (data.drop written).take count)] }.go t
          (.writeWaking write data (written + count))).Accounted := by
  generalize hs' : ({ s with
    pipe := pipe
    accepted := s.accepted ++ [(write, (data.drop written).take count)] }.go t
      (.writeWaking write data (written + count)) : PipeSystem τ) = s'
  have hwrites : s'.writes = s.writes := by rw [← hs']; rfl
  have haccepted : s'.accepted = s.accepted ++ [(write, (data.drop written).take count)] := by
    rw [← hs']; rfl
  obtain ⟨hdata, hpieces, hwritten⟩ := h.current t write data written hplace
  have hsame : s'.piecesOf write = s.piecesOf write ++ [(data.drop written).take count] := by
    unfold piecesOf
    rw [haccepted]
    simp
  have hothers : ∀ write', write' ≠ write → s'.piecesOf write' = s.piecesOf write' := by
    intro write' hne
    unfold piecesOf
    rw [haccepted]
    simp [hne.symm]
  have hjoined : (s'.piecesOf write).flatten = data.take (written + count) := by
    rw [hsame, List.flatten_append, hpieces, List.flatten_singleton, ← List.take_add]
  have hback : ∀ u write' data' written', (s'.places u).write = some (write', data', written') →
      (u = t ∧ write' = write ∧ data' = data ∧ written' = written + count) ∨
        (u ≠ t ∧ (s.places u).write = some (write', data', written')) := by
    intro u write' data' written' hu
    by_cases hut : u = t
    · left
      rw [hut, ← hs', places_go_self] at hu
      cases hu
      exact ⟨hut, rfl, rfl, rfl⟩
    · right
      rw [← hs', places_go_ne hut] at hu
      exact ⟨hut, hu⟩
  constructor
  · rw [haccepted, hwrites]
    intro piece hpiece
    rcases List.mem_append.mp hpiece with hpiece | hpiece
    · exact h.named piece hpiece
    · rw [List.mem_singleton.mp hpiece]
      exact (List.getElem?_eq_some_iff.mp hdata).1
  · intro u write' data' written' hu
    rw [hwrites]
    rcases hback u write' data' written' hu with ⟨-, rfl, rfl, rfl⟩ | ⟨hut, hu⟩
    · refine ⟨hdata, hjoined, ?_⟩
      rw [List.length_drop] at hcount
      omega
    · have hne : write' ≠ write := by
        rintro rfl
        exact hut (h.apart u t _ _ _ _ _ hu hplace)
      rw [hothers write' hne]
      exact h.current u write' data' written' hu
  · intro u v write' data₁ written₁ data₂ written₂ hu hv
    rcases hback u write' _ _ hu with ⟨rfl, rfl, -, -⟩ | ⟨hut, hu⟩ <;>
      rcases hback v _ _ _ hv with ⟨rfl, hvw, -, -⟩ | ⟨hvt, hv⟩
    · rfl
    · exact h.apart _ _ _ _ _ _ _ hplace hv
    · rw [hvw] at hu
      exact h.apart _ _ _ _ _ _ _ hu hplace
    · exact h.apart _ _ _ _ _ _ _ hu hv
  · intro write' data' hdata'
    rw [hwrites] at hdata'
    by_cases hne : write' = write
    · subst hne
      rw [hdata] at hdata'
      cases hdata'
      rw [hjoined]
      exact List.take_prefix _ _
    · rw [hothers write' hne]
      exact h.pieces write' data' hdata'
  · intro write' data' hdata' hsmall
    rw [hwrites] at hdata'
    by_cases hne : write' = write
    · subst hne
      rw [hdata] at hdata'
      cases hdata'
      -- Nothing of it was accepted before, for then all of it was.
      rcases h.whole write' data hdata hsmall with hnone | hwhole
      · right
        have hzero : written = 0 := by
          rw [hnone, List.flatten_nil] at hpieces
          have hlength := congrArg List.length hpieces
          rw [List.length_nil, List.length_take] at hlength
          omega
        subst hzero
        rw [List.drop_zero] at hall hsame
        rw [hsame, hnone, hall hsmall, List.take_length]
        rfl
      · rw [hwhole, List.flatten_singleton] at hpieces
        have hlength := congrArg List.length hpieces
        rw [List.length_take] at hlength
        omega
    · rw [hothers write' hne]
      exact h.whole write' data' hdata' hsmall

theorem Accounted.writeTurn (h : s.Accounted) (hflows : s.Flows)
    (hplace : (s.places t).write = some (write, data, written)) :
    (s.writeTurn t write data written).Accounted := by
  obtain ⟨content, hholds, -⟩ := hflows
  unfold PipeSystem.writeTurn
  split
  · exact h.go (Or.inl rfl)
  · rename_i hunfinished
    cases hsection : vfsPipeWriteSection s.pipe (data.drop written) with
    | broken => exact h.go (Or.inl rfl)
    | put count pipe =>
        obtain ⟨-, hcount, hall⟩ := hholds.put hsection
        exact h.put hplace (Nat.lt_of_not_le hunfinished) hcount hall
    | full =>
        dsimp only
        split
        · exact (h.schedule _).go (Or.inr hplace.symm)
        · split <;> exact h.go (Or.inl rfl)

theorem Accounted.advance (h : s.Accounted) (hflows : s.Flows) : (s.advance t).Accounted := by
  unfold PipeSystem.advance
  split
  case h_1 => exact h
  case h_2 => exact h.readTurn
  case h_3 => exact (h.schedule _).go (by split <;> exact Or.inl rfl)
  case h_4 => exact h.wake.go (Or.inl rfl)
  case h_5 hplace => exact h.writeTurn hflows (by rw [hplace]; rfl)
  case h_6 hplace =>
    apply (h.schedule _).go
    split
    · exact Or.inl rfl
    · exact Or.inr (congrArg PipePlace.write hplace).symm
  case h_7 hplace => exact h.wake.go (Or.inr (congrArg PipePlace.write hplace).symm)
  case h_8 hplace => exact h.wake.go (Or.inr (congrArg PipePlace.write hplace).symm)
  case h_9 => exact h.wake.go (Or.inl rfl)
  case h_10 => exact (h.wake.carry _ _).go (Or.inl rfl)
  case h_11 => exact h

theorem Step.accounted (hstep : Step s s') (hflows : s.Flows) (h : s.Accounted) : s'.Accounted := by
  cases hstep with
  | read t length => exact h.go (Or.inl rfl)
  | write t data => exact h.begin
  | close t reads => exact (h.carry _ _).go (Or.inl rfl)
  | advance t => exact h.advance hflows
  | _ => exact h.still rfl rfl fun _ ↦ Or.inr rfl

end PipeSystem

end OxysOS.Fs
