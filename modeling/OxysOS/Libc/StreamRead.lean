import OxysOS.Libc.StreamWrite

/-!
# What a readable stream has yet to give

A readable stream stands for the bytes it has yet to give: the one that was
pushed back, those in the buffer, and those left in the source.
-/

namespace OxysOS.Libc.Stream

open OxysOS.Library

variable {stream : Stream} {upcoming : List UInt8} {character : UInt8} {count size : ℕ}

def left (stream : Stream) : List UInt8 :=
  match stream.descriptor with
  | some _ => stream.device.remaining
  | none =>
      match stream.source with
      | some source => slice source stream.sourceCursor (stream.sourceLength - stream.sourceCursor)
      | none => []

def buffered (stream : Stream) : List UInt8 :=
  slice stream.buffer stream.cursor (stream.filled - stream.cursor)

def coming (stream : Stream) : List UInt8 :=
  stream.pushback.toList ++ stream.buffered ++ stream.left

def Yielding (stream : Stream) : Prop :=
  stream.descriptor ≠ none → ∀ calls capacity,
    (∀ length, 0 < capacity → 0 < length →
      0 < stream.device.yields calls capacity length ∧
        stream.device.yields calls capacity length ≤ min capacity length) ∧
    stream.device.yields calls capacity 0 = 0

structure Reads (stream : Stream) (upcoming : List UInt8) : Prop where
  readable : stream.readable = true
  yielding : Yielding stream
  capacity : 0 < stream.capacity
  failed : stream.failed = false
  atEnd : stream.atEnd = true → upcoming = []
  fresh : stream.touched = false → stream.buffered = []
  content : stream.coming = upcoming

theorem slice_cons (raw : Bytes) (offset count : ℕ) :
    slice raw offset (count + 1) = raw offset :: slice raw (offset + 1) count := by
  rw [Nat.add_comm count, slice_add]
  rfl

theorem slice_splice_slice (raw source : Bytes) (offset count : ℕ) :
    slice (splice raw 0 count fun i ↦ source (offset + i)) 0 count = slice source offset count := by
  unfold slice
  apply List.map_congr_left
  intro i hi
  rw [Nat.zero_add, splice_of_mem (Nat.zero_le i) (by rw [Nat.zero_add]; exact List.mem_range.mp hi)]
  rfl

theorem streamObtain_none {capacity : ℕ} (hdescriptor : stream.descriptor = none)
    (hsource : stream.source = none) (hcapacity : capacity ≠ 0) :
    stream.streamObtain capacity = (0, stream) := by
  unfold streamObtain
  rw [if_neg hcapacity, hdescriptor, hsource]

theorem streamObtain_memory {source : Bytes} {capacity : ℕ} (hdescriptor : stream.descriptor = none)
    (hsource : stream.source = some source) (hcapacity : capacity ≠ 0) :
    stream.streamObtain capacity =
      let available := min (stream.sourceLength - stream.sourceCursor) capacity
      ((available : ℤ), { stream with
        buffer := splice stream.buffer 0 available fun i ↦ source (stream.sourceCursor + i)
        sourceCursor := stream.sourceCursor + available }) := by
  unfold streamObtain
  rw [if_neg hcapacity, hdescriptor, hsource]

theorem streamObtain_device {descriptor capacity : ℕ}
    (hdescriptor : stream.descriptor = some descriptor) (hcapacity : capacity ≠ 0)
    {obtained : ℕ} {bytes : List UInt8} {device : Device}
    (hfill : oxysStreamFill stream.device capacity = ((obtained : ℤ), bytes, device)) :
    stream.streamObtain capacity = ((obtained : ℤ), { stream with
      buffer := splice stream.buffer 0 bytes.length fun i ↦ bytes.getD i 0
      device := device }) := by
  unfold streamObtain
  rw [if_neg hcapacity, hdescriptor]
  dsimp only
  rw [hfill]
  exact if_neg (by omega)

theorem streamObtain_spec (h : Yielding stream) {capacity : ℕ} (hcapacity : 0 < capacity) :
    ∃ (obtained : ℕ) (buffer : Bytes) (sourceCursor : ℕ) (device : Device),
      let stream' : Stream :=
        { stream with buffer := buffer, sourceCursor := sourceCursor, device := device }
      stream.streamObtain capacity = ((obtained : ℤ), stream') ∧ Yielding stream' ∧
        slice buffer 0 obtained ++ stream'.left = stream.left ∧
          (obtained = 0 → stream.left = []) := by
  rcases Option.eq_none_or_eq_some stream.descriptor with hdescriptor | ⟨descriptor, hdescriptor⟩
  · rcases Option.eq_none_or_eq_some stream.source with hsource | ⟨source, hsource⟩
    · refine ⟨0, stream.buffer, stream.sourceCursor, stream.device,
        streamObtain_none hdescriptor hsource hcapacity.ne', h, List.nil_append _, fun _ ↦ ?_⟩
      unfold left
      rw [hdescriptor, hsource]
    · have hleft : stream.left =
          slice source stream.sourceCursor (stream.sourceLength - stream.sourceCursor) := by
        unfold left
        rw [hdescriptor, hsource]
      refine ⟨_, _, _, stream.device, streamObtain_memory hdescriptor hsource hcapacity.ne', h,
        ?_, ?_⟩
      · set available := min (stream.sourceLength - stream.sourceCursor) capacity
        have hrest : stream.sourceLength - stream.sourceCursor =
            available + (stream.sourceLength - (stream.sourceCursor + available)) := by omega
        rw [hleft, hrest, slice_add]
        congr 1
        · exact slice_splice_slice ..
        · unfold left
          rw [hdescriptor, hsource]
      · intro hnone
        have hzero : stream.sourceLength - stream.sourceCursor = 0 := by omega
        rw [hleft, hzero, slice_zero]
  · obtain ⟨hsome, hnone⟩ := h (by simp [hdescriptor]) stream.device.calls capacity
    set length := stream.device.remaining.length with hlength
    have hleft : stream.left = stream.device.remaining := by
      unfold left
      rw [hdescriptor]
    obtain ⟨obtained, hobtained, hle, hpositive⟩ : ∃ obtained : ℕ,
        stream.device.yields stream.device.calls capacity length = obtained ∧
          obtained ≤ length ∧ (obtained = 0 → length = 0) := by
      by_cases hzero : length = 0
      · exact ⟨0, by rw [hzero, hnone]; rfl, Nat.zero_le _, fun _ ↦ hzero⟩
      · obtain ⟨hpos, hmin⟩ := hsome length hcapacity (Nat.pos_of_ne_zero hzero)
        refine ⟨(stream.device.yields stream.device.calls capacity length).toNat, ?_, ?_, ?_⟩
        all_goals omega
    have hfill : oxysStreamFill stream.device capacity =
        ((obtained : ℤ), stream.device.remaining.take obtained, { stream.device with
          calls := stream.device.calls + 1
          remaining := stream.device.remaining.drop obtained }) := by
      unfold oxysStreamFill
      dsimp only
      rw [← hlength, hobtained, Int.toNat_natCast]
    have htake : (stream.device.remaining.take obtained).length = obtained :=
      List.length_take_of_le hle
    have heq := streamObtain_device hdescriptor hcapacity.ne' hfill
    rw [htake] at heq
    refine ⟨_, _, stream.sourceCursor, _, heq, h, ?_, ?_⟩
    · rw [slice_splice _ _ _ _ htake, hleft]
      unfold left
      rw [hdescriptor]
      exact List.take_append_drop ..
    · intro hzero
      rw [hleft]
      exact List.length_eq_zero_iff.mp (hpositive hzero)

theorem next_spec (h : Reads stream upcoming) (hpushback : stream.pushback = none)
    (hcursor : stream.cursor < stream.filled) (htouched : stream.touched = true) :
    upcoming ≠ [] ∧
      ∃ stream', stream.next = (upcoming.head?, stream') ∧ Reads stream' upcoming.tail := by
  have hbuffered : stream.buffered = stream.buffer stream.cursor ::
      slice stream.buffer (stream.cursor + 1) (stream.filled - (stream.cursor + 1)) := by
    have hcount : stream.filled - stream.cursor = stream.filled - (stream.cursor + 1) + 1 := by
      omega
    unfold buffered
    rw [hcount, slice_cons]
  have hcontent := h.content
  unfold coming at hcontent
  rw [hpushback, hbuffered] at hcontent
  subst hcontent
  refine ⟨List.cons_ne_nil _ _, _, rfl, ?_⟩
  exact
    { readable := h.readable
      yielding := h.yielding
      capacity := h.capacity
      failed := h.failed
      atEnd := fun hend ↦ absurd (h.atEnd hend) (List.cons_ne_nil _ _)
      fresh := fun hfresh ↦ absurd (htouched.symm.trans hfresh) (by decide)
      content := by
        unfold coming
        rw [show ({ stream with cursor := stream.cursor + 1 } : Stream).pushback = none from hpushback]
        rfl }

theorem buffered_of_le (h : stream.filled ≤ stream.cursor) : stream.buffered = [] := by
  unfold buffered
  rw [Nat.sub_eq_zero_of_le h, slice_zero]

theorem refill_spec (h : Reads stream upcoming) (hpushback : stream.pushback = none)
    (hempty : stream.buffered = []) (htouched : stream.touched = true) :
    ∃ stream', stream.refill = (upcoming.head?, stream') ∧ Reads stream' upcoming.tail ∧
      (upcoming = [] → stream'.atEnd = true) := by
  unfold refill
  by_cases hend : stream.atEnd = true ∨ stream.failed = true
  · have hset : stream.atEnd = true := hend.resolve_right (by rw [h.failed]; decide)
    have hnone := h.atEnd hset
    subst hnone
    rw [if_pos hend]
    exact ⟨stream, rfl, h, fun _ ↦ hset⟩
  have hunset : stream.atEnd = false := Bool.eq_false_iff.mpr (not_or.mp hend).1
  have hcontent := h.content
  unfold coming at hcontent
  rw [hpushback, hempty] at hcontent
  change stream.left = upcoming at hcontent
  have hpositive : 0 < if stream.mode = ioNbf then 1 else stream.capacity := by
    split
    · exact Nat.one_pos
    · exact h.capacity
  obtain ⟨obtained, buffer, sourceCursor, device, heq, hyielding, hleft, hnone⟩ :=
    streamObtain_spec (show Yielding stream.emptied from h.yielding) hpositive
  change slice buffer 0 obtained ++ left { stream with
    buffer := buffer, sourceCursor := sourceCursor, device := device } = stream.left at hleft
  rw [if_neg hend, heq]
  dsimp only
  rw [if_neg (by omega)]
  by_cases hzero : obtained = 0
  · have hexhausted : upcoming = [] := hcontent ▸ hnone hzero
    subst hexhausted
    rw [hzero, hcontent] at hleft
    rw [if_pos (by omega)]
    refine ⟨_, rfl, ?_, fun _ ↦ rfl⟩
    exact
      { readable := h.readable
        yielding := hyielding
        capacity := h.capacity
        failed := h.failed
        atEnd := fun _ ↦ rfl
        fresh := fun _ ↦ rfl
        content := by
          unfold coming
          rw [show stream.emptied.pushback = none from hpushback]
          exact hleft }
  · rw [if_neg (by omega), Int.toNat_natCast]
    have hreads : Reads { stream.emptied with
        buffer := buffer, sourceCursor := sourceCursor, device := device, filled := obtained }
        upcoming :=
      { readable := h.readable
        yielding := hyielding
        capacity := h.capacity
        failed := h.failed
        atEnd := fun hset ↦ absurd (hunset.symm.trans hset) (by decide)
        fresh := fun hfresh ↦ absurd (htouched.symm.trans hfresh) (by decide)
        content := by
          unfold coming
          rw [show stream.emptied.pushback = none from hpushback]
          exact hleft.trans hcontent }
    obtain ⟨hne, stream', hnext, hreads'⟩ :=
      next_spec hreads hpushback (Nat.pos_of_ne_zero hzero) htouched
    exact ⟨stream', hnext, hreads', fun hnil ↦ absurd hnil hne⟩

theorem fgetc_spec (h : Reads stream upcoming) :
    ∃ stream', stream.fgetc = (upcoming.head?, stream') ∧ Reads stream' upcoming.tail ∧
      (upcoming = [] → stream'.atEnd = true) := by
  have htouch : Reads stream.touch upcoming :=
    ⟨h.readable, h.yielding, h.capacity, h.failed, h.atEnd,
      fun hfresh ↦ Bool.noConfusion hfresh, h.content⟩
  unfold fgetc
  rw [if_neg (by simp [h.readable])]
  dsimp only
  rcases Option.eq_none_or_eq_some stream.touch.pushback with hpushback | ⟨character, hpushback⟩
  · rw [hpushback]
    by_cases hcursor : stream.touch.filled ≤ stream.touch.cursor
    · dsimp only
      rw [if_pos hcursor]
      exact refill_spec htouch hpushback (buffered_of_le hcursor) rfl
    · obtain ⟨hne, stream', hnext, hreads⟩ :=
        next_spec htouch hpushback (Nat.lt_of_not_le hcursor) rfl
      dsimp only
      rw [if_neg hcursor]
      exact ⟨stream', hnext, hreads, fun hnil ↦ absurd hnil hne⟩
  · have hcontent := h.content
    unfold coming at hcontent
    rw [show stream.pushback = some character from hpushback] at hcontent
    rw [hpushback]
    subst hcontent
    refine ⟨_, rfl, ?_, nofun⟩
    exact
      { readable := h.readable
        yielding := h.yielding
        capacity := h.capacity
        failed := h.failed
        atEnd := fun hset ↦ absurd (h.atEnd hset) (List.cons_ne_nil _ _)
        fresh := fun hfresh ↦ Bool.noConfusion hfresh
        content := rfl }

theorem ungetc_spec (h : Reads stream upcoming) (character : ℤ) :
    (stream.ungetc character = (none, stream)) ∨
      ∃ byte stream', stream.ungetc character = (some byte, stream') ∧
        Reads stream' (byte :: upcoming) := by
  unfold ungetc
  by_cases hrefused : ¬stream.readable = true ∨ character = eof
  · rw [if_pos hrefused]
    exact Or.inl rfl
  rw [if_neg hrefused]
  rcases Option.eq_none_or_eq_some stream.pushback with hpushback | ⟨slot, hpushback⟩
  · have hcontent := h.content
    unfold coming at hcontent
    rw [hpushback] at hcontent ⊢
    subst hcontent
    exact Or.inr ⟨_, _, rfl,
      { readable := h.readable
        yielding := h.yielding
        capacity := h.capacity
        failed := h.failed
        atEnd := fun hset ↦ Bool.noConfusion hset
        fresh := h.fresh
        content := rfl }⟩
  · rw [hpushback]
    exact Or.inl rfl

theorem fgetsLoop_spec (h : Reads stream upcoming) (count : ℕ) :
    ∃ bytes rest stream', stream.fgetsLoop count = (bytes, stream') ∧ upcoming = bytes ++ rest ∧
      Reads stream' rest ∧ (bytes = [] → count ≠ 0 → upcoming = [] ∧ stream'.atEnd = true) := by
  induction count generalizing stream upcoming with
  | zero => exact ⟨[], upcoming, stream, rfl, rfl, h, fun _ hzero ↦ absurd rfl hzero⟩
  | succ count ih =>
      obtain ⟨stream', hget, hreads, hend⟩ := fgetc_spec h
      unfold fgetsLoop
      rw [hget]
      cases upcoming with
      | nil => exact ⟨[], [], stream', rfl, rfl, hreads, fun _ _ ↦ ⟨rfl, hend rfl⟩⟩
      | cons character upcoming =>
          dsimp only [List.head?_cons]
          split
          · exact ⟨[character], upcoming, stream', rfl, rfl, hreads, nofun⟩
          · obtain ⟨bytes, rest, stream'', hloop, hsplit, hreads', -⟩ := ih hreads
            rw [hloop]
            refine ⟨character :: bytes, rest, stream'', rfl, ?_, hreads', nofun⟩
            rw [List.cons_append, ← hsplit]
            rfl

theorem fgets_spec (h : Reads stream upcoming) (count : ℤ) :
    ∃ answer rest stream', stream.fgets count = (answer, stream') ∧
      upcoming = answer.getD [] ++ rest ∧ Reads stream' rest ∧
      (1 < count → (answer = none ↔ upcoming = [])) := by
  unfold fgets
  by_cases hcount : count ≤ 0
  · rw [if_pos hcount]
    exact ⟨none, upcoming, stream, rfl, rfl, h, by omega⟩
  obtain ⟨bytes, rest, stream', hloop, hsplit, hreads, hnone⟩ := fgetsLoop_spec h (count - 1).toNat
  rw [if_neg hcount, hloop]
  dsimp only
  rw [if_neg (by rw [hreads.failed]; decide)]
  by_cases hend : bytes = [] ∧ stream'.atEnd = true
  · rw [if_pos hend]
    refine ⟨none, rest, stream', rfl, ?_, hreads, fun hmany ↦ ?_⟩
    · rw [hsplit, hend.1]
      rfl
    · have hexhausted := (hnone hend.1 (by omega)).1
      exact ⟨fun _ ↦ hexhausted, fun _ ↦ rfl⟩
  · rw [if_neg hend]
    refine ⟨some bytes, rest, stream', rfl, hsplit, hreads, fun hmany ↦ ⟨nofun, fun hnil ↦ ?_⟩⟩
    have hbytes : bytes = [] := (List.append_eq_nil_iff.mp (hsplit.symm.trans hnil)).1
    exact absurd ⟨hbytes, (hnone hbytes (by omega)).2⟩ hend

theorem getAll_spec (h : Reads stream upcoming) (count : ℕ) :
    ∃ stream', stream.getAll count = (upcoming.take count, stream') ∧
      Reads stream' (upcoming.drop count) := by
  induction count generalizing stream upcoming with
  | zero => exact ⟨stream, rfl, h⟩
  | succ count ih =>
      obtain ⟨stream', hget, hreads, -⟩ := fgetc_spec h
      unfold getAll
      rw [hget]
      cases upcoming with
      | nil => exact ⟨stream', rfl, hreads⟩
      | cons character upcoming =>
          obtain ⟨stream'', hloop, hreads'⟩ := ih hreads
          dsimp only [List.head?_cons]
          rw [hloop]
          exact ⟨stream'', rfl, hreads'⟩

theorem freadLoop_spec (h : Reads stream upcoming) (hsize : 0 < size) (count : ℕ) :
    ∃ stream', stream.freadLoop size count =
        (min count (upcoming.length / size), upcoming.take (size * count), stream') ∧
      Reads stream' (upcoming.drop (size * count)) := by
  induction count generalizing stream upcoming with
  | zero => exact ⟨stream, by simp [freadLoop], h⟩
  | succ count ih =>
      obtain ⟨stream', hget, hreads⟩ := getAll_spec h size
      unfold freadLoop
      rw [hget]
      dsimp only
      rw [Nat.mul_succ, Nat.add_comm (size * count)]
      by_cases hshort : (upcoming.take size).length < size
      · have hlength : upcoming.length < size := by
          rw [List.length_take] at hshort
          omega
        rw [if_pos hshort, Nat.div_eq_of_lt hlength, Nat.min_zero,
          List.take_of_length_le hlength.le, List.take_of_length_le (by omega),
          List.drop_eq_nil_of_le (by omega)]
        rw [List.drop_eq_nil_of_le hlength.le] at hreads
        exact ⟨stream', rfl, hreads⟩
      · have hlength : size ≤ upcoming.length := by
          rw [List.length_take] at hshort
          omega
        obtain ⟨stream'', hloop, hreads'⟩ := ih hreads
        rw [if_neg hshort, hloop]
        refine ⟨stream'', ?_, ?_⟩
        · dsimp only
          rw [List.length_drop, Nat.div_eq_sub_div hsize hlength, Nat.succ_min_succ, List.take_add]
        · rwa [List.drop_drop] at hreads'

theorem fread_spec (h : Reads stream upcoming) (size count : ℕ) :
    ∃ obtained stream',
      stream.fread size count = (obtained, upcoming.take (size * count), stream') ∧
      Reads stream' (upcoming.drop (size * count)) ∧
      (0 < size → (obtained < count ↔ upcoming.length < size * count)) := by
  unfold fread
  by_cases hnothing : size = 0 ∨ count = 0
  · have hproduct : size * count = 0 := Nat.mul_eq_zero.mpr hnothing
    rw [if_pos hnothing, hproduct]
    refine ⟨0, stream, rfl, h, fun hsize ↦ ?_⟩
    rw [hnothing.resolve_left hsize.ne']
    exact ⟨fun hlt ↦ absurd hlt (Nat.not_lt_zero _), fun hlt ↦ absurd hlt (Nat.not_lt_zero _)⟩
  · obtain ⟨hsize, -⟩ := not_or.mp hnothing
    obtain ⟨stream', hloop, hreads⟩ := freadLoop_spec h (Nat.pos_of_ne_zero hsize) count
    rw [if_neg hnothing]
    refine ⟨_, stream', hloop, hreads, fun hpositive ↦ ?_⟩
    rw [Nat.mul_comm size, ← Nat.div_lt_iff_lt_mul hpositive]
    omega

structure OpenedToRead (stream : Stream) : Prop where
  readable : stream.readable = true
  yielding : Yielding stream
  capacity : 0 < stream.capacity
  failed : stream.failed = false
  atEnd : stream.atEnd = false
  empty : stream.buffered = []
  pushback : stream.pushback = none

theorem OpenedToRead.reads (h : OpenedToRead stream) : Reads stream stream.left where
  readable := h.readable
  yielding := h.yielding
  capacity := h.capacity
  failed := h.failed
  atEnd hset := absurd (h.atEnd.symm.trans hset) (by decide)
  fresh _ := h.empty
  content := by
    unfold coming
    rw [h.pushback, h.empty]
    rfl

theorem standard_openedToRead {device : Device} (buffer : Bytes)
    (hyields : Yielding (standard 0 buffer device)) : OpenedToRead (standard 0 buffer device) :=
  ⟨rfl, hyields, Nat.succ_pos _, rfl, rfl, rfl, rfl⟩

def insertAt (bytes : List UInt8) (place : ℕ) : Option UInt8 → List UInt8
  | none => bytes
  | some byte => bytes.take place ++ byte :: bytes.drop place

/-- What is done with a readable stream: the bytes that have been returned, and
the bytes of the source with each byte that was pushed back put where it was. -/
inductive ReadRun : Stream → List UInt8 → List UInt8 → Prop
  | opened (stream : Stream) (h : OpenedToRead stream) : ReadRun stream [] stream.left
  | setvbuf (stream : Stream) (returned woven : List UInt8) (buffer : Option Bytes) (mode : ℤ)
      (size : ℕ) (run : ReadRun stream returned woven) :
      ReadRun (stream.setvbuf buffer mode size).2 returned woven
  | fgetc (stream : Stream) (returned woven : List UInt8) (run : ReadRun stream returned woven) :
      ReadRun stream.fgetc.2 (returned ++ stream.fgetc.1.toList) woven
  | ungetc (stream : Stream) (returned woven : List UInt8) (character : ℤ)
      (run : ReadRun stream returned woven) :
      ReadRun (stream.ungetc character).2 returned
        (insertAt woven returned.length (stream.ungetc character).1)
  | fgets (stream : Stream) (returned woven : List UInt8) (count : ℤ)
      (run : ReadRun stream returned woven) :
      ReadRun (stream.fgets count).2 (returned ++ (stream.fgets count).1.getD []) woven
  | fread (stream : Stream) (returned woven : List UInt8) (size count : ℕ)
      (run : ReadRun stream returned woven) :
      ReadRun (stream.fread size count).2.2 (returned ++ (stream.fread size count).2.1) woven

theorem setvbuf_reads (h : Reads stream upcoming) (buffer : Option Bytes) (mode : ℤ) (size : ℕ) :
    Reads (stream.setvbuf buffer mode size).2 upcoming := by
  unfold setvbuf
  split
  · exact h
  split
  · exact h
  rename_i huntouched
  have hempty := h.fresh (Bool.eq_false_iff.mpr huntouched)
  have hcontent : stream.pushback.toList ++ [] ++ stream.left = upcoming := hempty ▸ h.content
  split
  · exact ⟨h.readable, h.yielding, h.capacity, h.failed, h.atEnd, h.fresh, h.content⟩
  cases buffer with
  | none => exact ⟨h.readable, h.yielding, h.capacity, h.failed, h.atEnd, fun _ ↦ rfl, hcontent⟩
  | some buffer =>
      dsimp only
      split
      · exact h
      · rename_i hsize
        exact ⟨h.readable, h.yielding, Nat.pos_of_ne_zero hsize, h.failed, h.atEnd, fun _ ↦ rfl,
          hcontent⟩

theorem ReadRun.reads {returned woven : List UInt8} (h : ReadRun stream returned woven) :
    ∃ upcoming, Reads stream upcoming ∧ woven = returned ++ upcoming := by
  induction h with
  | opened stream h => exact ⟨stream.left, h.reads, rfl⟩
  | setvbuf stream returned woven buffer mode size run ih =>
      obtain ⟨upcoming, hreads, hwoven⟩ := ih
      exact ⟨upcoming, setvbuf_reads hreads buffer mode size, hwoven⟩
  | fgetc stream returned woven run ih =>
      obtain ⟨upcoming, hreads, hwoven⟩ := ih
      obtain ⟨stream', heq, hreads', -⟩ := fgetc_spec hreads
      rw [heq]
      refine ⟨upcoming.tail, hreads', ?_⟩
      rw [hwoven, List.append_assoc]
      cases upcoming <;> rfl
  | ungetc stream returned woven character run ih =>
      obtain ⟨upcoming, hreads, hwoven⟩ := ih
      rcases ungetc_spec hreads character with heq | ⟨byte, stream', heq, hreads'⟩
      · rw [heq]
        exact ⟨upcoming, hreads, hwoven⟩
      · rw [heq, hwoven]
        refine ⟨byte :: upcoming, hreads', ?_⟩
        unfold insertAt
        rw [List.take_left, List.drop_left]
  | fgets stream returned woven count run ih =>
      obtain ⟨upcoming, hreads, hwoven⟩ := ih
      obtain ⟨answer, rest, stream', heq, hsplit, hreads', -⟩ := fgets_spec hreads count
      rw [heq]
      refine ⟨rest, hreads', ?_⟩
      rw [hwoven, hsplit, List.append_assoc]
  | fread stream returned woven size count run ih =>
      obtain ⟨upcoming, hreads, hwoven⟩ := ih
      obtain ⟨obtained, stream', heq, hreads', -⟩ := fread_spec hreads size count
      rw [heq]
      refine ⟨upcoming.drop (size * count), hreads', ?_⟩
      rw [hwoven, List.append_assoc, List.take_append_drop]

theorem ReadRun.ends {returned woven : List UInt8} (h : ReadRun stream returned woven) :
    returned <+: woven ∧
      (stream.fgetc.1 = none ↔ returned = woven) ∧
      (stream.fgetc.1 = none → stream.fgetc.2.atEnd = true) ∧
      (stream.atEnd = true → returned = woven) ∧
      (∀ count, 1 < count → ((stream.fgets count).1 = none ↔ returned = woven)) ∧
      ∀ size count, 0 < size →
        ((stream.fread size count).1 < count ↔ woven.length < returned.length + size * count) := by
  obtain ⟨upcoming, hreads, hwoven⟩ := h.reads
  have hexhausted : returned = woven ↔ upcoming = [] := by
    rw [hwoven, List.self_eq_append_right]
  refine ⟨⟨upcoming, hwoven.symm⟩, ?_, ?_, ?_, fun count hcount ↦ ?_, fun size count hsize ↦ ?_⟩
  · obtain ⟨stream', heq, -, -⟩ := fgetc_spec hreads
    rw [heq, hexhausted]
    exact List.head?_eq_none_iff
  · obtain ⟨stream', heq, -, hend⟩ := fgetc_spec hreads
    rw [heq]
    exact fun hnone ↦ hend (List.head?_eq_none_iff.mp hnone)
  · exact fun hset ↦ hexhausted.mpr (hreads.atEnd hset)
  · obtain ⟨answer, rest, stream', heq, -, -, hnone⟩ := fgets_spec hreads count
    rw [heq, hexhausted]
    exact hnone hcount
  · obtain ⟨obtained, stream', heq, -, hshort⟩ := fread_spec hreads size count
    rw [heq, hwoven, List.length_append, Nat.add_lt_add_iff_left]
    exact hshort hsize

/-- Buffering is transparent: what a writable stream has been given is what it has
delivered and what is pending, and what a readable stream has returned is what
its source gave and what was pushed back, in order. -/
theorem buffering_transparent :
    (∀ stream offered succeeded, WriteRun stream offered succeeded →
      succeeded = true ∧
      stream.deliveredBytes ++ stream.pendingBytes = offered ∧
      stream.fflush.2.pending = 0 ∧
      (stream.mode = ioLbf → offered.getLast? = some newline → stream.pending = 0)) ∧
    ∀ stream returned woven, ReadRun stream returned woven →
      returned <+: woven ∧
      (stream.fgetc.1 = none ↔ returned = woven) ∧
      (stream.fgetc.1 = none → stream.fgetc.2.atEnd = true) ∧
      (stream.atEnd = true → returned = woven) ∧
      (∀ count, 1 < count → ((stream.fgets count).1 = none ↔ returned = woven)) ∧
      ∀ size count, 0 < size →
        ((stream.fread size count).1 < count ↔
          woven.length < returned.length + size * count) := by
  refine ⟨fun stream offered succeeded run ↦ ?_, fun stream returned woven run ↦ run.ends⟩
  obtain ⟨hsucceeded, hwrites, hfits⟩ := run.writes
  obtain ⟨region, delivered, device, heq, -⟩ := fflush_spec hwrites.toCarries hfits
  exact ⟨hsucceeded, hwrites.content, by rw [heq], hwrites.line⟩

def wholeDevice (remaining : List UInt8) : Device where
  accepts _ length := length
  yields _ capacity length := (min capacity length : ℕ)
  calls := 0
  taken := []
  remaining := remaining

/-- A line is written to the standard output, and a byte read from the standard
input, after which the input is at its end. -/
theorem buffering_transparent_line :
    let output := ((standard 1 (fun _ ↦ 0) (wholeDevice [])).fputs [0x68, newline]).2
    let input := (standard 0 (fun _ ↦ 0) (wholeDevice [0x68])).fgetc
    output.deliveredBytes ++ output.pendingBytes = [0x68, newline] ∧
      (input.2.fgetc.1 = none ↔ input.1.toList = [0x68]) := by
  have hwrite : WriteRun _ _ _ := .fputs _ _ _ [0x68, newline]
    (.opened _ (standard_opened (wholeDevice []) (fun _ ↦ 0) (by decide : 1 ≠ 0) rfl
      fun _ length hlength ↦ ⟨Int.natCast_pos.mpr hlength, le_rfl⟩)) nofun
  have hyields : Yielding (standard 0 (fun _ ↦ 0) (wholeDevice [0x68])) := by
    intro _ _ capacity
    refine ⟨fun length hcapacity hlength ↦ ⟨?_, le_rfl⟩, ?_⟩
    · exact Int.natCast_pos.mpr (lt_min hcapacity hlength)
    · exact congrArg Nat.cast (Nat.min_zero capacity)
  have hread : ReadRun _ _ _ := .fgetc _ _ _ (.opened _ (standard_openedToRead _ hyields))
  exact ⟨(buffering_transparent.1 _ _ _ hwrite).2.1, (buffering_transparent.2 _ _ _ hread).2.1⟩

end OxysOS.Libc.Stream
