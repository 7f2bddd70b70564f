import OxysOS.Libc.Stream

/-!
# What a writable stream has been given

What has been delivered, followed by what is pending, is what has been written.
Each operation is followed by one lemma that says what it makes of that.
-/

namespace OxysOS.Libc.Stream

open OxysOS.Library

variable {stream : Stream} {bytes offered : List UInt8} {byte : UInt8} {length count size : ℕ}

def deliveredBytes (stream : Stream) : List UInt8 :=
  match stream.descriptor with
  | some _ => stream.device.taken
  | none =>
      match stream.region with
      | some region => slice region 0 stream.delivered
      | none => []

def pendingBytes (stream : Stream) : List UInt8 := slice stream.buffer 0 stream.pending

structure Accepting (stream : Stream) : Prop where
  accepts : stream.descriptor ≠ none → ∀ calls length, 0 < length →
    0 < stream.device.accepts calls length ∧ stream.device.accepts calls length ≤ length
  region : stream.descriptor = none → stream.region ≠ none

/-- A region of memory has room for so many bytes.  Nothing else is ever full. -/
def Fits (stream : Stream) (length : ℕ) : Prop :=
  stream.descriptor = none → length ≤ stream.regionCapacity

theorem Fits.mono (h : stream.Fits count) (hle : length ≤ count) : stream.Fits length :=
  fun hnone ↦ hle.trans (h hnone)

theorem deliverLoop_spec (h : Accepting stream) (hdescriptor : stream.descriptor ≠ none)
    (bytes : List UInt8) : ∃ delivered device,
      stream.deliverLoop bytes =
        (true, { stream with delivered := delivered, device := device }) ∧
      device.accepts = stream.device.accepts ∧
      device.taken = stream.device.taken ++ bytes := by
  fun_induction deliverLoop stream bytes with
  | case1 stream => exact ⟨stream.delivered, stream.device, rfl, rfl, (List.append_nil _).symm⟩
  | case2 stream bytes hne moved device hwrite stream' hrefused =>
      obtain ⟨rfl, rfl⟩ := Prod.mk.inj hwrite
      have haccepts := h.accepts hdescriptor stream.device.calls bytes.length
        (List.length_pos_iff.mpr hne)
      omega
  | case3 stream bytes hne moved device hwrite stream' hmoved ih =>
      obtain ⟨rfl, rfl⟩ := Prod.mk.inj hwrite
      obtain ⟨delivered, device, heq, haccepts, htaken⟩ := ih ⟨h.accepts, h.region⟩ hdescriptor
      refine ⟨delivered, device, heq, haccepts, ?_⟩
      rw [htaken]
      dsimp only [stream']
      rw [List.append_assoc, List.take_append_drop]

theorem deliver_of_descriptor (hne : bytes ≠ []) {descriptor : ℕ}
    (hdescriptor : stream.descriptor = some descriptor) :
    stream.deliver bytes = stream.deliverLoop bytes := by
  unfold deliver
  rw [if_neg hne, hdescriptor]

theorem deliver_of_region (hne : bytes ≠ []) {region : Bytes} (hdescriptor : stream.descriptor = none)
    (hregion : stream.region = some region)
    (hroom : stream.delivered + bytes.length ≤ stream.regionCapacity) :
    stream.deliver bytes = (true, { stream with
      region := some (splice region stream.delivered bytes.length fun i ↦ bytes.getD i 0)
      delivered := stream.delivered + bytes.length }) := by
  have hmin : min (stream.regionCapacity - stream.delivered) bytes.length = bytes.length := by
    omega
  unfold deliver
  rw [if_neg hne, hdescriptor, hregion]
  dsimp only
  rw [hmin, if_neg (lt_irrefl _)]

theorem deliver_spec (h : Accepting stream) (bytes : List UInt8)
    (hfits : stream.Fits (stream.deliveredBytes.length + bytes.length)) :
    ∃ region delivered device,
      let stream' : Stream :=
        { stream with region := region, delivered := delivered, device := device }
      stream.deliver bytes = (true, stream') ∧ Accepting stream' ∧
        stream'.deliveredBytes = stream.deliveredBytes ++ bytes := by
  by_cases hempty : bytes = []
  · refine ⟨stream.region, stream.delivered, stream.device, ?_, h, ?_⟩
    · exact if_pos hempty
    · rw [hempty, List.append_nil]
  rcases Option.eq_none_or_eq_some stream.descriptor with hdescriptor | ⟨descriptor, hdescriptor⟩
  · obtain ⟨region, hregion⟩ := Option.ne_none_iff_exists'.mp (h.region hdescriptor)
    have hdelivered : stream.deliveredBytes = slice region 0 stream.delivered := by
      unfold deliveredBytes
      rw [hdescriptor, hregion]
    have hroom := hfits hdescriptor
    rw [hdelivered, length_slice] at hroom
    have heq := deliver_of_region hempty hdescriptor hregion hroom
    refine ⟨_, _, stream.device, heq, ⟨fun hsome ↦ absurd hdescriptor hsome, fun _ ↦ nofun⟩, ?_⟩
    rw [hdelivered]
    unfold deliveredBytes
    rw [hdescriptor]
    dsimp only
    rw [slice_add, Nat.zero_add, slice_splice _ _ _ _ rfl]
    congr 1
    exact slice_congr fun i _ hi ↦ splice_of_lt (by omega)
  · have hsome : stream.descriptor ≠ none := by simp [hdescriptor]
    obtain ⟨delivered, device, heq, haccepts, htaken⟩ := deliverLoop_spec h hsome bytes
    refine ⟨stream.region, delivered, device,
      (deliver_of_descriptor hempty hdescriptor).trans heq, ⟨?_, h.region⟩, ?_⟩
    · dsimp only
      rw [haccepts]
      exact h.accepts
    · unfold deliveredBytes
      rw [hdescriptor]
      exact htaken

structure Carries (stream : Stream) (offered : List UInt8) : Prop where
  writable : stream.writable = true
  accepting : Accepting stream
  capacity : 0 < stream.capacity
  within : stream.pending ≤ stream.capacity
  fresh : stream.touched = false → stream.pending = 0
  unbuffered : stream.mode = ioNbf → stream.pending = 0
  content : stream.deliveredBytes ++ stream.pendingBytes = offered

structure Writes (stream : Stream) (offered : List UInt8) : Prop extends Carries stream offered where
  lines : stream.mode = ioLbf → newline ∉ stream.pendingBytes

structure Wrote (stream stream' : Stream) (offered : List UInt8) : Prop where
  writes : Writes stream' offered
  fits : ∀ length, stream.Fits length → stream'.Fits length

theorem Carries.length_eq (h : Carries stream offered) :
    stream.deliveredBytes.length + stream.pending = offered.length := by
  have hlength := congrArg List.length h.content
  unfold pendingBytes at hlength
  rwa [List.length_append, length_slice] at hlength

theorem pendingBytes_of_zero (h : stream.pending = 0) : stream.pendingBytes = [] := by
  unfold pendingBytes
  rw [h, slice_zero]

theorem fflush_spec (h : Carries stream offered) (hfits : stream.Fits offered.length) :
    ∃ region delivered device,
      let stream' : Stream := { stream with
        pending := 0, region := region, delivered := delivered, device := device }
      stream.fflush = (true, stream') ∧ Writes stream' offered := by
  by_cases hpending : stream.pending = 0
  · have hself : ({ stream with pending := 0 } : Stream) = stream := by rw [← hpending]
    refine ⟨stream.region, stream.delivered, stream.device, ?_, ?_⟩
    · rw [hself]
      exact if_pos (Or.inr hpending)
    · rw [hself]
      refine ⟨h, fun _ ↦ ?_⟩
      rw [pendingBytes_of_zero hpending]
      exact List.not_mem_nil
  · have hlength := h.length_eq
    obtain ⟨region, delivered, device, heq, haccepting, hbytes⟩ :=
      deliver_spec (show Accepting { stream with pending := 0 } from
        ⟨h.accepting.accepts, h.accepting.region⟩) stream.pendingBytes (by
          unfold pendingBytes
          rw [length_slice]
          exact hlength ▸ hfits)
    refine ⟨region, delivered, device, ?_, ?_⟩
    · unfold fflush
      rw [if_neg (by simp [h.writable, hpending])]
      exact heq
    · exact
        { writable := h.writable
          accepting := haccepting
          capacity := h.capacity
          within := Nat.zero_le _
          fresh := fun _ ↦ rfl
          unbuffered := fun _ ↦ rfl
          content := by
            rw [hbytes]
            exact (List.append_nil _).trans h.content
          lines := fun _ ↦ List.not_mem_nil }

theorem place_spec (h : Writes stream offered) (hmode : stream.mode ≠ ioNbf)
    (hroom : stream.pending < stream.capacity) (htouched : stream.touched = true)
    (hfits : stream.Fits (offered ++ [byte]).length) :
    ∃ stream', stream.place byte = (some byte, stream') ∧
      Wrote stream stream' (offered ++ [byte]) := by
  have hbytes : (stream.placed byte).pendingBytes = stream.pendingBytes ++ [byte] := by
    unfold pendingBytes placed
    dsimp only
    rw [slice_succ, Nat.zero_add, Function.update_self]
    congr 1
    exact slice_congr fun i _ hi ↦ Function.update_of_ne (by omega) ..
  have hcontent : (stream.placed byte).deliveredBytes ++ (stream.placed byte).pendingBytes =
      offered ++ [byte] := by
    rw [hbytes, ← List.append_assoc]
    exact congrArg (· ++ [byte]) h.content
  have hcarries : Carries (stream.placed byte) (offered ++ [byte]) :=
    { writable := h.writable
      accepting := ⟨h.accepting.accepts, h.accepting.region⟩
      capacity := h.capacity
      within := hroom
      fresh := fun hfresh ↦ absurd (htouched.symm.trans hfresh) (by decide)
      unbuffered := fun hnbf ↦ absurd hnbf hmode
      content := hcontent }
  unfold place
  dsimp only
  by_cases hline : (stream.placed byte).mode = ioLbf ∧ byte = newline
  · obtain ⟨region, delivered, device, heq, hwrites⟩ := fflush_spec hcarries hfits
    exact ⟨_, by rw [if_pos hline, heq], hwrites, fun _ hlength ↦ hlength⟩
  · refine ⟨stream.placed byte, if_neg hline, ⟨hcarries, fun hlbf ↦ ?_⟩, fun _ hlength ↦ hlength⟩
    rw [hbytes, List.mem_append, List.mem_singleton]
    rintro (hold | hnew)
    · exact h.lines hlbf hold
    · exact hline ⟨hlbf, hnew.symm⟩

theorem fputc_spec (h : Writes stream offered) (character : ℤ)
    (hfits : stream.Fits (offered ++ [UInt8.ofInt character]).length) :
    ∃ stream', stream.fputc character = (some (UInt8.ofInt character), stream') ∧
      Wrote stream stream' (offered ++ [UInt8.ofInt character]) := by
  have htouched : Writes stream.touch offered :=
    ⟨⟨h.writable, ⟨h.accepting.accepts, h.accepting.region⟩, h.capacity, h.within,
      fun hfresh ↦ Bool.noConfusion hfresh, h.unbuffered, h.content⟩, h.lines⟩
  have hbefore : stream.Fits offered.length := hfits.mono (by simp)
  unfold fputc
  dsimp only
  rw [if_neg (by simp [h.writable])]
  by_cases hmode : stream.touch.mode = ioNbf
  · have hnone := h.unbuffered hmode
    have hlength := h.length_eq
    obtain ⟨region, delivered, device, heq, haccepting, hbytes⟩ :=
      deliver_spec htouched.accepting [UInt8.ofInt character] (by
        rw [hnone, Nat.add_zero] at hlength
        change stream.Fits (stream.deliveredBytes.length + 1)
        rw [hlength]
        exact hfits.mono (by simp))
    have hcontent := h.content
    rw [pendingBytes_of_zero hnone, List.append_nil] at hcontent
    rw [if_pos hmode, heq]
    refine ⟨_, rfl, ⟨⟨h.writable, haccepting, h.capacity, h.within,
      fun hfresh ↦ Bool.noConfusion hfresh, h.unbuffered, ?_⟩, h.lines⟩, fun _ hlength ↦ hlength⟩
    rw [hbytes]
    change stream.deliveredBytes ++ _ ++ slice stream.buffer 0 stream.pending = _
    rw [hnone, slice_zero, List.append_nil, hcontent]
  · rw [if_neg hmode]
    by_cases hfull : stream.touch.capacity ≤ stream.touch.pending
    · obtain ⟨region, delivered, device, heq, hwrites⟩ := fflush_spec htouched.toCarries hbefore
      obtain ⟨stream', hplace, hwrote⟩ := place_spec hwrites hmode h.capacity rfl hfits
      rw [if_pos hfull, heq]
      exact ⟨stream', hplace, hwrote.writes, hwrote.fits⟩
    · obtain ⟨stream', hplace, hwrote⟩ := place_spec htouched hmode (Nat.lt_of_not_le hfull) rfl hfits
      rw [if_neg hfull]
      exact ⟨stream', hplace, hwrote.writes, hwrote.fits⟩

theorem ofInt_toNat (byte : UInt8) : UInt8.ofInt byte.toNat = byte := by
  have hbyte := byte.toNat_lt
  have hmod : ((byte.toNat : ℤ) % 2 ^ 8).toNat = byte.toNat := by omega
  unfold UInt8.ofInt
  rw [hmod, UInt8.ofNat_toNat]

theorem putAll_spec (h : Writes stream offered) (bytes : List UInt8)
    (hfits : stream.Fits (offered ++ bytes).length) :
    ∃ stream', stream.putAll bytes = (true, stream') ∧ Wrote stream stream' (offered ++ bytes) := by
  induction bytes generalizing stream offered with
  | nil => exact ⟨stream, rfl, by rwa [List.append_nil], fun _ hlength ↦ hlength⟩
  | cons byte bytes ih =>
      obtain ⟨first, hput, hwrote⟩ := fputc_spec h byte.toNat
        (hfits.mono (by simp))
      rw [ofInt_toNat] at hput hwrote
      obtain ⟨stream', hrest, hwrote'⟩ := ih hwrote.writes (hwrote.fits _ (by simpa using hfits))
      refine ⟨stream', ?_, ?_, fun length hlength ↦ hwrote'.fits length (hwrote.fits length hlength)⟩
      · unfold putAll
        rw [hput]
        exact hrest
      · simpa using hwrote'.writes

theorem fwriteLoop_spec (h : Writes stream offered) (buffer : Bytes) (size count written : ℕ)
    (hfits : stream.Fits (offered ++ slice buffer (size * written) (size * count)).length) :
    ∃ stream', stream.fwriteLoop buffer size count written = (written + count, stream') ∧
      Wrote stream stream' (offered ++ slice buffer (size * written) (size * count)) := by
  induction count generalizing stream offered written with
  | zero => exact ⟨stream, rfl, by rwa [Nat.mul_zero, slice_zero, List.append_nil],
      fun _ hlength ↦ hlength⟩
  | succ count ih =>
      have hsplit : slice buffer (size * written) (size * (count + 1)) =
          slice buffer (size * written) size ++
            slice buffer (size * (written + 1)) (size * count) := by
        rw [Nat.mul_succ, Nat.add_comm, slice_add, Nat.mul_succ]
      rw [hsplit, ← List.append_assoc] at hfits ⊢
      obtain ⟨first, hput, hwrote⟩ := putAll_spec h (slice buffer (size * written) size)
        (hfits.mono (by simp))
      obtain ⟨stream', hrest, hwrote'⟩ := ih hwrote.writes (written + 1) (hwrote.fits _ hfits)
      refine ⟨stream', ?_, hwrote'.writes,
        fun length hlength ↦ hwrote'.fits length (hwrote.fits length hlength)⟩
      unfold fwriteLoop
      rw [hput]
      dsimp only
      rw [hrest, Nat.add_right_comm, Nat.add_assoc]

structure OpenedToWrite (stream : Stream) : Prop where
  writable : stream.writable = true
  accepting : Accepting stream
  capacity : 0 < stream.capacity
  pending : stream.pending = 0
  delivered : stream.deliveredBytes = []

theorem standard_opened {descriptor : ℕ} (device : Device) (buffer : Bytes)
    (hdescriptor : descriptor ≠ 0) (htaken : device.taken = [])
    (haccepts : ∀ calls length, 0 < length →
      0 < device.accepts calls length ∧ device.accepts calls length ≤ length) :
    OpenedToWrite (standard descriptor buffer device) where
  writable := decide_eq_true hdescriptor
  accepting := ⟨fun _ ↦ haccepts, nofun⟩
  capacity := Nat.succ_pos _
  pending := rfl
  delivered := htaken

/-- What is done with a writable stream: the bytes it has been given, and whether
every operation has succeeded.  A region of memory is given what it has room
for. -/
inductive WriteRun : Stream → List UInt8 → Bool → Prop
  | opened (stream : Stream) (h : OpenedToWrite stream) : WriteRun stream [] true
  | setvbuf (stream : Stream) (offered : List UInt8) (succeeded : Bool) (buffer : Option Bytes)
      (mode : ℤ) (size : ℕ) (run : WriteRun stream offered succeeded) :
      WriteRun (stream.setvbuf buffer mode size).2 offered succeeded
  | fputc (stream : Stream) (offered : List UInt8) (succeeded : Bool) (character : ℤ)
      (run : WriteRun stream offered succeeded)
      (hfits : stream.Fits (offered ++ [UInt8.ofInt character]).length) :
      WriteRun (stream.fputc character).2 (offered ++ [UInt8.ofInt character])
        (succeeded && (stream.fputc character).1 = some (UInt8.ofInt character))
  | fputs (stream : Stream) (offered : List UInt8) (succeeded : Bool) (string : List UInt8)
      (run : WriteRun stream offered succeeded)
      (hfits : stream.Fits (offered ++ string).length) :
      WriteRun (stream.fputs string).2 (offered ++ string) (succeeded && (stream.fputs string).1)
  | fwrite (stream : Stream) (offered : List UInt8) (succeeded : Bool) (buffer : Bytes)
      (size count : ℕ) (run : WriteRun stream offered succeeded)
      (hfits : stream.Fits (offered ++ slice buffer 0 (size * count)).length) :
      WriteRun (stream.fwrite buffer size count).2 (offered ++ slice buffer 0 (size * count))
        (succeeded && (stream.fwrite buffer size count).1 = if size = 0 then 0 else count)
  | fflush (stream : Stream) (offered : List UInt8) (succeeded : Bool)
      (run : WriteRun stream offered succeeded) :
      WriteRun stream.fflush.2 offered (succeeded && stream.fflush.1)

theorem OpenedToWrite.writes (h : OpenedToWrite stream) : Writes stream [] where
  writable := h.writable
  accepting := h.accepting
  capacity := h.capacity
  within := h.pending ▸ Nat.zero_le _
  fresh _ := h.pending
  unbuffered _ := h.pending
  content := by rw [h.delivered, pendingBytes_of_zero h.pending, List.append_nil]
  lines _ := pendingBytes_of_zero h.pending ▸ List.not_mem_nil

theorem setvbuf_writes (h : Writes stream offered) (buffer : Option Bytes) (mode : ℤ) (size : ℕ) :
    Writes (stream.setvbuf buffer mode size).2 offered := by
  unfold setvbuf
  split
  · exact h
  split
  · exact h
  rename_i huntouched
  have hpending := h.fresh (Bool.eq_false_iff.mpr huntouched)
  have hcontent : stream.deliveredBytes ++ [] = offered :=
    pendingBytes_of_zero hpending ▸ h.content
  split
  · exact ⟨⟨h.writable, ⟨h.accepting.accepts, h.accepting.region⟩, h.capacity, h.within, h.fresh,
      fun _ ↦ hpending, h.content⟩, nofun⟩
  cases buffer with
  | none => exact ⟨⟨h.writable, ⟨h.accepting.accepts, h.accepting.region⟩, h.capacity,
      Nat.zero_le _, fun _ ↦ rfl, fun _ ↦ rfl, hcontent⟩, fun _ ↦ List.not_mem_nil⟩
  | some buffer =>
      dsimp only
      split
      · exact h
      · rename_i hsize
        exact ⟨⟨h.writable, ⟨h.accepting.accepts, h.accepting.region⟩, Nat.pos_of_ne_zero hsize,
          Nat.zero_le _, fun _ ↦ rfl, fun _ ↦ rfl, hcontent⟩, fun _ ↦ List.not_mem_nil⟩

theorem fwrite_spec (h : Writes stream offered) (buffer : Bytes) (size count : ℕ)
    (hfits : stream.Fits (offered ++ slice buffer 0 (size * count)).length) :
    ∃ stream', stream.fwrite buffer size count = (if size = 0 then 0 else count, stream') ∧
      Wrote stream stream' (offered ++ slice buffer 0 (size * count)) := by
  unfold fwrite
  by_cases hnothing : size = 0 ∨ count = 0
  · have hproduct : size * count = 0 := Nat.mul_eq_zero.mpr hnothing
    refine ⟨stream, ?_, ?_, fun _ hlength ↦ hlength⟩
    · rw [if_pos hnothing]
      rcases hnothing with hsize | hcount
      · rw [if_pos hsize]
      · rw [hcount, ite_self]
    · rwa [hproduct, slice_zero, List.append_nil]
  · obtain ⟨hsize, -⟩ := not_or.mp hnothing
    obtain ⟨stream', heq, hwrote⟩ := fwriteLoop_spec h buffer size count 0 hfits
    refine ⟨stream', ?_, hwrote⟩
    rw [if_neg hnothing, if_neg hsize, heq, Nat.zero_add]

theorem setvbuf_fits (h : stream.Fits length) (buffer : Option Bytes) (mode : ℤ) (size : ℕ) :
    (stream.setvbuf buffer mode size).2.Fits length := by
  unfold setvbuf
  split
  · exact h
  split
  · exact h
  split
  · exact h
  cases buffer with
  | none => exact h
  | some buffer =>
      dsimp only
      split
      · exact h
      · exact h

theorem WriteRun.writes {succeeded : Bool} (h : WriteRun stream offered succeeded) :
    succeeded = true ∧ Writes stream offered ∧ stream.Fits offered.length := by
  induction h with
  | opened stream h => exact ⟨rfl, h.writes, fun _ ↦ Nat.zero_le _⟩
  | setvbuf stream offered succeeded buffer mode size run ih =>
      obtain ⟨hsucceeded, hwrites, hfits⟩ := ih
      exact ⟨hsucceeded, setvbuf_writes hwrites buffer mode size,
        setvbuf_fits hfits buffer mode size⟩
  | fputc stream offered succeeded character run hfits ih =>
      obtain ⟨stream', heq, hwrote⟩ := fputc_spec ih.2.1 character hfits
      rw [heq, ih.1]
      exact ⟨by simp, hwrote.writes, hwrote.fits _ hfits⟩
  | fputs stream offered succeeded string run hfits ih =>
      obtain ⟨stream', heq, hwrote⟩ := putAll_spec ih.2.1 string hfits
      unfold Stream.fputs
      rw [heq, ih.1]
      exact ⟨rfl, hwrote.writes, hwrote.fits _ hfits⟩
  | fwrite stream offered succeeded buffer size count run hfits ih =>
      obtain ⟨stream', heq, hwrote⟩ := fwrite_spec ih.2.1 buffer size count hfits
      rw [heq, ih.1]
      exact ⟨by simp, hwrote.writes, hwrote.fits _ hfits⟩
  | fflush stream offered succeeded run ih =>
      obtain ⟨region, delivered, device, heq, hwrites⟩ := fflush_spec ih.2.1.toCarries ih.2.2
      rw [heq, ih.1]
      exact ⟨rfl, hwrites, ih.2.2⟩

theorem Writes.line (h : Writes stream offered) (hmode : stream.mode = ioLbf)
    (hnewline : offered.getLast? = some newline) : stream.pending = 0 := by
  by_contra hpending
  obtain ⟨count, hcount⟩ := Nat.exists_eq_succ_of_ne_zero hpending
  have hbytes : stream.pendingBytes = slice stream.buffer 0 count ++ [stream.buffer (0 + count)] := by
    unfold pendingBytes
    rw [hcount, slice_succ]
  have hlines := h.lines hmode
  rw [← h.content, hbytes, ← List.append_assoc, List.getLast?_concat] at hnewline
  rw [hbytes, Option.some.inj hnewline] at hlines
  exact hlines (List.mem_append_right _ (List.mem_singleton_self newline))

end OxysOS.Libc.Stream
