import OxysOS.Userland.Files

/-!
# cp

A file is opened to be read, and the target is opened after it, which empties the target before a
byte is read.  So a file is lost that is copied upon itself, by whatever name.
-/

namespace OxysOS.Userland

open Files

def copyBufferBytes : ℕ := 4096

/-- How the opening of a target that is made or emptied is answered: it is refused before the file
is touched, or once the file has been made or its bytes are others, or the file is opened. -/
inductive TargetOutcome
  | refused
  | spoiled (text : List UInt8)
  | opened

/-- `OxysOpen` of a target. -/
def openTarget (files : Files) (path : Path) : TargetOutcome → Option ℕ × Files
  | .refused => (none, files)
  | .spoiled text =>
      match files.named path with
      | some file => (none, files.store file text)
      | none => (none, files.make path)
  | .opened =>
      match files.named path with
      | some file => (some file, files.store file [])
      | none => (some files.next, files.make path)

/-- `OxysRead` at a place of a file, which fails or is given one byte and so many more, as far as
there are any. -/
def readAt (files : Files) (file place asked : ℕ) (answer : Option ℕ) : Option (List UInt8) :=
  answer.map fun more ↦ ((files.content file).drop place).take (min asked (more + 1))

structure CopyCalls where
  sourceFails : Bool
  target : TargetOutcome
  read : ℕ → Option ℕ
  write : ℕ → WriteOutcome

/-- The loop of `CopyFile` that writes what a read was given, with the writes before it. -/
def copyPut (write : ℕ → WriteOutcome) (target : ℕ) (bytes : List UInt8) (call : ℕ)
    (files : Files) : Bool × ℕ × Files :=
  if bytes = [] then (true, call, files)
  else match files.write target bytes (write call) with
    | (none, files) => (false, call + 1, files)
    | (some put, files) =>
        if put = 0 then (false, call + 1, files)
        else copyPut write target (bytes.drop put) (call + 1) files
  termination_by bytes.length
  decreasing_by
    rw [List.length_drop]
    have hpositive := List.length_pos_iff.mpr ‹bytes ≠ []›
    omega

theorem write_eq {files rest : Files} {file : ℕ} {bytes : List UInt8} {outcome : WriteOutcome}
    {put : Option ℕ} (h : files.write file bytes outcome = (put, rest)) :
    rest = files.store file (files.content file ++ bytes.take outcome.taken) ∧
      ∀ count ∈ put, count = min outcome.taken bytes.length := by
  simp only [write, Prod.mk.injEq] at h
  obtain ⟨rfl, rfl⟩ := h
  cases outcome.fails <;> simp

theorem copyPut_spec (write : ℕ → WriteOutcome) (target : ℕ) (bytes : List UInt8) (call : ℕ)
    (files : Files) :
    ∃ part, (copyPut write target bytes call files).2.2 =
        files.store target (files.content target ++ part) ∧
      ((copyPut write target bytes call files).1 = true → part = bytes) := by
  fun_induction copyPut write target bytes call files with
  | case1 call files => exact ⟨[], by simp [store_content]⟩
  | case2 bytes call files hbytes rest hwrite => exact ⟨_, (write_eq hwrite).1, by simp⟩
  | case3 bytes call files hbytes rest hwrite => exact ⟨_, (write_eq hwrite).1, by simp⟩
  | case4 bytes call files hbytes put rest hwrite hput ih =>
      obtain ⟨hrest, hcount⟩ := write_eq hwrite
      obtain ⟨part, hpart, hwhole⟩ := ih
      have hput' : put = min (write call).taken bytes.length := hcount put rfl
      have htaken : bytes.take (write call).taken = bytes.take put := by
        rw [hput', List.take_eq_take_iff]
        omega
      refine ⟨bytes.take put ++ part, ?_, ?_⟩
      · rw [hpart, hrest, content_store, store_store, htaken, List.append_assoc]
      · intro hdone
        rw [hwhole hdone, List.take_append_drop]

/-- The files with an opened source and target, which are not the same unless there is nothing to be
read. -/
def Apart (files : Files) (source target : ℕ) : Prop :=
  source ≠ target ∨ files.content source = []

theorem content_copyPut (files : Files) {source target : ℕ} (hne : source ≠ target)
    (write : ℕ → WriteOutcome) (bytes : List UInt8) (call : ℕ) :
    (copyPut write target bytes call files).2.2.content source = files.content source := by
  obtain ⟨part, hpart, -⟩ := copyPut_spec write target bytes call files
  rw [hpart]
  exact Function.update_of_ne hne _ _

theorem readAt_nil {files : Files} {file : ℕ} (h : files.content file = []) (place asked : ℕ)
    {answer : Option ℕ} {given : List UInt8}
    (hread : readAt files file place asked answer = some given) :
    given = [] := by
  obtain ⟨more, -, rfl⟩ := Option.map_eq_some_iff.mp hread
  simp [h]

theorem readAt_spec {files : Files} {file place asked : ℕ} {answer : Option ℕ} {given : List UInt8}
    (hasked : 0 < asked) (hread : readAt files file place asked answer = some given) :
    (files.content file).drop place = given ++ (files.content file).drop (place + given.length) ∧
      (given = [] → (files.content file).drop place = []) := by
  obtain ⟨more, -, rfl⟩ := Option.map_eq_some_iff.mp hread
  constructor
  · rw [← List.drop_drop, List.length_take]
    rcases Nat.le_total (min asked (more + 1)) ((files.content file).drop place).length with hle | hle
    · rw [Nat.min_eq_left hle, List.take_append_drop]
    · rw [Nat.min_eq_right hle, List.take_of_length_le hle, List.drop_length, List.append_nil]
  · intro hnil
    rw [List.take_eq_nil_iff] at hnil
    exact hnil.resolve_left (by omega)

/-- The loop of `CopyFile`, with the reads and the writes before it and the place of the source. -/
def copyLoop (calls : CopyCalls) (source target reading writing place : ℕ) (files : Files)
    (hapart : Apart files source target) : Bool × Files :=
  match hread : readAt files source place copyBufferBytes (calls.read reading) with
  | none => (false, files)
  | some given =>
      if hgiven : given = [] then (true, files)
      else
        have hne : source ≠ target := hapart.resolve_right fun h ↦ hgiven (readAt_nil h _ _ hread)
        match _hput : copyPut calls.write target given writing files with
        | (false, _, files) => (false, files)
        | (true, written, rest) =>
            copyLoop calls source target (reading + 1) written (place + given.length) rest
              (Or.inl hne)
  termination_by (files.content source).length - place
  decreasing_by
    have hrest : rest.content source = files.content source := by
      have hcontent := content_copyPut files hne calls.write given writing
      rwa [_hput] at hcontent
    have hleft := congrArg List.length (readAt_spec (by decide) hread).1
    have hpositive := List.length_pos_iff.mpr hgiven
    simp only [List.length_append, List.length_drop] at hleft
    rw [hrest]
    omega

theorem copyLoop_spec (calls : CopyCalls) {source target : ℕ} (reading writing place : ℕ)
    {files : Files} (hapart : Apart files source target) :
    ∃ part, (copyLoop calls source target reading writing place files hapart).2 =
        files.store target (files.content target ++ part) ∧
      ((copyLoop calls source target reading writing place files hapart).1 = true →
        part = (files.content source).drop place) := by
  fun_induction copyLoop calls source target reading writing place files hapart with
  | case1 => exact ⟨[], by simp [store_content]⟩
  | case2 reading writing place files hapart hread =>
      refine ⟨[], by simp [store_content], ?_⟩
      intro _
      exact ((readAt_spec (by decide) hread).2 rfl).symm
  | case3 reading writing place files hapart given hread hgiven hne _ rest hput =>
      obtain ⟨part, hpart, -⟩ := copyPut_spec calls.write target given writing files
      rw [hput] at hpart
      exact ⟨part, hpart, by simp⟩
  | case4 reading writing place files hapart given hread hgiven hne writing' rest hput ih =>
      obtain ⟨first, hfirst, hwhole⟩ := copyPut_spec calls.write target given writing files
      rw [hput] at hfirst hwhole
      obtain rfl : first = given := hwhole rfl
      dsimp only at hfirst
      obtain ⟨part, hpart, hrest⟩ := ih
      have hsource : rest.content source = files.content source := by
        have hcontent := content_copyPut files hne calls.write first writing
        rwa [hput] at hcontent
      refine ⟨first ++ part, ?_, ?_⟩
      · rw [hpart, hfirst, content_store, store_store, List.append_assoc]
      · intro hdone
        rw [(readAt_spec (by decide) hread).1, hrest hdone, hsource]

theorem apart_openTarget {files rest : Files} {source target : ℕ} {path : Path}
    {outcome : TargetOutcome} (hsource : source < files.next)
    (h : openTarget files path outcome = (some target, rest)) : Apart rest source target := by
  cases outcome with
  | refused => simp [openTarget] at h
  | spoiled text =>
      simp only [openTarget] at h
      split at h <;> simp at h
  | opened =>
      simp only [openTarget] at h
      split at h
      · next file hnamed =>
          simp only [Prod.mk.injEq, Option.some.injEq] at h
          obtain ⟨rfl, rfl⟩ := h
          by_cases hsame : source = file
          · exact Or.inr (by rw [hsame, content_store])
          · exact Or.inl hsame
      · next hnamed =>
          simp only [Prod.mk.injEq, Option.some.injEq] at h
          obtain ⟨rfl, rfl⟩ := h
          exact Or.inl (Nat.ne_of_lt hsource)

def copyFile (calls : CopyCalls) (files : Files) (source target : Path) : Bool × Files :=
  match hsource : files.named source with
  | none => (false, files)
  | some file =>
      if calls.sourceFails then (false, files)
      else match htarget : openTarget files target calls.target with
        | (none, files) => (false, files)
        | (some destination, rest) =>
            copyLoop calls file destination 0 0 0 rest
              (apart_openTarget (files.named_lt source file hsource) htarget)

/-- A copy that succeeds gives the target the bytes that the source held, and the source holds them
whether it succeeds or not. -/
def CopyKeeps (calls : CopyCalls) (files : Files) (source target : Path) : Prop :=
  let (succeeded, after) := copyFile calls files source target
  (succeeded = true → after.reads target = files.reads source) ∧
    after.reads source = files.reads source

def TargetOutcome.Spares (text : List UInt8) : TargetOutcome → Prop
  | .refused => True
  | .spoiled left => left = text
  | .opened => text = []

theorem copyLoop_nil (calls : CopyCalls) {source target : ℕ} {files : Files}
    (hapart : Apart files source target) (hnil : files.content source = []) :
    (copyLoop calls source target 0 0 0 files hapart).2 = files := by
  rw [copyLoop]
  split
  · rfl
  · next given hread => rw [dif_pos (readAt_nil hnil _ _ hread)]

variable {files : Files} {source target : Path} {file : ℕ}

theorem reads_make (hsource : files.named source = some file) (hne : source ≠ target) :
    (files.make target).reads source = files.reads source := by
  have hfile : file ≠ files.next := Nat.ne_of_lt (files.named_lt source file hsource)
  simp [reads, make, hne, hsource, hfile]

theorem reads_store_self (hsource : files.named source = some file) (text : List UInt8) :
    (files.store file text).reads source = some text := by
  simp [reads, store, hsource]

theorem copyFile_none (calls : CopyCalls) (target : Path) (hsource : files.named source = none) :
    copyFile calls files source target = (false, files) := by
  simp only [copyFile]
  split
  · rfl
  · next file hfile => simp [hsource] at hfile

theorem copyFile_fails {calls : CopyCalls} (target : Path) (hfails : calls.sourceFails = true) :
    copyFile calls files source target = (false, files) := by
  simp only [copyFile]
  split
  · rfl
  · rw [if_pos hfails]

theorem copyFile_refused {calls : CopyCalls} {rest : Files} (hsource : files.named source = some file)
    (hopens : calls.sourceFails = false)
    (htarget : openTarget files target calls.target = (none, rest)) :
    copyFile calls files source target = (false, rest) := by
  simp only [copyFile]
  split
  · next hnone => simp [hsource] at hnone
  · rw [if_neg (Bool.eq_false_iff.mp hopens)]
    split
    · next rest' hrest => simp_all
    · next destination rest' hrest => simp [htarget] at hrest

theorem copyFile_opened {calls : CopyCalls} {destination : ℕ} {rest : Files}
    (hsource : files.named source = some file) (hopens : calls.sourceFails = false)
    (htarget : openTarget files target calls.target = (some destination, rest)) :
    copyFile calls files source target = copyLoop calls file destination 0 0 0 rest
      (apart_openTarget (files.named_lt source file hsource) htarget) := by
  simp only [copyFile]
  split
  · next hnone => simp [hsource] at hnone
  · next file' hfile =>
      obtain rfl : file' = file := by simpa [hsource] using hfile.symm
      rw [if_neg (Bool.eq_false_iff.mp hopens)]
      split
      · next rest' hrest => simp [htarget] at hrest
      · next destination' rest' hrest =>
          obtain ⟨rfl, rfl⟩ : destination' = destination ∧ rest' = rest := by
            simpa [htarget, eq_comm] using hrest
          rfl

theorem copyLoop_reads (calls : CopyCalls) {files : Files} (source target : Path)
    {file destination : ℕ} (hapart : Apart files file destination)
    (hsource : files.named source = some file) (htarget : files.named target = some destination)
    (hne : file ≠ destination) (hnil : files.content destination = []) :
    ((copyLoop calls file destination 0 0 0 files hapart).1 = true →
      (copyLoop calls file destination 0 0 0 files hapart).2.reads target = files.reads source) ∧
    (copyLoop calls file destination 0 0 0 files hapart).2.reads source = files.reads source := by
  obtain ⟨part, hpart, hwhole⟩ := copyLoop_spec calls 0 0 0 hapart
  have hother : files.named source ≠ some destination := by
    rw [hsource]
    exact mt Option.some_inj.mp hne
  rw [hpart, hnil, List.nil_append]
  constructor
  · intro hdone
    rw [reads_store_self htarget, hwhole hdone, reads_of_named hsource, List.drop_zero]
  · exact reads_store hother part

theorem copyKeeps_opened (calls : CopyCalls) (hsource : files.named source = some file)
    (hopens : calls.sourceFails = false) :
    CopyKeeps calls files source target ↔
      (files.named target = some file → calls.target.Spares (files.content file)) := by
  have hreads := reads_of_named hsource
  cases houtcome : calls.target with
  | refused =>
      have htarget : openTarget files target calls.target = (none, files) := by
        rw [houtcome]
        rfl
      simp [CopyKeeps, copyFile_refused hsource hopens htarget, TargetOutcome.Spares]
  | spoiled text =>
      cases hnamed : files.named target with
      | none =>
          have htarget : openTarget files target calls.target = (none, files.make target) := by
            simp [openTarget, houtcome, hnamed]
          have hne : source ≠ target := fun hsame ↦ by simp [← hsame, hsource] at hnamed
          simp [CopyKeeps, copyFile_refused hsource hopens htarget, reads_make hsource hne]
      | some other =>
          have htarget : openTarget files target calls.target = (none, files.store other text) := by
            simp [openTarget, houtcome, hnamed]
          by_cases hsame : other = file
          · subst hsame
            simp [CopyKeeps, copyFile_refused hsource hopens htarget, TargetOutcome.Spares,
              reads_store_self hsource, hreads]
          · have hother : files.named source ≠ some other := by
              simpa [hsource] using Ne.symm hsame
            simp [CopyKeeps, copyFile_refused hsource hopens htarget, hsame, reads_store hother]
  | opened =>
      cases hnamed : files.named target with
      | none =>
          have htarget : openTarget files target calls.target =
              (some files.next, files.make target) := by
            simp [openTarget, houtcome, hnamed]
          have hne : source ≠ target := fun hsame ↦ by simp [← hsame, hsource] at hnamed
          have hloop := copyLoop_reads calls source target
            (apart_openTarget (files.named_lt source file hsource) htarget)
            (by simp [make, hne, hsource]) (by simp [make])
            (Nat.ne_of_lt (files.named_lt source file hsource)) (by simp [make])
          rw [reads_make hsource hne] at hloop
          simpa [CopyKeeps, copyFile_opened hsource hopens htarget] using hloop
      | some other =>
          have htarget : openTarget files target calls.target =
              (some other, files.store other []) := by
            simp [openTarget, houtcome, hnamed]
          by_cases hsame : other = file
          · subst hsame
            have hloop := copyLoop_nil calls
              (apart_openTarget (files.named_lt source other hsource) htarget)
              (content_store files other [])
            have hempty : [] = files.content other ↔ files.content other = [] := eq_comm
            simp [CopyKeeps, copyFile_opened hsource hopens htarget, hloop, TargetOutcome.Spares,
              reads_store_self hsource, reads_store_self hnamed, hreads, hempty]
            exact fun hnil _ ↦ hnil
          · have hother : files.named source ≠ some other := by
              simpa [hsource] using Ne.symm hsame
            have hloop := copyLoop_reads calls source target
              (apart_openTarget (files.named_lt source file hsource) htarget) hsource hnamed
              (Ne.symm hsame) (content_store files other [])
            rw [reads_store hother] at hloop
            simpa [CopyKeeps, copyFile_opened hsource hopens htarget, hsame] using hloop

/-- A file is copied and kept exactly where the source is not opened, or the target names another
file, or the opening of the target leaves its bytes. -/
theorem copyKeeps_iff (calls : CopyCalls) (files : Files) (source target : Path) :
    CopyKeeps calls files source target ↔ calls.sourceFails = true ∨
      ∀ file, files.named source = some file → files.named target = some file →
        calls.target.Spares (files.content file) := by
  cases hsource : files.named source with
  | none => simp [CopyKeeps, copyFile_none calls target hsource]
  | some file =>
      cases hopens : calls.sourceFails with
      | true => simp [CopyKeeps, copyFile_fails target hopens]
      | false =>
          simp only [Bool.false_eq_true, false_or, Option.some.injEq, forall_eq']
          exact copyKeeps_opened calls hsource hopens

def linkedFiles : Files where
  named path := if path = [0x61] ∨ path = [0x62] then some 0 else none
  content _ := [0x78]
  next := 1
  named_lt path file h := by
    split at h
    · cases h
      exact Nat.one_pos
    · cases h

def steadyCalls : CopyCalls := ⟨false, .opened, fun _ ↦ some 0, fun _ ↦ ⟨1, false⟩⟩

/-- A file that is copied upon itself is lost. -/
theorem copyFile_not_keeps : ¬CopyKeeps steadyCalls linkedFiles [0x61] [0x62] := by
  intro hkeeps
  have hsource : linkedFiles.named [0x61] = some 0 := rfl
  have hspares := (copyKeeps_opened steadyCalls hsource rfl).mp hkeeps rfl
  exact List.cons_ne_nil _ _ hspares

end OxysOS.Userland
