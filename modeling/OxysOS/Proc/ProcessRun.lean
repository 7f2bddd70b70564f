import OxysOS.Exec.ElfMemory
import OxysOS.Proc.ProcessBreak

/-!
# Runs of a program's image, stack and heap

A run begins with an image that the loader has accepted, gives the program a
stack, and then moves the break as the program asks, the rest of the kernel
acting in between.  The image's highest address is the program's own choice, and
nothing compares it with the stack or the end of the user's half.
-/

namespace OxysOS.Proc

open OxysOS.Library OxysOS.Mm OxysOS.Exec Action

variable {image : Bytes} {length requested q : ℕ} {segments : List ElfProgramHeader}
  {space : AddressSpace} {s s' m : Machine} {x x' : Running} {requests : List ℕ}
  {running : Bool} {fixed heap : ℕ → Prop}

/-- The rest of the kernel has acted and left a space's tables and the frames
mapped in it alone. -/
structure Spares (space : AddressSpace) (s s' : Machine) : Prop where
  tables : ∀ q n, space.user.Within q → s.table space.user q = some n →
    s'.memory n = s.memory n ∧ s'.frames.isUsed n = true
  pages : ∀ address f, address < 2 ^ 47 → s.leaf space.user address &&& pageEntryPresent ≠ 0 →
    frameIndexOf (entryAddress (s.leaf space.user address)) = f →
    s'.frames.isUsed f = s.frames.isUsed f ∧ s'.frames.holders f = s.frames.holders f
  sound : s'.frames.Sound

/-- The states a program may be in after the loader has accepted its image and
it has asked for these breaks, the last first.  A panic ends the run. -/
inductive Reaches (image : Bytes) (length : ℕ) : Bool → List ℕ → Running → Prop
  | record {x x' : Running} {m m' : Machine} {loaded : ElfImage}
      {arguments : Option ProcessArguments} {answer : Except String ℕ} :
      EmptySpace x.process.space x.machine → x.mappings = [] →
      outcome (elfLoad x.process.space image length) x.machine = (.ok (.ok loaded), m) →
      Spares x.process.space m m' →
      outcome (processCreateUserStack arguments)
        { x with machine := m', process := x.process.recordImage loaded } = (answer, x') →
      Reaches image length answer.isOk [] x'
  | execute {x x' : Running} {space : AddressSpace} {m m' : Machine} {loaded : ElfImage}
      {arguments : Option ProcessArguments} {answer : Except String ℕ} :
      EmptySpace space x.machine → x.mappings = [] →
      outcome (elfLoad space image length) x.machine = (.ok (.ok loaded), m) →
      Spares space m m' →
      outcome (processCreateUserStack arguments)
        { x with machine := m', process := x.process.replaceImage space loaded } = (answer, x') →
      Reaches image length answer.isOk [] x'
  | setBreak {x x' : Running} {requests : List ℕ} {requested : ℕ} {answer : Except String ℤ} :
      Reaches image length true requests x →
      outcome (processSetBreak requested) x = (answer, x') →
      Reaches image length answer.isOk (requested :: requests) x'
  | elsewhere {x : Running} {requests : List ℕ} {m : Machine} :
      Reaches image length true requests x → Spares x.process.space x.machine m →
      Reaches image length true requests { x with machine := m }

def StackClear (segments : List ElfProgramHeader) : Prop :=
  ∀ address, guardPage ≤ address → address < processUserStackTop → ¬TouchedBy segments address

def imageBreak (segments : List ElfProgramHeader) : ℕ :=
  alignUp (imageHighest segments) + processBreakGapPages * pageSize

/-- A request that is acted upon keeps the heap below the guard page, or above
the stack and within the user's half. -/
def BreakClear (segments : List ElfProgramHeader) (requested : ℕ) : Prop :=
  imageBreak segments < requested → requested - imageBreak segments ≤ processBreakMaximum →
    alignUp requested ≤ guardPage ∨
      (processUserStackTop ≤ imageBreak segments ∧ alignUp requested ≤ syscallUserLimit)

theorem Spares.refl (h : Hierarchy space.user s) : Spares space s s where
  tables q n hq hn := ⟨rfl, h.used q n hq hn⟩
  pages _ _ _ _ _ := ⟨rfl, rfl⟩
  sound := h.sound

theorem Standing.spared (h : Standing fixed heap x) (hspares : Spares x.process.space x.machine m) :
    Standing fixed heap { x with machine := m } := by
  obtain ⟨hhierarchy, htables, hleaves⟩ := h.hierarchy.elsewhere _
    (fun q n hq hn ↦ (hspares.tables q n hq hn).1)
    (fun q n hq hn ↦ (hspares.tables q n hq hn).2) hspares.sound
  have hleaf : ∀ address, address < 2 ^ 47 →
      Running.leaf { x with machine := m } address = x.leaf address := fun address haddress ↦
    hleaves.leaf (x.process.space.within_user haddress)
  refine ⟨h.made, hhierarchy, ?_, ?_, ?_⟩
  · intro address haddress hfixed hheap
    rw [hleaf address haddress]
    exact h.absent address haddress hfixed hheap
  · intro q hq
    obtain ⟨haligned, hhigh, f, hentry, hown, hbound⟩ := h.held q hq
    have hpresent : x.leaf q &&& pageEntryPresent ≠ 0 := by
      rw [hentry]
      exact present_leafEntry _ _
    have hframe : frameIndexOf (entryAddress (x.leaf q)) = f := by
      rw [hentry, entryAddress_pageEntry hbound.2, frameIndexOf_mul]
    obtain ⟨hused, hholders⟩ := hspares.pages q f hhigh hpresent hframe
    refine ⟨haligned, hhigh, f, by rw [hleaf q hhigh, hentry], ⟨?_, ?_, fun p hp ↦ ?_⟩, hbound⟩
    · exact hused.trans hown.used
    · exact hholders.trans hown.once
    · change m.table x.user p ≠ some f
      rw [htables p hp]
      exact hown.outside p hp
  · intro q other hq hother heq
    rw [hleaf q (h.held q hq).2.1, hleaf other (h.held other hother).2.1] at heq
    exact h.apart q other hq hother heq

theorem Ready.spared (h : Ready fixed x) (hspares : Spares x.process.space x.machine m) :
    Ready fixed { x with machine := m } :=
  ⟨h.standing.spared hspares, h.harmless, h.sound, h.guarded⟩

theorem imageHighest_le {length : ℕ} (h : SegmentsAdmitted segments length) :
    imageHighest segments ≤ syscallUserLimit ∧
      ∀ segment ∈ segments, segment.loads = true → segment.finish ≤ imageHighest segments := by
  induction segments with
  | nil => exact ⟨Nat.zero_le _, fun segment hsegment ↦ by cases hsegment⟩
  | cons segment segments ih =>
      obtain ⟨hlimit, hall⟩ := ih ⟨fun other hother ↦ h.each other (List.mem_cons_of_mem _ hother),
        (List.pairwise_cons.mp h.ordered).2⟩
      unfold imageHighest at *
      rw [List.foldr_cons]
      by_cases hloads : segment.loads = true
      · have hthis := (h.each segment List.mem_cons_self hloads).high
        rw [if_pos hloads]
        refine ⟨max_le hthis hlimit, fun other hother hloads' ↦ ?_⟩
        rcases List.mem_cons.mp hother with rfl | hother
        · exact le_max_left _ _
        · exact (hall other hother hloads').trans (le_max_right _ _)
      · rw [if_neg hloads]
        refine ⟨hlimit, fun other hother hloads' ↦ ?_⟩
        rcases List.mem_cons.mp hother with rfl | hother
        · exact absurd hloads' hloads
        · exact hall other hother hloads'

theorem lt_imageBreak (h : SegmentsAdmitted segments length) (htouched : TouchedBy segments q) :
    q < alignUp (imageHighest segments) := by
  obtain ⟨segment, hsegment, hloads, a, hin, heq⟩ := htouched
  obtain ⟨hlimit, hall⟩ := imageHighest_le h
  have hfinish := hall segment hsegment hloads
  have hlimit' : imageHighest segments ≤ 2 ^ 47 := hlimit
  obtain ⟨haligned, hle, -⟩ := alignUp_spec (imageHighest segments) (by omega)
  have hend := hin.2
  unfold alignDown pageSize at heq
  unfold pageSize at haligned
  omega

theorem standing_of_loaded {frame : ℕ → ℕ} {progress : ElfProgress} {start : Machine}
    (h : Loaded x.process.space image (imageSteps segments) frame progress start x.machine)
    (hmade : x.process.space.root ≠ frameAllocationFailed) :
    Standing (TouchedBy segments) (fun _ ↦ False) x where
  made := hmade
  hierarchy := h.hierarchy
  absent address haddress hfixed _ := by
    apply h.absent address haddress
    rwa [touched_imageSteps, ← touchedBy_alignDown]
  held _ hq := hq.elim
  apart _ _ hq := hq.elim

def FixedPage (segments : List ElfProgramHeader) (page : ℕ) : Prop :=
  TouchedBy segments page ∨ PageRange userStackBase processUserStackPages page

theorem mem_stack : PageRange userStackBase processUserStackPages q ↔
    q % pageSize = 0 ∧ userStackBase ≤ q ∧ q < processUserStackTop := by
  rw [pageRange_iff (by decide)]
  exact Iff.rfl

theorem BreakClear.clear {process : Process} (h : BreakClear segments requested)
    (hadmitted : SegmentsAdmitted segments length)
    (hstart : process.breakStart = imageBreak segments) :
    Clear (FixedPage segments) process requested := by
  intro hlow hmost q haligned hbefore hafter
  rw [hstart] at hlow hmost hbefore
  have hmaximum : processBreakMaximum = 0x1000000 := rfl
  have hlimit : imageHighest segments ≤ 2 ^ 47 := (imageHighest_le hadmitted).1
  obtain ⟨hend, -, hend'⟩ := alignUp_spec (imageHighest segments) (by omega)
  have hbreak : imageBreak segments = alignUp (imageHighest segments) + pageSize := rfl
  have hpage : pageSize = 4096 := rfl
  obtain ⟨haligned', hle, hup⟩ := alignUp_spec (requested) (by omega)
  have hmore : imageBreak segments < requested := by
    rw [hpage] at haligned haligned' hup hbreak hend
    omega
  have htouched : ¬TouchedBy segments q := by
    intro htouched
    have hbelow := lt_imageBreak hadmitted htouched
    omega
  have hguard : guardPage = userStackBase - pageSize := rfl
  have hbase : userStackBase = processUserStackTop - 16 * pageSize := rfl
  have htop : processUserStackTop = 0x700000000000 := rfl
  have huser : syscallUserLimit = 0x800000000000 := rfl
  have hstack : q < guardPage ∨ processUserStackTop ≤ q := by
    rcases h hmore hmost with hbelow | ⟨habove, -⟩
    · exact Or.inl (by omega)
    · exact Or.inr (by omega)
  refine ⟨?_, ?_, by omega⟩
  · rcases h hmore hmost with hbelow | ⟨-, hbelow⟩ <;> omega
  · rintro (hin | hin)
    · exact htouched hin
    · obtain ⟨-, hin, hin'⟩ := mem_stack.mp hin
      omega

theorem StackClear.room (h : StackClear segments)
    (hq : PageRange userStackBase processUserStackPages q) :
    Room (TouchedBy segments) (fun _ ↦ False) q := by
  obtain ⟨haligned, hlow, hhigh⟩ := mem_stack.mp hq
  have hguard : guardPage = 0x700000000000 - 17 * 4096 := by decide
  have hbase : userStackBase = 0x700000000000 - 16 * 4096 := by decide
  have htop : processUserStackTop = 0x700000000000 := rfl
  exact ⟨haligned, by omega, h q (by omega) hhigh, id, by omega⟩

theorem alignUp_imageBreak (h : SegmentsAdmitted segments length) :
    imageBreak segments % pageSize = 0 ∧ alignUp (imageBreak segments) = imageBreak segments ∧
      imageBreak segments ≤ 2 ^ 48 := by
  have hlimit : imageHighest segments ≤ 2 ^ 47 := (imageHighest_le h).1
  have hbreak : imageBreak segments = alignUp (imageHighest segments) + pageSize := rfl
  obtain ⟨hend, -, hend'⟩ := alignUp_spec (imageHighest segments) (by omega)
  have hpage : pageSize = 4096 := rfl
  obtain ⟨haligned, hle, hup⟩ := alignUp_spec (imageBreak segments) (by omega)
  rw [hpage] at haligned hend hup hend' hbreak ⊢
  omega

theorem stack_ready {arguments : Option ProcessArguments} {answer : Except String ℕ}
    (hadmitted : SegmentsAdmitted segments length) (himage : StackClear segments)
    (h : Standing (TouchedBy segments) (fun _ ↦ False) x) (hlog : x.mappings = [])
    (hbreak : x.process.breakStart = imageBreak segments ∧
      x.process.breakCurrent = imageBreak segments)
    (hstack : outcome (processCreateUserStack arguments) x = (answer, x')) :
    Harmless x' ∧ (answer.isOk = true → Ready (FixedPage segments) x' ∧
      x'.process.breakStart = imageBreak segments) := by
  have hharmless : Harmless x := by
    intro mapping hmapping
    rw [hlog] at hmapping
    cases hmapping
  obtain ⟨haligned, hround, hsmall⟩ := alignUp_imageBreak hadmitted
  rcases processCreateUserStack_cases arguments h hharmless (fun q hq ↦ himage.room hq) with
    ⟨text, x1, heq, hlog1⟩ | ⟨pointer, x1, heq, hmade⟩
  · cases hstack.symm.trans heq
    refine ⟨hlog1, fun hok ↦ ?_⟩
    cases hok
  · cases hstack.symm.trans heq
    have hstart := hmade.breaks.1.trans hbreak.1
    have hcurrent := hmade.breaks.2.trans hbreak.2
    have hempty : ∀ q, ¬HeapOf x'.process q := by
      rintro q ⟨-, hbefore, hafter⟩
      rw [hcurrent, hround] at hafter
      rw [hstart] at hbefore
      omega
    refine ⟨hmade.harmless, fun _ ↦ ⟨⟨?_, hmade.harmless, ?_, hempty guardPage⟩, hstart⟩⟩
    · exact hmade.standing.heap_congr fun q ↦ ⟨False.elim, hempty q⟩
    · constructor
      · rw [hstart]
        exact haligned
      · rw [hstart, hcurrent]
      · rw [hstart, hcurrent]
        exact Nat.le_add_right _ _
      · rw [hstart]
        exact hsmall

theorem establishBreak_space (process : Process) : process.establishBreak.space = process.space := by
  unfold Process.establishBreak
  split <;> rfl

theorem establishBreak_eq {process : Process} (h : process.imageHighest = imageHighest segments)
    (hne : imageHighest segments ≠ 0) : process.establishBreak.breakStart = imageBreak segments ∧
      process.establishBreak.breakCurrent = imageBreak segments := by
  unfold Process.establishBreak
  rw [h, if_neg hne]
  exact ⟨rfl, rfl⟩

theorem recordImage_breaks {loaded : ElfImage} (process : Process)
    (h : loaded.highest = imageHighest segments) (hne : imageHighest segments ≠ 0) :
    (process.recordImage loaded).breakStart = imageBreak segments ∧
      (process.recordImage loaded).breakCurrent = imageBreak segments := by
  unfold Process.recordImage
  exact establishBreak_eq h hne

theorem replaceImage_breaks {loaded : ElfImage} (process : Process) (space : AddressSpace)
    (h : loaded.highest = imageHighest segments) (hne : imageHighest segments ≠ 0) :
    (process.replaceImage space loaded).breakStart = imageBreak segments ∧
      (process.replaceImage space loaded).breakCurrent = imageBreak segments := by
  unfold Process.replaceImage
  exact establishBreak_eq h hne

theorem imageHighest_ne_zero (hadmitted : SegmentsAdmitted segments length)
    (hsome : ∃ segment ∈ segments, segment.loads = true) : imageHighest segments ≠ 0 := by
  obtain ⟨segment, hsegment, hloads⟩ := hsome
  have hfinish := (imageHighest_le hadmitted).2 segment hsegment hloads
  have hlow := (hadmitted.each segment hsegment hloads).low
  unfold ElfProgramHeader.finish at hfinish
  unfold pageSize at hlow
  omega

theorem image_ready {header : ElfHeader} {loaded : ElfImage} {start : Machine}
    {arguments : Option ProcessArguments} {answer : Except String ℕ} {m' : Machine}
    (hvalid : elfValidate image length = .ok (header, segments)) (himage : StackClear segments)
    (hempty : EmptySpace space start)
    (hload : outcome (elfLoad space image length) start = (.ok (.ok loaded), m))
    (hspares : Spares space m m')
    (hstack : outcome (processCreateUserStack arguments) x = (answer, x')) (hmachine : x.machine = m') (hspace : x.process.space = space)
    (hlog : x.mappings = [])
    (hbreak : imageHighest segments ≠ 0 → loaded.highest = imageHighest segments →
      x.process.breakStart = imageBreak segments ∧ x.process.breakCurrent = imageBreak segments) :
    Harmless x' ∧ (answer.isOk = true → Ready (FixedPage segments) x' ∧
      x'.process.breakStart = imageBreak segments) := by
  obtain ⟨hadmitted, hsome⟩ := elfValidate_ok hvalid
  obtain ⟨hhighest, frame, progress, hpages⟩ :=
    (elfLoad_run hempty hvalid).answered loaded (congrArg Prod.fst hload)
  rw [hload] at hpages
  subst hspace
  have hstanding : Standing (TouchedBy segments) (fun _ ↦ False) { x with machine := m } :=
    standing_of_loaded hpages hempty.made
  have hspared := hstanding.spared hspares
  rw [← hmachine] at hspared
  exact stack_ready hadmitted himage hspared hlog
    (hbreak (imageHighest_ne_zero hadmitted hsome) hhighest) hstack

theorem Reaches.ready {header : ElfHeader} (hrun : Reaches image length running requests x)
    (hvalid : elfValidate image length = .ok (header, segments)) (himage : StackClear segments)
    (hbreak : ∀ requested ∈ requests, BreakClear segments requested) :
    Harmless x ∧ (running = true → Ready (FixedPage segments) x ∧
      x.process.breakStart = imageBreak segments) := by
  have hadmitted := (elfValidate_ok hvalid).1
  induction hrun with
  | record hempty hlog hload hspares hstack =>
      exact image_ready hvalid himage hempty hload hspares hstack rfl (establishBreak_space _) hlog
        fun hne hhighest ↦ recordImage_breaks _ hhighest hne
  | execute hempty hlog hload hspares hstack =>
      exact image_ready hvalid himage hempty hload hspares hstack rfl (establishBreak_space _) hlog
        fun hne hhighest ↦ replaceImage_breaks _ _ hhighest hne
  | setBreak hrun hcall ih =>
      obtain ⟨-, hready⟩ := ih fun requested hrequested ↦
        hbreak requested (List.mem_cons_of_mem _ hrequested)
      obtain ⟨hready, hstart⟩ := hready rfl
      have hclear := (hbreak _ List.mem_cons_self).clear hadmitted hstart
      rcases processSetBreak_cases hready hclear with
        ⟨text, x1, heq, hlog⟩ | ⟨answer, x1, heq, hready', hstart'⟩
      · cases hcall.symm.trans heq
        exact ⟨hlog, fun hok ↦ by cases hok⟩
      · cases hcall.symm.trans heq
        exact ⟨hready'.harmless, fun _ ↦ ⟨hready', hstart'.trans hstart⟩⟩
  | elsewhere hrun hspares ih =>
      obtain ⟨-, hready⟩ := ih hbreak
      obtain ⟨hready, hstart⟩ := hready rfl
      exact ⟨hready.harmless, fun _ ↦ ⟨hready.spared hspares, hstart⟩⟩

/-- The image, the stack and the heap keep apart and within the user's half,
and the guard page, while the program runs, is not mapped. -/
def KeepsApart (running : Bool) (x : Running) : Prop :=
  Harmless x ∧ (running = true → ∀ address, alignDown address = guardPage → x.leaf address = 0)

theorem Reaches.keepsApart {header : ElfHeader} (hrun : Reaches image length running requests x)
    (hvalid : elfValidate image length = .ok (header, segments)) (himage : StackClear segments)
    (hbreak : ∀ requested ∈ requests, BreakClear segments requested) : KeepsApart running x := by
  obtain ⟨hharmless, hready⟩ := hrun.ready hvalid himage hbreak
  refine ⟨hharmless, fun hrunning address haddress ↦ ?_⟩
  obtain ⟨hready, -⟩ := hready hrunning
  have hguard : guardPage = 0x700000000000 - 17 * 4096 := by decide
  have hbase : userStackBase = 0x700000000000 - 16 * 4096 := by decide
  have htop : processUserStackTop = 0x700000000000 := rfl
  apply hready.standing.absent address
  · unfold alignDown pageSize at haddress
    omega
  · rw [haddress]
    rintro (hin | hin)
    · exact himage guardPage le_rfl (by omega) hin
    · have hlow := (mem_stack.mp hin).2.1
      omega
  · rw [haddress]
    exact hready.guarded

theorem StackClear.of_below (hadmitted : SegmentsAdmitted segments length)
    (h : alignUp (imageHighest segments) ≤ guardPage) : StackClear segments := by
  intro address hlow _ htouched
  have hbelow := lt_imageBreak hadmitted htouched
  omega

def blankProcess (space : AddressSpace) : Process := ⟨space, 0, 0, 0, 0, 0, 0, 0, 0⟩

def stackOf (space : AddressSpace) (loaded : ElfImage) (m : Machine) : Except String ℕ × Running :=
  outcome (processCreateUserStack none) ⟨m, (blankProcess space).recordImage loaded, []⟩

theorem reaches_stackOf {loaded : ElfImage} (hempty : EmptySpace space s)
    (hload : outcome (elfLoad space image length) s = (.ok (.ok loaded), m)) :
    Reaches image length (stackOf space loaded m).1.isOk [] (stackOf space loaded m).2 := by
  obtain ⟨header, segments, hvalid, -⟩ := elfLoad_describes hempty hload
  obtain ⟨-, frame, progress, hloaded⟩ := (elfLoad_run hempty hvalid).answered loaded
    (congrArg Prod.fst hload)
  rw [hload] at hloaded
  have hstack : outcome (processCreateUserStack none)
      ⟨m, (blankProcess space).recordImage loaded, []⟩ =
      ((stackOf space loaded m).1, (stackOf space loaded m).2) := rfl
  exact Reaches.record (x := ⟨s, blankProcess space, []⟩) hempty rfl hload
    (Spares.refl hloaded.hierarchy) hstack

theorem keepsApart_plain : ∃ running x,
    Reaches (plainImage 0x400F80) 120 running [] x ∧ KeepsApart running x := by
  obtain ⟨machine, hsound, hloads⟩ := exists_bootMachine 280
    (fun s ↦ isLoaded (outcome (createAndLoad (plainImage 0x400F80) 120) s).1) (by decide +kernel)
  obtain ⟨space, start, loaded, m, hempty, hload⟩ := exists_load hsound hloads
  obtain ⟨header, segments, hvalid, -⟩ := elfLoad_describes hempty hload
  have hrun := reaches_stackOf hempty hload
  refine ⟨_, _, hrun, hrun.keepsApart hvalid ?_ (fun _ h ↦ by cases h)⟩
  apply StackClear.of_below (elfValidate_ok hvalid).1
  have hlow : (match elfValidate (plainImage 0x400F80) 120 with
    | .ok answer => decide (alignUp (imageHighest answer.2) ≤ guardPage)
    | .error _ => false) = true := by decide +kernel
  rw [hvalid] at hlow
  exact of_decide_eq_true hlow

def stackCollides (image : Bytes) (length : ℕ) (s : Machine) : Bool :=
  match outcome addressSpaceCreate s with
  | (.ok (some space), start) =>
      match outcome (elfLoad space image length) start with
      | (.ok (.ok loaded), m) => (stackOf space loaded m).2.mappings.any fun mapping ↦
          decide (mapping.found &&& pageEntryPresent ≠ 0)
      | _ => false
  | _ => false

/-- An image whose one page is the lowest of the stack is accepted, and the
stack is mapped over it. -/
theorem keepsApart_fails : ¬∀ (image : Bytes) (length : ℕ) (running : Bool) (requests : List ℕ)
    (x : Running), Reaches image length running requests x → KeepsApart running x := by
  intro h
  obtain ⟨machine, hsound, hcollides⟩ := exists_bootMachine 264
    (stackCollides (plainImage userStackBase) 120) (by decide +kernel)
  unfold stackCollides at hcollides
  rcases addressSpaceCreate_cases hsound with ⟨-, text, heq⟩ | ⟨space, start, heq, hempty, -⟩
  · rw [heq] at hcollides
    cases hcollides
  · rw [heq] at hcollides
    dsimp only at hcollides
    cases hload : outcome (elfLoad space (plainImage userStackBase) 120) start with
    | mk answer m =>
        rw [hload] at hcollides
        rcases answer with ⟨text⟩ | ⟨⟨result⟩ | ⟨loaded⟩⟩
        · cases hcollides
        · cases hcollides
        · obtain ⟨mapping, hmapping, hfound⟩ := List.any_eq_true.mp hcollides
          have hharmless := (h _ _ _ _ _ (reaches_stackOf hempty hload)).1 mapping hmapping
          exact of_decide_eq_true hfound hharmless.1

end OxysOS.Proc
