import OxysOS.Proc.ExecCopied
import OxysOS.Library.Components

/-!
# The working directory

`kernel/arch/x86_64/syscall/syscall.c`: how a path is copied from a caller and made absolute, and
how the working directory is reduced in place before it is stored.
-/

namespace OxysOS.Proc

open OxysOS.Library OxysOS.Mm OxysOS.Exec

/-- `SYSCALL_PATH_MAXIMUM`, and `PROCESS_PATH_MAXIMUM` with it. -/
def syscallPathMaximum : ℕ := 255

def syscallEnotdir : Word := BitVec.ofInt 64 (-9)

def syscallEnametoolong : Word := BitVec.ofInt 64 (-13)

/-! ## The reduction of a path -/

def skipSeparators (path : Bytes) : ℕ → ℕ → Option ℕ
  | 0, _ => none
  | steps + 1, read =>
      if path read = byteOf '/' then skipSeparators path steps (read + 1) else some read

def componentLength (path : Bytes) (read : ℕ) : ℕ → ℕ → Option ℕ
  | 0, _ => none
  | steps + 1, length =>
      if path (read + length) ≠ 0 ∧ path (read + length) ≠ byteOf '/' then
        componentLength path read steps (length + 1)
      else some length

def backUp (path : Bytes) : ℕ → ℕ
  | 0 => 0
  | write + 1 => if path write ≠ byteOf '/' then backUp path write else write + 1

def moveComponent : ℕ → Bytes → ℕ → ℕ → Bytes
  | 0, path, _, _ => path
  | length + 1, path, write, read =>
      moveComponent length (Function.update path write (path read)) (write + 1) (read + 1)

/-- The loop of `SyscallCanonicalisePath`, where no loop takes more than so many turns. -/
def canonicaliseTurns (steps : ℕ) : ℕ → Bytes → ℕ → ℕ → Option (Bytes × ℕ)
  | 0, _, _, _ => none
  | turns + 1, path, read, write =>
      if path read = 0 then some (path, write)
      else
        (skipSeparators path steps read).bind fun read ↦
          (componentLength path read steps 0).bind fun length ↦
            if length = 0 then some (path, write)
            else if length = 1 ∧ path read = byteOf '.' then
              canonicaliseTurns steps turns path (read + length) write
            else if length = 2 ∧ path read = byteOf '.' ∧ path (read + 1) = byteOf '.' then
              -- The separator goes with the component; `0 - 1` is `0` here.
              canonicaliseTurns steps turns path (read + length) (backUp path write - 1)
            else
              let path := Function.update path write (byteOf '/')
              canonicaliseTurns steps turns (moveComponent length path (write + 1) read)
                (read + length) (write + 1 + length)

def syscallCanonicalisePath (steps : ℕ) (path : Bytes) : Option Bytes :=
  (canonicaliseTurns steps steps path 0 0).map fun (path, write) ↦
    if write = 0 then Function.update (Function.update path 0 (byteOf '/')) 1 0
    else Function.update path write 0

/-! ## A path of a caller -/

def joinBytes : List UInt8 → List UInt8 → Option (List UInt8)
  | joined, [] => some joined
  | joined, c :: path =>
      if syscallPathMaximum ≤ joined.length then none else joinBytes (joined ++ [c]) path

def joinPath (directory path : List UInt8) : Option (List UInt8) :=
  if directory = [] ∨ directory.getLast? ≠ some (byteOf '/') then
    if syscallPathMaximum ≤ directory.length then none
    else joinBytes (directory ++ [byteOf '/']) path
  else joinBytes directory path

/-- `SyscallCopyUserPath`, where the process that is running has a working directory. -/
def syscallCopyUserPath (x : Running) (workingDirectory : Bytes) (address : Word)
    (destination : Bytes) (capacity : ℕ) : Word × Bytes :=
  let copied := syscallCopyUserString x address 0 capacity destination
  let destination := copied.storage
  if copied.answer = false then
    if syscallUserRangeIsReadable x address 1 then (syscallEnametoolong, destination)
    else (syscallEfault, destination)
  else if destination 0 ≠ byteOf '/' then
    match joinPath (stringAt workingDirectory 0 (syscallPathMaximum + 1))
        (stringAt destination 0 capacity) with
    | none => (syscallEnametoolong, destination)
    | some joined =>
        if capacity ≤ joined.length then (syscallEnametoolong, destination)
        else (syscallOk, splice destination 0 (joined.length + 1) fun i ↦ joined.getD i 0)
  else (syscallOk, destination)

def storePath (path : Bytes) : ℕ → ℕ → Bytes → Bytes
  | 0, _, workingDirectory => workingDirectory
  | left + 1, index, workingDirectory =>
      let workingDirectory := Function.update workingDirectory index (path index)
      if path index = 0 then workingDirectory else storePath path left (index + 1) workingDirectory

/-- `SyscallDoChangeDirectory`, of a process.  `stat` answers for `VfsStat`: a refusal, or whether
the path names a directory.  No loop of the reduction takes more turns than the array has bytes. -/
def syscallDoChangeDirectory (stat : List UInt8 → Except Word Bool) (x : Running)
    (workingDirectory : Bytes) (address : Word) (path : Bytes) : Option (Word × Bytes) :=
  let (copied, path) := syscallCopyUserPath x workingDirectory address path (syscallPathMaximum + 1)
  if copied ≠ syscallOk then some (copied, workingDirectory)
  else
    (syscallCanonicalisePath (syscallPathMaximum + 1) path).map fun path ↦
      match stat (stringAt path 0 (syscallPathMaximum + 1)) with
      | .error refusal => (refusal, workingDirectory)
      | .ok false => (syscallEnotdir, workingDirectory)
      | .ok true => (syscallOk, storePath path (syscallPathMaximum + 1) 0 workingDirectory)

/-! ## Strings in an array -/

/-- `/`, `.` and `..`. -/
def pathForm : PathForm UInt8 := ⟨byteOf '/', [byteOf '.'], [byteOf '.', byteOf '.']⟩

def StandsAt (path : Bytes) : ℕ → List UInt8 → Prop
  | read, [] => path read = 0
  | read, c :: rest => path read = c ∧ c ≠ 0 ∧ StandsAt path (read + 1) rest

variable {path after : Bytes} {read write steps turns length : ℕ} {rest component string : List UInt8}
  {stack : List (List UInt8)}

theorem StandsAt.drop (h : StandsAt path read (component ++ rest)) :
    StandsAt path (read + component.length) rest := by
  induction component generalizing read with
  | nil => exact h
  | cons c component ih =>
      rw [List.length_cons, Nat.add_comm component.length, ← Nat.add_assoc]
      exact ih h.2.2

theorem StandsAt.congr (h : StandsAt path read rest) (hsame : ∀ i, read ≤ i → after i = path i) :
    StandsAt after read rest := by
  induction rest generalizing read with
  | nil => exact (hsame read le_rfl).trans h
  | cons c rest ih =>
      exact ⟨(hsame read le_rfl).trans h.1, h.2.1,
        ih h.2.2 fun i hi ↦ hsame i (Nat.le_of_succ_le hi)⟩

theorem StandsAt.getElem (h : StandsAt path read rest) {i : ℕ} (hi : i < rest.length) :
    path (read + i) = rest[i] := by
  induction rest generalizing read i with
  | nil => exact absurd hi (Nat.not_lt_zero i)
  | cons c rest ih =>
      cases i with
      | zero => exact h.1
      | succ i =>
          rw [show read + (i + 1) = read + 1 + i by omega]
          exact ih h.2.2 (Nat.lt_of_succ_lt_succ hi)

theorem StandsAt.end (h : StandsAt path read rest) : path (read + rest.length) = 0 := by
  have hend : StandsAt path (read + rest.length) [] := StandsAt.drop (by rwa [List.append_nil])
  exact hend

theorem StandsAt.zero_not_mem (h : StandsAt path read rest) : 0 ∉ rest := by
  induction rest generalizing read with
  | nil => exact List.not_mem_nil
  | cons c rest ih => simpa [eq_comm, h.2.1] using ih h.2.2

theorem standsAt_of_getElem (hzero : 0 ∉ rest)
    (hbytes : ∀ i, (hi : i < rest.length) → path (read + i) = rest[i])
    (hend : path (read + rest.length) = 0) : StandsAt path read rest := by
  induction rest generalizing read with
  | nil => exact hend
  | cons c rest ih =>
      obtain ⟨hc, hzero⟩ := not_or.mp (mt List.mem_cons.mpr hzero)
      refine ⟨hbytes 0 (Nat.zero_lt_succ _), Ne.symm hc, ih hzero (fun i hi ↦ ?_) ?_⟩
      · rw [Nat.add_assoc, Nat.add_comm 1]
        exact hbytes (i + 1) (Nat.succ_lt_succ hi)
      · rwa [List.length_cons, Nat.add_comm rest.length, ← Nat.add_assoc] at hend

/-! ## The loops of the reduction -/

theorem skipSeparators_eq (h : StandsAt path read rest) (hsteps : rest.length < steps) :
    skipSeparators path steps read =
      some (read + (rest.takeWhile (· = byteOf '/')).length) := by
  induction rest generalizing read steps with
  | nil =>
      obtain ⟨steps, rfl⟩ := Nat.exists_eq_succ_of_ne_zero (Nat.ne_of_gt hsteps)
      have hend : path read ≠ byteOf '/' := by
        rw [show path read = 0 from h]
        decide
      simp [skipSeparators, hend]
  | cons c rest ih =>
      obtain ⟨steps, rfl⟩ := Nat.exists_eq_succ_of_ne_zero (Nat.ne_of_gt (Nat.zero_lt_of_lt hsteps))
      by_cases hc : c = byteOf '/'
      · rw [skipSeparators, if_pos (h.1.trans hc), ih h.2.2 (Nat.lt_of_succ_lt_succ hsteps)]
        simp [hc]
        omega
      · simp [skipSeparators, h.1, hc]

theorem componentLength_eq (h : StandsAt path (read + length) rest) (hsteps : rest.length < steps) :
    componentLength path read steps length =
      some (length + (rest.takeWhile (· ≠ byteOf '/')).length) := by
  induction rest generalizing length steps with
  | nil =>
      obtain ⟨steps, rfl⟩ := Nat.exists_eq_succ_of_ne_zero (Nat.ne_of_gt hsteps)
      have hend : path (read + length) = 0 := h
      simp [componentLength, hend]
  | cons c rest ih =>
      obtain ⟨steps, rfl⟩ := Nat.exists_eq_succ_of_ne_zero (Nat.ne_of_gt (Nat.zero_lt_of_lt hsteps))
      by_cases hc : c = byteOf '/'
      · simp [componentLength, h.1, hc]
      · rw [componentLength, if_pos ⟨h.1.trans_ne h.2.1, h.1.trans_ne hc⟩,
          ih h.2.2 (Nat.lt_of_succ_lt_succ hsteps)]
        simp [hc]
        omega

theorem backUp_eq {names : ℕ} (hbytes : ∀ i < length, path (names + 1 + i) ≠ byteOf '/')
    (hseparator : path names = byteOf '/') : backUp path (names + 1 + length) = names + 1 := by
  induction length with
  | zero => simp [backUp, hseparator]
  | succ length ih =>
      rw [← Nat.add_assoc, backUp, if_pos (hbytes length (Nat.lt_succ_self _)),
        ih fun i hi ↦ hbytes i (Nat.lt_succ_of_lt hi)]

theorem moveComponent_eq (path : Bytes) (hle : write ≤ read) (length i : ℕ) :
    moveComponent length path write read i =
      if write ≤ i ∧ i < write + length then path (read + (i - write)) else path i := by
  induction length generalizing path write read with
  | zero =>
      rw [moveComponent, if_neg]
      omega
  | succ length ih =>
      rw [moveComponent, ih _ (Nat.succ_le_succ hle)]
      by_cases hfirst : i = write
      · subst hfirst
        rw [if_neg (by omega), if_pos (by omega), Function.update_self, Nat.sub_self, Nat.add_zero]
      by_cases hmoved : write + 1 ≤ i ∧ i < write + 1 + length
      · rw [if_pos hmoved, if_pos (by omega), Function.update_of_ne (by omega)]
        congr 1
        omega
      · rw [if_neg hmoved, if_neg (by omega), Function.update_of_ne hfirst]

/-! ## One component -/

structure Reducing (path : Bytes) (read write : ℕ) (stack : List (List UInt8)) (rest : List UInt8) :
    Prop where
  stands : StandsAt path read rest
  plain : ∀ name ∈ stack, pathForm.Plain name
  zero : 0 ∉ pathForm.written stack
  length : (pathForm.written stack).length = write
  written : ∀ i, (hi : i < (pathForm.written stack).length) → path i = (pathForm.written stack)[i]
  le : write ≤ read

theorem Reducing.skip (h : Reducing path read write stack (component ++ rest)) :
    Reducing path (read + component.length) write stack rest :=
  { stands := h.stands.drop
    plain := h.plain
    zero := h.zero
    length := h.length
    written := h.written
    le := h.le.trans (Nat.le_add_right ..) }

theorem Reducing.up (h : Reducing path read write stack rest) :
    Reducing path read (backUp path write - 1) stack.dropLast rest := by
  have hlength := h.length
  have hwritten := h.written
  have hzero := h.zero
  rcases List.eq_nil_or_concat stack with rfl | ⟨names, name, rfl⟩
  · obtain rfl : 0 = write := by simpa using hlength
    simpa [backUp] using h
  have hname := h.plain name (by simp)
  rw [List.concat_eq_append] at hwritten hlength hzero ⊢
  rw [PathForm.written_append, List.length_append, List.length_cons] at hlength
  simp only [PathForm.written_append] at hwritten hzero
  have hback : backUp path write = (pathForm.written names).length + 1 := by
    rw [← hlength, Nat.add_comm name.length, ← Nat.add_assoc]
    refine backUp_eq (fun i hi ↦ ?_) ?_
    · rw [hwritten _ (by simp; omega), List.getElem_append_right (by omega)]
      intro heq
      refine hname.separator ?_
      rw [show pathForm.separator = byteOf '/' from rfl, ← heq]
      simp [show (pathForm.written names).length + 1 + i - (pathForm.written names).length = i + 1
        by omega]
    · rw [hwritten _ (by simp), List.getElem_append_right le_rfl]
      simp
      rfl
  exact
    { stands := h.stands
      plain := fun other hother ↦ h.plain other (by
        rw [List.dropLast_concat] at hother
        simp [hother])
      zero := by
        rw [List.dropLast_concat]
        exact fun hmem ↦ hzero (List.mem_append_left _ hmem)
      length := by rw [List.dropLast_concat, hback, Nat.add_sub_cancel]
      written := by
        rw [List.dropLast_concat]
        intro i hi
        rw [hwritten i (by simp; omega), List.getElem_append_left hi]
      le := by
        have hle := h.le
        omega }

theorem Reducing.name (h : Reducing path read write stack (component ++ rest))
    (hgap : write + 1 ≤ read) (hplain : pathForm.Plain component) :
    let after := moveComponent component.length (Function.update path write (byteOf '/')) (write + 1) read
    Reducing after (read + component.length) (write + 1 + component.length) (stack ++ [component])
        rest ∧ ∀ i, read + component.length ≤ i → after i = path i := by
  intro after
  have hafter : ∀ i, after i = if write + 1 ≤ i ∧ i < write + 1 + component.length then
      Function.update path write (byteOf '/') (read + (i - (write + 1)))
      else Function.update path write (byteOf '/') i := moveComponent_eq _ hgap _
  have hsame : ∀ i, read + component.length ≤ i → after i = path i := by
    intro i hi
    rw [hafter, if_neg (by omega), Function.update_of_ne (by omega)]
  have hlength := h.length
  refine ⟨?_, hsame⟩
  exact
    { stands := h.stands.drop.congr hsame
      plain := fun name hname ↦ by
        rcases List.mem_append.mp hname with hname | hname
        · exact h.plain name hname
        · rwa [List.mem_singleton.mp hname]
      zero := by
        have hzero : 0 ∉ component := fun hmem ↦
          h.stands.zero_not_mem (List.mem_append_left _ hmem)
        have hseparator : (0 : UInt8) ≠ pathForm.separator := by decide
        simp [PathForm.written_append, h.zero, hzero, hseparator]
      length := by
        rw [PathForm.written_append, List.length_append, List.length_cons]
        omega
      written := by
        intro i hi
        simp only [PathForm.written_append] at hi ⊢
        rw [List.length_append, List.length_cons] at hi
        rw [hafter]
        rcases lt_trichotomy i write with hlt | rfl | hgt
        · rw [if_neg (by omega), Function.update_of_ne (by omega),
            List.getElem_append_left (by omega), h.written]
        · rw [if_neg (by omega), Function.update_self, List.getElem_append_right (by omega)]
          simp [hlength]
          rfl
        · rw [if_pos (by omega), Function.update_of_ne (by omega),
            List.getElem_append_right (by omega)]
          obtain ⟨place, rfl⟩ : ∃ place, i = write + 1 + place := ⟨i - (write + 1), by omega⟩
          rw [h.stands.getElem (by simp; omega)]
          simp only [hlength, Nat.add_sub_cancel_left,
            show write + 1 + place - write = place + 1 by omega, List.getElem_cons_succ]
          exact List.getElem_append_left _
      le := by omega }

/-! ## The whole of a path -/

theorem exists_component (hhead : rest.head? = some (byteOf '/')) :
    ∃ separators component left, rest = separators ++ (component ++ left) ∧
      (∀ c ∈ separators, c = byteOf '/') ∧ separators ≠ [] ∧ byteOf '/' ∉ component ∧
      (component = [] → left = []) ∧ (left = [] ∨ left.head? = some (byteOf '/')) ∧
      rest.takeWhile (· = byteOf '/') = separators ∧
      (component ++ left).takeWhile (· ≠ byteOf '/') = component := by
  obtain ⟨others, rfl⟩ := List.head?_eq_some_iff.mp hhead
  have htail := List.head?_dropWhile_not (· = byteOf '/') (byteOf '/' :: others)
  have hrest := List.takeWhile_append_dropWhile (p := (· = byteOf '/')) (l := byteOf '/' :: others)
  generalize (byteOf '/' :: others).dropWhile (· = byteOf '/') = tail at htail hrest
  have hleft := List.head?_dropWhile_not (· ≠ byteOf '/') tail
  have hsplit := List.takeWhile_append_dropWhile (p := (· ≠ byteOf '/')) (l := tail)
  refine ⟨_, tail.takeWhile (· ≠ byteOf '/'), tail.dropWhile (· ≠ byteOf '/'), by rw [hsplit, hrest],
    fun c hc ↦ by simpa using List.all_eq_true.mp List.all_takeWhile c hc, by simp,
    fun hc ↦ by simpa using List.all_eq_true.mp List.all_takeWhile _ hc, fun hempty ↦ ?_, ?_, rfl, by rw [hsplit]⟩
  · cases tail with
    | nil => rfl
    | cons c tail =>
        have hc : c ≠ byteOf '/' := by simpa using htail
        simp [hc] at hempty
  · cases hdrop : tail.dropWhile (· ≠ byteOf '/') with
    | nil => exact Or.inl rfl
    | cons c left =>
        rw [hdrop] at hleft
        exact Or.inr (by simpa using hleft)

theorem isHere_iff (hfirst : ∀ i, (hi : i < component.length) → path (read + i) = component[i]) :
    component.length = 1 ∧ path read = byteOf '.' ↔ component = pathForm.here := by
  constructor
  · rintro ⟨hone, hdot⟩
    obtain ⟨c, rfl⟩ := List.length_eq_one_iff.mp hone
    have hc : path read = c := hfirst 0 (by simp)
    rw [← hc, hdot]
    rfl
  · rintro rfl
    exact ⟨rfl, hfirst 0 (by decide)⟩

theorem isUp_iff (hfirst : ∀ i, (hi : i < component.length) → path (read + i) = component[i]) :
    component.length = 2 ∧ path read = byteOf '.' ∧ path (read + 1) = byteOf '.' ↔
      component = pathForm.up := by
  constructor
  · rintro ⟨htwo, hdot, hdot'⟩
    obtain ⟨c, d, rfl⟩ := List.length_eq_two.mp htwo
    have hc : path read = c := hfirst 0 (by simp)
    have hd : path (read + 1) = d := hfirst 1 (by simp)
    rw [← hc, ← hd, hdot, hdot']
    rfl
  · rintro rfl
    exact ⟨rfl, hfirst 0 (by decide), hfirst 1 (by decide)⟩

theorem canonicaliseTurns_eq (h : Reducing path read write stack rest)
    (hhead : rest = [] ∨ rest.head? = some (byteOf '/'))
    (hsteps : rest.length < steps) (hturns : rest.length < turns) :
    ∃ after write', canonicaliseTurns steps turns path read write = some (after, write') ∧
      Reducing after (read + rest.length) write' (pathForm.pushAll stack rest) [] ∧
      ∀ i, read + rest.length ≤ i → after i = path i := by
  induction hlength : rest.length using Nat.strong_induction_on
    generalizing path read write stack rest turns with
  | _ n ih =>
  subst hlength
  obtain ⟨turns, rfl⟩ := Nat.exists_eq_succ_of_ne_zero (Nat.ne_of_gt (Nat.zero_lt_of_lt hturns))
  rcases hhead with rfl | hhead
  · have hend : path read = 0 := h.stands
    exact ⟨path, write, by rw [canonicaliseTurns, if_pos hend], by simpa using h, fun _ _ ↦ rfl⟩
  obtain ⟨separators, component, left, rfl, hseparators, hsome, hcomponent, hlast, hleft, htake,
    hmeasure⟩ := exists_component hhead
  have hskipped := h.skip
  have hmore : 0 < separators.length := List.length_pos_of_ne_nil hsome
  simp only [List.length_append] at hsteps hturns ih ⊢
  have hnonzero : path read ≠ 0 := by
    obtain ⟨others, hothers⟩ := List.head?_eq_some_iff.mp hhead
    have hstands := h.stands
    rw [hothers] at hstands
    rw [hstands.1]
    decide
  have hlength : componentLength path (read + separators.length) steps 0 = some component.length := by
    have hstands : StandsAt path (read + separators.length + 0) (component ++ left) := hskipped.stands
    have hroom : (component ++ left).length < steps := by
      rw [List.length_append]
      omega
    have hmeasured := componentLength_eq hstands hroom
    rwa [hmeasure, Nat.zero_add] at hmeasured
  have hpush : pathForm.pushAll stack (separators ++ (component ++ left)) =
      pathForm.pushAll (pathForm.push stack component) left :=
    (PathForm.pushAll_separators hseparators).trans (PathForm.pushAll_component hcomponent hleft)
  rw [canonicaliseTurns, if_neg hnonzero,
    skipSeparators_eq h.stands (by simp only [List.length_append]; omega), htake, Option.bind_some,
    hlength, Option.bind_some, hpush]
  have hfirst : ∀ i, (hi : i < component.length) → path (read + separators.length + i) = component[i] := by
    intro i hi
    rw [hskipped.stands.getElem (by simp only [List.length_append]; omega), List.getElem_append_left hi]
  -- The turns that are left begin past the component.
  have hrest : ∀ path' write' stack', Reducing path' (read + separators.length + component.length)
      write' stack' left → (∀ i, read + separators.length + component.length ≤ i → path' i = path i) →
      ∃ after final, canonicaliseTurns steps turns path' (read + separators.length + component.length)
          write' = some (after, final) ∧
        Reducing after (read + (separators.length + (component.length + left.length))) final
          (pathForm.pushAll stack' left) [] ∧
        ∀ i, read + (separators.length + (component.length + left.length)) ≤ i → after i = path i := by
    intro path' write' stack' hreducing hsame
    have hleftSteps : left.length < steps := by omega
    have hleftTurns : left.length < turns := by omega
    obtain ⟨after, final, hturn, hafter, hkept⟩ :=
      ih left.length (by omega) hreducing hleft hleftSteps hleftTurns rfl
    rw [← Nat.add_assoc, ← Nat.add_assoc]
    refine ⟨after, final, hturn, hafter, fun i hi ↦ ?_⟩
    rw [hkept i hi, hsame i (by omega)]
  by_cases hempty : component = []
  · obtain rfl := hlast hempty
    subst hempty
    refine ⟨path, write, by simp, ?_, fun _ _ ↦ rfl⟩
    simpa using hskipped
  rw [if_neg (mt List.length_eq_zero_iff.mp hempty)]
  by_cases hisHere : component = pathForm.here
  · have hstack : pathForm.push stack component = stack := by simp [PathForm.push, hisHere]
    rw [if_pos ((isHere_iff hfirst).mpr hisHere), hstack]
    exact hrest _ _ _ hskipped.skip fun _ _ ↦ rfl
  rw [if_neg (mt (isHere_iff hfirst).mp hisHere)]
  by_cases hisUp : component = pathForm.up
  · have hstack : pathForm.push stack component = stack.dropLast := by
      simp [PathForm.push, hisUp, show pathForm.up ≠ pathForm.here by decide,
        show pathForm.up ≠ [] by decide]
    rw [if_pos ((isUp_iff hfirst).mpr hisUp), hstack]
    exact hrest _ _ _ hskipped.skip.up fun _ _ ↦ rfl
  rw [if_neg (mt (isUp_iff hfirst).mp hisUp)]
  have hplain : pathForm.Plain component := ⟨hempty, hisHere, hisUp, hcomponent⟩
  have hgap : write + 1 ≤ read + separators.length := by
    have hle := h.le
    omega
  obtain ⟨hreducing, hsame⟩ := hskipped.name hgap hplain
  rw [PathForm.push_plain hplain]
  exact hrest _ _ _ hreducing hsame

def canonicalPath (path : List UInt8) : List UInt8 := pathForm.canonical path

theorem syscallCanonicalisePath_eq (h : StandsAt path 0 string)
    (habsolute : string.head? = some (byteOf '/')) (hsteps : string.length < steps) :
    ∃ after, syscallCanonicalisePath steps path = some after ∧ StandsAt after 0 (canonicalPath string) ∧
      (canonicalPath string).length ≤ string.length ∧
      ∀ i, string.length < i → after i = path i := by
  have hstart : Reducing path 0 0 [] string :=
    { stands := h
      plain := nofun
      zero := by simp
      length := rfl
      written := nofun
      le := le_rfl }
  obtain ⟨after, write, hturns, hreducing, hsame⟩ :=
    canonicaliseTurns_eq hstart (Or.inr habsolute) hsteps hsteps
  rw [Nat.zero_add] at hreducing hsame
  have hlength := hreducing.length
  have hpositive : 0 < string.length := by
    obtain ⟨others, rfl⟩ := List.head?_eq_some_iff.mp habsolute
    simp
  rw [syscallCanonicalisePath, hturns, Option.map_some, canonicalPath, PathForm.canonical_eq]
  refine ⟨_, rfl, ?_⟩
  dsimp only
  have hle := hreducing.le
  by_cases hempty : pathForm.pushAll [] string = []
  · obtain rfl : 0 = write := by simpa [hempty] using hlength
    rw [if_pos rfl, if_pos hempty]
    refine ⟨⟨by simp; rfl, by decide, by simp [StandsAt]⟩, hpositive, fun i hi ↦ ?_⟩
    rw [Function.update_of_ne (by omega), Function.update_of_ne (by omega), hsame i hi.le]
  · have hwrite : write ≠ 0 := by
      rw [← hlength, PathForm.written_eq _ hempty]
      exact Nat.succ_ne_zero _
    rw [if_neg hwrite, if_neg hempty]
    refine ⟨standsAt_of_getElem hreducing.zero (fun i hi ↦ ?_) ?_, hlength.trans_le hle, fun i hi ↦ ?_⟩
    · rw [Nat.zero_add, Function.update_of_ne (by omega), hreducing.written i hi]
    · rw [Nat.zero_add, hlength, Function.update_self]
    · rw [Function.update_of_ne (by omega), hsame i hi.le]

/-! ## The path of a call -/

/-- The path itself where it is absolute, and otherwise the directory, one separator and the path.
The root is its own separator. -/
def absolutePath (directory path : List UInt8) : List UInt8 :=
  if path.head? = some (byteOf '/') then path
  else if directory = [byteOf '/'] then byteOf '/' :: path
  else directory ++ byteOf '/' :: path

variable {x : Running} {address : Word} {directory user : List UInt8}
  {workingDirectory destination : Bytes}

theorem standsAt_iff : StandsAt path read rest ↔
    0 ∉ rest ∧ slice path read (rest.length + 1) = rest ++ [0] := by
  constructor
  · intro h
    refine ⟨h.zero_not_mem, List.ext_getElem (by simp) fun i hi hi' ↦ ?_⟩
    have hslice : (slice path read (rest.length + 1))[i] = path (read + i) := by simp [slice]
    rw [hslice]
    by_cases hlast : i < rest.length
    · rw [h.getElem hlast, List.getElem_append_left hlast]
    · obtain rfl : i = rest.length := by
        simp at hi
        omega
      simpa using h.end
  · rintro ⟨hzero, hslice⟩
    have hbyte : ∀ i, i < rest.length + 1 → path (read + i) = (rest ++ [0]).getD i 0 := by
      intro i hi
      rw [← hslice, getD_slice path read hi]
    refine standsAt_of_getElem hzero (fun i hi ↦ ?_) ?_
    · rw [hbyte i (Nat.lt_succ_of_lt hi), List.getD_eq_getElem?_getD, List.getElem?_append_left hi,
        List.getElem?_eq_getElem hi, Option.getD_some]
    · rw [hbyte _ (Nat.lt_succ_self _)]
      simp

theorem joinBytes_eq (hroom : directory.length ≤ syscallPathMaximum) (user : List UInt8) :
    joinBytes directory user =
      if directory.length + user.length ≤ syscallPathMaximum then some (directory ++ user)
      else none := by
  induction user generalizing directory with
  | nil => simp [joinBytes, hroom]
  | cons c user ih =>
      by_cases hfull : syscallPathMaximum ≤ directory.length
      · rw [joinBytes, if_pos hfull, if_neg (by simp; omega)]
      · rw [joinBytes, if_neg hfull, ih (by simp; omega)]
        simp [Nat.add_assoc, Nat.add_comm 1]

theorem getLast?_canonicalPath (string : List UInt8) :
    (canonicalPath string).getLast? = some (byteOf '/') ↔ canonicalPath string = [byteOf '/'] := by
  refine ⟨fun hlast ↦ ?_, fun hroot ↦ by simp [hroot]⟩
  have hplain := PathForm.forall_plain_stack pathForm string
  rw [canonicalPath, PathForm.canonical_eq] at hlast ⊢
  generalize pathForm.pushAll [] string = stack at hplain hlast ⊢
  split_ifs at hlast ⊢ with hempty
  · rfl
  · rcases List.eq_nil_or_concat stack with rfl | ⟨names, name, rfl⟩
    · exact absurd rfl hempty
    · have hname := hplain name (by simp)
      rw [List.concat_eq_append, PathForm.written_append,
        List.getLast?_append_of_ne_nil _ (List.cons_ne_nil _ _),
        List.getLast?_cons, List.getLast?_eq_some_getLast hname.ne_nil] at hlast
      have heq : name.getLast hname.ne_nil = pathForm.separator := Option.some.inj hlast
      exact absurd (heq ▸ List.getLast_mem hname.ne_nil) hname.separator

theorem joinPath_eq (hroom : (canonicalPath string).length ≤ syscallPathMaximum)
    (hrelative : user.head? ≠ some (byteOf '/')) :
    joinPath (canonicalPath string) user =
      if (absolutePath (canonicalPath string) user).length ≤ syscallPathMaximum then
        some (absolutePath (canonicalPath string) user)
      else none := by
  have hnonempty : canonicalPath string ≠ [] := List.cons_ne_nil _ _
  rw [absolutePath, if_neg hrelative, joinPath]
  by_cases hroot : canonicalPath string = [byteOf '/']
  · rw [hroot] at hroom ⊢
    rw [if_neg (by simp), joinBytes_eq hroom, if_pos rfl]
    simp [Nat.add_comm 1]
  · rw [if_pos (Or.inr (mt (getLast?_canonicalPath string).mp hroot)), if_neg hroot]
    by_cases hfull : syscallPathMaximum ≤ (canonicalPath string).length
    · rw [if_pos hfull, if_neg (by simp; omega)]
    · rw [if_neg hfull, joinBytes_eq (by simp; omega)]
      simp [Nat.add_assoc, Nat.add_comm 1]

theorem length_le_absolutePath (directory user : List UInt8) :
    user.length ≤ (absolutePath directory user).length := by
  unfold absolutePath
  split_ifs <;> simp
  omega

theorem zero_not_mem_absolutePath (hdirectory : 0 ∉ directory) (huser : 0 ∉ user) :
    0 ∉ absolutePath directory user := by
  have hseparator : (0 : UInt8) ≠ byteOf '/' := by decide
  unfold absolutePath
  split_ifs <;> simp [hdirectory, huser, hseparator]

theorem standsAt_splice (hzero : 0 ∉ string) (destination : Bytes) :
    StandsAt (splice destination 0 (string.length + 1) fun i ↦ string.getD i 0) 0 string := by
  refine standsAt_of_getElem hzero (fun i hi ↦ ?_) ?_
  · rw [Nat.zero_add, splice_of_mem (Nat.zero_le i) (by omega)]
    simp [hi]
  · rw [Nat.zero_add, splice_of_mem (Nat.zero_le _) (by omega)]
    simp

theorem syscallCopyUserPath_eq (hdirectory : StandsAt workingDirectory 0 (canonicalPath string))
    (hroom : (canonicalPath string).length ≤ syscallPathMaximum) (huser : StringAt x address 0 user)
    (destination : Bytes) :
    let made := absolutePath (canonicalPath string) user
    let answer := syscallCopyUserPath x workingDirectory address destination (syscallPathMaximum + 1)
    if made.length ≤ syscallPathMaximum then answer.1 = syscallOk ∧ StandsAt answer.2 0 made
    else answer.1 = syscallEnametoolong := by
  intro made answer
  have hanswer : answer = syscallCopyUserPath x workingDirectory address destination
    (syscallPathMaximum + 1) := rfl
  rw [syscallCopyUserPath] at hanswer
  by_cases hcopied : user.length < syscallPathMaximum + 1
  · obtain ⟨hwhole, hslice, -⟩ := syscallCopyUserString_copied 0 destination huser hcopied
    have hstands := standsAt_iff.mpr ⟨huser.zero_not_mem, hslice⟩
    have hpath := stringAt_eq hslice huser.zero_not_mem hcopied
    have hstored : stringAt workingDirectory 0 (syscallPathMaximum + 1) = canonicalPath string := by
      obtain ⟨hzero, hslice⟩ := standsAt_iff.mp hdirectory
      exact stringAt_eq hslice hzero (Nat.lt_succ_of_le hroom)
    rw [if_neg (by simp [hwhole]), hpath, hstored] at hanswer
    by_cases habsolute : user.head? = some (byteOf '/')
    · obtain ⟨others, rfl⟩ := List.head?_eq_some_iff.mp habsolute
      have hmade : made = byteOf '/' :: others := if_pos habsolute
      rw [if_neg (not_not.mpr hstands.1)] at hanswer
      rw [if_pos (by rw [hmade]; omega), hanswer, hmade]
      exact ⟨rfl, hstands⟩
    · have hfirst : (syscallCopyUserString x address 0 (syscallPathMaximum + 1) destination).storage 0 ≠
          byteOf '/' := by
        cases user with
        | nil =>
            have hend : (syscallCopyUserString x address 0 (syscallPathMaximum + 1)
              destination).storage 0 = 0 := hstands
            rw [hend]
            decide
        | cons c user => simpa [hstands.1] using habsolute
      rw [if_pos hfirst, joinPath_eq hroom habsolute] at hanswer
      by_cases hfits : made.length ≤ syscallPathMaximum
      · have hroomy : ¬syscallPathMaximum + 1 ≤ (absolutePath (canonicalPath string) user).length :=
          Nat.not_le_of_lt (Nat.lt_succ_of_le hfits)
        rw [if_pos hfits] at hanswer ⊢
        simp only [if_neg hroomy] at hanswer
        rw [hanswer]
        exact ⟨rfl, standsAt_splice
          (zero_not_mem_absolutePath hdirectory.zero_not_mem huser.zero_not_mem) _⟩
      · rw [if_neg hfits] at hanswer ⊢
        rw [hanswer]
  · have hlong : ¬made.length ≤ syscallPathMaximum := by
      have hle := length_le_absolutePath (canonicalPath string) user
      change user.length ≤ made.length at hle
      omega
    have hfailed : (syscallCopyUserString x address 0 (syscallPathMaximum + 1) destination).answer =
        false := by
      by_contra hwhole
      obtain ⟨other, hother, hshort⟩ :=
        exists_of_syscallCopyUserString (Bool.eq_true_of_not_eq_false hwhole)
      exact hcopied (huser.unique hother ▸ hshort)
    have hreadable : syscallUserRangeIsReadable x address 1 = true := by
      cases user with
      | nil => simpa [MayRead] using huser.1
      | cons c user => simpa [MayRead] using huser.1
    rw [if_pos hfailed, if_pos hreadable] at hanswer
    rw [if_neg hlong, hanswer]

theorem exists_of_syscallCopyUserPath {capacity : ℕ}
    (h : (syscallCopyUserPath x workingDirectory address destination capacity).1 = syscallOk) :
    ∃ user, StringAt x address 0 user := by
  rw [syscallCopyUserPath] at h
  by_cases hanswer : (syscallCopyUserString x address 0 capacity destination).answer = false
  · rw [if_pos hanswer] at h
    split_ifs at h
    · exact absurd h (show syscallEnametoolong ≠ syscallOk by decide)
    · exact absurd h (show syscallEfault ≠ syscallOk by decide)
  · obtain ⟨user, huser, -⟩ :=
      exists_of_syscallCopyUserString (Bool.eq_true_of_not_eq_false hanswer)
    exact ⟨user, huser⟩

/-! ## The directory that is stored -/

/-- A working directory, by how processes come by theirs: the first has the root, a child has its
parent's, and a call changes it. -/
inductive Stored : Bytes → Prop
  | root {workingDirectory : Bytes} (hseparator : workingDirectory 0 = byteOf '/')
      (hend : workingDirectory 1 = 0) : Stored workingDirectory
  | inherited {workingDirectory child : Bytes} (hparent : Stored workingDirectory)
      (hcopied : ∀ i ≤ syscallPathMaximum, child i = workingDirectory i) : Stored child
  | changed {workingDirectory changed : Bytes} {stat : List UInt8 → Except Word Bool} {x : Running}
      {address answer : Word} {path : Bytes} (hbefore : Stored workingDirectory)
      (hcall : syscallDoChangeDirectory stat x workingDirectory address path =
        some (answer, changed)) : Stored changed

def HoldsCanonical (workingDirectory : Bytes) (string : List UInt8) : Prop :=
  string.head? = some (byteOf '/') ∧ StandsAt workingDirectory 0 (canonicalPath string) ∧
    (canonicalPath string).length ≤ syscallPathMaximum

theorem storePath_eq {left index : ℕ} (h : StandsAt path index rest) (hroom : rest.length < left)
    (workingDirectory : Bytes) :
    StandsAt (storePath path left index workingDirectory) index rest ∧
      ∀ i < index, storePath path left index workingDirectory i = workingDirectory i := by
  induction rest generalizing left index workingDirectory with
  | nil =>
      obtain ⟨left, rfl⟩ := Nat.exists_eq_succ_of_ne_zero (Nat.ne_of_gt hroom)
      have hend : path index = 0 := h
      rw [storePath, if_pos hend]
      exact ⟨(Function.update_self ..).trans hend, fun i hi ↦ Function.update_of_ne hi.ne _ _⟩
  | cons c rest ih =>
      obtain ⟨left, rfl⟩ := Nat.exists_eq_succ_of_ne_zero (Nat.ne_of_gt (Nat.zero_lt_of_lt hroom))
      rw [storePath, if_neg (h.1.trans_ne h.2.1)]
      obtain ⟨hstands, hsame⟩ := ih h.2.2 (Nat.lt_of_succ_lt_succ hroom)
        (Function.update workingDirectory index (path index))
      refine ⟨⟨?_, h.2.1, hstands⟩, fun i hi ↦ ?_⟩
      · rw [hsame index (Nat.lt_succ_self _), Function.update_self, h.1]
      · rw [hsame i (Nat.lt_succ_of_lt hi), Function.update_of_ne hi.ne]

theorem head?_absolutePath (directory user : List UInt8) (hdirectory : directory.head? = some (byteOf '/')) :
    (absolutePath directory user).head? = some (byteOf '/') := by
  obtain ⟨others, rfl⟩ := List.head?_eq_some_iff.mp hdirectory
  unfold absolutePath
  split_ifs with habsolute <;> simp [habsolute]

theorem Stored.holdsCanonical (h : Stored workingDirectory) :
    ∃ string, HoldsCanonical workingDirectory string := by
  induction h with
  | root hseparator hend =>
      have hroot : canonicalPath [byteOf '/'] = [byteOf '/'] := by
        rw [canonicalPath, PathForm.canonical_eq]
        simp [show pathForm.pushAll [] [byteOf '/'] = [] from
          PathForm.pushAll_separator pathForm [] []]
        rfl
      refine ⟨[byteOf '/'], rfl, ?_, by rw [hroot]; decide⟩
      rw [hroot]
      exact ⟨hseparator, by decide, hend⟩
  | inherited _ hcopied ih =>
      obtain ⟨string, hhead, hstands, hroom⟩ := ih
      refine ⟨string, hhead, standsAt_of_getElem hstands.zero_not_mem (fun i hi ↦ ?_) ?_, hroom⟩
      · rw [Nat.zero_add, hcopied i (by omega), ← hstands.getElem hi, Nat.zero_add]
      · rw [Nat.zero_add, hcopied _ hroom, ← hstands.end, Nat.zero_add]
  | @changed workingDirectory changed stat x address answer path _ hcall ih =>
      obtain ⟨string, hhead, hstands, hroom⟩ := ih
      have hkept : ∃ string, HoldsCanonical workingDirectory string := ⟨string, hhead, hstands, hroom⟩
      rw [syscallDoChangeDirectory] at hcall
      rcases hcopy : syscallCopyUserPath x workingDirectory address path (syscallPathMaximum + 1) with
        ⟨copied, made⟩
      simp only [hcopy] at hcall
      by_cases hok : copied = syscallOk
      · obtain ⟨user, huser⟩ := exists_of_syscallCopyUserPath (by rw [hcopy, hok])
        have hmade := syscallCopyUserPath_eq hstands hroom huser path
        simp only [hcopy, hok] at hmade
        rw [if_neg (not_not.mpr hok)] at hcall
        split_ifs at hmade with hfits
        · obtain ⟨-, hpath⟩ := hmade
          have habsolute := head?_absolutePath (canonicalPath string) user rfl
          obtain ⟨after, hafter, hcanonical, hshorter, -⟩ :=
            syscallCanonicalisePath_eq hpath habsolute (Nat.lt_succ_of_le hfits)
          have hshort := hshorter.trans hfits
          rw [hafter, Option.map_some, Option.some.injEq] at hcall
          split at hcall
          · exact (Prod.mk.inj hcall).2 ▸ hkept
          · exact (Prod.mk.inj hcall).2 ▸ hkept
          · obtain ⟨-, rfl⟩ := Prod.mk.inj hcall
            exact ⟨_, habsolute,
              (storePath_eq hcanonical (Nat.lt_succ_of_le hshort) workingDirectory).1, hshort⟩
        · exact absurd hmade (by decide)
      · rw [if_pos hok, Option.some.injEq] at hcall
        exact (Prod.mk.inj hcall).2 ▸ hkept

/-- Working directories are canonical: the reduction ends for every absolute path, leaves the
canonical form, which it then leaves as it is, and writes nothing past the terminator; and a call
is given the path itself or the directory with one separator and the path, unless that is longer
than a path may be. -/
theorem workingDirectory_canonical :
    (∀ path string steps, StandsAt path 0 string → string.head? = some (byteOf '/') →
      string.length < steps →
      ∃ after again, syscallCanonicalisePath steps path = some after ∧
        StandsAt after 0 (canonicalPath string) ∧ (∀ i, string.length < i → after i = path i) ∧
        syscallCanonicalisePath steps after = some again ∧
        StandsAt again 0 (canonicalPath string)) ∧
    ∀ workingDirectory x address user destination, Stored workingDirectory →
      StringAt x address 0 user →
      ∃ string, HoldsCanonical workingDirectory string ∧
        let made := absolutePath (canonicalPath string) user
        let answer :=
          syscallCopyUserPath x workingDirectory address destination (syscallPathMaximum + 1)
        if made.length ≤ syscallPathMaximum then answer.1 = syscallOk ∧ StandsAt answer.2 0 made
        else answer.1 = syscallEnametoolong := by
  constructor
  · intro path string steps hpath habsolute hsteps
    obtain ⟨after, hafter, hcanonical, hshorter, hsame⟩ :=
      syscallCanonicalisePath_eq hpath habsolute hsteps
    obtain ⟨again, hagain, hstands, -, -⟩ :=
      syscallCanonicalisePath_eq hcanonical rfl (hshorter.trans_lt hsteps)
    refine ⟨after, again, hafter, hcanonical, hsame, hagain, ?_⟩
    rwa [canonicalPath, canonicalPath, PathForm.canonical_canonical] at hstands
  · intro workingDirectory x address user destination hstored huser
    obtain ⟨string, hhead, hstands, hroom⟩ := hstored.holdsCanonical
    exact ⟨string, ⟨hhead, hstands, hroom⟩, syscallCopyUserPath_eq hstands hroom huser destination⟩

/-- A path with every kind of component. -/
theorem workingDirectory_canonical_etc :
    ∃ after, syscallCanonicalisePath 32 (splice (fun _ ↦ 0) 0 18 fun i ↦
        ("/bin/../etc/./x//".toList.map byteOf).getD i 0) = some after ∧
      StandsAt after 0 ("/etc/x".toList.map byteOf) := by
  obtain ⟨after, -, hafter, hstands, -⟩ := workingDirectory_canonical.1 _
    ("/bin/../etc/./x//".toList.map byteOf) 32 (standsAt_splice (by decide) fun _ ↦ 0) rfl (by decide)
  have hcanonical : canonicalPath ("/bin/../etc/./x//".toList.map byteOf) =
      "/etc/x".toList.map byteOf := by decide +kernel
  exact ⟨after, hafter, hcanonical ▸ hstands⟩

end OxysOS.Proc
