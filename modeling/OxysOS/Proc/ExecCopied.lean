import OxysOS.Proc.ArgumentLayout
import OxysOS.Proc.Syscall

/-!
# The vectors of a program that is to be executed

`kernel/arch/x86_64/syscall/syscall.c`: how the two vectors of `execve` are copied
out of the caller's memory.  A copy keeps the addresses of the caller's bytes that
it has read.  It is made of just those vectors that the caller may read and that
keep to the bounds, and reads nothing else of the caller's.
-/

namespace OxysOS.Proc

open OxysOS.Library OxysOS.Mm OxysOS.Exec Action

def syscallOk : Word := 0

/-- `ProcessArguments`, as it stands in memory: the strings in one block, and where
each of them begins in it. -/
structure ArgumentBlock where
  storage : Bytes
  storageUsed : ℕ
  argument : List ℕ
  environment : List ℕ

def ArgumentBlock.arguments (block : ArgumentBlock) : ProcessArguments :=
  let string (displacement : ℕ) : List UInt8 :=
    stringAt block.storage displacement (processArgumentBytesMaximum - displacement)
  ⟨block.argument.map string, block.environment.map string, block.storageUsed⟩

structure StringCopy where
  answer : Bool
  storage : Bytes
  reads : List Word

def userByte (x : Running) (address : Word) : UInt8 :=
  readIn x.process.space x.machine address.toNat

/-- The loop of `SyscallCopyUserString` -/
def copyUserBytes (x : Running) (address : Word) (destination : ℕ) :
    ℕ → ℕ → Bytes → StringCopy
  | 0, _, storage => ⟨false, Function.update storage destination 0, []⟩
  | remaining + 1, index, storage =>
      let source := address + BitVec.ofNat 64 index
      if syscallUserRangeIsReadable x source 1 = false then ⟨false, storage, []⟩
      else
        let byte := userByte x source
        let storage := Function.update storage (destination + index) byte
        if byte = 0 then ⟨true, storage, [source]⟩
        else
          let copy := copyUserBytes x address destination remaining (index + 1) storage
          { copy with reads := source :: copy.reads }

def syscallCopyUserString (x : Running) (address : Word) (destination capacity : ℕ)
    (storage : Bytes) : StringCopy :=
  if capacity = 0 then ⟨false, storage, []⟩
  else copyUserBytes x address destination capacity 0 (Function.update storage destination 0)

structure VectorCopy where
  answer : Word
  storage : Bytes
  storageUsed : ℕ
  displacement : List ℕ
  reads : List Word

def vectorSlot (vector : Word) (count : ℕ) : Word := vector + BitVec.ofNat 64 (8 * count)

def userWord (x : Running) (address : Word) : Word :=
  BitVec.ofNat 64 (readField (readIn x.process.space x.machine) address.toNat 8)

def wordAddresses (address : Word) : List Word :=
  (List.range 8).map fun i ↦ address + BitVec.ofNat 64 i

def copyUserSlot (x : Running) (vector : Word) (storage : Bytes) (storageUsed : ℕ)
    (displacement : List ℕ) (next : Word → VectorCopy) : VectorCopy :=
  let slot := vectorSlot vector displacement.length
  if syscallUserRangeIsReadable x slot 8 = false then
    ⟨syscallEfault, storage, storageUsed, displacement, []⟩
  else
    let string := userWord x slot
    let copy :=
      if string = 0 then ⟨syscallOk, storage, storageUsed, displacement, []⟩ else next string
    { copy with reads := wordAddresses slot ++ copy.reads }

/-- The loop of `SyscallCopyUserVector` -/
def copyUserVector (x : Running) (vector : Word) : ℕ → Bytes → ℕ → List ℕ → VectorCopy
  | 0, storage, storageUsed, displacement =>
      copyUserSlot x vector storage storageUsed displacement fun _ ↦
        ⟨BitVec.ofInt 64 syscallEinval, storage, storageUsed, displacement, []⟩
  | left + 1, storage, storageUsed, displacement =>
      copyUserSlot x vector storage storageUsed displacement fun string ↦
        let capacity := processArgumentBytesMaximum - storageUsed
        if capacity = 0 then
          ⟨BitVec.ofInt 64 syscallEinval, storage, storageUsed, displacement, []⟩
        else
          let copied := syscallCopyUserString x string storageUsed capacity storage
          if copied.answer = false then
            ⟨if syscallUserRangeIsReadable x string 1 then BitVec.ofInt 64 syscallEinval
              else syscallEfault, copied.storage, storageUsed, displacement, copied.reads⟩
          else
            let length := (stringAt copied.storage storageUsed capacity).length
            let copy := copyUserVector x vector left copied.storage (storageUsed + (length + 1))
              (displacement ++ [storageUsed])
            { copy with reads := copied.reads ++ copy.reads }

def syscallCopyUserVector (x : Running) (vector : Word) (storage : Bytes) (storageUsed : ℕ) :
    VectorCopy :=
  if vector = 0 then ⟨syscallOk, storage, storageUsed, [], []⟩
  else copyUserVector x vector processArgumentCountMaximum storage storageUsed []

structure BlockCopy where
  answer : Word
  block : ArgumentBlock
  reads : List Word

/-- The part of `SyscallDoExecve` that copies both vectors into a block that holds
anything. -/
def copyUserVectors (x : Running) (argumentVector environmentVector : Word) (storage : Bytes) :
    BlockCopy :=
  let first := syscallCopyUserVector x argumentVector storage 0
  if first.answer ≠ syscallOk then
    ⟨first.answer, ⟨first.storage, first.storageUsed, first.displacement, []⟩, first.reads⟩
  else
    let second := syscallCopyUserVector x environmentVector first.storage first.storageUsed
    ⟨second.answer,
      ⟨second.storage, second.storageUsed, first.displacement, second.displacement⟩,
      first.reads ++ second.reads⟩

/-- `SyscallDoExecve`.  `allocated` tells whether there was memory for the block,
`copyPath` answers for `SyscallCopyUserPath` and `execute` stands for
`ProcessExecute`. -/
def syscallDoExecve (allocated : Bool) (storage : Bytes)
    (copyPath : Running → Except Word (List UInt8))
    (execute : List UInt8 → ProcessArguments → ProcessAction Word)
    (argumentVector environmentVector : Word) : ProcessAction Word := do
  if allocated = false then return BitVec.ofInt 64 syscallEnomem
  else
    let x ← get
    let copy := copyUserVectors x argumentVector environmentVector storage
    if copy.answer ≠ syscallOk then return copy.answer
    else
      match copyPath x with
      | .error answer => return answer
      | .ok path => execute path copy.block.arguments

end OxysOS.Proc

namespace OxysOS.Proc

open OxysOS.Library OxysOS.Mm OxysOS.Exec Action

variable {x : Running} {address vector : Word} {destination remaining index used left : ℕ}
  {storage : Bytes} {displacement : List ℕ} {string : List UInt8} {strings : List (List UInt8)}

def MayRead (x : Running) (address : Word) : Prop := syscallUserRangeIsReadable x address 1 = true

def StringAt (x : Running) (address : Word) : ℕ → List UInt8 → Prop
  | index, [] => MayRead x (address + BitVec.ofNat 64 index) ∧
      userByte x (address + BitVec.ofNat 64 index) = 0
  | index, c :: string => MayRead x (address + BitVec.ofNat 64 index) ∧
      userByte x (address + BitVec.ofNat 64 index) = c ∧ c ≠ 0 ∧ StringAt x address (index + 1) string

def VectorFrom (x : Running) (vector : Word) : ℕ → List (List UInt8) → Prop
  | count, [] => syscallUserRangeIsReadable x (vectorSlot vector count) 8 = true ∧
      userWord x (vectorSlot vector count) = 0
  | count, string :: strings => syscallUserRangeIsReadable x (vectorSlot vector count) 8 = true ∧
      userWord x (vectorSlot vector count) ≠ 0 ∧
      StringAt x (userWord x (vectorSlot vector count)) 0 string ∧
      VectorFrom x vector (count + 1) strings

def VectorAt (x : Running) (vector : Word) (strings : List (List UInt8)) : Prop :=
  vector = 0 ∧ strings = [] ∨ vector ≠ 0 ∧ VectorFrom x vector 0 strings

theorem StringAt.zero_not_mem (h : StringAt x address index string) : 0 ∉ string := by
  induction string generalizing index with
  | nil => exact List.not_mem_nil
  | cons c string ih =>
      obtain ⟨-, -, hc, hrest⟩ := h
      intro hmem
      rcases List.mem_cons.mp hmem with heq | hmem
      · exact hc heq.symm
      · exact ih hrest hmem

theorem copyUserBytes_end (hread : MayRead x (address + BitVec.ofNat 64 index))
    (hbyte : userByte x (address + BitVec.ofNat 64 index) = 0) (destination remaining : ℕ)
    (storage : Bytes) : copyUserBytes x address destination (remaining + 1) index storage =
      ⟨true, Function.update storage (destination + index) 0, [address + BitVec.ofNat 64 index]⟩ := by
  unfold MayRead at hread
  unfold copyUserBytes
  rw [if_neg (by rw [hread]; decide), hbyte, if_pos rfl]

theorem copyUserBytes_more (hread : MayRead x (address + BitVec.ofNat 64 index))
    (hbyte : userByte x (address + BitVec.ofNat 64 index) ≠ 0) (destination remaining : ℕ)
    (storage : Bytes) : copyUserBytes x address destination (remaining + 1) index storage =
      let copy := copyUserBytes x address destination remaining (index + 1)
        (Function.update storage (destination + index)
          (userByte x (address + BitVec.ofNat 64 index)))
      { copy with reads := (address + BitVec.ofNat 64 index) :: copy.reads } := by
  unfold MayRead at hread
  conv_lhs => unfold copyUserBytes
  rw [if_neg (by rw [hread]; decide), if_neg hbyte]

theorem copyUserBytes_refused (hread : ¬MayRead x (address + BitVec.ofNat 64 index))
    (destination remaining : ℕ) (storage : Bytes) :
    copyUserBytes x address destination (remaining + 1) index storage = ⟨false, storage, []⟩ := by
  unfold copyUserBytes
  exact if_pos (Bool.eq_false_iff.mpr hread)

theorem copyUserBytes_copied (destination : ℕ) (storage : Bytes) (h : StringAt x address index string)
    (hroom : string.length < remaining) :
    let copy := copyUserBytes x address destination remaining index storage
    copy.answer = true ∧
      slice copy.storage (destination + index) (string.length + 1) = string ++ [0] ∧
      ∀ i < destination + index, copy.storage i = storage i := by
  induction string generalizing remaining index storage with
  | nil =>
      obtain ⟨remaining, rfl⟩ := Nat.exists_eq_succ_of_ne_zero (Nat.ne_of_gt hroom)
      rw [copyUserBytes_end h.1 h.2]
      refine ⟨rfl, ?_, fun i hi ↦ Function.update_of_ne hi.ne ..⟩
      simp [slice]
  | cons c string ih =>
      obtain ⟨remaining, rfl⟩ := Nat.exists_eq_succ_of_ne_zero (Nat.ne_of_gt (Nat.zero_lt_of_lt hroom))
      obtain ⟨hread, hbyte, hc, hrest⟩ := h
      rw [copyUserBytes_more hread (hbyte ▸ hc), hbyte]
      obtain ⟨hanswer, hslice, hbelow⟩ := ih (Function.update storage (destination + index) c) hrest
        (Nat.lt_of_succ_lt_succ hroom)
      refine ⟨hanswer, ?_, fun i hi ↦ ?_⟩
      · have hfirst := hbelow (destination + index) (Nat.lt_succ_self _)
        rw [Function.update_self] at hfirst
        have hsplit : c :: string ++ [0] = [c] ++ (string ++ [0]) := rfl
        rw [List.length_cons, Nat.add_comm (string.length + 1), slice_add, hsplit]
        refine congrArg₂ (· ++ ·) ?_ hslice
        simpa [slice] using hfirst
      · rw [hbelow i (Nat.lt_succ_of_lt hi), Function.update_of_ne hi.ne]

theorem exists_of_copyUserBytes
    (h : (copyUserBytes x address destination remaining index storage).answer = true) :
    ∃ string, StringAt x address index string ∧ string.length < remaining := by
  induction remaining generalizing index storage with
  | zero => exact absurd h Bool.false_ne_true
  | succ remaining ih =>
      by_cases hread : MayRead x (address + BitVec.ofNat 64 index)
      · by_cases hbyte : userByte x (address + BitVec.ofNat 64 index) = 0
        · exact ⟨[], ⟨hread, hbyte⟩, Nat.succ_pos remaining⟩
        · rw [copyUserBytes_more hread hbyte] at h
          obtain ⟨string, hstring, hlength⟩ := ih h
          exact ⟨userByte x (address + BitVec.ofNat 64 index) :: string,
            ⟨hread, rfl, hbyte, hstring⟩, Nat.succ_lt_succ hlength⟩
      · rw [copyUserBytes_refused hread] at h
        exact absurd h Bool.false_ne_true

theorem copyUserBytes_reads (x : Running) (address : Word) (destination remaining index : ℕ)
    (storage : Bytes) :
    ∀ a ∈ (copyUserBytes x address destination remaining index storage).reads, MayRead x a := by
  induction remaining generalizing index storage with
  | zero => nofun
  | succ remaining ih =>
      by_cases hread : MayRead x (address + BitVec.ofNat 64 index)
      · by_cases hbyte : userByte x (address + BitVec.ofNat 64 index) = 0
        · rw [copyUserBytes_end hread hbyte]
          intro a ha
          rw [List.mem_singleton.mp ha]
          exact hread
        · rw [copyUserBytes_more hread hbyte]
          intro a ha
          rcases List.mem_cons.mp ha with rfl | ha
          · exact hread
          · exact ih _ _ a ha
      · rw [copyUserBytes_refused hread]
        nofun

theorem syscallCopyUserString_copied (destination : ℕ) (storage : Bytes) {capacity : ℕ}
    (h : StringAt x address 0 string) (hroom : string.length < capacity) :
    let copy := syscallCopyUserString x address destination capacity storage
    copy.answer = true ∧ slice copy.storage destination (string.length + 1) = string ++ [0] ∧
      ∀ i < destination, copy.storage i = storage i := by
  unfold syscallCopyUserString
  rw [if_neg (Nat.ne_of_gt (Nat.zero_lt_of_lt hroom))]
  obtain ⟨hanswer, hslice, hbelow⟩ :=
    copyUserBytes_copied destination (Function.update storage destination 0) h hroom
  refine ⟨hanswer, hslice, fun i hi ↦ ?_⟩
  rw [hbelow i hi, Function.update_of_ne hi.ne]

theorem exists_of_syscallCopyUserString {capacity : ℕ}
    (h : (syscallCopyUserString x address destination capacity storage).answer = true) :
    ∃ string, StringAt x address 0 string ∧ string.length < capacity := by
  unfold syscallCopyUserString at h
  split at h
  · exact absurd h Bool.false_ne_true
  · exact exists_of_copyUserBytes h

theorem syscallCopyUserString_reads (x : Running) (address : Word) (destination capacity : ℕ)
    (storage : Bytes) :
    ∀ a ∈ (syscallCopyUserString x address destination capacity storage).reads, MayRead x a := by
  unfold syscallCopyUserString
  split
  · nofun
  · exact copyUserBytes_reads x address destination capacity 0 _

theorem syscallRangeIsWithinUserSpace_iff (address length : ℕ) :
    syscallRangeIsWithinUserSpace address length = true ↔
      length ≠ 0 ∧ address ≠ 0 ∧ address + length ≤ syscallUserLimit := by
  unfold syscallRangeIsWithinUserSpace
  split_ifs with hnone hhigh
  · exact ⟨False.elim, fun ⟨hlength, haddress, _⟩ ↦ absurd hnone (not_or.mpr ⟨hlength, haddress⟩)⟩
  · exact ⟨False.elim, fun ⟨hlength, _, hwithin⟩ ↦ by omega⟩
  · rw [decide_eq_true_iff]
    omega

theorem mayRead_of_word (h : syscallUserRangeIsReadable x address 8 = true) :
    ∀ a ∈ wordAddresses address, MayRead x a := by
  intro a ha
  obtain ⟨i, hi, rfl⟩ := List.mem_map.mp ha
  have hlt := List.mem_range.mp hi
  have hlimit : syscallUserLimit = 2 ^ 47 := rfl
  unfold syscallUserRangeIsReadable at h
  obtain ⟨hwithin, hpages⟩ := Bool.and_eq_true_iff.mp h
  obtain ⟨-, hpositive, hhigh⟩ := (syscallRangeIsWithinUserSpace_iff _ _).mp hwithin
  have hindex : (BitVec.ofNat 64 i).toNat = i := by
    rw [BitVec.toNat_ofNat]
    omega
  have hplace : (address + BitVec.ofNat 64 i).toNat = address.toNat + i := by
    rw [BitVec.toNat_add, hindex]
    omega
  unfold MayRead syscallUserRangeIsReadable
  rw [hplace]
  apply Bool.and_eq_true_iff.mpr
  constructor
  · exact (syscallRangeIsWithinUserSpace_iff _ _).mpr ⟨Nat.one_ne_zero, by omega, by omega⟩
  · generalize address.toNat = base at hpages
    unfold syscallPagesArePermitted at hpages ⊢
    rw [List.all_eq_true] at hpages ⊢
    intro k hk
    have hpage := hpages ((alignDown (base + i) - alignDown base) / pageSize)
    unfold alignDown pageSize at hk hpage ⊢
    rw [List.mem_range] at hk hpage
    obtain rfl : k = 0 := by omega
    have hsame : base / 4096 * 4096 + ((base + i) / 4096 * 4096 - base / 4096 * 4096) / 4096 * 4096 =
        (base + i) / 4096 * 4096 := by omega
    dsimp only at hpage ⊢
    rw [hsame] at hpage
    rw [Nat.zero_mul, Nat.add_zero]
    exact hpage (by omega)

theorem efault_ne_ok : syscallEfault ≠ syscallOk := by decide

theorem einval_ne_ok : BitVec.ofInt 64 syscallEinval ≠ syscallOk := by decide

section Slot

variable {next : Word → VectorCopy} (storage : Bytes) (used : ℕ) (displacement : List ℕ)

theorem copyUserSlot_null
    (hslot : syscallUserRangeIsReadable x (vectorSlot vector displacement.length) 8 = true)
    (hword : userWord x (vectorSlot vector displacement.length) = 0) :
    copyUserSlot x vector storage used displacement next =
      ⟨syscallOk, storage, used, displacement,
        wordAddresses (vectorSlot vector displacement.length)⟩ := by
  unfold copyUserSlot
  dsimp only
  rw [if_neg (by rw [hslot]; decide), if_pos hword, List.append_nil]

theorem copyUserSlot_next
    (hslot : syscallUserRangeIsReadable x (vectorSlot vector displacement.length) 8 = true)
    (hword : userWord x (vectorSlot vector displacement.length) ≠ 0) :
    copyUserSlot x vector storage used displacement next =
      let copy := next (userWord x (vectorSlot vector displacement.length))
      { copy with reads := wordAddresses (vectorSlot vector displacement.length) ++ copy.reads } := by
  unfold copyUserSlot
  dsimp only
  rw [if_neg (by rw [hslot]; decide), if_neg hword]

theorem copyUserSlot_cases
    (h : (copyUserSlot x vector storage used displacement next).answer = syscallOk) :
    syscallUserRangeIsReadable x (vectorSlot vector displacement.length) 8 = true ∧
      (userWord x (vectorSlot vector displacement.length) = 0 ∨
        userWord x (vectorSlot vector displacement.length) ≠ 0 ∧
          (next (userWord x (vectorSlot vector displacement.length))).answer = syscallOk) := by
  unfold copyUserSlot at h
  dsimp only at h
  split at h
  · exact absurd h efault_ne_ok
  · rename_i hslot
    refine ⟨Bool.of_not_eq_false hslot, ?_⟩
    by_cases hword : userWord x (vectorSlot vector displacement.length) = 0
    · exact Or.inl hword
    · rw [if_neg hword] at h
      exact Or.inr ⟨hword, h⟩

theorem copyUserSlot_reads (hnext : ∀ string, ∀ a ∈ (next string).reads, MayRead x a) :
    ∀ a ∈ (copyUserSlot x vector storage used displacement next).reads, MayRead x a := by
  unfold copyUserSlot
  dsimp only
  split
  · nofun
  · rename_i hslot
    intro a ha
    rcases List.mem_append.mp ha with ha | ha
    · exact mayRead_of_word (Bool.of_not_eq_false hslot) a ha
    · split at ha
      · exact absurd ha List.not_mem_nil
      · exact hnext _ a ha

end Slot

theorem copyUserVector_reads (x : Running) (vector : Word) (left : ℕ) (storage : Bytes) (used : ℕ)
    (displacement : List ℕ) :
    ∀ a ∈ (copyUserVector x vector left storage used displacement).reads, MayRead x a := by
  induction left generalizing storage used displacement with
  | zero => exact copyUserSlot_reads _ _ _ fun _ ↦ nofun
  | succ left ih =>
      apply copyUserSlot_reads
      intro string
      dsimp only
      split
      · nofun
      split
      · exact syscallCopyUserString_reads x string _ _ _
      · intro a ha
        rcases List.mem_append.mp ha with ha | ha
        · exact syscallCopyUserString_reads x string _ _ _ a ha
        · exact ih _ _ _ a ha

theorem copyUserVector_copied (displacement : List ℕ) (storage : Bytes) (used : ℕ)
    (h : VectorFrom x vector displacement.length strings) (hleft : strings.length ≤ left)
    (hbytes : used + (packed strings).length ≤ processArgumentBytesMaximum) :
    let copy := copyUserVector x vector left storage used displacement
    copy.answer = syscallOk ∧ copy.storageUsed = used + (packed strings).length ∧
      copy.displacement = displacement ++ placed used strings ∧
      slice copy.storage used (packed strings).length = packed strings ∧
      ∀ i < used, copy.storage i = storage i := by
  induction strings generalizing left storage used displacement with
  | nil =>
      have heq : copyUserVector x vector left storage used displacement =
          ⟨syscallOk, storage, used, displacement,
            wordAddresses (vectorSlot vector displacement.length)⟩ := by
        cases left with
        | zero => exact copyUserSlot_null storage used displacement h.1 h.2
        | succ left => exact copyUserSlot_null storage used displacement h.1 h.2
      rw [heq]
      exact ⟨rfl, rfl, (List.append_nil displacement).symm, rfl, fun _ _ ↦ rfl⟩
  | cons string strings ih =>
      obtain ⟨left, rfl⟩ := Nat.exists_eq_succ_of_ne_zero (Nat.ne_of_gt (Nat.zero_lt_of_lt hleft))
      obtain ⟨hslot, hword, hstring, hrest⟩ := h
      rw [length_packed_cons] at hbytes ⊢
      have hroom : string.length < processArgumentBytesMaximum - used := by omega
      obtain ⟨hcopied, hslice, hbelow⟩ := syscallCopyUserString_copied used storage hstring hroom
      rw [copyUserVector, copyUserSlot_next storage used displacement hslot hword]
      dsimp only
      rw [if_neg (Nat.ne_of_gt (Nat.zero_lt_of_lt hroom)), if_neg (by rw [hcopied]; decide),
        stringAt_eq hslice hstring.zero_not_mem hroom]
      generalize syscallCopyUserString x (userWord x (vectorSlot vector displacement.length)) used
        (processArgumentBytesMaximum - used) storage = copied at hslice hbelow ⊢
      have hlength : (displacement ++ [used]).length = displacement.length + 1 := by simp
      rw [← hlength] at hrest
      obtain ⟨hanswer, hused, hplaced, hpacked, hkept⟩ := ih (displacement ++ [used])
        copied.storage (used + (string.length + 1)) hrest (Nat.le_of_succ_le_succ hleft) (by omega)
      refine ⟨hanswer, ?_, ?_, ?_, fun i hi ↦ ?_⟩
      · rw [hused, Nat.add_assoc]
      · rw [hplaced, List.append_assoc]
        rfl
      · rw [slice_add, hpacked, packed_cons]
        congr 1
        rw [← hslice]
        apply slice_congr
        intro i _ hi
        exact hkept i hi
      · rw [hkept i (by omega), hbelow i hi]

theorem exists_of_copyUserVector (hbytes : used ≤ processArgumentBytesMaximum)
    (h : (copyUserVector x vector left storage used displacement).answer = syscallOk) :
    ∃ strings, VectorFrom x vector displacement.length strings ∧ strings.length ≤ left ∧
      used + (packed strings).length ≤ processArgumentBytesMaximum := by
  induction left generalizing storage used displacement with
  | zero =>
      obtain ⟨hslot, hnull | ⟨-, hmany⟩⟩ := copyUserSlot_cases _ _ _ h
      · exact ⟨[], ⟨hslot, hnull⟩, le_rfl, hbytes⟩
      · exact absurd hmany einval_ne_ok
  | succ left ih =>
      obtain ⟨hslot, hnull | ⟨hword, hnext⟩⟩ := copyUserSlot_cases _ _ _ h
      · exact ⟨[], ⟨hslot, hnull⟩, Nat.zero_le _, hbytes⟩
      dsimp only at hnext
      split at hnext
      · exact absurd hnext einval_ne_ok
      split at hnext
      · dsimp only at hnext
        split at hnext
        · exact absurd hnext einval_ne_ok
        · exact absurd hnext efault_ne_ok
      rename_i hcopied
      obtain ⟨string, hstring, hroom⟩ := exists_of_syscallCopyUserString
        (Bool.of_not_eq_false hcopied)
      obtain ⟨-, hslice, -⟩ := syscallCopyUserString_copied used storage hstring hroom
      rw [stringAt_eq hslice hstring.zero_not_mem hroom] at hnext
      have hlength : (displacement ++ [used]).length = displacement.length + 1 := by simp
      obtain ⟨strings, hstrings, hleft, hused⟩ := ih (by omega) hnext
      rw [hlength] at hstrings
      refine ⟨string :: strings, ⟨hslot, hword, hstring, hstrings⟩, Nat.succ_le_succ hleft, ?_⟩
      rw [length_packed_cons]
      omega

theorem StringAt.unique {other : List UInt8} (h : StringAt x address index string)
    (h' : StringAt x address index other) : string = other := by
  induction string generalizing index other with
  | nil =>
      cases other with
      | nil => rfl
      | cons d other => exact absurd (h'.2.1.symm.trans h.2) h'.2.2.1
  | cons c string ih =>
      cases other with
      | nil => exact absurd (h.2.1.symm.trans h'.2) h.2.2.1
      | cons d other =>
          have hsame : c = d := h.2.1.symm.trans h'.2.1
          rw [hsame, ih h.2.2.2 h'.2.2.2]

theorem VectorFrom.unique {count : ℕ} {others : List (List UInt8)}
    (h : VectorFrom x vector count strings) (h' : VectorFrom x vector count others) :
    strings = others := by
  induction strings generalizing count others with
  | nil =>
      cases others with
      | nil => rfl
      | cons other others => exact absurd h.2 h'.2.1
  | cons string strings ih =>
      cases others with
      | nil => exact absurd h'.2 h.2.1
      | cons other others => rw [h.2.2.1.unique h'.2.2.1, ih h.2.2.2 h'.2.2.2]

theorem VectorAt.unique {others : List (List UInt8)} (h : VectorAt x vector strings)
    (h' : VectorAt x vector others) : strings = others := by
  rcases h with ⟨hnull, rfl⟩ | ⟨hsome, h⟩
  · rcases h' with ⟨-, rfl⟩ | ⟨hsome, -⟩
    · rfl
    · exact absurd hnull hsome
  · rcases h' with ⟨hnull, -⟩ | ⟨-, h'⟩
    · exact absurd hnull hsome
    · exact h.unique h'

theorem VectorFrom.zero_not_mem {count : ℕ} (h : VectorFrom x vector count strings) :
    ∀ string ∈ strings, 0 ∉ string := by
  induction strings generalizing count with
  | nil => nofun
  | cons string strings ih =>
      intro other hother
      rcases List.mem_cons.mp hother with rfl | hother
      · exact h.2.2.1.zero_not_mem
      · exact ih h.2.2.2 other hother

theorem VectorAt.zero_not_mem (h : VectorAt x vector strings) : ∀ string ∈ strings, 0 ∉ string := by
  rcases h with ⟨-, rfl⟩ | ⟨-, h⟩
  · nofun
  · exact h.zero_not_mem

theorem syscallCopyUserVector_copied (storage : Bytes) (used : ℕ) (h : VectorAt x vector strings)
    (hcount : strings.length ≤ processArgumentCountMaximum)
    (hbytes : used + (packed strings).length ≤ processArgumentBytesMaximum) :
    let copy := syscallCopyUserVector x vector storage used
    copy.answer = syscallOk ∧ copy.storageUsed = used + (packed strings).length ∧
      copy.displacement = placed used strings ∧
      slice copy.storage used (packed strings).length = packed strings ∧
      ∀ i < used, copy.storage i = storage i := by
  unfold syscallCopyUserVector
  rcases h with ⟨hnull, rfl⟩ | ⟨hsome, h⟩
  · rw [if_pos hnull]
    exact ⟨rfl, rfl, rfl, rfl, fun _ _ ↦ rfl⟩
  · rw [if_neg hsome]
    exact copyUserVector_copied [] storage used h hcount hbytes

theorem exists_of_syscallCopyUserVector (hbytes : used ≤ processArgumentBytesMaximum)
    (h : (syscallCopyUserVector x vector storage used).answer = syscallOk) :
    ∃ strings, VectorAt x vector strings ∧ strings.length ≤ processArgumentCountMaximum ∧
      used + (packed strings).length ≤ processArgumentBytesMaximum := by
  unfold syscallCopyUserVector at h
  split at h
  · rename_i hnull
    exact ⟨[], Or.inl ⟨hnull, rfl⟩, Nat.zero_le _, hbytes⟩
  · rename_i hsome
    obtain ⟨strings, hstrings, hcount, hused⟩ := exists_of_copyUserVector hbytes h
    exact ⟨strings, Or.inr ⟨hsome, hstrings⟩, hcount, hused⟩

theorem syscallCopyUserVector_reads (x : Running) (vector : Word) (storage : Bytes) (used : ℕ) :
    ∀ a ∈ (syscallCopyUserVector x vector storage used).reads, MayRead x a := by
  unfold syscallCopyUserVector
  split
  · nofun
  · exact copyUserVector_reads x vector _ storage used []

structure WithinBounds (argument environment : List (List UInt8)) : Prop where
  arguments : argument.length ≤ processArgumentCountMaximum
  environments : environment.length ≤ processArgumentCountMaximum
  bytes : (packed argument).length + (packed environment).length ≤ processArgumentBytesMaximum

section Both

variable {argumentVector environmentVector : Word} {argument environment : List (List UInt8)}

theorem copyUserVectors_reads (x : Running) (argumentVector environmentVector : Word)
    (storage : Bytes) :
    ∀ a ∈ (copyUserVectors x argumentVector environmentVector storage).reads, MayRead x a := by
  unfold copyUserVectors
  dsimp only
  split
  · exact syscallCopyUserVector_reads x argumentVector storage 0
  · intro a ha
    rcases List.mem_append.mp ha with ha | ha
    · exact syscallCopyUserVector_reads x argumentVector storage 0 a ha
    · exact syscallCopyUserVector_reads x environmentVector _ _ a ha

theorem copyUserVectors_copied (storage : Bytes) (hargument : VectorAt x argumentVector argument)
    (henvironment : VectorAt x environmentVector environment)
    (h : WithinBounds argument environment) :
    let copy := copyUserVectors x argumentVector environmentVector storage
    copy.answer = syscallOk ∧ copy.block.arguments =
      ⟨argument, environment, (packed argument).length + (packed environment).length⟩ := by
  have hbytes := h.bytes
  obtain ⟨hanswer, hused, hplaced, hpacked, -⟩ := syscallCopyUserVector_copied storage 0 hargument
    h.arguments (by omega)
  unfold copyUserVectors
  dsimp only
  rw [if_neg (not_not.mpr hanswer)]
  generalize syscallCopyUserVector x argumentVector storage 0 = first at hused hplaced hpacked ⊢
  rw [Nat.zero_add] at hused
  obtain ⟨hanswer', hused', hplaced', hpacked', hkept⟩ := syscallCopyUserVector_copied
    first.storage first.storageUsed henvironment h.environments (by omega)
  rw [hused] at hplaced' hused' hpacked' hkept hanswer' ⊢
  refine ⟨hanswer', ?_⟩
  unfold ArgumentBlock.arguments
  dsimp only
  have hfirst : slice (syscallCopyUserVector x environmentVector first.storage
      (packed argument).length).storage 0 (packed argument).length = packed argument := by
    conv_rhs => rw [← hpacked]
    apply slice_congr
    intro i _ hi
    exact hkept i (by omega)
  rw [hplaced, hplaced', hused',
    map_stringAt_placed hfirst hargument.zero_not_mem (by omega)]
  rw [map_stringAt_placed hpacked' henvironment.zero_not_mem (by omega)]

theorem exists_of_copyUserVectors
    (h : (copyUserVectors x argumentVector environmentVector storage).answer = syscallOk) :
    ∃ argument environment, VectorAt x argumentVector argument ∧
      VectorAt x environmentVector environment ∧ WithinBounds argument environment := by
  unfold copyUserVectors at h
  dsimp only at h
  split at h
  · rename_i hrefused
    exact absurd h hrefused
  · rename_i hanswer
    obtain ⟨argument, hargument, hcount, hbytes⟩ :=
      exists_of_syscallCopyUserVector (Nat.zero_le _) (not_not.mp hanswer)
    obtain ⟨-, hused, -⟩ := syscallCopyUserVector_copied storage 0 hargument hcount hbytes
    rw [Nat.zero_add] at hused hbytes
    rw [hused] at h
    obtain ⟨environment, henvironment, hcount', hbytes'⟩ :=
      exists_of_syscallCopyUserVector hbytes h
    exact ⟨argument, environment, hargument, henvironment, hcount, hcount', hbytes'⟩

theorem syscallDoExecve_refused (allocated : Bool) (storage : Bytes)
    (copyPath : Running → Except Word (List UInt8))
    (execute : List UInt8 → ProcessArguments → ProcessAction Word)
    (h : (copyUserVectors x argumentVector environmentVector storage).answer ≠ syscallOk) :
    ∃ answer, answer ≠ syscallOk ∧
      outcome (syscallDoExecve allocated storage copyPath execute argumentVector environmentVector) x =
        (.ok answer, x) := by
  unfold syscallDoExecve
  split
  · exact ⟨_, by decide, rfl⟩
  · rw [outcome_bind, outcome_get]
    dsimp only
    rw [if_pos h]
    exact ⟨_, h, rfl⟩

end Both

end OxysOS.Proc
