import OxysOS.Mm.PagingLeaf

/-!
# Address spaces

`kernel/arch/x86_64/mm/addrspace.c`.  The lower half of a space is its own and
the upper half is the kernel's, whose entries it is made with.
-/

namespace OxysOS.Mm

open OxysOS.Library Action

def pageTableUserEntryCount : ℕ := 256

structure AddressSpace where
  root : ℕ

namespace Machine

def alterFrame (s : Machine) (frame : ℕ) (f : Bytes → Bytes) : Machine :=
  s.writeFrame (frameIndexOf frame) (f (s.memory (frameIndexOf frame)))

def copyKernelEntries (s : Machine) (root : ℕ) : Machine :=
  s.alterFrame root fun bytes ↦
    splice bytes (8 * pageTableUserEntryCount) (8 * (pageTableEntryCount - pageTableUserEntryCount))
      fun i ↦ s.memory (frameIndexOf s.kernelRoot) (8 * pageTableUserEntryCount + i)

end Machine

def addressSpaceCreate : Kernel (Option AddressSpace) := do
  let root ← pagingAllocateTable
  if root = frameAllocationFailed then return none
  else
    modify fun s ↦ s.copyKernelEntries root
    return some ⟨root⟩

def addressSpaceMapPage (space : AddressSpace) (virtualAddress physicalAddress : ℕ)
    (flags : BitVec 64) : Kernel Unit :=
  pagingMapPage space.root virtualAddress physicalAddress flags

def addressSpaceUnmapPage (space : AddressSpace) (virtualAddress : ℕ) : Kernel ℕ :=
  if space.root = frameAllocationFailed then return frameAllocationFailed
  else pagingUnmapPageIn space.root virtualAddress

def AddressSpace.user (space : AddressSpace) : PageRegion where
  root := space.root
  low := 0
  high := pageTableUserEntryCount
  rights := pageEntryWritable ||| pageEntryUser

variable {s s' : Machine} {space : AddressSpace} {address : ℕ} {flags : BitVec 64}

theorem AddressSpace.within_user (space : AddressSpace) (h : address < 2 ^ 47) :
    space.user.Within (pagePath address) := by
  refine ⟨le_rfl, ?_, ?_⟩
  · intro i hi
    unfold pagePath at hi
    simp only [List.mem_cons, List.not_mem_nil, or_false] at hi
    rcases hi with rfl | rfl | rfl <;> exact Nat.mod_lt _ (by decide)
  · intro i hi
    cases hi
    refine ⟨Nat.zero_le _, ?_⟩
    change address / 2 ^ 39 % 512 < 256
    omega

theorem inheritedFlags_user (h : flags &&& pageEntryUser = pageEntryUser) :
    inheritedFlags flags &&& (pageEntryWritable ||| pageEntryUser) =
      pageEntryWritable ||| pageEntryUser := by
  unfold inheritedFlags
  rw [h]
  decide

structure EmptySpace (space : AddressSpace) (s : Machine) : Prop where
  made : space.root ≠ frameAllocationFailed
  hierarchy : Hierarchy space.user s
  empty : ∀ address, space.user.Within (pagePath address) → s.leaf space.user address = 0

theorem EmptySpace.of_root (hsound : s.frames.Sound) (hmade : space.root ≠ frameAllocationFailed)
    (hused : s.frames.isUsed (frameIndexOf space.root) = true)
    (hzero : ∀ i, i < pageTableUserEntryCount → s.slot (frameIndexOf space.root) i = 0) :
    EmptySpace space s := by
  have hbare : ∀ i q, space.user.Within (i :: q) → s.table space.user (i :: q) = none := by
    intro i q hq
    have hi : i < pageTableUserEntryCount := (hq.2.2 i rfl).2
    have hlink : pageLink (s.slot (frameIndexOf space.root) i) = none := by
      rw [hzero i hi]
      exact pageLink_eq_none.mpr zero_and_present
    change (pageLink (s.slot (frameIndexOf space.root) i)).bind _ = none
    rw [hlink]
    rfl
  have hroot : ∀ q n, space.user.Within q → s.table space.user q = some n →
      q = [] ∧ n = frameIndexOf space.root := by
    intro q n hq hn
    cases q with
    | nil => exact ⟨rfl, (Option.some.inj hn).symm⟩
    | cons i q =>
        rw [hbare i q hq] at hn
        cases hn
  have habsent : ∀ q i n, space.user.Within (q ++ [i]) → s.table space.user q = some n →
      ¬s.slot n i &&& pageEntryPresent ≠ 0 := by
    intro q i n hq hn
    obtain ⟨rfl, rfl⟩ := hroot q n hq.shorter hn
    rw [hzero i (hq.2.2 i rfl).2]
    exact fun h ↦ h zero_and_present
  refine ⟨hmade, ⟨⟨fun _ _ h ↦ h.shorter, ?_⟩, ?_, ?_, ?_, hsound⟩, ?_⟩
  · intro p q n hp hq hpn hqn
    rw [(hroot p n hp hpn).1, (hroot q n hq hqn).1]
  · intro q n hq hn
    rw [(hroot q n hq hn).2]
    exact hused
  · exact fun q i n hq hn hpresent ↦ absurd hpresent (habsent q i n hq hn)
  · exact fun q i n hq hn hpresent ↦ absurd hpresent (habsent q i n hq hn)
  · intro address haddress
    exact Machine.leafAt_of_none (hbare _ _ haddress)

theorem addressSpaceCreate_cases (h : s.frames.Sound) :
    (s.frames.freeFrames = 0 ∧ ∃ text, outcome addressSpaceCreate s = (.error text, s)) ∨
      ∃ space s', outcome addressSpaceCreate s = (.ok (some space), s') ∧ EmptySpace space s' ∧
        s'.frames.freeFrames + 1 = s.frames.freeFrames := by
  unfold addressSpaceCreate
  rw [outcome_bind]
  rcases pagingAllocateTable_cases h with ⟨hfree, heq⟩ | ⟨f, heq, hclear, hlow, hfree⟩
  · left
    rw [heq]
    exact ⟨hfree, _, rfl⟩
  · right
    have hpositive : f * pageSize ≠ frameAllocationFailed := by
      have hlow' : 256 ≤ f := hlow
      unfold pageSize frameAllocationFailed
      omega
    rw [heq]
    dsimp only
    rw [if_neg hpositive]
    generalize hs' : (({ s with frames := s.frames.issue f } : Machine).zeroFrame
      (f * pageSize)).copyKernelEntries (f * pageSize) = s'
    have hframes : s'.frames = s.frames.issue f := by
      rw [← hs']
      rfl
    refine ⟨⟨f * pageSize⟩, s', by rw [← hs']; rfl, ?_, ?_⟩
    · apply EmptySpace.of_root
      · rw [hframes]
        exact h.issue hlow
      · exact hpositive
      · rw [hframes, FrameAllocator.isUsed_issue, frameIndexOf_mul]
        simp
      · intro i hi
        rw [← hs']
        unfold Machine.slot Machine.copyKernelEntries Machine.alterFrame
        rw [Machine.memory_writeFrame_self, readField_splice_of_disjoint]
        · exact Machine.slot_zeroFrame_self _ _ i
        · left
          unfold pageTableUserEntryCount at hi ⊢
          omega
    · rw [hframes, FrameAllocator.freeFrames_issue hclear]
      omega

def usableMemory (count : ℕ) : BootInformation where
  memoryRegions := [⟨0, count * pageSize, .usable⟩]
  highestUsableAddress := count * pageSize
  kernelPhysicalStart := 0
  kernelPhysicalEnd := 0x2000
  bootInformationStart := 0x2000
  bootInformationEnd := 0x2800
  modules := []

def bootMachine (count : ℕ) : Option Machine :=
  match physicalMemoryInitialise (usableMemory count) with
  | .ok frames => some ⟨frames, fun _ _ ↦ 0, pageSize, pageSize⟩
  | .error _ => none

theorem bootMachine_sound {count : ℕ} (h : bootMachine count = some s)
    (hcount : s.frames.frameCount ≤ 2 ^ 40) : s.frames.Sound := by
  unfold bootMachine at h
  split at h
  · rename_i frames hframes
    cases h
    exact FrameAllocator.Sound.of_initialise hframes hcount
  · cases h

theorem exists_bootMachine (count : ℕ) (p : Machine → Bool)
    (h : (bootMachine count).any (fun s ↦ s.frames.frameCount ≤ 2 ^ 40 && p s) = true) :
    ∃ s, s.frames.Sound ∧ p s = true := by
  rw [Option.any_eq_true] at h
  obtain ⟨s, hs, hp⟩ := h
  rw [Bool.and_eq_true, decide_eq_true_eq] at hp
  exact ⟨s, bootMachine_sound hs hp.1, hp.2⟩

inductive SpaceCall
  | map (virtualAddress physicalAddress : ℕ) (flags : BitVec 64)
  | unmap (virtualAddress : ℕ)

namespace SpaceCall

def perform (space : AddressSpace) : SpaceCall → Kernel ℕ
  | map virtualAddress physicalAddress flags => do
      addressSpaceMapPage space virtualAddress physicalAddress flags
      return frameAllocationFailed
  | unmap virtualAddress => addressSpaceUnmapPage space virtualAddress

/-- The page is of the user's half, and is mapped for the user. -/
def Admitted : SpaceCall → Prop
  | map virtualAddress _ flags => virtualAddress < 2 ^ 47 ∧ flags &&& pageEntryUser = pageEntryUser
  | unmap virtualAddress => virtualAddress < 2 ^ 47

def answer (leaves : ℕ → BitVec 64) : SpaceCall → ℕ
  | map _ _ _ => frameAllocationFailed
  | unmap virtualAddress =>
      if leaves virtualAddress &&& pageEntryPresent = 0 then frameAllocationFailed
      else entryAddress (leaves virtualAddress)

def apply (leaves : ℕ → BitVec 64) : SpaceCall → ℕ → BitVec 64
  | map virtualAddress physicalAddress flags, other =>
      if SamePage other virtualAddress then leafEntry physicalAddress flags else leaves other
  | unmap virtualAddress, other =>
      if leaves virtualAddress &&& pageEntryPresent ≠ 0 ∧ SamePage other virtualAddress then 0
      else leaves other

theorem step {leaves : ℕ → BitVec 64} {call : SpaceCall} (h : Hierarchy space.user s)
    (hmade : space.root ≠ frameAllocationFailed) (hcall : call.Admitted)
    (hframes : 3 ≤ s.frames.freeFrames)
    (hleaves : ∀ address < 2 ^ 47, s.leaf space.user address = leaves address) :
    ∃ s', outcome (call.perform space) s = (.ok (call.answer leaves), s') ∧
      Grows space.user (fun _ ↦ True) s s' ∧ s.frames.freeFrames ≤ s'.frames.freeFrames + 3 ∧
      ∀ address < 2 ^ 47, s'.leaf space.user address = call.apply leaves address := by
  cases call with
  | map virtualAddress physicalAddress flags =>
      obtain ⟨haddress, hflags⟩ := hcall
      have hmissing : s.missing space.user virtualAddress ≤ 3 := List.countP_le_length
      unfold perform addressSpaceMapPage
      rw [outcome_bind]
      rcases pagingMapPage_cases physicalAddress flags h (space.within_user haddress)
        (inheritedFlags_user hflags) with ⟨text, s', -, hless⟩ | ⟨s', houtcome, hmaps⟩
      · omega
      · have hfree := hmaps.free
        change outcome (pagingMapPage space.root _ _ _) s = _ at houtcome
        rw [houtcome]
        refine ⟨s', rfl, hmaps.grows.weaken fun _ _ ↦ trivial, by omega, fun address hlow ↦ ?_⟩
        rw [hmaps.leaf address (space.within_user hlow), hleaves address hlow]
        rfl
  | unmap virtualAddress =>
      have hwithin := space.within_user hcall
      obtain ⟨s', houtcome, hclears⟩ := pagingUnmapPageIn_eq h hwithin
      rw [hleaves virtualAddress hcall] at houtcome hclears
      dsimp only [perform, addressSpaceUnmapPage]
      rw [if_neg hmade]
      refine ⟨s', houtcome, ?_⟩
      rcases hclears with ⟨habsent, rfl⟩ | ⟨hpresent, hclears⟩
      · refine ⟨.refl h, by omega, fun address hlow ↦ ?_⟩
        rw [hleaves address hlow]
        exact (if_neg fun hboth ↦ hboth.1 habsent).symm
      · refine ⟨hclears.grows.weaken fun _ hnone ↦ hnone.elim, ?_, fun address hlow ↦ ?_⟩
        · rw [hclears.frames]
          omega
        · rw [hclears.leaf address (space.within_user hlow), hleaves address hlow]
          simp only [apply, and_iff_right hpresent]

end SpaceCall

def spaceRun (space : AddressSpace) : List SpaceCall → Kernel (List ℕ)
  | [] => return []
  | call :: calls => do
      let answer ← call.perform space
      return answer :: (← spaceRun space calls)

def leavesAfter (leaves : ℕ → BitVec 64) (calls : List SpaceCall) : ℕ → BitVec 64 :=
  calls.foldl SpaceCall.apply leaves

def answersOf : (ℕ → BitVec 64) → List SpaceCall → List ℕ
  | _, [] => []
  | leaves, call :: calls => call.answer leaves :: answersOf (call.apply leaves) calls

/-- In every run of mappings and withdrawals for which there are frames, a space is the function
from its pages to leaves that the calls make of it: each call answers by it, a translation reads it,
and no frame in use but the tables of the space is written. -/
theorem space_runs {leaves : ℕ → BitVec 64} {calls : List SpaceCall}
    (h : Hierarchy space.user s) (hmade : space.root ≠ frameAllocationFailed)
    (hcalls : ∀ call ∈ calls, call.Admitted) (hframes : 3 * calls.length ≤ s.frames.freeFrames)
    (hleaves : ∀ address < 2 ^ 47, s.leaf space.user address = leaves address) :
    ∃ s', outcome (spaceRun space calls) s = (.ok (answersOf leaves calls), s') ∧
      Grows space.user (fun _ ↦ True) s s' ∧
      ∀ address < 2 ^ 47, s'.leaf space.user address = leavesAfter leaves calls address ∧
        (s'.activeRoot = space.root → pagingTranslate s' address =
          if leavesAfter leaves calls address &&& pageEntryPresent = 0 then 0
          else entryAddress (leavesAfter leaves calls address) + address % pageSize) := by
  induction calls generalizing s leaves with
  | nil =>
      refine ⟨s, rfl, .refl h, fun address hlow ↦ ⟨hleaves address hlow, fun hactive ↦ ?_⟩⟩
      rw [pagingTranslate_eq h (space.within_user hlow) hactive hmade, hleaves address hlow]
      rfl
  | cons call calls ih =>
      obtain ⟨hcall, hrest⟩ := List.forall_mem_cons.mp hcalls
      rw [List.length_cons] at hframes
      obtain ⟨s', houtcome, hgrows, hfree, hleaves'⟩ :=
        SpaceCall.step h hmade hcall (by omega) hleaves
      obtain ⟨s'', houtcome', hgrows', hleaves''⟩ :=
        ih hgrows.hierarchy hrest (by omega) hleaves'
      refine ⟨s'', ?_, (hgrows.trans hgrows').weaken fun _ _ ↦ trivial, hleaves''⟩
      rw [spaceRun, outcome_bind, houtcome]
      dsimp only
      rw [outcome_bind, houtcome']
      rfl

/-- A page is mapped in an empty space and is withdrawn again. -/
theorem space_runs_two : ∃ space s s', outcome (spaceRun space
    [.map 0x400000 0x5000 pageEntryUser, .unmap 0x400000]) s =
      (.ok [frameAllocationFailed, 0x5000], s') := by
  obtain ⟨machine, hsound, hfree⟩ :=
    exists_bootMachine 280 (fun s ↦ 7 ≤ s.frames.freeFrames) (by decide +kernel)
  have hseven := of_decide_eq_true hfree
  rcases addressSpaceCreate_cases hsound with ⟨hnone, -⟩ | ⟨space, s, -, hempty, hleft⟩
  · omega
  · have hcalls : ∀ call ∈ [SpaceCall.map 0x400000 0x5000 pageEntryUser, .unmap 0x400000],
        call.Admitted := by
      simp [SpaceCall.Admitted]
    obtain ⟨s', houtcome, -⟩ := space_runs hempty.hierarchy hempty.made hcalls
      (show 6 ≤ s.frames.freeFrames by omega)
      fun address hlow ↦ hempty.empty address (space.within_user hlow)
    have hanswers : answersOf (fun _ ↦ 0) [.map 0x400000 0x5000 pageEntryUser, .unmap 0x400000] =
        [frameAllocationFailed, 0x5000] := by decide
    exact ⟨space, s, s', hanswers ▸ houtcome⟩

end OxysOS.Mm
