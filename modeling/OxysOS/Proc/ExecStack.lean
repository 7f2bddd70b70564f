import OxysOS.Exec.ElfMemory
import OxysOS.Proc.ArgumentLayout
import OxysOS.Proc.ProcessStack

/-!
# The stack of a new program, as the program reads it

The frames that a stack is built from are those that its pages are mapped to, so
that what is laid out in them is what the program finds there.
-/

namespace OxysOS.Proc

open OxysOS.Library OxysOS.Mm OxysOS.Exec Action

variable {x x' x'' : Running} {page count f pointer : ℕ} {frames argumentAt environmentAt : List ℕ}
  {argument environment : List (List UInt8)}

structure StackFrames (page count : ℕ) (frames : List ℕ) (x x' : Running) : Prop where
  hierarchy : Hierarchy x'.user x'.machine
  like : x.process.Like x'.process
  length : frames.length = count
  mapped : ∀ i, i < count → ∃ f, frames.getD i 0 = f * pageSize ∧ f < 2 ^ 40 ∧
    x'.leaf (page + i * pageSize) = pageEntry f true ∧ Private x'.user x'.machine f
  kept : ∀ address, address < 2 ^ 47 → ¬PageRange page count (alignDown address) →
    x'.leaf address = x.leaf address
  owned : ∀ n, Private x.user x.machine n → Private x'.user x'.machine n
  fresh : ∀ n, Private x.user x.machine n → n * pageSize ∉ frames
  apart : frames.Nodup

theorem StackFrames.cons (hgains : Gains page f x x')
    (h : StackFrames (page + pageSize) count frames x' x'') (haligned : page % pageSize = 0)
    (hhigh : page < 2 ^ 47) : StackFrames page (count + 1) (f * pageSize :: frames) x x'' where
  hierarchy := h.hierarchy
  like := hgains.like.trans h.like
  length := congrArg Nat.succ h.length
  mapped := by
    intro i hi
    cases i with
    | zero =>
        have hself : x'.leaf page = pageEntry f true := by
          unfold Running.leaf
          rw [hgains.user, hgains.leaf page hhigh, if_pos]
          rfl
        have hlater : ¬PageRange (page + pageSize) count (alignDown page) := by
          rw [alignDown_of_aligned haligned]
          exact not_pageRange_self
        refine ⟨f, rfl, hgains.bound.2, ?_, h.owned f hgains.new⟩
        rw [Nat.zero_mul, Nat.add_zero, h.kept page hhigh hlater, hself]
    | succ i =>
        obtain ⟨g, hframe, hbound, hleaf, hown⟩ := h.mapped i (Nat.lt_of_succ_lt_succ hi)
        refine ⟨g, hframe, hbound, ?_, hown⟩
        rw [Nat.succ_mul, Nat.add_comm (i * pageSize), ← Nat.add_assoc, hleaf]
  kept := by
    intro address haddress hout
    rw [pageRange_succ, not_or] at hout
    rw [h.kept address haddress hout.2]
    unfold Running.leaf
    rw [hgains.user, hgains.leaf address haddress, if_neg]
    · rfl
    · rw [samePage_user haddress hhigh haligned]
      exact hout.1
  owned n hn := h.owned n (hgains.owned hn)
  fresh := by
    intro n hn hmem
    rcases List.mem_cons.mp hmem with heq | hmem
    · obtain rfl : n = f := Nat.eq_of_mul_eq_mul_right (by decide) heq
      exact absurd hn.used (by rw [hgains.clear]; decide)
    · exact h.fresh n (hgains.owned hn) hmem
  apart := List.nodup_cons.mpr ⟨h.fresh f hgains.new, h.apart⟩

theorem processMapStackPages_frames (h : Hierarchy x.user x.machine)
    (hpages : ∀ q, PageRange page count q → q % pageSize = 0 ∧ q < 2 ^ 47)
    (hrun : outcome (processMapStackPages count page) x = (.ok (some frames), x')) :
    StackFrames page count frames x x' := by
  induction count generalizing page x frames with
  | zero =>
      obtain ⟨hframes, rfl⟩ := Prod.mk.inj hrun
      obtain rfl := Option.some.inj (Except.ok.inj hframes)
      exact ⟨h, Process.Like.refl _, rfl, fun _ hlt ↦ absurd hlt (Nat.not_lt_zero _),
        fun _ _ _ ↦ rfl, fun _ ↦ id, fun _ _ ↦ List.not_mem_nil, List.nodup_nil⟩
  | succ count ih =>
      obtain ⟨haligned, hhigh⟩ := hpages page (pageRange_succ.mpr (Or.inl rfl))
      rw [processMapStackPages, outcome_bind] at hrun
      rcases processMapZeroedPage_cases h hhigh with
        ⟨-, heq⟩ | ⟨text, x1, heq, -⟩ | ⟨f, x1, heq, hpositive, hgains⟩
      · rw [heq] at hrun
        cases hrun
      · rw [heq] at hrun
        cases hrun
      rw [heq] at hrun
      dsimp only at hrun
      rw [if_neg hpositive, outcome_bind] at hrun
      cases hrest : outcome (processMapStackPages count (page + pageSize)) x1 with
      | mk answer x2 =>
          rw [hrest] at hrun
          cases answer with
          | error text => cases hrun
          | ok answer =>
              cases answer with
              | none => cases hrun
              | some others =>
                  obtain ⟨hframes, rfl⟩ := Prod.mk.inj hrun
                  obtain rfl := Option.some.inj (Except.ok.inj hframes)
                  have hothers := ih hgains.hierarchy'
                    (fun q hq ↦ hpages q (pageRange_succ.mpr (Or.inr hq))) hrest
                  exact StackFrames.cons hgains hothers haligned hhigh

theorem StackFrames.framesApart (h : StackFrames page processUserStackPages frames x x') :
    FramesApart fun i ↦ frames.getD i 0 := by
  intro i j hi hj heq
  obtain ⟨f, hf, -⟩ := h.mapped i hi
  obtain ⟨g, hg, -⟩ := h.mapped j hj
  dsimp only at heq
  rw [hf, hg, frameIndexOf_mul, frameIndexOf_mul] at heq
  have hsame : frames.getD i 0 = frames.getD j 0 := by rw [hf, hg, heq]
  have hi' : i < frames.length := by rwa [h.length]
  have hj' : j < frames.length := by rwa [h.length]
  rw [List.getD_eq_getElem?_getD, List.getD_eq_getElem?_getD, List.getElem?_eq_getElem hi',
    List.getElem?_eq_getElem hj', Option.getD_some, Option.getD_some] at hsame
  exact (h.apart.getElem_inj_iff).mp hsame

theorem StackFrames.kept_layOut (h : StackFrames userStackBase processUserStackPages frames x x')
    (arguments : ProcessArguments) {s : Machine} {answer : Except String ℕ}
    (hrun : outcome (processLayOutArguments (fun i ↦ frames.getD i 0) arguments) x'.machine =
      (answer, s)) :
    Hierarchy x'.user s ∧ ∀ address, address < 2 ^ 47 →
      s.leaf x'.user address = x'.leaf address := by
  have hkept : KeptByStack (fun i ↦ frames.getD i 0) fun m ↦ (Hierarchy x'.user m ∧
      ∀ address, address < 2 ^ 47 → m.leaf x'.user address = x'.leaf address) ∧
        ∀ i, i < processUserStackPages → ∃ f, frames.getD i 0 = f * pageSize ∧
          Private x'.user m f := by
    rintro m i g hi ⟨⟨hhierarchy, hleaf⟩, hown⟩
    obtain ⟨f, hf, hprivate⟩ := hown i hi
    obtain ⟨hhierarchy', hleaves, hown'⟩ := hhierarchy.alterFrame hprivate g
    dsimp only
    rw [hf]
    refine ⟨⟨hhierarchy', fun address haddress ↦ ?_⟩, fun j hj ↦ ?_⟩
    · rw [hleaves.leaf (x'.process.space.within_user haddress), hleaf address haddress]
    · obtain ⟨f', hf', hprivate'⟩ := hown j hj
      exact ⟨f', hf', hown' f' hprivate'⟩
  have hstart : (Hierarchy x'.user x'.machine ∧
      ∀ address, address < 2 ^ 47 → x'.machine.leaf x'.user address = x'.leaf address) ∧
        ∀ i, i < processUserStackPages → ∃ f, frames.getD i 0 = f * pageSize ∧
          Private x'.user x'.machine f := by
    refine ⟨⟨h.hierarchy, fun _ _ ↦ rfl⟩, fun i hi ↦ ?_⟩
    obtain ⟨f, hf, -, -, hown⟩ := h.mapped i hi
    exact ⟨f, hf, hown⟩
  rcases (hkept.layOutArguments arguments).cases hstart with
    ⟨pointer, m, heq, hm, -⟩ | ⟨text, m, heq, hm, -⟩
  · rw [hrun] at heq
    obtain ⟨-, rfl⟩ := Prod.mk.inj heq
    exact hm
  · rw [hrun] at heq
    obtain ⟨-, rfl⟩ := Prod.mk.inj heq
    exact hm

theorem StackFrames.readIn_eq (h : StackFrames userStackBase processUserStackPages frames x x')
    (hroot : x.process.space.root ≠ 0) {s : Machine} (hhierarchy : Hierarchy x'.user s)
    (hleaf : ∀ address, address < 2 ^ 47 → s.leaf x'.user address = x'.leaf address) {address : ℕ}
    (hbottom : userStackBase ≤ address) (htop : address < processUserStackTop) :
    readIn x'.process.space s address = stackBytes (fun i ↦ frames.getD i 0) s address := by
  have hpages : processUserStackTop = userStackBase + processUserStackPages * pageSize := by decide
  have hbase : userStackBase % pageSize = 0 := by decide
  have hlimit : processUserStackTop < 2 ^ 47 := by decide
  have hsize : pageSize = 4096 := rfl
  generalize hindex : (address - userStackBase) / pageSize = index
  have hin : index < processUserStackPages := by
    rw [hpages, hsize] at htop
    rw [hsize] at hindex
    omega
  obtain ⟨f, hf, hbound, hentry, -⟩ := h.mapped index hin
  have hspace : x'.process.space = x.process.space := by rw [h.like]
  have hpage : alignDown address = userStackBase + index * pageSize := by
    unfold alignDown
    rw [hsize] at hindex hbase ⊢
    omega
  have hsame : x'.leaf address = pageEntry f true := by
    rw [← hentry, ← hpage]
    exact (leaf_alignDown x'.machine x'.user address).symm
  have htranslate : translateIn x'.process.space s address = f * pageSize + address % pageSize := by
    have hpresent : pageEntry f true &&& pageEntryPresent ≠ 0 := present_leafEntry _ _
    rw [translateIn_eq_leaf hhierarchy (by rwa [hspace]) (by omega), hleaf address (by omega), hsame,
      if_neg hpresent, entryAddress_pageEntry hbound]
  have hplace : frameIndexOf (f * pageSize + address % pageSize) = f ∧
      (f * pageSize + address % pageSize) % pageSize = address % pageSize := by
    unfold frameIndexOf
    rw [hsize]
    omega
  unfold readIn stackBytes
  dsimp only
  rw [htranslate, hindex, hf, hplace.1, hplace.2, frameIndexOf_mul]

theorem Laid.congr {read read' : Bytes}
    (h : Laid read pointer argumentAt environmentAt argument environment)
    (hsame : ∀ a, userStackBase ≤ a → a < processUserStackTop → read' a = read a) :
    Laid read' pointer argumentAt environmentAt argument environment := by
  obtain ⟨haligned, hwithin, hapart, hwords, hargument, henvironment⟩ := h
  have hareas : layoutAreas pointer argumentAt environmentAt argument environment =
      (pointer, 8 * (argument.length + environment.length + 5)) ::
        (argumentAt.zip (argument.map fun string ↦ string.length + 1) ++
          environmentAt.zip (environment.map fun string ↦ string.length + 1)) := by
    unfold layoutAreas
    rw [List.map_append, List.zip_append]
    rw [List.length_map, hargument.length_eq]
  have hstrings : ∀ {places : List ℕ} {strings : List (List UInt8)},
      List.Forall₂ (fun place string ↦ slice read place (string.length + 1) = string ++ [0])
        places strings →
      (∀ area ∈ places.zip (strings.map fun string ↦ string.length + 1),
        userStackBase ≤ area.1 ∧ area.1 + area.2 ≤ processUserStackTop) →
      List.Forall₂ (fun place string ↦ slice read' place (string.length + 1) = string ++ [0])
        places strings := by
    intro places strings hplaced
    induction hplaced with
    | nil => exact fun _ ↦ List.Forall₂.nil
    | cons hfirst _ ih =>
        intro hin
        obtain ⟨hbottom, htop⟩ := hin _ List.mem_cons_self
        apply List.Forall₂.cons
        · rw [← hfirst]
          apply slice_congr
          intro a hlow hhigh
          dsimp only at hbottom htop
          exact hsame a (by omega) (by omega)
        · exact ih fun area harea ↦ hin area (List.mem_cons_of_mem _ harea)
  rw [hareas] at hwithin
  refine ⟨haligned, by rwa [hareas], hapart, fun i hi ↦ ?_, hstrings hargument fun area harea ↦ ?_,
    hstrings henvironment fun area harea ↦ ?_⟩
  · obtain ⟨hbottom, htop⟩ := hwithin _ List.mem_cons_self
    dsimp only at hbottom htop
    rw [← hwords i hi]
    apply readField_congr
    intro a hlow hhigh
    exact hsame a (by omega) (by omega)
  · exact hwithin area (List.mem_cons_of_mem _ (List.mem_append_left _ harea))
  · exact hwithin area (List.mem_cons_of_mem _ (List.mem_append_right _ harea))

theorem processCreateUserStack_laid (h : Hierarchy x.user x.machine)
    (hroot : x.process.space.root ≠ 0) {arguments : ProcessArguments}
    (hargument : arguments.argument.length ≤ processArgumentCountMaximum)
    (henvironment : arguments.environment.length ≤ processArgumentCountMaximum)
    (hused : (packed arguments.argument).length + (packed arguments.environment).length =
      arguments.storageUsed)
    (hbytes : arguments.storageUsed ≤ processArgumentBytesMaximum)
    (hsome : ¬(arguments.argument.length = 0 ∧ arguments.environment.length = 0))
    (hrun : outcome (processCreateUserStack (some arguments)) x = (.ok pointer, x'))
    (hpointer : pointer ≠ 0) :
    ∃ argumentAt environmentAt, Laid (readIn x'.process.space x'.machine) pointer argumentAt
      environmentAt arguments.argument arguments.environment := by
  have hpages : ∀ q, PageRange userStackBase processUserStackPages q →
      q % pageSize = 0 ∧ q < 2 ^ 47 := by
    rintro q ⟨i, hi, rfl⟩
    have hbase : userStackBase = 0x700000000000 - 16 * 4096 := by decide
    have hsize : pageSize = 4096 := rfl
    have hcount : processUserStackPages = 16 := rfl
    rw [hbase, hsize]
    omega
  unfold processCreateUserStack at hrun
  rw [outcome_bind, outcome_get] at hrun
  dsimp only at hrun
  split at hrun
  · exact absurd (Except.ok.inj (Prod.mk.inj hrun).1).symm hpointer
  rw [outcome_bind] at hrun
  cases hmap : outcome (processMapStackPages processUserStackPages userStackBase) x with
  | mk answer x1 =>
      rw [hmap] at hrun
      cases answer with
      | error text => exact absurd (Prod.mk.inj hrun).1 nofun
      | ok answer =>
          cases answer with
          | none => exact absurd (Except.ok.inj (Prod.mk.inj hrun).1).symm hpointer
          | some frames =>
              have hframes := processMapStackPages_frames h hpages hmap
              dsimp only at hrun
              rw [outcome_bind, alterProcess, outcome_modify] at hrun
              dsimp only at hrun
              rw [outcome_onMachine] at hrun
              obtain ⟨answer, argumentAt, environmentAt, s, heq, -, hlaid⟩ :=
                processLayOutArguments_laid hframes.framesApart x1.machine arguments hargument
                  henvironment hused hbytes
              obtain ⟨hhierarchy, hleaf⟩ := hframes.kept_layOut arguments heq
              dsimp only at hrun
              rw [heq] at hrun
              obtain ⟨hanswer, rfl⟩ := Prod.mk.inj hrun
              obtain rfl := Except.ok.inj hanswer
              refine ⟨argumentAt, environmentAt, hlaid.congr fun a hbottom htop ↦ ?_⟩
              exact hframes.readIn_eq hroot hhierarchy hleaf hbottom htop

end OxysOS.Proc
