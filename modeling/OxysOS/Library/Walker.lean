import OxysOS.Library.Action
import Mathlib.Data.List.Chain
import Mathlib.Tactic.Common

/-!
# Walks that wait for one another

At a link a walk waits for a walk of what the link leads to, and then goes on from where that has
ended.  `Walker.walk` follows links by recursion, nested so deep and no deeper, and counts them.
`Walker.next` has no bound: it keeps the walks that wait upon a stack, and `Walker.met` lists how
deep each link that it meets is nested.
-/

namespace OxysOS.Library

open Action

variable {σ ε φ τ ρ : Type}

inductive Advance (φ τ ρ : Type)
  | ended (result : ρ)
  | onward (frame : φ)
  | link (frame : φ) (target : τ)

structure Walker (σ ε φ τ ρ : Type) where
  step : φ → Action σ ε (Advance φ τ ρ)
  enter : φ → τ → Action σ ε φ
  resume : φ → ρ → Action σ ε φ
  abandon : φ → σ → σ
  tooMany : ε
  size : φ → ℕ
  onward_lt : ∀ {frame s next s'}, outcome (step frame) s = (.ok (.onward next), s') →
    size next < size frame
  link_lt : ∀ {frame s next target s'}, outcome (step frame) s = (.ok (.link next target), s') →
    size next < size frame
  resume_le : ∀ {frame result s next s'}, outcome (resume frame result) s = (.ok next, s') →
    size next ≤ size frame

structure Walked (σ ε ρ : Type) where
  answer : Except ε ρ
  state : σ
  links : ℕ

def Walked.outcome (walked : Walked σ ε ρ) : Except ε ρ × σ := (walked.answer, walked.state)

def Walked.after (walked : Walked σ ε ρ) (links : ℕ) : Walked σ ε ρ :=
  { walked with links := links + walked.links }

namespace Walker

/-- What becomes of a walk that waited, where `onward` answers for the rest of it. -/
def back (w : Walker σ ε φ τ ρ) (onward : φ → σ → Walked σ ε ρ) (frame : φ) :
    Walked σ ε ρ → Walked σ ε ρ
  | ⟨.error e, s, links⟩ => ⟨.error e, w.abandon frame s, links⟩
  | ⟨.ok result, s, links⟩ =>
      match outcome (w.resume frame result) s with
      | (.error e, s) => ⟨.error e, s, links⟩
      | (.ok frame, s) => (onward frame s).after links

/-- A walk to its end, where `follow` answers for the links. -/
def loop (w : Walker σ ε φ τ ρ) (follow : φ → τ → σ → Walked σ ε ρ) :
    ℕ → φ → σ → Walked σ ε ρ
  | 0, _, s => ⟨.error w.tooMany, s, 0⟩
  | fuel + 1, frame, s =>
      match outcome (w.step frame) s with
      | (.error e, s) => ⟨.error e, s, 0⟩
      | (.ok (.ended result), s) => ⟨.ok result, s, 0⟩
      | (.ok (.onward frame), s) => w.loop follow fuel frame s
      | (.ok (.link frame target), s) =>
          w.back (w.loop follow fuel) frame (follow frame target s)

def follow (w : Walker σ ε φ τ ρ) : ℕ → φ → τ → σ → Walked σ ε ρ
  | 0, _, _, s => ⟨.error w.tooMany, s, 0⟩
  | nested + 1, frame, target, s =>
      match outcome (w.enter frame target) s with
      | (.error e, s) => ⟨.error e, s, 1⟩
      | (.ok inner, s) => (w.loop (w.follow nested) (w.size inner + 1) inner s).after 1

def walk (w : Walker σ ε φ τ ρ) (nested : ℕ) (frame : φ) (s : σ) : Walked σ ε ρ :=
  w.loop (w.follow nested) (w.size frame + 1) frame s

inductive Config (ε φ τ ρ : Type)
  | running (frame : φ) (waiting : List φ)
  | meeting (frame : φ) (target : τ) (waiting : List φ)
  | returning (answer : Except ε ρ) (waiting : List φ)

def Config.depth : Config ε φ τ ρ → ℕ
  | .running _ waiting | .meeting _ _ waiting | .returning _ waiting => waiting.length

/-- One step, with how deep the link is nested that it enters. -/
def next (w : Walker σ ε φ τ ρ) : Config ε φ τ ρ → σ → List ℕ × Config ε φ τ ρ × σ
  | .running frame waiting, s =>
      match outcome (w.step frame) s with
      | (.error e, s) => ([], .returning (.error e) waiting, s)
      | (.ok (.ended result), s) => ([], .returning (.ok result) waiting, s)
      | (.ok (.onward frame), s) => ([], .running frame waiting, s)
      | (.ok (.link frame target), s) => ([], .meeting frame target waiting, s)
  | .meeting frame target waiting, s =>
      match outcome (w.enter frame target) s with
      | (.error e, s) => ([waiting.length + 1], .returning (.error e) (frame :: waiting), s)
      | (.ok inner, s) => ([waiting.length + 1], .running inner (frame :: waiting), s)
  | .returning answer [], s => ([], .returning answer [], s)
  | .returning (.error e) (frame :: waiting), s =>
      ([], .returning (.error e) waiting, w.abandon frame s)
  | .returning (.ok result) (frame :: waiting), s =>
      match outcome (w.resume frame result) s with
      | (.error e, s) => ([], .returning (.error e) waiting, s)
      | (.ok frame, s) => ([], .running frame waiting, s)

def met (w : Walker σ ε φ τ ρ) : ℕ → Config ε φ τ ρ → σ → List ℕ
  | 0, _, _ => []
  | n + 1, config, s =>
      (w.next config s).1 ++ w.met n (w.next config s).2.1 (w.next config s).2.2

variable {w : Walker σ ε φ τ ρ} {config config' config'' : Config ε φ τ ρ} {s s' s'' : σ}
  {links links' : List ℕ}

theorem met_of_next (h : w.next config s = (links, config', s')) (n : ℕ) :
    w.met (n + 1) config s = links ++ w.met n config' s' := by
  simp [met, h]

@[simp] theorem met_halted (answer : Except ε ρ) (n : ℕ) (s : σ) :
    w.met n (.returning answer []) s = [] := by
  induction n with
  | zero => rfl
  | succ n ih => simp [met, next, ih]

theorem met_prefix (w : Walker σ ε φ τ ρ) (n m : ℕ) (config : Config ε φ τ ρ) (s : σ) :
    w.met n config s <+: w.met (n + m) config s := by
  induction n generalizing config s with
  | zero => exact List.nil_prefix
  | succ n ih =>
      rw [Nat.succ_add]
      exact List.prefix_append_right_inj _ |>.mpr (ih _ _)

theorem next_depth (w : Walker σ ε φ τ ρ) (config : Config ε φ τ ρ) (s : σ) :
    ((w.next config s).1 = [] ∧ (w.next config s).2.1.depth ≤ config.depth) ∨
      ((w.next config s).1 = [config.depth + 1] ∧
        (w.next config s).2.1.depth = config.depth + 1) := by
  cases config with
  | running frame waiting =>
      left
      simp only [next]
      split <;> simp [Config.depth]
  | meeting frame target waiting =>
      right
      simp only [next]
      split <;> simp [Config.depth]
  | returning answer waiting =>
      left
      cases waiting with
      | nil => simp [next]
      | cons frame waiting =>
          cases answer with
          | error e => simp [next, Config.depth]
          | ok result =>
              simp only [next]
              split <;> simp [Config.depth]

theorem met_isChain (w : Walker σ ε φ τ ρ) (n : ℕ) (config : Config ε φ τ ρ) (s : σ) (k : ℕ)
    (h : config.depth ≤ k) : (k :: w.met n config s).IsChain fun a b ↦ b ≤ a + 1 := by
  induction n generalizing config s k with
  | zero => exact List.isChain_singleton k
  | succ n ih =>
      rcases w.next_depth config s with ⟨hlinks, hdepth⟩ | ⟨hlinks, hdepth⟩
      · simpa [met, hlinks] using ih _ _ k (hdepth.trans h)
      · simp only [met, hlinks, List.singleton_append]
        exact List.isChain_cons_cons.mpr ⟨Nat.succ_le_succ h, ih _ _ _ hdepth.le⟩

def Reaches (w : Walker σ ε φ τ ρ) (config : Config ε φ τ ρ) (s : σ) (links : List ℕ)
    (config' : Config ε φ τ ρ) (s' : σ) : Prop :=
  ∃ k, ∀ n, w.met (n + k) config s = links ++ w.met n config' s'

theorem Reaches.of_next (h : w.next config s = (links, config', s')) :
    w.Reaches config s links config' s' :=
  ⟨1, met_of_next h⟩

theorem Reaches.trans (h : w.Reaches config s links config' s')
    (h' : w.Reaches config' s' links' config'' s'') :
    w.Reaches config s (links ++ links') config'' s'' := by
  obtain ⟨k, hk⟩ := h
  obtain ⟨k', hk'⟩ := h'
  refine ⟨k' + k, fun n ↦ ?_⟩
  rw [← Nat.add_assoc, hk, hk', List.append_assoc]

def Follows (w : Walker σ ε φ τ ρ) (bound : ℕ) (config : Config ε φ τ ρ) (s : σ)
    (waiting : List φ) (walked : Walked σ ε ρ) : Prop :=
  ∃ links, links.length = walked.links ∧ (∀ nesting ∈ links, nesting ≤ bound) ∧
    (w.Reaches config s links (.returning walked.answer waiting) walked.state ∨
      (∃ e, walked.answer = .error e) ∧
        ∃ config' s', w.Reaches config s (links ++ [bound + 1]) config' s')

variable {bound : ℕ} {waiting : List φ} {walked : Walked σ ε ρ}

theorem Follows.of_reaches (h : w.Follows bound config' s' waiting walked)
    (hreaches : w.Reaches config s links config' s') (hbound : ∀ nesting ∈ links, nesting ≤ bound) :
    w.Follows bound config s waiting (walked.after links.length) := by
  obtain ⟨links', hlength, hbound', h⟩ := h
  refine ⟨links ++ links', by simp [Walked.after, hlength], fun nesting hmem ↦ ?_, ?_⟩
  · rcases List.mem_append.mp hmem with hmem | hmem
    · exact hbound nesting hmem
    · exact hbound' nesting hmem
  · rcases h with h | ⟨herror, config'', s'', h⟩
    · exact Or.inl (hreaches.trans h)
    · exact Or.inr ⟨herror, config'', s'', List.append_assoc _ _ _ ▸ hreaches.trans h⟩

theorem Follows.of_next (h : w.Follows bound config' s' waiting walked)
    (hnext : w.next config s = ([], config', s')) : w.Follows bound config s waiting walked := by
  simpa [Walked.after] using h.of_reaches (Reaches.of_next hnext) (by simp)

theorem follows_returning (answer : Except ε ρ) (s : σ) :
    w.Follows bound (.returning answer waiting) s waiting ⟨answer, s, 0⟩ :=
  ⟨[], rfl, by simp, Or.inl ⟨0, fun _ ↦ rfl⟩⟩

theorem Follows.back {frame : φ} {onward : φ → σ → Walked σ ε ρ}
    (h : w.Follows bound config s (frame :: waiting) walked)
    (honward : ∀ {result s s'} next, outcome (w.resume frame result) s = (.ok next, s') →
      w.Follows bound (.running next waiting) s' waiting (onward next s')) :
    w.Follows bound config s waiting (w.back onward frame walked) := by
  obtain ⟨links, hlength, hbound, hreaches⟩ := h
  obtain ⟨answer, s', count⟩ := walked
  simp only at hlength hreaches
  subst hlength
  rcases hreaches with hreaches | ⟨⟨e, rfl⟩, hdeep⟩
  · cases answer with
    | error e =>
        have hgiven : w.Follows bound (.returning (.error e) (frame :: waiting)) s' waiting
            ⟨.error e, w.abandon frame s', 0⟩ :=
          (follows_returning _ _).of_next (by simp [next])
        exact hgiven.of_reaches hreaches hbound
    | ok result =>
        simp only [Walker.back]
        cases hresume : outcome (w.resume frame result) s' with
        | mk answer s'' =>
            cases answer with
            | error e =>
                have hrefused : w.Follows bound (.returning (.ok result) (frame :: waiting)) s'
                    waiting ⟨.error e, s'', 0⟩ :=
                  (follows_returning _ _).of_next (by simp [next, hresume])
                exact hrefused.of_reaches hreaches hbound
            | ok onward' =>
                refine Follows.of_reaches ?_ hreaches hbound
                exact (honward onward' hresume).of_next (by simp [next, hresume])
  · exact ⟨links, rfl, hbound, Or.inr ⟨⟨e, rfl⟩, hdeep⟩⟩

theorem loop_follows {follow : φ → τ → σ → Walked σ ε ρ} {fuel : ℕ} {frame : φ}
    (hfollow : ∀ frame target s, w.Follows bound (.meeting frame target waiting) s
      (frame :: waiting) (follow frame target s))
    (hfuel : w.size frame < fuel) :
    w.Follows bound (.running frame waiting) s waiting (w.loop follow fuel frame s) := by
  induction fuel generalizing frame s with
  | zero => exact absurd hfuel (Nat.not_lt_zero _)
  | succ fuel ih =>
      cases hstep : outcome (w.step frame) s with
      | mk answer s' =>
          rcases answer with e | result | onward | ⟨linked, target⟩
          · simp only [loop, hstep]
            exact (follows_returning (.error e) s').of_next (by simp [next, hstep])
          · simp only [loop, hstep]
            exact (follows_returning (.ok result) s').of_next (by simp [next, hstep])
          · simp only [loop, hstep]
            have hless := w.onward_lt hstep
            exact (ih (by omega)).of_next (by simp [next, hstep])
          · have hless := w.link_lt hstep
            have hnext : w.next (.running frame waiting) s =
                ([], .meeting linked target waiting, s') := by simp [next, hstep]
            simp only [loop, hstep]
            refine Follows.of_next ?_ hnext
            refine (hfollow linked target s').back fun onward hresume ↦ ih ?_
            have hleft := w.resume_le hresume
            omega

theorem follow_follows (nested : ℕ) (frame : φ) (target : τ) (s : σ)
    (h : nested + waiting.length = bound) :
    w.Follows bound (.meeting frame target waiting) s (frame :: waiting)
      (w.follow nested frame target s) := by
  induction nested generalizing frame target s waiting with
  | zero =>
      -- The walk is refused here, where the machine enters a link that is nested too deep.
      rw [Nat.zero_add] at h
      have hnext : ∃ config' s', w.next (.meeting frame target waiting) s =
          ([bound + 1], config', s') := by
        simp only [next, h]
        split <;> exact ⟨_, _, rfl⟩
      obtain ⟨config', s', hnext⟩ := hnext
      exact ⟨[], rfl, by simp, Or.inr ⟨⟨w.tooMany, rfl⟩, config', s', Reaches.of_next hnext⟩⟩
  | succ nested ih =>
      have hdeep : ∀ nesting ∈ [waiting.length + 1], nesting ≤ bound := by simp; omega
      cases henter : outcome (w.enter frame target) s with
      | mk answer s' =>
          cases answer with
          | error e =>
              simp only [follow, henter]
              exact (follows_returning (.error e) s').of_reaches
                (Reaches.of_next (by simp [next, henter])) hdeep
          | ok inner =>
              have hinner : nested + (frame :: waiting).length = bound := by simp; omega
              simp only [follow, henter]
              refine (loop_follows (fun other target s ↦ ih other target s hinner)
                (Nat.lt_succ_self _)).of_reaches (Reaches.of_next ?_) hdeep
              simp [next, henter]

theorem le_of_isChain {k : ℕ} {numbers : List ℕ}
    (h : (k :: numbers).IsChain fun a b ↦ b ≤ a + 1) {i : ℕ} (hi : i < numbers.length) :
    numbers[i] ≤ k + i + 1 := by
  induction numbers generalizing k i with
  | nil => exact absurd hi (Nat.not_lt_zero i)
  | cons a numbers ih =>
      obtain ⟨hfirst, hrest⟩ := List.isChain_cons_cons.mp h
      cases i with
      | zero => exact hfirst
      | succ i =>
          have hi' := ih hrest (Nat.lt_of_succ_lt_succ hi)
          rw [List.getElem_cons_succ]
          omega

theorem take_of_isChain {k : ℕ} {numbers : List ℕ}
    (h : (k :: numbers).IsChain fun a b ↦ b ≤ a + 1) {i : ℕ} (hi : i < numbers.length)
    (htop : numbers[i] = k + i + 1) : numbers.take (i + 1) = List.range' (k + 1) (i + 1) := by
  induction numbers generalizing k i with
  | nil => exact absurd hi (Nat.not_lt_zero i)
  | cons a numbers ih =>
      obtain ⟨hfirst, hrest⟩ := List.isChain_cons_cons.mp h
      cases i with
      | zero =>
          rw [List.getElem_cons_zero] at htop
          simp [htop]
      | succ i =>
          have hi' : i < numbers.length := Nat.lt_of_succ_lt_succ hi
          have hbound := le_of_isChain hrest hi'
          rw [List.getElem_cons_succ] at htop
          have ha : a = k + 1 := by omega
          subst ha
          rw [List.take_succ_cons, ih hrest hi' (by omega)]
          exact List.range'_succ.symm

theorem walk_follows (w : Walker σ ε φ τ ρ) (bound : ℕ) (frame : φ) (s : σ) :
    w.Follows bound (.running frame []) s [] (w.walk bound frame s) :=
  loop_follows (fun other target s ↦ follow_follows bound other target s rfl)
    (Nat.lt_succ_self _)

def metFrom (w : Walker σ ε φ τ ρ) (n : ℕ) (first : Action σ ε φ) (s : σ) : List ℕ :=
  match outcome first s with
  | (.error _, _) => []
  | (.ok frame, s) => w.met n (.running frame []) s

def resolve (w : Walker σ ε φ τ ρ) (nested : ℕ) (first : Action σ ε φ) (s : σ) : Walked σ ε ρ :=
  match outcome first s with
  | (.error e, s) => ⟨.error e, s, 0⟩
  | (.ok frame, s) => w.walk nested frame s

/-- The links that so many steps meet are few, or the first that are too many are nested each in
the one before. -/
def FewOrNested (w : Walker σ ε φ τ ρ) (bound : ℕ) (first : Action σ ε φ) (s : σ) : Prop :=
  ∀ n, (w.metFrom n first s).length ≤ bound ∨
    (w.metFrom n first s).take (bound + 1) = List.range' 1 (bound + 1)

/-- So few links are followed, and the walk is refused where there are more. -/
def Bounded (w : Walker σ ε φ τ ρ) (bound : ℕ) (first : Action σ ε φ) (s : σ) : Prop :=
  (w.resolve bound first s).links ≤ bound ∧
    ((∃ n, bound < (w.metFrom n first s).length) →
      ∃ e, (w.resolve bound first s).answer = .error e)

theorem bounded_iff (w : Walker σ ε φ τ ρ) (bound : ℕ) (first : Action σ ε φ) (s : σ) :
    w.Bounded bound first s ↔ w.FewOrNested bound first s := by
  unfold Bounded FewOrNested resolve metFrom
  rcases outcome first s with ⟨e | frame, s⟩
  · simp
  dsimp only
  obtain ⟨links, hlength, hbound, hreaches⟩ := w.walk_follows bound frame s
  -- No link that the walk follows is nested too deep, so they are not the first of that kind.
  have hfew : ∀ n, links <+: w.met n (.running frame []) s → bound < links.length →
      (w.met n (.running frame []) s).take (bound + 1) ≠ List.range' 1 (bound + 1) := by
    rintro n ⟨rest, hrest⟩ hmany htake
    rw [← hrest, List.take_append_of_le_length hmany] at htake
    have hmem : bound + 1 ∈ links.take (bound + 1) := by
      rw [htake]
      simp
    have hdeep := hbound _ (List.mem_of_mem_take hmem)
    omega
  rcases hreaches with ⟨k, hreaches⟩ | ⟨⟨e, herror⟩, config', s', k, hreaches⟩
  · have hmet : ∀ n, (w.met n (.running frame []) s).length ≤ links.length := by
      intro n
      have hprefix := w.met_prefix n k (.running frame []) s
      rw [hreaches n, met_halted, List.append_nil] at hprefix
      exact hprefix.length_le
    constructor
    · rintro ⟨hlinks, -⟩ n
      exact Or.inl ((hmet n).trans (hlength.trans_le hlinks))
    · intro h
      have hmany : links.length ≤ bound := by
        by_contra hmany
        have hall : w.met k (.running frame []) s = links := by simpa using hreaches 0
        rcases h k with hshort | htake
        · exact hmany (hall ▸ hshort)
        · exact hfew k ⟨[], by simp [hall]⟩ (Nat.lt_of_not_le hmany) htake
      refine ⟨hlength.symm.trans_le hmany, fun ⟨n, hn⟩ ↦ ?_⟩
      exact absurd hn (Nat.not_lt.mpr ((hmet n).trans hmany))
  · have hprefix : ∀ n, links ++ [bound + 1] <+: w.met (n + k) (.running frame []) s :=
      fun n ↦ ⟨_, (hreaches n).symm⟩
    constructor
    · rintro ⟨hlinks, -⟩ n
      -- The link that is refused is nested no deeper than it is along.
      have hchain := w.met_isChain (n + k) (.running frame []) s 0 le_rfl
      obtain ⟨rest, hrest⟩ := hprefix n
      have hi : links.length < (w.met (n + k) (.running frame []) s).length := by
        rw [← hrest]
        simp
      have htop : (w.met (n + k) (.running frame []) s)[links.length] = bound + 1 := by
        simp [← hrest]
      have hall : links.length = bound := by
        have := le_of_isChain hchain hi
        omega
      by_cases hshort : (w.met n (.running frame []) s).length ≤ bound
      · exact Or.inl hshort
      · right
        obtain ⟨more, hmore⟩ := w.met_prefix n k (.running frame []) s
        rw [← List.take_append_of_le_length (Nat.lt_of_not_le hshort), hmore]
        have htake := take_of_isChain hchain hi (by omega)
        rwa [hall] at htake
    · intro h
      refine ⟨?_, fun _ ↦ ⟨e, herror⟩⟩
      by_contra hmany
      have hlong : bound < links.length := by omega
      obtain ⟨rest, hrest⟩ := hprefix 0
      rcases h (0 + k) with hshort | htake
      · rw [← hrest] at hshort
        simp at hshort
        omega
      · refine hfew _ ⟨[bound + 1] ++ rest, ?_⟩ hlong htake
        rw [← List.append_assoc, hrest]

end Walker

end OxysOS.Library
