import Mathlib.Init

/-!
# Actions that alter a state and may be refused

An action answers with a value or with an error, and the state it leaves is
kept in either case.  `Triple` states what an action promises of the states it
may be started in, separately for the two kinds of answer.
-/

namespace OxysOS.Library

abbrev Action (σ ε α : Type) := ExceptT ε (StateM σ) α

namespace Action

variable {σ ε α β : Type}

def outcome (action : Action σ ε α) (s : σ) : Except ε α × σ :=
  (ExceptT.run action).run s

def attempt (action : Action σ ε α) : Action σ ε (Except ε α) :=
  ExceptT.mk do return .ok (← ExceptT.run action)

def consult (f : σ → Except ε α) : Action σ ε α := ExceptT.mk do return f (← get)

@[simp] theorem outcome_consult (f : σ → Except ε α) (s : σ) :
    outcome (consult f) s = (f s, s) := rfl

@[simp] theorem outcome_pure (a : α) (s : σ) :
    outcome (pure a : Action σ ε α) s = (.ok a, s) := rfl

@[simp] theorem outcome_throw (e : ε) (s : σ) :
    outcome (throw e : Action σ ε α) s = (.error e, s) := rfl

@[simp] theorem outcome_get (s : σ) : outcome (get : Action σ ε σ) s = (.ok s, s) := rfl

@[simp] theorem outcome_set (s t : σ) :
    outcome (set t : Action σ ε PUnit) s = (.ok ⟨⟩, t) := rfl

@[simp] theorem outcome_modify (f : σ → σ) (s : σ) :
    outcome (modify f : Action σ ε PUnit) s = (.ok ⟨⟩, f s) := rfl

theorem outcome_bind (action : Action σ ε α) (next : α → Action σ ε β) (s : σ) :
    outcome (action >>= next) s =
      match outcome action s with
      | (.ok a, s') => outcome (next a) s'
      | (.error e, s') => (.error e, s') := by
  change outcome (ExceptT.bind action next) s = _
  unfold outcome ExceptT.bind ExceptT.run ExceptT.mk
  cases h : (action : StateM σ (Except ε α)) s with
  | mk answer s' =>
      cases answer <;> simp [StateT.run, bind, StateT.bind, ExceptT.bindCont, h] <;> rfl

theorem outcome_attempt (action : Action σ ε α) (s : σ) :
    outcome (attempt action) s = (.ok (outcome action s).1, (outcome action s).2) := rfl

end Action

open Action

variable {σ ε α β : Type}

/-- From a state satisfying `P` the action either answers, and then `Q` holds
of the answer and the state left, or is refused, and then `E` holds. -/
def Triple (P : σ → Prop) (action : Action σ ε α) (Q : α → σ → Prop)
    (E : ε → σ → Prop) : Prop :=
  ∀ s, P s →
    (∀ a, (outcome action s).1 = .ok a → Q a (outcome action s).2) ∧
      ∀ e, (outcome action s).1 = .error e → E e (outcome action s).2

/-- The promises for the two kinds of answer as one of the answer. -/
def Answered (Q : α → σ → Prop) (E : ε → σ → Prop) : Except ε α → σ → Prop
  | .ok a => Q a
  | .error e => E e

namespace Triple

variable {P S : σ → Prop} {Q Q' : α → σ → Prop} {E E' : ε → σ → Prop}
  {action : Action σ ε α} {next : α → Action σ ε β} {R : β → σ → Prop}

theorem of_eq (h : ∀ s, P s →
    (∃ a s', outcome action s = (.ok a, s') ∧ Q a s') ∨
      ∃ e s', outcome action s = (.error e, s') ∧ E e s') : Triple P action Q E := by
  intro s hs
  rcases h s hs with ⟨a, s', heq, hQ⟩ | ⟨e, s', heq, hE⟩
  · rw [heq]
    refine ⟨fun a' ha ↦ ?_, fun e he ↦ ?_⟩
    · cases ha
      exact hQ
    · cases he
  · rw [heq]
    refine ⟨fun a ha ↦ ?_, fun e' he ↦ ?_⟩
    · cases ha
    · cases he
      exact hE

theorem cases (h : Triple P action Q E) {s : σ} (hs : P s) :
    (∃ a s', outcome action s = (.ok a, s') ∧ Q a s') ∨
      ∃ e s', outcome action s = (.error e, s') ∧ E e s' := by
  obtain ⟨hok, herror⟩ := h s hs
  cases heq : outcome action s with
  | mk answer s' =>
      rw [heq] at hok herror
      cases answer with
      | ok a => exact Or.inl ⟨a, s', rfl, hok a rfl⟩
      | error e => exact Or.inr ⟨e, s', rfl, herror e rfl⟩

theorem any (action : Action σ ε α) : Triple P action (fun _ _ ↦ True) fun _ _ ↦ True :=
  fun _ _ ↦ ⟨fun _ _ ↦ trivial, fun _ _ ↦ trivial⟩

theorem weaken (h : Triple P action Q E) (hP : ∀ s, S s → P s)
    (hQ : ∀ a s, Q a s → Q' a s) (hE : ∀ e s, E e s → E' e s) : Triple S action Q' E' :=
  fun s hs ↦ ⟨fun a ha ↦ hQ a _ ((h s (hP s hs)).1 a ha),
    fun e he ↦ hE e _ ((h s (hP s hs)).2 e he)⟩

theorem pre (h : Triple P action Q E) (hP : ∀ s, S s → P s) : Triple S action Q E :=
  h.weaken hP (fun _ _ hQ ↦ hQ) fun _ _ hE ↦ hE

theorem post (h : Triple P action Q E) (hQ : ∀ a s, Q a s → Q' a s) : Triple P action Q' E :=
  h.weaken (fun _ hP ↦ hP) hQ fun _ _ hE ↦ hE

theorem and (h : Triple P action Q E) (h' : Triple S action Q' E') :
    Triple (fun s ↦ P s ∧ S s) action (fun a s ↦ Q a s ∧ Q' a s) fun e s ↦ E e s ∧ E' e s :=
  fun s hs ↦ ⟨fun a ha ↦ ⟨(h s hs.1).1 a ha, (h' s hs.2).1 a ha⟩,
    fun e he ↦ ⟨(h s hs.1).2 e he, (h' s hs.2).2 e he⟩⟩

theorem intro (h : ∀ s, P s → Triple (fun t ↦ t = s) action Q E) : Triple P action Q E :=
  fun s hs ↦ h s hs s rfl

theorem pure {a : α} (h : ∀ s, P s → Q a s) : Triple P (Pure.pure a : Action σ ε α) Q E :=
  of_eq fun s hs ↦ Or.inl ⟨a, s, rfl, h s hs⟩

theorem throw {e : ε} (h : ∀ s, P s → E e s) :
    Triple P (MonadExcept.throw e : Action σ ε α) Q E :=
  of_eq fun s hs ↦ Or.inr ⟨e, s, rfl, h s hs⟩

theorem bind (h : Triple P action Q E) (hnext : ∀ a, Triple (Q a) (next a) R E) :
    Triple P (action >>= next) R E := by
  refine of_eq fun s hs ↦ ?_
  rw [outcome_bind]
  rcases h.cases hs with ⟨a, s', heq, hQ⟩ | ⟨e, s', heq, hE⟩
  · rw [heq]
    exact (hnext a).cases hQ
  · rw [heq]
    exact Or.inr ⟨e, s', rfl, hE⟩

theorem modify {f : σ → σ} {Q : PUnit → σ → Prop} (h : ∀ s, P s → Q ⟨⟩ (f s)) :
    Triple P (modify f : Action σ ε PUnit) Q E :=
  of_eq fun s hs ↦ Or.inl ⟨⟨⟩, f s, rfl, h s hs⟩

theorem get {next : σ → Action σ ε β} (h : ∀ s, P s → Triple (fun t ↦ t = s) (next s) R E) :
    Triple P (MonadState.get >>= next) R E := by
  refine of_eq fun s hs ↦ ?_
  rw [outcome_bind, outcome_get]
  exact (h s hs).cases rfl

theorem look {next : σ → Action σ ε β} (h : ∀ s, P s → Triple P (next s) R E) :
    Triple P (MonadState.get >>= next) R E :=
  get fun s hs ↦ (h s hs).pre (by rintro t rfl; exact hs)

theorem set {t : σ} {Q : PUnit → σ → Prop} (h : ∀ s, P s → Q ⟨⟩ t) :
    Triple P (MonadStateOf.set t : Action σ ε PUnit) Q E :=
  of_eq fun s hs ↦ Or.inl ⟨⟨⟩, t, rfl, h s hs⟩

theorem attempt {Q : Except ε α → σ → Prop}
    (h : Triple P action (fun a ↦ Q (.ok a)) fun e ↦ Q (.error e)) :
    Triple P (attempt action) Q E := by
  refine of_eq fun s hs ↦ Or.inl ?_
  rw [outcome_attempt]
  rcases h.cases hs with ⟨a, s', heq, hQ⟩ | ⟨e, s', heq, hE⟩
  · rw [heq]
    exact ⟨_, _, rfl, hQ⟩
  · rw [heq]
    exact ⟨_, _, rfl, hE⟩

theorem attempt_answered (h : Triple P action Q E) :
    Triple P (Action.attempt action) (Answered Q E) E' := attempt h

theorem ite {c : Prop} [Decidable c] {other : Action σ ε α} (hthen : c → Triple P action Q E)
    (helse : ¬c → Triple P other Q E) : Triple P (if c then action else other) Q E := by
  by_cases hc : c
  · rw [if_pos hc]
    exact hthen hc
  · rw [if_neg hc]
    exact helse hc

end Triple

/-- An action does to what is seen of its states as another does. -/
def Mirrors {τ : Type} (view : σ → τ) (action : Action σ ε α) (action' : Action τ ε α) : Prop :=
  ∀ s, (outcome action s).1 = (outcome action' (view s)).1 ∧
    view (outcome action s).2 = (outcome action' (view s)).2

namespace Mirrors

variable {τ : Type} {view : σ → τ} {action : Action σ ε α} {action' : Action τ ε α}

theorem pure (a : α) : Mirrors view (Pure.pure a : Action σ ε α) (Pure.pure a) :=
  fun _ ↦ ⟨rfl, rfl⟩

theorem throw (e : ε) : Mirrors view (MonadExcept.throw e : Action σ ε α) (MonadExcept.throw e) :=
  fun _ ↦ ⟨rfl, rfl⟩

theorem bind {next : α → Action σ ε β} {next' : α → Action τ ε β} (h : Mirrors view action action')
    (hnext : ∀ a, Mirrors view (next a) (next' a)) :
    Mirrors view (action >>= next) (action' >>= next') := by
  intro s
  obtain ⟨hanswer, hleft⟩ := h s
  rw [outcome_bind, outcome_bind]
  cases houtcome : outcome action s with
  | mk answer t =>
      cases houtcome' : outcome action' (view s) with
      | mk answer' t' =>
          rw [houtcome, houtcome'] at hanswer hleft
          dsimp only at hanswer hleft
          subst hanswer hleft
          cases answer with
          | error e => exact ⟨rfl, rfl⟩
          | ok a => exact hnext a t

theorem get {next : σ → Action σ ε α} {next' : τ → Action τ ε α}
    (h : ∀ s, Mirrors view (next s) (next' (view s))) :
    Mirrors view (MonadState.get >>= next) (MonadState.get >>= next') := by
  intro s
  rw [outcome_bind, outcome_bind, outcome_get, outcome_get]
  exact h s s

theorem ite {c : Prop} [Decidable c] {other : Action σ ε α} {other' : Action τ ε α}
    (h : Mirrors view action action') (h' : Mirrors view other other') :
    Mirrors view (if c then action else other) (if c then action' else other') := by
  split
  · exact h
  · exact h'

end Mirrors

end OxysOS.Library
