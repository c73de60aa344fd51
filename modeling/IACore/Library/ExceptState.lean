import Mathlib.Data.List.Basic

/-!
# Computations that change a state and may fail

`ExceptT ε (StateM S)` keeps the state as far as a failing computation got.  `Returns` and
`Succeeds` speak of what does not fail, and `Preserves` of what holds of the state however a
computation ends; each has its rule for `>>=`, so that a property of a sequence is read off its
parts.
-/

namespace ExceptState

variable {ε S T : Type} {α β : Type}

/-- The result and the state that is left. -/
def outcome (x : ExceptT ε (StateM S) α) (s : S) : Except ε α × S := (x.run.run s).run

/-- `x` returns `a` and leaves `s'`. -/
def Returns (x : ExceptT ε (StateM S) α) (s : S) (a : α) (s' : S) : Prop :=
  outcome x s = (.ok a, s')

/-- `x` does not fail. -/
def Succeeds (x : ExceptT ε (StateM S) α) (s : S) : Prop := ∃ a s', Returns x s a s'

/-- Whether or not `x` fails, `P` holds of what it leaves if it held before. -/
def Preserves (P : S → Prop) (x : ExceptT ε (StateM S) α) : Prop := ∀ s, P s → P (outcome x s).2

variable {x : ExceptT ε (StateM S) α} {f : α → ExceptT ε (StateM S) β} {s s' : S} {a : α} {b : β}
  {P : S → Prop}

/-! ### Sequences -/

theorem outcome_bind : outcome (x >>= f) s = match outcome x s with
    | (.ok a, s₁) => outcome (f a) s₁
    | (.error e, s₁) => (.error e, s₁) := by
  unfold outcome
  rw [ExceptT.run_bind, StateT.run_bind, Id.run_bind]
  rcases (x.run.run s).run with ⟨e | a, s₁⟩
  · rfl
  · rfl

theorem returns_bind :
    Returns (x >>= f) s b s' ↔ ∃ a s₁, Returns x s a s₁ ∧ Returns (f a) s₁ b s' := by
  unfold Returns
  rw [outcome_bind]
  rcases outcome x s with ⟨e | a, s₁⟩
  · simp
  · constructor
    · intro h
      exact ⟨a, s₁, rfl, h⟩
    · rintro ⟨a', s₁', heq, h⟩
      cases heq
      exact h

theorem succeeds_bind :
    Succeeds (x >>= f) s ↔ ∃ a s₁, Returns x s a s₁ ∧ Succeeds (f a) s₁ := by
  constructor
  · rintro ⟨b, s', h⟩
    obtain ⟨a, s₁, hx, hf⟩ := returns_bind.mp h
    exact ⟨a, s₁, hx, b, s', hf⟩
  · rintro ⟨a, s₁, hx, b, s', hf⟩
    exact ⟨b, s', returns_bind.mpr ⟨a, s₁, hx, hf⟩⟩

theorem preserves_bind (hx : Preserves P x) (hf : ∀ a, Preserves P (f a)) :
    Preserves P (x >>= f) := by
  intro s hs
  have hx' := hx s hs
  rw [outcome_bind]
  rcases houtcome : outcome x s with ⟨e | a, s₁⟩
  · rw [houtcome] at hx'
    exact hx'
  · rw [houtcome] at hx'
    exact hf a s₁ hx'

/-- A computation that has failed has not succeeded. -/
theorem not_succeeds_iff : ¬ Succeeds x s ↔ ∃ e s', outcome x s = (.error e, s') := by
  unfold Succeeds Returns
  rcases outcome x s with ⟨e | a, s₁⟩
  · simp
  · simp

/-! ### Parts -/

theorem returns_pure {b : α} :
    Returns (pure a : ExceptT ε (StateM S) α) s b s' ↔ b = a ∧ s' = s := by
  have hrun : outcome (pure a : ExceptT ε (StateM S) α) s = (.ok a, s) := rfl
  rw [Returns, hrun, Prod.mk.injEq, Except.ok.injEq, eq_comm, @eq_comm _ s]

theorem returns_modify {g : S → S} {u : Unit} :
    Returns (modify g : ExceptT ε (StateM S) Unit) s u s' ↔ s' = g s := by
  have hrun : outcome (modify g : ExceptT ε (StateM S) Unit) s = (.ok (), g s) := rfl
  rw [Returns, hrun, Prod.mk.injEq, @eq_comm _ (g s)]
  simp

theorem not_returns_throw {e : ε} : ¬ Returns (throw e : ExceptT ε (StateM S) α) s a s' := by
  have hrun : outcome (throw e : ExceptT ε (StateM S) α) s = (.error e, s) := rfl
  rw [Returns, hrun]
  simp

theorem preserves_pure : Preserves P (pure a : ExceptT ε (StateM S) α) := fun _ hs => hs

theorem preserves_throw {e : ε} : Preserves P (throw e : ExceptT ε (StateM S) α) := fun _ hs => hs

theorem preserves_modify {g : S → S} (h : ∀ s, P s → P (g s)) :
    Preserves P (modify g : ExceptT ε (StateM S) Unit) := h

/-! ### Checks

A check is `if p then throw e` in a `do` block; what follows it is in both branches. -/

section

variable {p : Prop} [Decidable p] {e : ε} {y : ExceptT ε (StateM S) β}

theorem succeeds_check : Succeeds (if p then throw e >>= f else y) s ↔ ¬ p ∧ Succeeds y s := by
  split_ifs with hp
  · refine iff_of_false ?_ fun h => h.1 hp
    intro h
    obtain ⟨_, _, hthrow, -⟩ := succeeds_bind.mp h
    exact not_returns_throw hthrow
  · rw [and_iff_right hp]

/-- However the check ends, it leaves the state alone. -/
theorem preserves_check (hy : Preserves P y) : Preserves P (if p then throw e >>= f else y) := by
  split_ifs
  · intro s hs
    rw [outcome_bind]
    exact hs
  · exact hy

end

/-! ### Outcomes -/

/-- A computation that only has an outcome. -/
def attempt (result : Except ε α) : ExceptT ε (StateM S) α := ExceptT.mk (pure result)

theorem returns_attempt {result : Except ε α} :
    Returns (attempt result : ExceptT ε (StateM S) α) s a s' ↔ result = .ok a ∧ s' = s := by
  have hrun : outcome (attempt result : ExceptT ε (StateM S) α) s = (result, s) := rfl
  rw [Returns, hrun, Prod.mk.injEq, @eq_comm _ s]

theorem succeeds_attempt_bind {result : Except ε α} :
    Succeeds (attempt result >>= f) s ↔ ∃ a, result = .ok a ∧ Succeeds (f a) s := by
  rw [succeeds_bind]
  constructor
  · rintro ⟨a, s₁, hresult, hf⟩
    obtain ⟨hok, rfl⟩ := returns_attempt.mp hresult
    exact ⟨a, hok, hf⟩
  · rintro ⟨a, hok, hf⟩
    exact ⟨a, s, returns_attempt.mpr ⟨hok, rfl⟩, hf⟩

theorem preserves_attempt {result : Except ε α} :
    Preserves P (attempt result : ExceptT ε (StateM S) α) := fun _ hs => hs

/-! ### No state -/

/-- Without a state, a sequence succeeds if its parts do. -/
theorem bind_eq_ok {y : Except ε α} {g : α → Except ε β} :
    y >>= g = .ok b ↔ ∃ a, y = .ok a ∧ g a = .ok b := by
  cases y with
  | error e =>
    constructor
    · intro h
      cases h
    · rintro ⟨a, h, -⟩
      cases h
  | ok a =>
    constructor
    · intro h
      exact ⟨a, rfl, h⟩
    · rintro ⟨a', h, hg⟩
      obtain rfl := Except.ok.inj h
      exact hg

/-! ### A part of the state -/

variable {get : T → S} {set : S → T → T} {t t' : T}

/-- `x` on the part of the state that `get` and `set` give access to. -/
def zoom (get : T → S) (set : S → T → T) (x : ExceptT ε (StateM S) α) : ExceptT ε (StateM T) α :=
  ExceptT.mk fun t => ((outcome x (get t)).1, set (outcome x (get t)).2 t)

theorem outcome_zoom :
    outcome (zoom get set x) t = ((outcome x (get t)).1, set (outcome x (get t)).2 t) := rfl

theorem returns_zoom :
    Returns (zoom get set x) t a t' ↔ ∃ s, Returns x (get t) a s ∧ t' = set s t := by
  unfold Returns
  rw [outcome_zoom]
  rcases outcome x (get t) with ⟨result, s⟩
  simp only [Prod.mk.injEq]
  constructor
  · rintro ⟨rfl, rfl⟩
    exact ⟨s, ⟨rfl, rfl⟩, rfl⟩
  · rintro ⟨s', ⟨rfl, rfl⟩, rfl⟩
    exact ⟨rfl, rfl⟩

theorem preserves_zoom (hget : ∀ s t, get (set s t) = s) (hx : Preserves P x) :
    Preserves (fun t => P (get t)) (zoom get set x) := by
  intro t ht
  rw [outcome_zoom, hget]
  exact hx (get t) ht

end ExceptState
