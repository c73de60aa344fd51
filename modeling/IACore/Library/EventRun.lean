import Mathlib.Data.List.Induction
import Mathlib.Data.Option.Basic

/-!
# Runs of a partial step function

A system is a function `step : S → E → Option S`: what an event does in a state, `none` where it may
not happen.  `run` plays a list of events; `Along step C s events` says that every event of a run
happens in a state that satisfies the condition `C` for it.

Two rules: an invariant that every step keeps holds after every run (`invariant`), and a property
that a step keeps *exactly* under a condition holds in every state of a run exactly when every step
of it meets the condition (`throughout_iff_along`).
-/

namespace EventRun

variable {S E : Type*} (step : S → E → Option S)

/-- One event after the other. -/
def run (s : S) (events : List E) : Option S := events.foldlM step s

/-- Every event of the run from `s` satisfies `C` where it happens. -/
def Along (C : S → E → Prop) : S → List E → Prop
  | _, [] => True
  | s, event :: events => C s event ∧ ∀ s', step s event = some s' → Along C s' events

/-- Every state of the run from `s` satisfies `I`. -/
def Throughout (I : S → Prop) (s : S) (events : List E) : Prop :=
  ∀ before s', before <+: events → run step s before = some s' → I s'

variable {step} {s s' : S} {event : E} {events events' : List E} {I J : S → Prop} {C : S → E → Prop}

@[simp] theorem run_nil : run step s ([] : List E) = some s := rfl

theorem run_cons_eq_some : run step s (event :: events) = some s' ↔
    ∃ s₁, step s event = some s₁ ∧ run step s₁ events = some s' := by
  simp [run, Option.bind_eq_some_iff]

theorem run_concat (s : S) (events : List E) (event : E) :
    run step s (events ++ [event]) = (run step s events).bind fun s' => step s' event := by
  rw [run, run, List.foldlM_append]
  cases events.foldlM step s with
  | none => rfl
  | some s' => simp

@[simp] theorem along_nil : Along step C s [] := trivial

theorem along_cons (h : step s event = some s') :
    Along step C s (event :: events) ↔ C s event ∧ Along step C s' events := by
  simp [Along, h]

/-- A step invariant is a run invariant. -/
theorem invariant (hstep : ∀ s event s', I s → step s event = some s' → I s')
    (hrun : run step s events = some s') (h : I s) : I s' := by
  induction events generalizing s with
  | nil => exact Option.some.inj hrun ▸ h
  | cons event events ih =>
    obtain ⟨s₁, hevent, hrun⟩ := run_cons_eq_some.mp hrun
    exact ih hrun (hstep s event s₁ h hevent)

/-- An invariant of the steps on some events is one of the runs of these. -/
theorem invariant_of_events {Q : E → Prop}
    (hstep : ∀ s event s', Q event → I s → step s event = some s' → I s')
    (hevents : ∀ event ∈ events, Q event) (hrun : run step s events = some s') (h : I s) :
    I s' := by
  induction events generalizing s with
  | nil => exact Option.some.inj hrun ▸ h
  | cons event events ih =>
    obtain ⟨s₁, hevent, hrun⟩ := run_cons_eq_some.mp hrun
    have hQ : Q event := hevents event List.mem_cons_self
    exact ih (fun e he => hevents e (List.mem_cons_of_mem _ he)) hrun
      (hstep s event s₁ hQ h hevent)

/-- An invariant that speaks of the events so far. -/
theorem invariant_history {H : List E → S → Prop}
    (hstep : ∀ past s event s', H past s → step s event = some s' → H (past ++ [event]) s')
    (hrun : run step s events = some s') (h : H [] s) : H events s' := by
  induction events using List.reverseRecOn generalizing s' with
  | nil => exact Option.some.inj hrun ▸ h
  | append_singleton past event ih =>
    rw [run_concat] at hrun
    obtain ⟨s₁, hpast, hevent⟩ := Option.bind_eq_some_iff.mp hrun
    exact hstep past s₁ event s' (ih hpast) hevent

theorem throughout_nil : Throughout step I s ([] : List E) ↔ I s := by
  refine ⟨fun h => h [] s (List.prefix_refl _) rfl, fun h before s' hprefix hrun => ?_⟩
  obtain rfl := List.prefix_nil.mp hprefix
  exact Option.some.inj hrun ▸ h

theorem throughout_cons (h : step s event = some s') :
    Throughout step I s (event :: events) ↔ I s ∧ Throughout step I s' events := by
  constructor
  · refine fun hall => ⟨hall [] s List.nil_prefix rfl, fun before s₁ hprefix hrun => ?_⟩
    exact hall (event :: before) s₁ (List.cons_prefix_cons.mpr ⟨rfl, hprefix⟩)
      (run_cons_eq_some.mpr ⟨s', h, hrun⟩)
  · rintro ⟨hs, hall⟩ (_ | ⟨first, before⟩) s₁ hprefix hrun
    · exact Option.some.inj hrun ▸ hs
    · obtain ⟨rfl, htail⟩ := List.cons_prefix_cons.mp hprefix
      obtain ⟨s₂, hfirst, hrun⟩ := run_cons_eq_some.mp hrun
      obtain rfl := Option.some.inj (h.symm.trans hfirst)
      exact hall before s₁ htail hrun

/-- What a step keeps under `C` holds in every state of a run whose steps all meet `C`. -/
theorem throughout_of_along (hstep : ∀ s event s', I s → C s event → step s event = some s' → I s')
    (hrun : run step s events = some s') (h : I s) (hC : Along step C s events) :
    Throughout step I s events := by
  induction events generalizing s with
  | nil => exact throughout_nil.mpr h
  | cons event events ih =>
    obtain ⟨s₁, hevent, hrun⟩ := run_cons_eq_some.mp hrun
    rw [along_cons hevent] at hC
    rw [throughout_cons hevent]
    exact ⟨h, ih hrun (hstep s event s₁ h hC.1 hevent) hC.2⟩

theorem Throughout.mono (hI : ∀ s, I s → J s) (h : Throughout step I s events) :
    Throughout step J s events := fun before s' hprefix hrun => hI s' (h before s' hprefix hrun)

/-- **Exact conditions.**  If a step from a good state leads to a good state exactly under `C`, then
a run stays good exactly if all its steps meet `C`; `J` is what good states have besides. -/
theorem throughout_iff_along (hJ : ∀ s event s', J s → I s → step s event = some s' → J s')
    (hI : ∀ s event s', J s → I s → step s event = some s' → (I s' ↔ C s event))
    (hrun : run step s events = some s') (hs : J s) (h : I s) :
    Throughout step I s events ↔ Along step C s events := by
  induction events generalizing s with
  | nil => simp [throughout_nil, h]
  | cons event events ih =>
    obtain ⟨s₁, hevent, hrun⟩ := run_cons_eq_some.mp hrun
    have hiff := hI s event s₁ hs h hevent
    rw [throughout_cons hevent, along_cons hevent]
    constructor
    · rintro ⟨-, hall⟩
      have hs₁ : I s₁ := hall [] s₁ List.nil_prefix rfl
      exact ⟨hiff.mp hs₁, (ih hrun (hJ s event s₁ hs h hevent) hs₁).mp hall⟩
    · rintro ⟨hC, hall⟩
      exact ⟨h, (ih hrun (hJ s event s₁ hs h hevent) (hiff.mpr hC)).mpr hall⟩

/-- In good states a condition may be traded for one that follows from it there. -/
theorem along_of_throughout {D : S → E → Prop}
    (hJ : ∀ s event s', J s → I s → step s event = some s' → J s')
    (hD : ∀ s event s', J s → I s → step s event = some s' → C s event → D s event)
    (hrun : run step s events = some s') (hs : J s) (h : Throughout step I s events)
    (hC : Along step C s events) : Along step D s events := by
  induction events generalizing s with
  | nil => trivial
  | cons event events ih =>
    obtain ⟨s₁, hevent, hrun⟩ := run_cons_eq_some.mp hrun
    rw [throughout_cons hevent] at h
    rw [along_cons hevent] at hC ⊢
    exact ⟨hD s event s₁ hs h.1 hevent hC.1, ih hrun (hJ s event s₁ hs h.1 hevent) h.2 hC.2⟩

/-- The exact condition for a run to stay good and for its steps to do besides what follows from the
condition in good states. -/
theorem throughout_and_along_iff {D : S → E → Prop}
    (hJ : ∀ s event s', J s → I s → step s event = some s' → J s')
    (hI : ∀ s event s', J s → I s → step s event = some s' → (I s' ↔ C s event))
    (hD : ∀ s event s', J s → I s → step s event = some s' → C s event → D s event)
    (hrun : run step s events = some s') (hs : J s) (h : I s) :
    Throughout step I s events ∧ Along step D s events ↔ Along step C s events := by
  have hiff := throughout_iff_along hJ hI hrun hs h
  constructor
  · intro hgood
    exact hiff.mp hgood.1
  · intro hC
    have hgood := hiff.mpr hC
    exact ⟨hgood, along_of_throughout hJ hD hrun hs hgood hC⟩

/-! ### Two systems in step -/

variable {T : Type*} {step' : T → E → Option T} {R : S → T → Prop} {t : T}

end EventRun
