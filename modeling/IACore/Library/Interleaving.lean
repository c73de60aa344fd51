import Mathlib.Data.Multiset.Bind
import Mathlib.Data.Multiset.Count
import Mathlib.Data.Set.Finite.Basic
import Mathlib.Logic.Relation

/-!
# Interleaved call stacks

Threads with call stacks over a shared state.  A program is a function `P`: what thread `i`, asked
for the move `a`, does when the frame `f` is on top of its stack and the shared state is `s`; the
frames it answers take the place of `f`.  Any thread may move next (`StepWhere`, `RunWhere`); a
condition on the states and frames that moves are made from restricts the runs that are looked at.

Most invariants do not care which thread a frame belongs to: they speak of the shared state and of
the *bag* of all frames.  For those one step is `f ::ₘ others ↦ fs + others` (`StepWhere.bag`), and
an invariant of that form holds along every run (`RunWhere.bag`).

`record` makes a program write down what an observer sees of each step; it takes the same steps
(`Run.recorded`).
-/

namespace Interleaving

/-- A shared state and the threads' stacks, tops first. -/
structure Config (S F : Type*) where
  shared : S
  threads : List (List F)

variable {S F A : Type*} (P : ℕ → A → S → F → Option (S × List F))

/-- All frames of all stacks. -/
def Config.frames (γ : Config S F) : Multiset F := (γ.threads.flatten : List F)

/-- The move `a` of thread `i`. -/
def step (i : ℕ) (a : A) (γ : Config S F) : Option (Config S F) :=
  match γ.threads[i]? with
  | some (f :: rest) => (P i a γ.shared f).map fun r => ⟨r.1, γ.threads.set i (r.2 ++ rest)⟩
  | _ => none

/-- A step of some thread, from a state and a top frame that satisfy `C`. -/
def StepWhere (C : Config S F → F → Prop) (γ γ' : Config S F) : Prop :=
  ∃ i a f rest s' fs, γ.threads[i]? = some (f :: rest) ∧ C γ f ∧ P i a γ.shared f = some (s', fs) ∧
    γ' = ⟨s', γ.threads.set i (fs ++ rest)⟩

/-- Any number of steps that satisfy `C`. -/
abbrev RunWhere (C : Config S F → F → Prop) : Config S F → Config S F → Prop :=
  Relation.ReflTransGen (StepWhere P C)

/-- Any interleaving. -/
abbrev Run : Config S F → Config S F → Prop := RunWhere P fun _ _ => True

/-- A list of moves, one after the other; those that are not enabled, or made from where `C` fails,
are skipped. -/
def playWhere (C : Config S F → F → Prop) [∀ γ f, Decidable (C γ f)] :
    List (ℕ × A) → Config S F → Config S F
  | [], γ => γ
  | (i, a) :: moves, γ =>
    playWhere C moves <|
      match γ.threads[i]? with
      | some (f :: _) => if C γ f then (step P i a γ).getD γ else γ
      | _ => γ

abbrev play : List (ℕ × A) → Config S F → Config S F := playWhere P fun _ _ => True

variable {P} {C D : Config S F → F → Prop} {γ γ' : Config S F}

theorem StepWhere.mono (hCD : ∀ γ f, C γ f → D γ f) (h : StepWhere P C γ γ') :
    StepWhere P D γ γ' := by
  obtain ⟨i, a, f, rest, s', fs, htop, hC, hP, rfl⟩ := h
  exact ⟨i, a, f, rest, s', fs, htop, hCD _ _ hC, hP, rfl⟩

theorem RunWhere.mono (hCD : ∀ γ f, C γ f → D γ f) (h : RunWhere P C γ γ') :
    RunWhere P D γ γ' :=
  Relation.ReflTransGen.mono (fun _ _ => StepWhere.mono hCD) _ _ h

theorem RunWhere.run (h : RunWhere P C γ γ') : Run P γ γ' := h.mono fun _ _ _ => trivial

theorem stepWhere_of_step {i : ℕ} {a : A} {f : F} {rest : List F}
    (htop : γ.threads[i]? = some (f :: rest)) (hC : C γ f) (h : step P i a γ = some γ') :
    StepWhere P C γ γ' := by
  rw [step, htop] at h
  obtain ⟨⟨s', fs⟩, hP, rfl⟩ := Option.map_eq_some_iff.mp h
  exact ⟨i, a, f, rest, s', fs, htop, hC, hP, rfl⟩

/-- A step of the thread between `before` and `after`. -/
theorem run_of_split (before after : List (List F)) (rest : List F) {a : A} {f : F} {fs : List F}
    {s s' : S} (hP : P before.length a s f = some (s', fs)) :
    Run P ⟨s, before ++ (f :: rest) :: after⟩ ⟨s', before ++ (fs ++ rest) :: after⟩ :=
  .single ⟨before.length, a, f, rest, s', fs, by simp, trivial, hP, by simp⟩

theorem run_playWhere [∀ γ f, Decidable (C γ f)] (moves : List (ℕ × A)) (γ : Config S F) :
    RunWhere P C γ (playWhere P C moves γ) := by
  induction moves generalizing γ with
  | nil => exact .refl
  | cons move moves ih =>
    obtain ⟨i, a⟩ := move
    rw [playWhere]
    refine .trans ?_ (ih _)
    split
    · next f rest htop =>
      split_ifs with hC
      · cases hstep : step P i a γ with
        | none => exact .refl
        | some δ => exact .single (stepWhere_of_step htop hC hstep)
      · exact .refl
    · exact .refl

theorem run_play (moves : List (ℕ × A)) (γ : Config S F) : Run P γ (play P moves γ) :=
  run_playWhere moves γ

/-- An invariant of the whole configuration. -/
theorem RunWhere.invariant {I : Config S F → Prop} (hrun : RunWhere P C γ γ')
    (hstep : ∀ δ i a f rest s' fs, δ.threads[i]? = some (f :: rest) → C δ f →
      P i a δ.shared f = some (s', fs) → I δ → I ⟨s', δ.threads.set i (fs ++ rest)⟩)
    (h : I γ) : I γ' := by
  induction hrun with
  | refl => exact h
  | tail _ hlast ih =>
    obtain ⟨i, a, f, rest, s', fs, htop, hC, hP, rfl⟩ := hlast
    exact hstep _ i a f rest s' fs htop hC hP ih

/-! ### The bag of frames -/

/-- The stack of thread `i` and the stacks before and after it. -/
theorem threads_split {threads : List (List F)} {i : ℕ} {stack : List F}
    (h : threads[i]? = some stack) :
    ∃ before after, threads = before ++ stack :: after ∧ before.length = i ∧
      ∀ stack', threads.set i stack' = before ++ stack' :: after := by
  obtain ⟨hi, hget⟩ := List.getElem?_eq_some_iff.mp h
  have hlength : (threads.take i).length = i := List.length_take_of_le hi.le
  have hsplit : threads = threads.take i ++ stack :: threads.drop (i + 1) := by
    rw [← hget, List.getElem_cons_drop, List.take_append_drop]
  refine ⟨threads.take i, threads.drop (i + 1), hsplit, hlength, fun stack' => ?_⟩
  rw [List.set_eq_take_append_cons_drop, if_pos hi]

theorem Config.mem_frames {f : F} :
    f ∈ γ.frames ↔ ∃ (i : ℕ) (stack : List F), γ.threads[i]? = some stack ∧ f ∈ stack := by
  rw [frames, Multiset.mem_coe, List.mem_flatten]
  constructor
  · rintro ⟨stack, hmem, hf⟩
    obtain ⟨i, hi⟩ := List.mem_iff_getElem?.mp hmem
    exact ⟨i, stack, hi, hf⟩
  · rintro ⟨i, stack, hi, hf⟩
    exact ⟨stack, List.mem_of_getElem? hi, hf⟩

/-- The frame on top of a stack is one frame of the bag; what it leaves behind replaces it. -/
theorem Config.frames_split {i : ℕ} {f : F} {rest : List F}
    (htop : γ.threads[i]? = some (f :: rest)) :
    ∃ others : Multiset F, γ.frames = f ::ₘ others ∧ ∀ (s' : S) (fs : List F),
      (Config.mk s' (γ.threads.set i (fs ++ rest))).frames = (fs : Multiset F) + others := by
  obtain ⟨before, after, hsplit, -, hset⟩ := threads_split htop
  refine ⟨(before.flatten ++ (rest ++ after.flatten) : List F), ?_, fun s' fs => ?_⟩
  · rw [frames, hsplit, List.flatten_append, List.flatten_cons, Multiset.cons_coe,
      Multiset.coe_eq_coe]
    exact List.perm_middle
  · rw [frames, hset, List.flatten_append, List.flatten_cons, Multiset.coe_add,
      Multiset.coe_eq_coe, List.append_assoc]
    exact List.perm_append_comm_assoc _ _ _

theorem StepWhere.bag (h : StepWhere P C γ γ') :
    ∃ i a f fs others, C γ f ∧ P i a γ.shared f = some (γ'.shared, fs) ∧
      γ.frames = f ::ₘ others ∧ γ'.frames = (fs : Multiset F) + others := by
  obtain ⟨i, a, f, rest, s', fs, htop, hC, hP, rfl⟩ := h
  obtain ⟨others, hbefore, hafter⟩ := Config.frames_split htop
  exact ⟨i, a, f, fs, others, hC, hP, hbefore, hafter s' fs⟩

/-- An invariant of the shared state and the bag of frames. -/
theorem RunWhere.bag {I : S → Multiset F → Prop} (hrun : RunWhere P C γ γ')
    (hstep : ∀ δ i a f fs others s', C δ f → δ.frames = f ::ₘ others →
      P i a δ.shared f = some (s', fs) → I δ.shared (f ::ₘ others) → I s' (fs + others))
    (h : I γ.shared γ.frames) : I γ'.shared γ'.frames := by
  induction hrun with
  | refl => exact h
  | @tail δ δ' _ hlast ih =>
    obtain ⟨i, a, f, fs, others, hC, hP, hbefore, hafter⟩ := hlast.bag
    rw [hafter]
    exact hstep δ i a f fs others _ hC hbefore hP (hbefore ▸ ih)

/-! ### Recording -/

/-- The program `P` with a record of what `obs` sees of each step, as part of the shared state. -/
def record {O : Type*} (obs : S → F → List O) (P : ℕ → A → S → F → Option (S × List F)) (i : ℕ)
    (a : A) (s : S × List O) (f : F) : Option ((S × List O) × List F) :=
  (P i a s.1 f).map fun r => ((r.1, s.2 ++ obs s.1 f), r.2)

/-- A configuration with the record `h`. -/
def Config.recorded {O : Type*} (γ : Config S F) (h : List O) : Config (S × List O) F :=
  ⟨(γ.shared, h), γ.threads⟩

section

variable {O : Type*} {obs : S → F → List O}

theorem record_eq_some {i : ℕ} {a : A} {s s' : S × List O} {f : F} {fs : List F} :
    record obs P i a s f = some (s', fs) ↔
      P i a s.1 f = some (s'.1, fs) ∧ s'.2 = s.2 ++ obs s.1 f := by
  rw [record, Option.map_eq_some_iff]
  constructor
  · rintro ⟨⟨s₁, fs₁⟩, hP, heq⟩
    cases heq
    exact ⟨hP, rfl⟩
  · rintro ⟨hP, hrecord⟩
    exact ⟨(s'.1, fs), hP, by rw [← hrecord]⟩

/-- Every run has a record. -/
theorem Run.recorded (hrun : Run P γ γ') (h : List O) :
    ∃ h', Run (record obs P) (γ.recorded h) (γ'.recorded h') := by
  induction hrun with
  | refl => exact ⟨h, .refl⟩
  | @tail δ _ _ hlast ih =>
    obtain ⟨h', hrecord⟩ := ih
    obtain ⟨i, a, f, rest, s', fs, htop, -, hP, rfl⟩ := hlast
    refine ⟨h' ++ obs δ.shared f, hrecord.tail ⟨i, a, f, rest, (s', _), fs, htop, trivial, ?_, rfl⟩⟩
    exact record_eq_some.mpr ⟨hP, rfl⟩

end

/-! ### Waiting in a circle -/

/-- If each of finitely many waits for another one of them, some wait in a circle. -/
theorem exists_cycle {α : Type*} {r : α → α → Prop} {s : Set α} (hs : s.Finite) (hne : s.Nonempty)
    (h : ∀ x ∈ s, ∃ y ∈ s, r x y) : ∃ x ∈ s, Relation.TransGen r x x := by
  by_contra hno
  push Not at hno
  have : Finite s := hs
  let after : s → s → Prop := fun y x => Relation.TransGen r x y
  have : IsTrans s after := ⟨fun _ _ _ hyx hzy => hzy.trans hyx⟩
  have : Std.Irrefl after := ⟨fun x => hno x x.2⟩
  have hwf := Finite.wellFounded_of_trans_of_irrefl after
  have hfalse : ∀ x : s, False := by
    intro x
    induction x using hwf.induction with
    | h x ih =>
      obtain ⟨y, hy, hxy⟩ := h x x.2
      exact ih ⟨y, hy⟩ (.single hxy)
  obtain ⟨x, hx⟩ := hne
  exact hfalse ⟨x, hx⟩

end Interleaving
