import IACore.Environment
import Mathlib.Logic.Function.Basic

/-!
# The environment as a store

A string of the environment is for at most one name without an equals sign, what stands before its
first one (`valueOf_eq_some`).  So what the calls do to the list for one name is invisible under
every other (`getenv_put`, `getenv_unsetenv`), whatever strings the process was started with, and
the calls are those of a store from names to values.
-/

namespace IACore

namespace Environ

variable {env : Environ} {name other value entry : Text}

/-- A string is for the name that stands before its first equals sign. -/
theorem valueOf_eq_some (hname : '='.toUInt8 ∉ name) (h : valueOf name entry = some value) :
    entry = name ++ ['='.toUInt8] ++ value ∧ entry.takeWhile (· ≠ '='.toUInt8) = name := by
  obtain ⟨⟨rest, hrest⟩, hvalue⟩ := Option.ite_none_right_eq_some.mp h
  have hentry : entry = name ++ ['='.toUInt8] ++ value := by
    rw [← hrest, ← Option.some.inj hvalue, ← hrest]
    simp
  refine ⟨hentry, ?_⟩
  have hall : ∀ c ∈ name, (decide (c ≠ '='.toUInt8)) = true := by
    intro c hc
    rw [decide_eq_true_eq]
    rintro rfl
    exact hname hc
  rw [hentry, List.append_assoc, List.takeWhile_append_of_pos hall]
  simp

theorem valueOf_append (name value : Text) :
    valueOf name (name ++ ['='.toUInt8] ++ value) = some value := by
  rw [valueOf, if_pos (List.prefix_append _ _)]
  simp

/-- No string is for two names. -/
theorem valueOf_eq_none (hname : '='.toUInt8 ∉ name) (hother : '='.toUInt8 ∉ other)
    (hne : other ≠ name) (h : valueOf name entry = some value) : valueOf other entry = none := by
  cases hboth : valueOf other entry with
  | none => rfl
  | some value' =>
    have hfirst := (valueOf_eq_some hname h).2
    have hfirst' := (valueOf_eq_some hother hboth).2
    exact absurd (hfirst'.symm.trans hfirst) hne

/-- `put` changes what there is for its own name only. -/
theorem findSome_put (hname : '='.toUInt8 ∉ name) (hother : '='.toUInt8 ∉ other) :
    (put name value env).findSome? (valueOf other) =
      if other = name then some value else env.findSome? (valueOf other) := by
  have hnew := valueOf_append name value
  have hhide : other ≠ name → valueOf other (name ++ ['='.toUInt8] ++ value) = none :=
    fun hne => valueOf_eq_none hname hother hne hnew
  induction env with
  | nil =>
    rw [put, List.findSome?_singleton]
    split_ifs with heq
    · rw [heq, hnew]
    · rw [hhide heq]
      rfl
  | cons entry env ih =>
    rw [put]
    cases hentry : valueOf name entry with
    | some old =>
      rw [Option.isSome_some, if_pos rfl, List.findSome?_cons, List.findSome?_cons]
      split_ifs with heq
      · rw [heq, hnew]
      · rw [hhide heq, valueOf_eq_none hname hother heq hentry]
    | none =>
      rw [Option.isSome_none, if_neg Bool.false_ne_true, List.findSome?_cons, List.findSome?_cons,
        ih]
      split_ifs with heq
      · rw [heq, hentry]
      · rfl

/-- Removing what there is for a name leaves nothing for it, and everything for the others. -/
theorem findSome_filter (hname : '='.toUInt8 ∉ name) (hother : '='.toUInt8 ∉ other) :
    (env.filter fun entry => (valueOf name entry).isNone).findSome? (valueOf other) =
      if other = name then none else env.findSome? (valueOf other) := by
  induction env with
  | nil => simp
  | cons entry env ih =>
    cases hentry : valueOf name entry with
    | some old =>
      rw [List.filter_cons_of_neg (by rw [hentry]; exact Bool.false_ne_true), ih,
        List.findSome?_cons]
      split_ifs with heq
      · rfl
      · rw [valueOf_eq_none hname hother heq hentry]
    | none =>
      rw [List.filter_cons_of_pos (by rw [hentry]; rfl), List.findSome?_cons, List.findSome?_cons,
        ih]
      split_ifs with heq
      · rw [heq, hentry]
      · rfl

theorem getenv_put (hname : IsName name) (hother : '='.toUInt8 ∉ other) :
    (put name value env).getenv other = if other = name then some value else env.getenv other := by
  rw [getenv, getenv, findSome_put hname.2 hother]
  split_ifs with hempty heq
  · rw [heq] at hempty
    exact absurd hempty hname.1
  · rfl
  · rfl
  · rfl

theorem getenv_filter (hname : IsName name) (hother : '='.toUInt8 ∉ other) :
    getenv (env.filter fun entry => (valueOf name entry).isNone) other =
      if other = name then none else env.getenv other := by
  rw [getenv, getenv, findSome_filter hname.2 hother]
  split_ifs <;> rfl

end Environ

namespace Environment

open Environ

/-- When a call succeeds. -/
def Op.Succeeds : Op → Prop
  | .set name _ memory => IsName (cString name) ∧ memory = true
  | .unset name => IsName (cString name)

/-- A text that starts a name is not empty. -/
theorem ne_nil_of_isName {name : Text} (h : IsName (cString name)) : name ≠ [] := by
  rintro rfl
  exact h.1 rfl

/-- A call that succeeds does what it means to each variable, and another one nothing. -/
theorem Op.run_spec (env : Environ) (op : Op) :
    ((op.run env).1 = .ok () ↔ op.Succeeds) ∧
    ((op.run env).1 ≠ .ok () → (op.run env).2 = env) ∧
    ∀ name, '='.toUInt8 ∉ name → (op.run env).2.getenv name = op.meaning env.getenv name := by
  cases op with
  | set key value memory =>
    by_cases hsucceeds : IsName (cString key) ∧ memory = true
    · have hrun : Op.run env (.set key value memory) =
          (.ok (), put (cString key) (cString value) env) := by
        simp [Op.run, Environment.set, setenv, ne_nil_of_isName hsucceeds.1, hsucceeds]
      rw [hrun]
      refine ⟨iff_of_true rfl hsucceeds, fun h => absurd rfl h, ?_⟩
      intro name hname
      rw [getenv_put hsucceeds.1 hname, Op.meaning, if_pos hsucceeds, Function.update_apply]
    · have hrun : ∃ message, Op.run env (.set key value memory) = (.error message, env) := by
        by_cases hempty : key = []
        · exact ⟨_, if_pos hempty⟩
        · refine ⟨text "Failed to set environment variable: " ++ key, ?_⟩
          simp only [Op.run, Environment.set, setenv, if_neg hempty, if_neg hsucceeds]
      obtain ⟨message, hrun⟩ := hrun
      rw [hrun]
      refine ⟨iff_of_false nofun hsucceeds, fun _ => rfl, ?_⟩
      intro name hname
      rw [Op.meaning, if_neg hsucceeds]
  | unset key =>
    by_cases hsucceeds : IsName (cString key)
    · have hrun : Op.run env (.unset key) =
          (.ok (), env.filter fun entry => (valueOf (cString key) entry).isNone) := by
        simp [Op.run, Environment.unset, unsetenv, ne_nil_of_isName hsucceeds, hsucceeds]
      rw [hrun]
      refine ⟨iff_of_true rfl hsucceeds, fun h => absurd rfl h, ?_⟩
      intro name hname
      rw [getenv_filter hsucceeds hname, Op.meaning, if_pos hsucceeds, Function.update_apply]
    · have hrun : ∃ message, Op.run env (.unset key) = (.error message, env) := by
        by_cases hempty : key = []
        · exact ⟨_, if_pos hempty⟩
        · refine ⟨text "Failed to unset environment variable: " ++ key, ?_⟩
          simp only [Op.run, Environment.unset, unsetenv, if_neg hempty, if_neg hsucceeds]
      obtain ⟨message, hrun⟩ := hrun
      rw [hrun]
      refine ⟨iff_of_false nofun hsucceeds, fun _ => rfl, ?_⟩
      intro name hname
      rw [Op.meaning, if_neg hsucceeds]

/-- What a call means for a name rests on what the name has before it. -/
theorem Op.meaning_congr {vars vars' : Variables} {name : Text}
    (h : vars name = vars' name) (op : Op) :
    op.meaning vars name = op.meaning vars' name := by
  cases op with
  | set key value memory =>
    simp only [Op.meaning]
    split_ifs
    · rw [Function.update_apply, Function.update_apply, h]
    · exact h
  | unset key =>
    simp only [Op.meaning]
    split_ifs
    · rw [Function.update_apply, Function.update_apply, h]
    · exact h

/-- After any calls on any environment, `find`, `get` and `exists` see for a name without an equals
sign what the calls mean for it, from what the environment had for it at first; names and values are
taken up to their first NUL.  A call succeeds just for a name that is neither empty nor has an
equals sign then, and changes nothing when it fails. -/
theorem environment_refines (env : Environ) (ops : List Op) :
    (∀ name defaultValue, '='.toUInt8 ∉ cString name →
      let value := ops.foldl (fun vars op => op.meaning vars) env.getenv (cString name)
      find (runAll env ops) name = value ∧
        get (runAll env ops) name defaultValue = value.getD defaultValue ∧
        exists' (runAll env ops) name = value.isSome) ∧
    ∀ op : Op, ((op.run (runAll env ops)).1 = .ok () ↔ op.Succeeds) ∧
      ((op.run (runAll env ops)).1 ≠ .ok () → (op.run (runAll env ops)).2 = runAll env ops) := by
  constructor
  · intro name defaultValue hname
    have hfold : ∀ (vars : Variables) (env : Environ),
        env.getenv (cString name) = vars (cString name) →
          (runAll env ops).getenv (cString name) =
            ops.foldl (fun vars op => op.meaning vars) vars (cString name) := by
      induction ops with
      | nil => exact fun _ _ h => h
      | cons op ops ih =>
        intro vars env h
        rw [runAll, List.foldl_cons, List.foldl_cons]
        apply ih
        rw [(op.run_spec env).2.2 _ hname]
        exact Op.meaning_congr h op
    have hfind : find (runAll env ops) name = _ := hfold env.getenv env rfl
    refine ⟨hfind, ?_, ?_⟩
    · rw [get, hfind]
    · rw [exists', hfind]
  · intro op
    exact ⟨(op.run_spec _).1, (op.run_spec _).2.1⟩

/-- A variable is set under a name that goes on after a NUL, and another one of which the name
begins like it is unset. -/
theorem environment_refines_nul :
    find (runAll [text "AB=1"] [.set (text "A" ++ [0, 66]) (text "x=y") true, .unset (text "AB")])
      (text "A") = some (text "x=y") :=
  ((environment_refines _ _).1 (text "A") [] (by decide)).1

/-- A variable that the process was started with twice is set, which is what `getenv` sees, and
unset, which removes both. -/
example : find (runAll [text "A=1", text "AB=2", text "A=3"] [.set (text "A") (text "x=y") true])
      (text "A") = some (text "x=y") ∧
    find (runAll [text "A=1", text "AB=2", text "A=3"] [.unset (text "A")]) (text "A") = none := by
  decide

end Environment

end IACore
