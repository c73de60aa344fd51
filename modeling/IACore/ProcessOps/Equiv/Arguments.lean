import IACore.ProcessOps.Arguments

/-!
# What the argument loop makes of a quoted text

Between double quotes the loop collects every character but a backslash and a quote
(`foldl_turn_quoted`), spaces included; so a quoted text without the two is one argument.

With backslashes before the two every text comes through (`foldl_turn_escaped`).  But where the
loop ends an argument it asks whether the token is empty, not whether there was one, so of a quoted
list the empty arguments are lost (`argStorage_quoteAll`).
-/

namespace IACore

namespace ProcessOps

/-- The loop takes these characters for themselves inside double quotes. -/
def Plain (c : UInt8) : Prop := c ≠ '"'.toUInt8 ∧ c ≠ '\\'.toUInt8

namespace ArgumentLoop

theorem turn_quoted {σ : ArgumentLoop} {c : UInt8} (hescaped : σ.isEscaped = false)
    (hquotes : σ.inQuotes = true) (hc : Plain c) :
    σ.turn c = { σ with currentToken := σ.currentToken ++ [c] } := by
  simp [turn, hescaped, hquotes, hc.1, hc.2]

theorem foldl_turn_quoted {t : Text} (ht : ∀ c ∈ t, Plain c) {σ : ArgumentLoop}
    (hescaped : σ.isEscaped = false) (hquotes : σ.inQuotes = true) :
    t.foldl turn σ = { σ with currentToken := σ.currentToken ++ t } := by
  induction t generalizing σ with
  | nil => simp
  | cons c t ih =>
    have hc := ht c List.mem_cons_self
    have ht' : ∀ d ∈ t, Plain d := fun d hd => ht d (List.mem_cons_of_mem _ hd)
    rw [List.foldl_cons, turn_quoted hescaped hquotes hc,
      ih ht' (σ := { σ with currentToken := σ.currentToken ++ [c] }) hescaped hquotes]
    simp

end ArgumentLoop

/-- A quoted text of plain characters is one argument. -/
theorem argStorage_quoted {t : Text} (ht : ∀ c ∈ t, Plain c) (hne : t ≠ []) :
    argStorage (['"'.toUInt8] ++ t ++ ['"'.toUInt8]) = [t] := by
  have hopen : ArgumentLoop.turn .start '"'.toUInt8 = ⟨[], [], true, false⟩ := by decide
  have hclose : ArgumentLoop.turn ⟨[], t, true, false⟩ '"'.toUInt8 = ⟨[], t, false, false⟩ := rfl
  have hloop : (['"'.toUInt8] ++ t ++ ['"'.toUInt8]).foldl ArgumentLoop.turn .start
      = ⟨[], t, false, false⟩ := by
    rw [List.append_assoc, List.singleton_append, List.foldl_cons, hopen, List.foldl_append,
      ArgumentLoop.foldl_turn_quoted ht rfl rfl]
    exact hclose
  simp only [argStorage, hloop]
  rw [if_pos hne]
  rfl

/-! ### Quoting any text -/

namespace ArgumentLoop

/-- `arg_storage` if the text ends here. -/
def finish (σ : ArgumentLoop) : List Text :=
  if σ.currentToken ≠ [] then σ.argStorage ++ [σ.currentToken] else σ.argStorage

/-- Between quotes an escaped character is taken for itself. -/
theorem foldl_turn_escape {σ : ArgumentLoop} (hescaped : σ.isEscaped = false)
    (hquotes : σ.inQuotes = true) (c : UInt8) :
    (escape c).foldl turn σ = { σ with currentToken := σ.currentToken ++ [c] } := by
  unfold escape
  split_ifs with hc
  · have hslash : σ.turn '\\'.toUInt8 = { σ with isEscaped := true } := by
      simp [turn, hescaped]
    rw [List.foldl_cons, hslash, List.foldl_cons, List.foldl_nil, turn, if_pos rfl, ← hescaped]
  · rw [not_or] at hc
    rw [List.foldl_cons, List.foldl_nil, turn_quoted hescaped hquotes ⟨hc.2, hc.1⟩]

theorem foldl_turn_escaped (t : Text) {σ : ArgumentLoop} (hescaped : σ.isEscaped = false)
    (hquotes : σ.inQuotes = true) :
    (t.flatMap escape).foldl turn σ = { σ with currentToken := σ.currentToken ++ t } := by
  induction t generalizing σ with
  | nil => simp
  | cons c t ih =>
    have htail := ih (σ := { σ with currentToken := σ.currentToken ++ [c] }) hescaped hquotes
    rw [List.flatMap_cons, List.foldl_append, foldl_turn_escape hescaped hquotes, htail,
      List.append_assoc, List.singleton_append]

/-- Between arguments the loop takes a quoted text for its token. -/
theorem foldl_turn_quote (storage : List Text) (t : Text) :
    (quote t).foldl turn ⟨storage, [], false, false⟩ = ⟨storage, t, false, false⟩ := by
  have hopen : turn ⟨storage, [], false, false⟩ '"'.toUInt8 = ⟨storage, [], true, false⟩ := rfl
  have hclose : turn ⟨storage, t, true, false⟩ '"'.toUInt8 = ⟨storage, t, false, false⟩ := rfl
  rw [quote, List.append_assoc, List.singleton_append, List.foldl_cons, hopen, List.foldl_append,
    foldl_turn_escaped t rfl rfl]
  exact hclose

/-- A space behind a token. -/
theorem turn_space (storage : List Text) (t : Text) :
    turn ⟨storage, t, false, false⟩ ' '.toUInt8 =
      ⟨finish ⟨storage, t, false, false⟩, [], false, false⟩ := by
  have hspace : turn ⟨storage, t, false, false⟩ ' '.toUInt8
      = if t ≠ [] then ⟨storage ++ [t], [], false, false⟩ else ⟨storage, t, false, false⟩ := rfl
  rw [hspace, finish]
  split_ifs with ht
  · rfl
  · rw [not_not.mp ht]

theorem finish_quoteAll (args storage : List Text) :
    finish ((quoteAll args).foldl turn ⟨storage, [], false, false⟩)
      = storage ++ args.filter (· ≠ []) := by
  induction args generalizing storage with
  | nil => simp [quoteAll, finish]
  | cons arg args ih =>
    have hfinish : finish ⟨storage, arg, false, false⟩ = storage ++ [arg].filter (· ≠ []) := by
      unfold finish
      by_cases harg : arg = [] <;> simp [harg]
    cases args with
    | nil =>
      rw [quoteAll, foldl_turn_quote]
      exact hfinish
    | cons next rest =>
      rw [quoteAll, List.foldl_append, List.foldl_append, foldl_turn_quote, List.foldl_cons,
        List.foldl_nil, turn_space, ih, hfinish, List.append_assoc, ← List.filter_append]
      · rfl
      · exact nofun

end ArgumentLoop

/-- Of a quoted list the loop gives back the arguments that are not empty. -/
theorem argStorage_quoteAll_eq (args : List Text) :
    argStorage (quoteAll args) = args.filter (· ≠ []) :=
  ArgumentLoop.finish_quoteAll args []

/-- **The loop undoes quoting exactly for the lists without empty arguments.** -/
theorem argStorage_quoteAll_iff (args : List Text) :
    argStorage (quoteAll args) = args ↔ [] ∉ args := by
  rw [argStorage_quoteAll_eq, List.filter_eq_self]
  constructor
  · intro h hmem
    simpa using h [] hmem
  · intro hmem arg harg
    simpa using fun h : arg = [] => hmem (h ▸ harg)

/-- One empty argument, `""`. -/
theorem argStorage_quoteAll_empty :
    quoteAll [[]] = ['"'.toUInt8, '"'.toUInt8] ∧ argStorage (quoteAll [[]]) = [] ∧
      argStorage (quoteAll [[]]) ≠ [[]] := by
  refine ⟨?_, ?_, ?_⟩ <;> decide

end ProcessOps

end IACore
