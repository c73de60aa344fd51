import Mathlib.Data.List.Basic
import Mathlib.Logic.Function.Basic

/-!
# Escaping by entities

An escaping replaces some elements of a list by texts, its *entities*, which all begin with one
element, the mark.  If the mark is among the elements that are replaced, does not occur further on
in an entity, and no entity begins another, then what is escaped can be read back from left to right
(`unescape_escapeAll`): every mark begins an entity (`exists_entity`), and the entities are a prefix
code (`find?_entity`).
-/

/-- The elements that are replaced, with their entities. -/
structure Escaping (α : Type*) where
  mark : α
  entities : List (α × List α)
  head_eq : ∀ e ∈ entities, e.2.head? = some mark
  mark_notMem : ∀ e ∈ entities, mark ∉ e.2.tail
  prefixFree : ∀ e ∈ entities, ∀ e' ∈ entities, e.2 <+: e'.2 → e = e'
  mark_mem : mark ∈ entities.map Prod.fst

namespace Escaping

variable {α : Type*} [DecidableEq α] (E : Escaping α)

/-- The entity of an element, or the element itself. -/
def escape (c : α) : List α :=
  match E.entities.find? fun e => e.1 = c with
  | some e => e.2
  | none => [c]

def escapeAll (s : List α) : List α := s.flatMap E.escape

/-- From left to right, what every entity stands for, and everything else as it is; the first `skip`
elements belong to an entity that has been read. -/
def unescapeFrom : ℕ → List α → List α
  | _, [] => []
  | skip + 1, _ :: t => unescapeFrom skip t
  | 0, c :: t =>
    match E.entities.find? fun e => e.2.isPrefixOf (c :: t) with
    | some e => e.1 :: unescapeFrom (e.2.length - 1) t
    | none => c :: unescapeFrom 0 t

def unescape (t : List α) : List α := E.unescapeFrom 0 t

variable {E} {e : α × List α} {c : α} {s t rest : List α}

/-! ### Entities -/

omit [DecidableEq α] in
theorem entity_eq_cons (he : e ∈ E.entities) : e.2 = E.mark :: e.2.tail := by
  have hhead := E.head_eq e he
  cases htext : e.2 with
  | nil =>
    rw [htext] at hhead
    cases hhead
  | cons c t =>
    rw [htext] at hhead
    rw [Option.some.inj hhead, List.tail_cons]

/-- Where an entity begins, no other one does. -/
theorem find?_entity (he : e ∈ E.entities) (rest : List α) :
    (E.entities.find? fun e' => e'.2.isPrefixOf (e.2 ++ rest)) = some e := by
  have hunique : ∀ e' ∈ E.entities, e'.2.isPrefixOf (e.2 ++ rest) = true → e' = e := by
    intro e' he' hprefix
    rcases List.prefix_or_prefix_of_prefix (List.isPrefixOf_iff_prefix.mp hprefix)
      (List.prefix_append e.2 rest) with h | h
    · exact E.prefixFree e' he' e he h
    · exact (E.prefixFree e he e' he' h).symm
  cases hfind : E.entities.find? fun e' => e'.2.isPrefixOf (e.2 ++ rest) with
  | none =>
    have hnot := List.find?_eq_none.mp hfind e he
    exact absurd (List.isPrefixOf_iff_prefix.mpr (List.prefix_append e.2 rest)) hnot
  | some e' =>
    have hprefix := (List.find?_eq_some_iff_append.mp hfind).1
    rw [hunique e' (List.mem_of_find?_eq_some hfind) hprefix]

/-- No entity begins with another element than the mark. -/
theorem find?_of_ne_mark (hc : c ≠ E.mark) :
    (E.entities.find? fun e => e.2.isPrefixOf (c :: rest)) = none := by
  refine List.find?_eq_none.mpr fun e he hprefix => ?_
  have hprefix := List.isPrefixOf_iff_prefix.mp hprefix
  rw [entity_eq_cons he] at hprefix
  exact hc (List.cons_prefix_cons.mp hprefix).1.symm

/-- An element is replaced by an entity, or it is not the mark and stays. -/
theorem escape_cases (E : Escaping α) (c : α) :
    (∃ e ∈ E.entities, e.1 = c ∧ E.escape c = e.2) ∨
      (c ∉ E.entities.map Prod.fst ∧ c ≠ E.mark ∧ E.escape c = [c]) := by
  cases hfind : E.entities.find? fun e => e.1 = c with
  | some e =>
    refine .inl ⟨e, List.mem_of_find?_eq_some hfind, ?_, ?_⟩
    · simpa using List.find?_some hfind
    · rw [escape, hfind]
  | none =>
    have hnot : c ∉ E.entities.map Prod.fst := by
      intro hmem
      obtain ⟨e, he, heq⟩ := List.mem_map.mp hmem
      exact absurd (decide_eq_true heq) (List.find?_eq_none.mp hfind e he)
    refine .inr ⟨hnot, ?_, ?_⟩
    · rintro rfl
      exact hnot E.mark_mem
    · rw [escape, hfind]

/-! ### Reading back -/

theorem unescapeFrom_eq (skip : ℕ) (t : List α) :
    E.unescapeFrom skip t = E.unescape (t.drop skip) := by
  induction t generalizing skip with
  | nil =>
    rw [List.drop_nil]
    cases skip with
    | zero => rfl
    | succ skip => rfl
  | cons c t ih =>
    cases skip with
    | zero => rfl
    | succ skip => exact ih skip

/-- An entity is read as what it stands for, whatever follows it. -/
theorem unescape_entity (he : e ∈ E.entities) :
    E.unescape (e.2 ++ rest) = e.1 :: E.unescape rest := by
  have hfind := find?_entity he rest
  have htext := entity_eq_cons he
  rw [htext, List.cons_append] at hfind ⊢
  rw [unescape, unescapeFrom, hfind]
  show e.1 :: E.unescapeFrom (e.2.length - 1) (e.2.tail ++ rest) = _
  rw [unescapeFrom_eq, ← List.length_tail, List.drop_left]

theorem unescape_cons (hc : c ≠ E.mark) : E.unescape (c :: rest) = c :: E.unescape rest := by
  rw [unescape, unescapeFrom, find?_of_ne_mark hc]
  rfl

theorem unescape_escape (c : α) (rest : List α) :
    E.unescape (E.escape c ++ rest) = c :: E.unescape rest := by
  rcases E.escape_cases c with ⟨e, he, rfl, hescape⟩ | ⟨-, hc, hescape⟩
  · rw [hescape, unescape_entity he]
  · rw [hescape, List.singleton_append, unescape_cons hc]

/-- **Escaping is reversible.** -/
theorem unescape_escapeAll (E : Escaping α) (s : List α) : E.unescape (E.escapeAll s) = s := by
  induction s with
  | nil => rfl
  | cons c s ih =>
    show E.unescape (E.escape c ++ E.escapeAll s) = c :: s
    rw [unescape_escape, ih]

theorem escapeAll_injective (E : Escaping α) : Function.Injective E.escapeAll :=
  Function.LeftInverse.injective E.unescape_escapeAll

/-! ### What an escaped text contains -/

/-- An element that is replaced occurs in the result only as part of an entity. -/
theorem notMem_escapeAll (hc : c ∈ E.entities.map Prod.fst) (htexts : ∀ e ∈ E.entities, c ∉ e.2)
    (s : List α) : c ∉ E.escapeAll s := by
  intro hmem
  obtain ⟨d, -, hd⟩ := List.mem_flatMap.mp hmem
  rcases E.escape_cases d with ⟨e, he, -, hescape⟩ | ⟨hnot, -, hescape⟩
  · rw [hescape] at hd
    exact htexts e he hd
  · rw [hescape, List.mem_singleton] at hd
    exact hnot (hd ▸ hc)

/-- **Every mark begins an entity.** -/
theorem exists_entity {before after : List α}
    (h : E.escapeAll s = before ++ E.mark :: after) :
    ∃ e ∈ E.entities, e.2 <+: E.mark :: after := by
  induction s generalizing before with
  | nil => exact absurd h.symm (by simp [escapeAll])
  | cons c s ih =>
    have happend : E.escape c ++ E.escapeAll s = before ++ E.mark :: after := h
    rcases List.append_eq_append_iff.mp happend with ⟨before', -, hrest⟩ | ⟨found, hescape, hfound⟩
    · -- behind what `c` is replaced by
      exact ih hrest
    · cases found with
      | nil =>
        have hnil : E.escapeAll s = [] ++ E.mark :: after := hfound.symm
        exact ih hnil
      | cons d found =>
        obtain ⟨rfl, rfl⟩ := List.cons.inj hfound
        rcases E.escape_cases c with ⟨e, he, -, heq⟩ | ⟨-, hc, heq⟩
        · -- within an entity the mark is where it begins
          have htext := (hescape.symm.trans heq).trans (entity_eq_cons he)
          cases before with
          | nil => exact ⟨e, he, E.escapeAll s, by rw [← heq, hescape]; rfl⟩
          | cons b before =>
            obtain ⟨-, htail⟩ := List.cons.inj htext
            exact absurd (htail ▸ by simp) (E.mark_notMem e he)
        · rw [heq] at hescape
          have hmem : E.mark ∈ [c] := hescape ▸ by simp
          exact absurd (List.mem_singleton.mp hmem).symm hc

end Escaping
