import Mathlib.Algebra.BigOperators.Group.Finset.Piecewise
import Mathlib.Algebra.Order.BigOperators.Group.Multiset
import Mathlib.Data.Multiset.AddSub

/-!
# Handles with one owner

Objects of which each holds at most one handle, and a system that gives handles out and takes them
back.  The same handle may be given out several times, as by a system that counts references, and is
then live that many times.  `Owned slots live` says that the objects hold what is live, neither more
nor less: nothing leaks, and what an object holds may be used and given back.

Taking a handle (`acquire`), giving it back (`release`) and moving it from one object to another
(`move`) keep this.
-/

namespace UniqueHandle

variable {ι H : Type*} {slots : ι → Option H} {live : Multiset H} {i j : ι} {h : H}

/-- What one object holds. -/
def single (slot : Option H) : Multiset H := slot.elim 0 fun h => {h}

@[simp] theorem single_none : single (none : Option H) = 0 := rfl

@[simp] theorem single_some : single (some h) = {h} := rfl

/-- The objects, of which finitely many hold something, hold what is live. -/
def Owned (slots : ι → Option H) (live : Multiset H) : Prop :=
  ∃ objects : Finset ι, (∀ i, slots i ≠ none → i ∈ objects) ∧ ∑ i ∈ objects, single (slots i) = live

theorem Owned.empty : Owned (fun _ : ι => (none : Option H)) 0 := ⟨∅, by simp, by simp⟩

/-- What is held is live. -/
theorem Owned.mem (howned : Owned slots live) (hi : slots i = some h) : h ∈ live := by
  obtain ⟨objects, hobjects, rfl⟩ := howned
  have hmem : i ∈ objects := by
    apply hobjects
    rw [hi]
    exact Option.some_ne_none h
  refine Multiset.mem_sum.mpr ⟨i, hmem, ?_⟩
  rw [hi]
  exact Multiset.mem_singleton_self h

/-- What is live is held. -/
theorem Owned.exists_of_mem (howned : Owned slots live) (hmem : h ∈ live) :
    ∃ i, slots i = some h := by
  obtain ⟨objects, -, rfl⟩ := howned
  obtain ⟨i, -, hi⟩ := Multiset.mem_sum.mp hmem
  refine ⟨i, ?_⟩
  rcases hslot : slots i with _ | h'
  · rw [hslot] at hi
    cases Multiset.notMem_zero h hi
  · rw [hslot] at hi
    rw [Multiset.mem_singleton.mp hi]

/-- When no object holds anything, nothing is live. -/
theorem Owned.eq_zero (howned : Owned slots live) (hnone : ∀ i, slots i = none) : live = 0 := by
  apply Multiset.eq_zero_of_forall_notMem
  intro h hmem
  obtain ⟨i, hi⟩ := howned.exists_of_mem hmem
  rw [hnone i] at hi
  cases hi

section

variable [DecidableEq ι]

/-- What all objects hold, but for one that now holds something else. -/
theorem sum_update {objects : Finset ι} (hi : i ∈ objects) (slot : Option H) :
    ∑ j ∈ objects, single (Function.update slots i slot j) + single (slots i) =
      ∑ j ∈ objects, single (slots j) + single slot := by
  have hother : ∑ j ∈ objects.erase i, single (Function.update slots i slot j) =
      ∑ j ∈ objects.erase i, single (slots j) := by
    apply Finset.sum_congr rfl
    intro j hj
    rw [Function.update_of_ne (Finset.ne_of_mem_erase hj)]
  rw [← Finset.add_sum_erase objects _ hi, hother, Function.update_self,
    ← Finset.add_sum_erase objects (fun j => single (slots j)) hi]
  ac_rfl

theorem mem_insert_of_update {objects : Finset ι} (hobjects : ∀ j, slots j ≠ none → j ∈ objects)
    {slot : Option H} (hj : Function.update slots i slot j ≠ none) : j ∈ insert i objects := by
  rw [Finset.mem_insert]
  by_cases hji : j = i
  · exact .inl hji
  · rw [Function.update_of_ne hji] at hj
    exact .inr (hobjects j hj)

/-- Objects that hold nothing may be counted in. -/
theorem sum_insert {objects : Finset ι} (hobjects : ∀ j, slots j ≠ none → j ∈ objects) :
    ∑ j ∈ insert i objects, single (slots j) = ∑ j ∈ objects, single (slots j) := by
  apply Finset.sum_insert_of_eq_zero_if_notMem
  intro hi
  have hnone : slots i = none := by
    by_contra hne
    exact hi (hobjects i hne)
  rw [hnone, single_none]

namespace Owned

/-- What an object comes to hold instead of what it held. -/
theorem update (howned : Owned slots live) (slot : Option H) :
    ∃ live', live' + single (slots i) = live + single slot ∧
      Owned (Function.update slots i slot) live' := by
  obtain ⟨objects, hobjects, rfl⟩ := howned
  refine ⟨∑ j ∈ insert i objects, single (Function.update slots i slot j), ?_,
    insert i objects, fun j => mem_insert_of_update hobjects, rfl⟩
  rw [sum_update (Finset.mem_insert_self i objects), sum_insert hobjects]

/-- An object without a handle takes one. -/
theorem acquire (howned : Owned slots live) (hi : slots i = none) (h : H) :
    Owned (Function.update slots i (some h)) (h ::ₘ live) := by
  obtain ⟨live', heq, howned'⟩ := howned.update (i := i) (some h)
  rw [hi, single_none, add_zero, single_some, add_comm, Multiset.singleton_add] at heq
  rwa [← heq]

/-- An object gives its handle back, if it has one. -/
theorem release (howned : Owned slots (single (slots i) + live)) :
    Owned (Function.update slots i none) live := by
  obtain ⟨live', heq, howned'⟩ := howned.update (i := i) none
  rw [single_none, add_zero, add_comm] at heq
  rwa [← add_left_cancel heq]

/-- An object without a handle takes the one of another, if that has one. -/
theorem move (howned : Owned slots live) (hij : i ≠ j) (hi : slots i = none) :
    Owned (Function.update (Function.update slots i (slots j)) j none) live := by
  obtain ⟨live', heq, howned'⟩ := howned.update (i := i) (slots j)
  obtain ⟨live'', heq', howned''⟩ := howned'.update (i := j) none
  rw [hi, single_none, add_zero] at heq
  rw [Function.update_of_ne hij.symm, single_none, add_zero, heq] at heq'
  rwa [← add_right_cancel heq']

/-- A handle that is live once is held by one object. -/
theorem unique (howned : Owned slots live) (hnodup : live.Nodup) (hi : slots i = some h)
    (hj : slots j = some h) : i = j := by
  by_contra hij
  obtain ⟨live', heq, howned'⟩ := howned.update (i := i) none
  have hmem : h ∈ live' := howned'.mem ((Function.update_of_ne (Ne.symm hij) _ _).trans hj)
  rw [hi, single_none, add_zero, single_some, add_comm, Multiset.singleton_add] at heq
  rw [← heq, Multiset.nodup_cons] at hnodup
  exact hnodup.1 hmem

end Owned

end

end UniqueHandle
