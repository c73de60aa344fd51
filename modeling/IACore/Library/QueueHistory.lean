import Mathlib.Data.List.Nodup

/-!
# The history of a few queues

What enters some queues, and what leaves them from the front or from anywhere, is a list of events.
What is `waiting` in a queue is read off that list: what has entered it and not left, in the order
of entry.  In a `Legal` history nothing enters twice, and what is dequeued is the oldest in the
first queue that is not empty; then each queue is served in the order of entry (`Legal.fifo`).
-/

namespace QueueHistory

/-- `x` enters the queue `q` at its end, leaves its queue for its turn, or is taken out of it. -/
inductive Event (ι α : Type*) where
  | enqueued (q : ι) (x : α)
  | dequeued (x : α)
  | erased (x : α)
  deriving DecidableEq, Repr

variable {ι α : Type*}

namespace Event

def entered : Event ι α → Option α
  | enqueued _ x => some x
  | _ => none

def enteredTo [DecidableEq ι] (q : ι) : Event ι α → Option α
  | enqueued q' x => if q' = q then some x else none
  | _ => none

def served : Event ι α → Option α
  | dequeued x => some x
  | _ => none

def left : Event ι α → Option α
  | enqueued _ _ => none
  | dequeued x => some x
  | erased x => some x

end Event

/-- What has entered, in the order of the events. -/
def arrivals (h : List (Event ι α)) : List α := h.filterMap Event.entered

/-- What has entered the queue `q`. -/
def arrivalsAt [DecidableEq ι] (h : List (Event ι α)) (q : ι) : List α :=
  h.filterMap (Event.enteredTo q)

/-- What has been dequeued. -/
def served (h : List (Event ι α)) : List α := h.filterMap Event.served

/-- What has left in either way. -/
def departures (h : List (Event ι α)) : List α := h.filterMap Event.left

/-- What is in the queue `q`, oldest first. -/
def waiting [DecidableEq ι] [DecidableEq α] (h : List (Event ι α)) (q : ι) : List α :=
  (arrivalsAt h q).filter fun x => x ∉ departures h

/-- The queues are served in the order `order`, each from its front. -/
inductive Legal [DecidableEq ι] [DecidableEq α] (order : List ι) : List (Event ι α) → Prop
  | nil : Legal order []
  | enqueue {h q x} (legal : Legal order h) (hx : x ∉ arrivals h) :
      Legal order (h ++ [.enqueued q x])
  | dequeue {h x} (legal : Legal order h) (hx : (order.flatMap (waiting h)).head? = some x) :
      Legal order (h ++ [.dequeued x])
  | erase {h q x} (legal : Legal order h) (hx : x ∈ waiting h q) : Legal order (h ++ [.erased x])

/-! ### Lists -/

/-- A sublist of a list without repetitions has its elements in the order of the list. -/
theorem pair_sublist {l l' : List α} {x y : α} (hnodup : l'.Nodup) (hsub : l.Sublist l')
    (hxy : [x, y].Sublist l') (hx : x ∈ l) (hy : y ∈ l) : [x, y].Sublist l := by
  induction hsub with
  | slnil => cases hx
  | @cons l l' a hsub ih =>
    obtain ⟨ha, hnodup⟩ := List.nodup_cons.mp hnodup
    have hxa : x ≠ a := by
      rintro rfl
      exact ha (hsub.subset hx)
    exact ih hnodup ((List.sublist_cons_iff.mp hxy).resolve_right (by simp [hxa])) hx hy
  | @cons_cons l l' a hsub ih =>
    obtain ⟨ha, hnodup⟩ := List.nodup_cons.mp hnodup
    by_cases hxa : x = a
    · subst hxa
      have hyl' : y ∈ l' := List.singleton_sublist.mp (List.cons_sublist_cons.mp hxy)
      have hyl : y ∈ l := by
        rcases List.mem_cons.mp hy with rfl | hy
        · exact absurd hyl' ha
        · exact hy
      exact List.cons_sublist_cons.mpr (List.singleton_sublist.mpr hyl)
    · have hxy' : [x, y].Sublist l' :=
        (List.sublist_cons_iff.mp hxy).resolve_right (by simp [hxa])
      have hya : y ≠ a := by
        rintro rfl
        exact ha (hxy'.subset (by simp))
      exact (ih hnodup hxy' ((List.mem_cons.mp hx).resolve_left hxa)
        ((List.mem_cons.mp hy).resolve_left hya)).cons a

theorem head?_flatMap {f : ι → List α} {l : List ι} {x : α} (h : (l.flatMap f).head? = some x) :
    ∃ q ∈ l, ∃ rest, f q = x :: rest := by
  induction l with
  | nil => cases h
  | cons q l ih =>
    rw [List.flatMap_cons] at h
    cases hq : f q with
    | nil =>
      rw [hq, List.nil_append] at h
      obtain ⟨q', hq', rest, hrest⟩ := ih h
      exact ⟨q', List.mem_cons_of_mem _ hq', rest, hrest⟩
    | cons y rest =>
      rw [hq, List.cons_append, List.head?_cons] at h
      obtain rfl := Option.some.inj h
      exact ⟨q, List.mem_cons_self, rest, hq⟩

/-! ### One event more -/

@[simp] theorem arrivals_append (h h' : List (Event ι α)) :
    arrivals (h ++ h') = arrivals h ++ arrivals h' := List.filterMap_append

@[simp] theorem served_append (h h' : List (Event ι α)) :
    served (h ++ h') = served h ++ served h' := List.filterMap_append

@[simp] theorem departures_append (h h' : List (Event ι α)) :
    departures (h ++ h') = departures h ++ departures h' := List.filterMap_append

/-- What leaves does not enter. -/
theorem arrivals_left {event : Event ι α} {h : List (Event ι α)} {x : α}
    (hevent : event.left = some x) : arrivals (h ++ [event]) = arrivals h := by
  rw [arrivals_append]
  cases event with
  | enqueued q y => cases hevent
  | dequeued y => exact List.append_nil _
  | erased y => exact List.append_nil _

theorem served_subset (h : List (Event ι α)) : served h ⊆ departures h := by
  intro x hx
  obtain ⟨event, hevent, heq⟩ := List.mem_filterMap.mp hx
  refine List.mem_filterMap.mpr ⟨event, hevent, ?_⟩
  cases event with
  | enqueued q y => cases heq
  | dequeued y => exact heq
  | erased y => cases heq

section

variable [DecidableEq ι] {h : List (Event ι α)} {q q' : ι} {x : α}

@[simp] theorem arrivalsAt_append (h h' : List (Event ι α)) (q : ι) :
    arrivalsAt (h ++ h') q = arrivalsAt h q ++ arrivalsAt h' q := List.filterMap_append

theorem arrivalsAt_sublist (h : List (Event ι α)) (q : ι) :
    (arrivalsAt h q).Sublist (arrivals h) := by
  induction h with
  | nil => exact .refl _
  | cons event h ih =>
    cases event with
    | enqueued q' x =>
      show ((Event.enqueued q' x :: h).filterMap _).Sublist (x :: arrivals h)
      rw [List.filterMap_cons, Event.enteredTo]
      split_ifs
      · exact ih.cons_cons x
      · exact ih.cons x
    | dequeued x => exact ih
    | erased x => exact ih

theorem arrivalsAt_left {event : Event ι α} (hevent : event.left = some x) :
    arrivalsAt (h ++ [event]) q = arrivalsAt h q := by
  rw [arrivalsAt_append]
  cases event with
  | enqueued q y => cases hevent
  | dequeued y => exact List.append_nil _
  | erased y => exact List.append_nil _

theorem arrivalsAt_enqueued :
    arrivalsAt (h ++ [.enqueued q x]) q' = arrivalsAt h q' ++ if q = q' then [x] else [] := by
  rw [arrivalsAt_append]
  show _ ++ [Event.enqueued q x].filterMap _ = _
  rw [List.filterMap_cons, Event.enteredTo]
  split_ifs
  · rfl
  · rfl

variable [DecidableEq α]

theorem mem_waiting : x ∈ waiting h q ↔ x ∈ arrivalsAt h q ∧ x ∉ departures h := by
  rw [waiting, List.mem_filter, decide_eq_true_eq]

theorem mem_arrivals_of_waiting (hx : x ∈ waiting h q) : x ∈ arrivals h :=
  (arrivalsAt_sublist h q).subset (mem_waiting.mp hx).1

/-- What is enqueued waits at the end of its queue. -/
theorem waiting_enqueued (hx : x ∉ departures h) :
    waiting (h ++ [.enqueued q x]) q' = waiting h q' ++ if q = q' then [x] else [] := by
  have hdepartures : departures (h ++ [Event.enqueued q x]) = departures h := by
    rw [departures_append]
    exact List.append_nil _
  rw [waiting, hdepartures, arrivalsAt_enqueued, List.filter_append, waiting]
  split_ifs
  · simp [hx]
  · rfl

/-- What leaves waits no more. -/
theorem waiting_left {event : Event ι α} (hevent : event.left = some x) :
    waiting (h ++ [event]) q = (waiting h q).filter (· ≠ x) := by
  have hdepartures : departures [event] = [x] := by
    rw [departures, List.filterMap_cons, hevent, List.filterMap_nil]
  rw [waiting, waiting, arrivalsAt_left hevent, departures_append, hdepartures,
    List.filter_filter]
  refine List.filter_congr fun y _ => ?_
  rw [Bool.eq_iff_iff]
  simp [and_comm]

end

/-! ### Legal histories -/

namespace Legal

variable [DecidableEq ι] [DecidableEq α] {order : List ι} {h before : List (Event ι α)} {q q' : ι}
  {x y : α}

/-- What has left had entered. -/
theorem departures_subset (hlegal : Legal order h) : departures h ⊆ arrivals h := by
  have hleft : ∀ {h : List (Event ι α)} {event : Event ι α} {x : α}, event.left = some x →
      x ∈ arrivals h → departures h ⊆ arrivals h → departures (h ++ [event]) ⊆
        arrivals (h ++ [event]) := by
    intro h event x hevent hx hsub
    rw [departures_append, arrivals_left hevent]
    refine List.append_subset.mpr ⟨hsub, ?_⟩
    rw [departures, List.filterMap_cons, hevent, List.filterMap_nil]
    intro y hy
    rwa [List.mem_singleton.mp hy]
  induction hlegal with
  | nil => exact List.Subset.refl _
  | @enqueue h q x _ _ ih =>
    rw [departures_append, arrivals_append]
    exact List.append_subset.mpr ⟨fun y hy => List.mem_append_left _ (ih hy), nofun⟩
  | dequeue _ hx ih =>
    obtain ⟨q, -, rest, hrest⟩ := head?_flatMap hx
    exact hleft rfl (mem_arrivals_of_waiting (q := q) (by rw [hrest]; exact List.mem_cons_self)) ih
  | erase _ hx ih => exact hleft rfl (mem_arrivals_of_waiting hx) ih

/-- Nothing enters twice. -/
theorem arrivals_nodup (hlegal : Legal order h) : (arrivals h).Nodup := by
  induction hlegal with
  | nil => exact List.nodup_nil
  | @enqueue h q x _ hx ih =>
    rw [arrivals_append]
    exact List.nodup_append.mpr ⟨ih, List.nodup_singleton x, fun y hy z hz => by
      rw [List.mem_singleton.mp hz]
      rintro rfl
      exact hx hy⟩
  | dequeue _ _ ih => rwa [arrivals_left rfl]
  | erase _ _ ih => rwa [arrivals_left rfl]

/-- Nothing enters two queues. -/
theorem arrivalsAt_inj (hlegal : Legal order h) (hx : x ∈ arrivalsAt h q)
    (hx' : x ∈ arrivalsAt h q') : q = q' := by
  induction hlegal with
  | nil => cases hx
  | @enqueue h q₀ y _ hy ih =>
    have hold : ∀ q, x ∈ arrivalsAt (h ++ [.enqueued q₀ y]) q →
        x ∈ arrivalsAt h q ∨ (x = y ∧ q₀ = q) := by
      intro q hq
      rw [arrivalsAt_enqueued, List.mem_append] at hq
      refine hq.imp_right fun hnew => ?_
      split_ifs at hnew with hq₀
      · exact ⟨List.mem_singleton.mp hnew, hq₀⟩
      · cases hnew
    have hnot : ∀ q, x ∈ arrivalsAt h q → x ≠ y := by
      rintro q hq rfl
      exact hy ((arrivalsAt_sublist h q).subset hq)
    rcases hold q hx with hx | ⟨rfl, rfl⟩
    · rcases hold q' hx' with hx' | ⟨heq, -⟩
      · exact ih hx hx'
      · exact absurd heq (hnot q hx)
    · rcases hold q' hx' with hx' | ⟨-, hq⟩
      · exact absurd rfl (hnot q' hx')
      · exact hq
  | dequeue _ _ ih =>
    rw [arrivalsAt_left rfl] at hx hx'
    exact ih hx hx'
  | erase _ _ ih =>
    rw [arrivalsAt_left rfl] at hx hx'
    exact ih hx hx'

theorem waiting_nodup (hlegal : Legal order h) (q : ι) : (waiting h q).Nodup :=
  (hlegal.arrivals_nodup.sublist (arrivalsAt_sublist h q)).filter _

/-- What leaves a queue from position `i` leaves the others as they are. -/
theorem waiting_eraseIdx (hlegal : Legal order h) {event : Event ι α} {i : ℕ}
    (hevent : event.left = some x) (hx : (waiting h q)[i]? = some x) :
    waiting (h ++ [event]) q' = if q' = q then (waiting h q).eraseIdx i else waiting h q' := by
  rw [waiting_left hevent]
  split_ifs with hq
  · subst hq
    obtain ⟨hi, hget⟩ := List.getElem?_eq_some_iff.mp hx
    have hnodup := hlegal.waiting_nodup q'
    have hidx : (waiting h q').idxOf x = i := by
      rw [← hget, hnodup.idxOf_getElem]
    rw [← hidx, ← List.erase_eq_eraseIdx_of_idxOf rfl, hnodup.erase_eq_filter]
    exact List.filter_congr fun y _ => by
      rw [Bool.eq_iff_iff]
      simp
  · refine List.filter_eq_self.mpr fun y hy => decide_eq_true ?_
    rintro rfl
    exact hq (hlegal.arrivalsAt_inj (mem_waiting.mp hy).1
      (mem_waiting.mp (List.mem_of_getElem? hx)).1)

/-- What is dequeued is the oldest in the first queue that is not empty. -/
theorem oldest (hlegal : Legal order h) (hbefore : before ++ [.dequeued x] <+: h) :
    (order.flatMap (waiting before)).head? = some x := by
  induction hlegal with
  | nil => exact absurd hbefore (by simp)
  | enqueue _ _ ih =>
    rcases List.prefix_concat_iff.mp hbefore with heq | hbefore
    · cases (List.append_inj' heq rfl).2
    · exact ih hbefore
  | dequeue _ hx ih =>
    rcases List.prefix_concat_iff.mp hbefore with heq | hbefore
    · obtain ⟨rfl, hevent⟩ := List.append_inj' heq rfl
      cases hevent
      exact hx
    · exact ih hbefore
  | erase _ _ ih =>
    rcases List.prefix_concat_iff.mp hbefore with heq | hbefore
    · cases (List.append_inj' heq rfl).2
    · exact ih hbefore

/-- What has been served of a queue, and after that what waits in it, is in the order of entry. -/
theorem served_append_waiting (hlegal : Legal order h) (q : ι) :
    (((served h).filter fun x => x ∈ arrivalsAt h q) ++ waiting h q).Sublist (arrivalsAt h q) := by
  induction hlegal with
  | nil => exact .refl _
  | @enqueue h q₀ x hlegal hx ih =>
    have hnot : x ∉ departures h := fun hmem => hx (hlegal.departures_subset hmem)
    have hserved : served (h ++ [Event.enqueued q₀ x]) = served h := by
      rw [served_append]
      exact List.append_nil _
    have hsame : (served h).filter (fun y => y ∈ arrivalsAt (h ++ [.enqueued q₀ x]) q) =
        (served h).filter fun y => y ∈ arrivalsAt h q := by
      refine List.filter_congr fun y hy => ?_
      have hyx : y ≠ x := by
        rintro rfl
        exact hnot (served_subset h hy)
      rw [arrivalsAt_enqueued]
      split_ifs
      · simp [hyx]
      · simp
    rw [hserved, hsame, waiting_enqueued hnot, arrivalsAt_enqueued, ← List.append_assoc]
    exact ih.append_right _
  | @dequeue h x hlegal hx ih =>
    have hserved : served (h ++ [Event.dequeued x]) = served h ++ [x] := served_append h _
    obtain ⟨q₀, -, rest, hrest⟩ := head?_flatMap hx
    have hhead : (waiting h q₀)[0]? = some x := by rw [hrest, List.getElem?_cons_zero]
    have hx₀ : x ∈ arrivalsAt h q₀ := (mem_waiting.mp (List.mem_of_getElem? hhead)).1
    rw [hserved, hlegal.waiting_eraseIdx rfl hhead, arrivalsAt_left rfl, List.filter_append]
    by_cases hq : q = q₀
    · -- what moves to the served is the front of this queue
      subst hq
      rw [if_pos rfl, hrest, List.eraseIdx_zero, List.tail_cons,
        List.filter_cons_of_pos (by simpa using hx₀), List.filter_nil, List.append_assoc]
      rwa [hrest] at ih
    · have hnot : x ∉ arrivalsAt h q := fun hmem => hq (hlegal.arrivalsAt_inj hmem hx₀)
      rw [if_neg hq, List.filter_cons_of_neg (by simpa using hnot), List.filter_nil,
        List.append_nil]
      exact ih
  | @erase h q₀ x _ _ ih =>
    have hserved : served (h ++ [Event.erased x]) = served h := by
      rw [served_append]
      exact List.append_nil _
    rw [hserved, waiting_left rfl, arrivalsAt_left rfl]
    exact (List.filter_sublist.append_left _).trans ih

/-- **First in, first out**: of two that are served from one queue, the one that entered first is
served first. -/
theorem fifo (hlegal : Legal order h) (hxy : [x, y].Sublist (arrivalsAt h q)) (hx : x ∈ served h)
    (hy : y ∈ served h) : [x, y].Sublist (served h) := by
  have hserved := (List.sublist_append_left _ _).trans (hlegal.served_append_waiting q)
  have hmem : ∀ z ∈ served h, z ∈ [x, y] → z ∈ (served h).filter fun x => x ∈ arrivalsAt h q := by
    intro z hz hzxy
    exact List.mem_filter.mpr ⟨hz, decide_eq_true (hxy.subset hzxy)⟩
  exact (pair_sublist (hlegal.arrivals_nodup.sublist (arrivalsAt_sublist h q)) hserved hxy
    (hmem x hx (by simp)) (hmem y hy (by simp))).trans List.filter_sublist

end Legal

end QueueHistory
