import IACore.Library.EventRun
import IACore.StreamReader.Equiv.Bounds
import IACore.StreamReader.Objects

/-!
# The cursors of moved readers

Reading, skipping and seeking keep a cursor within its block (`Operation.within`), and the target of
a move has what the source had.  The source is left with an empty block and the cursor where it was,
so all cursors stay within their blocks exactly if nothing is moved from that has been read
(`inBounds_throughout_iff`).
-/

namespace IACore

namespace StreamReader

variable {r r' : StreamReader} {o : Object}

/-- Every operation on a reader keeps its block, and the cursor in it. -/
theorem Operation.within {op : Operation} (h : r.Within) (hrun : op.run r = some r') :
    r'.Within ∧ r'.data = r.data := by
  have hread : ∀ size, (r.readBytes size).map Prod.snd = some r' →
      r'.Within ∧ r'.data = r.data := by
    intro size hsize
    obtain ⟨⟨result, r₁⟩, hbytes, rfl⟩ := Option.map_eq_some_iff.mp hsize
    refine ⟨h.readBytes hbytes, ?_⟩
    unfold readBytes at hbytes
    split_ifs at hbytes
    · rw [← (Prod.mk.inj (Option.some.inj hbytes)).2]
    · rw [← (Prod.mk.inj (Option.some.inj hbytes)).2]
  cases op with
  | readBuffer size => exact hread size (Option.ite_none_right_eq_some.mp hrun).2
  | readValue size => exact hread size (Option.ite_none_right_eq_some.mp hrun).2
  | skip amount =>
    rw [← Option.some.inj (Option.ite_none_right_eq_some.mp hrun).2]
    exact ⟨h.skip amount, rfl⟩
  | seek pos =>
    rw [← Option.some.inj (Option.ite_none_right_eq_some.mp hrun).2]
    exact ⟨h.seek pos, rfl⟩

/-- A reader over its block, which is its vector if it owns one. -/
structure Object.Sound (o : Object) : Prop where
  dataSize : o.reader.dataSize = o.reader.data.length
  size_lt : o.reader.dataSize < 18446744073709551616
  vector : o.storageType = .owningVector → o.owningVector = o.reader.data

namespace Object.Sound

theorem construct {source : Source} (h : source.data.length < 18446744073709551616) :
    source.construct.Sound ∧ source.construct.reader.cursor = 0 := by
  cases source with
  | vector data => exact ⟨⟨rfl, h, fun _ => rfl⟩, rfl⟩
  | span data => exact ⟨⟨rfl, h, nofun⟩, rfl⟩
  | file data => exact ⟨⟨rfl, h, nofun⟩, rfl⟩

/-- A move changes nothing of what is moved. -/
theorem taken (h : o.Sound) : o.taken = o := by
  have hdata : (if o.storageType = .owningVector then o.owningVector else o.reader.data) =
      o.reader.data := by
    split_ifs with htype
    · exact h.vector htype
    · rfl
  rw [Object.taken, hdata]

theorem left : o.left.Sound := ⟨rfl, Nat.zero_lt_succ _, nofun⟩

theorem within (h : o.Sound) (hcursor : o.reader.cursor ≤ o.reader.dataSize) : o.reader.Within :=
  ⟨h.dataSize, hcursor, h.size_lt⟩

end Object.Sound

namespace Objects

open EventRun

variable {σ σ' : State} {event : Event} {id source target : ℕ}

/-- Every reader is sound. -/
def Sound (σ : State) : Prop := ∀ id o, σ id = some o → o.Sound

@[simp] theorem set_self (σ : State) (id : ℕ) (o : Object) : σ.set id o id = some o :=
  Function.update_self ..

theorem set_of_ne {id' : ℕ} (h : id' ≠ id) (σ : State) (o : Object) : σ.set id o id' = σ id' :=
  Function.update_of_ne h ..

/-- What holds of every object holds of them after one is set if it holds of that one. -/
theorem forall_set {P : Object → Prop} (h : ∀ id o, σ id = some o → P o) (ho : P o) :
    ∀ id' o', σ.set id o id' = some o' → P o' := by
  intro id' o' hset
  by_cases hid : id' = id
  · rw [hid, set_self] at hset
    rwa [← Option.some.inj hset]
  · rw [set_of_ne hid] at hset
    exact h id' o' hset

theorem inBounds_iff (h : Sound σ) :
    InBounds σ ↔ ∀ id o, σ id = some o → o.reader.cursor ≤ o.reader.dataSize := by
  constructor
  · intro hbounds id o ho
    exact (hbounds id o ho).1
  · intro hcursor id o ho
    have hle := hcursor id o ho
    refine ⟨hle, ?_⟩
    rw [remaining, usizeSub_of_le hle (h id o ho).size_lt, Nat.cast_sub hle]

/-- A construction, an operation on one reader, a self-assignment, or a move. -/
theorem step_cases (hstep : step σ event = some σ') :
    (∃ id source, event = .construct id source ∧ source.data.length < 18446744073709551616 ∧
      σ' = σ.set id source.construct) ∨
    (∃ id op o r, event = .use id op ∧ σ id = some o ∧ op.run o.reader = some r ∧
      σ' = σ.set id { o with reader := r }) ∨
    ((∀ source target, ¬ event.Moves source target) ∧ σ' = σ) ∨
    ∃ source target o, event.Moves source target ∧ σ source = some o ∧
      σ' = (σ.set source o.left).set target o.taken := by
  cases event with
  | construct id source =>
    obtain ⟨hguard, hset⟩ := Option.ite_none_right_eq_some.mp hstep
    exact .inl ⟨id, source, rfl, hguard.2, (Option.some.inj hset).symm⟩
  | use id op =>
    obtain ⟨o, ho, hstep⟩ := Option.bind_eq_some_iff.mp hstep
    obtain ⟨r, hr, hstep⟩ := Option.bind_eq_some_iff.mp hstep
    exact .inr (.inl ⟨id, op, o, r, rfl, ho, hr, (Option.some.inj hstep).symm⟩)
  | moveConstruct id source =>
    obtain ⟨o, ho, hstep⟩ := Option.bind_eq_some_iff.mp hstep
    obtain ⟨hnone, hset⟩ := Option.ite_none_right_eq_some.mp hstep
    have hne : id ≠ source := by
      rintro rfl
      rw [ho] at hnone
      exact absurd hnone (by simp)
    exact .inr (.inr (.inr ⟨source, id, o, ⟨rfl, rfl, hne⟩, ho, (Option.some.inj hset).symm⟩))
  | moveAssign target source =>
    obtain ⟨this, hthis, hstep⟩ := Option.bind_eq_some_iff.mp hstep
    obtain ⟨o, ho, hstep⟩ := Option.bind_eq_some_iff.mp hstep
    by_cases hself : target = source
    · simp only [if_pos hself] at hstep
      refine .inr (.inr (.inl ⟨?_, (Option.some.inj hstep).symm⟩))
      rintro source' target' ⟨rfl, rfl, hne⟩
      exact hne hself
    · simp only [if_neg hself] at hstep
      exact .inr (.inr (.inr ⟨source, target, o, ⟨rfl, rfl, hself⟩, ho,
        (Option.some.inj hstep).symm⟩))

theorem Event.Moves.unique {source' target' : ℕ} (h : event.Moves source target)
    (h' : event.Moves source' target') : source = source' ∧ target = target' := by
  cases event with
  | construct id source => exact h.elim
  | use id op => exact h.elim
  | moveConstruct id source => exact ⟨h.2.1.symm.trans h'.2.1, h.1.symm.trans h'.1⟩
  | moveAssign target source => exact ⟨h.2.1.symm.trans h'.2.1, h.1.symm.trans h'.1⟩

theorem Event.Moves.ne (h : event.Moves source target) : target ≠ source := by
  cases event with
  | construct id source => exact h.elim
  | use id op => exact h.elim
  | moveConstruct id source => exact h.2.2
  | moveAssign target source => exact h.2.2

/-- The state after a move. -/
theorem step_moves (h : Sound σ) (hmoves : event.Moves source target)
    (hstep : step σ event = some σ') :
    ∃ o, σ source = some o ∧ σ' = (σ.set source o.left).set target o := by
  rcases step_cases hstep with ⟨id, from', rfl, -⟩ | ⟨id, op, o, r, rfl, -⟩ | ⟨hnone, -⟩ |
    ⟨source', target', o, hmoves', ho, rfl⟩
  · exact hmoves.elim
  · exact hmoves.elim
  · exact absurd hmoves (hnone source target)
  · obtain ⟨rfl, rfl⟩ := hmoves'.unique hmoves
    refine ⟨o, ho, ?_⟩
    rw [(h _ o ho).taken]

/-! ### One step -/

theorem Sound.step (h : Sound σ) (hbounds : InBounds σ) (hstep : step σ event = some σ') :
    Sound σ' := by
  rcases step_cases hstep with ⟨id, source, rfl, hlt, rfl⟩ | ⟨id, op, o, r, rfl, ho, hr, rfl⟩ |
    ⟨-, rfl⟩ | ⟨source, target, o, -, ho, rfl⟩
  · exact forall_set h (Object.Sound.construct hlt).1
  · have hwithin := (h id o ho).within (hbounds id o ho).1
    obtain ⟨hwithin', hdata⟩ := Operation.within hwithin hr
    refine forall_set h ⟨hwithin'.dataSize, hwithin'.size_lt, ?_⟩
    intro htype
    rw [hdata]
    exact (h id o ho).vector htype
  · exact h
  · rw [(h source o ho).taken]
    exact forall_set (forall_set h Object.Sound.left) (h source o ho)

/-- The target of a move always has what the source had. -/
theorem Sound.moveExact (h : Sound σ) (event : Event) : MoveExact σ event := by
  intro source target σ' hmoves hstep
  obtain ⟨o, ho, rfl⟩ := step_moves h hmoves hstep
  rw [set_self, ho]

/-- **A step leaves all cursors in their blocks exactly if it moves from no cursor but the
start.** -/
theorem InBounds.step_iff (h : Sound σ) (hbounds : InBounds σ) (hstep : step σ event = some σ') :
    InBounds σ' ↔ FromStart σ event := by
  have hcursor := (inBounds_iff h).mp hbounds
  rw [inBounds_iff (h.step hbounds hstep)]
  rcases step_cases hstep with ⟨id, source, rfl, hlt, rfl⟩ | ⟨id, op, o, r, rfl, ho, hr, rfl⟩ |
    ⟨hnone, rfl⟩ | ⟨source, target, o, hmoves, ho, rfl⟩
  · refine iff_of_true (forall_set hcursor ?_) fun _ _ _ hmoves => hmoves.elim
    rw [(Object.Sound.construct hlt).2]
    exact Nat.zero_le _
  · refine iff_of_true (forall_set hcursor ?_) fun _ _ _ hmoves => hmoves.elim
    exact (Operation.within ((h id o ho).within (hcursor id o ho)) hr).1.cursor_le
  · exact iff_of_true hcursor fun source target _ hmoves => absurd hmoves (hnone source target)
  · constructor
    · intro hcursor' source' target' o' hmoves' ho'
      obtain ⟨rfl, rfl⟩ := hmoves.unique hmoves'
      obtain rfl := Option.some.inj (ho.symm.trans ho')
      have hleft : ((σ.set source o.left).set target o.taken) source = some o.left := by
        rw [set_of_ne hmoves.ne.symm, set_self]
      exact Nat.le_zero.mp (hcursor' source o.left hleft)
    · intro hstart
      have hzero : o.reader.cursor = 0 := hstart source target o hmoves ho
      rw [(h source o ho).taken]
      refine forall_set (forall_set hcursor ?_) (hcursor source o ho)
      exact hzero.le

/-! ### Runs -/

theorem sound_start : Sound start := fun _ _ h => absurd h (by simp [start])

theorem inBounds_start : InBounds start := fun _ _ h => absurd h (by simp [start])

/-- **The cursors of all readers.**  In every state of a run every reader, moved-from ones included,
has its cursor within its size and `remaining` is the difference, and the target of every move has
the source's data, size and cursor, if and only if every move is from a reader whose cursor is at
the start. -/
theorem inBounds_throughout_iff {events : List Event} (hrun : run step start events = some σ) :
    Throughout step InBounds start events ∧ Along step MoveExact start events ↔
      Along step FromStart start events := by
  apply throughout_and_along_iff (J := Sound) _ _ _ hrun sound_start inBounds_start
  · intro σ event σ' h hbounds hstep
    exact h.step hbounds hstep
  · intro σ event σ' h hbounds hstep
    exact hbounds.step_iff h hstep
  · intro σ event σ' h _ _ _
    exact h.moveExact event

/-- Two bytes are moved on before they are read. -/
theorem inBounds_throughout_iff_unread :
    let events := [.construct 0 (.vector [1, 2]), .moveConstruct 1 0, .use 1 (.readValue 1)]
    Throughout step InBounds start events ∧ Along step MoveExact start events ↔
      Along step FromStart start events := by
  intro events
  have hrun : (run step start events).isSome = true := by rfl
  obtain ⟨σ, hrun⟩ := Option.isSome_iff_exists.mp hrun
  exact inBounds_throughout_iff hrun

/-- A reader that has read one byte of two is moved from: it has one byte behind its cursor and none
in its block. -/
theorem moved_from_remaining : ∃ events σ, run step start events = some σ ∧
    (σ 0).map (fun o => (o.reader.cursor, o.reader.dataSize, o.reader.remaining)) =
      some (1, 0, 18446744073709551615) ∧ ¬ InBounds σ := by
  have hrun : (run step start [.construct 0 (.span [1, 2]), .use 0 (.readValue 1),
      .moveConstruct 1 0]).map (fun σ => σ 0) = some (some ⟨⟨[], 1, 0⟩, [], .nonOwning⟩) := by
    rfl
  obtain ⟨σ, hrun, hσ⟩ := Option.map_eq_some_iff.mp hrun
  refine ⟨_, σ, hrun, ?_, ?_⟩
  · rw [hσ]
    rfl
  · intro hbounds
    exact absurd (hbounds 0 _ hσ).1 (by decide)

end Objects

end StreamReader

end IACore
