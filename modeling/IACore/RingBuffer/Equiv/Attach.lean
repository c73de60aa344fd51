import IACore.Library.EventRun
import IACore.RingBuffer.Attach

/-!
# The capacities of attached views

Pushing and popping leave the capacity in the control block (`exec_capacity`).  The overload of
`create` over one buffer compares the capacity with it (`create_buffer_ok`), and the overload over a
control block does not (`create_ok`), so views agree with their owner exactly if the sizes that this
one is given do (`agree_throughout_iff`).
-/

namespace IACore

/-- Pushing and popping do not change the capacity that the owner recorded. -/
theorem RingBufferView.exec_capacity (v : RingBufferView) (mem : RingMemory) (op : RingOp) :
    (v.exec mem op).2.control.capacity = mem.control.capacity := by
  cases op with
  | push id data =>
    show (v.push id data mem).2.control.capacity = _
    unfold RingBufferView.push
    by_cases hlong : 65535 < data.length
    · rw [if_pos hlong]
    · rw [if_neg hlong]
      simp only
      split_ifs
      · rfl
      · rfl
      · rfl
  | pop header buffer =>
    show (v.pop header buffer mem).memory.control.capacity = _
    unfold RingBufferView.pop
    simp only
    split_ifs
    · rfl
    · rfl
    · rfl
    · rfl

namespace Attach

open EventRun State

variable {cb capacity size : ℕ} {overload : Overload} {isOwner : Bool} {σ σ' : State}
  {event : Event}

/-! ### Creation -/

/-- A new view has the capacity of its buffer, which an owner records and which nobody else
changes. -/
theorem create_ok (h : σ.create cb overload size isOwner = .ok σ') :
    σ'.control.capacity = (if isOwner then overload.capacity size else σ.control.capacity) ∧
      ∃ v, σ'.views = σ.views ++ [v] ∧ v.capacity = overload.capacity size := by
  cases overload with
  | buffer =>
    simp only [State.create, RingBufferView.createIn] at h
    split_ifs at h
    simp only [RingBufferView.constructIn, Except.ok.injEq] at h
    subst h
    refine ⟨?_, _, rfl, rfl⟩
    split_ifs
    · rfl
    · rfl
  | controlBlock data =>
    simp only [State.create, RingBufferView.create] at h
    split_ifs at h
    simp only [RingBufferView.construct, Except.ok.injEq] at h
    subst h
    refine ⟨?_, _, rfl, rfl⟩
    split_ifs
    · rfl
    · rfl

/-- The overload over one buffer compares the capacities. -/
theorem create_buffer_ok (h : σ.create cb .buffer size false = .ok σ') :
    Overload.buffer.capacity size = σ.control.capacity := by
  simp only [State.create, RingBufferView.createIn] at h
  split_ifs at h with hsmall hmismatch
  by_contra hne
  have hne' : (σ.ring (cb + ControlBlock.size)).control.capacity ≠
      u32Sub (u32 size) ControlBlock.size := Ne.symm hne
  exact hmismatch (by simpa using hne')

/-- The overload over a control block only wants the buffer not to be empty. -/
theorem create_controlBlock (data : ℕ) :
    (size = 0 → σ.create cb (.controlBlock data) size false = .error "Buffer is empty") ∧
      (size ≠ 0 → ∃ σ', σ.create cb (.controlBlock data) size false = .ok σ') := by
  constructor
  · intro hempty
    simp [State.create, RingBufferView.create, hempty]
  · intro hsize
    simp [State.create, RingBufferView.create, hsize]

/-! ### One step -/

/-- A view is refused, attached, or used. -/
theorem step_cases (hstep : State.step cb σ event = some σ') :
    (∃ overload size message, event = .attach overload size ∧
      σ.create cb overload size false = .error message ∧ σ' = σ) ∨
    (∃ overload size, event = .attach overload size ∧
      σ.create cb overload size false = .ok σ') ∨
    ((∀ overload size, event ≠ .attach overload size) ∧
      σ'.control.capacity = σ.control.capacity ∧ σ'.views = σ.views) := by
  cases event with
  | attach overload size =>
    cases hcreate : σ.create cb overload size false with
    | error message =>
      simp only [State.step, hcreate, Option.some.injEq] at hstep
      exact .inl ⟨overload, size, message, rfl, hcreate, hstep.symm⟩
    | ok σ₁ =>
      simp only [State.step, hcreate, Option.some.injEq] at hstep
      exact .inr (.inl ⟨overload, size, rfl, hstep ▸ hcreate⟩)
  | use view op =>
    obtain ⟨v, -, hstep⟩ := Option.bind_eq_some_iff.mp hstep
    obtain ⟨data, -, hstep⟩ := Option.bind_eq_some_iff.mp hstep
    rw [← Option.some.inj hstep]
    exact .inr (.inr ⟨nofun, v.exec_capacity (σ.ring data) op, rfl⟩)

/-- **A step leaves all views agreeing exactly if a size that is not checked is right.** -/
theorem Agree.step_iff (h : Agree capacity σ) (hstep : State.step cb σ event = some σ') :
    Agree capacity σ' ↔ SizeGiven capacity σ event := by
  rcases step_cases hstep with ⟨overload, size, message, rfl, hcreate, rfl⟩ |
    ⟨overload, size, rfl, hcreate⟩ | ⟨hnone, hcontrol, hviews⟩
  · refine iff_of_true h ?_
    rintro data size ⟨rfl, rfl⟩
    by_contra hgiven
    obtain ⟨σ₁, hok⟩ := (create_controlBlock data).2 (fun hempty => hgiven (.inl hempty))
    cases hcreate.symm.trans hok
  · obtain ⟨hcontrol, v, hviews, hv⟩ := create_ok hcreate
    -- the new view is the only one that may not agree
    have hagree : Agree capacity σ' ↔ overload.capacity size = capacity := by
      rw [← hv]
      constructor
      · intro h'
        exact h'.2 v (by simp [hviews])
      · intro hv'
        refine ⟨hcontrol.trans h.1, ?_⟩
        intro v' hv'mem
        rw [hviews, List.mem_append, List.mem_singleton] at hv'mem
        rcases hv'mem with hold | rfl
        · exact h.2 v' hold
        · exact hv'
    rw [hagree]
    cases overload with
    | buffer => exact iff_of_true ((create_buffer_ok hcreate).trans h.1) nofun
    | controlBlock data =>
      constructor
      · rintro hcap data' size' ⟨rfl, rfl⟩
        exact .inr hcap
      · intro hgiven
        rcases hgiven data size rfl with hempty | hcap
        · cases hcreate.symm.trans ((create_controlBlock data).1 hempty)
        · exact hcap
  · refine iff_of_true ⟨hcontrol.trans h.1, ?_⟩ fun _ _ heq => absurd heq (hnone _ _)
    rw [hviews]
    exact h.2

/-- Then every view of another capacity is refused. -/
theorem Agree.othersFail (h : Agree capacity σ) (hgiven : SizeGiven capacity σ event) :
    OthersFail cb capacity σ event := by
  rintro overload size rfl hne
  cases hcreate : σ.create cb overload size false with
  | error message => exact ⟨message, rfl⟩
  | ok σ₁ =>
    cases overload with
    | buffer => exact absurd ((create_buffer_ok hcreate).trans h.1) hne
    | controlBlock data =>
      rcases hgiven data size rfl with hempty | hcap
      · cases hcreate.symm.trans ((create_controlBlock data).1 hempty)
      · exact absurd hcap hne

/-! ### Runs -/

/-- **The capacities of attached views.**  After an owner has set up a control block, every view
attached to it has the capacity that the owner recorded, and every other view is refused, if and
only if the sizes given to the overload over a control block are zero or the owner's. -/
theorem agree_throughout_iff (cb : ℕ) (overload : Overload) (size : ℕ) (control : ControlBlock)
    (memory : ℕ → UInt8) {σ₀ σ : State} {events : List Event}
    (howner : State.create cb overload size true ⟨control, memory, []⟩ = .ok σ₀)
    (hrun : run (State.step cb) σ₀ events = some σ) :
    Throughout (State.step cb) (Agree (overload.capacity size)) σ₀ events ∧
        Along (State.step cb) (OthersFail cb (overload.capacity size)) σ₀ events ↔
      Along (State.step cb) (SizeGiven (overload.capacity size)) σ₀ events := by
  obtain ⟨hcontrol, owner, hviews, hcap⟩ := create_ok howner
  have hstart : Agree (overload.capacity size) σ₀ := by
    refine ⟨hcontrol, ?_⟩
    intro v hv
    rw [hviews, List.nil_append, List.mem_singleton] at hv
    rw [hv, hcap]
  -- nothing is needed of the states besides that the views agree
  apply throughout_and_along_iff (J := fun _ => True) _ _ _ hrun trivial hstart
  · intro σ event σ' _ _ _
    trivial
  · intro σ event σ' _ h hstep
    exact h.step_iff hstep
  · intro σ event σ' _ h _ hgiven
    exact h.othersFail hgiven

/-- A ring of 1024 bytes behind its control block, a view of each kind, and a packet through it. -/
theorem agree_throughout_iff_two : ∃ σ₀ events,
    State.create 4096 .buffer 1152 true ⟨⟨7, 7, 7⟩, fun _ => 0, []⟩ = .ok σ₀ ∧
      events.length = 3 ∧ (Throughout (State.step 4096) (Agree 1024) σ₀ events ∧
        Along (State.step 4096) (OthersFail 4096 1024) σ₀ events ↔
      Along (State.step 4096) (SizeGiven 1024) σ₀ events) := by
  have hcapacity : Overload.buffer.capacity 1152 = 1024 := by decide
  have howner : State.create 4096 .buffer 1152 true ⟨⟨7, 7, 7⟩, fun _ => 0, []⟩ =
      .ok ⟨⟨0, 0, 1024⟩, fun _ => 0, [⟨some 4224, 1024, some 4096⟩]⟩ := by rfl
  refine ⟨_, [.attach .buffer 1152, .attach (.controlBlock 4224) 1024, .use 1 (.push 5 [1, 2])],
    howner, rfl, ?_⟩
  have hrun : (run (State.step 4096) ⟨⟨0, 0, 1024⟩, fun _ => 0, [⟨some 4224, 1024, some 4096⟩]⟩
      [.attach .buffer 1152, .attach (.controlBlock 4224) 1024,
        .use 1 (.push 5 [1, 2])]).isSome = true := by rfl
  obtain ⟨σ, hrun⟩ := Option.isSome_iff_exists.mp hrun
  rw [← hcapacity]
  exact agree_throughout_iff 4096 .buffer 1152 _ _ howner hrun

/-- The owner's ring has 1024 bytes; a view over its control block and 64 bytes is accepted. -/
theorem attach_mismatch : ∃ σ₀ σ,
    State.create 4096 (.controlBlock 8192) 1024 true ⟨⟨7, 7, 7⟩, fun _ => 0, []⟩ = .ok σ₀ ∧
      run (State.step 4096) σ₀ [.attach (.controlBlock 8192) 64] = some σ ∧
      σ.control.capacity = 1024 ∧ σ.views.map RingBufferView.capacity = [1024, 64] ∧
      ¬ Agree 1024 σ := by
  refine ⟨⟨⟨0, 0, 1024⟩, fun _ => 0, [⟨some 8192, 1024, some 4096⟩]⟩, ⟨⟨0, 0, 1024⟩, fun _ => 0,
    [⟨some 8192, 1024, some 4096⟩, ⟨some 8192, 64, some 4096⟩]⟩, rfl, rfl, rfl, rfl, ?_⟩
  intro h
  exact absurd (h.2 ⟨some 8192, 64, some 4096⟩ (by decide)) (by decide)

end Attach

end IACore
