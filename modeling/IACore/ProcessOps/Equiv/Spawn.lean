import IACore.Library.EventRun
import IACore.ProcessOps.Equiv.LineBuffer
import IACore.ProcessOps.Spawn
import IACore.ProcessOps.Terminate

/-!
# What a call of `spawn_process_posix` has delivered when it returns

A call and its processes share a pipe and nothing else, so each step is seen from two sides.  What
others do takes nothing from a call: more may be written to its pipe, until there are no writers,
and then never again (`Kept`, `Later`, `Sound.mono`).  What the call does itself is one of thirteen
moves (`Moves`), each of which keeps its own bookkeeping (`Moves.sound`): the line buffer has what
was taken from the pipe, and when `read` finds the end, that is all there will ever be.  A `read` or
a `waitpid` that fails is in the past of the call from then on.
-/

namespace IACore

namespace ProcessOps

open Runs EventRun LineBuffer

variable {κ κ' : Kernel} {fd : PipeEnd} {p n i : ℕ}

/-! ### The system -/

/-- The pipe that an end is of. -/
def PipeEnd.pipe : PipeEnd → ℕ
  | .read pipe => pipe
  | .write pipe => pipe

namespace Kernel

/-- Descriptors are of pipes that there are, and a process that has ended has none. -/
structure Tidy (κ : Kernel) : Prop where
  ends_lt : ∀ fd ∈ κ.ends, fd.pipe < κ.pipes.length
  process_lt : ∀ process ∈ κ.processes, ∀ fd ∈ process.ends, fd.pipe < κ.pipes.length
  ended : ∀ process ∈ κ.processes, process.status ≠ none → process.ends = []

/-- What has become of pipe `p` when only its writers have done something: more may have been
written, but not once there are no writers. -/
def Kept (κ κ' : Kernel) (p : ℕ) : Prop :=
  ∀ pipe : Pipe, κ.pipes[p]? = some pipe → ∃ pipe' : Pipe, κ'.pipes[p]? = some pipe' ∧
    pipe'.taken = pipe.taken ∧ pipe.written <+: pipe'.written ∧
    (¬ κ.HasWriter p → ¬ κ'.HasWriter p ∧ pipe'.written = pipe.written)

/-- What has become of the processes: they run the same program, and an end is final. -/
def Later (κ κ' : Kernel) : Prop :=
  ∀ (n : ℕ) (process : Process), κ.processes[n]? = some process →
    ∃ process' : Process, κ'.processes[n]? = some process' ∧ process'.call = process.call ∧
      process'.argv = process.argv ∧
        ∀ status, process.status = some status → process'.status = some status

theorem Kept.of_pipes (hpipes : κ'.pipes = κ.pipes)
    (hwriter : κ'.HasWriter p → κ.HasWriter p) : Kept κ κ' p := by
  intro pipe hpipe
  exact ⟨pipe, hpipes ▸ hpipe, rfl, List.prefix_refl _, fun h => ⟨fun h' => h (hwriter h'), rfl⟩⟩

theorem Later.of_prefix (h : κ.processes <+: κ'.processes) : Later κ κ' := by
  intro n process hprocess
  obtain ⟨more, hmore⟩ := h
  refine ⟨process, ?_, rfl, rfl, fun _ h => h⟩
  rw [← hmore, List.getElem?_append_left (List.getElem?_eq_some_iff.mp hprocess).1, hprocess]

theorem Later.set_process {process process' : Process} (hprocess : κ.processes[n]? = some process)
    (hcall : process'.call = process.call) (hargv : process'.argv = process.argv)
    (hstatus : process.status = none) :
    Later κ { κ with processes := κ.processes.set n process' } := by
  intro m other hother
  rw [List.getElem?_set]
  by_cases hm : n = m
  · subst hm
    obtain rfl := Option.some.inj (hprocess.symm.trans hother)
    refine ⟨process', ?_, hcall, hargv, ?_⟩
    · rw [if_pos rfl, if_pos (List.getElem?_eq_some_iff.mp hprocess).1]
    · intro status h
      rw [hstatus] at h
      cases h
  · rw [if_neg hm]
    exact ⟨other, hother, rfl, rfl, fun _ h => h⟩

/-! ### `pipe` -/

theorem Tidy.pipe (h : Tidy κ) : Tidy κ.pipe := by
  have hlength : κ.pipe.pipes.length = κ.pipes.length + 1 := by
    rw [Kernel.pipe, List.length_append, List.length_singleton]
  constructor
  · intro fd hfd
    rw [hlength]
    rcases List.mem_cons.mp hfd with rfl | hfd
    · exact Nat.lt_succ_self _
    · rcases List.mem_cons.mp hfd with rfl | hfd
      · exact Nat.lt_succ_self _
      · exact Nat.lt_succ_of_lt (h.ends_lt fd hfd)
  · intro process hprocess fd hfd
    rw [hlength]
    exact Nat.lt_succ_of_lt (h.process_lt process hprocess fd hfd)
  · exact h.ended

theorem Kept.pipe : Kept κ κ.pipe p := by
  intro pipe hpipe
  have hp : p < κ.pipes.length := (List.getElem?_eq_some_iff.mp hpipe).1
  refine ⟨pipe, ?_, rfl, List.prefix_refl _, fun hnone => ⟨?_, rfl⟩⟩
  · rw [Kernel.pipe, List.getElem?_append_left hp, hpipe]
  · rintro (hmem | hmem)
    · apply hnone
      rcases List.mem_cons.mp hmem with h | hmem
      · cases h
      · rcases List.mem_cons.mp hmem with h | hmem
        · cases h
          exact absurd hp (Nat.lt_irrefl _)
        · exact .inl hmem
    · exact hnone (.inr hmem)

/-! ### `fork` -/

theorem mem_childEnds {ends : List PipeEnd} (h : fd ∈ childEnds ends p) :
    fd = .write p ∨ fd ∈ ends := by
  rcases List.mem_cons.mp h with rfl | h
  · exact .inl rfl
  · rcases List.mem_cons.mp h with rfl | h
    · exact .inl rfl
    · exact .inr (List.mem_of_mem_erase (List.mem_of_mem_erase h))

theorem Tidy.fork (h : Tidy κ) (hwrite : .write p ∈ κ.ends) (call : ℕ) (argv : List Text) :
    Tidy (κ.fork call p argv) := by
  refine ⟨h.ends_lt, ?_, ?_⟩
  · intro process hprocess fd hfd
    rcases List.mem_append.mp hprocess with hprocess | hprocess
    · exact h.process_lt process hprocess fd hfd
    · rw [List.mem_singleton.mp hprocess] at hfd
      rcases mem_childEnds hfd with rfl | hfd
      · exact h.ends_lt _ hwrite
      · exact h.ends_lt fd hfd
  · intro process hprocess hended
    rcases List.mem_append.mp hprocess with hprocess | hprocess
    · exact h.ended process hprocess hended
    · rw [List.mem_singleton.mp hprocess] at hended
      exact absurd rfl hended

theorem Kept.fork (hwrite : .write p ∈ κ.ends) (call : ℕ) (argv : List Text) {q : ℕ} :
    Kept κ (κ.fork call p argv) q := by
  refine Kept.of_pipes (by rfl) ?_
  rintro (hmem | ⟨process, hprocess, hmem⟩)
  · exact .inl hmem
  · rcases List.mem_append.mp hprocess with hprocess | hprocess
    · exact .inr ⟨process, hprocess, hmem⟩
    · rw [List.mem_singleton.mp hprocess] at hmem
      rcases mem_childEnds hmem with h | hmem
      · cases h
        exact .inl hwrite
      · exact .inl hmem

/-! ### `close` and `read` -/

theorem Tidy.close (h : Tidy κ) (fd : PipeEnd) : Tidy (κ.close fd) :=
  ⟨fun fd' hfd' => h.ends_lt fd' (List.mem_of_mem_erase hfd'), h.process_lt, h.ended⟩

theorem Kept.close (fd : PipeEnd) : Kept κ (κ.close fd) p := by
  refine Kept.of_pipes (by rfl) ?_
  rintro (hmem | hmem)
  · exact .inl (List.mem_of_mem_erase hmem)
  · exact .inr hmem

/-- What `read` does: it takes the next bytes, or finds that there will be no more. -/
theorem read_eq_some {count : ℕ} {data : Text} (h : κ.read p count = some (data, κ')) :
    ∃ pipe, κ.pipes[p]? = some pipe ∧
      ((count = 0 ∧ pipe.taken = pipe.written.length ∧ ¬ κ.HasWriter p ∧ κ' = κ) ∨
        (0 < count ∧ pipe.taken + count ≤ pipe.written.length ∧
          data = substr pipe.written pipe.taken count ∧
          κ' = { κ with
            pipes := κ.pipes.set p { pipe with taken := pipe.taken + count } })) := by
  obtain ⟨pipe, hpipe, h⟩ := Option.bind_eq_some_iff.mp h
  refine ⟨pipe, hpipe, ?_⟩
  by_cases hcount : count = 0
  · rw [if_pos hcount] at h
    obtain ⟨⟨htaken, hwriter⟩, h⟩ := Option.ite_none_right_eq_some.mp h
    exact .inl ⟨hcount, htaken, hwriter, (Prod.mk.inj (Option.some.inj h)).2.symm⟩
  · rw [if_neg hcount] at h
    obtain ⟨⟨-, hle⟩, h⟩ := Option.ite_none_right_eq_some.mp h
    obtain ⟨hdata, hκ⟩ := Prod.mk.inj (Option.some.inj h)
    exact .inr ⟨Nat.pos_of_ne_zero hcount, hle, hdata.symm, hκ.symm⟩

theorem Tidy.set_pipes (h : Tidy κ) (p : ℕ) (pipe : Pipe) :
    Tidy { κ with pipes := κ.pipes.set p pipe } := by
  constructor
  · intro fd hfd
    rw [List.length_set]
    exact h.ends_lt fd hfd
  · intro process hprocess fd hfd
    rw [List.length_set]
    exact h.process_lt process hprocess fd hfd
  · exact h.ended

theorem Kept.set_pipes {q : ℕ} (hpq : p ≠ q) (pipe : Pipe) :
    Kept κ { κ with pipes := κ.pipes.set q pipe } p := by
  intro pipe' hpipe'
  refine ⟨pipe', ?_, rfl, List.prefix_refl _, fun hnone => ⟨hnone, rfl⟩⟩
  rw [List.getElem?_set_ne hpq.symm, hpipe']

/-! ### The processes -/

theorem running_eq_some {process : Process} (h : κ.running n = some process) :
    κ.processes[n]? = some process ∧ process.status = none := by
  obtain ⟨other, hother, h⟩ := Option.bind_eq_some_iff.mp h
  obtain ⟨hstatus, h⟩ := Option.ite_none_right_eq_some.mp h
  obtain rfl := Option.some.inj h
  exact ⟨hother, hstatus⟩

theorem Tidy.set_process (h : Tidy κ) {process process' : Process}
    (hprocess : κ.processes[n]? = some process) (hends : process'.ends ⊆ process.ends)
    (hended : process'.status ≠ none → process'.ends = []) :
    Tidy { κ with processes := κ.processes.set n process' } := by
  refine ⟨h.ends_lt, ?_, ?_⟩
  · intro other hother fd hfd
    rcases List.mem_or_eq_of_mem_set hother with hother | rfl
    · exact h.process_lt other hother fd hfd
    · exact h.process_lt process (List.mem_of_getElem? hprocess) fd (hends hfd)
  · intro other hother hstatus
    rcases List.mem_or_eq_of_mem_set hother with hother | rfl
    · exact h.ended other hother hstatus
    · exact hended hstatus

theorem Kept.set_process {process process' : Process} (hprocess : κ.processes[n]? = some process)
    (hends : process'.ends ⊆ process.ends) :
    Kept κ { κ with processes := κ.processes.set n process' } p := by
  refine Kept.of_pipes (by rfl) ?_
  rintro (hmem | ⟨other, hother, hmem⟩)
  · exact .inl hmem
  · rcases List.mem_or_eq_of_mem_set hother with hother | rfl
    · exact .inr ⟨other, hother, hmem⟩
    · exact .inr ⟨process, List.mem_of_getElem? hprocess, hends hmem⟩

/-- Whatever a process does, the calls lose nothing of their pipes and of their children. -/
theorem deed_spec (h : Tidy κ) {deed : Deed} (hdeed : κ.deed n deed = some κ') :
    Tidy κ' ∧ κ'.ends = κ.ends ∧ κ'.pipes.length = κ.pipes.length ∧ (∀ p, Kept κ κ' p) ∧
      Later κ κ' := by
  cases deed with
  | write q data =>
    obtain ⟨process, hrunning, hdeed⟩ := Option.bind_eq_some_iff.mp hdeed
    obtain ⟨pipe, hpipe, hdeed⟩ := Option.bind_eq_some_iff.mp hdeed
    obtain ⟨⟨hmem, -⟩, hdeed⟩ := Option.ite_none_right_eq_some.mp hdeed
    obtain rfl := Option.some.inj hdeed
    refine ⟨h.set_pipes _ _, rfl, List.length_set, ?_, Later.of_prefix (List.prefix_refl _)⟩
    intro p
    by_cases hpq : p = q
    · subst hpq
      intro pipe' hpipe'
      obtain rfl := Option.some.inj (hpipe.symm.trans hpipe')
      refine ⟨{ pipe with written := pipe.written ++ data }, ?_, rfl, List.prefix_append _ _, ?_⟩
      · rw [List.getElem?_set_self (List.getElem?_eq_some_iff.mp hpipe).1]
      · intro hnone
        exact absurd (.inr ⟨process, List.mem_of_getElem? (running_eq_some hrunning).1, hmem⟩) hnone
    · exact Kept.set_pipes hpq _
  | close fd =>
    obtain ⟨process, hrunning, hdeed⟩ := Option.bind_eq_some_iff.mp hdeed
    obtain rfl := Option.some.inj hdeed
    obtain ⟨hprocess, hstatus⟩ := running_eq_some hrunning
    exact ⟨h.set_process hprocess List.erase_subset (fun hended => absurd hstatus hended), rfl, rfl,
      fun p => Kept.set_process hprocess List.erase_subset,
      Later.set_process hprocess rfl rfl hstatus⟩
  | fork =>
    obtain ⟨process, hrunning, hdeed⟩ := Option.bind_eq_some_iff.mp hdeed
    obtain rfl := Option.some.inj hdeed
    obtain ⟨hprocess, hstatus⟩ := running_eq_some hrunning
    have hmem : ∀ other ∈ κ.processes ++ [process], other ∈ κ.processes := by
      intro other hother
      rcases List.mem_append.mp hother with hother | hother
      · exact hother
      · rw [List.mem_singleton.mp hother]
        exact List.mem_of_getElem? hprocess
    refine ⟨⟨h.ends_lt, ?_, ?_⟩, rfl, rfl, ?_, Later.of_prefix (List.prefix_append _ _)⟩
    · intro other hother
      exact h.process_lt other (hmem other hother)
    · intro other hother
      exact h.ended other (hmem other hother)
    · intro p
      refine Kept.of_pipes (by rfl) ?_
      rintro (hend | ⟨other, hother, hend⟩)
      · exact .inl hend
      · exact .inr ⟨other, hmem other hother, hend⟩
  | exit status =>
    obtain ⟨process, hrunning, hdeed⟩ := Option.bind_eq_some_iff.mp hdeed
    obtain rfl := Option.some.inj hdeed
    obtain ⟨hprocess, hstatus⟩ := running_eq_some hrunning
    exact ⟨h.set_process hprocess (List.nil_subset _) (fun _ => rfl), rfl, rfl,
      fun p => Kept.set_process hprocess (List.nil_subset _),
      Later.set_process hprocess rfl rfl hstatus⟩

end Kernel

/-! ### One call -/

namespace Stage

/-- The pipe that a call has made. -/
def pipefd : Stage → Option ℕ
  | .pipe | .noPipe => none
  | .fork p | .noFork p => some p
  | .store p _ | .closeWrite p _ | .read p _ | .closeRead p _ | .waitpid p _ => some p
  | .clear p _ _ | .returned p _ _ => some p

/-- The child that it has forked. -/
def child : Stage → Option ℕ
  | .pipe | .noPipe | .fork _ | .noFork _ => none
  | .store _ n | .closeWrite _ n | .read _ n | .closeRead _ n | .waitpid _ n => some n
  | .clear _ n _ | .returned _ n _ => some n

/-- What `waitpid` has told it. -/
def status : Stage → Option Status
  | .clear _ _ status | .returned _ _ status => some status
  | _ => none

/-- What the atomic holds. -/
def id : Stage → ℕ
  | .closeWrite _ n | .read _ n | .closeRead _ n | .waitpid _ n | .clear _ n _ => pid n
  | _ => 0

/-- The ends of its pipe that the call has open: both until the child has one, and for good when
there is no child. -/
def held : Stage → List PipeEnd
  | .fork p | .noFork p | .store p _ | .closeWrite p _ => [.read p, .write p]
  | .read p _ | .closeRead p _ => [.read p]
  | _ => []

theorem pipefd_of_mem_held {stage : Stage} (h : fd ∈ stage.held) : stage.pipefd = some fd.pipe := by
  cases stage <;> simp only [held, List.mem_cons, List.not_mem_nil, or_false] at h
  all_goals first
    | rcases h with rfl | rfl
      · rfl
      · rfl
    | rw [h]; rfl

theorem result_eq_ok {stage : Stage} {code : ℤ} (h : stage.result = some (.ok code)) :
    ∃ p n status, stage = .returned p n status ∧ code = status.code := by
  cases stage with
  | returned p n status => exact ⟨p, n, status, rfl, (Except.ok.inj (Option.some.inj h)).symm⟩
  | noPipe => cases Option.some.inj h
  | noFork p => cases Option.some.inj h
  | _ => cases h

theorem result_eq_error {stage : Stage} {error : String}
    (h : stage.result = some (.error error)) : stage = .noPipe ∨ ∃ p, stage = .noFork p := by
  cases stage with
  | returned p n status => cases Option.some.inj h
  | noPipe => exact .inl rfl
  | noFork p => exact .inr ⟨p, rfl⟩
  | _ => cases h

/-- Of the calls that have returned only those that could not fork have something open. -/
theorem eq_noFork {stage : Stage} (hreturned : stage.result ≠ none) (hfd : fd ∈ stage.held) :
    stage = .noFork fd.pipe := by
  have hpipe := pipefd_of_mem_held hfd
  cases stage with
  | noFork p => rw [← Option.some.inj hpipe]
  | noPipe => cases hfd
  | returned p n status => cases hfd
  | _ => exact absurd rfl hreturned

end Stage

/-- What the line buffer has been given at each stage: nothing, what has been read, and in the end,
if no `read` has failed, everything that was ever written to the pipe, to which nobody can write any
more. -/
def Output (κ : Kernel) (unfailing : Prop) (lineBuf : LineBuffer) : Stage → Prop
  | .pipe | .noPipe => lineBuf = .construct
  | .fork p | .noFork p | .store p _ | .closeWrite p _ =>
    lineBuf = .construct ∧ ∃ pipe : Pipe, κ.pipes[p]? = some pipe ∧ pipe.taken = 0
  | .read p _ => ∃ (pipe : Pipe) (chunks : List Text), κ.pipes[p]? = some pipe ∧
    pipe.taken ≤ pipe.written.length ∧ chunks.flatten = pipe.written.take pipe.taken ∧
    lineBuf = chunks.foldl append .construct
  | .closeRead p _ | .waitpid p _ | .clear p _ _ | .returned p _ _ =>
    ∃ pipe : Pipe, κ.pipes[p]? = some pipe ∧ pipe.taken ≤ pipe.written.length ∧
      lineBuf.lines = runs isLineEnd (pipe.written.take pipe.taken) ∧
      (unfailing → ¬ κ.HasWriter p ∧ pipe.taken = pipe.written.length)

/-- No `read` of call `i` has failed. -/
def ReadsWell (past : List Spawns.Event) (i : ℕ) : Prop := .act i .readFails ∉ past

/-- The `waitpid` of call `i` has not failed. -/
def WaitsWell (past : List Spawns.Event) (i : ℕ) : Prop :=
  ∀ status, .act i (.waitpidFails status) ∉ past

/-- What holds of a call, after the events `past`. -/
structure Sound (κ : Kernel) (past : List Spawns.Event) (i : ℕ) (call : SpawnCall) : Prop where
  id_eq : call.id = call.stage.id
  output : Output κ (ReadsWell past i) call.lineBuf call.stage
  child : ∀ n, call.stage.child = some n → ∃ process : Process, κ.processes[n]? = some process ∧
    process.call = i ∧ process.argv = argv call.command call.args ∧
    (WaitsWell past i → ∀ status, call.stage.status = some status → process.status = some status)

open Kernel

variable {call call' : SpawnCall} {action : SpawnCall.Action} {lineBuf : LineBuffer} {stage : Stage}
  {past past' : List Spawns.Event} {unfailing unfailing' : Prop}

theorem Output.mono (h : Output κ unfailing lineBuf stage)
    (hkept : ∀ p, stage.pipefd = some p → Kept κ κ' p) (hunfailing : unfailing' → unfailing) :
    Output κ' unfailing' lineBuf stage := by
  have hfresh : ∀ p, stage.pipefd = some p →
      (lineBuf = .construct ∧ ∃ pipe : Pipe, κ.pipes[p]? = some pipe ∧ pipe.taken = 0) →
      lineBuf = .construct ∧ ∃ pipe : Pipe, κ'.pipes[p]? = some pipe ∧ pipe.taken = 0 := by
    rintro p hp ⟨hnew, pipe, hpipe, htaken⟩
    obtain ⟨pipe', hpipe', htaken', -, -⟩ := hkept p hp pipe hpipe
    exact ⟨hnew, pipe', hpipe', htaken'.trans htaken⟩
  -- What has been taken is still what was written first.
  have htake : ∀ {pipe pipe' : Pipe}, pipe'.taken = pipe.taken → pipe.written <+: pipe'.written →
      pipe.taken ≤ pipe.written.length → pipe'.taken ≤ pipe'.written.length ∧
        pipe'.written.take pipe'.taken = pipe.written.take pipe.taken := by
    rintro pipe pipe' htaken ⟨more, hmore⟩ hle
    rw [htaken, ← hmore, List.take_append_of_le_length hle, List.length_append]
    exact ⟨hle.trans (Nat.le_add_right _ _), rfl⟩
  have hwhole : ∀ p, stage.pipefd = some p →
      (∃ pipe : Pipe, κ.pipes[p]? = some pipe ∧ pipe.taken ≤ pipe.written.length ∧
        lineBuf.lines = runs isLineEnd (pipe.written.take pipe.taken) ∧
        (unfailing → ¬ κ.HasWriter p ∧ pipe.taken = pipe.written.length)) →
      ∃ pipe : Pipe, κ'.pipes[p]? = some pipe ∧ pipe.taken ≤ pipe.written.length ∧
        lineBuf.lines = runs isLineEnd (pipe.written.take pipe.taken) ∧
        (unfailing' → ¬ κ'.HasWriter p ∧ pipe.taken = pipe.written.length) := by
    rintro p hp ⟨pipe, hpipe, hle, hlines, hend⟩
    obtain ⟨pipe', hpipe', htaken, hprefix, hwritten⟩ := hkept p hp pipe hpipe
    obtain ⟨hle', hsame⟩ := htake htaken hprefix hle
    refine ⟨pipe', hpipe', hle', ?_, fun h => ?_⟩
    · rw [hsame]
      exact hlines
    · obtain ⟨hnone, hall⟩ := hend (hunfailing h)
      obtain ⟨hnone', heq⟩ := hwritten hnone
      refine ⟨hnone', ?_⟩
      rw [htaken, heq]
      exact hall
  cases stage with
  | pipe => exact h
  | noPipe => exact h
  | fork p => exact hfresh p rfl h
  | noFork p => exact hfresh p rfl h
  | store p n => exact hfresh p rfl h
  | closeWrite p n => exact hfresh p rfl h
  | read p n =>
    obtain ⟨pipe, chunks, hpipe, hle, hchunks, hbuf⟩ := h
    obtain ⟨pipe', hpipe', htaken, hprefix, -⟩ := hkept p rfl pipe hpipe
    obtain ⟨hle', hsame⟩ := htake htaken hprefix hle
    exact ⟨pipe', chunks, hpipe', hle', hchunks.trans hsame.symm, hbuf⟩
  | closeRead p n => exact hwhole p rfl h
  | waitpid p n => exact hwhole p rfl h
  | clear p n status => exact hwhole p rfl h
  | returned p n status => exact hwhole p rfl h

/-- What others do takes nothing away from a call. -/
theorem Sound.mono (h : Sound κ past i call)
    (hkept : ∀ p, call.stage.pipefd = some p → Kept κ κ' p) (hlater : Later κ κ')
    (hpast : past ⊆ past') : Sound κ' past' i call := by
  refine ⟨h.id_eq, h.output.mono hkept fun hreads hmem => hreads (hpast hmem), ?_⟩
  intro n hn
  obtain ⟨process, hprocess, hcall, hargv, hstatus⟩ := h.child n hn
  obtain ⟨process', hprocess', hcall', hargv', hstatus'⟩ := hlater n process hprocess
  refine ⟨process', hprocess', hcall'.trans hcall, hargv'.trans hargv, fun hwaits status hs => ?_⟩
  exact hstatus' status (hstatus (fun status' hmem => hwaits status' (hpast hmem)) status hs)

/-- The steps of a call. -/
inductive Moves (κ : Kernel) (i : ℕ) (call : SpawnCall) :
    SpawnCall.Action → Kernel → SpawnCall → Prop
  | pipe (hstage : call.stage = .pipe) :
    Moves κ i call (.pipe true) κ.pipe { call with stage := .fork κ.pipes.length }
  | noPipe (hstage : call.stage = .pipe) :
    Moves κ i call (.pipe false) κ { call with stage := .noPipe }
  | fork {p : ℕ} (hstage : call.stage = .fork p) :
    Moves κ i call (.fork true) (κ.fork i p (argv call.command call.args))
      { call with stage := .store p κ.processes.length }
  | noFork {p : ℕ} (hstage : call.stage = .fork p) :
    Moves κ i call (.fork false) κ { call with stage := .noFork p }
  | store {p n : ℕ} (hstage : call.stage = .store p n) :
    Moves κ i call .advance κ { call with id := pid n, stage := .closeWrite p n }
  | closeWrite {p n : ℕ} (hstage : call.stage = .closeWrite p n) :
    Moves κ i call .advance (κ.close (.write p)) { call with stage := .read p n }
  | readSome {p n count : ℕ} {pipe : Pipe} (hstage : call.stage = .read p n)
      (hpipe : κ.pipes[p]? = some pipe) (hle : pipe.taken + count ≤ pipe.written.length) :
    Moves κ i call (.read count)
      { κ with pipes := κ.pipes.set p { pipe with taken := pipe.taken + count } }
      { call with lineBuf := call.lineBuf.append (substr pipe.written pipe.taken count) }
  | readEnd {p n : ℕ} {pipe : Pipe} (hstage : call.stage = .read p n)
      (hpipe : κ.pipes[p]? = some pipe) (htaken : pipe.taken = pipe.written.length)
      (hnone : ¬ κ.HasWriter p) :
    Moves κ i call (.read 0) κ { call with lineBuf := call.lineBuf.flush, stage := .closeRead p n }
  | readFails {p n : ℕ} (hstage : call.stage = .read p n) :
    Moves κ i call .readFails κ
      { call with lineBuf := call.lineBuf.flush, stage := .closeRead p n }
  | closeRead {p n : ℕ} (hstage : call.stage = .closeRead p n) :
    Moves κ i call .advance (κ.close (.read p)) { call with stage := .waitpid p n }
  | waitpid {p n : ℕ} {status : Status} (hstage : call.stage = .waitpid p n)
      (hstatus : κ.waitpid n = some status) :
    Moves κ i call .advance κ { call with stage := .clear p n status }
  | waitpidFails {p n : ℕ} {status : Status} (hstage : call.stage = .waitpid p n) :
    Moves κ i call (.waitpidFails status) κ { call with stage := .clear p n status }
  | clear {p n : ℕ} {status : Status} (hstage : call.stage = .clear p n status) :
    Moves κ i call .advance κ { call with id := 0, stage := .returned p n status }

theorem moves_of_step (h : call.step κ i action = some (κ', call')) :
    Moves κ i call action κ' call' := by
  cases action with
  | pipe ok =>
    cases hstage : call.stage <;> simp only [SpawnCall.step, hstage, reduceCtorEq] at h
    cases ok <;> obtain ⟨rfl, rfl⟩ := Prod.mk.inj (Option.some.inj h)
    · exact .noPipe hstage
    · exact .pipe hstage
  | fork ok =>
    cases hstage : call.stage <;> simp only [SpawnCall.step, hstage, reduceCtorEq] at h
    cases ok <;> obtain ⟨rfl, rfl⟩ := Prod.mk.inj (Option.some.inj h)
    · exact .noFork hstage
    · exact .fork hstage
  | read count =>
    cases hstage : call.stage <;> simp only [SpawnCall.step, hstage, reduceCtorEq] at h
    obtain ⟨⟨data, κ₁⟩, hread, hnext⟩ := Option.bind_eq_some_iff.mp h
    obtain ⟨pipe, hpipe, ⟨rfl, htaken, hnone, rfl⟩ | ⟨hcount, hle, rfl, rfl⟩⟩ := read_eq_some hread
    · rw [if_pos rfl] at hnext
      obtain ⟨rfl, rfl⟩ := Prod.mk.inj (Option.some.inj hnext)
      exact .readEnd hstage hpipe htaken hnone
    · rw [if_neg (Nat.pos_iff_ne_zero.mp hcount)] at hnext
      obtain ⟨rfl, rfl⟩ := Prod.mk.inj (Option.some.inj hnext)
      have hmove := Moves.readSome (i := i) hstage hpipe hle
      rw [hstage] at hmove
      exact hmove
  | readFails =>
    cases hstage : call.stage <;> simp only [SpawnCall.step, hstage, reduceCtorEq] at h
    obtain ⟨rfl, rfl⟩ := Prod.mk.inj (Option.some.inj h)
    exact .readFails hstage
  | waitpidFails status =>
    cases hstage : call.stage <;> simp only [SpawnCall.step, hstage, reduceCtorEq] at h
    obtain ⟨rfl, rfl⟩ := Prod.mk.inj (Option.some.inj h)
    exact .waitpidFails hstage
  | advance =>
    cases hstage : call.stage <;> simp only [SpawnCall.step, hstage, reduceCtorEq] at h
    · obtain ⟨rfl, rfl⟩ := Prod.mk.inj (Option.some.inj h)
      exact .store hstage
    · obtain ⟨rfl, rfl⟩ := Prod.mk.inj (Option.some.inj h)
      exact .closeWrite hstage
    · obtain ⟨rfl, rfl⟩ := Prod.mk.inj (Option.some.inj h)
      exact .closeRead hstage
    · obtain ⟨status, hstatus, h⟩ := Option.bind_eq_some_iff.mp h
      obtain ⟨rfl, rfl⟩ := Prod.mk.inj (Option.some.inj h)
      exact .waitpid hstage hstatus
    · obtain ⟨rfl, rfl⟩ := Prod.mk.inj (Option.some.inj h)
      exact .clear hstage

namespace Moves

variable (h : Moves κ i call action κ' call')

include h

theorem tidy (htidy : Tidy κ) (hheld : ∀ fd ∈ call.stage.held, fd ∈ κ.ends) : Tidy κ' := by
  cases h with
  | pipe hstage => exact htidy.pipe
  | fork hstage =>
    rw [hstage] at hheld
    exact htidy.fork (hheld _ (by simp [Stage.held])) _ _
  | closeWrite hstage => exact htidy.close _
  | readSome hstage hpipe hle => exact htidy.set_pipes _ _
  | closeRead hstage => exact htidy.close _
  | _ => exact htidy

theorem later : Later κ κ' := by
  cases h with
  | fork hstage => exact Later.of_prefix (List.prefix_append _ _)
  | _ => exact Later.of_prefix (List.prefix_refl _)

/-- A call takes bytes from no pipe but its own. -/
theorem kept (hheld : ∀ fd ∈ call.stage.held, fd ∈ κ.ends) (hp : call.stage.pipefd ≠ some p) :
    Kept κ κ' p := by
  have hsame : Kept κ κ p := Kept.of_pipes rfl id
  cases h with
  | pipe hstage => exact Kept.pipe
  | fork hstage =>
    rw [hstage] at hheld
    exact Kept.fork (hheld _ (by simp [Stage.held])) _ _
  | closeWrite hstage => exact Kept.close _
  | readSome hstage hpipe hle =>
    apply Kept.set_pipes
    rintro rfl
    rw [hstage] at hp
    exact hp rfl
  | closeRead hstage => exact Kept.close _
  | _ => exact hsame

theorem length_le : κ.pipes.length ≤ κ'.pipes.length := by
  cases h with
  | pipe hstage => simp [Kernel.pipe]
  | readSome hstage hpipe hle => simp
  | _ => exact Nat.le_refl _

/-- A call keeps its pipe and makes a new one for itself. -/
theorem pipefd : call'.stage.pipefd = call.stage.pipefd ∨
    call.stage.pipefd = none ∧ call'.stage.pipefd = some κ.pipes.length ∧
      κ.pipes.length < κ'.pipes.length := by
  cases h with
  | pipe hstage =>
    rw [hstage]
    exact .inr ⟨rfl, rfl, by simp [Kernel.pipe]⟩
  | readSome hstage hpipe hle => exact .inl rfl
  | _ =>
    left
    rw [‹call.stage = _›]
    rfl

/-- The program opens and closes for a call just the ends that the call has open. -/
theorem ends (hnodup : κ.ends.Nodup) (htidy : Tidy κ)
    (hheld : ∀ fd ∈ call.stage.held, fd ∈ κ.ends) : κ'.ends.Nodup ∧ ∀ fd, fd ∈ κ'.ends ↔
      fd ∈ call'.stage.held ∨ fd ∈ κ.ends ∧ fd ∉ call.stage.held := by
  have hsame : ∀ stage : Stage, stage.held = call.stage.held →
      κ.ends.Nodup ∧ ∀ fd, fd ∈ κ.ends ↔ fd ∈ stage.held ∨ fd ∈ κ.ends ∧ fd ∉ call.stage.held := by
    intro stage hstage
    refine ⟨hnodup, fun fd => ?_⟩
    rw [hstage]
    by_cases hfd : fd ∈ call.stage.held
    · exact iff_of_true (hheld fd hfd) (.inl hfd)
    · simp [hfd]
  have hclose : ∀ (fd : PipeEnd) (stage : Stage), call.stage.held.Nodup → fd ∈ call.stage.held →
      stage.held = call.stage.held.erase fd → (κ.close fd).ends.Nodup ∧ ∀ fd',
        fd' ∈ (κ.close fd).ends ↔ fd' ∈ stage.held ∨ fd' ∈ κ.ends ∧ fd' ∉ call.stage.held := by
    intro fd stage hheldnodup hfd hstage
    refine ⟨hnodup.erase fd, fun fd' => ?_⟩
    rw [Kernel.close, hnodup.mem_erase_iff, hstage, hheldnodup.mem_erase_iff]
    by_cases hfd' : fd' ∈ call.stage.held
    · simp [hfd', hheld fd' hfd']
    · have hne : fd' ≠ fd := fun heq => hfd' (heq ▸ hfd)
      simp [hfd', hne]
  cases h with
  | pipe hstage =>
    have hnew : ∀ fd ∈ κ.ends, fd.pipe ≠ κ.pipes.length :=
      fun fd hfd => Nat.ne_of_lt (htidy.ends_lt fd hfd)
    refine ⟨?_, fun fd => ?_⟩
    · refine List.nodup_cons.mpr ⟨?_, List.nodup_cons.mpr ⟨?_, hnodup⟩⟩
      · intro hmem
        rcases List.mem_cons.mp hmem with hmem | hmem
        · cases hmem
        · exact hnew _ hmem rfl
      · intro hmem
        exact hnew _ hmem rfl
    · rw [hstage]
      simp [Kernel.pipe, Stage.held, or_assoc]
  | fork hstage => exact hsame _ (by rw [hstage]; rfl)
  | closeWrite hstage =>
    apply hclose
    · rw [hstage]
      simp [Stage.held]
    · rw [hstage]
      simp [Stage.held]
    · rw [hstage]
      simp [Stage.held]
  | readSome hstage hpipe hle => exact hsame _ rfl
  | closeRead hstage =>
    apply hclose
    · rw [hstage]
      simp [Stage.held]
    · rw [hstage]
      simp [Stage.held]
    · rw [hstage]
      simp [Stage.held]
  | _ => exact hsame _ (by rw [‹call.stage = _›]; rfl)

theorem sound (hsound : Sound κ past i call) : Sound κ' (past ++ [.act i action]) i call' := by
  -- A longer past only takes promises back.
  obtain ⟨hid, houtput, hchild⟩ : Sound κ (past ++ [.act i action]) i call :=
    hsound.mono (fun p _ => Kept.of_pipes rfl id) (Later.of_prefix (List.prefix_refl _))
      (List.subset_append_left _ _)
  have hlast : Spawns.Event.act i action ∈ past ++ [.act i action] :=
    List.mem_append_right _ (List.mem_singleton_self _)
  cases h with
  | pipe hstage =>
    rw [hstage] at hid houtput hchild
    refine ⟨hid, ⟨houtput, ⟨[], 0⟩, ?_, rfl⟩, nofun⟩
    simp [Kernel.pipe]
  | noPipe hstage =>
    rw [hstage] at hid houtput hchild
    exact ⟨hid, houtput, nofun⟩
  | fork hstage =>
    rw [hstage] at hid houtput hchild
    refine ⟨hid, houtput, ?_⟩
    rintro n ⟨⟩
    refine ⟨_, List.getElem?_concat_length, rfl, rfl, nofun⟩
  | noFork hstage =>
    rw [hstage] at hid houtput hchild
    exact ⟨hid, houtput, nofun⟩
  | store hstage =>
    rw [hstage] at hid houtput hchild
    exact ⟨rfl, houtput, hchild⟩
  | closeWrite hstage =>
    rw [hstage] at hid houtput hchild
    obtain ⟨hnew, pipe, hpipe, htaken⟩ := houtput
    refine ⟨hid, ⟨pipe, [], hpipe, ?_, ?_, hnew⟩, hchild⟩
    · rw [htaken]
      exact Nat.zero_le _
    · rw [htaken]
      rfl
  | @readSome p n count pipe hstage hpipe hle =>
    rw [hstage] at houtput
    obtain ⟨pipe', chunks, hpipe', -, hchunks, hbuf⟩ := houtput
    obtain rfl := Option.some.inj (hpipe.symm.trans hpipe')
    refine ⟨hid, ?_, hchild⟩
    have hread : Output { κ with
        pipes := κ.pipes.set p { pipe with taken := pipe.taken + count } }
        (ReadsWell (past ++ [.act i (.read count)]) i)
        (call.lineBuf.append (substr pipe.written pipe.taken count)) (.read p n) := by
      refine ⟨{ pipe with taken := pipe.taken + count },
        chunks ++ [substr pipe.written pipe.taken count], ?_, hle, ?_, ?_⟩
      · rw [List.getElem?_set_self (List.getElem?_eq_some_iff.mp hpipe).1]
      · rw [List.flatten_append, hchunks, List.flatten_singleton, List.take_add]
        rfl
      · rw [List.foldl_append, ← hbuf]
        rfl
    rw [← hstage] at hread
    exact hread
  | readEnd hstage hpipe htaken hnone =>
    rw [hstage] at hid houtput hchild
    obtain ⟨pipe, chunks, hpipe', -, hchunks, hbuf⟩ := houtput
    obtain rfl := Option.some.inj (hpipe.symm.trans hpipe')
    refine ⟨hid, ⟨_, hpipe, htaken.le, ?_, fun _ => ⟨hnone, htaken⟩⟩, hchild⟩
    rw [← hchunks, ← readAll_lines, hbuf]
    rfl
  | readFails hstage =>
    rw [hstage] at hid houtput hchild
    obtain ⟨pipe, chunks, hpipe, hle, hchunks, hbuf⟩ := houtput
    -- What is left in the pipe is lost, and so is the promise about it.
    refine ⟨hid, ⟨pipe, hpipe, hle, ?_, fun hreads => absurd hlast hreads⟩, hchild⟩
    rw [← hchunks, ← readAll_lines, hbuf]
    rfl
  | @closeRead p n hstage =>
    rw [hstage] at hid houtput hchild
    have hread : Output κ (ReadsWell (past ++ [.act i .advance]) i) call.lineBuf
        (.closeRead p n) := houtput
    exact ⟨hid, hread.mono (fun q hq => Kept.close _) id, hchild⟩
  | waitpid hstage hstatus =>
    rw [hstage] at hid houtput hchild
    refine ⟨hid, houtput, ?_⟩
    rintro n ⟨⟩
    obtain ⟨process, hprocess, hcall, hargv, -⟩ := hchild _ rfl
    refine ⟨process, hprocess, hcall, hargv, ?_⟩
    rintro - status ⟨⟩
    rw [Kernel.waitpid, hprocess] at hstatus
    exact hstatus
  | waitpidFails hstage =>
    rw [hstage] at hid houtput hchild
    refine ⟨hid, houtput, ?_⟩
    rintro n ⟨⟩
    obtain ⟨process, hprocess, hcall, hargv, -⟩ := hchild _ rfl
    exact ⟨process, hprocess, hcall, hargv, fun hwaits => absurd hlast (hwaits _)⟩
  | clear hstage =>
    rw [hstage] at hid houtput hchild
    exact ⟨rfl, houtput, hchild⟩

end Moves

/-! ### The handle of a call -/

/-- Where the watcher thread of `spawn_process_async` is during the call that it makes. -/
def Stage.watcher : Stage → Watcher
  | .pipe | .fork _ => .starting
  | .store _ n => .forked (pid n)
  | .closeWrite _ n | .read _ n | .closeRead _ n | .waitpid _ n => .watching (pid n)
  | .clear _ _ _ => .reaped
  | .noPipe | .noFork _ | .returned _ _ _ => .cleared

/-- The handle whose `id` the call was given. -/
def SpawnCall.handle (call : SpawnCall) : ProcessHandle := ⟨call.id, true, call.stage.watcher⟩

/-- A step of a call is at most one of the watcher; a call without a pipe fails as one without a
child. -/
theorem Moves.handle (h : Moves κ i call action κ' call') :
    call'.handle = call.handle ∨
    (∃ child, child ≠ some 0 ∧ call.handle.fork child = some call'.handle) ∨
      call.handle.watch = some call'.handle := by
  cases h with
  | pipe hstage => exact .inl (by simp [SpawnCall.handle, Stage.watcher, hstage])
  | noPipe hstage =>
    refine .inr (.inl ⟨none, nofun, ?_⟩)
    simp [SpawnCall.handle, Stage.watcher, hstage, ProcessHandle.fork]
  | fork hstage =>
    refine .inr (.inl ⟨some (pid κ.processes.length), nofun, ?_⟩)
    simp [SpawnCall.handle, Stage.watcher, hstage, ProcessHandle.fork]
  | noFork hstage =>
    refine .inr (.inl ⟨none, nofun, ?_⟩)
    simp [SpawnCall.handle, Stage.watcher, hstage, ProcessHandle.fork]
  | store hstage =>
    exact .inr (.inr (by simp [SpawnCall.handle, Stage.watcher, hstage, ProcessHandle.watch]))
  | waitpid hstage hstatus =>
    exact .inr (.inr (by simp [SpawnCall.handle, Stage.watcher, hstage, ProcessHandle.watch]))
  | waitpidFails hstage =>
    exact .inr (.inr (by simp [SpawnCall.handle, Stage.watcher, hstage, ProcessHandle.watch]))
  | clear hstage =>
    exact .inr (.inr (by simp [SpawnCall.handle, Stage.watcher, hstage, ProcessHandle.watch]))
  | readSome hstage hpipe hle => exact .inl rfl
  | _ => exact .inl (by simp [SpawnCall.handle, Stage.watcher, ‹call.stage = _›])

/-! ### All calls -/

namespace Spawns

variable {σ σ' : Spawns} {event : Event} {events : List Event} {j : ℕ}

/-- What holds of the system and the calls: every call has a pipe of its own, and the program has
open what its calls have open. -/
structure Fits (past : List Event) (σ : Spawns) : Prop where
  tidy : Tidy σ.kernel
  nodup : σ.kernel.ends.Nodup
  held : ∀ fd, fd ∈ σ.kernel.ends ↔
    ∃ (i : ℕ) (call : SpawnCall), σ.calls[i]? = some call ∧ fd ∈ call.stage.held
  pipe_lt : ∀ (i : ℕ) (call : SpawnCall) (p : ℕ), σ.calls[i]? = some call →
    call.stage.pipefd = some p → p < σ.kernel.pipes.length
  distinct : ∀ (i j : ℕ) (call call' : SpawnCall) (p : ℕ), σ.calls[i]? = some call →
    σ.calls[j]? = some call' → call.stage.pipefd = some p → call'.stage.pipefd = some p → i = j
  sound : ∀ (i : ℕ) (call : SpawnCall), σ.calls[i]? = some call → Sound σ.kernel past i call

theorem fits_start : Fits [] start := by
  refine ⟨⟨nofun, nofun, nofun⟩, List.nodup_nil, ?_, nofun, nofun, nofun⟩
  intro fd
  apply iff_of_false List.not_mem_nil
  rintro ⟨i, call, hcall, -⟩
  cases hcall

theorem act_eq_some (hstep : σ.step (.act i action) = some σ') :
    ∃ call κ' call', σ.calls[i]? = some call ∧ Moves σ.kernel i call action κ' call' ∧
      σ' = ⟨κ', σ.calls.set i call'⟩ := by
  obtain ⟨call, hcall, hstep⟩ := Option.bind_eq_some_iff.mp hstep
  obtain ⟨⟨κ', call'⟩, hmoves, hstep⟩ := Option.bind_eq_some_iff.mp hstep
  exact ⟨call, κ', call', hcall, moves_of_step hmoves, (Option.some.inj hstep).symm⟩

theorem deed_eq_some {deed : Deed} (hstep : σ.step (.deed n deed) = some σ') :
    ∃ κ', σ.kernel.deed n deed = some κ' ∧ σ' = { σ with kernel := κ' } := by
  obtain ⟨κ', hdeed, hstep⟩ := Option.bind_eq_some_iff.mp hstep
  exact ⟨κ', hdeed, (Option.some.inj hstep).symm⟩

/-- The calls after a step of call `i`. -/
theorem getElem?_set {calls : List SpawnCall} (hcall : calls[i]? = some call) {c : SpawnCall} :
    (calls.set i call')[j]? = some c ↔ j = i ∧ c = call' ∨ j ≠ i ∧ calls[j]? = some c := by
  by_cases hij : j = i
  · subst hij
    rw [List.getElem?_set_self (List.getElem?_eq_some_iff.mp hcall).1]
    simp [eq_comm]
  · rw [List.getElem?_set_ne (Ne.symm hij)]
    simp [hij]

/-- The call that is made is the last one. -/
theorem getElem?_append {calls : List SpawnCall} {c : SpawnCall} :
    (calls ++ [call'])[j]? = some c ↔ j = calls.length ∧ c = call' ∨ calls[j]? = some c := by
  rcases Nat.lt_trichotomy j calls.length with hj | hj | hj
  · rw [List.getElem?_append_left hj]
    simp [Nat.ne_of_lt hj]
  · subst hj
    simp [eq_comm]
  · rw [List.getElem?_eq_none (by simp; omega), List.getElem?_eq_none (Nat.le_of_lt hj)]
    simp [Nat.ne_of_gt hj]

theorem Fits.addCall (h : Fits past σ) (command args : Text) :
    Fits (past ++ [.call command args])
      { σ with calls := σ.calls ++ [.make command args] } := by
  have hcases : ∀ (j : ℕ) (c : SpawnCall), (σ.calls ++ [.make command args])[j]? = some c →
      c = .make command args ∨ σ.calls[j]? = some c := by
    intro j c hc
    rcases getElem?_append.mp hc with ⟨-, hc⟩ | hc
    · exact .inl hc
    · exact .inr hc
  refine ⟨h.tidy, h.nodup, ?_, ?_, ?_, ?_⟩
  · intro fd
    rw [h.held fd]
    constructor
    · rintro ⟨j, c, hc, hfd⟩
      exact ⟨j, c, getElem?_append.mpr (.inr hc), hfd⟩
    · rintro ⟨j, c, hc, hfd⟩
      rcases hcases j c hc with rfl | hc
      · cases hfd
      · exact ⟨j, c, hc, hfd⟩
  · intro j c p hc hp
    rcases hcases j c hc with rfl | hc
    · cases hp
    · exact h.pipe_lt j c p hc hp
  · intro j k c c' p hc hc' hp hp'
    rcases hcases j c hc with rfl | hc
    · cases hp
    · rcases hcases k c' hc' with rfl | hc'
      · cases hp'
      · exact h.distinct j k c c' p hc hc' hp hp'
  · intro j c hc
    rcases hcases j c hc with rfl | hc
    · exact ⟨rfl, rfl, nofun⟩
    · exact (h.sound j c hc).mono (fun p _ => Kept.of_pipes rfl id)
        (Later.of_prefix (List.prefix_refl _)) (List.subset_append_left _ _)

theorem Fits.act (h : Fits past σ) (hcall : σ.calls[i]? = some call)
    (hmoves : Moves σ.kernel i call action κ' call') :
    Fits (past ++ [.act i action]) ⟨κ', σ.calls.set i call'⟩ := by
  have hheld : ∀ fd ∈ call.stage.held, fd ∈ σ.kernel.ends :=
    fun fd hfd => (h.held fd).mpr ⟨i, call, hcall, hfd⟩
  obtain ⟨hnodup, hends⟩ := hmoves.ends h.nodup h.tidy hheld
  -- another call has another pipe, also than one that is made in this step
  have hother : ∀ (j : ℕ) (c : SpawnCall) (p : ℕ), j ≠ i → σ.calls[j]? = some c →
      c.stage.pipefd = some p → call.stage.pipefd ≠ some p ∧ call'.stage.pipefd ≠ some p := by
    intro j c p hj hc hp
    have hne : call.stage.pipefd ≠ some p := fun hp' => hj (h.distinct j i c call p hc hcall hp hp')
    refine ⟨hne, ?_⟩
    rcases hmoves.pipefd with heq | ⟨-, heq, -⟩
    · rw [heq]
      exact hne
    · rw [heq]
      intro hp'
      exact absurd (h.pipe_lt j c p hc hp) (by rw [← Option.some.inj hp']; exact Nat.lt_irrefl _)
  refine ⟨hmoves.tidy h.tidy hheld, hnodup, ?_, ?_, ?_, ?_⟩
  · intro fd
    rw [hends fd]
    constructor
    · rintro (hfd | ⟨hfd, hnot⟩)
      · exact ⟨i, call', (getElem?_set hcall).mpr (.inl ⟨rfl, rfl⟩), hfd⟩
      · obtain ⟨j, c, hc, hfd'⟩ := (h.held fd).mp hfd
        refine ⟨j, c, (getElem?_set hcall).mpr (.inr ⟨?_, hc⟩), hfd'⟩
        rintro rfl
        obtain rfl := Option.some.inj (hcall.symm.trans hc)
        exact hnot hfd'
    · rintro ⟨j, c, hc, hfd⟩
      rcases (getElem?_set hcall).mp hc with ⟨-, rfl⟩ | ⟨hj, hc⟩
      · exact .inl hfd
      · refine .inr ⟨(h.held fd).mpr ⟨j, c, hc, hfd⟩, fun hfd' => ?_⟩
        exact (hother j c fd.pipe hj hc (Stage.pipefd_of_mem_held hfd)).1
          (Stage.pipefd_of_mem_held hfd')
  · intro j c p hc hp
    rcases (getElem?_set hcall).mp hc with ⟨-, rfl⟩ | ⟨-, hc⟩
    · rcases hmoves.pipefd with heq | ⟨-, heq, hlt⟩
      · rw [heq] at hp
        exact Nat.lt_of_lt_of_le (h.pipe_lt i call p hcall hp) hmoves.length_le
      · rw [heq] at hp
        exact Option.some.inj hp ▸ hlt
    · exact Nat.lt_of_lt_of_le (h.pipe_lt j c p hc hp) hmoves.length_le
  · intro j k c c' p hc hc' hp hp'
    rcases (getElem?_set hcall).mp hc with ⟨rfl, rfl⟩ | ⟨hj, hcj⟩
    · rcases (getElem?_set hcall).mp hc' with ⟨rfl, rfl⟩ | ⟨hk, hck⟩
      · rfl
      · exact absurd hp (hother k c' p hk hck hp').2
    · rcases (getElem?_set hcall).mp hc' with ⟨rfl, rfl⟩ | ⟨hk, hck⟩
      · exact absurd hp' (hother j c p hj hcj hp).2
      · exact h.distinct j k c c' p hcj hck hp hp'
  · intro j c hc
    rcases (getElem?_set hcall).mp hc with ⟨rfl, rfl⟩ | ⟨hj, hc⟩
    · exact hmoves.sound (h.sound _ call hcall)
    · exact (h.sound j c hc).mono (fun p hp => hmoves.kept hheld (hother j c p hj hc hp).1)
        hmoves.later (List.subset_append_left _ _)

theorem Fits.deed (h : Fits past σ) {deed : Deed} (hdeed : σ.kernel.deed n deed = some κ') :
    Fits (past ++ [.deed n deed]) { σ with kernel := κ' } := by
  obtain ⟨htidy, hends, hlength, hkept, hlater⟩ := deed_spec h.tidy hdeed
  refine ⟨htidy, ?_, ?_, ?_, h.distinct, ?_⟩
  · rw [hends]
    exact h.nodup
  · rw [hends]
    exact h.held
  · rw [hlength]
    exact h.pipe_lt
  · intro j c hc
    exact (h.sound j c hc).mono (fun p _ => hkept p) hlater (List.subset_append_left _ _)

theorem Fits.step (h : Fits past σ) (hstep : σ.step event = some σ') :
    Fits (past ++ [event]) σ' := by
  cases event with
  | call command args =>
    obtain rfl := Option.some.inj hstep
    exact h.addCall command args
  | act i action =>
    obtain ⟨call, κ', call', hcall, hmoves, rfl⟩ := act_eq_some hstep
    exact h.act hcall hmoves
  | deed n deed =>
    obtain ⟨κ', hdeed, rfl⟩ := deed_eq_some hstep
    exact h.deed hdeed

theorem fits_run (hrun : run step start events = some σ) : Fits events σ :=
  invariant_history (fun _ _ _ _ h hstep => h.step hstep) hrun fits_start

/-- The handle of every call is one that the watcher thread of `spawn_process_async` leads to, where
`terminate_process` may come upon it; a `waitpid` that fails counts as one that has waited. -/
theorem handle_reachable (hrun : run step start events = some σ)
    (hcall : σ.calls[i]? = some call) : ∃ watched : List Terminate.Event,
      run Terminate.State.step Terminate.start watched = some ⟨call.handle, [], []⟩ := by
  let Reached : Spawns → Prop := fun σ => ∀ (i : ℕ) (call : SpawnCall), σ.calls[i]? = some call →
    ∃ watched, run Terminate.State.step Terminate.start watched = some ⟨call.handle, [], []⟩
  have hstep : ∀ σ event σ', Reached σ → σ.step event = some σ' → Reached σ' := by
    intro σ event σ' h hstep j c hc
    cases event with
    | call command args =>
      obtain rfl := Option.some.inj hstep
      rcases getElem?_append.mp hc with ⟨-, rfl⟩ | hc
      · exact ⟨[], rfl⟩
      · exact h j c hc
    | deed n deed =>
      obtain ⟨κ', -, rfl⟩ := deed_eq_some hstep
      exact h j c hc
    | act i action =>
      obtain ⟨call, κ', call', hcall, hmoves, rfl⟩ := act_eq_some hstep
      rcases (getElem?_set hcall).mp hc with ⟨rfl, rfl⟩ | ⟨-, hc⟩
      · obtain ⟨watched, hwatched⟩ := h _ call hcall
        rcases hmoves.handle with heq | ⟨child, hchild, hfork⟩ | hwatch
        · exact ⟨watched, heq ▸ hwatched⟩
        · refine ⟨watched ++ [.fork child], ?_⟩
          rw [run_concat, hwatched]
          simp [Terminate.State.step, hchild, hfork]
        · refine ⟨watched ++ [.watch], ?_⟩
          rw [run_concat, hwatched]
          simp [Terminate.State.step, hwatch]
      · exact h j c hc
  exact invariant hstep hrun (fun _ _ => nofun) i call hcall

/-- What has been delivered when a call returns, in whatever order the calls and the processes have
run.  Its lines are those of all that it has read, and if none of its reads has failed, this is all
that was ever written to its pipe, to which nobody can write any more; its child has been started
with its arguments, and its code is how the child has ended, if its `waitpid` has not failed.  A
call that fails has delivered nothing.  And when all calls have returned, the program has open
exactly the pipes of those that could not fork. -/
theorem spawn_process_delivers (hrun : run step start events = some σ) :
    (∀ (i : ℕ) (call : SpawnCall) (code : ℤ), σ.calls[i]? = some call →
      call.stage.result = some (.ok code) →
        call.id = 0 ∧ ∃ (p n : ℕ) (pipe : Pipe) (process : Process),
          call.stage.pipefd = some p ∧ σ.kernel.pipes[p]? = some pipe ∧
          call.stage.child = some n ∧ σ.kernel.processes[n]? = some process ∧
          pipe.taken ≤ pipe.written.length ∧
          call.lineBuf.lines = runs isLineEnd (pipe.written.take pipe.taken) ∧
          (.act i .readFails ∉ events →
            ¬ σ.kernel.HasWriter p ∧ call.lineBuf.lines = runs isLineEnd pipe.written) ∧
          process.call = i ∧ process.argv = argv call.command call.args ∧
          ((∀ status, .act i (.waitpidFails status) ∉ events) →
            ∃ status, process.status = some status ∧ code = status.code)) ∧
    (∀ (i : ℕ) (call : SpawnCall) (error : String), σ.calls[i]? = some call →
      call.stage.result = some (.error error) → call.id = 0 ∧ call.lineBuf.lines = []) ∧
    ((∀ call ∈ σ.calls, call.stage.result ≠ none) →
      σ.kernel.ends.Nodup ∧ ∀ fd, fd ∈ σ.kernel.ends ↔
        ∃ call ∈ σ.calls, call.stage = .noFork fd.pipe) := by
  have hfits := fits_run hrun
  refine ⟨?_, ?_, ?_⟩
  · intro i call code hcall hresult
    obtain ⟨hid, houtput, hchild⟩ := hfits.sound i call hcall
    obtain ⟨p, n, status, hstage, hcode⟩ := Stage.result_eq_ok hresult
    rw [hstage] at hid houtput hchild ⊢
    obtain ⟨pipe, hpipe, hle, hlines, hend⟩ := houtput
    obtain ⟨process, hprocess, howner, hargv, hstatus⟩ := hchild n rfl
    refine ⟨hid, p, n, pipe, process, rfl, hpipe, rfl, hprocess, hle, hlines, ?_, howner, hargv, ?_⟩
    · intro hreads
      obtain ⟨hnone, hall⟩ := hend hreads
      rw [hall, List.take_length] at hlines
      exact ⟨hnone, hlines⟩
    · intro hwaits
      exact ⟨status, hstatus hwaits status rfl, hcode⟩
  · intro i call error hcall hresult
    obtain ⟨hid, houtput, -⟩ := hfits.sound i call hcall
    obtain hstage | ⟨p, hstage⟩ := Stage.result_eq_error hresult
    · rw [hstage] at hid houtput
      have hnew : call.lineBuf = .construct := houtput
      rw [hnew]
      exact ⟨hid, rfl⟩
    · rw [hstage] at hid houtput
      rw [houtput.1]
      exact ⟨hid, rfl⟩
  · intro hall
    refine ⟨hfits.nodup, fun fd => ?_⟩
    rw [hfits.held fd]
    constructor
    · rintro ⟨i, call, hcall, hfd⟩
      have hmem := List.mem_of_getElem? hcall
      exact ⟨call, hmem, Stage.eq_noFork (hall call hmem) hfd⟩
    · rintro ⟨call, hmem, hstage⟩
      obtain ⟨i, hcall⟩ := List.getElem?_of_mem hmem
      refine ⟨i, call, hcall, ?_⟩
      rw [hstage]
      cases fd <;> simp [Stage.held, PipeEnd.pipe]

/-- A shell that writes two lines, the second in two pieces, and ends with the code 3, while the
first read of another call fails. -/
theorem spawn_process_delivers_shell :
    let events : List Event := [.call (text "sh") (text "-c date"), .call (text "ls") [],
      .act 0 (.pipe true), .act 0 (.fork true), .act 0 .advance,
      .deed 0 (.write 0 (text "a\nb")), .act 0 .advance, .act 1 (.pipe true), .act 1 (.fork true),
      .act 1 .advance, .act 1 .advance, .deed 1 (.write 1 (text "lost")), .act 1 .readFails,
      .act 0 (.read 3), .deed 0 (.write 0 (text "c")), .deed 0 (.exit (.exited 3)),
      .act 0 (.read 1), .act 0 (.read 0), .act 0 .advance, .act 0 .advance, .act 0 .advance]
    ∃ (σ : Spawns) (call : SpawnCall), run step start events = some σ ∧ σ.calls[0]? = some call ∧
      call.id = 0 ∧ ∃ (p n : ℕ) (pipe : Pipe) (process : Process),
        call.stage.pipefd = some p ∧ σ.kernel.pipes[p]? = some pipe ∧
        call.stage.child = some n ∧ σ.kernel.processes[n]? = some process ∧
        ¬ σ.kernel.HasWriter p ∧ call.lineBuf.lines = runs isLineEnd pipe.written ∧
        process.argv = argv call.command call.args ∧
        ∃ status, process.status = some status ∧ 3 = status.code := by
  intro events
  obtain ⟨hid, p, n, pipe, process, hp, hpipe, hn, hprocess, -, -, hreads, -, hargv, hwaits⟩ :=
    (@spawn_process_delivers _ events rfl).1 0 _ 3 rfl rfl
  obtain ⟨hnone, hlines⟩ := hreads (by decide)
  have hstatus := hwaits (by intro status; simp [events])
  exact ⟨_, _, rfl, rfl, hid, p, n, pipe, process, hp, hpipe, hn, hprocess, hnone, hlines, hargv,
    hstatus⟩

end Spawns

end ProcessOps

end IACore
