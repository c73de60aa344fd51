import IACore.IPC.Endpoints
import IACore.IPC.Equiv.Descriptor
import IACore.Library.EventRun

/-!
# When live sessions keep their endpoints

Names of sessions differ exactly as their numbers do (`sockPath_inj`, `shmName_inj`), and a number
is the count of the calls of `spawn_node` in its process, reduced to 32 bits.  So live sessions stay
apart exactly as long as no call comes to the count of a live session (`separate_throughout_iff`):
in one process for the first `2 ^ 32` calls (`separate_throughout_of_one_process`), but not for two
processes (`two_managers_collide`).
-/

namespace IACore

/-! ### Names -/

theorem formatU32_inj {n m : UInt32} (h : formatU32 n = formatU32 m) : n = m := by
  have hn := fromChars_formatU32 n
  rw [h, fromChars_formatU32] at hn
  exact (Option.some.inj hn).symm

namespace IpcManager

theorem sockPath_inj {n m : UInt32} : sockPath n = sockPath m ↔ n = m := by
  constructor
  · intro h
    exact formatU32_inj (List.append_cancel_left (List.append_cancel_right h))
  · rintro rfl
    rfl

theorem shmName_inj {n m : UInt32} : shmName n = shmName m ↔ n = m := by
  constructor
  · intro h
    exact formatU32_inj (List.append_cancel_left h)
  · rintro rfl
    rfl

end IpcManager

namespace IpcEndpoints

open EventRun State IpcManager

variable {σ σ' : State} {s t : ℕ} {session session' : Session} {stage : Stage} {event : Event}

theorem ofNat_eq_iff {a b : ℕ} :
    UInt32.ofNat a = UInt32.ofNat b ↔ a % 4294967296 = b % 4294967296 := by
  rw [← UInt32.toNat_inj, UInt32.toNat_ofNat', UInt32.toNat_ofNat']

/-! ### Inversion -/

theorem bind_eq_some {ok : Bool} (h : σ.step (.bind s ok) = some σ') :
    ∃ session, σ.Live s session ∧ σ' = { σ.setStage s session (if ok then .bound else .gone) with
      sockets := Function.update σ.sockets (sockPath session.sid)
        (if ok then some s else none) } := by
  obtain ⟨session, hsession, h⟩ := Option.bind_eq_some_iff.mp h
  obtain ⟨hstage, h⟩ := Option.ite_none_right_eq_some.mp h
  exact ⟨session, ⟨hsession, by simp [hstage]⟩, (Option.some.inj h).symm⟩

theorem map_eq_some {ok : Bool} (h : σ.step (.map s ok) = some σ') :
    ∃ session, σ.Live s session ∧ session.stage = .bound ∧
      σ' = { σ.setStage s session (if ok then .mapped else .gone) with
        sharedMemory := Function.update σ.sharedMemory (shmName session.sid)
          (if ok then some s else none) } := by
  obtain ⟨session, hsession, h⟩ := Option.bind_eq_some_iff.mp h
  obtain ⟨hstage, h⟩ := Option.ite_none_right_eq_some.mp h
  exact ⟨session, ⟨hsession, by simp [hstage]⟩, hstage, (Option.some.inj h).symm⟩

theorem fail_eq_some (h : σ.step (.fail s) = some σ') :
    ∃ session, σ.Live s session ∧ σ' = σ.setStage s session .gone := by
  obtain ⟨session, hsession, h⟩ := Option.bind_eq_some_iff.mp h
  obtain ⟨hstage, h⟩ := Option.ite_none_left_eq_some.mp h
  exact ⟨session, ⟨hsession, hstage⟩, (Option.some.inj h).symm⟩

theorem release_eq_some (h : σ.step (.release s) = some σ') :
    ∃ session, σ.Live s session ∧ σ' = { σ.setStage s session .gone with
      sharedMemory := Function.update σ.sharedMemory (shmName session.sid) none } := by
  obtain ⟨session, hsession, h⟩ := Option.bind_eq_some_iff.mp h
  obtain ⟨hstage, h⟩ := Option.ite_none_right_eq_some.mp h
  exact ⟨session, ⟨hsession, by simp [hstage]⟩, (Option.some.inj h).symm⟩

theorem nodeUnlink_eq_some (h : σ.step (.nodeUnlink s) = some σ') :
    ∃ session : Session, σ' = { σ with
      sharedMemory := Function.update σ.sharedMemory (shmName session.sid) none } := by
  obtain ⟨session, -, h⟩ := Option.bind_eq_some_iff.mp h
  exact ⟨session, (Option.some.inj h).symm⟩

/-! ### Numbers -/

/-- The numbers are the counts, reduced. -/
structure Numbered (σ : State) : Prop where
  idGen : ∀ p, σ.idGen p = UInt32.ofNat (σ.calls p)
  sid : ∀ s session, σ.sessions s = some session → session.sid = UInt32.ofNat session.call
  fresh : ∀ s, σ.fresh ≤ s → σ.sessions s = none

theorem Numbered.start : Numbered start where
  idGen _ := rfl
  sid := nofun
  fresh _ _ := rfl

theorem Numbered.next (h : Numbered σ) (p : ℕ) :
    σ.idGen p + 1 = UInt32.ofNat (σ.calls p + 1) := by
  rw [h.idGen, UInt32.ofNat_add]
  rfl

theorem spawnNode_self (p : ℕ) :
    (σ.spawnNode p).sessions σ.fresh = some ⟨σ.idGen p + 1, σ.calls p + 1, .numbered⟩ :=
  Function.update_self _ _ _

theorem spawnNode_of_ne (p : ℕ) (hs : s ≠ σ.fresh) :
    (σ.spawnNode p).sessions s = σ.sessions s := Function.update_of_ne hs _ _

theorem setStage_self :
    (σ.setStage s session stage).sessions s = some { session with stage := stage } :=
  Function.update_self _ _ _

theorem setStage_of_ne (hts : t ≠ s) :
    (σ.setStage s session stage).sessions t = σ.sessions t := Function.update_of_ne hts _ _

/-- The session was there before, and alive if it is alive now. -/
def Before (σ : State) (s : ℕ) (session : Session) : Prop :=
  ∃ before, σ.sessions s = some before ∧ before.sid = session.sid ∧ before.call = session.call ∧
    (session.stage ≠ .gone → before.stage ≠ .gone)

theorem setStage_before (hlive : σ.Live s session)
    (h : (σ.setStage s session stage).sessions t = some session') : Before σ t session' := by
  by_cases hts : t = s
  · subst hts
    rw [setStage_self] at h
    obtain rfl := Option.some.inj h
    exact ⟨session, hlive.1, rfl, rfl, fun _ => hlive.2⟩
  · rw [setStage_of_ne hts] at h
    exact ⟨session', h, rfl, rfl, id⟩

/-- No step but `spawn_node` creates a session, revives one or draws a number. -/
theorem step_before (hstep : σ.step event = some σ') (hevent : ∀ p, event ≠ .spawnNode p) :
    σ'.idGen = σ.idGen ∧ σ'.calls = σ.calls ∧ σ'.fresh = σ.fresh ∧
      ∀ t session', σ'.sessions t = some session' → Before σ t session' := by
  cases event with
  | spawnNode p => exact absurd rfl (hevent p)
  | bind s ok =>
    obtain ⟨session, hlive, rfl⟩ := bind_eq_some hstep
    exact ⟨rfl, rfl, rfl, fun _ _ => setStage_before hlive⟩
  | map s ok =>
    obtain ⟨session, hlive, -, rfl⟩ := map_eq_some hstep
    exact ⟨rfl, rfl, rfl, fun _ _ => setStage_before hlive⟩
  | fail s =>
    obtain ⟨session, hlive, rfl⟩ := fail_eq_some hstep
    exact ⟨rfl, rfl, rfl, fun _ _ => setStage_before hlive⟩
  | release s =>
    obtain ⟨session, hlive, rfl⟩ := release_eq_some hstep
    exact ⟨rfl, rfl, rfl, fun _ _ => setStage_before hlive⟩
  | nodeUnlink s =>
    obtain ⟨session, rfl⟩ := nodeUnlink_eq_some hstep
    exact ⟨rfl, rfl, rfl, fun _ session' h => ⟨session', h, rfl, rfl, id⟩⟩

theorem Numbered.spawnNode (h : Numbered σ) (p : ℕ) : Numbered (σ.spawnNode p) where
  idGen q := by
    show Function.update σ.idGen p (σ.idGen p + 1) q
      = UInt32.ofNat (Function.update σ.calls p (σ.calls p + 1) q)
    by_cases hq : q = p
    · subst hq
      rw [Function.update_self, Function.update_self, h.next]
    · rw [Function.update_of_ne hq, Function.update_of_ne hq, h.idGen]
  sid s session hsession := by
    by_cases hs : s = σ.fresh
    · subst hs
      rw [spawnNode_self] at hsession
      obtain rfl := Option.some.inj hsession
      exact h.next p
    · rw [spawnNode_of_ne p hs] at hsession
      exact h.sid s session hsession
  fresh s hs := by
    have hs' : σ.fresh + 1 ≤ s := hs
    rw [spawnNode_of_ne p (by omega)]
    exact h.fresh s (by omega)

theorem Numbered.step (h : Numbered σ) (hstep : σ.step event = some σ') : Numbered σ' := by
  by_cases hspawn : ∃ p, event = .spawnNode p
  · obtain ⟨p, rfl⟩ := hspawn
    obtain rfl := Option.some.inj hstep
    exact h.spawnNode p
  · obtain ⟨hidGen, hcalls, hfresh, hbefore⟩ :=
      step_before hstep fun p hp => hspawn ⟨p, hp⟩
    refine ⟨?_, ?_, ?_⟩
    · rw [hidGen, hcalls]
      exact h.idGen
    · intro s session hsession
      obtain ⟨before, hold, hsid, hcall, -⟩ := hbefore s session hsession
      rw [← hsid, ← hcall]
      exact h.sid s before hold
    · intro s hs
      rw [hfresh] at hs
      by_contra hsome
      obtain ⟨session, hsession⟩ := Option.ne_none_iff_exists'.mp hsome
      obtain ⟨before, hold, -⟩ := hbefore s session hsession
      cases hold.symm.trans (h.fresh s hs)

/-! ### Names and endpoints -/

/-- The live sessions keep their names, so names that differ go on doing so. -/
theorem names_of_before (h : Separate σ)
    (hbefore : ∀ t session', σ'.sessions t = some session' → Before σ t session') (s t : ℕ)
    (session session' : Session) (hs : σ'.Live s session) (ht : σ'.Live t session') (hst : s ≠ t) :
    sockPath session.sid ≠ sockPath session'.sid ∧ shmName session.sid ≠ shmName session'.sid := by
  obtain ⟨before, hold, hsid, -, hstage⟩ := hbefore s session hs.1
  obtain ⟨before', hold', hsid', -, hstage'⟩ := hbefore t session' ht.1
  rw [← hsid, ← hsid']
  exact h.names s t before before' ⟨hold, hstage hs.2⟩ ⟨hold', hstage' ht.2⟩ hst

/-- Either `s` itself has come to `stage`, or another session is as it was. -/
theorem live_setStage (h : (σ.setStage s session stage).Live t session') :
    (t = s ∧ session' = { session with stage := stage } ∧ stage ≠ .gone) ∨
      (t ≠ s ∧ σ.Live t session') := by
  by_cases hts : t = s
  · subst hts
    have hsession := h.1
    rw [setStage_self] at hsession
    obtain rfl := Option.some.inj hsession
    exact .inl ⟨rfl, rfl, h.2⟩
  · have hsession := h.1
    rw [setStage_of_ne hts] at hsession
    exact .inr ⟨hts, hsession, h.2⟩

/-- A step that brings `s` to `stage` keeps the live sessions apart if the others keep their
endpoints, and `s` has its own unless it is gone. -/
theorem Separate.setStage (h : Separate σ)
    (hsessions : σ'.sessions = (σ.setStage s session stage).sessions)
    (hbefore : ∀ t session', σ'.sessions t = some session' → Before σ t session')
    (hothers : ∀ t session', t ≠ s → σ.Live t session' →
      σ'.sockets (sockPath session'.sid) = σ.sockets (sockPath session'.sid) ∧
        ∀ u, σ'.sharedMemory (shmName session'.sid) = some u →
          σ.sharedMemory (shmName session'.sid) = some u)
    (hown : stage ≠ .gone → σ'.sockets (sockPath session.sid) = some s ∧
      (stage = .mapped → ∀ u, σ'.sharedMemory (shmName session.sid) = some u → u = s)) :
    Separate σ' := by
  have hlive : ∀ t session', σ'.Live t session' →
      (t = s ∧ session' = { session with stage := stage } ∧ stage ≠ .gone) ∨
        (t ≠ s ∧ σ.Live t session') := by
    intro t session' ht
    apply live_setStage
    rw [State.Live, ← hsessions]
    exact ht
  refine ⟨names_of_before h hbefore, ?_, ?_⟩
  · intro t session' ht hnumbered
    rcases hlive t session' ht with ⟨rfl, rfl, hgone⟩ | ⟨hts, ht⟩
    · exact (hown hgone).1
    · rw [(hothers t session' hts ht).1]
      exact h.socket t session' ht hnumbered
  · intro t session' ht hmapped u howner
    rcases hlive t session' ht with ⟨rfl, rfl, hgone⟩ | ⟨hts, ht⟩
    · exact (hown hgone).2 hmapped u howner
    · exact h.memory t session' ht hmapped u ((hothers t session' hts ht).2 u howner)

/-- `bind_unix_socket` unlinks no socket of another live session. -/
theorem Separate.bind {ok : Bool} (h : Separate σ) (hstep : σ.step (.bind s ok) = some σ') :
    Separate σ' := by
  have hbefore := (step_before hstep nofun).2.2.2
  obtain ⟨session, hlive, rfl⟩ := bind_eq_some hstep
  refine h.setStage rfl hbefore ?_ ?_
  · intro t session' hts ht
    have hname := (h.names t s session' session ht hlive hts).1
    exact ⟨Function.update_of_ne hname _ _, fun _ howner => howner⟩
  · intro hgone
    cases ok with
    | false => exact absurd rfl hgone
    | true => exact ⟨Function.update_self _ _ _, nofun⟩

/-- `map_shared_memory` truncates no memory of another live session. -/
theorem Separate.map {ok : Bool} (h : Separate σ) (hstep : σ.step (.map s ok) = some σ') :
    Separate σ' := by
  have hbefore := (step_before hstep nofun).2.2.2
  obtain ⟨session, hlive, hstage, rfl⟩ := map_eq_some hstep
  refine h.setStage rfl hbefore ?_ ?_
  · intro t session' hts ht
    have hname := (h.names t s session' session ht hlive hts).2
    refine ⟨rfl, ?_⟩
    intro u howner
    rw [← howner]
    exact (Function.update_of_ne hname _ _).symm
  · intro hgone
    refine ⟨h.socket s session hlive (by simp [hstage]), ?_⟩
    intro _ u howner
    cases ok with
    | false => exact absurd rfl hgone
    | true =>
      have hself : Function.update σ.sharedMemory (shmName session.sid) (some s)
          (shmName session.sid) = some u := howner
      rw [Function.update_self] at hself
      exact (Option.some.inj hself).symm

theorem Separate.fail (h : Separate σ) (hstep : σ.step (.fail s) = some σ') : Separate σ' := by
  have hbefore := (step_before hstep nofun).2.2.2
  obtain ⟨session, -, rfl⟩ := fail_eq_some hstep
  refine h.setStage rfl hbefore ?_ ?_
  · intro t session' _ _
    exact ⟨rfl, fun _ howner => howner⟩
  · intro hgone
    exact absurd rfl hgone

/-- What has the name after an unlink had it before. -/
theorem owner_of_unlink {name name' : Text} {u : ℕ}
    (h : Function.update σ.sharedMemory name none name' = some u) :
    σ.sharedMemory name' = some u := by
  by_cases hname : name' = name
  · rw [hname, Function.update_self] at h
    cases h
  · rwa [Function.update_of_ne hname] at h

theorem Separate.release (h : Separate σ) (hstep : σ.step (.release s) = some σ') :
    Separate σ' := by
  have hbefore := (step_before hstep nofun).2.2.2
  obtain ⟨session, -, rfl⟩ := release_eq_some hstep
  refine h.setStage rfl hbefore ?_ ?_
  · intro t session' _ _
    exact ⟨rfl, fun _ howner => owner_of_unlink howner⟩
  · intro hgone
    exact absurd rfl hgone

theorem Separate.nodeUnlink (h : Separate σ) (hstep : σ.step (.nodeUnlink s) = some σ') :
    Separate σ' := by
  have hbefore := (step_before hstep nofun).2.2.2
  obtain ⟨session, rfl⟩ := nodeUnlink_eq_some hstep
  refine ⟨names_of_before h hbefore, h.socket, ?_⟩
  intro t session' ht hmapped u howner
  exact h.memory t session' ht hmapped u (owner_of_unlink howner)

/-! ### New numbers -/

/-- A new number is the number of no live session exactly if its count is the count of none. -/
theorem number_free_iff (hnumbered : Numbered σ) (p : ℕ) : NumberFree σ (.spawnNode p) ↔
    ∀ s session, σ.Live s session → session.sid ≠ σ.idGen p + 1 := by
  constructor
  · intro hfree s session hlive heq
    rw [hnumbered.next, hnumbered.sid s session hlive.1, ofNat_eq_iff] at heq
    exact hfree s session hlive heq
  · intro hne s session hlive heq
    apply hne s session hlive
    rw [hnumbered.next, hnumbered.sid s session hlive.1, ofNat_eq_iff]
    exact heq

/-- Either it is the new session, or it was there. -/
theorem live_spawnNode {p : ℕ} (h : (σ.spawnNode p).Live t session') :
    (t = σ.fresh ∧ session' = ⟨σ.idGen p + 1, σ.calls p + 1, .numbered⟩) ∨
      (t ≠ σ.fresh ∧ σ.Live t session') := by
  by_cases ht : t = σ.fresh
  · subst ht
    have hsession := h.1
    rw [spawnNode_self] at hsession
    exact .inl ⟨rfl, (Option.some.inj hsession).symm⟩
  · have hsession := h.1
    rw [spawnNode_of_ne p ht] at hsession
    exact .inr ⟨ht, hsession, h.2⟩

/-- A call of `spawn_node` keeps the live sessions apart exactly if its number is free. -/
theorem separate_spawnNode_iff (hnumbered : Numbered σ) (h : Separate σ) (p : ℕ) :
    Separate (σ.spawnNode p) ↔ NumberFree σ (.spawnNode p) := by
  rw [number_free_iff hnumbered]
  have hnew : (σ.spawnNode p).Live σ.fresh ⟨σ.idGen p + 1, σ.calls p + 1, .numbered⟩ :=
    ⟨spawnNode_self p, nofun⟩
  constructor
  · intro hseparate s session hlive heq
    have hs : s ≠ σ.fresh := by
      rintro rfl
      cases hlive.1.symm.trans (hnumbered.fresh σ.fresh le_rfl)
    have hlive' : (σ.spawnNode p).Live s session := by
      refine ⟨?_, hlive.2⟩
      rw [spawnNode_of_ne p hs]
      exact hlive.1
    exact (hseparate.names s σ.fresh _ _ hlive' hnew hs).1 (sockPath_inj.mpr heq)
  · intro hfree
    refine ⟨?_, ?_, ?_⟩
    · intro s t session session' hs ht hst
      rw [Ne, sockPath_inj, Ne, shmName_inj, and_self]
      rcases live_spawnNode hs with ⟨rfl, rfl⟩ | ⟨-, hs⟩
      · rcases live_spawnNode ht with ⟨rfl, -⟩ | ⟨-, ht⟩
        · exact absurd rfl hst
        · exact (hfree t session' ht).symm
      · rcases live_spawnNode ht with ⟨rfl, rfl⟩ | ⟨-, ht⟩
        · exact hfree s session hs
        · intro heq
          exact (h.names s t session session' hs ht hst).1 (sockPath_inj.mpr heq)
    · intro s session hs hstage
      rcases live_spawnNode hs with ⟨-, rfl⟩ | ⟨-, hs⟩
      · exact absurd rfl hstage
      · exact h.socket s session hs hstage
    · intro s session hs hstage
      rcases live_spawnNode hs with ⟨-, rfl⟩ | ⟨-, hs⟩
      · cases hstage
      · exact h.memory s session hs hstage

theorem Separate.step_iff (hnumbered : Numbered σ) (h : Separate σ)
    (hstep : σ.step event = some σ') : Separate σ' ↔ NumberFree σ event := by
  cases event with
  | spawnNode p =>
    obtain rfl := Option.some.inj hstep
    exact separate_spawnNode_iff hnumbered h p
  | bind s ok => exact iff_of_true (h.bind hstep) trivial
  | map s ok => exact iff_of_true (h.map hstep) trivial
  | fail s => exact iff_of_true (h.fail hstep) trivial
  | release s => exact iff_of_true (h.release hstep) trivial
  | nodeUnlink s => exact iff_of_true (h.nodeUnlink hstep) trivial

/-! ### One manager -/

/-- The sessions are from the calls made so far of the process `p`. -/
def Counted (p : ℕ) (σ : State) : Prop :=
  ∀ s session, σ.sessions s = some session → 0 < session.call ∧ session.call ≤ σ.calls p

theorem Counted.step {p : ℕ} (h : Counted p σ) (hevent : ∀ q, event = .spawnNode q → q = p)
    (hstep : σ.step event = some σ') : Counted p σ' ∧
      σ'.calls p = σ.calls p + if event = .spawnNode p then 1 else 0 := by
  by_cases hspawn : event = .spawnNode p
  · subst hspawn
    obtain rfl := Option.some.inj hstep
    have hcalls : (σ.spawnNode p).calls p = σ.calls p + 1 := Function.update_self _ _ _
    refine ⟨?_, by rw [hcalls, if_pos rfl]⟩
    intro s session hsession
    rw [hcalls]
    by_cases hs : s = σ.fresh
    · subst hs
      rw [spawnNode_self] at hsession
      obtain rfl := Option.some.inj hsession
      exact ⟨Nat.succ_pos _, le_rfl⟩
    · rw [spawnNode_of_ne p hs] at hsession
      obtain ⟨hpos, hle⟩ := h s session hsession
      exact ⟨hpos, by omega⟩
  · have hother : ∀ q, event ≠ .spawnNode q := fun q hq => hspawn (hevent q hq ▸ hq)
    obtain ⟨-, hcalls, -, hbefore⟩ := step_before hstep hother
    refine ⟨?_, by rw [hcalls, if_neg hspawn, Nat.add_zero]⟩
    intro s session hsession
    obtain ⟨before, hold, -, hcall, -⟩ := hbefore s session hsession
    rw [← hcall, hcalls]
    exact h s before hold

/-- Counts up to `2 ^ 32` differ modulo `2 ^ 32`. -/
theorem Counted.numberFree {p : ℕ} (h : Counted p σ) (hcalls : σ.calls p < 4294967296) :
    NumberFree σ (.spawnNode p) := by
  intro s session hlive heq
  obtain ⟨hpos, hle⟩ := h s session hlive.1
  omega

theorem along_of_one_process {p : ℕ} {events : List Event} (h : Counted p σ)
    (hevents : ∀ q, .spawnNode q ∈ events → q = p)
    (hcalls : σ.calls p + events.count (.spawnNode p) ≤ 4294967296) :
    Along State.step NumberFree σ events := by
  induction events generalizing σ with
  | nil => trivial
  | cons event events ih =>
    have hfirst : ∀ q, event = .spawnNode q → q = p := fun q hq =>
      hevents q (List.mem_cons.mpr (.inl hq.symm))
    rw [List.count_cons] at hcalls
    constructor
    · cases event with
      | spawnNode q =>
        obtain rfl := hfirst q rfl
        rw [beq_self_eq_true, if_pos rfl] at hcalls
        exact h.numberFree (by omega)
      | _ => trivial
    · intro σ' hstep
      obtain ⟨h', hnext⟩ := h.step hfirst hstep
      apply ih h' fun q hq => hevents q (List.mem_cons_of_mem _ hq)
      simp only [beq_iff_eq] at hcalls
      omega

/-! ### Runs -/

theorem Separate.start : Separate start where
  names _ _ _ _ h := nomatch h.1
  socket _ _ h := nomatch h.1
  memory _ _ h := nomatch h.1

/-- In a run of any number of managers the live sessions have different names in every state, and
nobody has taken the socket or the memory of one, exactly if every call of `spawn_node` draws a
number that no live session has. -/
theorem separate_throughout_iff {events : List Event}
    (hrun : run State.step IpcEndpoints.start events = some σ) :
    Throughout State.step Separate IpcEndpoints.start events ↔
      Along State.step NumberFree IpcEndpoints.start events :=
  throughout_iff_along (fun _ _ _ hJ _ hstep => Numbered.step hJ hstep)
    (fun _ _ _ hJ hI hstep => Separate.step_iff hJ hI hstep) hrun Numbered.start Separate.start

/-- Two calls of one manager, their sessions both bound. -/
theorem separate_throughout_two : Throughout State.step Separate IpcEndpoints.start
    [.spawnNode 0, .spawnNode 0, .bind 0 true, .bind 1 true] :=
  (separate_throughout_iff rfl).mpr <|
    along_of_one_process (p := 0) (fun _ _ h => nomatch h) (by simp) (by decide)

/-- The sessions of one manager are apart for its first `2 ^ 32` calls. -/
theorem separate_throughout_of_one_process {p : ℕ} {events : List Event}
    (hrun : run State.step IpcEndpoints.start events = some σ)
    (hevents : ∀ q, .spawnNode q ∈ events → q = p)
    (hcalls : events.count (.spawnNode p) ≤ 4294967296) :
    Throughout State.step Separate IpcEndpoints.start events := by
  have halong : Along State.step NumberFree IpcEndpoints.start events :=
    along_of_one_process (fun _ _ h => nomatch h) hevents (by simpa [IpcEndpoints.start])
  exact throughout_of_along (I := fun σ => Numbered σ ∧ Separate σ)
    (fun _ _ _ hI hC hstep => ⟨hI.1.step hstep, (Separate.step_iff hI.1 hI.2 hstep).mpr hC⟩)
    hrun ⟨Numbered.start, Separate.start⟩ halong |>.mono fun _ h => h.2

theorem sockets_of_bind (hsession : σ.sessions s = some session)
    (hstep : σ.step (.bind s true) = some σ') : σ'.sockets (sockPath session.sid) = some s := by
  obtain ⟨session', hlive, rfl⟩ := bind_eq_some hstep
  obtain rfl := Option.some.inj (hsession.symm.trans hlive.1)
  exact Function.update_self _ _ _

/-- Two managers, each in its first call: the second one's session has the number of the first
one's, and its `bind_unix_socket` unlinks the socket of a session that is alive. -/
theorem two_managers_collide : ∃ σ session,
    run State.step IpcEndpoints.start [.spawnNode 0, .bind 0 true, .spawnNode 1, .bind 1 true]
        = some σ ∧
      σ.Live 0 session ∧ σ.sockets (sockPath session.sid) = some 1 ∧ ¬ Separate σ := by
  obtain ⟨σ₁, σ, -, hrun, hsession, hbind, hlive⟩ : ∃ σ₁ σ,
      run State.step IpcEndpoints.start [.spawnNode 0, .bind 0 true, .spawnNode 1] = some σ₁ ∧
      run State.step IpcEndpoints.start
        [.spawnNode 0, .bind 0 true, .spawnNode 1, .bind 1 true] = some σ ∧
      σ₁.sessions 1 = some ⟨1, 1, .numbered⟩ ∧ σ₁.step (.bind 1 true) = some σ ∧
      σ.Live 0 ⟨1, 1, .bound⟩ := ⟨_, _, rfl, rfl, rfl, rfl, rfl, nofun⟩
  have hsocket := sockets_of_bind hsession hbind
  refine ⟨σ, ⟨1, 1, .bound⟩, hrun, hlive, hsocket, ?_⟩
  intro h
  cases hsocket.symm.trans (h.socket 0 ⟨1, 1, .bound⟩ hlive nofun)

end IpcEndpoints

end IACore
