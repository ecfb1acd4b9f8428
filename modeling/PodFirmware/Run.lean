import PodFirmware.Application
import PodFirmware.Call

/-!
# PodFirmware.Run

One step of a run, for every input. Whatever happens between two `state_machine_handler` calls does
not move the state machine (`Quiet`): it can only put a request in its way, and without the console
that request is `FAULT` (`Before`). `step_cases` is what the induction steps of the invariants use.
-/

namespace PodFirmware

/-- From `p` to `q` the state machine did not move. -/
structure Quiet (p q : Pod) : Prop where
  currState : q.handle.currState = p.handle.currState
  marks : q.marks = p.marks
  cfg : q.cfg = p.cfg
  log : q.log = p.log
  powerOn : hasFlag q.handle.flags powerOn = hasFlag p.handle.flags powerOn

/-- From `p` to `q` a part of `application_handler` ran that precedes the state machine. -/
structure Before (env : Env) (p q : Pod) : Prop extends Quiet p q where
  now : q.now = p.now ∨ ∃ r, q.now = env.clock.read r
  request : pending q.handle = pending p.handle ∨ pending q.handle = some .fault

namespace Before

variable {env : Env} {p q r : Pod}

theorem refl (p : Pod) : Before env p p := ⟨⟨rfl, rfl, rfl, rfl, rfl⟩, .inl rfl, .inl rfl⟩

theorem trans (h₁ : Before env p q) (h₂ : Before env q r) : Before env p r where
  currState := h₂.currState.trans h₁.currState
  marks := h₂.marks.trans h₁.marks
  cfg := h₂.cfg.trans h₁.cfg
  log := h₂.log.trans h₁.log
  powerOn := h₂.powerOn.trans h₁.powerOn
  now := by
    rcases h₂.now with e | e
    · rw [e]; exact h₁.now
    · exact .inr e
  request := by
    rcases h₂.request with e | e
    · rw [e]; exact h₁.request
    · exact .inr e

theorem readTicks (p : Pod) (x : TickRead) : Before env p (p.readTicks env x) :=
  ⟨⟨rfl, rfl, rfl, rfl, rfl⟩, .inr ⟨x, rfl⟩, .inl rfl⟩

theorem setReports (p : Pod) (x : Reports) : Before env p (p.setReports x) :=
  ⟨⟨rfl, rfl, rfl, rfl, rfl⟩, .inl rfl, .inl rfl⟩

theorem setDaq (p : Pod) (x : DaqState) : Before env p (p.setDaq x) :=
  ⟨⟨rfl, rfl, rfl, rfl, rfl⟩, .inl rfl, .inl rfl⟩

theorem setTelem (p : Pod) (x : Telemetry) : Before env p (p.setTelem x) :=
  ⟨⟨rfl, rfl, rfl, rfl, rfl⟩, .inl rfl, .inl rfl⟩

theorem setRetryInit (p : Pod) : Before env p (p.setFlag retryInit) :=
  ⟨⟨rfl, rfl, rfl, rfl, hasFlag_or (by decide)⟩, .inl rfl, .inl rfl⟩

theorem telemetryFault (p : Pod) (message : String) :
    Before env p (p.telemetryFault message) :=
  ⟨⟨rfl, rfl, rfl, rfl, rfl⟩, .inl rfl, .inr rfl⟩

theorem ofDaq (h : DaqFrame env p q) : Before env p q := by
  rcases h.handle with e | e
  · exact ⟨⟨by rw [e], h.marks, h.cfg, h.log, by rw [e]⟩, h.now, .inl (by rw [e])⟩
  · refine ⟨⟨by rw [e], h.marks, h.cfg, h.log, ?_⟩, h.now, .inl ?_⟩
    · rw [e]
      exact hasFlag_or (by decide)
    · rw [e]
      rfl

theorem due (p : Pod) (rMod rCmp : TickRead) (interval last : UInt32) :
    Before env p (p.due env rMod rCmp interval last).2 := by
  rw [Pod.due_eq]
  split
  · exact readTicks p rCmp
  · exact readTicks p rMod

end Before

namespace Pod

variable (env : Env) (p : Pod)

theorem sendBoth_before : Before env p (sendBoth env p).2 := by
  rcases sendBoth_changes env p with h | ⟨r, x, h⟩ <;> rw [h]
  · exact Before.refl p
  · exact (Before.setDaq p _).trans <| (Before.readTicks _ r).trans (Before.setReports _ x)

theorem daqStep_before : Before env p (daqStep env p) := by
  have h := @Before.due env p .daqMod .daqCmp 10 p.daq.lastDaqTimestamp
  unfold daqStep
  dsimp only
  split
  · exact h.trans <| (Before.readTicks _ .daqSet).trans <| (Before.setDaq _ _).trans <|
      .ofDaq (badgerloopUpdateData_frame env _)
  · split
    · exact h.trans (.ofDaq (badgerloopForcedData_frame env _))
    · exact h

theorem telemetryStep_before : Before env p (telemetryStep env p) := by
  have h := @Before.due env p .telemMod .telemCmp 300 p.reports.lastTelemTimestamp
  unfold telemetryStep
  dsimp only
  split
  · have hset (x : Reports) := h.trans <|
      (@Before.readTicks env _ .telemSet).trans (Before.setReports _ x)
    split
    · have hsend (x : Reports) := (hset x).trans (sendBoth_before env _)
      split
      · exact (hsend _).trans (Before.telemetryFault _ _)
      · exact hsend _
    · have hfault (x : Reports) := (hset x).trans (Before.telemetryFault _ "No network link!")
      split
      · exact (hfault _).trans (Before.setRetryInit _)
      · exact hfault _
  · exact h

theorem battStep_before : Before env p (battStep env p) := by
  have h := @Before.due env p .battMod .battCmp 1000 p.daq.lastBattTimestamp
  unfold battStep
  dsimp only
  split
  · exact h.trans <| (Before.readTicks _ .battSet).trans <| (Before.setDaq _ _).trans <|
      (Before.setDaq _ _).trans (Before.setTelem _ _)
  · exact h

theorem beforeHandler_before : Before env p (beforeHandler env p) :=
  (daqStep_before env p).trans <| (telemetryStep_before env _).trans (battStep_before env _)

end Pod

/-! ## One step -/

theorem link_quiet (p : Pod) (up : Bool) : Quiet p (step p (.link up)) :=
  ⟨rfl, rfl, rfl, rfl, rfl⟩

theorem telemetry_quiet (p : Pod) (t : Telemetry) : Quiet p (step p (.telemetry t)) :=
  ⟨rfl, rfl, rfl, rfl, rfl⟩

theorem override_quiet (p : Pod) (on : Bool) : Quiet p (step p (.override on)) :=
  ⟨rfl, rfl, rfl, rfl, rfl⟩

theorem state_quiet (p : Pod) (c : Char) : Quiet p (step p (.state c)) := by
  simp only [step, Pod.consoleState]
  split <;> exact ⟨rfl, rfl, rfl, rfl, rfl⟩

theorem state_now (p : Pod) (c : Char) : (step p (.state c)).now = p.now := by
  simp only [step, Pod.consoleState]
  split <;> rfl

theorem step_cases (p : Pod) (i : Input) :
    (∃ env, i = .app env ∧ Before env p (p.beforeHandler env) ∧
        Call env (p.beforeHandler env) (step p i)) ∨
      (∀ env, i ≠ .app env) ∧ Quiet p (step p i) ∧ (step p i).now = p.now := by
  cases i with
  | app env =>
    exact .inl ⟨env, rfl, Pod.beforeHandler_before env p, Pod.stateMachineHandler_call env _⟩
  | link up => exact .inr ⟨by simp, link_quiet p up, rfl⟩
  | telemetry t => exact .inr ⟨by simp, telemetry_quiet p t, rfl⟩
  | override on => exact .inr ⟨by simp, override_quiet p on, rfl⟩
  | state c => exact .inr ⟨by simp, state_quiet p c, state_now p c⟩

/-! ## Properties of every call -/

theorem onCall_congr {P Q : Env → Pod → Prop} {p : Pod} {i : Input}
    (h : ∀ env, i = .app env → (P env (p.beforeHandler env) ↔ Q env (p.beforeHandler env))) :
    OnCall P p i ↔ OnCall Q p i := by
  cases i with
  | app env => exact h env rfl
  | link up => exact Iff.rfl
  | telemetry t => exact Iff.rfl
  | override on => exact Iff.rfl
  | state c => exact Iff.rfl

theorem everyCall_congr {P Q : Env → Pod → Prop} (h : ∀ env p, P env p ↔ Q env p) (p : Pod)
    (is : List Input) : EveryCall P p is ↔ EveryCall Q p is :=
  Machine.always_congr_of_forall fun _ _ => onCall_congr fun env _ => h env _

/-! ## Configuration -/

theorem step_cfg (p : Pod) (i : Input) : (step p i).cfg = p.cfg := by
  rcases step_cases p i with ⟨env, rfl, hb, hc⟩ | ⟨_, hq, _⟩
  · exact hc.cfg.trans hb.cfg
  · exact hq.cfg

theorem run_cfg (p : Pod) (is : List Input) : (Machine.run step p is).cfg = p.cfg := by
  induction is generalizing p with
  | nil => rfl
  | cons i is ih => rw [Machine.run_cons, ih, step_cfg]

/-! ## Time -/

theorem Before.le_now {env : Env} {p q : Pod} {n : Nat} (h : Before env p q) (hp : n ≤ p.now)
    (hr : ∀ r, p.now ≤ env.clock.read r) : n ≤ q.now := by
  rcases h.now with e | ⟨r, e⟩ <;> rw [e]
  · exact hp
  · exact Nat.le_trans hp (hr r)

/-! ## Requests -/

theorem request_cases {env : Env} {p : Pod} {s : StateName} (h : request env p = some s) :
    (fires env p = true ∧ demand env p p.handle.currState = some s) ∨
      pending p.handle = some s := by
  unfold request at h
  cases hf : fires env p with
  | false =>
    rw [hf] at h
    exact .inr h
  | true =>
    rw [hf, if_pos rfl] at h
    cases hd : demand env p p.handle.currState with
    | none =>
      rw [hd] at h
      exact .inr h
    | some s' =>
      rw [hd] at h
      exact .inl ⟨rfl, h⟩

/-- The only request that can be pending besides one for the current state is `FAULT`. -/
def Calm (p : Pod) : Prop :=
  ∀ s, pending p.handle = some s → s = p.handle.currState ∨ s = .fault

/-- What happens without the console; the telemetry may still change in any way. -/
def Input.Autonomous : Input → Prop
  | .override _ => False
  | .state _ => False
  | _ => True

theorem Before.calm {env : Env} {p q : Pod} (h : Before env p q) (hp : Calm p) : Calm q := by
  intro s hs
  rw [h.currState]
  rcases h.request with e | e
  · exact hp s (e ▸ hs)
  · rw [e] at hs
    exact .inr (Option.some.inj hs).symm

theorem Call.calm {env : Env} {p p' : Pod} (h : Call env p p') : Calm p' := by
  intro s hs
  rcases h.outcome with hstay | ⟨target, t, hmove⟩
  · rw [hstay.pending] at hs
    cases hs
  · exact .inl (hmove.pending s hs)

theorem Quiet.calm {p q : Pod} (h : Quiet p q) (hr : pending q.handle = pending p.handle)
    (hp : Calm p) : Calm q := by
  intro s hs
  rw [h.currState]
  exact hp s (hr ▸ hs)

theorem step_calm {p : Pod} {i : Input} (hp : Calm p) (hi : i.Autonomous) : Calm (step p i) := by
  cases i with
  | app env => exact (Pod.stateMachineHandler_call env _).calm
  | link up => exact (link_quiet p up).calm rfl hp
  | telemetry t => exact (telemetry_quiet p t).calm rfl hp
  | override on => exact hi.elim
  | state c => exact hi.elim

/-- A request of a calm machine for neither its own state nor `FAULT` comes from the handler. -/
theorem Calm.demand {env : Env} {p : Pod} {s : StateName} (hp : Calm p)
    (h : PodFirmware.request env p = some s) (hne : s ≠ p.handle.currState) (hf : s ≠ .fault) :
    fires env p = true ∧ PodFirmware.demand env p p.handle.currState = some s := by
  rcases request_cases h with h | h
  · exact h
  · rcases hp s h with e | e
    · exact absurd e hne
    · exact absurd e hf

/-! ## Runs that start in `READY` -/

/-- The machine has come to `READY`, and nothing but a fault asks for it to leave. -/
structure ReadyStart (p : Pod) : Prop where
  currState : p.handle.currState = .ready
  calm : Calm p
  log : p.log = []

theorem always_autonomous {p : Pod} {is : List Input} (hi : ∀ i ∈ is, i.Autonomous) :
    Machine.Always step (fun _ i => i.Autonomous) p is :=
  Machine.always_of_forall fun _ => hi

theorem run_calm {p : Pod} {is : List Input} (hp : Calm p) (hi : ∀ i ∈ is, i.Autonomous) :
    Calm (Machine.run step p is) :=
  Machine.run_inv (fun _ _ => step_calm) hp (always_autonomous hi)

theorem step_powerOn {p : Pod} (i : Input) (hp : hasFlag p.handle.flags powerOn = false) :
    hasFlag (step p i).handle.flags powerOn = false := by
  rcases step_cases p i with ⟨env, _, hb, hc⟩ | ⟨_, hq, _⟩
  · exact hc.powerOn (hb.powerOn.trans hp)
  · exact hq.powerOn.trans hp

theorem run_powerOn {p : Pod} (is : List Input) (hp : hasFlag p.handle.flags powerOn = false) :
    hasFlag (Machine.run step p is).handle.flags powerOn = false := by
  induction is generalizing p with
  | nil => exact hp
  | cons i is ih => exact ih (step_powerOn i hp)

/-- Pushed from the console at 4001 ms; the link goes down, which is noticed at 4200 ms. -/
def linkLoss : List Input :=
  [.state 'p', .app (bench 4001), .link false, .app (bench 4200)]

/-- Switched on, checked at 100 ms, and made `READY` from the console. -/
def standby : Pod :=
  { Machine.run step boot [.app (bench 100), .state 'r', .app (bench 101)] with log := [] }

theorem readyStart_standby : ReadyStart standby where
  currState := by decide +kernel
  calm := fun s h => by rw [show pending standby.handle = none by decide +kernel] at h; cases h
  log := rfl

def pushAt (t : Nat) : Env := { bench t with pins := fun _ => false }

def pastEndAt (t : Nat) : Env := { bench t with retro := fun _ => { count := 42 } }

def pushToBrake : List Input :=
  [.telemetry { acceleration := 200 }, .app (pushAt 250), .app (bench 30500)]

/-- The end of the run, reported at 30600 ms at a standstill. -/
def endOfRun : List Input := [.app (pastEndAt 30600)]

theorem autonomous_toEnd : ∀ i ∈ pushToBrake ++ endOfRun, i.Autonomous := by
  intro i hi
  simp only [pushToBrake, endOfRun, List.mem_append, List.mem_cons, List.not_mem_nil,
    or_false] at hi
  rcases hi with (rfl | rfl | rfl) | rfl <;> trivial

end PodFirmware
