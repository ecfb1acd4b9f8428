import PodFirmware.Entrance

/-!
# PodFirmware.Precedence

Who wins when two requests meet. There is one `next_state`, shared by the telemetry step, the
console and the periodic handlers, and the last writer wins: a fault that the telemetry step has
raised reaches `to_fault` unless the periodic handler of the current state runs in the same call and
asks for something else.
-/

namespace PodFirmware

variable {env : Env} {p p' : Pod} {target : StateName} {t : Nat}

/-- If the telemetry step of the call leaves `FAULT` requested, the call runs `to_fault`. -/
def FaultLaw (p : Pod) : Input → Prop
  | .app env =>
    let q := Pod.telemetryStep env (Pod.daqStep env p)
    pending q.handle = some .fault → q.handle.currState ≠ .fault →
      ∃ e ∈ Trace.since (step p (.app env)).log p.log,
        entrance e = some (.fault, q.handle.currState)
  | _ => True

instance (p : Pod) : ∀ i, Decidable (FaultLaw p i)
  | .app env => by unfold FaultLaw; infer_instance
  | .link _ => inferInstanceAs (Decidable True)
  | .telemetry _ => inferInstanceAs (Decidable True)
  | .override _ => inferInstanceAs (Decidable True)
  | .state _ => inferInstanceAs (Decidable True)

/-- The periodic handler of the state asks for a state other than `FAULT`. -/
def asksElsewhere (env : Env) (p : Pod) : StateName → Bool
  | .fault => (hasFlag p.handle.flags retryInit && p.linkUp) || hasFlag p.handle.flags runOver
  | .idle => false
  | .ready => Pod.pushSeen p.cfg p.telem
  | .pushing => pushedFor env p .pushingMust > p.cfg.mustBrakeTo || pushEnded env p
  | .coast =>
    pushedFor env p .coastMust > p.cfg.mustBrakeTo || Pod.coastDistance p.cfg p.telem
  | .braking => hasFlag p.handle.flags runOver && p.telem.velocity < 10

/-- `FAULT` is requested, and the periodic handler, which runs, asks for another state after it. -/
def FaultOverruled (env : Env) (p : Pod) : Prop :=
  pending p.handle = some .fault ∧ p.handle.currState ≠ .fault ∧ fires env p = true ∧
    asksElsewhere env p p.handle.currState = true

theorem asksElsewhere_iff {s : StateName} :
    asksElsewhere env p s = true ↔ ∃ target, target ≠ .fault ∧ demand env p s = some target := by
  constructor
  · intro h
    cases s with
    | fault => exact ⟨.idle, by simp, if_pos h⟩
    | idle => cases h
    | ready => exact ⟨.pushing, by simp, if_pos h⟩
    | pushing =>
      simp only [asksElsewhere, Bool.or_eq_true, decide_eq_true_eq] at h
      by_cases hm : pushedFor env p .pushingMust > p.cfg.mustBrakeTo
      · exact ⟨.braking, by simp, if_pos hm⟩
      · exact ⟨.coast, by simp, (if_neg hm).trans (if_pos (h.resolve_left hm))⟩
    | coast =>
      simp only [asksElsewhere, Bool.or_eq_true, decide_eq_true_eq] at h
      by_cases hm : pushedFor env p .coastMust > p.cfg.mustBrakeTo
      · exact ⟨.braking, by simp, if_pos hm⟩
      · exact ⟨.braking, by simp, (if_neg hm).trans (if_pos (h.resolve_left hm))⟩
    | braking => exact ⟨.idle, by simp, if_pos h⟩
  · rintro ⟨target, hne, hd⟩
    cases demands_of_demand hd with
    | recover h => simpa [asksElsewhere] using h
    | fail => exact absurd rfl hne
    | push h => exact h
    | late h => simp [asksElsewhere, h]
    | release h => simp [asksElsewhere, h]
    | lateCoast h => simp [asksElsewhere, h]
    | near h => simp [asksElsewhere, h]
    | unknown => exact absurd rfl hne
    | halt hf hv => simp [asksElsewhere, hf, hv]

/-- A periodic handler never asks for its own state. -/
theorem Demands.ne {s : StateName} (h : Demands env p s target) : target ≠ s := by
  cases h <;> simp

/-! ## One call -/

theorem entrance_inLog {e : Nat × Event} (h : e ∈ inLog env p) : entrance e = none := by
  unfold inLog at h
  split at h
  · rcases List.mem_append.mp h with h | h
    · exact entrance_of_isCommand (List.all_eq_true.mp inEvents_all e h)
    · rw [List.mem_singleton.mp h]
      rfl
  · cases h

/-- A call that makes a transition runs one entrance handler, that of the target. -/
theorem Move.entrance_eq (h : Move env p p' target t) {e : Nat × Event} {x : StateName × StateName}
    (he : e ∈ Trace.since p'.log p.log) (hx : PodFirmware.entrance e = some x) :
    x = (target, p.handle.currState) := by
  rw [h.since_eq, List.mem_cons, passLog, List.mem_append, List.mem_cons, List.mem_append,
    List.mem_cons] at he
  rcases he with rfl | he | rfl | he | rfl | he
  · cases hx
  · rw [entrance_of_isCommand (List.all_eq_true.mp toEvents_all e he)] at hx
    cases hx
  · exact (Option.some.inj hx).symm
  · rw [entrance_of_isCommand (List.all_eq_true.mp fromEvents_all e he)] at hx
    cases hx
  · cases hx
  · rw [entrance_inLog he] at hx
    cases hx

theorem Move.runs_iff (h : Move env p p' target t) (s : StateName) :
    (∃ e ∈ Trace.since p'.log p.log, PodFirmware.entrance e = some (s, p.handle.currState)) ↔
      target = s := by
  constructor
  · rintro ⟨e, he, hx⟩
    have hx := h.entrance_eq he hx
    rw [Prod.mk.injEq] at hx
    exact hx.1.symm
  · rintro rfl
    exact Trace.exists_of_latest h.entrance

/-- With `FAULT` pending, the request in force is the handler's own if it has one. -/
theorem request_eq_fault_iff (hp : pending p.handle = some .fault) :
    request env p = some .fault ↔
      ¬ (fires env p = true ∧ asksElsewhere env p p.handle.currState = true) := by
  rw [asksElsewhere_iff, request, hp]
  cases hf : fires env p with
  | false => simp
  | true =>
    cases hd : demand env p p.handle.currState with
    | none => simp
    | some s => simp

theorem runs_toFault_iff (hp : pending p.handle = some .fault) (hne : p.handle.currState ≠ .fault) :
    (∃ e ∈ Trace.since (p.stateMachineHandler env).log p.log,
        entrance e = some (.fault, p.handle.currState)) ↔ ¬ FaultOverruled env p := by
  have hreq : request env p = some .fault ↔ _ := request_eq_fault_iff hp
  rw [FaultOverruled, and_iff_right hp, and_iff_right hne, ← hreq]
  rcases (Pod.stateMachineHandler_call env p).outcome with hstay | ⟨target, t, hmove⟩
  · -- whatever is requested is not the current state, so the call does not stay
    exfalso
    have hself (s : StateName) (h : request env p = some s) : False := by
      have hs := hstay.request s h
      rcases request_cases h with ⟨_, hd⟩ | hd
      · exact (demands_of_demand hd).ne hs
      · rw [hp] at hd
        exact hne (hs ▸ Option.some.inj hd).symm
    cases hr : request env p with
    | none => simp [request, hp] at hr
    | some s => exact hself s hr
  · rw [hmove.runs_iff, hmove.request, Option.some.injEq]

/-! ## Runs -/

theorem battStep_handle (env : Env) (p : Pod) : (p.battStep env).handle = p.handle := by
  have hd : (p.due env .battMod .battCmp 1000 p.daq.lastBattTimestamp).2.handle = p.handle := by
    rw [Pod.due_eq]
    split <;> rfl
  unfold Pod.battStep
  generalize p.due env .battMod .battCmp 1000 p.daq.lastBattTimestamp = r at hd
  obtain ⟨hit, q⟩ := r
  cases hit with
  | false => exact hd
  | true => exact hd

theorem faultLaw_iff (p : Pod) (i : Input) :
    FaultLaw p i ↔ OnCall (fun env p => ¬ FaultOverruled env p) p i := by
  cases i with
  | app env =>
    have hb : (p.beforeHandler env).handle =
        (Pod.telemetryStep env (Pod.daqStep env p)).handle := battStep_handle env _
    unfold FaultLaw OnCall
    dsimp only
    rw [← hb, ← (Pod.beforeHandler_before env p).log]
    by_cases hp : pending (p.beforeHandler env).handle = some .fault
    · by_cases hne : (p.beforeHandler env).handle.currState ≠ .fault
      · rw [forall_prop_of_true hp, forall_prop_of_true hne]
        exact runs_toFault_iff hp hne
      · exact iff_of_true (fun _ h => absurd h hne) fun h => hne h.2.1
    · exact iff_of_true (fun h => absurd h hp) fun h => hp h.1
  | link up => exact Iff.rfl
  | telemetry t => exact Iff.rfl
  | override on => exact Iff.rfl
  | state c => exact Iff.rfl

/-- In every run, no fault that the telemetry step has raised is lost if and only if no periodic
handler asks for another state in the same call. -/
theorem faultLaw_run_iff (p : Pod) (is : List Input) :
    Machine.Always step FaultLaw p is ↔
      EveryCall (fun env p => ¬ FaultOverruled env p) p is :=
  Machine.always_congr_of_forall faultLaw_iff

/-- Made `READY` from the console; at 1500 ms the link is down, and the push is seen. -/
def linkLossAtPush : List Input :=
  [.app (bench 100), .state 'r', .app (bench 101), .app (bench 1000),
    .telemetry { acceleration := 200 }, .link false, .app (pushAt 1500)]

theorem faultLaw_fails : Booted boot ∧ Chronological boot linkLossAtPush ∧
    ¬ Machine.Always step FaultLaw boot linkLossAtPush := by
  refine ⟨booted_boot, ?_, by decide +kernel⟩
  refine ⟨onTime_bench (by decide), onTime_state _ _, onTime_bench (by decide +kernel),
    onTime_bench (by decide +kernel), onTime_telemetry _ _, onTime_link _ _, ?_, trivial⟩
  rintro env ⟨⟩ r
  show _ ≤ 1500
  decide +kernel

end PodFirmware
