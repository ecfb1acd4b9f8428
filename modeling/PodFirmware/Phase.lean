import Mathlib.Data.Nat.Basic
import PodFirmware.History

/-!
# PodFirmware.Phase

The phases of an autonomous run, one that starts in `READY` and gets no console commands.

`Advances` is the graph of the state changes that such a run can make. Every call of the faithful
controller follows an edge of it or stays where it is (`Calm.advances`), so what is proved about the
graph holds of the controller: the phase never goes back, and the pod is pushed at most once.
-/

namespace PodFirmware

variable {env : Env} {p p' : Pod} {t : Nat} {target : StateName}

/-! ## The graph of phases -/

/-- Which state can follow which. A loop is a transition redirected to where it came from. -/
inductive Advances : StateName → StateName → Prop where
  | push : Advances .ready .pushing
  | standDown : Advances .ready .idle
  | release : Advances .pushing .coast
  | lowPressure : Advances .pushing .fault
  | late : Advances .pushing .braking
  | brake : Advances .coast .braking
  | tooEarly : Advances .coast .coast
  | halt : Advances .braking .idle
  | brakedFault : Advances .braking .fault
  | hold : Advances .braking .braking
  | recover : Advances .fault .idle
  | fail : Advances .idle .fault

def rank : StateName → Nat
  | .ready => 0
  | .pushing => 1
  | .coast => 2
  | .braking => 3
  | .idle => 4
  | .fault => 4

theorem Advances.rank_le {a b : StateName} (h : Advances a b) : rank a ≤ rank b := by
  cases h <;> decide

theorem Advances.to_pushing {a : StateName} (h : Advances a .pushing) : a = .ready := by
  cases h
  rfl

theorem Advances.not_ready {a : StateName} : ¬ Advances a .ready := by
  intro h
  cases h

/-! ## The controller follows the graph -/

/-- A fault raised in motion is diverted to the next phase. -/
theorem advances_fault {source : StateName} (hne : source ≠ .fault) :
    Advances source (arrival env p source .fault) := by
  cases source with
  | fault => exact absurd rfl hne
  | idle => exact .fail
  | ready => exact .standDown
  | pushing => exact .release
  | coast => exact .brake
  | braking =>
    rcases arrival_cases env p .braking .fault with e | hd
    · rw [e]
      exact .brakedFault
    · generalize arrival env p .braking .fault = reached at hd ⊢
      cases hd
      exact .hold

/-- What the periodic handlers ask for is the next phase, diverted or not. -/
theorem Demands.advances {source : StateName} (h : Demands env p source target)
    (hf : target ≠ .fault) : Advances source (arrival env p source target) := by
  rcases arrival_cases env p source target with e | hd
  · rw [e]
    cases h with
    | recover => exact .recover
    | fail => exact .fail
    | push => exact .push
    | late => exact .late
    | release => exact .release
    | lateCoast => exact .brake
    | near => exact .brake
    | unknown => exact absurd rfl hf
    | halt => exact .halt
  · generalize arrival env p source target = reached at hd ⊢
    cases hd with
    | lowPressure =>
      cases h
      exact .lowPressure
    | tooEarly =>
      cases h with
      | late => exact .release
      | lateCoast => exact .tooEarly
      | near => exact .tooEarly
    | _ => exact absurd rfl hf

theorem Calm.advances (hp : Calm p) (hm : Move env p p' target t) :
    Advances p.handle.currState p'.handle.currState := by
  rw [hm.currState]
  by_cases hf : target = .fault
  · subst hf
    exact advances_fault hm.ne.symm
  · obtain ⟨_, hd⟩ := hp.demand hm.request hm.ne hf
    exact (demands_of_demand hd).advances hf

theorem Calm.call (hp : Calm p) (hc : Call env p p') :
    p'.handle.currState = p.handle.currState ∨
      Advances p.handle.currState p'.handle.currState := by
  rcases hc.outcome with hstay | ⟨target, t, hmove⟩
  · exact .inl hstay.currState
  · exact .inr (hp.advances hmove)

/-! ## Runs -/

def entries (s : StateName) (log : Log) : Nat := log.countP fun e => (entry s e).isSome

/-- The invariant of an autonomous run: all changes of state so far are edges of the graph, and the
pod was pushed at most once, not at all while it is `READY`. -/
structure OnCourse (p : Pod) : Prop where
  calm : Calm p
  edges : ∀ t a b, (t, Event.transition a b) ∈ p.log → Advances a b
  once : entries .pushing p.log ≤ if p.handle.currState = .ready then 0 else 1

theorem Stay.entries {s : StateName} (h : Stay env p p') : entries s p'.log = entries s p.log := by
  have hnone : PodFirmware.entries s (inLog env p) = 0 := by
    rw [PodFirmware.entries, List.countP_eq_zero]
    intro e he
    rw [entry_inLog e he]
    simp
  rw [h.log, PodFirmware.entries, List.countP_append, ← PodFirmware.entries, hnone, Nat.zero_add,
    PodFirmware.entries]

theorem Move.entries {s : StateName} (h : Move env p p' target t) : entries s p'.log =
    (if p'.handle.currState = s ∧ p.handle.currState ≠ s then 1 else 0) + entries s p.log := by
  have hnone : PodFirmware.entries s (passLog env p target t) = 0 := by
    rw [PodFirmware.entries, List.countP_eq_zero]
    intro e he
    rw [entry_passLog e he]
    simp
  rw [h.log, PodFirmware.entries, List.countP_cons, List.countP_append, ← PodFirmware.entries,
    hnone, Nat.zero_add, ← PodFirmware.entries, Nat.add_comm]
  simp only [entry]
  split <;> rfl

theorem Move.edges (h : Move env p p' target t)
    (hadv : Advances p.handle.currState p'.handle.currState)
    (hp : ∀ t a b, (t, Event.transition a b) ∈ p.log → Advances a b) :
    ∀ t a b, (t, Event.transition a b) ∈ p'.log → Advances a b := by
  intro t a b hmem
  rw [h.log, List.mem_cons, List.mem_append] at hmem
  rcases hmem with heq | hmem | hmem
  · cases heq
    exact hadv
  · cases passLog_quiet _ hmem
  · exact hp t a b hmem

theorem OnCourse.call (hp : OnCourse p) (hc : Call env p p') : OnCourse p' := by
  rcases hc.outcome with hstay | ⟨target, t, hmove⟩
  · refine ⟨hc.calm, ?_, ?_⟩
    · intro t a b hmem
      rw [hstay.log, List.mem_append] at hmem
      rcases hmem with hmem | hmem
      · cases inLog_quiet _ hmem
      · exact hp.edges t a b hmem
    · rw [hstay.entries, hstay.currState]
      exact hp.once
  · have hadv := hp.calm.advances hmove
    refine ⟨hc.calm, hmove.edges hadv hp.edges, ?_⟩
    have honce := hp.once
    rw [hmove.entries]
    have hto : p'.handle.currState ≠ .ready := by
      intro e
      rw [e] at hadv
      exact hadv.not_ready
    rw [if_neg hto]
    by_cases hnew : p'.handle.currState = .pushing ∧ p.handle.currState ≠ .pushing
    · rw [hnew.1] at hadv
      rw [if_pos hadv.to_pushing] at honce
      rw [if_pos hnew]
      omega
    · rw [if_neg hnew]
      split at honce <;> omega

theorem OnCourse.quiet (hp : OnCourse p) (hq : Quiet p p') (hc : Calm p') : OnCourse p' :=
  ⟨hc, by rw [hq.log]; exact hp.edges, by rw [hq.log, hq.currState]; exact hp.once⟩

theorem step_onCourse {i : Input} (hp : OnCourse p) (hi : i.Autonomous) : OnCourse (step p i) := by
  rcases step_cases p i with ⟨env, _, hb, hc⟩ | ⟨_, hq, _⟩
  · exact (hp.quiet hb.toQuiet (hb.calm hp.calm)).call hc
  · exact hp.quiet hq (step_calm hp.calm hi)

theorem ReadyStart.onCourse (h : ReadyStart p) : OnCourse p := by
  refine ⟨h.calm, ?_, ?_⟩
  · rw [h.log]
    intro t a b hmem
    cases hmem
  · rw [h.log]
    exact Nat.zero_le _

theorem step_rank_le (i : Input) (hp : OnCourse p) :
    rank p.handle.currState ≤ rank (step p i).handle.currState := by
  rcases step_cases p i with ⟨env, _, hb, hc⟩ | ⟨_, hq, _⟩
  · have h := (hb.calm hp.calm).call hc
    rw [hb.currState] at h
    rcases h with e | h
    · exact Nat.le_of_eq (by rw [e])
    · exact h.rank_le
  · exact Nat.le_of_eq (by rw [hq.currState])

theorem run_onCourse {is : List Input} (hp : OnCourse p) (hi : ∀ i ∈ is, i.Autonomous) :
    OnCourse (Machine.run step p is) :=
  Machine.run_inv (fun _ _ => step_onCourse) hp (always_autonomous hi)

theorem run_rank_le {is : List Input} (hp : OnCourse p) (hi : ∀ i ∈ is, i.Autonomous) :
    rank p.handle.currState ≤ rank (Machine.run step p is).handle.currState :=
  Machine.run_le (fun p : Pod => rank p.handle.currState) (fun _ _ => step_onCourse)
    (fun _ i h _ => step_rank_le i h) hp (always_autonomous hi)

/-- Along an autonomous run from `READY` the phase never goes back: the pod is pushed at most once,
and it never leaves `BRAKING` for `COAST`. -/
theorem phase_monotone (is js : List Input) (hp : ReadyStart p)
    (hi : ∀ i ∈ is ++ js, i.Autonomous) :
    rank (Machine.run step p is).handle.currState ≤
        rank (Machine.run step p (is ++ js)).handle.currState ∧
      entries .pushing (Machine.run step p is).log ≤ 1 ∧
      ∀ t, (t, Event.transition .braking .coast) ∉ (Machine.run step p is).log := by
  have hcourse : OnCourse (Machine.run step p is) :=
    run_onCourse hp.onCourse fun i h => hi i (List.mem_append_left js h)
  refine ⟨?_, ?_, ?_⟩
  · rw [Machine.run_append]
    exact run_rank_le hcourse fun i h => hi i (List.mem_append_right is h)
  · have := hcourse.once
    split at this <;> omega
  · intro t hmem
    cases hcourse.edges t _ _ hmem

theorem phase_monotone_toEnd :
    rank (Machine.run step standby pushToBrake).handle.currState ≤
        rank (Machine.run step standby (pushToBrake ++ endOfRun)).handle.currState ∧
      entries .pushing (Machine.run step standby pushToBrake).log ≤ 1 ∧
      ∀ t, (t, Event.transition .braking .coast) ∉ (Machine.run step standby pushToBrake).log :=
  phase_monotone pushToBrake endOfRun readyStart_standby autonomous_toEnd

/-! ## Back to `IDLE` -/

/-- After a push, a call that changes the state to `IDLE` does so at a standstill. -/
def StandstillLaw (env : Env) (p : Pod) : Prop :=
  (lastEntry .pushing p.log).isSome = true → p.handle.currState ≠ .idle →
    (p.stateMachineHandler env).handle.currState = .idle → p.telem.velocity < 10

instance (env : Env) (p : Pod) : Decidable (StandstillLaw env p) := by
  unfold StandstillLaw; infer_instance

/-- After a push, `in_fault` runs in a moving pod, and the run is over, or the link came back up in
answer to a request to try again. -/
def LeavesFaultMoving (env : Env) (p : Pod) : Prop :=
  (lastEntry .pushing p.log).isSome = true ∧ p.handle.currState = .fault ∧
    (Pod.checkInterval env .fault p).1 = true ∧
    (hasFlag p.handle.flags runOver = true ∨
      hasFlag p.handle.flags retryInit = true ∧ p.linkUp = true) ∧
    ¬ p.telem.velocity < 10

instance (env : Env) (p : Pod) : Decidable (LeavesFaultMoving env p) := by
  unfold LeavesFaultMoving; infer_instance

theorem lastEntry_eq_none {s : StateName} {log : Log} (h : entries s log = 0) :
    lastEntry s log = none := by
  rw [entries, List.countP_eq_zero] at h
  refine Trace.latest_eq_none.mpr fun e he => ?_
  simpa using h e he

theorem OnCourse.not_ready (hp : OnCourse p) (h : (lastEntry .pushing p.log).isSome = true) :
    p.handle.currState ≠ .ready := by
  intro hs
  have honce := hp.once
  rw [if_pos hs, Nat.le_zero] at honce
  rw [lastEntry_eq_none honce] at h
  cases h

theorem idle_of_leavesFault (hs : p.handle.currState = .fault) (hfires : fires env p = true)
    (h : hasFlag p.handle.flags runOver = true ∨
      hasFlag p.handle.flags retryInit = true ∧ p.linkUp = true) :
    (p.stateMachineHandler env).handle.currState = .idle := by
  have hreq : request env p = some .idle := by
    rw [request, hfires, hs]
    simp only [demand, if_true]
    rw [if_pos (by rcases h with h | ⟨h, h'⟩ <;> simp [*])]
    rfl
  rcases (Pod.stateMachineHandler_call env p).outcome with hstay | ⟨target, t, hmove⟩
  · have := hstay.request _ hreq
    rw [hs] at this
    cases this
  · obtain rfl : target = .idle := Option.some.inj (hmove.request.symm.trans hreq)
    rw [hmove.currState]
    rfl

theorem standstillLaw_iff (hp : OnCourse p) :
    StandstillLaw env p ↔ ¬ LeavesFaultMoving env p := by
  constructor
  · rintro hlaw ⟨hpushed, hs, hfires, hleave, hmoving⟩
    rw [← hs, Pod.checkInterval_fst] at hfires
    exact hmoving (hlaw hpushed (by rw [hs]; simp) (idle_of_leavesFault hs hfires hleave))
  · intro hno hpushed hne hto
    rcases (Pod.stateMachineHandler_call env p).outcome with hstay | ⟨target, t, hmove⟩
    · exact absurd (hstay.currState.symm.trans hto) hne
    · have harr := arrival_cases env p p.handle.currState target
      rw [← hmove.currState, hto] at harr
      rcases harr with rfl | hd
      · obtain ⟨hfires, hd⟩ := hp.calm.demand hmove.request hmove.ne (by simp)
        have hd := demands_of_demand hd
        generalize hcurr : p.handle.currState = curr at hd
        cases hd with
        | halt _ hvelocity => exact hvelocity
        | recover hleave =>
          by_contra hmoving
          refine hno ⟨hpushed, hcurr, ?_, ?_, hmoving⟩
          · rw [← hcurr, Pod.checkInterval_fst]
            exact hfires
          · rw [Bool.and_eq_true] at hleave
            exact hleave.symm
      · generalize hcurr : p.handle.currState = curr at hd
        cases hd
        exact absurd hcurr (hp.not_ready hpushed)

/-- An autonomous run from `READY` returns to `IDLE` only at a standstill if and only if `in_fault`
never lets a moving pod go. -/
theorem standstillLaw_run_iff (is : List Input) (hp : ReadyStart p)
    (hi : ∀ i ∈ is, i.Autonomous) :
    EveryCall StandstillLaw p is ↔ EveryCall (fun env p => ¬ LeavesFaultMoving env p) p is :=
  Machine.always_congr (fun _ _ => step_onCourse)
    (fun _ _ hp _ => onCall_congr fun env _ => standstillLaw_iff
      (hp.quiet (Pod.beforeHandler_before env _).toQuiet
        ((Pod.beforeHandler_before env _).calm hp.calm)))
    hp.onCourse (always_autonomous hi)

theorem standstillLaw_toEnd : EveryCall StandstillLaw standby (pushToBrake ++ endOfRun) :=
  (standstillLaw_run_iff _ readyStart_standby autonomous_toEnd).mpr (by decide +kernel)

def movingPastEndAt (t : Nat) : Env :=
  { bench t with retro := fun _ => { count := 42, filter := Vector.replicate 3 60 } }

/-- Pushed at 250 ms; the switches open at 500 ms; at 1750 ms the push ends in `FAULT`, as there is
no pressure; at 2000 ms the run is over. -/
def faultAtSpeed : List Input :=
  [.telemetry { acceleration := 200 }, .app (pushAt 250), .app (bench 500), .app (bench 1750),
    .app (movingPastEndAt 2000)]

theorem standstillLaw_fails : ReadyStart standby ∧ (∀ i ∈ faultAtSpeed, i.Autonomous) ∧
    ¬ EveryCall StandstillLaw standby faultAtSpeed := by
  refine ⟨readyStart_standby, ?_, by decide +kernel⟩
  intro i hi
  simp only [faultAtSpeed, List.mem_cons, List.not_mem_nil, or_false] at hi
  rcases hi with rfl | rfl | rfl | rfl | rfl <;> trivial

end PodFirmware
