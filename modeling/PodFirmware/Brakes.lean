import PodFirmware.History

/-!
# PodFirmware.Brakes

When the brakes are applied, and when they are released.
-/

namespace PodFirmware

variable {env : Env} {p p' : Pod} {t : Nat} {source target : StateName} {e : Nat × Event}

/-! ## The lockout after a push -/

/-- When the machine last entered `PUSHING`; `0`, the time of the boot, if it never did. -/
def pushEntry (log : Log) : Nat := (lastEntry .pushing log).getD 0

def LockoutLaw (lockout : Nat) (older : Log) (e : Nat × Event) : Prop :=
  e.2.Brakes → pushEntry older + lockout ≤ e.1

/-- The invariant: `pushing_start_ts` is the time of the last entry into `PUSHING`. -/
structure Lockout (p : Pod) : Prop where
  mark : p.marks.pushingStartTs = Tick.reading (pushEntry p.log)
  past : pushEntry p.log ≤ p.now
  lawful : Trace.Lawful (LockoutLaw p.cfg.dontBrakeTo.toNat) p.log

theorem arrival_pushing (h : arrival env p source target = .pushing) : target = .pushing := by
  rcases arrival_cases env p source target with e | e
  · exact e.symm.trans h
  · rw [h] at e
    cases e

theorem Stay.pushEntry (h : Stay env p p') : pushEntry p'.log = pushEntry p.log := by
  rw [PodFirmware.pushEntry, h.lastEntry, PodFirmware.pushEntry]

theorem Move.pushEntry (h : Move env p p' target t) :
    (target = .pushing ∧ pushEntry p'.log = p'.now ∧ p'.now = env.clock.read .toPushing) ∨
      (target ≠ .pushing ∧ pushEntry p'.log = pushEntry p.log) := by
  rw [PodFirmware.pushEntry, h.lastEntry]
  by_cases ht : target = .pushing
  · have hto : p'.handle.currState = .pushing := by rw [h.currState, ht]; rfl
    have hfrom : p.handle.currState ≠ .pushing := fun e => h.ne (by rw [ht, e])
    rw [if_pos ⟨hto, hfrom⟩]
    exact .inl ⟨ht, rfl, h.pushingNow ht⟩
  · have hto : p'.handle.currState ≠ .pushing := fun e =>
      ht (arrival_pushing (h.currState.symm.trans e))
    rw [if_neg fun hh => hto hh.1]
    exact .inr ⟨ht, rfl⟩

/-- A call keeps `pushing_start_ts` at the time of the last entry. -/
theorem Call.pushingStartTs (hc : Call env p p')
    (hm : p.marks.pushingStartTs = Tick.reading (pushEntry p.log)) :
    p'.marks.pushingStartTs = Tick.reading (pushEntry p'.log) := by
  rcases hc.outcome with hstay | ⟨target, t, hmove⟩
  · rw [hstay.pushingStartTs, hstay.pushEntry, hm]
  · rcases hmove.pushEntry with ⟨ht, he, hn⟩ | ⟨ht, he⟩
    · rw [hmove.pushingStartTs, if_pos ht, he, hn]
      rfl
    · rw [hmove.pushingStartTs, if_neg ht, he, hm]

theorem Lockout.allows (hp : Lockout p) (hnow : ∀ r, pushEntry p.log ≤ env.clock.read r)
    (hg : Gives env p p' e) (hb : e.2.Brakes) :
    pushEntry p.log + p.cfg.dontBrakeTo.toNat ≤ e.1 := by
  obtain ⟨r, hr, hguard⟩ := hg.brakes hb
  rw [pushedFor, hp.mark] at hguard
  rw [hr]
  exact Tick.le_of_not_elapsed_lt (hnow r) hguard

theorem Lockout.call (hp : Lockout p) (hc : Call env p p')
    (hnow : ∀ r, pushEntry p.log ≤ env.clock.read r) : Lockout p' := by
  have hlawful : Trace.Lawful (LockoutLaw p'.cfg.dontBrakeTo.toNat) p'.log := by
    rw [hc.cfg]
    refine hc.lawful (s := .pushing)
      (P := fun o e => e.2.Brakes → o.getD 0 + p.cfg.dontBrakeTo.toNat ≤ e.1)
      (fun _ _ => Iff.rfl) ?_ (fun e _ hg => hp.allows hnow hg) hp.lawful
    intro o e hno hb
    rcases hb with h | h <;> rw [h] at hno <;> cases hno
  have hpast : pushEntry p.log ≤ p'.now := by
    obtain ⟨r, hr⟩ := hc.now
    rw [hr]
    exact hnow r
  refine ⟨hc.pushingStartTs hp.mark, ?_, hlawful⟩
  rcases hc.outcome with hstay | ⟨target, t, hmove⟩
  · rw [hstay.pushEntry]
    exact hpast
  · rcases hmove.pushEntry with ⟨ht, he, hn⟩ | ⟨ht, he⟩
    · exact Nat.le_of_eq he
    · rw [he]
      exact hpast

theorem Lockout.quiet (hp : Lockout p) (hq : Quiet p p') (hnow : pushEntry p.log ≤ p'.now) :
    Lockout p' :=
  ⟨by rw [hq.marks, hq.log]; exact hp.mark, by rw [hq.log]; exact hnow,
    by rw [hq.log, hq.cfg]; exact hp.lawful⟩

theorem step_lockout {i : Input} (hp : Lockout p) (hi : OnTime p i) : Lockout (step p i) := by
  rcases step_cases p i with ⟨env, rfl, hb, hc⟩ | ⟨_, hq, hnow⟩
  · have hr := hi env rfl
    refine (hp.quiet hb.toQuiet (hb.le_now hp.past hr)).call hc fun r => ?_
    rw [hb.log]
    exact Nat.le_trans hp.past (hr r)
  · exact hp.quiet hq (by rw [hnow]; exact hp.past)

theorem Booted.lockout (h : Booted p) : Lockout p := by
  refine ⟨?_, ?_, ?_⟩
  · rw [h.marks, h.log]
    rfl
  · rw [h.log]
    exact Nat.zero_le _
  · rw [h.log]
    trivial

/-- In every run from the boot, a brake is applied no earlier than `DONT_BRAKE_TO` milliseconds
after the machine last entered `PUSHING`. -/
theorem brakes_locked_out (is : List Input) (hp : Booted p) (hc : Chronological p is) :
    ∀ newer t ev older, (Machine.run step p is).log = newer ++ (t, ev) :: older → ev.Brakes →
      pushEntry older + p.cfg.dontBrakeTo.toNat ≤ t := by
  have h := Machine.run_inv (fun _ _ => step_lockout) hp.lockout hc
  have hl := h.lawful
  rw [run_cfg] at hl
  intro newer t ev older he hb
  exact Trace.lawful_iff.mp hl newer (t, ev) older he hb

def pushThenBrake : List Input := [.state 'p', .app (bench 1), .state 'b', .app (bench 9001)]

theorem brakes_locked_out_at_9001 :
    pushEntry ((Machine.run step boot pushThenBrake).log.drop 2) + 8000 ≤ 9001 :=
  brakes_locked_out pushThenBrake booted_boot
    ⟨onTime_state _ _, onTime_bench (by decide), onTime_state _ _, onTime_bench (by decide),
      trivial⟩
    ((Machine.run step boot pushThenBrake).log.take 1) 9001 (.primaryBrakes 100) _ (by decide)
    (.inl rfl)

/-! ## The deadline -/

/-- If the periodic handler finds that the run has lasted too long, the call ends with the brakes
on, whatever else was asked for. -/
theorem must_brake (env : Env) (p : Pod) (tick : UInt32) (hconst : ∀ r, env.ticks r = tick)
    (hs : p.handle.currState = .pushing ∨ p.handle.currState = .coast)
    (hfires : (Pod.checkInterval env p.handle.currState p).1 = true)
    (hlate : p.cfg.mustBrakeTo < tick - p.marks.pushingStartTs)
    (hcfg : p.cfg.dontBrakeTo ≤ p.cfg.mustBrakeTo) :
    let p' := p.stateMachineHandler env
    p'.handle.currState = .braking ∧
      Trace.latest primaryCommand (Trace.since p'.log p.log) = some 100 ∧
      (p.handle.currState = .coast →
        Trace.latest thrusterCommand (Trace.since p'.log p.log) = some false) := by
  intro p'
  have hc : Call env p p' := Pod.stateMachineHandler_call env p
  have hpushed (r : TickRead) : p.cfg.mustBrakeTo < pushedFor env p r := by
    rw [pushedFor, hconst]
    exact hlate
  have hguard : ¬ pushedFor env p .toBraking < p.cfg.dontBrakeTo :=
    UInt32.not_lt.mpr (UInt32.le_trans hcfg (UInt32.le_of_lt (hpushed _)))
  rw [Pod.checkInterval_fst] at hfires
  have hreq : request env p = some .braking := by
    rw [request, hfires]
    rcases hs with hs | hs <;> rw [hs] <;> simp [demand, hpushed]
  have hne : StateName.braking ≠ p.handle.currState := by
    rcases hs with hs | hs <;> rw [hs] <;> simp
  rcases hc.outcome with hstay | ⟨target, t, hmove⟩
  · exact absurd (hstay.request _ hreq) hne
  · have ht : StateName.braking = target := by
      rw [hmove.request] at hreq
      exact (Option.some.inj hreq).symm
    subst ht
    have harrive : p'.handle.currState = .braking := by
      rw [hmove.currState, arrival, redirect, if_neg hguard]
      rfl
    have hevs : Trace.since p'.log p.log =
        (p'.now, .transition p.handle.currState p'.handle.currState) ::
          passLog env p .braking t := by
      rw [hmove.log, ← List.cons_append, Trace.since_append]
    refine ⟨harrive, ?_, ?_⟩
    · rw [hevs, passLog]
      simp only [toEvents, if_neg hguard]
      rfl
    · intro hcoast
      rw [hevs, passLog]
      simp only [toEvents, if_neg hguard, hcoast, fromEvents]
      rfl

def coasting : Pod := Machine.run step boot
  [.telemetry { brP1 := 120, brP2 := 120 }, .state 'p', .app (bench 1), .state 'c', .app (bench 2),
    .state 'f']

theorem must_brake_at_30250 :
    let p' := coasting.stateMachineHandler (bench 30250)
    p'.handle.currState = .braking ∧
      Trace.latest primaryCommand (Trace.since p'.log coasting.log) = some 100 ∧
      Trace.latest thrusterCommand (Trace.since p'.log coasting.log) = some false := by
  have h := must_brake (bench 30250) coasting 30250 (fun _ => rfl) (.inr (by decide)) (by decide)
    (by decide) (by decide)
  exact ⟨h.1, h.2.1, h.2.2 (by decide)⟩

/-! ## The hold -/

/-- The call leaves `BRAKING` for `IDLE` because `in_braking` asked for it: the run is over and the
pod is at a standstill. -/
structure StandstillRelease (env : Env) (p : Pod) : Prop where
  source : p.handle.currState = .braking
  target : (p.stateMachineHandler env).handle.currState = .idle
  fires : (Pod.checkInterval env .braking p).1 = true
  flag : hasFlag p.handle.flags runOver = true
  velocity : p.telem.velocity < 10

/-- A calm machine whose brakes have been initialised releases them in no other way. -/
theorem release_of_calm (hp : Calm p) (hflag : hasFlag p.handle.flags powerOn = false)
    (hg : Gives env p (p.stateMachineHandler env) e) (hr : e.2.Releases) :
    StandstillRelease env p := by
  rcases hg.releases hr with ⟨_, hf⟩ | ⟨hs, target, t, hmove, hne⟩
  · rw [hflag] at hf
    cases hf
  · obtain ⟨hfires, hd⟩ := hp.demand hmove.request hmove.ne hne
    have hd := demands_of_demand hd
    rw [hs] at hd
    cases hd with
    | halt hflag hvelocity =>
      refine ⟨hs, ?_, ?_, hflag, hvelocity⟩
      · rw [hmove.currState]
        rfl
      · rw [← hs, Pod.checkInterval_fst]
        exact hfires

/-- In an autonomous run from `READY` the brakes, once initialised, are only ever released on the
way from `BRAKING` to `IDLE`, at the end of a run and at a standstill. -/
theorem brakes_held (is : List Input) (hp : ReadyStart p)
    (hflag : hasFlag p.handle.flags powerOn = false) (hauto : ∀ i ∈ is, i.Autonomous)
    (before : List Input) (i : Input) (after : List Input) (his : is = before ++ i :: after) :
    ∀ e ∈ Trace.since (Machine.run step p (before ++ [i])).log (Machine.run step p before).log,
      e.2.Releases →
        ∃ env, i = .app env ∧
          StandstillRelease env ((Machine.run step p before).beforeHandler env) := by
  intro e he hr
  rw [Machine.run_concat] at he
  have hcalm : Calm (Machine.run step p before) :=
    run_calm hp.calm fun j hj => hauto j (by rw [his]; exact List.mem_append_left _ hj)
  have hflag' := run_powerOn before hflag
  rcases step_cases (Machine.run step p before) i with ⟨env, rfl, hb, hc⟩ | ⟨_, hq, _⟩
  · obtain ⟨evs, hlog, hevs⟩ := hc.gives
    rw [hlog, hb.log, Trace.since_append] at he
    have hcmd : e.2.isCommand = true := by rcases hr with h | h <;> rw [h] <;> rfl
    exact ⟨env, rfl, release_of_calm (hb.calm hcalm) (hb.powerOn.trans hflag')
      (hevs e he hcmd) hr⟩
  · rw [hq.log, Trace.since_self] at he
    cases he

theorem brakes_held_until_30600 :
    StandstillRelease (pastEndAt 30600)
      ((Machine.run step standby pushToBrake).beforeHandler (pastEndAt 30600)) := by
  obtain ⟨env, he, h⟩ := brakes_held (pushToBrake ++ endOfRun) readyStart_standby
    (by decide +kernel) autonomous_toEnd pushToBrake (.app (pastEndAt 30600)) [] rfl
    (30600, .primaryBrakes 0) (by decide +kernel) (.inl rfl)
  cases he
  exact h

end PodFirmware
