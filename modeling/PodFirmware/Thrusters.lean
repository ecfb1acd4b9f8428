import PodFirmware.History

/-!
# PodFirmware.Thrusters

The thrusters are on only in `COAST`, and no run turns them on too early after entering that state
unless it got there past `to_coast`, the only place that sets `coast_ts`.
-/

namespace PodFirmware

variable {env : Env} {p p' : Pod} {t : Nat} {source target : StateName} {e : Nat × Event}

/-! ## On in `COAST` only -/

def ThrustInCoast (p : Pod) : Prop :=
  Trace.latest thrusterCommand p.log = some true → p.handle.currState = .coast

theorem eq_of_thrusterCommand {on : Bool} (h : thrusterCommand e = some on) :
    e.2 = .thrusters on := by
  obtain ⟨t, ev⟩ := e
  cases ev with
  | thrusters on' =>
    rw [show on' = on from Option.some.inj h]
  | _ => cases h

theorem thrusterCommand_toEvents :
    Trace.latest thrusterCommand (toEvents env p t source target) = none := by
  rw [Trace.latest_eq_none]
  intro e he
  cases target <;> simp only [toEvents, List.mem_ite_nil_right, List.mem_ite_nil_left,
    List.mem_cons, List.not_mem_nil, or_false] at he
  case fault => obtain ⟨_, rfl | rfl⟩ := he <;> rfl
  case coast => obtain ⟨_, rfl⟩ := he; rfl
  case braking => obtain ⟨_, rfl⟩ := he; rfl

/-- Whatever happened in `in_coast`, `from_coast` turns the thrusters off. -/
theorem Move.thrusters_off (h : Move env p p' target t) (hs : p.handle.currState = .coast) :
    Trace.latest thrusterCommand p'.log = some false := by
  rw [h.log, Trace.latest_cons, Trace.latest_append, passLog, Trace.latest_append,
    thrusterCommand_toEvents, hs]
  rfl

theorem Call.thrusters_on (h : Call env p p') (hp : ThrustInCoast p)
    (hon : Trace.latest thrusterCommand p'.log = some true) : p.handle.currState = .coast := by
  obtain ⟨evs, hlog, hevs⟩ := h.gives
  rw [hlog, Trace.latest_append] at hon
  cases hnew : Trace.latest thrusterCommand evs with
  | none =>
    rw [hnew] at hon
    exact hp hon
  | some on =>
    rw [hnew] at hon
    cases hon
    obtain ⟨e, he, hcmd⟩ := Trace.exists_of_latest hnew
    have hev := eq_of_thrusterCommand hcmd
    exact ((hevs e he (by rw [hev]; rfl)).thrusters hev).1

theorem ThrustInCoast.call (hp : ThrustInCoast p) (hc : Call env p p') : ThrustInCoast p' := by
  intro hon
  have hcoast := hc.thrusters_on hp hon
  rcases hc.outcome with hstay | ⟨target, t, hmove⟩
  · rw [hstay.currState]
    exact hcoast
  · rw [hmove.thrusters_off hcoast] at hon
    cases hon

theorem ThrustInCoast.quiet (hp : ThrustInCoast p) (hq : Quiet p p') : ThrustInCoast p' := by
  unfold ThrustInCoast
  rw [hq.log, hq.currState]
  exact hp

theorem step_thrustInCoast (i : Input) (hp : ThrustInCoast p) : ThrustInCoast (step p i) := by
  rcases step_cases p i with ⟨env, _, hb, hc⟩ | ⟨_, hq, _⟩
  · exact (hp.quiet hb.toQuiet).call hc
  · exact hp.quiet hq

/-- In every run from the boot, if the thrusters were last turned on, the pod is coasting. -/
theorem thrusters_coast (is : List Input) (hp : Booted p) :
    Trace.latest thrusterCommand (Machine.run step p is).log = some true →
      (Machine.run step p is).handle.currState = .coast := by
  have h0 : ThrustInCoast p := by
    unfold ThrustInCoast
    rw [hp.log]
    intro h
    cases h
  exact Machine.run_inv_of_step (fun _ i => step_thrustInCoast i) h0

def thrustAfterFault : List Input := linkLoss ++ [.app (bench 4250)]

theorem thrusters_coast_at_4250 :
    (Machine.run step boot thrustAfterFault).handle.currState = .coast :=
  thrusters_coast thrustAfterFault booted_boot (by decide +kernel)

/-! ## The delay -/

def ThrustLaw (delay : Nat) (older : Log) (e : Nat × Event) : Prop :=
  e.2 = .thrusters true → ∃ entered, lastEntry .coast older = some entered ∧ entered + delay < e.1

/-- The call enters `COAST` from elsewhere without calling `to_coast`: `to_fault` diverts a fault
raised in `PUSHING`, or `to_braking` finds that it is too early to brake. -/
def SlipsIntoCoast (env : Env) (p : Pod) : Prop :=
  (request env p = some .fault ∧ p.handle.currState = .pushing) ∨
    (request env p = some .braking ∧ p.handle.currState ≠ .braking ∧
      p.handle.currState ≠ .coast ∧ pushedFor env p .toBraking < p.cfg.dontBrakeTo)

instance (env : Env) (p : Pod) : Decidable (SlipsIntoCoast env p) := by
  unfold SlipsIntoCoast; infer_instance

/-- The invariant: in `COAST`, `coast_ts` is the time of the last entry. -/
structure Delay (p : Pod) : Prop where
  mark : p.handle.currState = .coast →
    ∃ entered, lastEntry .coast p.log = some entered ∧ p.marks.coastTs = Tick.reading entered
  past : ∀ entered, lastEntry .coast p.log = some entered → entered ≤ p.now
  lawful : Trace.Lawful (ThrustLaw p.cfg.thrustTo.toNat) p.log

theorem slips_of_arrival (h : Move env p p' target t) (hc : p'.handle.currState = .coast)
    (hs : p.handle.currState ≠ .coast) : target = .coast ∨ SlipsIntoCoast env p := by
  have harr := arrival_cases env p p.handle.currState target
  rw [← h.currState, hc] at harr
  rcases harr with e | hd
  · exact .inl e.symm
  · generalize hcurr : p.handle.currState = curr at hd
    cases hd with
    | faultPushing => exact .inr (.inl ⟨h.request, hcurr⟩)
    | tooEarly ht => exact .inr (.inr ⟨h.request, h.ne.symm, hs, ht⟩)

theorem Delay.call (hp : Delay p) (hc : Call env p p') (hslip : ¬ SlipsIntoCoast env p)
    (hnow : ∀ entered, lastEntry .coast p.log = some entered → ∀ r, entered ≤ env.clock.read r) :
    Delay p' := by
  have hpast : ∀ entered, lastEntry .coast p.log = some entered → entered ≤ p'.now := by
    obtain ⟨r, hr⟩ := hc.now
    intro entered he
    rw [hr]
    exact hnow entered he r
  have hlawful : Trace.Lawful (ThrustLaw p'.cfg.thrustTo.toNat) p'.log := by
    rw [hc.cfg]
    refine hc.lawful (s := .coast) (P := fun o e => e.2 = .thrusters true →
      ∃ entered, o = some entered ∧ entered + p.cfg.thrustTo.toNat < e.1) (fun _ _ => Iff.rfl)
      ?_ ?_ hp.lawful
    · intro o e hno hon
      rw [hon] at hno
      cases hno
    · intro e _ hg hon
      obtain ⟨hs, ht, hlong⟩ := hg.thrusters hon
      obtain ⟨entered, he, hm⟩ := hp.mark hs
      rw [hm] at hlong
      rw [ht]
      exact ⟨entered, he, Tick.lt_of_lt_elapsed (hnow entered he _) hlong⟩
  rcases hc.outcome with hstay | ⟨target, t, hmove⟩
  · refine ⟨?_, ?_, hlawful⟩
    · intro hs
      rw [hstay.lastEntry, hstay.coastTs]
      exact hp.mark (hstay.currState.symm.trans hs)
    · rw [hstay.lastEntry]
      exact hpast
  · have hentry := hmove.lastEntry (s := .coast)
    by_cases hnew : p'.handle.currState = .coast ∧ p.handle.currState ≠ .coast
    · have ht := (slips_of_arrival hmove hnew.1 hnew.2).resolve_right hslip
      rw [if_pos hnew] at hentry
      refine ⟨fun _ => ⟨p'.now, hentry, ?_⟩, ?_, hlawful⟩
      · rw [hmove.coastTs, if_pos ht, hmove.coastNow ht]
        rfl
      · rw [hentry]
        rintro _ ⟨⟩
        exact Nat.le_refl _
    · rw [if_neg hnew] at hentry
      refine ⟨?_, by rw [hentry]; exact hpast, hlawful⟩
      intro hs
      -- a call that was coasting already cannot have run `to_coast`
      have hcoast : p.handle.currState = .coast := by
        by_contra h
        exact hnew ⟨hs, h⟩
      rw [hentry, hmove.coastTs, if_neg fun e => hmove.ne (by rw [e, hcoast])]
      exact hp.mark hcoast

theorem Delay.quiet (hp : Delay p) (hq : Quiet p p') (hnow : ∀ n, n ≤ p.now → n ≤ p'.now) :
    Delay p' := by
  refine ⟨?_, ?_, ?_⟩
  · rw [hq.log, hq.marks, hq.currState]
    exact hp.mark
  · rw [hq.log]
    exact fun n hn => hnow n (hp.past n hn)
  · rw [hq.log, hq.cfg]
    exact hp.lawful

theorem step_delay {i : Input} (hp : Delay p)
    (hi : OnTime p i ∧ OnCall (fun env p => ¬ SlipsIntoCoast env p) p i) : Delay (step p i) := by
  rcases step_cases p i with ⟨env, rfl, hb, hc⟩ | ⟨_, hq, hnow⟩
  · have hr := hi.1 env rfl
    have hq : Delay (p.beforeHandler env) := hp.quiet hb.toQuiet fun n hn => hb.le_now hn hr
    refine hq.call hc hi.2 fun n hn r => ?_
    rw [hb.log] at hn
    exact Nat.le_trans (hp.past n hn) (hr r)
  · exact hp.quiet hq fun n hn => by rw [hnow]; exact hn

theorem Booted.delay (h : Booted p) : Delay p := by
  obtain ⟨⟨q, hq⟩, _, hlog⟩ := h
  refine ⟨?_, ?_, ?_⟩
  · intro hs
    rw [hq] at hs
    cases hs
  · rw [hlog]
    rintro _ ⟨⟩
  · rw [hlog]
    trivial

/-- In a run from the boot of which no call slips into `COAST`, the thrusters are turned on only
when more than `THRUST_TO` milliseconds have passed since the machine last entered `COAST`. -/
theorem thrust_delayed (is : List Input) (hp : Booted p) (hc : Chronological p is)
    (hdirect : EveryCall (fun env p => ¬ SlipsIntoCoast env p) p is) :
    ∀ newer t older, (Machine.run step p is).log = newer ++ (t, .thrusters true) :: older →
      ∃ entered, lastEntry .coast older = some entered ∧ entered + p.cfg.thrustTo.toNat < t := by
  have h := Machine.run_inv (fun _ _ => step_delay) hp.delay (Machine.always_and.mpr ⟨hc, hdirect⟩)
  have hl := h.lawful
  rw [run_cfg] at hl
  intro newer t older he
  exact Trace.lawful_iff.mp hl newer (t, .thrusters true) older he rfl

def pushThenCoast : List Input :=
  [.telemetry { brP1 := 120, brP2 := 120 }, .state 'p', .app (bench 1), .state 'c', .app (bench 2),
    .app (bench 3250)]

theorem thrust_delayed_to_3250 :
    ∃ entered, lastEntry .coast ((Machine.run step boot pushThenCoast).log.drop 1) = some entered ∧
      entered + 3000 < 3250 :=
  thrust_delayed pushThenCoast booted_boot
    ⟨onTime_telemetry _ _, onTime_state _ _, onTime_bench (by decide), onTime_state _ _,
      onTime_bench (by decide), onTime_bench (by decide), trivial⟩
    (by decide +kernel) [] 3250 _ (by decide +kernel)

theorem thrust_early :
    Booted boot ∧ Chronological boot thrustAfterFault ∧
      ¬ ∀ newer t older,
        (Machine.run step boot thrustAfterFault).log = newer ++ (t, .thrusters true) :: older →
          ∃ entered, lastEntry .coast older = some entered ∧
            entered + boot.cfg.thrustTo.toNat < t := by
  refine ⟨booted_boot, ?_, ?_⟩
  · exact ⟨onTime_state _ _, onTime_bench (by decide), onTime_link _ _, onTime_bench (by decide),
      onTime_bench (by decide), trivial⟩
  · intro h
    obtain ⟨entered, he, hlt⟩ := h [] 4250 ((Machine.run step boot thrustAfterFault).log.drop 1)
      (by decide +kernel)
    have hentry : lastEntry .coast ((Machine.run step boot thrustAfterFault).log.drop 1) =
      some 4200 := by decide +kernel
    rw [hentry] at he
    cases he
    exact absurd hlt (by decide)

end PodFirmware
