import PodFirmware.Held
import PodFirmware.Lib.Debounce

/-!
# PodFirmware.Debounce

The end of the push. `in_pushing` asks for `COAST` by two bits of `lim_states` and two stamps;
`badgerloop_forced_data` sets them, whenever it samples the switches.

* `tracker_badgerloopForcedData`: a sample is what a `Debounce.Tracker` makes of it.
* `Sampling`: the pod, and all samples of the pusher switches so far.
* `requestsCoast_eq`: `in_pushing` asks for `COAST` exactly when it runs and `pushEnded` holds.
* `coast_settled`: when `COAST` is asked for, both switches have been open for more than a second.
-/

namespace PodFirmware

open Debounce

/-! ## The pusher switches -/

inductive Pusher where
  | plim1 | plim2
  deriving DecidableEq, Repr

namespace Pusher

def pin : Pusher → InputPin
  | plim1 => .d0
  | plim2 => .d1

def bit : Pusher → UInt8
  | plim1 => Telemetry.plim1
  | plim2 => Telemetry.plim2

/-- The read of `ticks` that stamps a change. -/
def tick : Pusher → TickRead
  | plim1 => .plim1
  | plim2 => .plim2

def stamp (l : LimitTimes) : Pusher → UInt32
  | plim1 => l.plim1Ts
  | plim2 => l.plim2Ts

def sample (env : Env) (x : Pusher) : Sample := ⟨env.clock.read x.tick, env.pins x.pin⟩

end Pusher

/-- What the pod keeps of a switch. -/
def Pod.tracker (p : Pod) (x : Pusher) : Tracker := ⟨p.telem.getLim x.bit, x.stamp p.limits⟩

/-- Limit switches and their times. -/
def Pod.switches (p : Pod) : UInt8 × LimitTimes := (p.telem.limStates, p.limits)

theorem tracker_of_switches {p q : Pod} (h : q.switches = p.switches) (x : Pusher) :
    q.tracker x = p.tracker x := by
  obtain ⟨hbits, htimes⟩ := Prod.mk.inj h
  unfold Pod.tracker Telemetry.getLim
  rw [hbits, htimes]

theorem switches_of_held {p q : Pod} (h : q.held = p.held) : q.switches = p.switches :=
  congrArg (fun x : Held => (x.telem.limStates, x.limits)) h

namespace Pod

variable (env : Env) (p : Pod) (x : Pusher)

theorem beside_switches : Beside switches where
  readTicks _ _ _ := rfl
  imu _ _ _ _ _ _ := rfl
  rollAccel _ := rfl
  accelerated _ _ _ := rfl
  critical _ _ _ := rfl
  moved _ _ _ := rfl
  counted _ _ := rfl
  pressures _ _ := rfl

theorem limits_sampleLimit (pin : InputPin) (bit : UInt8) (r : TickRead) (site : Print)
    (mark : LimitTimes → UInt32 → LimitTimes) : (sampleLimit env pin bit r site mark p).limits =
      if env.pins pin = p.telem.getLim bit then p.limits else mark p.limits (env.ticks r) := by
  unfold sampleLimit
  cases env.pins pin <;> cases p.telem.getLim bit <;> rfl

/-- The switch itself is sampled. -/
theorem tracker_sampleLimit_self {site : Print} {mark : LimitTimes → UInt32 → LimitTimes}
    (hmark : ∀ l t, x.stamp (mark l t) = t) :
    (sampleLimit env x.pin x.bit x.tick site mark p).tracker x =
      (p.tracker x).sample (x.sample env) := by
  have hbit : x.bit ≠ 0 := by cases x <;> decide
  apply Tracker.ext
  · show Telemetry.getLim _ x.bit = env.pins x.pin
    rw [telem_sampleLimit, Telemetry.getLim_putLim_self hbit]
  · show x.stamp (sampleLimit env x.pin x.bit x.tick site mark p).limits =
      if env.pins x.pin = p.telem.getLim x.bit then x.stamp p.limits else env.ticks x.tick
    rw [limits_sampleLimit]
    split
    · rfl
    · exact hmark _ _

/-- Another switch is sampled. -/
theorem tracker_sampleLimit_other {pin : InputPin} {bit : UInt8} {r : TickRead} {site : Print}
    {mark : LimitTimes → UInt32 → LimitTimes} (hbit : bit &&& x.bit = 0)
    (hmark : ∀ l t, x.stamp (mark l t) = x.stamp l) :
    (sampleLimit env pin bit r site mark p).tracker x = p.tracker x := by
  apply Tracker.ext
  · show Telemetry.getLim _ x.bit = p.telem.getLim x.bit
    rw [telem_sampleLimit, Telemetry.getLim_putLim_of_disjoint hbit]
  · show x.stamp (sampleLimit env pin bit r site mark p).limits = x.stamp p.limits
    rw [limits_sampleLimit]
    split
    · rfl
    · exact hmark _ _

theorem tracker_samplePlim : (samplePlim2 env (samplePlim1 env p)).tracker x =
    (p.tracker x).sample (x.sample env) := by
  cases x with
  | plim1 =>
    have hother (q : Pod) : (samplePlim2 env q).tracker .plim1 = q.tracker .plim1 :=
      tracker_sampleLimit_other env q .plim1 (by decide) fun _ _ => rfl
    rw [hother]
    exact tracker_sampleLimit_self env p .plim1 fun _ _ => rfl
  | plim2 =>
    have hother : (samplePlim1 env p).tracker .plim2 = p.tracker .plim2 :=
      tracker_sampleLimit_other env p .plim2 (by decide) fun _ _ => rfl
    rw [← hother]
    exact tracker_sampleLimit_self env (samplePlim1 env p) .plim2 fun _ _ => rfl

theorem tracker_badgerloopForcedData :
    (badgerloopForcedData env p).tracker x = (p.tracker x).sample (x.sample env) := by
  have hblim1 (q : Pod) : (sampleBlim1 env q).tracker x = q.tracker x := by
    cases x <;> exact tracker_sampleLimit_other env q _ (by decide) fun _ _ => rfl
  have hblim2 (q : Pod) : (sampleBlim2 env q).tracker x = q.tracker x := by
    cases x <;> exact tracker_sampleLimit_other env q _ (by decide) fun _ _ => rfl
  have hdlim (q : Pod) : (sampleDlim env q).tracker x = q.tracker x := by
    cases x <;> exact tracker_sampleLimit_other env q _ (by decide) fun _ _ => rfl
  have hstop : (stoppingDistance p).tracker x = p.tracker x := rfl
  have hlim : (sampleDlim env (samplePlim2 env (samplePlim1 env (sampleBlim2 env (sampleBlim1 env
      (stoppingDistance p)))))).tracker x = (p.tracker x).sample (x.sample env) := by
    rw [hdlim, tracker_samplePlim, hblim2, hblim1, hstop]
  have hsensors (q : Pod) : (podSensors env q).tracker x = q.tracker x :=
    tracker_of_switches rfl x
  have hflag (q : Pod) : (q.setFlag runOver).tracker x = q.tracker x := rfl
  unfold badgerloopForcedData
  dsimp only
  split
  · rw [hflag, hsensors]
    exact hlim
  · rw [hsensors]
    exact hlim

theorem tracker_badgerloopUpdateData :
    (badgerloopUpdateData env p).tracker x = (p.tracker x).sample (x.sample env) := by
  obtain ⟨q, hq, hupdate⟩ := beside_switches.badgerloopUpdateData env p
  rw [hupdate, tracker_badgerloopForcedData, tracker_of_switches hq]

end Pod

/-! ## One step of the program -/

/-- The environment in which the step samples the switches, if it does: a call that acquires data,
or `badgerloop r`. -/
def samplingEnv (p : Pod) : ShellInput → Option Env
  | .loop (.base (.app env)) =>
    if Activity.daq.runs env p || p.daq.manualUpdate then some env else none
  | .loop _ => none
  | .command io argv => if rereads argv then some io.env else none

/-- What a step does to the tracker. -/
def sampled (p : Pod) (i : ShellInput) (x : Pusher) : Tracker :=
  match samplingEnv p i with
  | some env => (p.tracker x).sample (x.sample env)
  | none => p.tracker x

section Steps

variable (env : Env) (p : Pod) (x : Pusher)

theorem tracker_daqStep :
    (p.daqStep env).tracker x = sampled p (.loop (.base (.app env))) x := by
  have hd (q : Pod) (hq : q.held = p.held) : q.tracker x = p.tracker x :=
    tracker_of_switches (switches_of_held hq) x
  have hdue := held_due env p .daqMod .daqCmp 10 p.daq.lastDaqTimestamp
  rw [daqStep_eq]
  unfold sampled samplingEnv
  dsimp only
  generalize (p.due env .daqMod .daqCmp 10 p.daq.lastDaqTimestamp).2 = q at hdue ⊢
  by_cases hruns : Activity.daq.runs env p = true
  · rw [if_pos hruns, hruns, Bool.true_or, if_pos rfl, Pod.tracker_badgerloopUpdateData]
    exact congrArg (Tracker.sample · _) (hd q hdue)
  · rw [if_neg hruns, Bool.eq_false_iff.mpr hruns, Bool.false_or]
    split
    · rw [Pod.tracker_badgerloopForcedData, hd q hdue]
    · exact hd q hdue

theorem switches_battStep : (p.battStep env).switches = p.switches := by
  have hd := switches_of_held (held_due env p .battMod .battCmp 1000 p.daq.lastBattTimestamp)
  unfold Pod.battStep
  generalize p.due env .battMod .battCmp 1000 p.daq.lastBattTimestamp = r at hd ⊢
  obtain ⟨hit, q⟩ := r
  cases hit <;> exact hd

theorem tracker_beforeHandler :
    (p.beforeHandler env).tracker x = sampled p (.loop (.base (.app env))) x := by
  have hmetered := switches_of_held (held_telemetryStep env (p.daqStep env))
  rw [← tracker_daqStep]
  exact tracker_of_switches ((switches_battStep env _).trans hmetered) x

theorem tracker_applicationHandler :
    (p.applicationHandler env).tracker x = sampled p (.loop (.base (.app env))) x := by
  have hheld : (p.applicationHandler env).held = (p.beforeHandler env).held :=
    held_stateMachineHandler env (p.beforeHandler env)
  rw [← tracker_beforeHandler]
  exact tracker_of_switches (switches_of_held hheld) x

theorem tracker_doBadgerloop (io : CommandIo) (argv : List CString.Word) :
    (doBadgerloop io argv p).2.tracker x = sampled p (.command io argv) x := by
  have htracker {q q' : Pod} (h : q'.held = q.held) : q'.tracker x = q.tracker x :=
    tracker_of_switches (switches_of_held h) x
  unfold sampled samplingEnv
  dsimp only
  by_cases hr : rereads argv = true
  · obtain ⟨q, hq, hcommand⟩ := doBadgerloop_of_rereads io argv p hr
    rw [if_pos hr, htracker hcommand, Pod.tracker_badgerloopUpdateData, htracker hq]
  · rw [if_neg hr]
    have hchange := doBadgerloop_held io argv p
    generalize (doBadgerloop io argv p).2 = q at hchange ⊢
    suffices h : q.switches = p.switches from tracker_of_switches h x
    suffices h : (q.held.telem.limStates, q.held.limits) =
      (p.held.telem.limStates, p.held.limits) from h
    generalize p.held = h₀ at hchange ⊢
    generalize q.held = h₁ at hchange ⊢
    cases hchange with
    | telemetry v hf =>
      have hlim (t : Telemetry) : ∀ f ∈ telemetryCommands.map (·.2),
          (t.set v f).limStates = t.limStates := by
        intro f hf
        cases f <;> rfl
      exact congrArg (·, h₀.limits) (hlim h₀.telem _ hf)
    | update q' hq hargv => exact absurd hargv hr
    | _ => rfl

end Steps

/-! ## Runs -/

/-- The pod, and the samples of the pusher switches in the run so far, latest first. -/
structure Sampling where
  pod : Pod
  history : Pusher → List Sample

/-- `in_pushing` runs in this call, and where nothing was asked for before, its first test leaves a
request for `COAST`. -/
def requestsCoast (env : Env) (p : Pod) : Bool :=
  let q := p.beforeHandler env
  let (hit, q) := q.checkInterval env q.handle.currState
  hit && q.handle.currState == .pushing && pending (q.taken.endPush env).handle == some .coast

theorem requestsCoast_eq (env : Env) (p : Pod) : requestsCoast env p =
    (fires env (p.beforeHandler env) && (p.beforeHandler env).handle.currState == .pushing &&
      pushEnded env (p.beforeHandler env)) := by
  obtain ⟨r, ts, he, -⟩ := Pod.checkInterval_spec env (p.beforeHandler env)
  have hended (q : Pod) : (pending (q.taken.endPush env).handle == some .coast) =
      pushEnded env q := by
    have hnone : pending q.taken.handle = none := rfl
    have htaken : pushEnded env q.taken = pushEnded env q := rfl
    rw [(Pod.endPush_does env q.taken).request, hnone, htaken]
    cases pushEnded env q <;> rfl
  unfold requestsCoast
  dsimp only
  rw [he]
  exact congrArg _ (hended _)

namespace Sampling

def step (s : Sampling) (i : ShellInput) : Sampling where
  pod := shellStep s.pod i
  history x :=
    match samplingEnv s.pod i with
    | some env => x.sample env :: s.history x
    | none => s.history x

/-- No read of `ticks` finds an earlier count than a sample before it, or a count past 32 bits. -/
def Later (s : Sampling) (env : Env) : Prop :=
  ∀ r, env.clock.read r < 2 ^ 32 ∧ ∀ x, ∀ y ∈ s.history x, y.time ≤ env.clock.read r

/-- Time does not run backwards, and nobody else sets the bits of the limit switches. -/
structure Timely (s : Sampling) (i : ShellInput) : Prop where
  app : ∀ env, i.env? = some env → s.Later env
  command : ∀ io argv, i = .command io argv → s.Later io.env
  telemetry : ∀ t, i = .loop (.base (.telemetry t)) → t.limStates = s.pod.telem.limStates

/-- The pod knows its samples. -/
def Tracked (s : Sampling) : Prop := ∀ x, Tracks (s.pod.tracker x) (s.history x)

variable {s : Sampling} {i : ShellInput} {env : Env} {x : Pusher}

theorem tracker_shellStep (ht : s.Timely i) :
    (shellStep s.pod i).tracker x = sampled s.pod i x := by
  cases i with
  | command io argv => exact tracker_doBadgerloop s.pod x io argv
  | loop j =>
    by_cases hb : j.Bystander
    · have hnone : samplingEnv s.pod (.loop j) = none := by
        cases j with
        | base k =>
          cases k with
          | app env => exact hb.elim
          | _ => rfl
        | _ => rfl
      unfold sampled
      rw [hnone]
      exact tracker_of_switches (switches_of_held (held_loopStep s.pod hb)) x
    · cases j with
      | base k =>
        cases k with
        | app env => exact tracker_applicationHandler env s.pod x
        | telemetry t =>
          have hlim : (shellStep s.pod (.loop (.base (.telemetry t)))).switches = s.pod.switches :=
            congrArg (·, s.pod.limits) (ht.telemetry t rfl)
          exact tracker_of_switches hlim x
        | override on => rfl
        | _ => exact absurd trivial hb
      | _ => exact absurd trivial hb

theorem later_of_samplingEnv (ht : s.Timely i) (he : samplingEnv s.pod i = some env) :
    s.Later env := by
  cases i with
  | command io argv =>
    simp only [samplingEnv] at he
    split at he
    · cases he
      exact ht.command io argv rfl
    · cases he
  | loop j =>
    cases j with
    | base k =>
      cases k with
      | app env' =>
        simp only [samplingEnv] at he
        split at he
        · cases he
          exact ht.app _ rfl
        · cases he
      | _ => cases he
    | _ => cases he

theorem tracks_sampled (ht : s.Timely i) (h : s.Tracked) :
    Tracks (sampled s.pod i x) ((s.step i).history x) := by
  unfold sampled step
  dsimp only
  cases he : samplingEnv s.pod i with
  | none => exact h x
  | some env => exact (h x).sample ((later_of_samplingEnv ht he x.tick).2 x)

theorem Tracked.step (ht : s.Timely i) (h : s.Tracked) : (s.step i).Tracked := by
  intro x
  have htracker : (s.step i).pod.tracker x = sampled s.pod i x := tracker_shellStep ht
  rw [htracker]
  exact tracks_sampled ht h

theorem history_past (ht : s.Timely (.loop (.base (.app env)))) :
    ∀ y ∈ (s.step (.loop (.base (.app env)))).history x,
      y.time ≤ env.clock.read .pushingDelay := by
  intro y hy
  have hpast := (ht.app env rfl .pushingDelay).2 x
  have hnow : env.clock.read x.tick ≤ env.clock.read .pushingDelay :=
    env.clock.mono _ _ (by cases x <;> decide)
  unfold step samplingEnv at hy
  dsimp only at hy
  split at hy
  · rename_i he
    split at he
    · cases he
      rcases List.mem_cons.mp hy with rfl | hy
      · exact hnow
      · exact hpast y hy
    · cases he
  · exact hpast y hy

/-- `in_pushing` takes the later of the two stamps. -/
theorem changed_le_lastPlimTs (q : Pod) (x : Pusher) :
    (q.tracker x).changed ≤ Pod.lastPlimTs q.limits := by
  show x.stamp q.limits ≤ _
  unfold Pod.lastPlimTs
  cases x with
  | plim1 =>
    split
    · exact UInt32.le_refl _
    · exact UInt32.not_lt.mp ‹_›
  | plim2 =>
    split
    · exact UInt32.le_of_lt ‹_›
    · exact UInt32.le_refl _

theorem lastPlimTs_le {q : Pod} {now : UInt32} (h : ∀ x, (q.tracker x).changed ≤ now) :
    Pod.lastPlimTs q.limits ≤ now := by
  unfold Pod.lastPlimTs
  split
  · exact h .plim1
  · exact h .plim2

theorem elapsed_of_lastPlimTs {q : Pod} {now d : UInt32} (h : ∀ x, (q.tracker x).changed ≤ now)
    (hd : d < now - Pod.lastPlimTs q.limits) (x : Pusher) : d < now - (q.tracker x).changed := by
  have hlast := changed_le_lastPlimTs q x
  have hnow := lastPlimTs_le h
  rw [UInt32.lt_iff_toNat_lt, UInt32.toNat_sub_of_le _ _ hnow] at hd
  rw [UInt32.lt_iff_toNat_lt, UInt32.toNat_sub_of_le _ _ (h x)]
  have hle := UInt32.le_iff_toNat_le.mp hlast
  omega

/-- Both switches are settled when `COAST` is asked for. -/
theorem Tracked.settled (ht : s.Timely (.loop (.base (.app env)))) (h : s.Tracked)
    (hr : requestsCoast env s.pod = true) (x : Pusher) :
    Debounce.Settled 1000 (env.clock.read .pushingDelay)
      ((s.step (.loop (.base (.app env)))).history x) := by
  simp only [requestsCoast_eq, pushEnded, Bool.and_eq_true, decide_eq_true_eq] at hr
  obtain ⟨-, ⟨h1, h2⟩, hlong⟩ := hr
  have htracks (y : Pusher) : Tracks ((s.pod.beforeHandler env).tracker y)
      ((s.step (.loop (.base (.app env)))).history y) := by
    rw [tracker_beforeHandler]
    exact tracks_sampled ht h
  have hlevel (y : Pusher) : ((s.pod.beforeHandler env).tracker y).level = true := by
    cases y with
    | plim1 => exact h1
    | plim2 => exact h2
  have hpast (y : Pusher) :
      ((s.pod.beforeHandler env).tracker y).changed ≤ env.ticks .pushingDelay :=
    (htracks y).changed_le (hlevel y) (ht.app env rfl .pushingDelay).1 (history_past ht)
  exact (htracks x).settled (hlevel x) (history_past ht) (elapsed_of_lastPlimTs hpast hlong x)

end Sampling

/-- Whenever `in_pushing` asks for `COAST`, both pusher switches were open in every sample of the
last second, and longer: since one that was taken before. -/
theorem coast_settled (p : Pod) (is : List ShellInput) (hlim : p.telem.limStates = 0)
    (ht : Machine.Always Sampling.step Sampling.Timely ⟨p, fun _ => []⟩ is) :
    Machine.Always Sampling.step (fun s i => ∀ env, i.env? = some env →
      requestsCoast env s.pod = true →
        ∀ x, Debounce.Settled 1000 (env.clock.read .pushingDelay) ((s.step i).history x))
      ⟨p, fun _ => []⟩ is := by
  have hboot : Sampling.Tracked ⟨p, fun _ => []⟩ := by
    intro x
    refine tracks_nil ?_
    show (p.telem.limStates &&& x.bit != 0) = false
    rw [hlim]
    cases x <;> rfl
  refine Machine.always_of_ok (fun s i h ht => h.step ht) (fun s i h ht env he hr x => ?_) hboot ht
  obtain rfl := ShellInput.eq_of_env? he
  exact h.settled ht hr x

/-- A push that lasts from 10 ms to 1250 ms with open switches. -/
def shortPush : List ShellInput := [.loop (.base (.state 'p')), callAt 10, callAt 1250]

theorem Sampling.timely_callAt {s : Sampling} {t : Nat} (ht : t < 2 ^ 32)
    (hpast : ∀ x, ∀ y ∈ s.history x, y.time ≤ t) : s.Timely (callAt t) where
  app env he := by
    cases he
    exact fun _ => ⟨ht, hpast⟩
  command io argv h := by cases h
  telemetry t' h := by cases h

theorem coast_settled_at_1250 :
    let s := Machine.run Sampling.step ⟨boot, fun _ => []⟩ shortPush
    requestsCoast (bench 1250) (Machine.run Sampling.step ⟨boot, fun _ => []⟩
      (shortPush.take 2)).pod = true ∧ ∀ x, Debounce.Settled 1000 1250 (s.history x) := by
  have hrequest : requestsCoast (bench 1250) (Machine.run Sampling.step ⟨boot, fun _ => []⟩
      (shortPush.take 2)).pod = true := by decide +kernel
  have hstate : Sampling.Timely ⟨boot, fun _ => []⟩ (.loop (.base (.state 'p'))) :=
    ⟨fun _ h => (by cases h), fun _ _ h => (by cases h), fun _ h => (by cases h)⟩
  have hfirst (x : Pusher) : (Machine.run Sampling.step ⟨boot, fun _ => []⟩
      (shortPush.take 2)).history x = [⟨10, true⟩] := by
    cases x <;> decide +kernel
  have hpast : ∀ x, ∀ y ∈ (Machine.run Sampling.step ⟨boot, fun _ => []⟩
      (shortPush.take 2)).history x, y.time ≤ 1250 := by
    intro x y hy
    rw [hfirst] at hy
    rw [List.mem_singleton.mp hy]
    decide
  have hsettled := coast_settled boot shortPush rfl
    ⟨hstate, Sampling.timely_callAt (by decide) (fun _ _ h => (by cases h)),
      Sampling.timely_callAt (by decide) hpast, trivial⟩
  exact ⟨hrequest, hsettled.2.2.1 (bench 1250) rfl hrequest⟩

end PodFirmware
