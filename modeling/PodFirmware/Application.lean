import PodFirmware.Lib.Machine
import PodFirmware.StateMachine

/-!
# PodFirmware.Application

`application_handler`: data acquisition, telemetry, the state of charge, and then one call of the
state machine. Around it the main loop serves the console and the network interface; of these, an
`Input` keeps what reaches the state machine. `lwip_loop_handler` follows the link,
`badgerloop state` requests a transition, `badgerloop override` stops or resumes data acquisition,
and the telemetry may change in any way, as it does when the console sets sensor data.
-/

namespace PodFirmware
namespace Pod

/-! ## Telemetry -/

/-- Sending one frame: nothing is stamped unless a buffer was there for it. -/
def sendTelemetry (env : Env) (result : SendResult) (r : TickRead) (p : Pod) : Int32 × Pod :=
  if result = .noBuffer then (-1, p)
  else
    let p := (p.disableIrq.enableIrq).readTicks env r
    let p := p.setReports { p.reports with lastTelemTimestamp := p.ticks }
    (if result = .failed then -1 else 0, p)

def sendTelemetryToSpaceX (env : Env) (p : Pod) : Int32 × Pod :=
  sendTelemetry env env.spacex .telemSpacex p

def sendTelemetryToDashboard (env : Env) (p : Pod) : Int32 × Pod :=
  sendTelemetry env env.dashboard .telemDashboard p

def sendBoth (env : Env) (p : Pod) : Bool × Pod :=
  let (ret, p) := sendTelemetryToSpaceX env p
  if ret ≠ 0 then (true, p)
  else
    let (ret, p) := sendTelemetryToDashboard env p
    (ret ≠ 0, p)

/-- A frame for which there is a buffer enables interrupts and stamps the reports. -/
theorem sendTelemetry_changes (env : Env) (result : SendResult) (r : TickRead) (p : Pod) :
    (sendTelemetry env result r p).2 = p ∨
      ∃ x, (sendTelemetry env result r p).2 = (p.enableIrq.readTicks env r).setReports x := by
  unfold sendTelemetry
  split
  · exact .inl rfl
  · exact .inr ⟨_, rfl⟩

theorem sendBoth_changes (env : Env) (p : Pod) : (sendBoth env p).2 = p ∨
    ∃ r x, (sendBoth env p).2 = (p.enableIrq.readTicks env r).setReports x := by
  unfold sendBoth sendTelemetryToSpaceX sendTelemetryToDashboard
  dsimp only
  have hagain (r r' : TickRead) (x x' : Reports) :
      (((p.enableIrq.readTicks env r).setReports x).enableIrq.readTicks env r').setReports x' =
        (p.enableIrq.readTicks env r').setReports x' := by
    cases p
    rfl
  have hspacex := sendTelemetry_changes env env.spacex .telemSpacex p
  generalize (sendTelemetry env env.spacex .telemSpacex p).2 = q at hspacex
  split
  · rcases hspacex with h | ⟨x, h⟩
    · exact .inl h
    · exact .inr ⟨_, x, h⟩
  · -- the second frame stamps over the first
    rcases hspacex with h | ⟨x, h⟩ <;>
      rcases sendTelemetry_changes env env.dashboard .telemDashboard q with h' | ⟨x', h'⟩ <;>
      rw [h', h]
    · exact .inl rfl
    · exact .inr ⟨_, x', rfl⟩
    · exact .inr ⟨_, x, rfl⟩
    · exact .inr ⟨_, x', hagain ..⟩

def telemetryFault (message : String) (p : Pod) : Pod :=
  (p.changeState .fault).setFaultMessage message

/-! ## The steps of `application_handler` -/

def daqStep (env : Env) (p : Pod) : Pod :=
  let (hit, p) := p.due env .daqMod .daqCmp 10 p.daq.lastDaqTimestamp
  if hit && !p.daq.manualUpdate then
    let p := p.readTicks env .daqSet
    badgerloopUpdateData env (p.setDaq { p.daq with lastDaqTimestamp := p.ticks })
  else if p.daq.manualUpdate then badgerloopForcedData env p
  else p

def telemetryStep (env : Env) (p : Pod) : Pod :=
  let (hit, p) := p.due env .telemMod .telemCmp 300 p.reports.lastTelemTimestamp
  if hit then
    let p := p.readTicks env .telemSet
    let p := p.setReports { p.reports with lastTelemTimestamp := p.ticks }
    if p.linkUp then
      let (failed, p) := sendBoth env p
      if failed then telemetryFault "Sending telemetry failed!" p else p
    else
      let p := telemetryFault "No network link!" p
      if hasFlag p.handle.flags powerOn then p.setFlag retryInit else p
  else p

def battStep (env : Env) (p : Pod) : Pod :=
  let (hit, p) := p.due env .battMod .battCmp 1000 p.daq.lastBattTimestamp
  if hit then
    let p := p.readTicks env .battSet
    let p := p.setDaq { p.daq with lastBattTimestamp := p.ticks }
    let draw := (p.telem.vBatt * p.telem.iBatt / 1000000).toUInt32
    let charge := (3000 * p.telem.vBatt / 1000000).toUInt32
    let draw := if p.daq.charging then (if draw < charge then 0 else draw - charge) else draw
    let soc := p.daq.soc - draw
    let p := p.setDaq { p.daq with currDraw := draw, soc := soc }
    p.setTelem { p.telem with
      percentage := soc * 100 / 1013760
      timeRemaining := if draw = 0 then 1012651 else soc / draw }
  else p

def beforeHandler (env : Env) (p : Pod) : Pod :=
  battStep env (telemetryStep env (daqStep env p))

def applicationHandler (env : Env) (p : Pod) : Pod :=
  stateMachineHandler env (beforeHandler env p)

/-- `badgerloop state <word>`: the first letter of the word decides. -/
def consoleState (c : Char) (p : Pod) : Pod :=
  match c with
  | 'i' => p.changeState .idle
  | 'f' => p.changeState .fault
  | 'r' => p.changeState .ready
  | 'p' => p.changeState .pushing
  | 'c' => p.changeState .coast
  | 'b' => p.changeState .braking
  | _ => p

end Pod

/-! ## Runs -/

inductive Input where
  | app (env : Env)
  | link (up : Bool)
  | telemetry (t : Telemetry)
  | override (on : Bool)
  | state (c : Char)

def step (p : Pod) : Input → Pod
  | .app env => p.applicationHandler env
  | .link up => { p with linkUp := up }
  | .telemetry t => p.setTelem t
  | .override on => p.setDaq { p.daq with manualUpdate := on }
  | .state c => p.consoleState c

/-- `P` holds of the `state_machine_handler` call that the input leads to, if any: of its
environment and of the state it starts in. -/
def OnCall (P : Env → Pod → Prop) (p : Pod) : Input → Prop
  | .app env => P env (p.beforeHandler env)
  | _ => True

instance (P : Env → Pod → Prop) [∀ env p, Decidable (P env p)] (p : Pod) :
    ∀ i, Decidable (OnCall P p i)
  | .app env => inferInstanceAs (Decidable (P env (p.beforeHandler env)))
  | .link _ => inferInstanceAs (Decidable True)
  | .telemetry _ => inferInstanceAs (Decidable True)
  | .override _ => inferInstanceAs (Decidable True)
  | .state _ => inferInstanceAs (Decidable True)

abbrev EveryCall (P : Env → Pod → Prop) (p : Pod) (is : List Input) : Prop :=
  Machine.Always step (OnCall P) p is

/-- The controller as `badgerloop_init` leaves it: no request, no actuator command yet, the
statics of the handlers at zero. Configuration and telemetry are arbitrary. -/
structure Booted (p : Pod) : Prop where
  init : ∃ q : Pod, p = q.initializeStateMachine .idle
  marks : p.marks = {}
  log : p.log = []

/-- No read of `ticks` in this step goes back behind one made before it. -/
def OnTime (p : Pod) (i : Input) : Prop := ∀ env, i = .app env → ∀ r, p.now ≤ env.clock.read r

abbrev Chronological (p : Pod) (is : List Input) : Prop := Machine.Always step OnTime p is

/-! ## A pod on the bench -/

/-- An uneventful environment at the time `t`: messages get through, all sensors read zero, the
limit switches are open. -/
def bench (t : Nat) : Env where
  clock := .const t
  pins := fun _ => true
  analogRead := fun _ => 0
  fifoAverage := 0
  retro := fun _ => {}
  honeywellPressure := 0
  honeywellTemperature := 0
  thermistorScalar := fun _ => 0
  spacex := .sent
  dashboard := .sent
  stdout := fun _ => []

/-- The controller after `badgerloop_init`, with the default configuration. -/
def boot : Pod := Pod.initializeStateMachine .idle {
  handle := {
    currState := .idle
    prevState := .idle
    nextState := .idle
    changeState := false
    flags := 0
    timestamps := fun _ => 0 }
  telem := {}
  cfg := {}
  marks := {}
  limits := {}
  act := {}
  reports := {}
  daq := {}
  linkUp := true
  now := 0
  log := [] }

theorem booted_boot : Booted boot := ⟨⟨_, rfl⟩, rfl, rfl⟩

theorem onTime_state (p : Pod) (c : Char) : OnTime p (.state c) := by
  rintro env ⟨⟩

theorem onTime_link (p : Pod) (up : Bool) : OnTime p (.link up) := by
  rintro env ⟨⟩

theorem onTime_telemetry (p : Pod) (t : Telemetry) : OnTime p (.telemetry t) := by
  rintro env ⟨⟩

theorem onTime_bench {p : Pod} {t : Nat} (h : p.now ≤ t) : OnTime p (.app (bench t)) := by
  rintro env ⟨⟩ r
  exact h

end PodFirmware
