import PodFirmware.Daq

/-!
# PodFirmware.StateHandlers

The handlers of `badgerloop_state_handlers.c`. Each state has three: `to` runs when the state is
entered, `in` runs periodically while it lasts, `from` runs when it is left. They ask for a
transition with `changeState`; a `to` handler may do so too, which redirects the transition that is
under way.
-/

namespace PodFirmware
namespace Pod

open Telemetry

/-- `ticks - pushing_start_ts`, as of the last read. -/
def sincePushing (p : Pod) : UInt32 := p.ticks - p.marks.pushingStartTs

/-! ## Guards -/

/-- The check of one upstream braking pressure against its on-band. -/
def brakePressureOut (x : UInt16) : Bool := outOfRange (CInt.ofU16 x) 150 100

/-- `(GET_STOPD + GET_POS) > TARGET_END_POS`, an unsigned comparison. -/
def beyondTarget (cfg : Config) (t : Telemetry) : Bool :=
  (t.stoppingDistance + t.position).toUInt32 > cfg.targetEndPos

/-- The distance condition of `in_coast`. -/
def coastDistance (cfg : Config) (t : Telemetry) : Bool :=
  t.stoppingDistance ≠ -1 && beyondTarget cfg t

/-- The distance condition of `in_braking`. -/
def brakingDistance (cfg : Config) (t : Telemetry) : Bool :=
  t.stoppingDistance.toUInt32 ≠ cfg.targetEndPos && beyondTarget cfg t

/-- The push condition of `in_ready`: a pusher switch is pressed and the pod accelerates. -/
def pushSeen (cfg : Config) (t : Telemetry) : Bool :=
  !(t.getLim plim1 && t.getLim plim2) && t.acceleration.toUInt32 > cfg.accelImpulse

/-- The condition under which `in_braking` counts towards the secondary brakes. -/
def brakingEmergency (cfg : Config) (t : Telemetry) : Bool :=
  (brakePressureOut t.brP3 && (t.getLim blim1 && t.getLim blim2)) || brakingDistance cfg t

/-! ## Checks before a run -/

/-- The checks of `verify_DAQ` in order, each with its message and the value it blames. -/
def daqChecks (t : Telemetry) : List (Bool × String × Int32) :=
  [(outOfRange t.vBatt 14500 10500, "primary battery voltage OOR\r\n", t.vBatt),
    (outOfRange t.iBatt 13000 0, "primary battery current OOR\r\n", t.iBatt),
    (outOfRange t.tBatt 400 150, "primary battery temperature OOR\r\n", t.tBatt),
    (brakePressureOut t.brP1, "Low braking pressure 1\r\n", CInt.ofU16 t.brP1),
    (brakePressureOut t.brP2, "Low braking pressure 2\r\n", CInt.ofU16 t.brP2),
    (outOfRange (CInt.ofU16 t.brP3) 40 0, "High braking pressure 3\r\n", CInt.ofU16 t.brP3),
    (outOfRange t.acceleration 100 (-100), "Accelerating\r\n", t.acceleration),
    (outOfRange t.velocity 5 (-5), "Velocity not zero\r\n", t.velocity),
    (outOfRange t.position 0 0, "Position not zero\r\n", t.position)]

def verifyDaq (env : Env) (p : Pod) : Bool × Pod :=
  match (daqChecks p.telem).find? (·.1) with
  | some (_, message, value) => (false, (p.assertFault env .inHandler message).setBadValue value)
  | none => (true, p)

/-! ## Fault -/

def toFault (env : Env) (source : StateName) (p : Pod) : Pod :=
  if source = .braking then
    let p := p.readTicks env .toFault
    if p.sincePushing > p.cfg.dontBrakeTo then (p.primaryBrakes 100).secondaryBrakes 100
    else p.changeState .braking
  else if source = .pushing then p.changeState .coast
  else if source = .coast then p.changeState .braking
  else if source = .ready then p.changeState .idle
  else p

def inFault (flags : UInt32) (p : Pod) : Pod :=
  let p := if hasFlag flags retryInit && p.linkUp then (p.changeState .idle).clearFlag retryInit
    else p
  if hasFlag flags runOver then p.changeState .idle else p

/-! ## Idle -/

def idlePowerOn (p : Pod) : Pod :=
  let p := ((p.primaryBrakes 0).secondaryBrakes 0).thrusters false
  (((p.ventPrimaryBrakes false).ventSecondaryBrakes false).ventThrusters false).clearFlag powerOn

def idleRunOver (env : Env) (p : Pod) : Pod :=
  (((p.ventThrusters true).ventPrimaryBrakes true).ventSecondaryBrakes true).printf env .inHandler

def inIdle (env : Env) (flags : UInt32) (p : Pod) : Pod :=
  let p := if hasFlag flags powerOn then idlePowerOn p else p
  if hasFlag flags runOver then idleRunOver env p else (verifyDaq env p).2

/-! ## Ready -/

def inReady (p : Pod) : Pod :=
  if pushSeen p.cfg p.telem then p.changeState .pushing else p

/-! ## Pushing -/

def toPushing (env : Env) (p : Pod) : Pod :=
  let p := p.readTicks env .toPushing
  p.setMarks { p.marks with pushingStartTs := p.ticks }

def lastPlimTs (l : LimitTimes) : UInt32 := if l.plim1Ts > l.plim2Ts then l.plim1Ts else l.plim2Ts

/-- The first statement of `in_pushing`: limit switches and delay. -/
def endPush (env : Env) (p : Pod) : Pod :=
  if p.telem.getLim plim1 && p.telem.getLim plim2 then
    let p := p.readTicks env .pushingDelay
    if p.ticks - lastPlimTs p.limits > 1000 then p.changeState .coast else p
  else p

/-- `if (ticks - pushing_start_ts > MUST_BRAKE_TO) change_state(BRAKING)`, which `in_pushing` and
`in_coast` share. -/
def mustBrake (env : Env) (r : TickRead) (p : Pod) : Pod :=
  let p := p.readTicks env r
  if p.sincePushing > p.cfg.mustBrakeTo then p.changeState .braking else p

def inPushing (env : Env) (p : Pod) : Pod := mustBrake env .pushingMust (endPush env p)

/-! ## Coast -/

def coastFault (env : Env) (message : String) (value : Int32) (p : Pod) : Pod :=
  ((p.assertFault env .toHandler message).setBadValue value).ventThrusters true

def toCoast (env : Env) (source : StateName) (p : Pod) : Pod :=
  let p :=
    if source ≠ .braking ∧ source ≠ .fault then
      if brakePressureOut p.telem.brP1 then
        coastFault env "Low braking pressure 1\r\n" (CInt.ofU16 p.telem.brP1) p
      else if brakePressureOut p.telem.brP2 then
        coastFault env "Low braking pressure 2\r\n" (CInt.ofU16 p.telem.brP2) p
      else p
    else p.ventThrusters true
  let p := p.readTicks env .toCoast
  p.setMarks { p.marks with coastTs := p.ticks }

/-- The first statement of `in_coast`: brake for the target, or complain about not knowing. -/
def checkDistance (env : Env) (p : Pod) : Pod :=
  if coastDistance p.cfg p.telem then p.changeState .braking
  else if p.telem.stoppingDistance = -1 then
    p.assertFault env .inHandler "Unknown stopping distance"
  else p

def thrust (env : Env) (p : Pod) : Pod :=
  let p := p.readTicks env .coastThrust
  if p.ticks - p.marks.coastTs > p.cfg.thrustTo then p.thrusters true else p

def inCoast (env : Env) (p : Pod) : Pod :=
  thrust env (mustBrake env .coastMust (checkDistance env p))

def fromCoast (p : Pod) : Pod := p.thrusters false

/-! ## Braking -/

def toBraking (env : Env) (p : Pod) : Pod :=
  let p := p.readTicks env .toBraking
  if p.sincePushing < p.cfg.dontBrakeTo then p.changeState .coast else p.primaryBrakes 100

/-- The first statement of `in_braking`. The count goes up only when the emergency condition holds,
and the clock is read only when the count is high enough. -/
def holdSecondary (env : Env) (p : Pod) : Pod :=
  if brakingEmergency p.cfg p.telem then
    let p := p.setMarks { p.marks with primaryLowCount := p.marks.primaryLowCount + 1 }
    if p.marks.primaryLowCount.toUInt32 > p.cfg.brakingCountThrs then
      let p := p.readTicks env .brakingSecondary
      if p.sincePushing > p.cfg.dontBrakeTo then p.secondaryBrakes 100 else p
    else p
  else p

def holdPrimary (env : Env) (p : Pod) : Pod :=
  let p := p.readTicks env .brakingPrimary
  if p.sincePushing > p.cfg.dontBrakeTo then p.primaryBrakes 100 else p

def inBraking (env : Env) (flags : UInt32) (p : Pod) : Pod :=
  let p := holdPrimary env (holdSecondary env p)
  if hasFlag flags runOver && p.telem.velocity < 10 then p.changeState .idle else p

def fromBraking (target : StateName) (p : Pod) : Pod :=
  if target ≠ .fault then (p.primaryBrakes 0).secondaryBrakes 0 else p

/-! ## Tables -/

/-- `to_handlers`; the entrances of `IDLE` and `READY` do nothing. -/
def toHandlers (env : Env) : StateName → StateName → Pod → Pod
  | .fault, source, p => toFault env source p
  | .idle, _, p => p
  | .ready, _, p => p
  | .pushing, _, p => toPushing env p
  | .coast, source, p => toCoast env source p
  | .braking, _, p => toBraking env p

def inHandlers (env : Env) : StateName → UInt32 → Pod → Pod
  | .fault, flags, p => inFault flags p
  | .idle, flags, p => inIdle env flags p
  | .ready, _, p => inReady p
  | .pushing, _, p => inPushing env p
  | .coast, _, p => inCoast env p
  | .braking, flags, p => inBraking env flags p

/-- `from_handlers`; only `COAST` and `BRAKING` have something to undo. -/
def fromHandlers : StateName → StateName → Pod → Pod
  | .coast, _, p => fromCoast p
  | .braking, target, p => fromBraking target p
  | _, _, p => p

def stateIntervals : StateName → UInt32
  | .fault => 250
  | .idle => 100
  | .ready => 250
  | .pushing => 250
  | .coast => 250
  | .braking => 100

end Pod
end PodFirmware
