import PodFirmware.Lib.CInt
import PodFirmware.Lib.Tick
import PodFirmware.Lib.Trace

/-!
# PodFirmware.Pod

The data model of the pod controller: the state record of the state machine, the telemetry fields,
the configurable values, the function statics of the handlers and of data acquisition, and the
environment a main-loop iteration runs in.

Two components of `Pod` are not variables of the program. `now` is the number of milliseconds
counted by `SysTick_Handler` up to the last time the program looked at `ticks`; the program itself
only ever sees `Pod.ticks`, its low 32 bits. `log` is the trace of what the program did: handler
calls, state changes and actuator commands, newest first, each with the value of `now`.

`ticks` is volatile and counts on between any two reads, so an `Env` fixes a value for every place
of the source that reads it (`TickRead`), in no way tied to each other but for the order in which
the places are passed.
-/

namespace PodFirmware

inductive StateName where
  | fault | idle | ready | pushing | coast | braking
  deriving DecidableEq, Repr

/-! ## Status flags -/

def powerOn : UInt32 := 0x00000001
def runOver : UInt32 := 0x80000000
def retryInit : UInt32 := 0x00000002

def hasFlag (flags bit : UInt32) : Bool := flags &&& bit != 0

theorem hasFlag_and {f m bit : UInt32} (h : hasFlag f bit = false) :
    hasFlag (f &&& m) bit = false := by
  simp only [hasFlag, bne_eq_false_iff_eq] at h ⊢
  rw [UInt32.and_assoc, UInt32.and_comm m, ← UInt32.and_assoc, h, UInt32.zero_and]

theorem or_and_right (f other bit : UInt32) :
    (f ||| other) &&& bit = f &&& bit ||| other &&& bit :=
  UInt32.toBitVec_inj.mp BitVec.and_or_distrib_right

theorem hasFlag_or {f bit other : UInt32} (h : other &&& bit = 0) :
    hasFlag (f ||| other) bit = hasFlag f bit := by
  rw [hasFlag, or_and_right, h, UInt32.or_zero, hasFlag]

theorem hasFlag_set {f bit : UInt32} (h : bit ≠ 0) : hasFlag (f ||| bit) bit = true := by
  have hd : (f ||| bit) &&& bit = bit := by
    apply UInt32.toBitVec_inj.mp
    ext i hi
    simp
    cases bit.toBitVec[i] <;> simp
  rw [hasFlag, hd]
  simpa using h

theorem hasFlag_clear (f bit : UInt32) : hasFlag (f &&& ~~~bit) bit = false := by
  rw [hasFlag, UInt32.and_assoc, UInt32.not_and_self, UInt32.and_zero]
  rfl

/-- `state_t`, less the handler tables, which never change after initialisation. -/
structure StateHandle where
  currState : StateName
  prevState : StateName
  nextState : StateName
  changeState : Bool
  flags : UInt32
  timestamps : StateName → UInt32

/-- The fields of `telemetry_buffer`, each with the value its `GET_` macro reads. -/
structure Telemetry where
  teamId : UInt8 := 0x3
  status : UInt8 := 0
  acceleration : Int32 := 0
  position : Int32 := 0
  velocity : Int32 := 0
  vBatt : Int32 := 0
  iBatt : Int32 := 0
  tBatt : Int32 := 0
  tPod : Int32 := 0
  sCount : UInt32 := 0
  pAmb : UInt16 := 0
  prP1 : UInt16 := 0
  prP2 : UInt16 := 0
  brP1 : UInt16 := 0
  brP2 : UInt16 := 0
  brP3 : UInt16 := 0
  limStates : UInt8 := 0
  stoppingDistance : Int32 := 0
  percentage : UInt32 := 0
  timeRemaining : UInt32 := 0
  deriving DecidableEq, Repr

namespace Telemetry

def plim1 : UInt8 := 0x1
def plim2 : UInt8 := 0x2
def blim1 : UInt8 := 0x4
def blim2 : UInt8 := 0x8
def dlim : UInt8 := 0x10

/-- `GET_PLIM1` and its siblings: the switch bit as a truth value. -/
def getLim (t : Telemetry) (bit : UInt8) : Bool := t.limStates &&& bit != 0

/-- `SET_PLIM1`, `CLR_PLIM1` and their siblings. -/
def putLim (t : Telemetry) (bit : UInt8) (v : Bool) : Telemetry :=
  { t with limStates := if v then t.limStates ||| bit else t.limStates &&& ~~~bit }

theorem getLim_putLim_self {bit : UInt8} (h : bit ≠ 0) (t : Telemetry) (v : Bool) :
    (t.putLim bit v).getLim bit = v := by
  cases v with
  | true =>
    have hd : (t.limStates ||| bit) &&& bit = bit := by
      apply UInt8.toBitVec_inj.mp
      ext i hi
      simp
      cases bit.toBitVec[i] <;> simp
    simp only [getLim, putLim, if_true, hd]
    simpa using h
  | false =>
    simp only [getLim, putLim, Bool.false_eq_true, if_false, UInt8.and_assoc, UInt8.not_and_self,
      UInt8.and_zero]
    rfl

theorem getLim_putLim_of_disjoint {bit other : UInt8} (h : other &&& bit = 0) (t : Telemetry)
    (v : Bool) : (t.putLim other v).getLim bit = t.getLim bit := by
  have hor (x : UInt8) : (x ||| other) &&& bit = x &&& bit ||| other &&& bit :=
    UInt8.toBitVec_inj.mp BitVec.and_or_distrib_right
  cases v with
  | true => simp only [getLim, putLim, if_true, hor, h, UInt8.or_zero]
  | false =>
    have hnot : ~~~other &&& bit = bit := by
      have hd : (~~~other ||| other) &&& bit = bit := by
        rw [UInt8.not_or_self, UInt8.neg_one_and]
      rwa [hor, h, UInt8.or_zero] at hd
    simp only [getLim, putLim, Bool.false_eq_true, if_false, UInt8.and_assoc, hnot]

end Telemetry

/-- The globals that the console can configure. -/
structure Config where
  dontBrakeTo : UInt32 := 8000
  mustBrakeTo : UInt32 := 30000
  brakingCountThrs : UInt32 := 5
  accelImpulse : UInt32 := 100
  targetEndPos : UInt32 := 125000
  cmPerStrip : UInt32 := 3048
  interpolate : UInt32 := 1
  thrustTo : UInt32 := 3000
  deriving DecidableEq, Repr

structure Marks where
  pushingStartTs : UInt32 := 0
  coastTs : UInt32 := 0
  primaryLowCount : Int32 := 0
  deriving DecidableEq, Repr

structure LimitTimes where
  plim1Ts : UInt32 := 0
  plim2Ts : UInt32 := 0
  blim1Ts : UInt32 := 0
  blim2Ts : UInt32 := 0
  dlimTs : UInt32 := 0
  deriving DecidableEq, Repr

inductive GpioPort where
  | A | B | C | D | E | F | G | H | I | J | K
  deriving DecidableEq, Repr

/-- The cached intensities of the brakes and the output latch of every port. -/
structure Actuation where
  primaryIntensity : Int32 := -1
  secondaryIntensity : Int32 := -1
  odr : GpioPort → UInt32 := fun _ => 0

inductive StdioTarget where
  | usbSerial | udp
  deriving DecidableEq, Repr

/-- What console output touches, and what is reported about faults. -/
structure Reports where
  tar : StdioTarget := .usbSerial
  lastTelemTimestamp : UInt32 := 0
  faultMessage : String := "INITIAL_VAL"
  badValue : Int32 := 0
  deriving DecidableEq, Repr

/-- Statics of data acquisition and of the accounting steps of `application_handler`. -/
structure DaqState where
  accelBuffer0 : Int16 := 0
  accelRollingBuffer : Vector Int32 10 := Vector.replicate 10 0
  accelCount : Int32 := 0
  accelSum : Int32 := 0
  currAccelTs : UInt32 := 0
  prevAccelTs : UInt32 := 0
  prevScount : UInt32 := 0
  mpuGathering : Bool := false
  mpuTs : UInt32 := 0
  irqEnabled : Bool := true
  lastDaqTimestamp : UInt32 := 0
  lastBattTimestamp : UInt32 := 0
  manualUpdate : Bool := false
  charging : Bool := false
  soc : UInt32 := 1013760
  currDraw : UInt32 := 0
  deriving DecidableEq, Repr

inductive Event where
  | inHandler (s : StateName)
  | fromHandler (s target : StateName)
  | toHandler (s source : StateName)
  | transition (source target : StateName)
  | primaryBrakes (intensity : Int32)
  | secondaryBrakes (intensity : Int32)
  | ventPrimaryBrakes (vent : Bool)
  | ventSecondaryBrakes (vent : Bool)
  | thrusters (on : Bool)
  | ventThrusters (vent : Bool)
  deriving DecidableEq, Repr

abbrev Log := List (Nat × Event)

structure Pod where
  handle : StateHandle
  telem : Telemetry
  cfg : Config
  marks : Marks
  limits : LimitTimes
  act : Actuation
  reports : Reports
  daq : DaqState
  linkUp : Bool
  now : Nat
  log : Log

/-! ## The environment -/

/-- The places of one `application_handler` call at which `ticks` is read, in program order. Only
reads that exclude each other are listed in an arbitrary order. -/
inductive TickRead where
  | daqMod | daqCmp | daqSet
  | mpuStart | mpuElapsed | accelTs | stripStale | stripElapsed
  | blim1 | blim2 | plim1 | plim2 | dlim
  | telemMod | telemCmp | telemSet | telemSpacex | telemDashboard
  | battMod | battCmp | battSet
  | checkMod | checkCmp | checkSet
  | pushingDelay | pushingMust | coastMust | coastThrust | brakingSecondary | brakingPrimary
  | toFault | toPushing | toCoast | toBraking
  deriving DecidableEq, Repr

/-- The count of milliseconds found by each read: it never runs backwards. -/
structure Clock where
  read : TickRead → Nat
  mono : ∀ r r' : TickRead, r.ctorIdx ≤ r'.ctorIdx → read r ≤ read r'

def Clock.const (t : Nat) : Clock := ⟨fun _ => t, fun _ _ _ => Nat.le_refl t⟩

/-- `timeStamp`, as the strip interrupt leaves it. -/
structure TimeStamp where
  prev : UInt32 := 0
  curr : UInt32 := 0
  count : UInt32 := 0
  filter : Vector UInt32 3 := Vector.replicate 3 0
  deriving DecidableEq, Repr

/-- The places at which data acquisition reads `mainRetro`. -/
inductive RetroRead where
  | scount | compare | velocity | stale | interval | elapsed
  deriving DecidableEq, Repr

inductive InputPin where
  | g2 | g3 | d0 | d1 | d3
  deriving DecidableEq, Repr

inductive Print where
  | blim1 | blim2 | plim1 | plim2 | dlim | inHandler | toHandler
  deriving DecidableEq, Repr

/-- Outcome of `pbuf_alloc` followed by `udp_send`. -/
inductive SendResult where
  | noBuffer | failed | sent
  deriving DecidableEq, Repr

/-- One `_write` call made by the C library for buffered output: what happens to the datagram if
the target is UDP, and the count of milliseconds then. -/
structure WriteCall where
  result : SendResult
  tick : Nat
  deriving DecidableEq, Repr

/-- Everything an `application_handler` call finds outside the program. -/
structure Env where
  clock : Clock
  pins : InputPin → Bool
  analogRead : Nat → UInt16
  fifoAverage : Int16
  retro : RetroRead → TimeStamp
  honeywellPressure : Int32
  honeywellTemperature : Int32
  thermistorScalar : UInt16 → Int32
  spacex : SendResult
  dashboard : SendResult
  stdout : Print → List WriteCall

def Env.ticks (env : Env) (r : TickRead) : UInt32 := Tick.reading (env.clock.read r)

/-! ## Primitive steps -/

namespace Pod

/-- The program looks at `ticks`: from here on `p.ticks` is what it read. -/
@[simps] def readTicks (p : Pod) (env : Env) (r : TickRead) : Pod :=
  { p with now := env.clock.read r }

def ticks (p : Pod) : UInt32 := Tick.reading p.now

@[simp] theorem ticks_readTicks (p : Pod) (env : Env) (r : TickRead) :
    (p.readTicks env r).ticks = env.ticks r := rfl

@[simps] def drive (p : Pod) (ev : Event) (f : Actuation → Actuation) : Pod :=
  { p with act := f p.act, log := (p.now, ev) :: p.log }

@[simps] def emit (p : Pod) (ev : Event) : Pod := { p with log := (p.now, ev) :: p.log }

@[simps] def setHandle (p : Pod) (h : StateHandle) : Pod := { p with handle := h }
@[simps] def setTelem (p : Pod) (t : Telemetry) : Pod := { p with telem := t }
@[simps] def setMarks (p : Pod) (m : Marks) : Pod := { p with marks := m }
@[simps] def setLimits (p : Pod) (l : LimitTimes) : Pod := { p with limits := l }
@[simps] def setReports (p : Pod) (r : Reports) : Pod := { p with reports := r }
@[simps] def setDaq (p : Pod) (d : DaqState) : Pod := { p with daq := d }

end Pod

end PodFirmware
