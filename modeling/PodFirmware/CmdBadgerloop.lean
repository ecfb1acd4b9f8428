import PodFirmware.Frame
import PodFirmware.Latch
import PodFirmware.Lib.CString

/-!
# PodFirmware.CmdBadgerloop

`do_badgerloop`, the console command that sets sensor data and configuration, drives the actuators,
requests states and stops data acquisition. With two arguments its keywords are exact, and each
family of them is a table; otherwise the first letter of the first argument decides.

* `doBadgerloop`: status and effect of a command line.
* `ShellInput`: the inputs of the main loop with `do_badgerloop` among them.

`badgerloop q` polls for a response of the dashboard. What arrives meanwhile is a step of its own;
here it only prints.
-/

namespace PodFirmware

open CString

/-- `command_status`. -/
inductive CommandStatus where
  | success | usage | fail
  deriving DecidableEq, Repr

/-- What a command finds outside the program: the environment of data acquisition and of the frames
it sends, the result of a message, and the `_write` calls that its output makes. -/
structure CommandIo where
  env : Env
  message : WriteCall
  stdout : List WriteCall

/-- The entry of the first keyword that equals `w`. -/
def keyword {α : Type} (table : List (String × α)) (w : Word) : Option α :=
  (table.find? fun e => ascii e.1 = w).map (·.2)

theorem keyword_mem {α : Type} {table : List (String × α)} {w : Word} {a : α}
    (h : keyword table w = some a) : a ∈ table.map (·.2) := by
  obtain ⟨e, he, rfl⟩ := Option.map_eq_some_iff.mp h
  exact List.mem_map_of_mem (List.mem_of_find?_eq_some he)

/-! ## Keywords -/

def telemetryCommands : List (String × Field) :=
  [("accel", .acceleration), ("position", .position), ("velocity", .velocity), ("strip", .sCount),
    ("bls", .brP1), ("blp", .brP2), ("bpp", .brP3), ("pl", .prP1), ("ps", .prP2),
    ("stopd", .stoppingDistance)]

/-- The value of a field: only the acceleration is read as a signed number. -/
def fieldValue (f : Field) (w : Word) : Int :=
  if f = .acceleration then (strtol 10 w).toInt else (strtoul 10 w).toNat

def configCommands : List (String × (UInt32 → Config → Config)) :=
  [("DBTO", fun v c => { c with dontBrakeTo := v }),
    ("MBTO", fun v c => { c with mustBrakeTo := v }),
    ("BCT", fun v c => { c with brakingCountThrs := v }),
    ("ACCEL", fun v c => { c with accelImpulse := v }),
    ("TEP", fun v c => { c with targetEndPos := v }),
    ("CMPS", fun v c => { c with cmPerStrip := v }), ("TTO", fun v c => { c with thrustTo := v })]

def actuationCommands : List (String × (Bool → Pod → Pod)) :=
  [("pbrake", fun on p => p.primaryBrakes (if on then 100 else 0)),
    ("sbrake", fun on p => p.secondaryBrakes (if on then 100 else 0)),
    ("vpbrake", fun on p => p.ventPrimaryBrakes on),
    ("vsbrake", fun on p => p.ventSecondaryBrakes on), ("thrust", fun on p => p.thrusters on),
    ("vthrust", fun on p => p.ventThrusters on)]

def switchCommands : List (String × (Bool → Pod → Pod)) :=
  [("override", fun on p => p.setDaq { p.daq with manualUpdate := on }),
    ("battery", fun on p => p.setDaq { p.daq with charging := on }),
    ("interpolate", fun on p =>
      { p with cfg := { p.cfg with interpolate := if on then 1 else 0 } })]

/-- The state that the first letter of `badgerloop state <word>` names. -/
def stateLetter : Word → Option StateName
  | 105 :: _ => some .idle
  | 102 :: _ => some .fault
  | 114 :: _ => some .ready
  | 112 :: _ => some .pushing
  | 99 :: _ => some .coast
  | 98 :: _ => some .braking
  | _ => none

namespace Pod

/-- What a command prints. -/
def puts (ws : List WriteCall) (p : Pod) : Pod :=
  (p.setReports (ws.foldl write p.reports)).setDaq
    { p.daq with irqEnabled := p.daq.irqEnabled || writesSerial p.reports ws }

def setConfig (p : Pod) (c : Config) : Pod := { p with cfg := c }

/-- `badgerloop <keyword> <value>`. -/
def doKeyword (io : CommandIo) (name value : Word) (p : Pod) : CommandStatus × Pod :=
  match keyword telemetryCommands name with
  | some f => (.success, p.setTelem (p.telem.set (fieldValue f value) f))
  | none =>
    if ascii "soc" = name then (.success, p.setDaq { p.daq with soc := strtoul 10 value })
    else match keyword configCommands name with
    | some set => (.success, p.setConfig (set (strtoul 10 value) p.cfg))
    | none => match keyword actuationCommands name with
      | some drive => (.success, drive (value = ascii "on") p)
      | none =>
        if name = ascii "state" then
          match stateLetter value with
          | some s => (.success, p.changeState s)
          | none => (.usage, p)
        else match keyword switchCommands name with
        | some switch =>
          if ascii "on" = value then (.success, switch true (p.puts io.stdout))
          else if ascii "off" = value then (.success, switch false (p.puts io.stdout))
          else (.fail, p)
        | none => (.usage, p)

/-- `get_performanceIV` and its kin: interrupts are disabled around the call. -/
def performance (f : Pod → Pod) (p : Pod) : Pod := (f p.disableIrq).enableIrq

/-- `badgerloop <letter>`, with `argv[2]` where it is given. -/
def doLetter (io : CommandIo) (word : Word) (message : Option Word) (p : Pod) :
    CommandStatus × Pod :=
  match word with
  | 112 :: _ =>
    (.success, (p.setReports { p.reports with tar := .udp }).puts io.stdout)
  | 113 :: _ => (.success, (p.performance id).puts io.stdout)
  | 100 :: _ =>
    (.success, (p.performance fun p => (sendTelemetryToDashboard io.env p).2).puts io.stdout)
  | 115 :: _ =>
    (.success, (p.performance fun p => (sendTelemetryToSpaceX io.env p).2).puts io.stdout)
  | 99 :: _ | 108 :: _ | 102 :: _ => (.success, p.puts io.stdout)
  | 114 :: _ => (.success, (p.performance (badgerloopUpdateData io.env)).puts io.stdout)
  | 109 :: _ =>
    match message with
    | none => (.usage, p)
    | some _ =>
      (.success,
        (p.setReports (sendMessageToDashboard io.message p.reports).2).puts io.stdout)
  | _ => (.usage, p)

end Pod

/-- `argv[0]` is the word that the command was found by. -/
def doBadgerloop (io : CommandIo) (argv : List Word) (p : Pod) : CommandStatus × Pod :=
  match argv with
  | [_, name, value] => p.doKeyword io name value
  | _ :: word :: rest => p.doLetter io word rest.head?
  | _ => (.usage, p)

/-- An input of the main loop, or a line for `do_badgerloop`. -/
inductive ShellInput where
  | loop (i : LoopInput)
  | command (io : CommandIo) (argv : List Word)

def shellStep (p : Pod) : ShellInput → Pod
  | .loop i => loopStep p i
  | .command io argv => (doBadgerloop io argv p).2

/-- The environment of the `application_handler` call that the input stands for, if any. -/
def ShellInput.env? : ShellInput → Option Env
  | .loop (.base (.app env)) => some env
  | _ => none

theorem ShellInput.eq_of_env? {i : ShellInput} {env : Env} (h : i.env? = some env) :
    i = .loop (.base (.app env)) := by
  unfold ShellInput.env? at h
  split at h
  · cases h
    rfl
  · cases h

theorem shellStep_of_env? {p : Pod} {i : ShellInput} {env : Env} (h : i.env? = some env) :
    shellStep p i = p.applicationHandler env := by
  rw [ShellInput.eq_of_env? h]
  rfl

/-! ## On the bench -/

def quietIo : CommandIo := { env := bench 0, message := ⟨.sent, 0⟩, stdout := [] }

def callAt (t : Nat) : ShellInput := .loop (.base (.app (bench t)))

example : keyword telemetryCommands (ascii "bls") = some .brP1 := by decide

end PodFirmware
