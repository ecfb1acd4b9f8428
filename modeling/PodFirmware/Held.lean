import PodFirmware.Aside
import PodFirmware.CmdBadgerloop
import PodFirmware.Periodic

/-!
# PodFirmware.Held

The part of the state that only data acquisition, the accounting of the battery and the console
change: telemetry, configuration, the times of the limit switches and the statics of data
acquisition. The state machine, the telemetry step and console output leave it alone.

* `held_stateMachineHandler`, `held_telemetryStep`, `held_loopStep`: who leaves it alone.
* `doBadgerloop_held`: what a console command can do to it.
-/

namespace PodFirmware

@[ext] structure Held where
  telem : Telemetry
  cfg : Config
  limits : LimitTimes
  statics : DaqState

def Pod.held (p : Pod) : Held where
  telem := p.telem
  cfg := p.cfg
  limits := p.limits
  statics := p.daq.statics

/-! ## `application_handler` -/

theorem aside_held : Aside Pod.held where
  readTicks _ _ _ := rfl
  setReports _ _ := rfl
  printf _ _ _ := rfl
  drive _ _ _ := rfl
  emit _ _ := rfl
  setMarks _ _ _ := rfl
  setHandle _ _ _ := rfl

section Application

variable (env : Env) (p : Pod)

theorem held_stateMachineHandler : (p.stateMachineHandler env).held = p.held :=
  aside_held.stateMachineHandler env p (fun _ _ => rfl) fun _ _ => rfl

theorem besideTelemetry_held : BesideTelemetry Pod.held where
  readTicks _ _ _ := rfl
  setReports _ _ := rfl
  enableIrq _ := rfl
  changeState _ _ := rfl
  setFlag _ := rfl

theorem held_due (rMod rCmp : TickRead) (interval last : UInt32) :
    (p.due env rMod rCmp interval last).2.held = p.held :=
  besideTelemetry_held.due env p rMod rCmp interval last

theorem held_telemetryStep : (p.telemetryStep env).held = p.held :=
  besideTelemetry_held.telemetryStep env p

end Application

/-! ## The console -/

/-- `badgerloop r`, which reads all sensors. -/
def rereads : List CString.Word → Bool
  | [_, _, _] => false
  | _ :: (114 :: _) :: _ => true
  | _ => false

/-- From `h` to `h'` a command of the console was run. -/
inductive ConsoleChange (io : CommandIo) (argv : List CString.Word) (h : Held) : Held → Prop where
  | same : ConsoleChange io argv h h
  | telemetry (v : Int) {f : Field} (hf : f ∈ telemetryCommands.map (·.2)) :
      ConsoleChange io argv h { h with telem := h.telem.set v f }
  | soc (v : UInt32) {name value : CString.Word}
      (hargv : argv = [name, CString.ascii "soc", value]) :
      ConsoleChange io argv h { h with statics := { h.statics with soc := v } }
  | config (c : Config) : ConsoleChange io argv h { h with cfg := c }
  | override (on : Bool) :
      ConsoleChange io argv h { h with statics := { h.statics with manualUpdate := on } }
  | battery (on : Bool) :
      ConsoleChange io argv h { h with statics := { h.statics with charging := on } }
  | update (q : Pod) (hq : q.held = h) (hargv : rereads argv = true) :
      ConsoleChange io argv h (q.badgerloopUpdateData io.env).held

section Console

variable (io : CommandIo) (argv : List CString.Word) (p : Pod)

theorem held_puts (ws : List WriteCall) : (p.puts ws).held = p.held := rfl

theorem held_performance (f : Pod → Pod) : (p.performance f).held = (f p.disableIrq).held := rfl

theorem actuation_held {drive : Bool → Pod → Pod} (h : drive ∈ actuationCommands.map (·.2))
    (on : Bool) : (drive on p).held = p.held := by
  simp only [actuationCommands, List.map_cons, List.map_nil, List.mem_cons, List.not_mem_nil,
    or_false] at h
  rcases h with rfl | rfl | rfl | rfl | rfl | rfl <;> rfl

theorem switch_held {switch : Bool → Pod → Pod} (h : switch ∈ switchCommands.map (·.2))
    (on : Bool) : ConsoleChange io argv p.held (switch on p).held := by
  simp only [switchCommands, List.map_cons, List.map_nil, List.mem_cons, List.not_mem_nil,
    or_false] at h
  rcases h with rfl | rfl | rfl
  · exact .override on
  · exact .battery on
  · exact .config _

theorem doKeyword_held (name keyword value : CString.Word) :
    ConsoleChange io [name, keyword, value] p.held (p.doKeyword io keyword value).2.held := by
  unfold Pod.doKeyword
  split
  · rename_i hf
    exact .telemetry _ (keyword_mem hf)
  split
  · rename_i hsoc
    subst hsoc
    exact .soc _ rfl
  split
  · exact .config _
  split
  · rename_i hdrive
    rw [actuation_held p (keyword_mem hdrive)]
    exact .same
  split
  · split <;> exact .same
  split
  · rename_i hswitch
    split
    · exact switch_held io _ (p.puts io.stdout) (keyword_mem hswitch) true
    split
    · exact switch_held io _ (p.puts io.stdout) (keyword_mem hswitch) false
    · exact .same
  · exact .same

theorem doLetter_held (word : CString.Word) (message : Option CString.Word)
    (hargv : ∀ rest, word = 114 :: rest → rereads argv = true) :
    ConsoleChange io argv p.held (p.doLetter io word message).2.held := by
  unfold Pod.doLetter
  split
  · exact .same
  · rw [held_puts, held_performance]
    exact .same
  · rw [held_puts, held_performance, Pod.sendTelemetryToDashboard,
      besideTelemetry_held.sendTelemetry]
    exact .same
  · rw [held_puts, held_performance, Pod.sendTelemetryToSpaceX,
      besideTelemetry_held.sendTelemetry]
    exact .same
  · exact .same
  · exact .same
  · exact .same
  · rw [held_puts, held_performance]
    exact .update p.disableIrq rfl (hargv _ rfl)
  · split <;> exact .same
  · exact .same

theorem doBadgerloop_held : ConsoleChange io argv p.held (doBadgerloop io argv p).2.held := by
  unfold doBadgerloop
  split
  · exact doKeyword_held io p _ _ _
  · rename_i name word rest hthree
    refine doLetter_held io _ p _ _ ?_
    rintro letters rfl
    cases rest with
    | nil => rfl
    | cons value rest =>
      cases rest with
      | nil => exact (hthree _ rfl).elim
      | cons _ _ => rfl
  · exact .same

theorem doBadgerloop_of_rereads (h : rereads argv = true) : ∃ q : Pod, q.held = p.held ∧
    (doBadgerloop io argv p).2.held = (q.badgerloopUpdateData io.env).held := by
  unfold rereads at h
  split at h
  · cases h
  · rename_i name letters rest hthree
    refine ⟨p.disableIrq, rfl, ?_⟩
    have hletter : doBadgerloop io (name :: (114 :: letters) :: rest) p =
        p.doLetter io (114 :: letters) rest.head? := by
      cases rest with
      | nil => rfl
      | cons value rest =>
        cases rest with
        | nil => exact (hthree _ rfl).elim
        | cons _ _ => rfl
    rw [hletter, Pod.doLetter, held_puts, held_performance]
  · cases h

end Console

/-! ## The rest of the main loop -/

/-- The input neither is a call of `application_handler` nor sets telemetry or the override. -/
def LoopInput.Bystander : LoopInput → Prop
  | .base (.app _) | .base (.telemetry _) | .base (.override _) => False
  | _ => True

theorem held_loopStep (p : Pod) {i : LoopInput} (h : i.Bystander) :
    (loopStep p i).held = p.held := by
  cases i with
  | base j =>
    cases j with
    | app env => exact h.elim
    | link up => rfl
    | telemetry t => exact h.elim
    | override on => exact h.elim
    | state c =>
      show (p.consoleState c).held = p.held
      unfold Pod.consoleState
      split <;> rfl
  | output w => rfl
  | message w => rfl
  | frame w =>
    simp only [loopStep]
    split <;> rfl
  | stdioTarget tar => rfl

end PodFirmware
