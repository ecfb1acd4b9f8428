import PodFirmware.CmdBadgerloop
import PodFirmware.History

/-!
# PodFirmware.Apart

What the main loop leaves alone outside of `application_handler`: its other inputs and the commands
of the console write telemetry, configuration, reports and the statics of data acquisition, request
a state and drive the actuators. A part of the state that none of these touches (`Apart`) is the
same after such a step.
-/

namespace PodFirmware

/-- The part `g` of the state has nothing to do with what the console and its like change. -/
structure Apart {α : Type} (g : Pod → α) : Prop where
  readTicks : ∀ p env r, g (p.readTicks env r) = g p
  setReports : ∀ p r, g (p.setReports r) = g p
  setDaq : ∀ p d, g (p.setDaq d) = g p
  setTelem : ∀ p t, g (p.setTelem t) = g p
  setConfig : ∀ p c, g (p.setConfig c) = g p
  changeState : ∀ p s, g (p.changeState s) = g p
  drive : ∀ p ev f, ev.isCommand = true → g (p.drive ev f) = g p
  update : ∀ env p, g (Pod.badgerloopUpdateData env p) = g p

namespace Apart

variable {α : Type} {g : Pod → α} (hg : Apart g) (p : Pod)

include hg

theorem puts (ws : List WriteCall) : g (p.puts ws) = g p :=
  (hg.setDaq _ _).trans (hg.setReports p _)

theorem performance {f : Pod → Pod} (hf : ∀ q, g (f q) = g q) : g (p.performance f) = g p :=
  (hg.setDaq _ _).trans <| (hf _).trans (hg.setDaq p _)

theorem sendTelemetry (env : Env) (result : SendResult) (r : TickRead) :
    g (Pod.sendTelemetry env result r p).2 = g p := by
  rcases Pod.sendTelemetry_changes env result r p with h | ⟨x, h⟩ <;> rw [h]
  exact (hg.setReports _ x).trans <| (hg.readTicks _ env r).trans (hg.setDaq p _)

theorem actuation {drive : Bool → Pod → Pod} (h : drive ∈ actuationCommands.map (·.2))
    (on : Bool) : g (drive on p) = g p := by
  simp only [actuationCommands, List.map_cons, List.map_nil, List.mem_cons, List.not_mem_nil,
    or_false] at h
  rcases h with rfl | rfl | rfl | rfl | rfl | rfl <;> exact hg.drive p _ _ rfl

theorem switch {switch : Bool → Pod → Pod} (h : switch ∈ switchCommands.map (·.2)) (on : Bool) :
    g (switch on p) = g p := by
  simp only [switchCommands, List.map_cons, List.map_nil, List.mem_cons, List.not_mem_nil,
    or_false] at h
  rcases h with rfl | rfl | rfl
  · exact hg.setDaq p _
  · exact hg.setDaq p _
  · exact hg.setConfig p _

theorem doKeyword (io : CommandIo) (name value : CString.Word) :
    g (p.doKeyword io name value).2 = g p := by
  unfold Pod.doKeyword
  split
  · exact hg.setTelem p _
  split
  · exact hg.setDaq p _
  split
  · exact hg.setConfig p _
  split
  · rename_i hdrive
    exact hg.actuation p (keyword_mem hdrive) _
  split
  · split
    · exact hg.changeState p _
    · rfl
  split
  · rename_i hswitch
    split
    · exact (hg.switch _ (keyword_mem hswitch) _).trans (hg.puts p _)
    split
    · exact (hg.switch _ (keyword_mem hswitch) _).trans (hg.puts p _)
    · rfl
  · rfl

theorem doLetter (io : CommandIo) (word : CString.Word) (message : Option CString.Word) :
    g (p.doLetter io word message).2 = g p := by
  unfold Pod.doLetter
  split
  · exact (hg.puts _ _).trans (hg.setReports p _)
  · exact (hg.puts _ _).trans (hg.performance p fun q => rfl)
  · exact (hg.puts _ _).trans (hg.performance p fun q => hg.sendTelemetry q _ _ _)
  · exact (hg.puts _ _).trans (hg.performance p fun q => hg.sendTelemetry q _ _ _)
  · exact hg.puts p _
  · exact hg.puts p _
  · exact hg.puts p _
  · exact (hg.puts _ _).trans (hg.performance p (hg.update io.env))
  · split
    · rfl
    · exact (hg.puts _ _).trans (hg.setReports p _)
  · rfl

theorem doBadgerloop (io : CommandIo) (argv : List CString.Word) :
    g (doBadgerloop io argv p).2 = g p := by
  unfold PodFirmware.doBadgerloop
  split
  · exact hg.doKeyword p io _ _
  · exact hg.doLetter p io _ _
  · rfl

/-- Any step but a call; `hlink` is about the parts that the link belongs to. -/
theorem shellStep {i : ShellInput} (hi : i.env? = none)
    (hlink : ∀ up, i = .loop (.base (.link up)) → g { p with linkUp := up } = g p) :
    g (shellStep p i) = g p := by
  cases i with
  | command io argv => exact hg.doBadgerloop p io argv
  | loop j =>
    cases j with
    | base k =>
      cases k with
      | app env => cases hi
      | link up => exact hlink up rfl
      | telemetry t => exact hg.setTelem p t
      | override on => exact hg.setDaq p _
      | state c =>
        show g (p.consoleState c) = g p
        unfold Pod.consoleState
        split <;> first | exact hg.changeState p _ | rfl
    | output w => exact hg.setReports p _
    | message w => exact hg.setReports p _
    | frame w =>
      simp only [PodFirmware.shellStep, loopStep]
      split
      · rfl
      · exact hg.setReports p _
    | stdioTarget tar => exact hg.setReports p _

end Apart

end PodFirmware
