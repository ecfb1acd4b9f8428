import PodFirmware.Periodic

/-!
# PodFirmware.Latch

`last_telem_timestamp` is the once-per-tick latch of the telemetry step, and it is the stamp of
every datagram, so a message for the dashboard can use up the tick of a telemetry frame.

* `LoopInput`: what the main loop does, console output included.
* `daqWrites`: what data acquisition prints in a call, the changes of the limit switches.
* `neverSuppressed_iff`: the telemetry step is skipped at its tick exactly when a message of that
  tick came before it.
-/

namespace PodFirmware

/-! ## Console output -/

/-- An input of the state machine, or output of the rest of the main loop: a `_write` call, a
message or a frame sent by a console command, a change of the target of standard output. -/
inductive LoopInput where
  | base (i : Input)
  | output (w : WriteCall)
  | message (w : WriteCall)
  | frame (w : WriteCall)
  | stdioTarget (tar : StdioTarget)

def loopStep (p : Pod) : LoopInput → Pod
  | .base i => step p i
  | .output w => p.setReports (Pod.write p.reports w)
  | .message w => p.setReports (Pod.sendMessageToDashboard w p.reports).2
  | .frame w =>
    if w.result = .noBuffer then p
    else p.setReports { p.reports with lastTelemTimestamp := Tick.reading w.tick }
  | .stdioTarget tar => p.setReports { p.reports with tar := tar }

/-! ## What data acquisition prints -/

/-- The limit switches in the order in which they are sampled: the pin, the bit in `lim_states`, the
message about a change. -/
def limitSwitches : List (InputPin × UInt8 × Print) :=
  [(.g2, Telemetry.blim1, .blim1), (.g3, Telemetry.blim2, .blim2), (.d0, Telemetry.plim1, .plim1),
    (.d1, Telemetry.plim2, .plim2), (.d3, Telemetry.dlim, .dlim)]

def switchWrites (env : Env) (t : Telemetry) (pin : InputPin) (bit : UInt8) (site : Print) :
    List WriteCall :=
  if env.pins pin = t.getLim bit then [] else env.stdout site

def forcedWrites (env : Env) (t : Telemetry) : List WriteCall :=
  limitSwitches.flatMap fun (pin, bit, site) => switchWrites env t pin bit site

/-- The `_write` calls of data acquisition, if it takes place in this call. -/
def daqWrites (env : Env) (p : Pod) : List WriteCall :=
  if Activity.daq.runs env p || p.daq.manualUpdate then forcedWrites env p.telem else []

section Writes

variable (env : Env) (p : Pod)

theorem reports_sampleLimit (pin : InputPin) (bit : UInt8) (r : TickRead) (site : Print)
    (mark : LimitTimes → UInt32 → LimitTimes) :
    (Pod.sampleLimit env pin bit r site mark p).reports =
      (switchWrites env p.telem pin bit site).foldl Pod.write p.reports := by
  unfold Pod.sampleLimit switchWrites
  cases env.pins pin <;> cases p.telem.getLim bit <;> rfl

theorem telem_sampleLimit (pin : InputPin) (bit : UInt8) (r : TickRead) (site : Print)
    (mark : LimitTimes → UInt32 → LimitTimes) :
    (Pod.sampleLimit env pin bit r site mark p).telem = p.telem.putLim bit (env.pins pin) := by
  unfold Pod.sampleLimit
  dsimp only
  split <;> rfl

theorem switchWrites_putLim {t : Telemetry} {pin : InputPin} {bit other : UInt8} {site : Print}
    {v : Bool} (h : other &&& bit = 0) :
    switchWrites env (t.putLim other v) pin bit site = switchWrites env t pin bit site := by
  rw [switchWrites, Telemetry.getLim_putLim_of_disjoint h, switchWrites]

theorem switchWrites_congr {t t' : Telemetry} (h : t'.limStates = t.limStates) (pin : InputPin)
    (bit : UInt8) (site : Print) :
    switchWrites env t' pin bit site = switchWrites env t pin bit site := by
  rw [switchWrites, switchWrites, Telemetry.getLim, Telemetry.getLim, h]

theorem forcedWrites_congr {t t' : Telemetry} (h : t'.limStates = t.limStates) :
    forcedWrites env t' = forcedWrites env t := by
  simp only [forcedWrites, switchWrites_congr env h]

theorem reports_badgerloopForcedData : (Pod.badgerloopForcedData env p).reports =
    (forcedWrites env p.telem).foldl Pod.write p.reports := by
  have hstop : (Pod.stoppingDistance p).telem.limStates = p.telem.limStates := rfl
  have hlim : (Pod.sampleDlim env (Pod.samplePlim2 env (Pod.samplePlim1 env (Pod.sampleBlim2 env
      (Pod.sampleBlim1 env (Pod.stoppingDistance p)))))).reports =
      (forcedWrites env p.telem).foldl Pod.write p.reports := by
    simp only [Pod.sampleDlim, Pod.samplePlim2, Pod.samplePlim1, Pod.sampleBlim2, Pod.sampleBlim1,
      reports_sampleLimit, telem_sampleLimit]
    simp (disch := decide) only [switchWrites_putLim, switchWrites_congr env hstop]
    simp only [forcedWrites, limitSwitches, List.flatMap_cons, List.flatMap_nil, List.append_nil,
      List.foldl_append]
    rfl
  unfold Pod.badgerloopForcedData
  dsimp only
  split <;> exact hlim

theorem reports_daqStep :
    (p.daqStep env).reports = (daqWrites env p).foldl Pod.write p.reports := by
  have hd : ∃ q, (p.due env .daqMod .daqCmp 10 p.daq.lastDaqTimestamp).2 = q ∧
      q.reports = p.reports ∧ q.telem = p.telem := by
    rw [Pod.due_eq]
    split <;> exact ⟨_, rfl, rfl, rfl⟩
  obtain ⟨q, hq, hr, ht⟩ := hd
  rw [daqStep_eq, hq]
  unfold daqWrites
  dsimp only
  by_cases hruns : Activity.daq.runs env p = true
  · obtain ⟨q', hstill, he⟩ := Pod.badgerloopUpdateData_eq env
      ((q.readTicks env .daqSet).setDaq
        { (q.readTicks env .daqSet).daq with lastDaqTimestamp := (q.readTicks env .daqSet).ticks })
    have hlim : q'.telem.limStates = p.telem.limStates := by
      rw [hstill.limStates, ← ht]
      rfl
    rw [if_pos hruns, he, reports_badgerloopForcedData, forcedWrites_congr env hlim,
      hstill.reports, hruns, Bool.true_or, if_pos rfl, ← hr]
    rfl
  · rw [if_neg hruns, Bool.eq_false_iff.mpr hruns, Bool.false_or]
    cases p.daq.manualUpdate with
    | true => rw [if_pos rfl, if_pos rfl, reports_badgerloopForcedData, hr, ht]
    | false => exact hr

end Writes

/-! ## The stamp -/

/-- A message gets a buffer, and is stamped. -/
def stampsTick (r : Reports) (ws : List WriteCall) : Bool :=
  r.tar == .udp && ws.head?.any fun w => w.result != .noBuffer

theorem foldl_write_usbSerial {r : Reports} (h : r.tar = .usbSerial) (ws : List WriteCall) :
    ws.foldl Pod.write r = r := by
  induction ws with
  | nil => rfl
  | cons w ws ih =>
    have hw : Pod.write r w = r := by simp only [Pod.write, h]
    rw [List.foldl_cons, hw, ih]

/-- Of several writes at one tick the first decides: without a buffer the target falls back to the
serial line, and the others stamp nothing. -/
theorem lastTelem_foldl_write {r : Reports} {ws : List WriteCall} {T : UInt32}
    (hT : ∀ w ∈ ws, Tick.reading w.tick = T) :
    (ws.foldl Pod.write r).lastTelemTimestamp = T ↔
      r.lastTelemTimestamp = T ∨ stampsTick r ws = true := by
  induction ws generalizing r with
  | nil => simp [stampsTick]
  | cons w ws ih =>
    have hw : Tick.reading w.tick = T := hT w (by simp)
    rw [List.foldl_cons]
    cases ht : r.tar with
    | usbSerial =>
      have hr : Pod.write r w = r := by simp only [Pod.write, ht]
      rw [hr, foldl_write_usbSerial ht]
      simp [stampsTick, ht]
    | udp =>
      cases hres : w.result with
      | noBuffer =>
        have hr : Pod.write r w = { r with tar := .usbSerial } := by
          simp [Pod.write, Pod.sendMessageToDashboard, ht, hres]
        rw [hr, foldl_write_usbSerial rfl]
        simp [stampsTick, hres]
      | failed =>
        have hr : Pod.write r w = { r with tar := .usbSerial, lastTelemTimestamp := T } := by
          simp [Pod.write, Pod.sendMessageToDashboard, ht, hres, hw]
        rw [hr, foldl_write_usbSerial rfl]
        simp [stampsTick, ht, hres]
      | sent =>
        have hr : Pod.write r w = { r with lastTelemTimestamp := T } := by
          simp [Pod.write, Pod.sendMessageToDashboard, ht, hres, hw]
        rw [hr, ih fun w' hw' => hT w' (by simp [hw'])]
        simp [stampsTick, ht, hres]

/-! ## The telemetry step -/

inductive TelemetryAction where
  | skip | send | noLink
  deriving DecidableEq, Repr

/-- What the telemetry step sets out to do. -/
def telemetryAction (env : Env) (p : Pod) : TelemetryAction :=
  if (p.due env .telemMod .telemCmp 300 p.reports.lastTelemTimestamp).1 then
    if p.linkUp then .send else .noLink
  else .skip

/-- The state in which the telemetry step takes action. -/
def Pod.stampFrame (env : Env) (p : Pod) : Pod :=
  let q :=
    (p.due env .telemMod .telemCmp 300 p.reports.lastTelemTimestamp).2.readTicks env .telemSet
  q.setReports { q.reports with lastTelemTimestamp := q.ticks }

section Action

variable {env : Env} {p : Pod}

theorem linkUp_stampFrame : (p.stampFrame env).linkUp = p.linkUp := by
  unfold Pod.stampFrame
  rw [Pod.due_eq]
  split <;> rfl

theorem telemetryStep_action : p.telemetryStep env =
    match telemetryAction env p with
    | .skip => (p.due env .telemMod .telemCmp 300 p.reports.lastTelemTimestamp).2
    | .send =>
      if (Pod.sendBoth env (p.stampFrame env)).1 then
        Pod.telemetryFault "Sending telemetry failed!" (Pod.sendBoth env (p.stampFrame env)).2
      else (Pod.sendBoth env (p.stampFrame env)).2
    | .noLink =>
      let q := Pod.telemetryFault "No network link!" (p.stampFrame env)
      if hasFlag q.handle.flags powerOn then q.setFlag retryInit else q := by
  have hl : (p.stampFrame env).linkUp = p.linkUp := linkUp_stampFrame
  rw [telemetryStep_eq]
  unfold telemetryAction
  cases hit : (p.due env .telemMod .telemCmp 300 p.reports.lastTelemTimestamp).1 with
  | false => rfl
  | true =>
    cases hup : p.linkUp with
    | true =>
      rw [hup] at hl
      exact if_pos hl
    | false =>
      rw [hup] at hl
      exact if_neg (Bool.eq_false_iff.mp hl)

/-- A skipped step leaves no trace: nothing is sent and nothing is requested. -/
theorem telemetryStep_of_skip (h : telemetryAction env p = .skip) :
    (p.telemetryStep env).reports = p.reports ∧ (p.telemetryStep env).handle = p.handle := by
  rw [telemetryStep_action, h]
  dsimp only
  rw [Pod.due_eq]
  split <;> exact ⟨rfl, rfl⟩

theorem telemetryStep_of_noLink (h : telemetryAction env p = .noLink) :
    pending (p.telemetryStep env).handle = some .fault ∧
      (p.telemetryStep env).reports.faultMessage = "No network link!" := by
  rw [telemetryStep_action, h]
  dsimp only
  split <;> exact ⟨rfl, rfl⟩

theorem telemetryAction_eq_skip_iff {T : Nat} (hmod : env.clock.read .telemMod = T)
    (hcmp : env.clock.read .telemCmp = T) (hT : Tick.reading T % 300 = 0) :
    telemetryAction env p = .skip ↔ p.reports.lastTelemTimestamp = Tick.reading T := by
  have hm : env.ticks .telemMod = Tick.reading T := congrArg Tick.reading hmod
  have hc : env.ticks .telemCmp = Tick.reading T := congrArg Tick.reading hcmp
  unfold telemetryAction
  rw [Pod.due_eq, hm, hc, if_pos hT]
  dsimp only
  by_cases he : p.reports.lastTelemTimestamp = Tick.reading T
  · simp [he]
  · rw [if_pos (by simpa using Ne.symm he)]
    cases p.linkUp <;> simp [he]

end Action

/-! ## Runs -/

/-- The tick does not change during the call. -/
def Env.Constant (env : Env) (T : Nat) : Prop :=
  (∀ r, env.clock.read r = T) ∧ ∀ site, ∀ w ∈ env.stdout site, w.tick = T

/-- `P` holds whenever a frame is due and the step is evaluated for the first time at its tick. -/
def EveryFrame (P : Env → Pod → Nat → Prop) (p : Pod) (is : List LoopInput) : Prop :=
  ∀ pre env post T, is = pre ++ .base (.app env) :: post → env.Constant T →
    (∀ e, .base (.app e) ∈ pre → e.clock.read .telemMod ≠ T) →
    Tick.reading T ≠ 0 → Tick.reading T % 300 = 0 → P env (Machine.run loopStep p pre) T

/-- The step sends its frame or asks for `FAULT`. -/
def NeverSkipped : Pod → List LoopInput → Prop :=
  EveryFrame fun env p _ => telemetryAction env (p.daqStep env) ≠ .skip

/-- A datagram has been stamped with this tick before the call, or data acquisition has one
stamped in the call itself. -/
def Overtaken (env : Env) (p : Pod) (T : Nat) : Prop :=
  p.reports.lastTelemTimestamp = Tick.reading T ∨ stampsTick p.reports (daqWrites env p) = true

theorem mem_daqWrites {env : Env} {p : Pod} {w : WriteCall} (h : w ∈ daqWrites env p) :
    ∃ site, w ∈ env.stdout site := by
  unfold daqWrites at h
  split at h
  · unfold forcedWrites at h
    obtain ⟨⟨pin, bit, site⟩, -, hw⟩ := List.mem_flatMap.mp h
    unfold switchWrites at hw
    dsimp only at hw
    split at hw
    · cases hw
    · exact ⟨site, hw⟩
  · cases h

theorem skipped_iff {env : Env} {p : Pod} {T : Nat} (hc : env.Constant T)
    (hT : Tick.reading T % 300 = 0) :
    telemetryAction env (p.daqStep env) = .skip ↔ Overtaken env p T := by
  have hw : ∀ w ∈ daqWrites env p, Tick.reading w.tick = Tick.reading T := fun w h => by
    obtain ⟨site, hs⟩ := mem_daqWrites h
    rw [hc.2 site w hs]
  rw [telemetryAction_eq_skip_iff (hc.1 _) (hc.1 _) hT, reports_daqStep, lastTelem_foldl_write hw]
  rfl

/-- In every run, no telemetry step is skipped at its first evaluation at a tick if and only if no
message of that tick gets a buffer before it. -/
theorem neverSuppressed_iff (p : Pod) (is : List LoopInput) :
    NeverSkipped p is ↔ EveryFrame (fun env p T => ¬ Overtaken env p T) p is := by
  constructor
  · intro h pre env post T he hc hfirst h0 hT hover
    exact h pre env post T he hc hfirst h0 hT ((skipped_iff hc hT).mpr hover)
  · intro h pre env post T he hc hfirst h0 hT hskip
    exact h pre env post T he hc hfirst h0 hT ((skipped_iff hc hT).mp hskip)

/-- A limit switch changes at 300 ms, and standard output goes to the dashboard. -/
theorem frame_suppressed : ¬ NeverSkipped boot
    [.stdioTarget .udp, .base (.app { bench 300 with stdout := fun _ => [⟨.sent, 300⟩] })] := by
  intro h
  refine h [.stdioTarget .udp] _ [] 300 rfl ⟨fun _ => rfl, fun _ w hw => ?_⟩ (by simp) (by decide)
    (by decide) (by decide +kernel)
  rw [List.mem_singleton.mp hw]

end PodFirmware
