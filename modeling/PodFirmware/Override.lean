import PodFirmware.CmdBadgerloop

/-!
# PodFirmware.Override

Sensor data set by the console. While data acquisition is stopped, `application_handler` still
calls `badgerloop_forced_data`, which leaves alone what the console can set, but for the stopping
distance.

* `get_applicationHandler`: a field that the console can set, after a call.
* `override_persists_iff`: when it keeps its value.
-/

namespace PodFirmware

open CString

def consoleFields : List Field := telemetryCommands.map (·.2)

/-! ## One call -/

theorem Forced.get {t t' : Telemetry} (h : Forced t t') {f : Field} (hf : f ∈ consoleFields) :
    t'.get f = t.get f := by
  simp only [consoleFields, telemetryCommands, List.map_cons, List.map_nil, List.mem_cons,
    List.not_mem_nil, or_false] at hf
  rcases hf with rfl | rfl | rfl | rfl | rfl | rfl | rfl | rfl | rfl | rfl
  · exact congrArg Int32.toInt h.acceleration
  · exact congrArg Int32.toInt h.position
  · exact congrArg Int32.toInt h.velocity
  · exact congrArg (fun x : UInt32 => (x.toNat : Int)) h.sCount
  · exact congrArg (fun x : UInt16 => (x.toNat : Int)) h.brP1
  · exact congrArg (fun x : UInt16 => (x.toNat : Int)) h.brP2
  · exact congrArg (fun x : UInt16 => (x.toNat : Int)) h.brP3
  · exact congrArg (fun x : UInt16 => (x.toNat : Int)) h.prP1
  · exact congrArg (fun x : UInt16 => (x.toNat : Int)) h.prP2
  · exact congrArg Int32.toInt h.stoppingDistance

section Call

variable (env : Env) (p : Pod)

theorem besideTelemetry_telem : BesideTelemetry Pod.telem where
  readTicks _ _ _ := rfl
  setReports _ _ := rfl
  enableIrq _ := rfl
  changeState _ _ := rfl
  setFlag _ := rfl

theorem get_battStep {f : Field} (hf : f ∈ consoleFields) :
    (p.battStep env).telem.get f = p.telem.get f := by
  have hd := besideTelemetry_telem.due env p .battMod .battCmp 1000 p.daq.lastBattTimestamp
  have hother (t : Telemetry) (a b : UInt32) :
      ({ t with percentage := a, timeRemaining := b } : Telemetry).get f = t.get f := by
    revert hf
    cases f <;> first | exact fun _ => rfl | exact fun hf => absurd hf (by decide)
  unfold Pod.battStep
  generalize p.due env .battMod .battCmp 1000 p.daq.lastBattTimestamp = r at hd
  obtain ⟨hit, q⟩ := r
  dsimp only at hd ⊢
  split
  · rw [Pod.setTelem_telem, hother]
    exact congrArg (Telemetry.get · f) hd
  · rw [hd]

theorem manualUpdate_applicationHandler :
    (p.applicationHandler env).daq.manualUpdate = p.daq.manualUpdate := by
  have hdaq : (p.daqStep env).stamps.manualUpdate = p.stamps.manualUpdate := by
    rcases stamps_daqStep env p with e | e <;> rw [e]
  have htelem := congrArg Stamps.manualUpdate (stamps_telemetryStep env (p.daqStep env))
  have hbatt : (p.beforeHandler env).stamps.manualUpdate = p.stamps.manualUpdate := by
    unfold Pod.beforeHandler
    rcases stamps_battStep env ((p.daqStep env).telemetryStep env) with e | e <;> rw [e] <;>
      exact htelem.trans hdaq
  have hrun : (Pod.runIn env (p.beforeHandler env)).stamps.manualUpdate =
      p.stamps.manualUpdate := by
    rcases stamps_runIn env (p.beforeHandler env) with e | e <;> rw [e] <;> exact hbatt
  have hhandler := stamps_stateMachineHandler env (p.beforeHandler env)
  exact (congrArg Stamps.manualUpdate hhandler).trans hrun

/-- Under the override a call recomputes the stopping distance, and nothing else that the console
can set. -/
theorem get_applicationHandler (hm : p.daq.manualUpdate = true) {f : Field}
    (hf : f ∈ consoleFields) :
    (p.applicationHandler env).telem.get f = (Pod.stoppingDistance p).telem.get f := by
  have hstate := (Pod.stateMachineHandler_call env (p.beforeHandler env)).telem
  have hbatt := get_battStep env ((p.daqStep env).telemetryStep env) hf
  have htelem := congrArg (Telemetry.get · f) 
    (besideTelemetry_telem.telemetryStep env (p.daqStep env))
  have hdaq : (p.daqStep env).telem.get f = (Pod.stoppingDistance p).telem.get f := by
    have hruns : Activity.daq.runs env p = false := by
      have hover : Activity.daq.overridden p = true := hm
      show (_ && !Activity.daq.overridden p) = false
      rw [hover, Bool.not_true, Bool.and_false]
    rw [daqStep_eq, hruns, if_neg (by decide), if_pos hm]
    refine (Pod.badgerloopForcedData_forced env _).get hf |>.trans ?_
    rw [Pod.due_eq]
    split <;> rfl
  exact (congrArg (Telemetry.get · f) hstate).trans (hbatt.trans (htelem.trans hdaq))

end Call

theorem get_stoppingDistance_of_ne (p : Pod) {f : Field} (h : f ≠ .stoppingDistance) :
    (Pod.stoppingDistance p).telem.get f = p.telem.get f := by
  revert h
  cases f <;> first | exact fun _ => rfl | exact fun h => absurd rfl h

/-! ## Runs -/

/-- Only `application_handler` may touch the field or the override. -/
def Spares (f : Field) (p : Pod) (i : ShellInput) : Prop :=
  i.env? = none → (shellStep p i).telem.get f = p.telem.get f ∧
    (shellStep p i).daq.manualUpdate = p.daq.manualUpdate

def Keeps (f : Field) (v : Int) (p : Pod) (i : ShellInput) : Prop := (shellStep p i).telem.get f = v

/-- The field is not the stopping distance, or the one that a call computes is `v` again. -/
def Recomputes (f : Field) (v : Int) (p : Pod) (i : ShellInput) : Prop :=
  i.env?.isSome → f = .stoppingDistance →
    (Pod.stoppingDistance p).telem.stoppingDistance.toInt = v

/-- The value is stored, and data acquisition is stopped. -/
structure Holds (f : Field) (v : Int) (p : Pod) : Prop where
  value : p.telem.get f = v
  manualUpdate : p.daq.manualUpdate = true

theorem Holds.keeps_iff {f : Field} {v : Int} {p : Pod} {i : ShellInput} (h : Holds f v p)
    (hf : f ∈ consoleFields) (hs : Spares f p i) : Keeps f v p i ↔ Recomputes f v p i := by
  unfold Keeps Recomputes
  cases hi : i.env? with
  | none => simp [(hs hi).1, h.value]
  | some env =>
    rw [shellStep_of_env? hi, get_applicationHandler env p h.manualUpdate hf]
    by_cases hstop : f = .stoppingDistance
    · subst hstop
      simp [Telemetry.get]
    · simp [get_stoppingDistance_of_ne p hstop, h.value, hstop]

theorem manualUpdate_shellStep {f : Field} {p : Pod} {i : ShellInput} (hs : Spares f p i) :
    (shellStep p i).daq.manualUpdate = p.daq.manualUpdate := by
  cases hi : i.env? with
  | none => exact (hs hi).2
  | some env =>
    rw [shellStep_of_env? hi]
    exact manualUpdate_applicationHandler env p

theorem Holds.step {f : Field} {v : Int} {p : Pod} {i : ShellInput} (h : Holds f v p)
    (hf : f ∈ consoleFields) (hs : Spares f p i) (hr : Recomputes f v p i) :
    Holds f v (shellStep p i) :=
  ⟨(h.keeps_iff hf hs).mpr hr, (manualUpdate_shellStep hs).trans h.manualUpdate⟩

/-- `badgerloop override on`, and then `badgerloop <name> <value>`. -/
def setUnderOverride (io io' : CommandIo) (name value : Word) (p : Pod) : Pod :=
  (doBadgerloop io' [ascii "badgerloop", name, value]
    (doBadgerloop io [ascii "badgerloop", ascii "override", ascii "on"] p).2).2

theorem setUnderOverride_holds (io io' : CommandIo) (name value : Word) (p : Pod) {f : Field}
    (h : keyword telemetryCommands name = some f) :
    Holds f (f.kind.truncate (fieldValue f value)) (setUnderOverride io io' name value p) := by
  have hon : (doBadgerloop io [ascii "badgerloop", ascii "override", ascii "on"]
      p).2.daq.manualUpdate = true := rfl
  unfold setUnderOverride
  generalize (doBadgerloop io [ascii "badgerloop", ascii "override", ascii "on"] p).2 = q at hon
  have hset : doBadgerloop io' [ascii "badgerloop", name, value] q =
      (.success, q.setTelem (q.telem.set (fieldValue f value) f)) := by
    show q.doKeyword io' name value = _
    unfold Pod.doKeyword
    rw [h]
  rw [hset]
  exact ⟨Telemetry.get_set_self _ _ _, hon⟩

/-- In every run after the two commands, a field keeps its value up to the first call that computes
another stopping distance, if that is the field. -/
theorem override_persists_iff (io io' : CommandIo) (name value : Word) (f : Field) (p : Pod)
    (is : List ShellInput) (h : keyword telemetryCommands name = some f)
    (hs : Machine.Always shellStep (Spares f) (setUnderOverride io io' name value p) is) :
    let p' := setUnderOverride io io' name value p
    let v := f.kind.truncate (fieldValue f value)
    p'.telem.get f = v ∧
      (Machine.Always shellStep (Keeps f v) p' is ↔
        Machine.Always shellStep (Recomputes f v) p' is) := by
  have hf : f ∈ consoleFields := keyword_mem h
  have hset := setUnderOverride_holds io io' name value p h
  exact ⟨hset.value, Machine.always_iff_of_preserved (fun _ _ hq hi hr => hq.step hf hi hr)
    (fun _ _ hq hi => hq.keeps_iff hf hi) hset hs⟩

theorem spares_callAt (f : Field) (p : Pod) (t : Nat) : Spares f p (callAt t) := by
  rintro ⟨⟩

/-- A velocity that the console has set is still there two calls later. -/
theorem velocity_persists : Machine.Always shellStep (Keeps .velocity 1500)
    (setUnderOverride quietIo quietIo (ascii "velocity") (ascii "1500") boot)
    [callAt 10, callAt 20] := by
  have hv : Field.velocity.kind.truncate (fieldValue .velocity (ascii "1500")) = 1500 := by decide
  have h := override_persists_iff quietIo quietIo (ascii "velocity") (ascii "1500") .velocity boot
    [callAt 10, callAt 20] (by decide) ⟨spares_callAt _ _ 10, spares_callAt _ _ 20, trivial⟩
  dsimp only at h
  rw [hv] at h
  exact h.2.mpr ⟨fun _ hf => absurd hf (by decide), fun _ hf => absurd hf (by decide), trivial⟩

/-- A stopping distance is gone after one call. -/
theorem stopd_overwritten :
    let p := setUnderOverride quietIo quietIo (ascii "stopd") (ascii "500") boot
    p.telem.get .stoppingDistance = 500 ∧
      (shellStep p (callAt 15)).telem.get .stoppingDistance = 125000 ∧
      ¬ ∀ io io' name value f p is, keyword telemetryCommands name = some f →
        Machine.Always shellStep (Spares f) (setUnderOverride io io' name value p) is →
        Machine.Always shellStep (Keeps f (f.kind.truncate (fieldValue f value)))
          (setUnderOverride io io' name value p) is := by
  have hname : keyword telemetryCommands (ascii "stopd") = some .stoppingDistance := by decide
  have hset := setUnderOverride_holds quietIo quietIo _ (ascii "500") boot hname
  have hv : Field.stoppingDistance.kind.truncate (fieldValue .stoppingDistance (ascii "500")) =
      500 := by decide
  have hcall : (shellStep (setUnderOverride quietIo quietIo (ascii "stopd") (ascii "500") boot)
      (callAt 15)).telem.get .stoppingDistance = 125000 := by decide +kernel
  refine ⟨hset.value.trans hv, hcall, fun h => ?_⟩
  have hkeep := (h quietIo quietIo (ascii "stopd") (ascii "500") .stoppingDistance boot [callAt 15]
    hname ⟨spares_callAt _ _ 15, trivial⟩).1
  rw [Keeps, hcall, hv] at hkeep
  omega

end PodFirmware
