import PodFirmware.Application
import PodFirmware.Call

/-!
# PodFirmware.IdleCheck

The check before a run. `in_idle` passes the readings through `verify_DAQ`, which reports the first
that is out of band as a fault, in place of any request that is pending.

* `readings`: the nine readings as integers, each with its band.
* `find?_daqChecks`: the C comparisons find the first reading that is out of band.
* `idle_check`: what a call in `IDLE` makes of the readings and of a pending request.
-/

namespace PodFirmware

/-! ## Bands -/

structure Reading where
  value : Int
  lower : Int
  upper : Int
  deriving DecidableEq, Repr

def Reading.Outside (r : Reading) : Prop := r.value < r.lower ∨ r.upper < r.value

instance : DecidablePred Reading.Outside := fun r =>
  inferInstanceAs (Decidable (r.value < r.lower ∨ r.upper < r.value))

/-- What `verify_DAQ` looks at, in its order. -/
def readings (t : Telemetry) : List Reading :=
  [⟨t.vBatt.toInt, 10500, 14500⟩, ⟨t.iBatt.toInt, 0, 13000⟩, ⟨t.tBatt.toInt, 150, 400⟩,
    ⟨t.brP1.toNat, 100, 150⟩, ⟨t.brP2.toNat, 100, 150⟩, ⟨t.brP3.toNat, 0, 40⟩,
    ⟨t.acceleration.toInt, -100, 100⟩, ⟨t.velocity.toInt, -5, 5⟩, ⟨t.position.toInt, 0, 0⟩]

/-- The first reading that is out of band. -/
def offending (t : Telemetry) : Option Reading := (readings t).find? (·.Outside)

/-- The check `c` is about the reading `r`. -/
def Judges (c : Bool × String × Int32) (r : Reading) : Prop :=
  (c.1 = true ↔ r.Outside) ∧ c.2.2.toInt = r.value

section Bands

variable {t : Telemetry}

theorem outOfRange_iff (x upper lower : Int32) : outOfRange x upper lower = true ↔
    x.toInt < lower.toInt ∨ upper.toInt < x.toInt := by
  rw [outOfRange, Bool.or_eq_true, decide_eq_true_eq, decide_eq_true_eq, gt_iff_lt,
    Int32.lt_iff_toInt_lt, Int32.lt_iff_toInt_lt, or_comm]

theorem judges_of_int (x upper lower : Int32) (message : String) :
    Judges (outOfRange x upper lower, message, x) ⟨x.toInt, lower.toInt, upper.toInt⟩ :=
  ⟨outOfRange_iff x upper lower, rfl⟩

theorem judges_of_u16 (x : UInt16) (upper lower : Int32) (message : String) :
    Judges (outOfRange (CInt.ofU16 x) upper lower, message, CInt.ofU16 x)
      ⟨x.toNat, lower.toInt, upper.toInt⟩ := by
  have h := judges_of_int (CInt.ofU16 x) upper lower message
  rwa [CInt.toInt_ofU16] at h

theorem judges_daqChecks (t : Telemetry) :
    List.Forall₂ Judges (Pod.daqChecks t) (readings t) := by
  unfold Pod.daqChecks readings Pod.brakePressureOut
  refine .cons (judges_of_int _ 14500 10500 _) <| .cons (judges_of_int _ 13000 0 _) <|
    .cons (judges_of_int _ 400 150 _) <| .cons (judges_of_u16 _ 150 100 _) <|
    .cons (judges_of_u16 _ 150 100 _) <| .cons (judges_of_u16 _ 40 0 _) <|
    .cons (judges_of_int _ 100 (-100) _) <| .cons (judges_of_int _ 5 (-5) _) <|
    .cons (judges_of_int _ 0 0 _) .nil

/-- The checks stop where the readings leave their bands. -/
theorem find?_judges {cs : List (Bool × String × Int32)} {rs : List Reading}
    (h : List.Forall₂ Judges cs rs) :
    (cs.find? (·.1)).map (·.2.2.toInt) = (rs.find? (·.Outside)).map (·.value) := by
  induction h with
  | nil => rfl
  | @cons c r _ _ hc _ ih =>
    by_cases hout : r.Outside
    · rw [List.find?_cons_of_pos (hc.1.mpr hout), List.find?_cons_of_pos (by simpa using hout)]
      exact congrArg some hc.2
    · rw [List.find?_cons_of_neg (mt hc.1.mp hout), List.find?_cons_of_neg (by simpa using hout)]
      exact ih

theorem find?_daqChecks : ((Pod.daqChecks t).find? (·.1)).map (·.2.2.toInt) =
    (offending t).map (·.value) := find?_judges (judges_daqChecks t)

theorem daqInRange_iff : daqInRange t = true ↔ offending t = none := by
  have h := congrArg Option.isNone (find?_daqChecks (t := t))
  simp only [Option.isNone_map] at h
  rw [← Option.isNone_iff_eq_none, ← h]
  simp [daqInRange]

end Bands

/-! ## The call -/

namespace Pod

/-- The second half of a call, for the request `ask`. -/
def dispatch (env : Env) (ask : Option StateName) (q : Pod) : Pod :=
  match ask with
  | none => q
  | some s => if q.handle.currState = s then q.taken else switchTo env s q.taken

variable (env : Env) (p q : Pod)

theorem stateMachineHandler_dispatch :
    stateMachineHandler env p = (runIn env p).dispatch env (pending (runIn env p).handle) := by
  rw [stateMachineHandler_eq, pending]
  cases (runIn env p).handle.changeState <;> rfl

/-- `IDLE` has nothing to undo, and `FAULT` nothing to do after it. -/
theorem switchTo_fault_of_idle (h : q.handle.currState = .idle) :
    (switchTo env .fault q).handle.currState = q.handle.nextState ∧
      (switchTo env .fault q).handle.changeState = q.handle.changeState ∧
      (switchTo env .fault q).reports = q.reports := by
  unfold switchTo
  rw [h]
  exact ⟨rfl, rfl, rfl⟩

/-- `in_idle` blames the first value that fails, if there is one. -/
theorem badValue_inIdle {flags : UInt32} (hover : hasFlag flags runOver = false) :
    (inIdle env flags q).reports.badValue =
      (((daqChecks q.telem).find? (·.1)).map (·.2.2)).getD q.reports.badValue := by
  have htelem : (idlePowerOn q).telem = q.telem := (idlePowerOn_does env q).telem
  have hreports : (idlePowerOn q).reports = q.reports := by
    simp only [idlePowerOn, ventThrusters, ventSecondaryBrakes, ventPrimaryBrakes, thrusters,
      secondaryBrakes, primaryBrakes, clearFlag, setHandle_reports, drive_reports]
  have hverify (r : Pod) : (verifyDaq env r).2.reports.badValue =
      (((daqChecks r.telem).find? (·.1)).map (·.2.2)).getD r.reports.badValue := by
    unfold verifyDaq
    cases (daqChecks r.telem).find? (·.1) <;> rfl
  unfold inIdle
  rw [hover]
  dsimp only
  rw [if_neg (by decide), hverify]
  split
  · rw [htelem, hreports]
  · rfl

theorem badValue_runIn (hidle : p.handle.currState = .idle) (hfires : fires env p = true)
    (hover : hasFlag p.handle.flags runOver = false) : (runIn env p).reports.badValue =
      (((daqChecks p.telem).find? (·.1)).map (·.2.2)).getD p.reports.badValue := by
  obtain ⟨r, ts, he, -⟩ := checkInterval_spec env p
  unfold runIn
  dsimp only
  rw [he, hfires, hidle]
  exact badValue_inIdle env _ hover

end Pod

/-- Nothing is asked for beside what was pending. -/
theorem changeState_of_pending {h h' : StateHandle} (hp : pending h' = pending h) :
    h'.changeState = h.changeState := by
  have hsome (k : StateHandle) : (pending k).isSome = k.changeState := by
    unfold pending
    cases k.changeState <;> rfl
  rw [← hsome, ← hsome, hp]

section Check

variable {env : Env} {p : Pod}

theorem fires_of_checkInterval (hidle : p.handle.currState = .idle)
    (hfires : (p.checkInterval env .idle).1 = true) : fires env p = true := by
  rw [← Pod.checkInterval_fst, hidle]
  exact hfires

theorem runIn_of_idle (hidle : p.handle.currState = .idle) (hf : fires env p = true)
    (hover : hasFlag p.handle.flags runOver = false) :
    Does env p (p.runIn env) (if daqInRange p.telem then none else some .fault)
      (inLog env p) := by
  obtain ⟨hin, -⟩ := Pod.runIn_spec env p
  have hdemand : demand env p .idle = if daqInRange p.telem then none else some .fault := by
    simp only [demand, hover]
    cases daqInRange p.telem <;> rfl
  rw [if_pos hf, hidle, hdemand] at hin
  exact hin

/-- A reading out of band overrides whatever is pending. -/
theorem fault_of_offending (hidle : p.handle.currState = .idle) (hf : fires env p = true)
    (hover : hasFlag p.handle.flags runOver = false) {r : Reading}
    (ho : offending p.telem = some r) :
    (p.stateMachineHandler env).handle.currState = .fault ∧
      pending (p.stateMachineHandler env).handle = none ∧
      (p.stateMachineHandler env).reports.badValue.toInt = r.value := by
  have hin := runIn_of_idle hidle hf hover
  have hr : daqInRange p.telem = false := by
    rw [← Bool.not_eq_true, daqInRange_iff, ho]
    exact Option.some_ne_none r
  rw [hr, if_neg (by decide)] at hin
  have hpend : pending (p.runIn env).handle = some .fault := by
    rw [hin.request]
    rfl
  have hnext : (p.runIn env).handle.nextState = .fault := hin.nextState
  have hcurr : (p.runIn env).taken.handle.currState = .idle := hin.currState.trans hidle
  obtain ⟨hs, hc, hrep⟩ := Pod.switchTo_fault_of_idle env (p.runIn env).taken hcurr
  have hcall : p.stateMachineHandler env = Pod.switchTo env .fault (p.runIn env).taken := by
    rw [Pod.stateMachineHandler_dispatch, hpend]
    exact if_neg (by rw [show (p.runIn env).handle.currState = .idle from hcurr]; decide)
  rw [hcall, hs, pending, hc, hrep]
  refine ⟨hnext, rfl, ?_⟩
  show (p.runIn env).reports.badValue.toInt = r.value
  have hvalue := find?_daqChecks (t := p.telem)
  rw [ho] at hvalue
  obtain ⟨c, hfind, hcv⟩ := Option.map_eq_some_iff.mp hvalue
  rw [Pod.badValue_runIn env p hidle hf hover, hfind]
  exact hcv

/-- With all readings in band `in_idle` neither asks for a state nor blames a value. -/
theorem dispatch_of_inBand (hidle : p.handle.currState = .idle) (hf : fires env p = true)
    (hover : hasFlag p.handle.flags runOver = false) (ho : offending p.telem = none) :
    (p.runIn env).handle.nextState = p.handle.nextState ∧
      (p.runIn env).handle.changeState = p.handle.changeState ∧
      (p.runIn env).reports.badValue = p.reports.badValue ∧
      p.stateMachineHandler env = (p.runIn env).dispatch env (pending p.handle) := by
  have hin := runIn_of_idle hidle hf hover
  rw [daqInRange_iff.mpr ho, if_pos rfl] at hin
  have hfind : (Pod.daqChecks p.telem).find? (·.1) = none := by
    have hvalue := find?_daqChecks (t := p.telem)
    rw [ho] at hvalue
    exact Option.map_eq_none_iff.mp hvalue
  have hpend : pending (p.runIn env).handle = pending p.handle := by
    rw [hin.request]
    rfl
  refine ⟨hin.nextState, changeState_of_pending hpend, ?_, ?_⟩
  · rw [Pod.badValue_runIn env p hidle hf hover, hfind]
    rfl
  · rw [Pod.stateMachineHandler_dispatch, hpend]

end Check

/-- In `IDLE`, when the interval has passed and the run is not over: the first reading that is out
of band makes a fault and is remembered, whatever is pending; if none is, the pending request stays
as it is and is carried out. -/
theorem idle_check (env : Env) (p : Pod) (hidle : p.handle.currState = .idle)
    (hfires : (p.checkInterval env .idle).1 = true)
    (hover : hasFlag p.handle.flags runOver = false) :
    (∀ r, offending p.telem = some r →
      (p.stateMachineHandler env).handle.currState = .fault ∧
        pending (p.stateMachineHandler env).handle = none ∧
        (p.stateMachineHandler env).reports.badValue.toInt = r.value) ∧
    (offending p.telem = none →
      (p.runIn env).handle.nextState = p.handle.nextState ∧
        (p.runIn env).handle.changeState = p.handle.changeState ∧
        (p.runIn env).reports.badValue = p.reports.badValue ∧
        p.stateMachineHandler env = (p.runIn env).dispatch env (pending p.handle)) := by
  have hf := fires_of_checkInterval hidle hfires
  exact ⟨fun _ ho => fault_of_offending hidle hf hover ho,
    fun ho => dispatch_of_inBand hidle hf hover ho⟩

/-- A pod with the request for `READY`, and the readings of a charged battery and closed valves. -/
def armed (position : Int32) : Pod :=
  { boot with
    handle := { boot.handle with nextState := .ready, changeState := true }
    telem := { vBatt := 13000, iBatt := 500, tBatt := 250, brP1 := 120, brP2 := 120, position } }

/-- A centimetre behind the start is enough for a fault; at the start the pod gets ready. -/
theorem idle_check_armed :
    ((armed (-1)).stateMachineHandler (bench 100)).handle.currState = .fault ∧
      ((armed (-1)).stateMachineHandler (bench 100)).reports.badValue.toInt = -1 ∧
      ((armed 0).stateMachineHandler (bench 100)).handle.currState = .ready := by
  have hout : offending (armed (-1)).telem = some ⟨-1, 0, 0⟩ := by decide +kernel
  have hin : offending (armed 0).telem = none := by decide +kernel
  obtain ⟨hfault, -, hvalue⟩ :=
    (idle_check (bench 100) (armed (-1)) rfl (by decide +kernel) (by decide +kernel)).1 _ hout
  obtain ⟨-, -, -, hdispatch⟩ :=
    (idle_check (bench 100) (armed 0) rfl (by decide +kernel) (by decide +kernel)).2 hin
  refine ⟨hfault, hvalue, ?_⟩
  rw [hdispatch]
  decide +kernel

end PodFirmware
