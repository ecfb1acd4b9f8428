import PodFirmware.Apart

/-!
# PodFirmware.Retry

`RETRY_INIT`, which lets `in_fault` return to `IDLE` once the link appears. The telemetry step
raises it when it finds the link down while `POWER_ON` is still set, and `in_idle` clears
`POWER_ON` on a schedule of its own.

* `flags_stateMachineHandler`: the flags after a call of the state machine.
* `Waiting`: what holds until the link is looked at for the first time, with the link down.
* `retry_iff`: `RETRY_INIT` is set exactly when `in_idle` has not run by then.
-/

namespace PodFirmware

/-! ## Flags -/

namespace Pod

variable (env : Env) (p : Pod)

/-- The flags after the periodic handler of a state. -/
def flagsAfter : StateName → UInt32
  | .fault =>
    if hasFlag p.handle.flags retryInit && p.linkUp then p.handle.flags &&& ~~~retryInit
    else p.handle.flags
  | .idle =>
    if hasFlag p.handle.flags powerOn then p.handle.flags &&& ~~~powerOn else p.handle.flags
  | _ => p.handle.flags

theorem flags_inIdle : (inIdle env p.handle.flags p).handle.flags = p.flagsAfter .idle := by
  have hp : (if hasFlag p.handle.flags powerOn then idlePowerOn p else p).handle.flags =
      p.flagsAfter .idle := by
    unfold flagsAfter
    split <;> rfl
  have hrun (q : Pod) : (idleRunOver env q).handle.flags = q.handle.flags := rfl
  have hdaq (q : Pod) : (verifyDaq env q).2.handle.flags = q.handle.flags := by
    unfold verifyDaq
    split <;> rfl
  unfold inIdle
  dsimp only
  split
  · exact (hrun _).trans hp
  · exact (hdaq _).trans hp

theorem flags_inPushing : (inPushing env p).handle.flags = p.handle.flags := by
  have he : (endPush env p).handle.flags = p.handle.flags := by
    unfold endPush
    split
    · dsimp only
      split <;> rfl
    · rfl
  unfold inPushing mustBrake
  dsimp only
  split <;> exact he

theorem flags_inCoast : (inCoast env p).handle.flags = p.handle.flags := by
  have hc : (checkDistance env p).handle.flags = p.handle.flags := by
    unfold checkDistance
    split
    · rfl
    · split <;> rfl
  have hm : (mustBrake env .coastMust (checkDistance env p)).handle.flags = p.handle.flags := by
    unfold mustBrake
    dsimp only
    split <;> exact hc
  unfold inCoast thrust
  dsimp only
  split <;> exact hm

theorem flags_inBraking (flags : UInt32) :
    (inBraking env flags p).handle.flags = p.handle.flags := by
  have hs : (holdSecondary env p).handle.flags = p.handle.flags := by
    unfold holdSecondary
    split
    · dsimp only
      split
      · split <;> rfl
      · rfl
    · rfl
  have hp : (holdPrimary env (holdSecondary env p)).handle.flags = p.handle.flags := by
    unfold holdPrimary
    dsimp only
    split <;> exact hs
  unfold inBraking
  dsimp only
  split <;> exact hp

theorem flags_inHandlers (s : StateName) :
    (inHandlers env s p.handle.flags p).handle.flags = p.flagsAfter s := by
  cases s with
  | fault =>
    unfold inHandlers inFault flagsAfter
    dsimp only
    split <;> split <;> rfl
  | idle => exact flags_inIdle env p
  | ready =>
    unfold inHandlers inReady
    dsimp only
    split <;> rfl
  | pushing => exact flags_inPushing env p
  | coast => exact flags_inCoast env p
  | braking => exact flags_inBraking env p _

theorem flags_runIn : (runIn env p).handle.flags =
    if fires env p then p.flagsAfter p.handle.currState else p.handle.flags := by
  obtain ⟨r, ts, he, -⟩ := checkInterval_spec env p
  unfold runIn
  dsimp only
  rw [he]
  cases fires env p with
  | false => rfl
  | true => exact flags_inHandlers env ((p.checked env r ts).emit _) p.handle.currState

theorem flags_fromHandlers (s target : StateName) :
    (fromHandlers s target p).handle.flags = p.handle.flags := by
  cases s with
  | braking =>
    unfold fromHandlers fromBraking
    dsimp only
    split <;> rfl
  | _ => rfl

theorem flags_toHandlers (target source : StateName) :
    (toHandlers env target source p).handle.flags = p.handle.flags := by
  cases target with
  | fault =>
    unfold toHandlers toFault
    dsimp only
    split
    · split <;> rfl
    · split
      · rfl
      · split
        · rfl
        · split <;> rfl
  | coast =>
    unfold toHandlers toCoast
    dsimp only
    split
    · split
      · rfl
      · split <;> rfl
    · rfl
  | braking =>
    unfold toHandlers toBraking
    dsimp only
    split <;> rfl
  | _ => rfl

theorem flags_stateMachineHandler : (stateMachineHandler env p).handle.flags =
    if fires env p then p.flagsAfter p.handle.currState else p.handle.flags := by
  rw [← flags_runIn, stateMachineHandler_eq]
  split
  · split
    · rfl
    · exact (flags_toHandlers env _ _ _).trans (flags_fromHandlers _ _ _)
  · rfl

end Pod

/-! ## `in_idle` in the trace -/

/-- `in_idle` has run. -/
def idleRan (log : Log) : Bool := log.any fun e => e.2 == .inHandler .idle

theorem idleRan_append (evs log : Log) : idleRan (evs ++ log) = (idleRan evs || idleRan log) :=
  List.any_append

theorem idleRan_inLog (env : Env) (p : Pod) :
    idleRan (inLog env p) = (fires env p && p.handle.currState == .idle) := by
  have hin (t : Nat) (s : StateName) : idleRan (inEvents env p t s) = false := by
    cases s <;> simp only [inEvents] <;> (repeat' split) <;> rfl
  unfold inLog
  cases hf : fires env p with
  | false => rfl
  | true =>
    rw [if_pos rfl, idleRan_append, hin]
    cases p.handle.currState <;> rfl

theorem idleRan_stateMachineHandler (env : Env) (p : Pod) :
    idleRan (p.stateMachineHandler env).log =
      (fires env p && p.handle.currState == .idle || idleRan p.log) := by
  have hfrom (t : Nat) (s target : StateName) : idleRan (fromEvents t target s) = false := by
    cases s <;> simp only [fromEvents] <;> (repeat' split) <;> rfl
  have hto (t : Nat) (source s : StateName) : idleRan (toEvents env p t source s) = false := by
    cases s <;> simp only [toEvents] <;> (repeat' split) <;> rfl
  rcases (Pod.stateMachineHandler_call env p).outcome with hstay | ⟨target, t, hmove⟩
  · rw [hstay.log, idleRan_append, idleRan_inLog]
  · rw [hmove.log]
    have hpass : idleRan (passLog env p target t) =
        (fires env p && p.handle.currState == .idle) := by
      unfold passLog
      dsimp only
      rw [idleRan_append, hto, Bool.false_or, ← idleRan_inLog]
      show (false || idleRan (_ ++ _)) = _
      rw [idleRan_append, hfrom]
      rfl
    show (false || idleRan (_ ++ _)) = _
    rw [idleRan_append, hpass, Bool.false_or]

/-! ## Between calls of the state machine -/

/-- From `p` to `q` nothing happened to the two flags and the link, and `in_idle` did not run. -/
structure Unaffected (p q : Pod) : Prop where
  powerOn : hasFlag q.handle.flags powerOn = hasFlag p.handle.flags powerOn
  retryInit : hasFlag q.handle.flags retryInit = hasFlag p.handle.flags retryInit
  linkUp : q.linkUp = p.linkUp
  idleRan : idleRan q.log = idleRan p.log

namespace Unaffected

variable {env : Env} {p q r : Pod}

theorem refl (p : Pod) : Unaffected p p := ⟨rfl, rfl, rfl, rfl⟩

theorem trans (h₁ : Unaffected p q) (h₂ : Unaffected q r) : Unaffected p r :=
  ⟨h₂.powerOn.trans h₁.powerOn, h₂.retryInit.trans h₁.retryInit, h₂.linkUp.trans h₁.linkUp,
    h₂.idleRan.trans h₁.idleRan⟩

theorem ofDaq (h : DaqFrame env p q) : Unaffected p q := by
  have hflags (bit : UInt32) (hb : runOver &&& bit = 0) :
      hasFlag q.handle.flags bit = hasFlag p.handle.flags bit := by
    rcases h.handle with e | e <;> rw [e]
    exact hasFlag_or hb
  exact ⟨hflags _ (by decide), hflags _ (by decide), h.linkUp,
    congrArg PodFirmware.idleRan h.log⟩

theorem readTicks (p : Pod) (x : TickRead) : Unaffected p (p.readTicks env x) :=
  ⟨rfl, rfl, rfl, rfl⟩

theorem setTelem (p : Pod) (t : Telemetry) : Unaffected p (p.setTelem t) := ⟨rfl, rfl, rfl, rfl⟩

theorem setReports (p : Pod) (x : Reports) : Unaffected p (p.setReports x) := ⟨rfl, rfl, rfl, rfl⟩

theorem setDaq (p : Pod) (d : DaqState) : Unaffected p (p.setDaq d) := ⟨rfl, rfl, rfl, rfl⟩

theorem changeState (p : Pod) (s : StateName) : Unaffected p (p.changeState s) :=
  ⟨rfl, rfl, rfl, rfl⟩

theorem due (p : Pod) (rMod rCmp : TickRead) (interval last : UInt32) :
    Unaffected p (p.due env rMod rCmp interval last).2 := by
  rw [Pod.due_eq]
  split
  · exact readTicks p rCmp
  · exact readTicks p rMod

theorem sendBoth (p : Pod) : Unaffected p (Pod.sendBoth env p).2 := by
  rcases Pod.sendBoth_changes env p with h | ⟨r, x, h⟩ <;> rw [h]
  · exact refl p
  · exact (setDaq p _).trans <| (readTicks _ r).trans (setReports _ x)

end Unaffected

section Steps

variable (env : Env) (p : Pod)

theorem daqStep_unaffected : Unaffected p (p.daqStep env) := by
  have hd := @Unaffected.due env p .daqMod .daqCmp 10 p.daq.lastDaqTimestamp
  have hset (q : Pod) (d : DaqState) : Unaffected q ((q.readTicks env .daqSet).setDaq d) :=
    (Unaffected.readTicks q _).trans (.setDaq _ d)
  rw [daqStep_eq]
  dsimp only
  split
  · exact hd.trans <| (hset _ _).trans (.ofDaq (Pod.badgerloopUpdateData_frame env _))
  · split
    · exact hd.trans (.ofDaq (Pod.badgerloopForcedData_frame env _))
    · exact hd

theorem battStep_unaffected : Unaffected p (p.battStep env) := by
  have hd := @Unaffected.due env p .battMod .battCmp 1000 p.daq.lastBattTimestamp
  unfold Pod.battStep
  dsimp only
  split
  · exact hd.trans <| (Unaffected.readTicks _ .battSet).trans <| (Unaffected.setDaq _ _).trans <|
      (Unaffected.setDaq _ _).trans (.setTelem _ _)
  · exact hd

theorem stampFrame_unaffected : Unaffected p (p.stampFrame env) :=
  (@Unaffected.due env p .telemMod .telemCmp 300 p.reports.lastTelemTimestamp).trans <|
    (Unaffected.readTicks _ .telemSet).trans (.setReports _ _)

theorem telemetryStep_unaffected (h : telemetryAction env p ≠ .noLink) :
    Unaffected p (p.telemetryStep env) := by
  have hfault (q : Pod) (message : String) : Unaffected q (q.telemetryFault message) :=
    (Unaffected.changeState q _).trans (.setReports _ _)
  have hsend := (stampFrame_unaffected env p).trans (@Unaffected.sendBoth env _)
  rw [telemetryStep_action]
  cases ha : telemetryAction env p with
  | skip => exact .due p _ _ _ _
  | send =>
    dsimp only
    split
    · exact hsend.trans (hfault _ _)
    · exact hsend
  | noLink => exact absurd ha h

/-- The flag is derived from `POWER_ON`. -/
theorem telemetryStep_retryInit (h : telemetryAction env p = .noLink) :
    hasFlag (p.telemetryStep env).handle.flags retryInit =
      (hasFlag p.handle.flags powerOn || hasFlag p.handle.flags retryInit) := by
  have hs := stampFrame_unaffected env p
  rw [telemetryStep_action, h, ← hs.powerOn, ← hs.retryInit]
  dsimp only
  split
  · rename_i hon
    have hon' : hasFlag (p.stampFrame env).handle.flags powerOn = true := hon
    rw [hon', Bool.true_or]
    exact hasFlag_set (by decide)
  · rename_i hoff
    have hoff' : hasFlag (p.stampFrame env).handle.flags powerOn = false :=
      Bool.eq_false_iff.mpr hoff
    rw [hoff', Bool.false_or]
    rfl

theorem linkUp_of_noLink (h : telemetryAction env p = .noLink) :
    (p.telemetryStep env).linkUp = p.linkUp := by
  rw [telemetryStep_action, h, ← (stampFrame_unaffected env p).linkUp]
  dsimp only
  split <;> rfl

theorem apart_unaffected : Apart fun p : Pod =>
    (hasFlag p.handle.flags powerOn, hasFlag p.handle.flags retryInit, p.linkUp,
      idleRan p.log) where
  readTicks _ _ _ := rfl
  setReports _ _ := rfl
  setDaq _ _ := rfl
  setTelem _ _ := rfl
  setConfig _ _ := rfl
  changeState _ _ := rfl
  drive p ev f hev := by
    have hidle : idleRan (p.drive ev f).log = idleRan p.log := by
      show (ev == .inHandler .idle || idleRan p.log) = idleRan p.log
      cases ev <;> first | rfl | cases hev
    rw [hidle]
    rfl
  update env p := by
    have hu := Unaffected.ofDaq (Pod.badgerloopUpdateData_frame env p)
    rw [hu.powerOn, hu.retryInit, hu.linkUp, hu.idleRan]

theorem shellStep_unaffected {i : ShellInput} (hi : i.env? = none)
    (hl : ∀ up, i = .loop (.base (.link up)) → up = p.linkUp) : Unaffected p (shellStep p i) := by
  have h := apart_unaffected.shellStep p hi fun up he => by rw [hl up he]
  simp only [Prod.mk.injEq] at h
  obtain ⟨hpower, hretry, hlink, hidle⟩ := h
  exact ⟨hpower, hretry, hlink, hidle⟩

end Steps

/-! ## Runs without a link -/

/-- The link stays down, and the telemetry step does not look at it. -/
def Unchecked (p : Pod) (i : ShellInput) : Prop :=
  (∀ up, i = .loop (.base (.link up)) → up = false) ∧
    ∀ env, i.env? = some env → telemetryAction env (p.daqStep env) ≠ .noLink

/-- `POWER_ON` is set as long as `in_idle` has not run. -/
structure Waiting (p : Pod) : Prop where
  linkUp : p.linkUp = false
  powerOn : hasFlag p.handle.flags powerOn = !idleRan p.log
  retryInit : hasFlag p.handle.flags retryInit = false

section Runs

variable {env : Env} {p q : Pod}

theorem Waiting.unaffected (h : Waiting p) (hu : Unaffected p q) : Waiting q where
  linkUp := hu.linkUp.trans h.linkUp
  powerOn := by rw [hu.powerOn, hu.idleRan, h.powerOn]
  retryInit := hu.retryInit.trans h.retryInit

theorem retryInit_stateMachineHandler (hl : p.linkUp = false) :
    hasFlag (p.stateMachineHandler env).handle.flags retryInit =
      hasFlag p.handle.flags retryInit := by
  have hclear : hasFlag (p.handle.flags &&& ~~~powerOn) retryInit =
      hasFlag p.handle.flags retryInit := by
    have hmask : ~~~powerOn &&& retryInit = retryInit := by decide
    rw [hasFlag, UInt32.and_assoc, hmask, hasFlag]
  rw [Pod.flags_stateMachineHandler]
  split
  · unfold Pod.flagsAfter
    split
    · rw [hl, Bool.and_false, if_neg (by decide)]
    · split
      · exact hclear
      · rfl
    · rfl
  · rfl

theorem waiting_stateMachineHandler (h : Waiting p) : Waiting (p.stateMachineHandler env) where
  linkUp := (Pod.stateMachineHandler_call env p).linkUp.trans h.linkUp
  powerOn := by
    rw [Pod.flags_stateMachineHandler, idleRan_stateMachineHandler]
    cases fires env p with
    | false => exact h.powerOn
    | true =>
      rw [if_pos rfl, Bool.true_and]
      cases hs : p.handle.currState with
      | idle =>
        have hclear : hasFlag (p.flagsAfter .idle) powerOn = false := by
          unfold Pod.flagsAfter
          cases hp : hasFlag p.handle.flags powerOn with
          | true => exact hasFlag_clear _ _
          | false => exact hp
        rw [hclear]
        rfl
      | fault =>
        have hsame : p.flagsAfter .fault = p.handle.flags := by
          unfold Pod.flagsAfter
          rw [h.linkUp, Bool.and_false, if_neg (by decide)]
        rw [hsame]
        exact h.powerOn
      | ready | pushing | coast | braking => exact h.powerOn
  retryInit := (retryInit_stateMachineHandler h.linkUp).trans h.retryInit

theorem Waiting.step {i : ShellInput} (h : Waiting p) (hi : Unchecked p i) :
    Waiting (shellStep p i) := by
  cases he : i.env? with
  | none =>
    exact h.unaffected (shellStep_unaffected p he fun up hup => by rw [hi.1 up hup, h.linkUp])
  | some env =>
    rw [shellStep_of_env? he]
    have hbefore : Unaffected p (p.beforeHandler env) :=
      (daqStep_unaffected env p).trans <|
        (telemetryStep_unaffected env _ (hi.2 env he)).trans (battStep_unaffected env _)
    exact waiting_stateMachineHandler (h.unaffected hbefore)

theorem Booted.waiting (h : Booted p) (hl : p.linkUp = false) : Waiting p := by
  obtain ⟨q, rfl⟩ := h.init
  refine ⟨hl, ?_, ?_⟩
  · rw [h.log]
    show hasFlag powerOn powerOn = !idleRan []
    decide
  · show hasFlag powerOn retryInit = false
    decide

/-- With the link down since power-on, the first telemetry step that finds it down raises
`RETRY_INIT` if and only if `in_idle` has not run before. -/
theorem retry_iff (p : Pod) (is : List ShellInput) (env : Env) (hb : Booted p)
    (hl : p.linkUp = false) (hu : Machine.Always shellStep Unchecked p is)
    (hcheck : telemetryAction env ((Machine.run shellStep p is).daqStep env) = .noLink) :
    let q := Machine.run shellStep p is
    (hasFlag ((q.daqStep env).telemetryStep env).handle.flags retryInit = true ↔
        idleRan q.log = false) ∧
      (hasFlag (q.applicationHandler env).handle.flags retryInit = true ↔
        idleRan q.log = false) := by
  have hw : Waiting (Machine.run shellStep p is) :=
    Machine.run_inv (fun _ _ h hi => h.step hi) (hb.waiting hl) hu
  generalize Machine.run shellStep p is = q at hw hcheck
  have hdaq := hw.unaffected (daqStep_unaffected env q)
  have hstep : hasFlag ((q.daqStep env).telemetryStep env).handle.flags retryInit =
      !idleRan q.log := by
    rw [telemetryStep_retryInit env _ hcheck, hdaq.powerOn, hdaq.retryInit, Bool.or_false,
      (daqStep_unaffected env q).idleRan]
  have hbatt := battStep_unaffected env ((q.daqStep env).telemetryStep env)
  have hlink : (q.beforeHandler env).linkUp = false :=
    hbatt.linkUp.trans ((linkUp_of_noLink env _ hcheck).trans hdaq.linkUp)
  have hcall : hasFlag (q.applicationHandler env).handle.flags retryInit = !idleRan q.log :=
    (retryInit_stateMachineHandler hlink).trans (hbatt.retryInit.trans hstep)
  dsimp only
  rw [hstep, hcall]
  simp

/-- The controller after `badgerloop_init`, without a network cable. -/
def unplugged : Pod := { boot with linkUp := false }

theorem booted_unplugged : Booted unplugged := ⟨⟨unplugged, rfl⟩, rfl, rfl⟩

/-- The first call is at 300 ms: the link is looked at before `in_idle` runs. -/
theorem retry_at_first_call :
    hasFlag (unplugged.applicationHandler (bench 300)).handle.flags retryInit = true :=
  (retry_iff unplugged [] (bench 300) booted_unplugged rfl trivial (by decide)).2.mpr rfl

/-- The first call is at 100 ms: `in_idle` has run when the link is looked at. -/
theorem no_retry_after_idle :
    let p := Machine.run shellStep unplugged [callAt 100]
    telemetryAction (bench 300) (p.daqStep (bench 300)) = .noLink ∧
      hasFlag (p.applicationHandler (bench 300)).handle.flags retryInit = false ∧
      ¬ ∀ p is env, Booted p → p.linkUp = false → Machine.Always shellStep Unchecked p is →
        telemetryAction env ((Machine.run shellStep p is).daqStep env) = .noLink →
        hasFlag ((Machine.run shellStep p is).applicationHandler env).handle.flags retryInit =
          true := by
  have hcheck : telemetryAction (bench 300) ((Machine.run shellStep unplugged
      [callAt 100]).daqStep (bench 300)) = .noLink := by decide +kernel
  have hflag : hasFlag ((Machine.run shellStep unplugged [callAt 100]).applicationHandler
      (bench 300)).handle.flags retryInit = false := by decide +kernel
  have hunchecked : Machine.Always shellStep Unchecked unplugged [callAt 100] := by
    refine ⟨⟨fun up h => (by cases h), fun env h => ?_⟩, trivial⟩
    cases h
    decide +kernel
  refine ⟨hcheck, hflag, fun h => ?_⟩
  have hset := h unplugged _ _ booted_unplugged rfl hunchecked hcheck
  rw [hflag] at hset
  cases hset

end Runs

end PodFirmware
