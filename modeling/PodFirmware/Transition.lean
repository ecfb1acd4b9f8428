import PodFirmware.StateMachine

/-!
# PodFirmware.Transition

What one `state_machine_handler` call can do, said once.

The controller is described as a machine with outputs: `demand` is the state that the periodic
handler asks for, `request` the state asked for when the handler has run (its own demand, or else
what was pending before), `arrival` the state taken up when a given transition is carried out, and
`inEvents`, `fromEvents`, `toEvents` the commands given on the way. All of them are functions of the
state before the call and of the clock.

Here the handlers are shown to do exactly this, one at a time (`Does`); `PodFirmware.Call` puts them
together.
-/

namespace PodFirmware

/-! ## The controller as a machine with outputs -/

def pending (h : StateHandle) : Option StateName :=
  if h.changeState then some h.nextState else none

/-- `ticks - pushing_start_ts` as computed at the read `r`. -/
def pushedFor (env : Env) (p : Pod) (r : TickRead) : UInt32 :=
  env.ticks r - p.marks.pushingStartTs

def fires (env : Env) (p : Pod) : Bool :=
  env.ticks .checkMod % Pod.stateIntervals p.handle.currState = 0 &&
    env.ticks .checkCmp != p.handle.timestamps p.handle.currState

def daqInRange (t : Telemetry) : Bool := (Pod.daqChecks t).all fun c => !c.1

/-- Both pusher switches have been open for more than a second. -/
def pushEnded (env : Env) (p : Pod) : Bool :=
  p.telem.getLim Telemetry.plim1 && p.telem.getLim Telemetry.plim2 &&
    env.ticks .pushingDelay - Pod.lastPlimTs p.limits > 1000

/-- What the periodic handler of `s` asks for. -/
def demand (env : Env) (p : Pod) : StateName → Option StateName
  | .fault =>
    if (hasFlag p.handle.flags retryInit && p.linkUp) || hasFlag p.handle.flags runOver then
      some .idle
    else none
  | .idle =>
    if !hasFlag p.handle.flags runOver && !daqInRange p.telem then some .fault else none
  | .ready => if Pod.pushSeen p.cfg p.telem then some .pushing else none
  | .pushing =>
    if pushedFor env p .pushingMust > p.cfg.mustBrakeTo then some .braking
    else if pushEnded env p then some .coast
    else none
  | .coast =>
    if pushedFor env p .coastMust > p.cfg.mustBrakeTo then some .braking
    else if Pod.coastDistance p.cfg p.telem then some .braking
    else if p.telem.stoppingDistance = -1 then some .fault
    else none
  | .braking =>
    if hasFlag p.handle.flags runOver && p.telem.velocity < 10 then some .idle else none

/-- `demand`, read as a relation: in the first state the handler asks for the second. -/
inductive Demands (env : Env) (p : Pod) : StateName → StateName → Prop where
  | recover (h : (hasFlag p.handle.flags retryInit && p.linkUp) = true ∨
      hasFlag p.handle.flags runOver = true) : Demands env p .fault .idle
  | fail (h : daqInRange p.telem = false) : Demands env p .idle .fault
  | push (h : Pod.pushSeen p.cfg p.telem = true) : Demands env p .ready .pushing
  | late (h : pushedFor env p .pushingMust > p.cfg.mustBrakeTo) : Demands env p .pushing .braking
  | release (h : pushEnded env p = true) : Demands env p .pushing .coast
  | lateCoast (h : pushedFor env p .coastMust > p.cfg.mustBrakeTo) : Demands env p .coast .braking
  | near (h : Pod.coastDistance p.cfg p.telem = true) : Demands env p .coast .braking
  | unknown (h : p.telem.stoppingDistance = -1) : Demands env p .coast .fault
  | halt (flag : hasFlag p.handle.flags runOver = true) (velocity : p.telem.velocity < 10) :
      Demands env p .braking .idle

theorem demands_of_demand {env : Env} {p : Pod} {s target : StateName}
    (h : demand env p s = some target) : Demands env p s target := by
  cases s with
  | fault =>
    simp only [demand] at h
    split at h
    case isTrue hc => cases h; exact .recover (Bool.or_eq_true_iff.mp hc)
    case isFalse => cases h
  | idle =>
    simp only [demand] at h
    split at h
    case isTrue hc => cases h; exact .fail (by simpa using (Bool.and_eq_true_iff.mp hc).2)
    case isFalse => cases h
  | ready =>
    simp only [demand] at h
    split at h
    case isTrue hc => cases h; exact .push hc
    case isFalse => cases h
  | pushing =>
    simp only [demand] at h
    split at h
    case isTrue hc => cases h; exact .late hc
    case isFalse =>
      split at h
      case isTrue hc => cases h; exact .release hc
      case isFalse => cases h
  | coast =>
    simp only [demand] at h
    split at h
    case isTrue hc => cases h; exact .lateCoast hc
    case isFalse =>
      split at h
      case isTrue hc => cases h; exact .near hc
      case isFalse =>
        split at h
        case isTrue hc => cases h; exact .unknown hc
        case isFalse => cases h
  | braking =>
    simp only [demand] at h
    split at h
    case isTrue hc =>
      cases h
      simp only [Bool.and_eq_true, decide_eq_true_eq] at hc
      exact .halt hc.1 hc.2
    case isFalse => cases h

/-- The state asked for once the periodic handler has had its turn. -/
def request (env : Env) (p : Pod) : Option StateName :=
  (if fires env p then demand env p p.handle.currState else none).or (pending p.handle)

def brakePressureBad (t : Telemetry) : Bool :=
  Pod.brakePressureOut t.brP1 || Pod.brakePressureOut t.brP2

/-- What the entrance handler of a state asks for in its turn. -/
def redirect (env : Env) (p : Pod) (source : StateName) : StateName → Option StateName
  | .fault =>
    match source with
    | .braking => if pushedFor env p .toFault > p.cfg.dontBrakeTo then none else some .braking
    | .pushing => some .coast
    | .coast => some .braking
    | .ready => some .idle
    | _ => none
  | .coast =>
    if source ≠ .braking ∧ source ≠ .fault ∧ brakePressureBad p.telem then some .fault else none
  | .braking => if pushedFor env p .toBraking < p.cfg.dontBrakeTo then some .coast else none
  | _ => none

def arrival (env : Env) (p : Pod) (source target : StateName) : StateName :=
  (redirect env p source target).getD target

/-- The transitions that end elsewhere than in their target: from `source`, to `target`, the machine
arrives in the third state. -/
inductive Diverts (env : Env) (p : Pod) : StateName → StateName → StateName → Prop where
  | faultReady : Diverts env p .ready .fault .idle
  | faultPushing : Diverts env p .pushing .fault .coast
  | faultCoast : Diverts env p .coast .fault .braking
  | faultBraking (h : ¬ pushedFor env p .toFault > p.cfg.dontBrakeTo) :
      Diverts env p .braking .fault .braking
  | lowPressure {source : StateName} (hb : source ≠ .braking) (hf : source ≠ .fault)
      (h : brakePressureBad p.telem = true) : Diverts env p source .coast .fault
  | tooEarly {source : StateName} (h : pushedFor env p .toBraking < p.cfg.dontBrakeTo) :
      Diverts env p source .braking .coast

theorem arrival_cases (env : Env) (p : Pod) (source target : StateName) :
    arrival env p source target = target ∨
      Diverts env p source target (arrival env p source target) := by
  cases target with
  | fault =>
    cases source with
    | ready => exact .inr .faultReady
    | pushing => exact .inr .faultPushing
    | coast => exact .inr .faultCoast
    | braking =>
      by_cases h : pushedFor env p .toFault > p.cfg.dontBrakeTo
      · exact .inl (by simp only [arrival, redirect, if_pos h]; rfl)
      · have ha : arrival env p .braking .fault = .braking := by
          simp only [arrival, redirect, if_neg h]; rfl
        rw [ha]
        exact .inr (.faultBraking h)
    | fault => exact .inl rfl
    | idle => exact .inl rfl
  | coast =>
    by_cases h : source ≠ .braking ∧ source ≠ .fault ∧ brakePressureBad p.telem = true
    · have ha : arrival env p source .coast = .fault := by
        simp only [arrival, redirect, if_pos h]; rfl
      rw [ha]
      exact .inr (.lowPressure h.1 h.2.1 h.2.2)
    · exact .inl (by simp only [arrival, redirect, if_neg h]; rfl)
  | braking =>
    by_cases h : pushedFor env p .toBraking < p.cfg.dontBrakeTo
    · have ha : arrival env p source .braking = .coast := by
        simp only [arrival, redirect, if_pos h]; rfl
      rw [ha]
      exact .inr (.tooEarly h)
    · exact .inl (by simp only [arrival, redirect, if_neg h]; rfl)
  | idle => exact .inl rfl
  | ready => exact .inl rfl
  | pushing => exact .inl rfl

/-! ## The commands given on the way -/

def inEvents (env : Env) (p : Pod) (t : Nat) : StateName → Log
  | .idle =>
    (if hasFlag p.handle.flags runOver then
      [(t, .ventSecondaryBrakes true), (t, .ventPrimaryBrakes true), (t, .ventThrusters true)]
    else []) ++
    (if hasFlag p.handle.flags powerOn then
      [(t, .ventThrusters false), (t, .ventSecondaryBrakes false), (t, .ventPrimaryBrakes false),
        (t, .thrusters false), (t, .secondaryBrakes 0), (t, .primaryBrakes 0)]
    else [])
  | .coast =>
    if env.ticks .coastThrust - p.marks.coastTs > p.cfg.thrustTo then
      [(env.clock.read .coastThrust, .thrusters true)]
    else []
  | .braking =>
    (if pushedFor env p .brakingPrimary > p.cfg.dontBrakeTo then
      [(env.clock.read .brakingPrimary, .primaryBrakes 100)]
    else []) ++
    (if Pod.brakingEmergency p.cfg p.telem = true ∧
        (p.marks.primaryLowCount + 1).toUInt32 > p.cfg.brakingCountThrs ∧
        pushedFor env p .brakingSecondary > p.cfg.dontBrakeTo then
      [(env.clock.read .brakingSecondary, .secondaryBrakes 100)]
    else [])
  | _ => []

def fromEvents (t : Nat) (target : StateName) : StateName → Log
  | .coast => [(t, .thrusters false)]
  | .braking => if target ≠ .fault then [(t, .secondaryBrakes 0), (t, .primaryBrakes 0)] else []
  | _ => []

def toEvents (env : Env) (p : Pod) (t : Nat) (source : StateName) : StateName → Log
  | .fault =>
    if source = .braking ∧ pushedFor env p .toFault > p.cfg.dontBrakeTo then
      [(env.clock.read .toFault, .secondaryBrakes 100),
        (env.clock.read .toFault, .primaryBrakes 100)]
    else []
  | .coast =>
    if source = .braking ∨ source = .fault ∨ brakePressureBad p.telem then
      [(t, .ventThrusters true)]
    else []
  | .braking =>
    if pushedFor env p .toBraking < p.cfg.dontBrakeTo then []
    else [(env.clock.read .toBraking, .primaryBrakes 100)]
  | _ => []

/-! ## The periodic handlers do as described -/

/-- From `q` to `q'` the request `ask` was made and the events `evs` happened; all else that
matters to the state machine is as it was. -/
structure Does (env : Env) (q q' : Pod) (ask : Option StateName) (evs : Log) : Prop where
  currState : q'.handle.currState = q.handle.currState
  telem : q'.telem = q.telem
  cfg : q'.cfg = q.cfg
  linkUp : q'.linkUp = q.linkUp
  pushingStartTs : q'.marks.pushingStartTs = q.marks.pushingStartTs
  coastTs : q'.marks.coastTs = q.marks.coastTs
  powerOn : hasFlag q.handle.flags powerOn = false → hasFlag q'.handle.flags powerOn = false
  now : q'.now = q.now ∨ ∃ r, q'.now = env.clock.read r
  nextState : q'.handle.nextState = ask.getD q.handle.nextState
  request : pending q'.handle = ask.or (pending q.handle)
  log : q'.log = evs ++ q.log

namespace Does

variable {env : Env} {q r s : Pod} {a a₁ a₂ : Option StateName} {e e₁ e₂ : Log}

theorem refl (q : Pod) : Does env q q none [] :=
  ⟨rfl, rfl, rfl, rfl, rfl, rfl, id, .inl rfl, rfl, rfl, rfl⟩

/-- Of two requests the later one wins. -/
theorem trans (h₁ : Does env q r a₁ e₁) (h₂ : Does env r s a₂ e₂) :
    Does env q s (a₂.or a₁) (e₂ ++ e₁) where
  currState := h₂.currState.trans h₁.currState
  telem := h₂.telem.trans h₁.telem
  cfg := h₂.cfg.trans h₁.cfg
  linkUp := h₂.linkUp.trans h₁.linkUp
  pushingStartTs := h₂.pushingStartTs.trans h₁.pushingStartTs
  coastTs := h₂.coastTs.trans h₁.coastTs
  powerOn := h₂.powerOn ∘ h₁.powerOn
  now := by
    rcases h₂.now with e | e
    · rw [e]; exact h₁.now
    · exact .inr e
  nextState := by rw [h₂.nextState, h₁.nextState]; cases a₂ <;> rfl
  request := by rw [h₂.request, h₁.request, Option.or_assoc]
  log := by rw [h₂.log, h₁.log, List.append_assoc]

theorem cast (h : Does env q r a₁ e₁) (ha : a₁ = a₂) (he : e₁ = e₂) : Does env q r a₂ e₂ := by
  subst ha he; exact h

theorem changeState (q : Pod) (x : StateName) : Does env q (q.changeState x) (some x) [] :=
  ⟨rfl, rfl, rfl, rfl, rfl, rfl, id, .inl rfl, rfl, rfl, rfl⟩

theorem clearFlag (q : Pod) (bit : UInt32) : Does env q (q.clearFlag bit) none [] :=
  ⟨rfl, rfl, rfl, rfl, rfl, rfl, hasFlag_and, .inl rfl, rfl, rfl, rfl⟩

theorem drive (q : Pod) (ev : Event) (f : Actuation → Actuation) :
    Does env q (q.drive ev f) none [(q.now, ev)] :=
  ⟨rfl, rfl, rfl, rfl, rfl, rfl, id, .inl rfl, rfl, rfl, rfl⟩

theorem readTicks (q : Pod) (x : TickRead) : Does env q (q.readTicks env x) none [] :=
  ⟨rfl, rfl, rfl, rfl, rfl, rfl, id, .inr ⟨x, rfl⟩, rfl, rfl, rfl⟩

theorem setReports (q : Pod) (x : Reports) : Does env q (q.setReports x) none [] :=
  ⟨rfl, rfl, rfl, rfl, rfl, rfl, id, .inl rfl, rfl, rfl, rfl⟩

theorem printf (q : Pod) (site : Print) : Does env q (q.printf env site) none [] :=
  ⟨rfl, rfl, rfl, rfl, rfl, rfl, id, .inl rfl, rfl, rfl, rfl⟩

theorem setCount (q : Pod) (n : Int32) :
    Does env q (q.setMarks { q.marks with primaryLowCount := n }) none [] :=
  ⟨rfl, rfl, rfl, rfl, rfl, rfl, id, .inl rfl, rfl, rfl, rfl⟩

theorem assertFault (q : Pod) (site : Print) (message : String) :
    Does env q (q.assertFault env site message) (some .fault) [] :=
  ((changeState q .fault).trans (printf _ site)).trans (setReports _ _)

section Actuators

variable (q : Pod)

theorem primaryBrakes (i : Int32) :
    Does env q (q.primaryBrakes i) none [(q.now, .primaryBrakes i)] := drive q _ _

theorem secondaryBrakes (i : Int32) :
    Does env q (q.secondaryBrakes i) none [(q.now, .secondaryBrakes i)] := drive q _ _

theorem ventPrimaryBrakes (v : Bool) :
    Does env q (q.ventPrimaryBrakes v) none [(q.now, .ventPrimaryBrakes v)] := drive q _ _

theorem ventSecondaryBrakes (v : Bool) :
    Does env q (q.ventSecondaryBrakes v) none [(q.now, .ventSecondaryBrakes v)] := drive q _ _

theorem thrusters (on : Bool) :
    Does env q (q.thrusters on) none [(q.now, .thrusters on)] := drive q _ _

theorem ventThrusters (v : Bool) :
    Does env q (q.ventThrusters v) none [(q.now, .ventThrusters v)] := drive q _ _

end Actuators

end Does

namespace Pod

variable (env : Env) (q : Pod)

theorem sincePushing_readTicks (r : TickRead) :
    (q.readTicks env r).sincePushing = pushedFor env q r := rfl

theorem mustBrake_does (r : TickRead) : Does env q (mustBrake env r q)
    (if pushedFor env q r > q.cfg.mustBrakeTo then some .braking else none) [] := by
  unfold mustBrake
  simp only [sincePushing_readTicks, readTicks_cfg]
  split
  · exact (Does.readTicks q r).trans (Does.changeState _ _)
  · exact Does.readTicks q r

theorem endPush_does : Does env q (endPush env q)
    (if pushEnded env q then some .coast else none) [] := by
  have hr := @Does.readTicks env q .pushingDelay
  unfold endPush pushEnded
  simp only [ticks_readTicks, readTicks_limits]
  cases q.telem.getLim Telemetry.plim1 && q.telem.getLim Telemetry.plim2
  · exact Does.refl q
  · simp only [if_true, Bool.true_and, decide_eq_true_eq]
    split
    · exact hr.trans (Does.changeState _ _)
    · exact hr

theorem inPushing_does : Does env q (inPushing env q) (demand env q .pushing) [] := by
  have h := (endPush_does env q).trans (mustBrake_does env (endPush env q) .pushingMust)
  have he : pushedFor env (endPush env q) .pushingMust = pushedFor env q .pushingMust := by
    simp only [pushedFor, (endPush_does env q).pushingStartTs]
  rw [he, (endPush_does env q).cfg] at h
  refine h.cast ?_ rfl
  simp only [demand]
  split <;> rfl

theorem verifyDaq_does : Does env q (verifyDaq env q).2
    (if daqInRange q.telem then none else some .fault) [] := by
  cases hc : (daqChecks q.telem).find? (·.1) with
  | none =>
    have : daqInRange q.telem = true := by simpa [daqInRange] using hc
    rw [this, verifyDaq, hc]
    exact Does.refl q
  | some c =>
    have : daqInRange q.telem = false := by
      rw [daqInRange, List.all_eq_false]
      exact ⟨c, List.mem_of_find?_eq_some hc, by simpa using List.find?_some hc⟩
    rw [this, verifyDaq, hc]
    exact (Does.assertFault q _ _).trans (Does.setReports _ _)

theorem idlePowerOn_does : Does env q (idlePowerOn q) none
    [(q.now, .ventThrusters false), (q.now, .ventSecondaryBrakes false),
      (q.now, .ventPrimaryBrakes false), (q.now, .thrusters false), (q.now, .secondaryBrakes 0),
      (q.now, .primaryBrakes 0)] := by
  have hoff := ((@Does.primaryBrakes env q 0).trans (Does.secondaryBrakes _ 0)).trans
    (Does.thrusters _ false)
  have hvent := ((hoff.trans (Does.ventPrimaryBrakes _ false)).trans
    (Does.ventSecondaryBrakes _ false)).trans (Does.ventThrusters _ false)
  have hclear := hvent.trans (Does.clearFlag _ powerOn)
  unfold idlePowerOn
  refine hclear.cast rfl ?_
  simp only [primaryBrakes, secondaryBrakes, thrusters, ventPrimaryBrakes, ventSecondaryBrakes,
    drive_now, List.nil_append, List.cons_append]

theorem idleRunOver_does : Does env q (idleRunOver env q) none
    [(q.now, .ventSecondaryBrakes true), (q.now, .ventPrimaryBrakes true),
      (q.now, .ventThrusters true)] := by
  have hvent := ((@Does.ventThrusters env q true).trans
    (Does.ventPrimaryBrakes _ true)).trans (Does.ventSecondaryBrakes _ true)
  have hprint := hvent.trans (Does.printf _ .inHandler)
  unfold idleRunOver
  refine hprint.cast rfl ?_
  simp only [ventThrusters, ventPrimaryBrakes, drive_now, List.nil_append, List.cons_append]

theorem idlePowerOn_now : (idlePowerOn q).now = q.now := by
  simp only [idlePowerOn, ventThrusters, ventSecondaryBrakes, ventPrimaryBrakes, thrusters,
    secondaryBrakes, primaryBrakes, clearFlag, setHandle_now, drive_now]

theorem inIdle_does : Does env q (inIdle env q.handle.flags q) (demand env q .idle)
    (inEvents env q q.now .idle) := by
  unfold inIdle
  by_cases hp : hasFlag q.handle.flags powerOn = true
  · have h1 := idlePowerOn_does env q
    rw [if_pos hp]
    by_cases ho : hasFlag q.handle.flags runOver = true
    · have h2 := idleRunOver_does env (idlePowerOn q)
      rw [if_pos ho]
      refine (h1.trans h2).cast ?_ ?_
      · simp [demand, ho]
      · simp [inEvents, hp, ho, idlePowerOn_now]
    · have h2 := verifyDaq_does env (idlePowerOn q)
      rw [if_neg ho]
      refine (h1.trans h2).cast ?_ ?_
      · rw [h1.telem]
        cases hd : daqInRange q.telem <;> simp [demand, ho, hd]
      · simp [inEvents, hp, ho]
  · rw [if_neg hp]
    by_cases ho : hasFlag q.handle.flags runOver = true
    · rw [if_pos ho]
      refine (idleRunOver_does env q).cast ?_ ?_
      · simp [demand, ho]
      · simp [inEvents, hp, ho]
    · rw [if_neg ho]
      refine (verifyDaq_does env q).cast ?_ ?_
      · cases hd : daqInRange q.telem <;> simp [demand, ho, hd]
      · simp [inEvents, hp, ho]

theorem inFault_does : Does env q (inFault q.handle.flags q) (demand env q .fault) [] := by
  unfold inFault demand
  cases hasFlag q.handle.flags retryInit && q.linkUp <;> cases hasFlag q.handle.flags runOver
  · exact Does.refl q
  · exact Does.changeState q _
  · exact (Does.changeState q _).trans (Does.clearFlag _ _)
  · exact ((Does.changeState q _).trans (Does.clearFlag _ _)).trans (Does.changeState _ _)

theorem inReady_does : Does env q (inReady q) (demand env q .ready) [] := by
  unfold inReady demand
  split
  · exact Does.changeState q _
  · exact Does.refl q

theorem checkDistance_does : Does env q (checkDistance env q)
    (if coastDistance q.cfg q.telem then some .braking
      else if q.telem.stoppingDistance = -1 then some .fault else none) [] := by
  unfold checkDistance
  split
  · exact Does.changeState q _
  · split
    · exact Does.assertFault q _ _
    · exact Does.refl q

theorem thrust_does : Does env q (thrust env q) none (inEvents env q q.now .coast) := by
  have hr := @Does.readTicks env q .coastThrust
  unfold thrust inEvents
  simp only [ticks_readTicks, readTicks_marks, readTicks_cfg]
  split
  · exact hr.trans (Does.thrusters _ true)
  · exact hr

theorem inCoast_does : Does env q (inCoast env q) (demand env q .coast)
    (inEvents env q q.now .coast) := by
  have hc := checkDistance_does env q
  have hm := mustBrake_does env (checkDistance env q) .coastMust
  have hboth := hc.trans hm
  have h := hboth.trans (thrust_does env (mustBrake env .coastMust (checkDistance env q)))
  refine h.cast ?_ ?_
  · simp only [demand, pushedFor, hc.pushingStartTs, hc.cfg]
    by_cases hm : env.ticks .coastMust - q.marks.pushingStartTs > q.cfg.mustBrakeTo <;> simp [hm]
  · simp only [inEvents, hboth.coastTs, hboth.cfg, List.append_nil]

theorem holdSecondary_does : Does env q (holdSecondary env q) none
    (if brakingEmergency q.cfg q.telem = true ∧
        (q.marks.primaryLowCount + 1).toUInt32 > q.cfg.brakingCountThrs ∧
        pushedFor env q .brakingSecondary > q.cfg.dontBrakeTo then
      [(env.clock.read .brakingSecondary, .secondaryBrakes 100)]
    else []) := by
  have hcount := @Does.setCount env q (q.marks.primaryLowCount + 1)
  have hr := hcount.trans (@Does.readTicks env _ .brakingSecondary)
  unfold holdSecondary
  by_cases he : brakingEmergency q.cfg q.telem = true
  · simp only [he, true_and, if_true]
    split
    case isTrue hn =>
      rw [setMarks_marks, setMarks_cfg] at hn
      simp only [hn, true_and]
      by_cases ht : pushedFor env q .brakingSecondary > q.cfg.dontBrakeTo
      · rw [if_pos ht, if_pos (by exact ht)]
        exact hr.trans (Does.secondaryBrakes _ 100)
      · rw [if_neg ht, if_neg (by exact ht)]
        exact hr
    case isFalse hn =>
      rw [setMarks_marks, setMarks_cfg] at hn
      rw [if_neg fun h => hn h.1]
      exact hcount
  · rw [if_neg he, if_neg fun h => he h.1]
    exact Does.refl q

theorem holdPrimary_does : Does env q (holdPrimary env q) none
    (if pushedFor env q .brakingPrimary > q.cfg.dontBrakeTo then
      [(env.clock.read .brakingPrimary, .primaryBrakes 100)]
    else []) := by
  have hr := @Does.readTicks env q .brakingPrimary
  unfold holdPrimary
  simp only [sincePushing_readTicks, readTicks_cfg]
  split
  · exact hr.trans (Does.primaryBrakes _ 100)
  · exact hr

theorem inBraking_does : Does env q (inBraking env q.handle.flags q) (demand env q .braking)
    (inEvents env q q.now .braking) := by
  have hs := holdSecondary_does env q
  have hp := holdPrimary_does env (holdSecondary env q)
  have ht : pushedFor env (holdSecondary env q) .brakingPrimary =
      pushedFor env q .brakingPrimary := by
    simp only [pushedFor, hs.pushingStartTs]
  rw [ht, hs.cfg] at hp
  have hboth : Does env q _ none (inEvents env q q.now .braking) := hs.trans hp
  unfold inBraking demand
  simp only [hboth.telem]
  split
  · exact hboth.trans (Does.changeState _ _)
  · exact hboth

/-- Each periodic handler asks for what `demand` says and gives the commands of `inEvents`. -/
theorem inHandlers_does (s : StateName) :
    Does env q (inHandlers env s q.handle.flags q) (demand env q s) (inEvents env q q.now s) := by
  cases s with
  | fault => exact inFault_does env q
  | idle => exact inIdle_does env q
  | ready => exact inReady_does env q
  | pushing => exact inPushing_does env q
  | coast => exact inCoast_does env q
  | braking => exact inBraking_does env q

end Pod
end PodFirmware
