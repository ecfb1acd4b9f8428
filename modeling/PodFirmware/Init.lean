import PodFirmware.Latch

/-!
# PodFirmware.Init

`badgerloop_init` sets up the datagram sockets and then the state machine. It gives up at the first
failure of a socket call, and does nothing but query the dashboard when both sockets are there; so
once both exist and one of the calls on them has failed, the state machine stays uninitialised.

* `badgerloopInit`: one call, with the outcomes of the LwIP calls it makes.
* `Initialises`: the sequence of calls comes to the initialisation of the state machine.
* `readyAtFirstCall_iff`: the state machine is initialised when it is first run exactly when the
  first call that gets both sockets also gets through with them.
-/

namespace PodFirmware

/-! ## Boot -/

/-- The tables that the pointers of `state_t` can point to. -/
inductive Table where
  | toHandlers | inHandlers | fromHandlers | stateEventTimestamps | stateIntervals
  deriving DecidableEq, Repr

structure Tables where
  toStateTable : Option Table := none
  inStateTable : Option Table := none
  fromStateTable : Option Table := none
  stateTimestampTable : Option Table := none
  eventIntervalTable : Option Table := none
  deriving DecidableEq, Repr

def Tables.NonNull (t : Tables) : Prop :=
  t.toStateTable.isSome ∧ t.inStateTable.isSome ∧ t.fromStateTable.isSome ∧
    t.stateTimestampTable.isSome ∧ t.eventIntervalTable.isSome

instance (t : Tables) : Decidable t.NonNull := by
  unfold Tables.NonNull
  infer_instance

/-- The pod with its table pointers, and whether the sockets are there. -/
structure Boot where
  pod : Pod
  tables : Tables := {}
  udpSpacex : Bool := false
  udpDashboard : Bool := false

def LoopInput.isApp : LoopInput → Bool
  | .base (.app _) => true
  | _ => false

/-- What can come before the first `application_handler`. -/
abbrev Interlude := { i : LoopInput // i.isApp = false }

/-- What the calls made by `badgerloop_init` come to: whether `udp_new` returns a socket, whether
`udp_connect` and `udp_bind` return `ERR_OK`, `eth_check_link`, whether the dashboard responds to
the query, and what the network brings while it is waited for. -/
structure InitOutcome where
  newSpacex : Bool
  newDashboard : Bool
  connectSpacex : Bool
  connectDashboard : Bool
  bind : Bool
  checkLink : Bool
  during : List Interlude
  response : Bool

def InitOutcome.getsSockets (o : InitOutcome) : Bool := o.newSpacex && o.newDashboard

def InitOutcome.getsThrough (o : InitOutcome) : Bool :=
  o.connectSpacex && o.connectDashboard && o.bind

namespace Boot

def interludes (is : List Interlude) (p : Pod) : Pod :=
  Machine.run loopStep p (is.map Subtype.val)

/-- `if (eth_check_link() && query_Dashboard()) set_stdio_target(UDP)`. -/
def query (o : InitOutcome) (b : Boot) : Boot :=
  if o.checkLink then
    let p := interludes o.during b.pod
    { b with pod := if o.response then p.setReports { p.reports with tar := .udp } else p }
  else b

def initializeStateMachine (b : Boot) : Boot :=
  { b with
    pod := b.pod.initializeStateMachine .idle
    tables := {
      toStateTable := some .toHandlers
      inStateTable := some .inHandlers
      fromStateTable := some .fromHandlers
      stateTimestampTable := some .stateEventTimestamps
      eventIntervalTable := some .stateIntervals } }

/-- The rolling buffer is cleared, and the team is set. -/
def defaultValues (b : Boot) : Boot :=
  let p := b.pod.setDaq { b.pod.daq with accelRollingBuffer := Vector.replicate 10 0 }
  { b with pod := p.setTelem { p.telem with teamId := 0x3 } }

def badgerloopInit (o : InitOutcome) (b : Boot) : Int32 × Boot :=
  if b.udpSpacex && b.udpDashboard then (0, b.query o)
  else
    let b := { b with udpSpacex := o.newSpacex, udpDashboard := o.newDashboard }
    if !b.udpSpacex || !b.udpDashboard then (-1, b)
    else if !o.connectSpacex then (-1, b)
    else if !o.connectDashboard then (-1, b)
    else if !o.bind then (-1, b)
    else (0, (b.query o).initializeStateMachine.defaultValues)

inductive Event where
  | init (o : InitOutcome)
  | interlude (i : Interlude)

def step (b : Boot) : Event → Boot
  | .init o => (b.badgerloopInit o).2
  | .interlude i => { b with pod := loopStep b.pod i.val }

/-! ## Phases -/

theorem loopStep_quiet (p : Pod) (i : Interlude) : Quiet p (loopStep p i.val) := by
  obtain ⟨i, hi⟩ := i
  cases i with
  | base i =>
    cases i with
    | app env => cases hi
    | link up => exact link_quiet p up
    | telemetry t => exact telemetry_quiet p t
    | override on => exact override_quiet p on
    | state c => exact state_quiet p c
  | output w => exact ⟨rfl, rfl, rfl, rfl, rfl⟩
  | message w => exact ⟨rfl, rfl, rfl, rfl, rfl⟩
  | frame w =>
    unfold loopStep
    dsimp only
    split <;> exact ⟨rfl, rfl, rfl, rfl, rfl⟩
  | stdioTarget tar => exact ⟨rfl, rfl, rfl, rfl, rfl⟩

/-- The handle is as `initialize_state_machine` has set it up, but for requests. -/
structure Initialised (b : Boot) : Prop where
  tables : b.tables.NonNull
  currState : b.pod.handle.currState = .idle
  powerOn : hasFlag b.pod.handle.flags powerOn = true

theorem Initialised.of_quiet {b : Boot} {p : Pod} (h : Initialised b) (hq : Quiet b.pod p) :
    Initialised { b with pod := p } :=
  ⟨h.tables, hq.currState.trans h.currState, hq.powerOn.trans h.powerOn⟩

theorem interludes_quiet (is : List Interlude) (p : Pod) : Quiet p (interludes is p) := by
  induction is generalizing p with
  | nil => exact ⟨rfl, rfl, rfl, rfl, rfl⟩
  | cons i is ih =>
    have hi := loopStep_quiet p i
    have hr := ih (loopStep p i.val)
    exact ⟨hr.currState.trans hi.currState, hr.marks.trans hi.marks, hr.cfg.trans hi.cfg,
      hr.log.trans hi.log, hr.powerOn.trans hi.powerOn⟩

/-- A query changes nothing but the pod, which stays quiet. -/
theorem query_quiet (o : InitOutcome) (b : Boot) :
    ∃ p, Quiet b.pod p ∧ b.query o = { b with pod := p } := by
  have hi := interludes_quiet o.during b.pod
  unfold query
  split
  · refine ⟨_, ?_, rfl⟩
    split
    · exact ⟨hi.currState, hi.marks, hi.cfg, hi.log, hi.powerOn⟩
    · exact hi
  · exact ⟨b.pod, ⟨rfl, rfl, rfl, rfl, rfl⟩, rfl⟩

/-- Both sockets are there: `badgerloop_init` will only query. -/
def hasSockets (b : Boot) : Bool := b.udpSpacex && b.udpDashboard

theorem init_of_hasSockets {b : Boot} (h : b.hasSockets = true) (o : InitOutcome) :
    ∃ p, Quiet b.pod p ∧ b.step (.init o) = { b with pod := p } := by
  obtain ⟨p, hq, he⟩ := query_quiet o b
  refine ⟨p, hq, ?_⟩
  rw [step, badgerloopInit]
  rw [hasSockets] at h
  rw [if_pos h, he]

theorem initialised_defaultValues (b : Boot) :
    Initialised b.initializeStateMachine.defaultValues := by
  have htables : b.initializeStateMachine.tables.NonNull := by
    simp [initializeStateMachine, Tables.NonNull]
  exact ⟨htables, rfl, show hasFlag PodFirmware.powerOn PodFirmware.powerOn = true by decide⟩

theorem hasSockets_query (o : InitOutcome) (b : Boot) :
    (b.query o).initializeStateMachine.defaultValues.hasSockets = b.hasSockets := by
  obtain ⟨p, -, he⟩ := query_quiet o b
  rw [he]
  rfl

theorem init_of_blank {b : Boot} (h : b.hasSockets = false) (o : InitOutcome) :
    (b.step (.init o)).hasSockets = o.getsSockets ∧
      if o.getsSockets = true ∧ o.getsThrough = true then Initialised (b.step (.init o))
      else (b.step (.init o)).tables = b.tables := by
  rw [hasSockets] at h
  rw [step, badgerloopInit, if_neg (Bool.eq_false_iff.mp h)]
  unfold InitOutcome.getsSockets InitOutcome.getsThrough
  dsimp only
  cases o.newSpacex with
  | false => simp [hasSockets]
  | true =>
    cases o.newDashboard with
    | false => simp [hasSockets]
    | true =>
      cases o.connectSpacex with
      | false => simp [hasSockets]
      | true =>
        cases o.connectDashboard with
        | false => simp [hasSockets]
        | true =>
          cases o.bind with
          | false => simp [hasSockets]
          | true => exact ⟨hasSockets_query o _, initialised_defaultValues _⟩

/-! ## Runs -/

/-- The first call that gets both sockets gets through with them. -/
def Initialises : List Event → Prop
  | [] => False
  | .init o :: es => if o.getsSockets then o.getsThrough = true else Initialises es
  | .interlude _ :: es => Initialises es

section Runs

variable {b : Boot} (es : List Event)

/-- Once both sockets are there, nothing but the pod changes, and that quietly. -/
theorem step_of_hasSockets (h : b.hasSockets = true) (e : Event) :
    ∃ p, Quiet b.pod p ∧ b.step e = { b with pod := p } := by
  cases e with
  | init o => exact init_of_hasSockets h o
  | interlude i => exact ⟨_, loopStep_quiet b.pod i, rfl⟩

theorem run_of_initialised (h : b.hasSockets = true) (hi : Initialised b) :
    Initialised (Machine.run step b es) := by
  induction es generalizing b with
  | nil => exact hi
  | cons e es ih =>
    obtain ⟨p, hq, he⟩ := step_of_hasSockets h e
    rw [Machine.run_cons, he]
    exact ih h (hi.of_quiet hq)

theorem run_of_stuck (h : b.hasSockets = true) : (Machine.run step b es).tables = b.tables := by
  induction es generalizing b with
  | nil => rfl
  | cons e es ih =>
    obtain ⟨p, -, he⟩ := step_of_hasSockets h e
    rw [Machine.run_cons, he]
    exact ih h

theorem run_of_blank (h : b.hasSockets = false) :
    (Initialises es → Initialised (Machine.run step b es)) ∧
      (¬ Initialises es → (Machine.run step b es).tables = b.tables) := by
  induction es generalizing b with
  | nil => exact ⟨False.elim, fun _ => rfl⟩
  | cons e es ih =>
    cases e with
    | interlude i => exact ih h
    | init o =>
      obtain ⟨hs, hi⟩ := init_of_blank h o
      rw [Machine.run_cons, Initialises]
      cases hg : o.getsSockets with
      | false =>
        rw [hg] at hs hi
        rw [if_neg (by simp)] at hi ⊢
        rw [← hi]
        exact ih hs
      | true =>
        rw [hg] at hs hi
        rw [if_pos rfl]
        constructor
        · intro ht
          rw [if_pos ⟨rfl, ht⟩] at hi
          exact run_of_initialised es hs hi
        · intro ht
          rw [if_neg fun hc => ht hc.2] at hi
          rw [run_of_stuck es hs, hi]

end Runs

/-- What `state_machine_handler` finds in the first `application_handler`. -/
def ReadyAtFirstCall (env : Env) (b : Boot) : Prop :=
  b.tables.NonNull ∧ (b.pod.beforeHandler env).handle.currState = .idle ∧
    hasFlag (b.pod.beforeHandler env).handle.flags PodFirmware.powerOn = true

/-- The state machine is initialised when it is first run if and only if, of the calls of
`badgerloop_init`, the first that gets both sockets also connects and binds them. -/
theorem readyAtFirstCall_iff (p : Pod) (es : List Event) (env : Env) :
    ReadyAtFirstCall env (Machine.run step { pod := p } es) ↔ Initialises es := by
  have hrun := run_of_blank (b := { pod := p }) es rfl
  have hbefore := Pod.beforeHandler_before env (Machine.run step { pod := p } es).pod
  constructor
  · intro hready
    by_contra hi
    have htables := hready.1
    rw [hrun.2 hi] at htables
    simp [Tables.NonNull] at htables
  · intro hi
    have hinit := hrun.1 hi
    exact ⟨hinit.tables, hbefore.currState.trans hinit.currState,
      hbefore.powerOn.trans hinit.powerOn⟩

/-- The statics at power-up. -/
def powerUp : Pod :=
  (boot.setTelem { teamId := 0 }).setHandle {
    currState := .fault
    prevState := .fault
    nextState := .fault
    changeState := false
    flags := 0
    timestamps := fun _ => 0 }

/-- Everything succeeds but `udp_bind`. -/
def bindFails : InitOutcome where
  newSpacex := true
  newDashboard := true
  connectSpacex := true
  connectDashboard := true
  bind := false
  checkLink := false
  during := []
  response := false

/-- After a failure to bind, calling `badgerloop_init` again does not help. -/
theorem never_initialised : ¬ ReadyAtFirstCall (bench 1) (Machine.run step { pod := powerUp }
    [.init bindFails, .init { bindFails with bind := true }]) := by
  rintro ⟨htables, -⟩
  revert htables
  decide +kernel

end Boot

end PodFirmware
