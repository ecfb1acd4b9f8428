import Mathlib.Data.List.Induction
import PodFirmware.Run
import PodFirmware.Stamps

/-!
# PodFirmware.Periodic

The four periodic activities of the main loop, all behind the same gate: the activity runs if
`ticks` is a multiple of the interval at the moment the gate is passed, and is not the tick of the
last time. The loop takes as long as it takes, so the gate may be passed before and after a
multiple, but not at it; then the period is skipped (`nothingMissed_iff`).

A gate never closes on its own stamp: the stamp is that of an earlier evaluation, at an earlier
tick. Only the stamp of the telemetry step is shared with others.
-/

namespace PodFirmware

inductive Activity where
  | inHandler | daq | telemetry | battery
  deriving DecidableEq, Repr

namespace Activity

/-- The state in which `application_handler`, called in `p`, comes to the gate. -/
def atGate (env : Env) (p : Pod) : Activity → Pod
  | .daq => p
  | .telemetry => p.daqStep env
  | .battery => (p.daqStep env).telemetryStep env
  | .inHandler => p.beforeHandler env

def interval (p : Pod) : Activity → UInt32
  | .inHandler => Pod.stateIntervals p.handle.currState
  | .daq => 10
  | .telemetry => 300
  | .battery => 1000

def last (p : Pod) : Activity → UInt32
  | .inHandler => p.handle.timestamps p.handle.currState
  | .daq => p.daq.lastDaqTimestamp
  | .telemetry => p.reports.lastTelemTimestamp
  | .battery => p.daq.lastBattTimestamp

def modRead : Activity → TickRead
  | .inHandler => .checkMod
  | .daq => .daqMod
  | .telemetry => .telemMod
  | .battery => .battMod

def cmpRead : Activity → TickRead
  | .inHandler => .checkCmp
  | .daq => .daqCmp
  | .telemetry => .telemCmp
  | .battery => .battCmp

def setRead : Activity → TickRead
  | .inHandler => .checkSet
  | .daq => .daqSet
  | .telemetry => .telemSet
  | .battery => .battSet

/-- Data acquisition is switched off by the override. -/
def overridden (p : Pod) : Activity → Bool
  | .daq => p.daq.manualUpdate
  | _ => false

/-- The gate lets the activity through. -/
def runs (env : Env) (p : Pod) (a : Activity) : Bool :=
  let q := a.atGate env p
  (q.due env a.modRead a.cmpRead (a.interval q) (a.last q)).1 && !a.overridden q

/-- All reads of `ticks` at the gate find the count `t`. -/
def At (a : Activity) (env : Env) (t : Nat) : Prop :=
  env.clock.read a.modRead = t ∧ env.clock.read a.cmpRead = t ∧ env.clock.read a.setRead = t

end Activity

/-! ## What runs when the gate is open -/

section Gates

variable (env : Env) (p : Pod)

theorem daqStep_eq : p.daqStep env =
    let q := (p.due env .daqMod .daqCmp 10 p.daq.lastDaqTimestamp).2
    if Activity.daq.runs env p then
      let q := q.readTicks env .daqSet
      Pod.badgerloopUpdateData env (q.setDaq { q.daq with lastDaqTimestamp := q.ticks })
    else if p.daq.manualUpdate then Pod.badgerloopForcedData env q
    else q := by
  have hd : (p.due env .daqMod .daqCmp 10 p.daq.lastDaqTimestamp).2.daq = p.daq := by
    rw [Pod.due_eq]
    split <;> rfl
  unfold Pod.daqStep
  dsimp only
  rw [hd]
  rfl

theorem telemetryStep_eq : p.telemetryStep env =
    let q := (p.due env .telemMod .telemCmp 300 p.reports.lastTelemTimestamp).2
    if (p.due env .telemMod .telemCmp 300 p.reports.lastTelemTimestamp).1 then
      let q := q.readTicks env .telemSet
      let q := q.setReports { q.reports with lastTelemTimestamp := q.ticks }
      if q.linkUp then
        if (Pod.sendBoth env q).1 then
          Pod.telemetryFault "Sending telemetry failed!" (Pod.sendBoth env q).2
        else (Pod.sendBoth env q).2
      else
        let q := Pod.telemetryFault "No network link!" q
        if hasFlag q.handle.flags powerOn then q.setFlag retryInit else q
    else q := rfl

theorem inHandler_runs : Activity.inHandler.runs env p = fires env (p.beforeHandler env) := by
  have hc := Pod.due_eq (p.beforeHandler env) env .checkMod .checkCmp
    (Pod.stateIntervals (p.beforeHandler env).handle.currState)
    ((p.beforeHandler env).handle.timestamps (p.beforeHandler env).handle.currState)
  unfold Activity.runs fires
  dsimp only [Activity.atGate, Activity.modRead, Activity.cmpRead, Activity.interval, Activity.last,
    Activity.overridden]
  rw [hc]
  split <;> simp_all

end Gates

/-! ## The telemetry step -/

/-- The part `g` of the state has nothing to do with what the telemetry step writes. -/
structure BesideTelemetry {α : Type} (g : Pod → α) : Prop where
  readTicks : ∀ p env r, g (p.readTicks env r) = g p
  setReports : ∀ p x, g (p.setReports x) = g p
  enableIrq : ∀ p, g (Pod.enableIrq p) = g p
  changeState : ∀ p s, g (p.changeState s) = g p
  setFlag : ∀ p, g (p.setFlag retryInit) = g p

namespace BesideTelemetry

variable {α : Type} {g : Pod → α} (hg : BesideTelemetry g) (env : Env) (p : Pod)

include hg

theorem due (rMod rCmp : TickRead) (interval last : UInt32) :
    g (p.due env rMod rCmp interval last).2 = g p := by
  rw [Pod.due_eq]
  split
  · exact hg.readTicks p env rCmp
  · exact hg.readTicks p env rMod

theorem sendTelemetry (result : SendResult) (r : TickRead) :
    g (Pod.sendTelemetry env result r p).2 = g p := by
  rcases Pod.sendTelemetry_changes env result r p with h | ⟨x, h⟩
  · rw [h]
  · rw [h, hg.setReports, hg.readTicks, hg.enableIrq]

theorem sendBoth : g (Pod.sendBoth env p).2 = g p := by
  rcases Pod.sendBoth_changes env p with h | ⟨r, x, h⟩
  · rw [h]
  · rw [h, hg.setReports, hg.readTicks, hg.enableIrq]

theorem telemetryFault (message : String) : g (Pod.telemetryFault message p) = g p :=
  (hg.setReports _ _).trans (hg.changeState p .fault)

theorem telemetryStep : g (p.telemetryStep env) = g p := by
  have hdue := hg.due env p .telemMod .telemCmp 300 p.reports.lastTelemTimestamp
  rw [telemetryStep_eq]
  generalize p.due env .telemMod .telemCmp 300 p.reports.lastTelemTimestamp = r at hdue ⊢
  obtain ⟨hit, q⟩ := r
  dsimp only at hdue ⊢
  have hstamped (x : Reports) : g ((q.readTicks env .telemSet).setReports x) = g p :=
    (hg.setReports _ x).trans <| (hg.readTicks q env _).trans hdue
  split
  · split
    · split
      · rw [hg.telemetryFault, hg.sendBoth, hstamped]
      · rw [hg.sendBoth, hstamped]
    · split
      · rw [hg.setFlag, hg.telemetryFault, hstamped]
      · rw [hg.telemetryFault, hstamped]
  · exact hdue

end BesideTelemetry

theorem besideTelemetry_stamps : BesideTelemetry Pod.stamps where
  readTicks _ _ _ := rfl
  setReports _ _ := rfl
  enableIrq _ := rfl
  changeState _ _ := rfl
  setFlag _ := rfl

/-! ## Stamps -/

section Steps

variable (env : Env) (p : Pod)

theorem stamps_telemetryStep : (p.telemetryStep env).stamps = p.stamps :=
  besideTelemetry_stamps.telemetryStep env p

theorem stamps_daqStep : (p.daqStep env).stamps = p.stamps ∨
    (p.daqStep env).stamps = { p.stamps with lastDaqTimestamp := env.ticks .daqSet } := by
  have hd := besideTelemetry_stamps.due env p .daqMod .daqCmp 10 p.daq.lastDaqTimestamp
  rw [daqStep_eq]
  dsimp only
  split
  · right
    rw [Pod.stamps_badgerloopUpdateData, ← hd]
    rfl
  · left
    split
    · exact (Pod.stamps_badgerloopForcedData env _).trans hd
    · exact hd

theorem stamps_battStep : (p.battStep env).stamps = p.stamps ∨
    (p.battStep env).stamps = { p.stamps with lastBattTimestamp := env.ticks .battSet } := by
  have hd := besideTelemetry_stamps.due env p .battMod .battCmp 1000 p.daq.lastBattTimestamp
  unfold Pod.battStep
  dsimp only
  split
  · right
    rw [← hd]
    rfl
  · exact .inl hd

theorem stamps_runIn : (Pod.runIn env p).stamps = p.stamps ∨
    (Pod.runIn env p).stamps = { p.stamps with
      timestamps :=
        Function.update p.handle.timestamps p.handle.currState (env.ticks .checkSet) } := by
  have hd := besideTelemetry_stamps.due env p .checkMod .checkCmp
    (Pod.stateIntervals p.handle.currState) (p.handle.timestamps p.handle.currState)
  unfold Pod.runIn Pod.checkInterval
  dsimp only
  cases hc : (p.due env .checkMod .checkCmp (Pod.stateIntervals p.handle.currState)
    (p.handle.timestamps p.handle.currState)).1 with
  | true =>
    right
    simp only [if_true, Pod.stamps_inHandlers, Pod.stamps_emit]
    generalize (p.due env .checkMod .checkCmp (Pod.stateIntervals p.handle.currState)
      (p.handle.timestamps p.handle.currState)).2 = q at hd ⊢
    have hts : q.handle.timestamps = p.handle.timestamps := congrArg Stamps.timestamps hd
    rw [Pod.stamps_setTimestamps, Pod.stamps_readTicks, Pod.readTicks_handle, hts, hd]
    rfl
  | false => exact .inl hd

theorem stamps_stateMachineHandler :
    (p.stateMachineHandler env).stamps = (Pod.runIn env p).stamps := by
  rw [Pod.stateMachineHandler_eq]
  split
  · split
    · rfl
    · exact Pod.stamps_switchTo env _ _
  · rfl

theorem lastBatt_daqStep :
    (p.daqStep env).stamps.lastBattTimestamp = p.stamps.lastBattTimestamp := by
  rcases stamps_daqStep env p with e | e <;> rw [e]

theorem lastDaq_beforeHandler : (p.beforeHandler env).stamps.lastDaqTimestamp =
    (p.daqStep env).stamps.lastDaqTimestamp := by
  have ht := stamps_telemetryStep env (p.daqStep env)
  unfold Pod.beforeHandler
  rcases stamps_battStep env ((p.daqStep env).telemetryStep env) with e | e <;> rw [e, ht]

theorem timestamps_beforeHandler :
    (p.beforeHandler env).stamps.timestamps = p.stamps.timestamps := by
  have ht := stamps_telemetryStep env (p.daqStep env)
  unfold Pod.beforeHandler
  rcases stamps_battStep env ((p.daqStep env).telemetryStep env) with e | e <;> rw [e, ht] <;>
    rcases stamps_daqStep env p with e' | e' <;> rw [e']

end Steps

namespace Activity

/-- The stamp that only the gate of the activity sets; the telemetry step has none of this kind. -/
def stamp (st : Stamps) (s : StateName) : Activity → UInt32
  | .inHandler => st.timestamps s
  | .daq => st.lastDaqTimestamp
  | .telemetry => 0
  | .battery => st.lastBattTimestamp

variable {env : Env} {p : Pod} {a : Activity} {s : StateName} {i : Input}

theorem stamp_app : a.stamp (p.applicationHandler env).stamps s = a.stamp p.stamps s ∨
    a.stamp (p.applicationHandler env).stamps s = env.ticks a.setRead := by
  have hi := stamps_runIn env (p.beforeHandler env)
  rw [show (p.applicationHandler env).stamps = _ from
    stamps_stateMachineHandler env (p.beforeHandler env)]
  cases a with
  | telemetry => exact .inl rfl
  | daq =>
    have hlate : (Pod.runIn env (p.beforeHandler env)).stamps.lastDaqTimestamp =
        (p.daqStep env).stamps.lastDaqTimestamp := by
      rw [← lastDaq_beforeHandler]
      rcases hi with e | e <;> rw [e]
    rcases stamps_daqStep env p with e | e
    · exact .inl (hlate.trans (congrArg Stamps.lastDaqTimestamp e))
    · exact .inr (hlate.trans (congrArg Stamps.lastDaqTimestamp e))
  | battery =>
    have hlate : (Pod.runIn env (p.beforeHandler env)).stamps.lastBattTimestamp =
        (p.beforeHandler env).stamps.lastBattTimestamp := by
      rcases hi with e | e <;> rw [e]
    have ht := congrArg Stamps.lastBattTimestamp (stamps_telemetryStep env (p.daqStep env))
    rcases stamps_battStep env ((p.daqStep env).telemetryStep env) with e | e
    · have he := congrArg Stamps.lastBattTimestamp e
      exact .inl (hlate.trans (he.trans (ht.trans (lastBatt_daqStep env p))))
    · exact .inr (hlate.trans (congrArg Stamps.lastBattTimestamp e))
  | inHandler =>
    have hearly := timestamps_beforeHandler env p
    rcases hi with e | e
    · exact .inl (congrFun ((congrArg Stamps.timestamps e).trans hearly) s)
    · have hts := congrFun (congrArg Stamps.timestamps e) s
      by_cases hs : s = (p.beforeHandler env).handle.currState
      · right
        rw [hs] at hts ⊢
        exact hts.trans (Function.update_self ..)
      · left
        exact hts.trans ((Function.update_of_ne hs ..).trans (congrFun hearly s))

/-- The stamp is the reading of a count at which an earlier call of the run has set it. -/
theorem stamp_run (h0 : a.stamp p.stamps s = 0) (is : List Input) :
    ∃ m, (m = 0 ∨ ∃ e, .app e ∈ is ∧ m = e.clock.read a.setRead) ∧
      a.stamp (Machine.run step p is).stamps s = Tick.reading m := by
  induction is using List.reverseRecOn with
  | nil => exact ⟨0, .inl rfl, h0⟩
  | append_singleton is i ih =>
    obtain ⟨m, hm, hs⟩ := ih
    have hm' : m = 0 ∨ ∃ e, .app e ∈ is ++ [i] ∧ m = e.clock.read a.setRead := by
      rcases hm with hm | ⟨e, he, hm⟩
      · exact .inl hm
      · exact .inr ⟨e, by simp [he], hm⟩
    rw [Machine.run_concat]
    cases i with
    | app env =>
      have happ : a.stamp ((Machine.run step p is).applicationHandler env).stamps s = _ ∨ _ :=
        stamp_app
      rcases happ with e | e
      · exact ⟨m, hm', e.trans hs⟩
      · exact ⟨env.clock.read a.setRead, .inr ⟨env, by simp, rfl⟩, e⟩
    | link up => exact ⟨m, hm', by cases a <;> exact hs⟩
    | telemetry t => exact ⟨m, hm', by cases a <;> exact hs⟩
    | override on => exact ⟨m, hm', by cases a <;> exact hs⟩
    | state c =>
      have hc : (step (Machine.run step p is) (.state c)).stamps =
          (Machine.run step p is).stamps := by
        simp only [step, Pod.consoleState]
        split <;> rfl
      exact ⟨m, hm', by rw [hc]; exact hs⟩

theorem last_atGate (ha : a ≠ .telemetry) :
    a.last (a.atGate env p) = a.stamp p.stamps p.handle.currState := by
  cases a with
  | telemetry => exact absurd rfl ha
  | daq => rfl
  | battery =>
    have ht := congrArg Stamps.lastBattTimestamp (stamps_telemetryStep env (p.daqStep env))
    exact ht.trans (lastBatt_daqStep env p)
  | inHandler =>
    have hs : (p.beforeHandler env).handle.currState = p.handle.currState :=
      (Pod.beforeHandler_before env p).currState
    show (p.beforeHandler env).stamps.timestamps (p.beforeHandler env).handle.currState = _
    rw [hs, timestamps_beforeHandler]
    rfl

theorem runs_eq : a.runs env p = (decide (env.ticks a.modRead % a.interval (a.atGate env p) = 0) &&
    env.ticks a.cmpRead != a.last (a.atGate env p) && !a.overridden (a.atGate env p)) := by
  unfold runs
  dsimp only
  rw [Pod.due_eq]
  split <;> simp_all

end Activity

/-! ## Runs -/

/-- Booted, and all stamps are still zero. -/
structure ColdStart (p : Pod) : Prop extends Booted p where
  stamps : ∀ (a : Activity) (s : StateName), a.stamp p.stamps s = 0

/-- Of two calls the later one finds later counts. -/
def InOrder (is : List Input) : Prop :=
  is.Pairwise fun i j =>
    ∀ e e', i = .app e → j = .app e' → ∀ r r', e.clock.read r ≤ e'.clock.read r'

namespace Activity

/-- `P` holds whenever the gate is passed at the counts `s` and then `t`, with a multiple of the
interval after `s` and up to `t`: of the second call, the state it starts in, and `t`. -/
def EveryGap (a : Activity) (P : Env → Pod → Nat → Prop) (p : Pod) (is : List Input) : Prop :=
  ∀ pre mid post e₁ e₂ s t, is = pre ++ .app e₁ :: (mid ++ .app e₂ :: post) →
    (∀ i ∈ mid, ∀ e, i ≠ .app e) → a.At e₁ s → a.At e₂ t → s < t →
    let p₂ := Machine.run step p (pre ++ .app e₁ :: mid)
    let q₁ := a.atGate e₁ (Machine.run step p pre)
    let q₂ := a.atGate e₂ p₂
    (a = .inHandler → q₂.handle.currState = q₁.handle.currState) → a.overridden q₂ = false →
    (∃ k, s < k * (a.interval q₂).toNat ∧ k * (a.interval q₂).toNat ≤ t) → P e₂ p₂ t

def NothingMissed (a : Activity) : Pod → List Input → Prop :=
  a.EveryGap fun e p _ => a.runs e p = true

/-- The gate is passed at the multiple itself, and the telemetry step is not told that a frame has
already been sent at this tick. -/
def MeetsMultiples (a : Activity) : Pod → List Input → Prop :=
  a.EveryGap fun e p t => t % (a.interval (a.atGate e p)).toNat = 0 ∧
    (a = .telemetry → (a.atGate e p).reports.lastTelemTimestamp ≠ Tick.reading t)

variable {env : Env} {p : Pod} {a : Activity} {is pre mid post : List Input} {e₁ e₂ : Env}
  {s t : Nat}

/-- The stamp of a gate comes from an earlier evaluation. -/
theorem stamp_le (hp : ColdStart p) (hmid : ∀ i ∈ mid, ∀ e, i ≠ .app e) (h₁ : a.At e₁ s)
    (ho : InOrder (pre ++ .app e₁ :: (mid ++ .app e₂ :: post))) (state : StateName) :
    ∃ m ≤ s, a.stamp (Machine.run step p (pre ++ .app e₁ :: mid)).stamps state =
      Tick.reading m := by
  obtain ⟨m, hm, hs⟩ := stamp_run (hp.stamps a state) (pre ++ .app e₁ :: mid)
  refine ⟨m, ?_, hs⟩
  rcases hm with rfl | ⟨e, he, rfl⟩
  · exact Nat.zero_le s
  · rcases List.mem_append.mp he with he | he
    · have hle := (List.pairwise_append.mp ho).2.2 _ he (.app e₁) (by simp) e e₁ rfl rfl
      rw [← h₁.1]
      exact hle a.setRead a.modRead
    · rcases List.mem_cons.mp he with he | he
      · cases he
        exact Nat.le_of_eq h₁.2.2
      · exact absurd rfl (hmid _ he e)

theorem reading_mod_eq_zero_iff {n : UInt32} (ht : t < 2 ^ 32) :
    Tick.reading t % n = 0 ↔ t % n.toNat = 0 := by
  rw [← UInt32.toNat_inj, UInt32.toNat_mod, Tick.toNat_reading, Nat.mod_eq_of_lt ht]
  rfl

theorem runs_iff (hp : ColdStart p) (hmid : ∀ i ∈ mid, ∀ e, i ≠ .app e) (h₁ : a.At e₁ s)
    (ho : InOrder (pre ++ .app e₁ :: (mid ++ .app e₂ :: post))) (h₂ : a.At e₂ t) (hst : s < t)
    (ht : t < 2 ^ 32) {p₂ : Pod} (he : p₂ = Machine.run step p (pre ++ .app e₁ :: mid))
    (hover : a.overridden (a.atGate e₂ p₂) = false) :
    a.runs e₂ p₂ = true ↔ t % (a.interval (a.atGate e₂ p₂)).toNat = 0 ∧
      (a = .telemetry → (a.atGate e₂ p₂).reports.lastTelemTimestamp ≠ Tick.reading t) := by
  have hmod : e₂.ticks a.modRead = Tick.reading t := congrArg Tick.reading h₂.1
  have hcmp : e₂.ticks a.cmpRead = Tick.reading t := congrArg Tick.reading h₂.2.1
  rw [runs_eq, hmod, hcmp, hover, Bool.not_false, Bool.and_true, Bool.and_eq_true,
    decide_eq_true_eq, reading_mod_eq_zero_iff ht, bne_iff_ne]
  refine and_congr_right fun _ => ?_
  by_cases ha : a = .telemetry
  · subst ha
    exact ⟨fun h _ => h.symm, fun h => (h rfl).symm⟩
  · refine iff_of_true ?_ fun h => absurd h ha
    obtain ⟨m, hm, hs⟩ := stamp_le hp hmid h₁ ho p₂.handle.currState
    rw [← he] at hs
    rw [last_atGate ha, hs]
    intro heq
    have := congrArg UInt32.toNat heq
    rw [Tick.toNat_reading, Tick.toNat_reading, Nat.mod_eq_of_lt ht,
      Nat.mod_eq_of_lt (by omega)] at this
    omega

end Activity

/-- In every run of 32 bits of ticks, no activity misses a period if and only if the gate is always
passed at a multiple of the interval where there is one to be passed, and no message to the
dashboard has been stamped at that tick. -/
theorem nothingMissed_iff {p : Pod} {is : List Input} (hp : ColdStart p) (ho : InOrder is)
    (hlt : ∀ e, .app e ∈ is → ∀ r, e.clock.read r < 2 ^ 32) (a : Activity) :
    a.NothingMissed p is ↔ a.MeetsMultiples p is := by
  constructor
  · rintro h pre mid post e₁ e₂ s t rfl hmid h₁ h₂ hst p₂ q₁ q₂ hsame hover hgap
    have ht : t < 2 ^ 32 := h₂.1 ▸ hlt e₂ (by simp) a.modRead
    exact (Activity.runs_iff hp hmid h₁ ho h₂ hst ht rfl hover).mp
      (h pre mid post e₁ e₂ s t rfl hmid h₁ h₂ hst hsame hover hgap)
  · rintro h pre mid post e₁ e₂ s t rfl hmid h₁ h₂ hst p₂ q₁ q₂ hsame hover hgap
    have ht : t < 2 ^ 32 := h₂.1 ▸ hlt e₂ (by simp) a.modRead
    exact (Activity.runs_iff hp hmid h₁ ho h₂ hst ht rfl hover).mpr
      (h pre mid post e₁ e₂ s t rfl hmid h₁ h₂ hst hsame hover hgap)

theorem coldStart_boot : ColdStart boot where
  toBooted := booted_boot
  stamps := fun a _ => by cases a <;> rfl

def twoCalls (s t : Nat) : List Input := [.app (bench s), .app (bench t)]

theorem inOrder_twoCalls {s t : Nat} (h : s ≤ t) : InOrder (twoCalls s t) := by
  refine .cons ?_ (.cons (by simp) .nil)
  rintro j hj e e' ⟨⟩ rfl r r'
  cases List.mem_singleton.mp hj
  exact h

theorem lt_of_mem_twoCalls {s t : Nat} (hs : s < 2 ^ 32) (ht : t < 2 ^ 32) :
    ∀ e, Input.app e ∈ twoCalls s t → ∀ r, e.clock.read r < 2 ^ 32 := by
  intro e he r
  simp only [twoCalls, List.mem_cons, Input.app.injEq, List.not_mem_nil, or_false] at he
  rcases he with rfl | rfl
  · exact hs
  · exact ht

/-- Two calls make one gap. -/
theorem Activity.everyGap_twoCalls {a : Activity} {P : Env → Pod → Nat → Prop} {p : Pod}
    {s t : Nat} (h : P (bench t) (step p (.app (bench s))) t) : a.EveryGap P p (twoCalls s t) := by
  intro pre mid post e₁ e₂ s' t' he _ _ h₂ _ p₂ _ _ _ _ _
  have hlen := congrArg List.length he
  simp only [twoCalls, List.length_cons, List.length_nil, List.length_append] at hlen
  obtain rfl : pre = [] := List.eq_nil_of_length_eq_zero (by omega)
  obtain rfl : mid = [] := List.eq_nil_of_length_eq_zero (by omega)
  simp only [twoCalls, List.nil_append, List.cons.injEq, Input.app.injEq] at he
  obtain ⟨rfl, rfl, -⟩ := he
  obtain rfl : t = t' := h₂.1
  exact h

theorem nothingMissed_at_10 : Activity.daq.NothingMissed boot (twoCalls 5 10) :=
  (nothingMissed_iff coldStart_boot (inOrder_twoCalls (by decide))
    (lt_of_mem_twoCalls (by decide) (by decide)) .daq).mpr
      (Activity.everyGap_twoCalls ⟨by decide, by simp⟩)

/-- Calls at 2999 and 3001 ms pass every gate before and after 3000 ms. -/
theorem periods_missed : ColdStart boot ∧ InOrder (twoCalls 2999 3001) ∧
    (∀ e, Input.app e ∈ twoCalls 2999 3001 → ∀ r, e.clock.read r < 2 ^ 32) ∧
    ∀ a : Activity, ¬ a.NothingMissed boot (twoCalls 2999 3001) := by
  refine ⟨coldStart_boot, inOrder_twoCalls (by decide),
    lt_of_mem_twoCalls (by decide) (by decide), fun a h => ?_⟩
  have hruns := h [] [] [] (bench 2999) (bench 3001) 2999 3001 rfl (by simp)
    ⟨rfl, rfl, rfl⟩ ⟨rfl, rfl, rfl⟩ (by decide) (fun _ => by cases a <;> decide +kernel)
    (by cases a <;> decide +kernel)
    ⟨3000 / (a.interval (a.atGate (bench 3001) (step boot (.app (bench 2999))))).toNat,
      by cases a <;> decide +kernel⟩
  revert hruns
  cases a <;> decide +kernel

end PodFirmware
