import PodFirmware.Transition

/-!
# PodFirmware.Call

`stateMachineHandler_call`: one `state_machine_handler` call either stays in the current state
(`Stay`) or carries out one transition (`Move`), and what it leaves behind is described by the
functions of `PodFirmware.Transition`. Everything proved about runs rests on this theorem; no proof
about a run unfolds a handler.
-/

namespace PodFirmware

/-! ## The periodic handler -/

def inLog (env : Env) (p : Pod) : Log :=
  if fires env p then
    inEvents env p (env.clock.read .checkSet) p.handle.currState ++
      [(env.clock.read .checkSet, .inHandler p.handle.currState)]
  else []

namespace Does

variable {env : Env} {q : Pod}

theorem emit (q : Pod) (ev : Event) : Does env q (q.emit ev) none [(q.now, ev)] :=
  ⟨rfl, rfl, rfl, rfl, rfl, rfl, id, .inl rfl, rfl, rfl, rfl⟩

theorem setTimestamps (q : Pod) (ts : StateName → UInt32) :
    Does env q (q.setHandle { q.handle with timestamps := ts }) none [] :=
  ⟨rfl, rfl, rfl, rfl, rfl, rfl, id, .inl rfl, rfl, rfl, rfl⟩

end Does

namespace Pod

variable (env : Env) (p : Pod)

/-- The state in which the periodic handler starts, or in which the call goes on without it. -/
def checked (r : TickRead) (ts : StateName → UInt32) : Pod :=
  (p.readTicks env r).setHandle { p.handle with timestamps := ts }

theorem checkInterval_spec : ∃ r ts, checkInterval env p.handle.currState p =
    (fires env p, p.checked env r ts) ∧ (fires env p = true → r = .checkSet) := by
  unfold checkInterval
  rw [due_eq]
  by_cases hm : env.ticks .checkMod % stateIntervals p.handle.currState = 0
  · rw [if_pos hm]
    by_cases hc : (env.ticks .checkCmp != p.handle.timestamps p.handle.currState) = true
    · have hfires : fires env p = true := by simp only [fires, hm, hc, decide_true, Bool.and_self]
      rw [hfires]
      simp only [hc]
      exact ⟨.checkSet, _, rfl, fun _ => rfl⟩
    · have hfires : fires env p = false := by simp only [fires, hc, Bool.and_false]
      rw [hfires]
      simp only [hc]
      exact ⟨.checkCmp, p.handle.timestamps, rfl, by simp⟩
  · have hfires : fires env p = false := by simp [fires, hm]
    rw [if_neg hm, hfires]
    exact ⟨.checkMod, p.handle.timestamps, rfl, by simp⟩

theorem checkInterval_fst :
    (checkInterval env p.handle.currState p).1 = fires env p := by
  obtain ⟨_, _, he, _⟩ := checkInterval_spec env p
  rw [he]

theorem checked_does (r : TickRead) (ts : StateName → UInt32) :
    Does env p (p.checked env r ts) none [] :=
  (Does.readTicks p r).trans (Does.setTimestamps _ ts)

theorem demand_checked (r : TickRead) (ts : StateName → UInt32) (ev : Event) (s : StateName) :
    demand env ((p.checked env r ts).emit ev) s = demand env p s := by
  cases s <;> rfl

theorem inEvents_checked (r : TickRead) (ts : StateName → UInt32) (ev : Event) (t : Nat)
    (s : StateName) : inEvents env ((p.checked env r ts).emit ev) t s = inEvents env p t s := by
  cases s <;> rfl

theorem runIn_spec : Does env p (runIn env p)
      (if fires env p then demand env p p.handle.currState else none) (inLog env p) ∧
    ∃ r, (runIn env p).now = env.clock.read r := by
  obtain ⟨r, ts, he, hr⟩ := checkInterval_spec env p
  have hq := checked_does env p r ts
  unfold runIn inLog
  dsimp only
  rw [he]
  cases hf : fires env p with
  | false => exact ⟨hq, r, rfl⟩
  | true =>
    rw [hr hf] at hq ⊢
    have hin := inHandlers_does env ((p.checked env .checkSet ts).emit
      (.inHandler p.handle.currState)) p.handle.currState
    rw [demand_checked, inEvents_checked] at hin
    refine ⟨(hq.trans (Does.emit _ _)).trans hin |>.cast ?_ ?_, ?_⟩
    · simp
    · rfl
    · rcases hin.now with h | h
      · exact ⟨.checkSet, h⟩
      · exact h

end Pod

/-! ## Exit and entrance -/

structure Enters (env : Env) (q q' : Pod) (source target : StateName) : Prop where
  currState : q'.handle.currState = q.handle.currState
  telem : q'.telem = q.telem
  cfg : q'.cfg = q.cfg
  linkUp : q'.linkUp = q.linkUp
  pushingStartTs : q'.marks.pushingStartTs =
    if target = .pushing then env.ticks .toPushing else q.marks.pushingStartTs
  coastTs : q'.marks.coastTs = if target = .coast then env.ticks .toCoast else q.marks.coastTs
  powerOn : hasFlag q.handle.flags powerOn = false → hasFlag q'.handle.flags powerOn = false
  now : q'.now = q.now ∨ ∃ r, q'.now = env.clock.read r
  pushingNow : target = .pushing → q'.now = env.clock.read .toPushing
  coastNow : target = .coast → q'.now = env.clock.read .toCoast
  nextState : q'.handle.nextState = (redirect env q source target).getD q.handle.nextState
  request : pending q'.handle = (redirect env q source target).or (pending q.handle)
  log : q'.log = toEvents env q q.now source target ++ q.log

theorem Does.enters {env : Env} {q q' : Pod} {source target : StateName}
    (h : Does env q q' (redirect env q source target) (toEvents env q q.now source target))
    (hp : target ≠ .pushing) (hc : target ≠ .coast) : Enters env q q' source target where
  currState := h.currState
  telem := h.telem
  cfg := h.cfg
  linkUp := h.linkUp
  pushingStartTs := by rw [if_neg hp, h.pushingStartTs]
  coastTs := by rw [if_neg hc, h.coastTs]
  powerOn := h.powerOn
  now := h.now
  pushingNow := fun e => absurd e hp
  coastNow := fun e => absurd e hc
  nextState := h.nextState
  request := h.request
  log := h.log

namespace Pod

variable (env : Env) (q : Pod)

theorem fromHandlers_does (s target : StateName) :
    Does env q (fromHandlers s target q) none (fromEvents q.now target s) ∧
      (fromHandlers s target q).now = q.now := by
  cases s with
  | coast => exact ⟨Does.thrusters q false, rfl⟩
  | braking =>
    simp only [fromHandlers, fromBraking, fromEvents]
    by_cases ht : target = .fault
    · rw [if_neg (by simpa using ht), if_neg (by simpa using ht)]
      exact ⟨Does.refl q, rfl⟩
    · rw [if_pos ht, if_pos ht]
      exact ⟨(Does.primaryBrakes q 0).trans (Does.secondaryBrakes _ 0), rfl⟩
  | fault => exact ⟨Does.refl q, rfl⟩
  | idle => exact ⟨Does.refl q, rfl⟩
  | ready => exact ⟨Does.refl q, rfl⟩
  | pushing => exact ⟨Does.refl q, rfl⟩

theorem toFault_does (source : StateName) : Does env q (toFault env source q)
    (redirect env q source .fault) (toEvents env q q.now source .fault) := by
  cases source with
  | braking =>
    have hr := @Does.readTicks env q .toFault
    simp only [toFault, redirect, toEvents, if_true, true_and, sincePushing_readTicks,
      readTicks_cfg]
    by_cases ht : pushedFor env q .toFault > q.cfg.dontBrakeTo
    · rw [if_pos ht, if_pos ht, if_pos ht]
      exact (hr.trans (Does.primaryBrakes _ 100)).trans (Does.secondaryBrakes _ 100)
    · rw [if_neg ht, if_neg ht, if_neg ht]
      exact hr.trans (Does.changeState _ .braking)
  | pushing => exact Does.changeState q .coast
  | coast => exact Does.changeState q .braking
  | ready => exact Does.changeState q .idle
  | fault => exact Does.refl q
  | idle => exact Does.refl q

theorem toBraking_does (source : StateName) : Does env q (toBraking env q)
    (redirect env q source .braking) (toEvents env q q.now source .braking) := by
  have hr := @Does.readTicks env q .toBraking
  simp only [toBraking, redirect, toEvents, sincePushing_readTicks, readTicks_cfg]
  by_cases ht : pushedFor env q .toBraking < q.cfg.dontBrakeTo
  · rw [if_pos ht, if_pos ht, if_pos ht]
    exact hr.trans (Does.changeState _ .coast)
  · rw [if_neg ht, if_neg ht, if_neg ht]
    exact hr.trans (Does.primaryBrakes _ 100)

theorem coastFault_does (message : String) (value : Int32) :
    Does env q (coastFault env message value q) (some .fault) [(q.now, .ventThrusters true)] :=
  ((Does.assertFault q _ _).trans (Does.setReports _ _)).trans (Does.ventThrusters _ true)

theorem toCoast_eq (source : StateName) : ∃ r, Does env q r
      (redirect env q source .coast) (toEvents env q q.now source .coast) ∧
    toCoast env source q = (r.readTicks env .toCoast).setMarks
      { r.marks with coastTs := env.ticks .toCoast } := by
  unfold toCoast
  refine ⟨_, ?_, rfl⟩
  simp only [redirect, toEvents]
  by_cases hs : source ≠ .braking ∧ source ≠ .fault
  · rw [if_pos hs]
    by_cases h1 : brakePressureOut q.telem.brP1 = true
    · have hbad : brakePressureBad q.telem = true := by
        simp only [brakePressureBad, h1, Bool.true_or]
      rw [if_pos h1, if_pos ⟨hs.1, hs.2, hbad⟩, if_pos (.inr (.inr hbad))]
      exact coastFault_does env q _ _
    · rw [if_neg h1]
      by_cases h2 : brakePressureOut q.telem.brP2 = true
      · have hbad : brakePressureBad q.telem = true := by
          simp only [brakePressureBad, h2, Bool.or_true]
        rw [if_pos h2, if_pos ⟨hs.1, hs.2, hbad⟩, if_pos (.inr (.inr hbad))]
        exact coastFault_does env q _ _
      · have hok : ¬ brakePressureBad q.telem = true := by simp [brakePressureBad, h1, h2]
        rw [if_neg h2, if_neg fun h => hok h.2.2, if_neg (by tauto)]
        exact Does.refl q
  · rw [if_neg hs, if_neg fun h => hs ⟨h.1, h.2.1⟩, if_pos (by tauto)]
    exact Does.ventThrusters q true

theorem toCoast_enters (source : StateName) :
    Enters env q (toCoast env source q) source .coast := by
  obtain ⟨r, h, he⟩ := toCoast_eq env q source
  rw [he]
  exact ⟨h.currState, h.telem, h.cfg, h.linkUp, h.pushingStartTs, rfl, h.powerOn, .inr ⟨_, rfl⟩,
    by simp, fun _ => rfl, h.nextState, h.request, h.log⟩

theorem toHandlers_enters (source target : StateName) :
    Enters env q (toHandlers env target source q) source target := by
  cases target with
  | fault => exact (toFault_does env q source).enters (by simp) (by simp)
  | idle => exact (Does.refl q).enters (by simp) (by simp)
  | ready => exact (Does.refl q).enters (by simp) (by simp)
  | pushing =>
    exact ⟨rfl, rfl, rfl, rfl, rfl, rfl, id, .inr ⟨_, rfl⟩, fun _ => rfl, by simp, rfl, rfl, rfl⟩
  | coast => exact toCoast_enters env q source
  | braking => exact (toBraking_does env q source).enters (by simp) (by simp)

end Pod

/-! ## One call -/

/-- What a call that makes a transition adds to the log before it takes up the new state: `t` is the
time at which it leaves the old one. -/
def passLog (env : Env) (p : Pod) (target : StateName) (t : Nat) : Log :=
  let source := p.handle.currState
  toEvents env p t source target ++ (t, .toHandler target source) ::
    (fromEvents t target source ++ (t, .fromHandler source target) :: inLog env p)

structure Stay (env : Env) (p p' : Pod) : Prop where
  request : ∀ s, request env p = some s → s = p.handle.currState
  currState : p'.handle.currState = p.handle.currState
  pushingStartTs : p'.marks.pushingStartTs = p.marks.pushingStartTs
  coastTs : p'.marks.coastTs = p.marks.coastTs
  pending : pending p'.handle = none
  log : p'.log = inLog env p ++ p.log

/-- The call from `p` to `p'` carries out the transition to `target`, wherever it ends. -/
structure Move (env : Env) (p p' : Pod) (target : StateName) (t : Nat) : Prop where
  request : request env p = some target
  ne : target ≠ p.handle.currState
  currState : p'.handle.currState = arrival env p p.handle.currState target
  pushingStartTs : p'.marks.pushingStartTs =
    if target = .pushing then env.ticks .toPushing else p.marks.pushingStartTs
  coastTs : p'.marks.coastTs = if target = .coast then env.ticks .toCoast else p.marks.coastTs
  pushingNow : target = .pushing → p'.now = env.clock.read .toPushing
  coastNow : target = .coast → p'.now = env.clock.read .toCoast
  exitNow : ∃ r, t = env.clock.read r
  pending : ∀ s, pending p'.handle = some s → s = p'.handle.currState
  log : p'.log =
    (p'.now, .transition p.handle.currState p'.handle.currState) ::
      (passLog env p target t ++ p.log)

structure CallFrame (env : Env) (p p' : Pod) : Prop where
  telem : p'.telem = p.telem
  cfg : p'.cfg = p.cfg
  linkUp : p'.linkUp = p.linkUp
  powerOn : hasFlag p.handle.flags powerOn = false → hasFlag p'.handle.flags powerOn = false
  now : ∃ r, p'.now = env.clock.read r

structure Call (env : Env) (p p' : Pod) : Prop extends CallFrame env p p' where
  outcome : Stay env p p' ∨ ∃ target t, Move env p p' target t

section Congr

variable {env : Env} {p q : Pod} (ht : q.telem = p.telem) (hc : q.cfg = p.cfg)
  (hm : q.marks.pushingStartTs = p.marks.pushingStartTs) (source target : StateName)

include ht hc hm

theorem redirect_congr : redirect env q source target = redirect env p source target := by
  unfold redirect pushedFor
  rw [ht, hc, hm]

theorem toEvents_congr (t : Nat) :
    toEvents env q t source target = toEvents env p t source target := by
  unfold toEvents pushedFor
  rw [ht, hc, hm]

end Congr

namespace Pod

variable (env : Env) (p : Pod)

def taken (q : Pod) : Pod := q.setHandle { q.handle with changeState := false }

def arrive (q : Pod) (source : StateName) : Pod :=
  (q.setHandle { q.handle with prevState := source, currState := q.handle.nextState }).emit
    (.transition source q.handle.nextState)

/-- Between the request and the arrival stand the exit handler, up to `r`, and the entrance handler,
up to `r'`. -/
theorem switchTo_eq (q : Pod) (source target : StateName) (hs : q.handle.currState = source) :
    ∃ r r', switchTo env target q = r'.arrive source ∧ r.now = q.now ∧
      Does env q r none ((q.now, .toHandler target source) ::
        (fromEvents q.now target source ++ [(q.now, .fromHandler source target)])) ∧
      Enters env r r' source target := by
  obtain ⟨hf, hn⟩ := fromHandlers_does env (q.emit (.fromHandler source target)) source target
  have hx := ((Does.emit q (.fromHandler source target)).trans hf).trans
    (Does.emit _ (.toHandler target source))
  rw [hn] at hx
  refine ⟨_, _, ?_, ?_, hx, toHandlers_enters env _ source target⟩
  · subst hs
    rfl
  · exact hn

theorem switchTo_move {q : Pod} {ask : Option StateName} {target : StateName}
    (hin : Does env p q ask (inLog env p)) (hnow : ∃ r, q.now = env.clock.read r)
    (hreq : request env p = some target) (hne : target ≠ p.handle.currState)
    (hnext : q.handle.nextState = target) :
    CallFrame env p (switchTo env target q.taken) ∧
      Move env p (switchTo env target q.taken) target q.now := by
  obtain ⟨r, r', he, hxn, hx, ht⟩ :=
    switchTo_eq env q.taken p.handle.currState target hin.currState
  have htelem : r.telem = p.telem := hx.telem.trans hin.telem
  have hcfg : r.cfg = p.cfg := hx.cfg.trans hin.cfg
  have hmark : r.marks.pushingStartTs = p.marks.pushingStartTs :=
    hx.pushingStartTs.trans hin.pushingStartTs
  have hredir := @redirect_congr env p r htelem hcfg hmark p.handle.currState target
  have hnext' : r'.handle.nextState = arrival env p p.handle.currState target := by
    rw [ht.nextState, hredir, hx.nextState]
    exact congrArg _ hnext
  have hpend : pending r'.handle = redirect env p p.handle.currState target := by
    rw [ht.request, hredir, hx.request]
    exact Option.or_none
  rw [he]
  constructor
  · refine ⟨ht.telem.trans htelem, ht.cfg.trans hcfg, ?_, ?_, ?_⟩
    · exact ht.linkUp.trans (hx.linkUp.trans hin.linkUp)
    · exact fun h => ht.powerOn (hx.powerOn (hin.powerOn h))
    · rcases ht.now with h | h
      · obtain ⟨x, hx⟩ := hnow
        exact ⟨x, h.trans (hxn.trans hx)⟩
      · exact h
  · refine ⟨hreq, hne, hnext', ?_, ?_, ht.pushingNow, ht.coastNow, hnow, ?_, ?_⟩
    · rw [← hmark]; exact ht.pushingStartTs
    · rw [← hin.coastTs, ← show r.marks.coastTs = q.marks.coastTs from hx.coastTs]
      exact ht.coastTs
    · intro s hs
      have hs : pending r'.handle = some s := hs
      rw [hpend] at hs
      show s = r'.handle.nextState
      rw [hnext', arrival, hs]
      rfl
    · show (r'.now, Event.transition p.handle.currState r'.handle.nextState) :: r'.log = _
      rw [ht.log, hx.log, hxn, toEvents_congr htelem hcfg hmark, show q.taken.log = q.log from rfl,
        hin.log]
      simp only [passLog, List.cons_append, List.append_assoc, List.nil_append]
      rfl

theorem stateMachineHandler_eq : stateMachineHandler env p =
    if (runIn env p).handle.changeState then
      if (runIn env p).handle.currState = (runIn env p).handle.nextState then (runIn env p).taken
      else switchTo env (runIn env p).handle.nextState (runIn env p).taken
    else runIn env p := rfl

/-- One `state_machine_handler` call does what `Stay` or `Move` says. -/
theorem stateMachineHandler_call : Call env p (stateMachineHandler env p) := by
  obtain ⟨hin, hnow⟩ := runIn_spec env p
  have hreq : pending (runIn env p).handle = request env p := hin.request
  rw [stateMachineHandler_eq]
  cases hc : (runIn env p).handle.changeState with
  | false =>
    have hnone : pending (runIn env p).handle = none := by simp only [pending, hc]; rfl
    refine ⟨⟨hin.telem, hin.cfg, hin.linkUp, hin.powerOn, hnow⟩, .inl ?_⟩
    refine ⟨?_, hin.currState, hin.pushingStartTs, hin.coastTs, hnone, hin.log⟩
    intro s hs
    rw [← hreq, hnone] at hs
    cases hs
  | true =>
    have hsome : request env p = some (runIn env p).handle.nextState := by
      rw [← hreq]; simp only [pending, hc]; rfl
    rw [if_pos rfl]
    by_cases he : (runIn env p).handle.currState = (runIn env p).handle.nextState
    · rw [if_pos he]
      refine ⟨⟨hin.telem, hin.cfg, hin.linkUp, hin.powerOn, hnow⟩, .inl ?_⟩
      refine ⟨?_, hin.currState, hin.pushingStartTs, hin.coastTs, rfl, hin.log⟩
      intro s hs
      rw [hsome, ← he, hin.currState] at hs
      exact (Option.some.inj hs).symm
    · rw [if_neg he]
      have hne : (runIn env p).handle.nextState ≠ p.handle.currState := by
        rw [← hin.currState]
        exact fun e => he e.symm
      obtain ⟨hframe, hmove⟩ := switchTo_move env p hin hnow hsome hne rfl
      exact ⟨hframe, .inr ⟨_, _, hmove⟩⟩

end Pod
end PodFirmware
