import PodFirmware.Call

/-!
# PodFirmware.Aside

What the state machine leaves alone. Its handlers read the clock, print, drive the actuators and
change the handle and the marks; a part of the state that none of these touches (`Aside`) is the
same after a `state_machine_handler` call. The count of `in_braking` is set apart, as a part of the
state may include it.

* `Aside.inHandlers`, `Aside.switchTo`: the handlers.
* `Aside.stateMachineHandler`: a call, for a part without handle and marks.
* `primaryLowCount_stateMachineHandler`: what a call does to the count.
-/

namespace PodFirmware

/-- The part `g` of the state has nothing to do with what the handlers change. -/
structure Aside {α : Type} (g : Pod → α) : Prop where
  readTicks : ∀ p env r, g (p.readTicks env r) = g p
  setReports : ∀ p r, g (p.setReports r) = g p
  printf : ∀ p env site, g (Pod.printf p env site) = g p
  drive : ∀ p ev f, g (p.drive ev f) = g p
  emit : ∀ p ev, g (p.emit ev) = g p
  setMarks : ∀ p (m : Marks), m.primaryLowCount = p.marks.primaryLowCount → g (p.setMarks m) = g p
  setHandle : ∀ p (h : StateHandle), h.timestamps = p.handle.timestamps → g (p.setHandle h) = g p

namespace Pod

/-- The count of `in_braking`. -/
def countEmergency (p : Pod) : Pod :=
  if brakingEmergency p.cfg p.telem then
    p.setMarks { p.marks with primaryLowCount := p.marks.primaryLowCount + 1 }
  else p

end Pod

namespace Aside

open Pod

variable {α : Type} {g : Pod → α} (hg : Aside g) (env : Env) (p : Pod)

include hg

theorem changeState (s : StateName) : g (p.changeState s) = g p := hg.setHandle p _ rfl

theorem clearFlag (bit : UInt32) : g (p.clearFlag bit) = g p := hg.setHandle p _ rfl

theorem assertFault (site : Print) (message : String) :
    g (p.assertFault env site message) = g p :=
  (hg.setReports _ _).trans <| (hg.printf _ env site).trans (hg.changeState p .fault)

theorem idlePowerOn : g (idlePowerOn p) = g p := by
  simp only [Pod.idlePowerOn, hg.clearFlag, ventThrusters, ventSecondaryBrakes, ventPrimaryBrakes,
    thrusters, secondaryBrakes, primaryBrakes, hg.drive]

theorem idleRunOver : g (idleRunOver env p) = g p := by
  simp only [Pod.idleRunOver, hg.printf, ventThrusters, ventSecondaryBrakes, ventPrimaryBrakes,
    hg.drive]

theorem verifyDaq : g (verifyDaq env p).2 = g p := by
  unfold Pod.verifyDaq
  split
  · exact (hg.setReports _ _).trans (hg.assertFault env p _ _)
  · rfl

theorem inFault (flags : UInt32) : g (inFault flags p) = g p := by
  unfold Pod.inFault
  dsimp only
  split <;> split <;> simp only [hg.changeState, hg.clearFlag]

theorem inIdle (flags : UInt32) : g (inIdle env flags p) = g p := by
  unfold Pod.inIdle
  dsimp only
  split <;> split <;> simp only [hg.idleRunOver, hg.verifyDaq, hg.idlePowerOn]

theorem inReady : g (inReady p) = g p := by
  unfold Pod.inReady
  split
  · exact hg.changeState p _
  · rfl

theorem mustBrake (r : TickRead) : g (mustBrake env r p) = g p := by
  unfold Pod.mustBrake
  dsimp only
  split <;> simp only [hg.changeState, hg.readTicks]

theorem inPushing : g (inPushing env p) = g p := by
  refine (hg.mustBrake env _ _).trans ?_
  unfold endPush
  split
  · dsimp only
    split <;> simp only [hg.changeState, hg.readTicks]
  · rfl

theorem inCoast : g (inCoast env p) = g p := by
  have hd : g (checkDistance env p) = g p := by
    unfold checkDistance
    split
    · exact hg.changeState p _
    · split
      · exact hg.assertFault env p _ _
      · rfl
  unfold Pod.inCoast thrust thrusters
  dsimp only
  split <;> simp only [hg.drive, hg.readTicks, hg.mustBrake, hd]

theorem holdSecondary : g (holdSecondary env p) = g p.countEmergency := by
  unfold Pod.holdSecondary countEmergency secondaryBrakes
  split
  · dsimp only
    split
    · split <;> simp only [hg.drive, hg.readTicks]
    · rfl
  · rfl

theorem inBraking (flags : UInt32) : g (inBraking env flags p) = g p.countEmergency := by
  rw [← hg.holdSecondary env p]
  unfold Pod.inBraking holdPrimary primaryBrakes
  dsimp only
  split <;> split <;> simp only [hg.changeState, hg.drive, hg.readTicks]

/-- Only `in_braking` counts. -/
theorem inHandlers (s : StateName) (flags : UInt32) :
    g (inHandlers env s flags p) = g (if s = .braking then p.countEmergency else p) := by
  cases s with
  | fault => exact hg.inFault p flags
  | idle => exact hg.inIdle env p flags
  | ready => exact hg.inReady p
  | pushing => exact hg.inPushing env p
  | coast => exact hg.inCoast env p
  | braking => exact hg.inBraking env p flags

theorem fromHandlers (s target : StateName) : g (fromHandlers s target p) = g p := by
  cases s with
  | coast => simp only [Pod.fromHandlers, fromCoast, thrusters, hg.drive]
  | braking =>
    simp only [Pod.fromHandlers, fromBraking, primaryBrakes, secondaryBrakes]
    split
    · simp only [hg.drive]
    · rfl
  | fault => rfl
  | idle => rfl
  | ready => rfl
  | pushing => rfl

theorem toFault (source : StateName) : g (toFault env source p) = g p := by
  unfold Pod.toFault primaryBrakes secondaryBrakes
  dsimp only
  split
  · split <;> simp only [hg.changeState, hg.drive, hg.readTicks]
  · cases source <;> simp [hg.changeState]

theorem toCoast (source : StateName) : g (toCoast env source p) = g p := by
  have hfault (message : String) (value : Int32) : g (coastFault env message value p) = g p := by
    simp only [coastFault, ventThrusters, hg.drive, setBadValue, hg.setReports, hg.assertFault]
  unfold Pod.toCoast
  refine (hg.setMarks _ _ (by rfl)).trans <| (hg.readTicks _ _ _).trans ?_
  split
  · split
    · exact hfault _ _
    · split
      · exact hfault _ _
      · rfl
  · simp only [ventThrusters, hg.drive]

theorem toHandlers (target source : StateName) : g (toHandlers env target source p) = g p := by
  cases target with
  | fault => exact hg.toFault env p source
  | idle => rfl
  | ready => rfl
  | pushing => exact (hg.setMarks _ _ (by rfl)).trans (hg.readTicks p env .toPushing)
  | coast => exact hg.toCoast env p source
  | braking =>
    unfold Pod.toHandlers toBraking primaryBrakes
    dsimp only
    split <;> simp only [hg.changeState, hg.drive, hg.readTicks]

theorem switchTo (target : StateName) : g (switchTo env target p) = g p := by
  refine (hg.emit _ _).trans <| (hg.setHandle _ _ (by rfl)).trans ?_
  rw [hg.toHandlers, hg.emit, hg.fromHandlers, hg.emit]

/-- Handle and marks belong to the state machine entirely. -/
theorem runIn (hm : ∀ p m, g (p.setMarks m) = g p) (hh : ∀ p h, g (p.setHandle h) = g p) :
    g (runIn env p) = g p := by
  obtain ⟨r, ts, he, -⟩ := checkInterval_spec env p
  have hchecked : g (p.checked env r ts) = g p := (hh _ _).trans (hg.readTicks p env r)
  have hcount (q : Pod) : g q.countEmergency = g q := by
    unfold countEmergency
    split
    · exact hm q _
    · rfl
  unfold Pod.runIn
  dsimp only
  rw [he]
  split
  · rw [hg.inHandlers, ← hchecked, ← hg.emit (p.checked env r ts)]
    split
    · exact hcount _
    · rfl
  · exact hchecked

theorem stateMachineHandler (hm : ∀ p m, g (p.setMarks m) = g p)
    (hh : ∀ p h, g (p.setHandle h) = g p) : g (stateMachineHandler env p) = g p := by
  rw [← hg.runIn env p hm hh, stateMachineHandler_eq]
  split
  · split
    · exact hh _ _
    · exact (hg.switchTo env _ _).trans (hh _ _)
  · rfl

end Aside

/-! ## The count -/

theorem aside_primaryLowCount : Aside fun p => p.marks.primaryLowCount where
  readTicks _ _ _ := rfl
  setReports _ _ := rfl
  printf _ _ _ := rfl
  drive _ _ _ := rfl
  emit _ _ := rfl
  setMarks _ _ h := h
  setHandle _ _ _ := rfl

namespace Pod

/-- A call in `BRAKING` that finds the emergency counts it. -/
def findsEmergency (env : Env) (p : Pod) : Bool :=
  fires env p && p.handle.currState = .braking && brakingEmergency p.cfg p.telem

theorem primaryLowCount_runIn (env : Env) (p : Pod) : (runIn env p).marks.primaryLowCount =
    if p.findsEmergency env then p.marks.primaryLowCount + 1 else p.marks.primaryLowCount := by
  obtain ⟨r, ts, he, -⟩ := checkInterval_spec env p
  have hin := aside_primaryLowCount.inHandlers env
    ((p.checked env r ts).emit (.inHandler p.handle.currState)) p.handle.currState
    (p.checked env r ts).handle.flags
  unfold runIn findsEmergency
  dsimp only at hin ⊢
  rw [he]
  cases hf : fires env p with
  | false => rfl
  | true =>
    refine hin.trans ?_
    by_cases hb : p.handle.currState = .braking
    · rw [if_pos hb, countEmergency]
      simp only [hb, decide_true, Bool.true_and]
      split <;> rename_i h
      · exact (if_pos h).symm
      · exact (if_neg h).symm
    · rw [if_neg hb]
      simp only [hb, decide_false, Bool.and_false, Bool.false_and]
      rfl

theorem primaryLowCount_stateMachineHandler (env : Env) (p : Pod) :
    (stateMachineHandler env p).marks.primaryLowCount =
      if p.findsEmergency env then p.marks.primaryLowCount + 1 else p.marks.primaryLowCount := by
  rw [← primaryLowCount_runIn, stateMachineHandler_eq]
  split
  · split
    · rfl
    · exact aside_primaryLowCount.switchTo env _ _
  · rfl

end Pod

end PodFirmware
