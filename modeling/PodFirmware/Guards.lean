import PodFirmware.Aside
import PodFirmware.Run

/-!
# PodFirmware.Guards

The guards that compare a signed quantity against an unsigned configuration value. `ACCEL_IMPULSE`
and `TARGET_END_POS` are `uint32_t`, so C compares unsigned: negative quantities pass as large ones.
`decisionsAgree_iff` says for exactly which telemetry the decisions are nevertheless those of the
same comparisons over the integers.
-/

namespace PodFirmware
namespace Pod

variable (env : Env) (p : Pod)

/-! ## The comparisons that are made -/

section Comparisons

variable {cfg : Config} {t : Telemetry}

theorem pushSeen_iff (hc : cfg.accelImpulse.toNat < 2 ^ 31) : pushSeen cfg t = true ↔
    ¬ (t.getLim Telemetry.plim1 = true ∧ t.getLim Telemetry.plim2 = true) ∧
      ((cfg.accelImpulse.toNat : Int) < t.acceleration.toInt ∨ t.acceleration.toInt < 0) := by
  rw [← CInt.lt_toUInt32_iff hc]
  cases h1 : t.getLim Telemetry.plim1 <;> cases h2 : t.getLim Telemetry.plim2 <;>
    simp [pushSeen, h1, h2]

theorem positionOver_iff (hc : cfg.targetEndPos.toNat < 2 ^ 31) : positionOver cfg t = true ↔
    (cfg.targetEndPos.toNat : Int) < t.position.toInt ∨ t.position.toInt < 0 := by
  have h := CInt.lt_toUInt32_iff hc t.position
  have hneg : t.position < -1 ↔ t.position.toInt < -1 := Int32.lt_iff_toInt_lt
  simp only [positionOver, Bool.or_eq_true, decide_eq_true_eq, hneg, gt_iff_lt, h]
  omega

def SumFits (t : Telemetry) : Prop :=
  -2 ^ 31 ≤ t.stoppingDistance.toInt + t.position.toInt ∧
    t.stoppingDistance.toInt + t.position.toInt < 2 ^ 31

theorem beyondTarget_iff (hc : cfg.targetEndPos.toNat < 2 ^ 31) (ht : SumFits t) :
    beyondTarget cfg t = true ↔
      (cfg.targetEndPos.toNat : Int) < t.stoppingDistance.toInt + t.position.toInt ∨
        t.stoppingDistance.toInt + t.position.toInt < 0 := by
  have h := CInt.lt_toUInt32_iff hc (t.stoppingDistance + t.position)
  rw [CInt.toInt_add_of_bounds ht.1 ht.2] at h
  simpa [beyondTarget] using h

theorem coastDistance_iff (hc : cfg.targetEndPos.toNat < 2 ^ 31) (ht : SumFits t) :
    coastDistance cfg t = true ↔ t.stoppingDistance.toInt ≠ -1 ∧
      ((cfg.targetEndPos.toNat : Int) < t.stoppingDistance.toInt + t.position.toInt ∨
        t.stoppingDistance.toInt + t.position.toInt < 0) := by
  have hne : t.stoppingDistance = -1 ↔ t.stoppingDistance.toInt = -1 := Int32.toInt_inj.symm
  simp only [coastDistance, Bool.and_eq_true, decide_eq_true_eq, ne_eq, hne, beyondTarget_iff hc ht]

theorem brakingDistance_iff (hc : cfg.targetEndPos.toNat < 2 ^ 31) (ht : SumFits t) :
    brakingDistance cfg t = true ↔ t.stoppingDistance.toInt ≠ cfg.targetEndPos.toNat ∧
      ((cfg.targetEndPos.toNat : Int) < t.stoppingDistance.toInt + t.position.toInt ∨
        t.stoppingDistance.toInt + t.position.toInt < 0) := by
  simp only [brakingDistance, Bool.and_eq_true, decide_eq_true_eq, ne_eq,
    CInt.toUInt32_eq_iff hc, beyondTarget_iff hc ht]

end Comparisons

/-! ## The decisions that rest on them -/

theorem inReady_asks : pending (inReady p.taken).handle = some .pushing ↔
    pushSeen p.cfg p.telem = true := by
  unfold inReady
  by_cases h : pushSeen p.cfg p.telem = true
  · rw [if_pos (by exact h)]
    exact iff_of_true rfl h
  · rw [if_neg (by exact h)]
    exact iff_of_false (by intro e; cases e) h

theorem checkDistance_asks : pending (checkDistance env p.taken).handle = some .braking ↔
    coastDistance p.cfg p.telem = true := by
  have hreq := (checkDistance_does env p.taken).request
  rw [show pending p.taken.handle = none from rfl, Option.or_none] at hreq
  rw [hreq]
  by_cases h : coastDistance p.cfg p.telem = true
  · rw [if_pos (by exact h)]
    exact iff_of_true rfl h
  · rw [if_neg (by exact h)]
    exact iff_of_false (by split <;> simp) h

structure SamePosition (p q : Pod) : Prop where
  handle : q.handle = p.handle
  cfg : q.cfg = p.cfg
  position : q.telem.position = p.telem.position

theorem SamePosition.trans {p q r : Pod} (h₁ : SamePosition p q) (h₂ : SamePosition q r) :
    SamePosition p r :=
  ⟨h₂.handle.trans h₁.handle, h₂.cfg.trans h₁.cfg, h₂.position.trans h₁.position⟩

theorem sampleLimit_position (pin : InputPin) (bit : UInt8) (r : TickRead) (site : Print)
    (mark : LimitTimes → UInt32 → LimitTimes) :
    SamePosition p (sampleLimit env pin bit r site mark p) := by
  unfold sampleLimit
  dsimp only
  split <;> exact ⟨rfl, rfl, rfl⟩

theorem badgerloopForcedData_flags : (badgerloopForcedData env p).handle.flags =
    if positionOver p.cfg p.telem then p.handle.flags ||| runOver else p.handle.flags := by
  have hstop : SamePosition p (stoppingDistance p) := ⟨rfl, rfl, rfl⟩
  have hlim : SamePosition p (sampleDlim env (samplePlim2 env (samplePlim1 env (sampleBlim2 env
      (sampleBlim1 env (stoppingDistance p)))))) :=
    hstop.trans <| (sampleLimit_position env _ _ _ _ _ _).trans <|
      (sampleLimit_position env _ _ _ _ _ _).trans <|
      (sampleLimit_position env _ _ _ _ _ _).trans <|
        (sampleLimit_position env _ _ _ _ _ _).trans (sampleLimit_position env _ _ _ _ _ _)
  have hpod (q : Pod) : SamePosition q (podSensors env q) := ⟨rfl, rfl, rfl⟩
  have h := hlim.trans (hpod _)
  have hover (q : Pod) (hq : SamePosition p q) :
      positionOver q.cfg q.telem = positionOver p.cfg p.telem := by
    rw [positionOver, hq.cfg, hq.position, positionOver]
  unfold badgerloopForcedData
  dsimp only
  rw [hover _ h]
  split
  · exact congrArg (· ||| runOver) (congrArg StateHandle.flags h.handle)
  · rw [h.handle]

theorem forcedData_raises :
    hasFlag (badgerloopForcedData env (p.clearFlag runOver)).handle.flags runOver = true ↔
      positionOver p.cfg p.telem = true := by
  rw [badgerloopForcedData_flags]
  by_cases h : positionOver p.cfg p.telem = true
  · rw [if_pos (by exact h)]
    exact iff_of_true (hasFlag_set (by decide)) h
  · rw [if_neg (by exact h)]
    refine iff_of_false ?_ h
    rw [clearFlag, setHandle_handle, hasFlag_clear]
    simp

/-- While the push has not lasted too long, `in_coast` asks for `BRAKING` for the distance only. -/
theorem inCoast_asks (h : pushedFor env p .coastMust ≤ p.cfg.mustBrakeTo) :
    pending (inCoast env p.taken).handle = some .braking ↔ coastDistance p.cfg p.telem = true := by
  have hreq := (inCoast_does env p.taken).request
  have hnot : ¬pushedFor env p.taken .coastMust > p.taken.cfg.mustBrakeTo := UInt32.not_lt.mpr h
  rw [show pending p.taken.handle = none from rfl, Option.or_none] at hreq
  rw [hreq]
  simp only [demand]
  rw [if_neg hnot]
  by_cases hd : coastDistance p.cfg p.telem = true
  · rw [if_pos (by exact hd)]
    exact iff_of_true rfl hd
  · rw [if_neg (by exact hd)]
    exact iff_of_false (by split <;> simp) hd

/-- Below the pressure that it asks for, `in_braking` counts for the distance only. -/
theorem inBraking_counts (flags : UInt32)
    (h : ¬(brakePressureOut p.telem.brP3 = true ∧ p.telem.getLim Telemetry.blim1 = true ∧
      p.telem.getLim Telemetry.blim2 = true)) :
    (inBraking env flags p).marks.primaryLowCount = p.marks.primaryLowCount + 1 ↔
      brakingDistance p.cfg p.telem = true := by
  have hin := aside_primaryLowCount.inHandlers env p .braking flags
  have hemergency : brakingEmergency p.cfg p.telem = brakingDistance p.cfg p.telem := by
    have hout : (brakePressureOut p.telem.brP3 &&
        (p.telem.getLim Telemetry.blim1 && p.telem.getLim Telemetry.blim2)) = false := by
      rw [← Bool.not_eq_true, Bool.and_eq_true, Bool.and_eq_true]
      exact h
    rw [brakingEmergency, hout, Bool.false_or]
  have hne : p.marks.primaryLowCount ≠ p.marks.primaryLowCount + 1 := by
    intro heq
    have hone := (Int32.add_right_inj p.marks.primaryLowCount).mp
      ((Int32.add_zero _).trans heq)
    exact absurd hone (by decide)
  rw [if_pos rfl, countEmergency, hemergency] at hin
  refine (Eq.congr_left hin).trans ?_
  by_cases hd : brakingDistance p.cfg p.telem = true
  · rw [if_pos hd]
    exact iff_of_true rfl hd
  · rw [if_neg hd]
    exact iff_of_false hne hd

/-- The distance condition of `in_coast`, over the integers. -/
def CoastTooFar (cfg : Config) (t : Telemetry) : Prop :=
  t.stoppingDistance.toInt ≠ -1 ∧
    (cfg.targetEndPos.toNat : Int) < t.stoppingDistance.toInt + t.position.toInt

/-- That of `in_braking`. -/
def BrakeTooFar (cfg : Config) (t : Telemetry) : Prop :=
  t.stoppingDistance.toInt ≠ cfg.targetEndPos.toNat ∧
    (cfg.targetEndPos.toNat : Int) < t.stoppingDistance.toInt + t.position.toInt

/-- The decisions taken from signed quantities are those of the comparisons over the integers: to
push, to end the run, to brake for the target, and to count towards the secondary brakes. A handler
is asked with no request pending, and the end of the run with `RUN_OVER` clear. Of the two handlers
that look at the distance, the test is compared, and what the handler as a whole does because of it:
when neither the time since the push nor the pressure decides. -/
structure DecisionsAgree : Prop where
  push : pending (inReady p.taken).handle = some .pushing ↔
    ¬ (p.telem.getLim Telemetry.plim1 = true ∧ p.telem.getLim Telemetry.plim2 = true) ∧
      (p.cfg.accelImpulse.toNat : Int) < p.telem.acceleration.toInt
  endOfRun : hasFlag (badgerloopForcedData env (p.clearFlag runOver)).handle.flags runOver = true ↔
    (p.cfg.targetEndPos.toNat : Int) < p.telem.position.toInt ∨ p.telem.position.toInt < -1
  coast : pending (checkDistance env p.taken).handle = some .braking ↔ CoastTooFar p.cfg p.telem
  inCoast : pushedFor env p .coastMust ≤ p.cfg.mustBrakeTo →
    (pending (inCoast env p.taken).handle = some .braking ↔ CoastTooFar p.cfg p.telem)
  brake : brakingDistance p.cfg p.telem = true ↔ BrakeTooFar p.cfg p.telem
  inBraking : ∀ flags, ¬(brakePressureOut p.telem.brP3 = true ∧
      p.telem.getLim Telemetry.blim1 = true ∧ p.telem.getLim Telemetry.blim2 = true) →
    ((inBraking env flags p).marks.primaryLowCount = p.marks.primaryLowCount + 1 ↔
      BrakeTooFar p.cfg p.telem)

/-- For configuration values below `2 ^ 31` and a sum that fits, all decisions agree if and only if
the acceleration is not negative or does not matter, the position is not `-1`, and the sum of
stopping distance and position is not negative. -/
theorem decisionsAgree_iff (hi : p.cfg.accelImpulse.toNat < 2 ^ 31)
    (he : p.cfg.targetEndPos.toNat < 2 ^ 31) (hs : SumFits p.telem) :
    DecisionsAgree env p ↔
      (0 ≤ p.telem.acceleration.toInt ∨
          p.telem.getLim Telemetry.plim1 = true ∧ p.telem.getLim Telemetry.plim2 = true) ∧
        p.telem.position.toInt ≠ -1 ∧
        0 ≤ p.telem.stoppingDistance.toInt + p.telem.position.toInt := by
  have hpush := (inReady_asks p).trans (pushSeen_iff hi)
  have hover := (forcedData_raises env p).trans (positionOver_iff he)
  have hcoast := (checkDistance_asks env p).trans (coastDistance_iff he hs)
  have hbrake := brakingDistance_iff (t := p.telem) he hs
  constructor
  · intro h
    have h1 := h.push
    have h2 := h.endOfRun
    have h3 := h.coast
    have h4 := h.brake
    rw [hpush] at h1
    rw [hover] at h2
    rw [hcoast, CoastTooFar] at h3
    rw [hbrake, BrakeTooFar] at h4
    refine ⟨?_, by omega, by omega⟩
    by_cases hopen : p.telem.getLim Telemetry.plim1 = true ∧ p.telem.getLim Telemetry.plim2 = true
    · exact .inr hopen
    · refine .inl ?_
      by_contra hneg
      have := (h1.mp ⟨hopen, .inr (by omega)⟩).2
      omega
  · rintro ⟨ha, hp, hsum⟩
    have hfar : coastDistance p.cfg p.telem = true ↔ CoastTooFar p.cfg p.telem := by
      rw [coastDistance_iff he hs, CoastTooFar]
      omega
    have htoo : brakingDistance p.cfg p.telem = true ↔ BrakeTooFar p.cfg p.telem := by
      rw [hbrake, BrakeTooFar]
      omega
    refine ⟨hpush.trans ?_, hover.trans ?_, (checkDistance_asks env p).trans hfar,
      fun hshort => (inCoast_asks env p hshort).trans hfar, htoo,
      fun flags hlow => (inBraking_counts env p flags hlow).trans htoo⟩
    · refine and_congr_right fun hopen => ?_
      have hpos := ha.resolve_right hopen
      omega
    · omega

/-- A pod that has been set back behind its start and is told of a long way to stop. -/
theorem decisionsAgree_behind :
    let p := boot.setTelem { acceleration := 250, position := -500, stoppingDistance := 40000 }
    DecisionsAgree (bench 0) p := by
  refine (decisionsAgree_iff (bench 0) (boot.setTelem
    { acceleration := 250, position := -500, stoppingDistance := 40000 }) (by decide) (by decide)
    ⟨by decide, by decide⟩).mpr ⟨.inl (by decide), by decide, by decide⟩

theorem decisions_disagree :
    let p := boot.setTelem { acceleration := -5 }
    p.cfg.accelImpulse.toNat < 2 ^ 31 ∧ p.cfg.targetEndPos.toNat < 2 ^ 31 ∧ SumFits p.telem ∧
      ¬ DecisionsAgree (bench 0) p := by
  refine ⟨by decide, by decide, ⟨by decide, by decide⟩, ?_⟩
  intro h
  exact absurd (h.push.mp (by decide)).2 (by decide)

end Pod
end PodFirmware
