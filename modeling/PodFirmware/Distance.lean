import PodFirmware.Application
import PodFirmware.Call

/-!
# PodFirmware.Distance

Braking for the target. `calculate_stopping_distance` returns `TARGET_END_POS` where no distance is
known, and `in_braking` tests for that value; `in_coast` tests for -1.

* `toInt_calculateStoppingDistance`: the distance as an integer.
* `coastAsks_eq`: what `in_coast` asks for while it may still coast.
* `respectsDistance_iff`: when that is what the distance calls for.
-/

namespace PodFirmware

/-! ## Stopping distance -/

/-- A stopping distance is known: the pod moves forward and is slowed down. -/
def Moving (v d : Int32) : Prop := 0 < v ∧ d < 0

/-- The negated stopping distance: the square wraps at 32 bits, and the quotient of a square that
has wrapped to a negative number is positive. -/
def wrappedQuotient (v d : Int32) : Int := (Int.bmod (v.toInt * v.toInt) (2 ^ 32)).tdiv d.toInt

section Distance

variable {cfg : Config} {v d : Int32}

theorem calculateStoppingDistance_of_not_moving (h : ¬ Moving v d) :
    calculateStoppingDistance cfg v d = cfg.targetEndPos.toInt32 := by
  have hu : v ≤ 0 ∨ d ≥ 0 := by
    by_contra hc
    rw [not_or] at hc
    exact h ⟨Int32.not_le.mp hc.1, Int32.not_le.mp hc.2⟩
  rw [calculateStoppingDistance, if_pos hu]

theorem toInt_calculateStoppingDistance (h : Moving v d) :
    (calculateStoppingDistance cfg v d).toInt = -wrappedQuotient v d := by
  have hd : d.toInt < 0 := Int32.lt_iff_toInt_lt.mp h.2
  have hk : ¬ (v ≤ 0 ∨ d ≥ 0) := by
    rintro (hv | hd')
    · exact absurd h.1 (Int32.not_lt.mpr hv)
    · exact absurd h.2 (Int32.not_lt.mpr hd')
  rw [calculateStoppingDistance, if_neg hk, Int32.toInt_neg, Int32.toInt_div, Int32.toInt_mul,
    Int.bmod_neg_bmod]
  -- only the quotient of a negative square by -1 could reach 2 ^ 31, and it is negated
  have hlo := Int.le_bmod (x := v.toInt * v.toInt) (m := 2 ^ 32) (by decide)
  have hhi := Int.bmod_lt (x := v.toInt * v.toInt) (m := 2 ^ 32) (by decide)
  have habs := Int.natAbs_tdiv_le_natAbs (Int.bmod (v.toInt * v.toInt) (2 ^ 32)) d.toInt
  show Int.bmod (-wrappedQuotient v d) (2 ^ 32) = _
  apply Int.bmod_eq_of_le
  · rw [wrappedQuotient]
    omega
  · rcases Int.le_total 0 (Int.bmod (v.toInt * v.toInt) (2 ^ 32)) with hw | hw
    · rw [wrappedQuotient]
      omega
    · have := Int.tdiv_nonneg_of_nonpos_of_nonpos hw (Int.le_of_lt hd)
      rw [wrappedQuotient]
      omega

end Distance

/-! ## The request of `in_coast` -/

/-- What `in_coast` asks for when nothing is asked for yet. -/
def Pod.coastAsks (env : Env) (p : Pod) : Option StateName := pending (p.taken.inCoast env).handle

section Coast

variable {env : Env} {p : Pod}

theorem coastAsks_eq_demand : p.coastAsks env = demand env p .coast := by
  rw [Pod.coastAsks, (Pod.inCoast_does env p.taken).request]
  exact Option.or_none

/-- A request that is already there only stays if `in_coast` makes none. -/
theorem pending_inCoast :
    pending (p.inCoast env).handle = (p.coastAsks env).or (pending p.handle) := by
  rw [coastAsks_eq_demand, (Pod.inCoast_does env p).request]

theorem coastAsks_eq (h : pushedFor env p .coastMust ≤ p.cfg.mustBrakeTo) : p.coastAsks env =
    if Pod.coastDistance p.cfg p.telem then some .braking
    else if p.telem.stoppingDistance = -1 then some .fault else none := by
  rw [coastAsks_eq_demand]
  exact if_neg (UInt32.not_lt.mpr h)

theorem coastDistance_iff : Pod.coastDistance p.cfg p.telem = true ↔
    p.telem.stoppingDistance ≠ -1 ∧ Pod.beyondTarget p.cfg p.telem = true := by
  rw [Pod.coastDistance, Bool.and_eq_true, decide_eq_true_eq]

theorem coastAsks_braking_iff (h : pushedFor env p .coastMust ≤ p.cfg.mustBrakeTo) :
    p.coastAsks env = some .braking ↔
      p.telem.stoppingDistance ≠ -1 ∧ Pod.beyondTarget p.cfg p.telem = true := by
  rw [coastAsks_eq h, ← coastDistance_iff]
  split
  · simp [*]
  · split <;> simp [*]

theorem coastAsks_fault_iff (h : pushedFor env p .coastMust ≤ p.cfg.mustBrakeTo) :
    p.coastAsks env = some .fault ↔ p.telem.stoppingDistance = -1 := by
  rw [coastAsks_eq h]
  split
  · next hdist => simp [(coastDistance_iff.mp hdist).1]
  · split <;> simp [*]

theorem faultMessage_inCoast (hd : Pod.coastDistance p.cfg p.telem = false) :
    (p.taken.inCoast env).reports.faultMessage =
      if p.telem.stoppingDistance = -1 then "Unknown stopping distance"
      else p.reports.faultMessage := by
  have hm : (p.taken.inCoast env).reports = (p.taken.checkDistance env).reports := by
    unfold Pod.inCoast Pod.thrust Pod.mustBrake
    dsimp only
    split <;> split <;> rfl
  rw [hm]
  unfold Pod.checkDistance
  have hd' : Pod.coastDistance p.taken.cfg p.taken.telem = false := hd
  rw [hd', if_neg (by decide)]
  split
  · rename_i he
    exact (if_pos he).symm
  · rename_i he
    exact (if_neg he).symm

end Coast

/-! ## Distance-based braking -/

/-- With the stopping distance for the deceleration `d` stored, `in_coast` brakes for the target
when it has to, and complains when no distance is known. -/
def RespectsDistance (env : Env) (d : Int32) (p : Pod) : Prop :=
  (p.coastAsks env = some .braking ↔ 0 < p.telem.velocity ∧
      (p.cfg.targetEndPos.toNat : Int) <
        p.telem.stoppingDistance.toInt + p.telem.position.toInt) ∧
    (¬ Moving p.telem.velocity d → p.coastAsks env = some .fault ∧
      (p.taken.inCoast env).reports.faultMessage = "Unknown stopping distance")

/-- The pod moves forward and slows down, and the quotient of a wrapped square does not pull the
sum below zero; or the end of the track is so far away that its position reads as -1. -/
def DistanceReliable (cfg : Config) (t : Telemetry) (d : Int32) : Prop :=
  (Moving t.velocity d ∧
      ¬ (1 < wrappedQuotient t.velocity d ∧ t.position.toInt < wrappedQuotient t.velocity d ∧
        cfg.targetEndPos.toNat + wrappedQuotient t.velocity d < 2 ^ 32 + t.position.toInt)) ∨
    (¬ Moving t.velocity d ∧ cfg.targetEndPos.toNat = 2 ^ 32 - 1)

/-- `SET_STOPD(calculate_stopping_distance(GET_VEL, d))`. -/
def Pod.storeDistance (d : Int32) (p : Pod) : Pod :=
  p.setTelem { p.telem with stoppingDistance := calculateStoppingDistance p.cfg p.telem.velocity d }

section Law

variable {env : Env} {p : Pod} {d : Int32}

/-- The unsigned comparison is that of the integers unless the sum is negative. -/
theorem beyondTarget_iff {cfg : Config} {t : Telemetry} :
    Pod.beyondTarget cfg t = true ↔
      (cfg.targetEndPos.toNat : Int) < t.stoppingDistance.toInt + t.position.toInt ∨
        (t.stoppingDistance.toInt + t.position.toInt < 0 ∧ (cfg.targetEndPos.toNat : Int) <
          2 ^ 32 + t.stoppingDistance.toInt + t.position.toInt) := by
  have hs := CInt.toInt_bounds t.stoppingDistance
  have hx := CInt.toInt_bounds t.position
  have hT := cfg.targetEndPos.toNat_lt
  have hsum : ((t.stoppingDistance + t.position).toUInt32.toNat : Int) =
      (t.stoppingDistance.toInt + t.position.toInt) % 2 ^ 32 := by
    rw [CInt.toNat_toUInt32, Int32.toInt_add]
    exact Int.bmod_emod
  rw [Pod.beyondTarget, decide_eq_true_eq, gt_iff_lt, UInt32.lt_iff_toNat_lt]
  omega

theorem unknown_iff {x : Int32} : x = -1 ↔ x.toInt = -1 := by
  rw [← Int32.toInt_inj]
  rfl

/-- Where no distance is known, the value that is stored has to be the one `in_coast` tests for. -/
theorem respectsDistance_of_not_moving (hm : ¬Moving p.telem.velocity d)
    (hhi : p.telem.position.toInt ≤ p.cfg.targetEndPos.toNat)
    (he : pushedFor env p .coastMust ≤ p.cfg.mustBrakeTo) :
    RespectsDistance env d p ↔ p.telem.stoppingDistance = -1 := by
  constructor
  · intro h
    exact (coastAsks_fault_iff he).mp (h.2 hm).1
  · intro hunknown
    have hno : Pod.coastDistance p.cfg p.telem = false := by
      rw [← Bool.not_eq_true, coastDistance_iff]
      exact fun h => h.1 hunknown
    refine ⟨?_, fun _ => ⟨(coastAsks_fault_iff he).mpr hunknown, ?_⟩⟩
    · have := unknown_iff.mp hunknown
      rw [coastAsks_braking_iff he]
      refine iff_of_false (fun h => h.1 hunknown) fun h => ?_
      omega
    · rw [faultMessage_inCoast hno, if_pos hunknown]

theorem respectsDistance_of_stored (hs : p.telem.stoppingDistance =
      calculateStoppingDistance p.cfg p.telem.velocity d)
    (hlo : 0 ≤ p.telem.position.toInt) (hhi : p.telem.position.toInt ≤ p.cfg.targetEndPos.toNat)
    (he : pushedFor env p .coastMust ≤ p.cfg.mustBrakeTo) :
    RespectsDistance env d p ↔ DistanceReliable p.cfg p.telem d := by
  have hT := p.cfg.targetEndPos.toNat_lt
  by_cases hm : Moving p.telem.velocity d
  · have hbeyond := @beyondTarget_iff p.cfg p.telem
    have hx := CInt.toInt_bounds p.telem.position
    have hq : p.telem.stoppingDistance.toInt = -wrappedQuotient p.telem.velocity d := by
      rw [hs, toInt_calculateStoppingDistance hm]
    have hv : 0 < p.telem.velocity := hm.1
    simp only [RespectsDistance, DistanceReliable, hm, hv, coastAsks_braking_iff he, Ne,
      unknown_iff, hbeyond, hq, true_and, not_true_eq_false, false_implies, and_true, false_and,
      or_false]
    omega
  · rw [respectsDistance_of_not_moving hm hhi he, unknown_iff, hs,
      calculateStoppingDistance_of_not_moving hm, CInt.toInt_toInt32, DistanceReliable]
    have := Int.bmod_eq_emod p.cfg.targetEndPos.toNat (2 ^ 32)
    simp only [hm, false_and, false_or, not_false_eq_true, true_and]
    split at this <;> omega

end Law

/-- In `COAST` the deceleration is `TARGET_DECEL`. -/
theorem respectsDistance_iff (env env' : Env) (p : Pod) (d : Int32)
    (hcoast : p.handle.currState = .coast) (hlo : 0 ≤ p.telem.position.toInt)
    (hhi : p.telem.position.toInt ≤ p.cfg.targetEndPos.toNat)
    (he : pushedFor env p .coastMust ≤ p.cfg.mustBrakeTo) :
    (RespectsDistance env d (p.storeDistance d) ↔ DistanceReliable p.cfg p.telem d) ∧
      (RespectsDistance env (-981) (p.badgerloopForcedData env') ↔
        DistanceReliable p.cfg p.telem (-981)) := by
  refine ⟨respectsDistance_of_stored rfl hlo hhi he, ?_⟩
  have hframe := Pod.badgerloopForcedData_frame env' p
  have hforced := Pod.badgerloopForcedData_forced env' p
  have hv : (p.badgerloopForcedData env').telem.velocity = p.telem.velocity := hforced.velocity
  have hx : (p.badgerloopForcedData env').telem.position = p.telem.position := hforced.position
  have hs : (p.badgerloopForcedData env').telem.stoppingDistance =
      calculateStoppingDistance p.cfg p.telem.velocity (-981) := by
    rw [hforced.stoppingDistance, Pod.stoppingDistance, hcoast]
    rfl
  have hsince : pushedFor env (p.badgerloopForcedData env') .coastMust =
      pushedFor env p .coastMust := by
    rw [pushedFor, hframe.marks, pushedFor]
  rw [respectsDistance_of_stored, DistanceReliable, hv, hx, hframe.cfg, DistanceReliable]
  · rw [hs, hv, hframe.cfg]
  · rwa [hx]
  · rwa [hx, hframe.cfg]
  · rwa [hsince, hframe.cfg]

/-- A pod that coasts at this position with this velocity. -/
def coastingAt (position velocity : Int32) : Pod :=
  { boot with
    handle := { boot.handle with currState := .coast }
    telem := { position, velocity } }

/-- 250 m/s at the position 1000 m: the pod has to brake, and does. -/
theorem respectsDistance_fast :
    RespectsDistance (bench 10000) (-981)
      ((coastingAt 100000 25000).badgerloopForcedData (bench 10000)) :=
  (respectsDistance_iff _ _ _ (-981) rfl (by decide) (by decide) (by decide)).2.mpr
    (.inl ⟨⟨by decide, by decide⟩, by decide⟩)

/-- At rest one metre from the start the pod brakes for the end of the track. -/
theorem brakes_at_rest :
    ((coastingAt 100 0).badgerloopForcedData (bench 10000)).coastAsks (bench 10000) =
        some .braking ∧
      ¬ ∀ env env' p, p.handle.currState = .coast → 0 ≤ p.telem.position.toInt →
        p.telem.position.toInt ≤ p.cfg.targetEndPos.toNat →
        pushedFor env p .coastMust ≤ p.cfg.mustBrakeTo →
        RespectsDistance env (-981) (p.badgerloopForcedData env') := by
  have hasks : ((coastingAt 100 0).badgerloopForcedData (bench 10000)).coastAsks (bench 10000) =
      some .braking := by decide +kernel
  refine ⟨hasks, fun h => ?_⟩
  have hv := ((h (bench 10000) (bench 10000) (coastingAt 100 0) rfl (by decide) (by decide)
    (by decide)).1.mp hasks).1
  revert hv
  decide +kernel

end PodFirmware
