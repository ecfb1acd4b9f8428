import PodFirmware.Distance
import PodFirmware.Strip

/-!
# PodFirmware.StoppingDistance

The arithmetic of `calculate_stopping_distance`. The velocity is squared in place, in 32 bits, and a
strip interval of a few milliseconds gives velocities whose square needs more.

* `exactDistance_iff_velocity`: the distance is `v * v / |d|` up to the velocity 46340.
* `exactDistance_iff`: as `getVelocity` computes it, from the interval 66 on.
-/

namespace PodFirmware

/-- Every operation of `calculate_stopping_distance` gives the integer it stands for, and a smaller
velocity never has the larger distance. -/
structure ExactDistance (cfg : Config) (v d : Int32) : Prop where
  product : (v * v).toInt = v.toInt * v.toInt
  quotient : (v * v / d).toInt = (v.toInt * v.toInt).tdiv d.toInt
  negation : (-(v * v / d)).toInt = -(v.toInt * v.toInt).tdiv d.toInt
  distance : (calculateStoppingDistance cfg v d).toInt = v.toInt * v.toInt / d.toInt.natAbs
  mono : ∀ u : Int32, 0 < u → u ≤ v →
    (calculateStoppingDistance cfg u d).toInt ≤ (calculateStoppingDistance cfg v d).toInt

section Velocity

variable {cfg : Config} {u v d : Int32}

/-- 46340 is the largest integer whose square is below `2 ^ 31`. -/
theorem square_lt_iff {x : Int} (hx : 0 < x) : x * x < 2 ^ 31 ↔ x ≤ 46340 := by
  constructor
  · intro h
    by_contra hc
    have : 46341 * 46341 ≤ x * x := Int.mul_le_mul (by omega) (by omega) (by omega) (by omega)
    omega
  · intro h
    have : x * x ≤ 46340 * 46340 := Int.mul_le_mul h h (by omega) (by omega)
    omega

theorem Moving.pos (h : Moving v d) : 0 < v.toInt := Int32.lt_iff_toInt_lt.mp h.1

theorem Moving.square_nonneg (h : Moving v d) : 0 ≤ v.toInt * v.toInt :=
  Int.mul_nonneg (Int.le_of_lt h.pos) (Int.le_of_lt h.pos)

theorem Moving.neg (h : Moving v d) : d.toInt < 0 := Int32.lt_iff_toInt_lt.mp h.2

/-- A quotient by a negative number, negated, is that by its absolute value. -/
theorem neg_tdiv_of_neg {w k : Int} (hw : 0 ≤ w) (hk : k < 0) : -w.tdiv k = w / k.natAbs := by
  have h : k = -(k.natAbs : Int) := by omega
  rw [h, Int.tdiv_neg, Int.neg_neg, Int.tdiv_eq_ediv_of_nonneg hw, Int.natAbs_neg,
    Int.natAbs_natCast]

theorem product_of_square (hm : Moving v d) (h : v.toInt * v.toInt < 2 ^ 31) :
    (v * v).toInt = v.toInt * v.toInt := by
  have hnonneg := hm.square_nonneg
  rw [Int32.toInt_mul]
  exact Int.bmod_eq_of_le (by omega) (by omega)

theorem distance_of_square (hm : Moving v d) (h : v.toInt * v.toInt < 2 ^ 31) :
    (calculateStoppingDistance cfg v d).toInt = v.toInt * v.toInt / d.toInt.natAbs := by
  have hnonneg := hm.square_nonneg
  rw [toInt_calculateStoppingDistance hm, wrappedQuotient, ← neg_tdiv_of_neg hnonneg hm.neg,
    Int.bmod_eq_of_le (by omega) (by omega)]

theorem exactDistance_of_square (hm : Moving v d) (h : v.toInt * v.toInt < 2 ^ 31) :
    ExactDistance cfg v d := by
  have hnonneg := hm.square_nonneg
  have hprod := product_of_square hm h
  have habs := Int.natAbs_tdiv_le_natAbs (v.toInt * v.toInt) d.toInt
  have hquot : (v * v / d).toInt = (v.toInt * v.toInt).tdiv d.toInt := by
    rw [Int32.toInt_div, hprod]
    exact Int.bmod_eq_of_le (by omega) (by omega)
  refine ⟨hprod, hquot, ?_, distance_of_square hm h, ?_⟩
  · have hle := neg_tdiv_of_neg hnonneg hm.neg
    have hpos : 0 ≤ v.toInt * v.toInt / d.toInt.natAbs := Int.ediv_nonneg hnonneg (by omega)
    rw [Int32.toInt_neg, hquot]
    exact Int.bmod_eq_of_le (by omega) (by omega)
  · intro u hu huv
    have hmu : Moving u d := ⟨hu, hm.2⟩
    have hsq : u.toInt * u.toInt ≤ v.toInt * v.toInt :=
      Int.mul_le_mul (Int32.le_iff_toInt_le.mp huv) (Int32.le_iff_toInt_le.mp huv)
        (Int.le_of_lt hmu.pos) (Int.le_of_lt hm.pos)
    have hd := hm.neg
    rw [distance_of_square hmu (by omega), distance_of_square hm h]
    exact Int.ediv_le_ediv (by omega) hsq

theorem exactDistance_iff_velocity (hm : Moving v d) :
    ExactDistance cfg v d ↔ v.toInt ≤ 46340 := by
  rw [← square_lt_iff hm.pos]
  constructor
  · intro h
    rw [← h.product]
    exact Int32.toInt_lt _
  · exact exactDistance_of_square hm

end Velocity

/-! ## As `getVelocity` computes it -/

theorem toInt_getVelocity {env : Env} {p : Pod} (hcm : p.cfg.cmPerStrip = 3048) :
    (p.getVelocity env).1.toInt = (3048000 / (mainInterval (env.retro .velocity)).toNat : Nat) := by
  rw [getVelocity_fst]
  split
  · rename_i h
    rw [h]
    rfl
  · have hle := Nat.div_le_self 3048000 (mainInterval (env.retro .velocity)).toNat
    have hquot : (1000 * p.cfg.cmPerStrip / mainInterval (env.retro .velocity)).toNat =
        3048000 / (mainInterval (env.retro .velocity)).toNat := by
      rw [hcm, toNat_velocity (by decide)]
      rfl
    rw [(CInt.toInt_toInt32_iff _).mpr (by omega), hquot]

/-- With the default `CM_PER_STRIP`, the distance is exact if and only if the interval is at least
66 ms. -/
theorem exactDistance_iff (env : Env) (p : Pod) (d : Int32) (hcm : p.cfg.cmPerStrip = 3048)
    (hv : 0 < (p.getVelocity env).1) (hd : d < 0) :
    ExactDistance p.cfg (p.getVelocity env).1 d ↔
      66 ≤ (mainInterval (env.retro .velocity)).toNat := by
  have hm : Moving (p.getVelocity env).1 d := ⟨hv, hd⟩
  have hpos := hm.pos
  rw [exactDistance_iff_velocity hm]
  rw [toInt_getVelocity hcm] at hpos ⊢
  generalize (mainInterval (env.retro .velocity)).toNat = interval at hpos ⊢
  rcases Nat.eq_zero_or_pos interval with rfl | hinterval
  · omega
  · have hle : 3048000 / interval < 46341 ↔ 3048000 < 46341 * interval :=
      Nat.div_lt_iff_lt_mul hinterval
    omega

/-- The strip sensor reports the interval `ms`. -/
def stripAfter (ms : UInt32) : Env :=
  { bench 1000 with retro := fun _ => { filter := Vector.replicate 3 ms } }

theorem exactDistance_at_66 : (boot.getVelocity (stripAfter 66)).1 = 46181 ∧
    ExactDistance boot.cfg (boot.getVelocity (stripAfter 66)).1 (-981) :=
  ⟨by decide +kernel, (exactDistance_iff (stripAfter 66) boot (-981) rfl (by decide +kernel)
    (by decide)).mpr (by decide +kernel)⟩

/-- One millisecond less, and the stopping distance is negative. -/
theorem distance_wraps_at_65 :
    (boot.getVelocity (stripAfter 65)).1 = 46892 ∧
      calculateStoppingDistance boot.cfg 46181 (-981) = 2173990 ∧
      calculateStoppingDistance boot.cfg 46892 (-981) = -2136705 ∧
      ¬ ∀ (env : Env) (p : Pod) (d : Int32), p.cfg.cmPerStrip = 3048 →
        0 < (p.getVelocity env).1 → d < 0 →
        ExactDistance p.cfg (p.getVelocity env).1 d := by
  have hv : (boot.getVelocity (stripAfter 65)).1 = 46892 := by decide +kernel
  refine ⟨hv, by decide +kernel, by decide +kernel, fun h => ?_⟩
  have hprod := (h (stripAfter 65) boot (-981) rfl (by decide +kernel) (by decide)).product
  rw [hv] at hprod
  revert hprod
  decide +kernel

end PodFirmware
