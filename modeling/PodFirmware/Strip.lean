import Mathlib.Data.List.GetD
import Mathlib.Data.List.Induction
import PodFirmware.Application
import PodFirmware.Exti

/-!
# PodFirmware.Strip

Velocity from the strips. The interrupt writes the latest interval to `filter[count % 3]` and then
advances `count`; `MAIN_INTERVAL` reads `filter[count % 3]` with the advanced count, and so finds
the interval of two strips before, or a slot that has not been written.

* `TimeStamp.record`: the record of a line after its interrupts, which `PodFirmware.Exti` connects
  with the handlers (`Exti.interLine_eq_record`).
* `mainInterval_record`: what `MAIN_INTERVAL` reads.
* `latestInterval_iff`: the velocity is that of the latest interval exactly when the interval of two
  strips before is the same.
-/

namespace PodFirmware

/-! ## History -/

/-- The tick of the `k`-th strip, counted from 1. Strip 0 is the start, at 0. -/
def nth (ticks : List UInt32) (k : Nat) : UInt32 := (0 :: ticks).getD k 0

/-- The interval that ends with the `k`-th strip. -/
def nthInterval (ticks : List UInt32) (k : Nat) : UInt32 := nth ticks k - nth ticks (k - 1)

theorem nth_concat_of_le {ticks : List UInt32} {k : Nat} (h : k ≤ ticks.length) (t : UInt32) :
    nth (ticks ++ [t]) k = nth ticks k := by
  rw [nth, nth, ← List.cons_append, List.getD_append]
  simpa using Nat.lt_succ_of_le h

theorem nth_concat_self (ticks : List UInt32) (t : UInt32) :
    nth (ticks ++ [t]) (ticks.length + 1) = t := by
  rw [nth, ← List.cons_append, List.getD_append_right] <;> simp

theorem nthInterval_concat_of_le {ticks : List UInt32} {k : Nat} (h : k ≤ ticks.length)
    (t : UInt32) : nthInterval (ticks ++ [t]) k = nthInterval ticks k := by
  rw [nthInterval, nthInterval, nth_concat_of_le h, nth_concat_of_le (by omega)]

/-! ## Record -/

namespace TimeStamp

/-- The record after interrupts at these ticks, `exti_config` having zeroed it. -/
def record (ticks : List UInt32) : TimeStamp := ticks.foldl strip {}

theorem record_concat (ticks : List UInt32) (t : UInt32) :
    record (ticks ++ [t]) = (record ticks).strip t := by
  rw [record, List.foldl_append]
  rfl

theorem count_record (ticks : List UInt32) :
    (record ticks).count = UInt32.ofNat ticks.length := by
  induction ticks using List.reverseRecOn with
  | nil => rfl
  | append_singleton ticks t ih =>
    rw [record_concat, List.length_append, UInt32.ofNat_add, ← ih]
    rfl

theorem curr_record (ticks : List UInt32) : (record ticks).curr = nth ticks ticks.length := by
  induction ticks using List.reverseRecOn with
  | nil => rfl
  | append_singleton ticks t ih =>
    rw [record_concat, List.length_append, List.length_singleton, nth_concat_self]
    rfl

theorem slot_record {ticks : List UInt32} (hn : ticks.length < 2 ^ 32) :
    ((record ticks).count % 3).toNat = ticks.length % 3 := by
  rw [count_record, UInt32.toNat_mod, UInt32.toNat_ofNat_of_lt' hn]
  rfl

theorem filter_strip {ticks : List UInt32} (hn : ticks.length < 2 ^ 32) (t : UInt32) :
    (record (ticks ++ [t])).filter = (record ticks).filter.setIfInBounds (ticks.length % 3)
      (nthInterval (ticks ++ [t]) (ticks.length + 1)) := by
  have hval : nthInterval (ticks ++ [t]) (ticks.length + 1) = t - (record ticks).curr := by
    rw [nthInterval, nth_concat_self, Nat.add_sub_cancel, nth_concat_of_le (Nat.le_refl _),
      curr_record]
  rw [record_concat, hval, ← slot_record hn]
  rfl

/-- The three slots of the ring hold the last three intervals. -/
theorem filter_record {ticks : List UInt32} (hn : ticks.length < 2 ^ 32) {k : Nat} (h1 : 1 ≤ k)
    (hk : k ≤ ticks.length) (h3 : ticks.length < k + 3) :
    (record ticks).filter[(k - 1) % 3]? = some (nthInterval ticks k) := by
  induction ticks using List.reverseRecOn with
  | nil => simp at hk; omega
  | append_singleton ticks t ih =>
    rw [List.length_append, List.length_singleton] at hn hk h3
    have hmod : ticks.length % 3 < 3 := Nat.mod_lt _ (by decide)
    rw [filter_strip (by omega), Vector.getElem?_setIfInBounds]
    rcases Nat.lt_or_ge ticks.length k with hlast | hold
    · obtain rfl : k = ticks.length + 1 := by omega
      rw [Nat.add_sub_cancel, if_pos rfl, if_pos hmod]
    · have hne : ticks.length % 3 ≠ (k - 1) % 3 := by omega
      rw [if_neg hne, ih (by omega) hold (by omega), nthInterval_concat_of_le hold]

/-- The slots that come after those written in the first round are zero. -/
theorem filter_record_zero {ticks : List UInt32} {j : Nat} (hj : ticks.length ≤ j) (h3 : j < 3) :
    (record ticks).filter[j]? = some 0 := by
  induction ticks using List.reverseRecOn with
  | nil =>
    show (Vector.replicate 3 (0 : UInt32))[j]? = some 0
    simp [h3]
  | append_singleton ticks t ih =>
    rw [List.length_append, List.length_singleton] at hj
    have hne : ticks.length % 3 ≠ j := by omega
    rw [filter_strip (by omega), Vector.getElem?_setIfInBounds, if_neg hne, ih (by omega)]

end TimeStamp

theorem mainInterval_record {ticks : List UInt32} (hn : ticks.length < 2 ^ 32) :
    mainInterval (.record ticks) =
      if 3 ≤ ticks.length then nthInterval ticks (ticks.length - 2) else 0 := by
  rw [mainInterval, TimeStamp.slot_record hn]
  split
  · rename_i h
    have hslot : ticks.length % 3 = (ticks.length - 2 - 1) % 3 := by omega
    rw [hslot, TimeStamp.filter_record hn (by omega) (by omega) (by omega), Option.getD_some]
  · have hslot : ticks.length % 3 = ticks.length := by omega
    rw [hslot, TimeStamp.filter_record_zero (Nat.le_refl _) (by omega), Option.getD_some]

/-- Between its interrupts the line is as `record` says. -/
theorem Exti.interLine_eq_record (ticks : UInt32) (is : List Exti.Input) (l : Exti.Line)
    (h : (Machine.run Exti.step (Exti.atRest (fun _ => {}) ticks) is).todo.head? ≠ some l) :
    let s := Machine.run Exti.step (Exti.atRest (fun _ => {}) ticks) is
    s.interLine l = .record (Exti.stamps l s.log) := by
  have hinv : Exti.Inv (fun _ => {}) (Machine.run Exti.step (Exti.atRest (fun _ => {}) ticks) is) :=
    Machine.run_inv_of_step (fun _ i h => h.step i) (Exti.inv_atRest _ ticks)
  exact (hinv.record l).trans (if_neg h)

/-! ## Velocity -/

section Velocity

variable {ticks : List UInt32}

theorem nth_lt (hlt : ticks.Pairwise (· < ·)) (h2 : 2 ≤ ticks.length) :
    nth ticks (ticks.length - 1) < nth ticks ticks.length := by
  have hpair := List.pairwise_iff_getElem.mp hlt (ticks.length - 2) (ticks.length - 1) (by omega)
    (by omega) (by omega)
  have hk (k : Nat) (h1 : 1 ≤ k) (hk : k ≤ ticks.length) :
      nth ticks k = ticks.get ⟨k - 1, by omega⟩ := by
    obtain ⟨k, rfl⟩ : ∃ j, k = j + 1 := ⟨k - 1, by omega⟩
    simp [nth, List.getD_eq_getElem?_getD, show k < ticks.length by omega]
  rw [hk _ (by omega) (by omega), hk _ (by omega) (Nat.le_refl _)]
  exact hpair

theorem toNat_nthInterval (hlt : ticks.Pairwise (· < ·)) (h2 : 2 ≤ ticks.length) :
    (nthInterval ticks ticks.length).toNat =
      (nth ticks ticks.length).toNat - (nth ticks (ticks.length - 1)).toNat :=
  UInt32.toNat_sub_of_le _ _ (UInt32.le_of_lt (nth_lt hlt h2))

theorem nthInterval_pos (hlt : ticks.Pairwise (· < ·)) (h2 : 2 ≤ ticks.length) :
    0 < (nthInterval ticks ticks.length).toNat := by
  have := UInt32.lt_iff_toNat_lt.mp (nth_lt hlt h2)
  rw [toNat_nthInterval hlt h2]
  omega

/-- The environment of a call after the last strip and before the next. -/
def Env.afterStrips (env : Env) (ticks : List UInt32) : Env :=
  { env with retro := fun _ => .record ticks }

/-- Velocity and staleness are judged by the time between the last two strips: whenever the test of
`stripVelocity` is made, it compares that time with the time since the last strip. -/
def LatestInterval (env : Env) (p : Pod) (ticks : List UInt32) : Prop :=
  let interval := (nth ticks ticks.length).toNat - (nth ticks (ticks.length - 1)).toNat
  (p.getVelocity (env.afterStrips ticks)).1.toInt =
      (1000 * p.cfg.cmPerStrip.toNat / interval : Nat) ∧
    ∀ q : Pod, q.Overdue (env.afterStrips ticks) ↔
      interval < (q.ticks - nth ticks ticks.length).toNat

/-- `ticks` can have any value. -/
theorem Pod.ticks_surjective (p : Pod) (t : UInt32) : ∃ q : Pod, q.ticks = t :=
  ⟨{ p with now := t.toNat }, UInt32.ofNat_toNat⟩

/-- Every comparison comes out as with `interval` if and only if `MAIN_INTERVAL` is `interval`. -/
theorem overdue_iff (env : Env) (p : Pod) (interval : UInt32) :
    (∀ q : Pod, q.Overdue (env.afterStrips ticks) ↔
        interval.toNat < (q.ticks - nth ticks ticks.length).toNat) ↔
      mainInterval (.record ticks) = interval := by
  have hover (q : Pod) : q.Overdue (env.afterStrips ticks) ↔
      mainInterval (.record ticks) < q.ticks - nth ticks ticks.length := by
    rw [← TimeStamp.curr_record]
    rfl
  constructor
  · intro h
    have hall (t : UInt32) : mainInterval (.record ticks) < t ↔ interval < t := by
      obtain ⟨q, hq⟩ := p.ticks_surjective (t + nth ticks ticks.length)
      have := (hover q).symm.trans (h q)
      rwa [hq, UInt32.add_sub_cancel, ← UInt32.lt_iff_toNat_lt] at this
    -- neither is less than the other
    have hle : mainInterval (.record ticks) ≤ interval :=
      UInt32.not_lt.mp fun h => UInt32.lt_irrefl _ ((hall _).mpr h)
    have hge : interval ≤ mainInterval (.record ticks) :=
      UInt32.not_lt.mp fun h => UInt32.lt_irrefl _ ((hall _).mp h)
    exact UInt32.le_antisymm hle hge
  · rintro rfl q
    rw [hover q, UInt32.lt_iff_toNat_lt]

theorem getVelocity_fst (env : Env) (p : Pod) : (p.getVelocity env).1 =
    if mainInterval (env.retro .velocity) = 0 then 0
    else (1000 * p.cfg.cmPerStrip / mainInterval (env.retro .velocity)).toInt32 := by
  unfold Pod.getVelocity
  dsimp only
  split <;> rfl

theorem toNat_velocity {c m : UInt32} (hc : 1000 * c.toNat < 2 ^ 32) :
    (1000 * c / m).toNat = 1000 * c.toNat / m.toNat := by
  rw [UInt32.toNat_div, UInt32.toNat_mul, Nat.mod_eq_of_lt (by simpa using hc)]
  rfl

/-- The velocity is that of the latest interval if and only if the interval of two strips before is
the same (and the velocity fits into an `int`). -/
theorem latestInterval_iff (hlt : ticks.Pairwise (· < ·)) (h2 : 2 ≤ ticks.length)
    (hn : ticks.length < 2 ^ 32) {p : Pod} (hcm : 1000 * p.cfg.cmPerStrip.toNat < 2 ^ 32)
    (env : Env) :
    LatestInterval env p ticks ↔
      3 ≤ ticks.length ∧
        nthInterval ticks (ticks.length - 2) = nthInterval ticks ticks.length ∧
        1000 * p.cfg.cmPerStrip.toNat / (nthInterval ticks ticks.length).toNat < 2 ^ 31 := by
  have hpos := nthInterval_pos hlt h2
  have hmain := mainInterval_record hn
  have hvel : mainInterval (.record ticks) = nthInterval ticks ticks.length →
      ((p.getVelocity (env.afterStrips ticks)).1.toInt =
          (1000 * p.cfg.cmPerStrip.toNat / (nthInterval ticks ticks.length).toNat : Nat) ↔
        1000 * p.cfg.cmPerStrip.toNat / (nthInterval ticks ticks.length).toNat < 2 ^ 31) := by
    intro h
    have hne : nthInterval ticks ticks.length ≠ 0 := by
      intro h0
      simp [h0] at hpos
    have hread : mainInterval ((env.afterStrips ticks).retro .velocity) =
        nthInterval ticks ticks.length := h
    rw [getVelocity_fst, hread, if_neg hne, ← toNat_velocity hcm]
    exact CInt.toInt_toInt32_iff _
  have hsame : mainInterval (.record ticks) = nthInterval ticks ticks.length ↔
      3 ≤ ticks.length ∧
        nthInterval ticks (ticks.length - 2) = nthInterval ticks ticks.length := by
    rw [hmain]
    split
    · rename_i h3
      exact (and_iff_right h3).symm
    · rename_i h3
      refine iff_of_false (fun h0 => ?_) fun h => h3 h.1
      simp [← h0] at hpos
  unfold LatestInterval
  dsimp only
  rw [← toNat_nthInterval hlt h2, overdue_iff env p]
  constructor
  · rintro ⟨hv, hi⟩
    have h3 := hsame.mp hi
    exact ⟨h3.1, h3.2, (hvel hi).mp hv⟩
  · rintro ⟨h3, he, hq⟩
    have hi := hsame.mpr ⟨h3, he⟩
    exact ⟨(hvel hi).mpr hq, hi⟩

/-- Three strips, each 200 ms after the one before. -/
theorem latestInterval_steady : LatestInterval (bench 650) boot [200, 400, 600] :=
  (latestInterval_iff (by decide) (by decide) (by decide) (by decide) _).mpr (by decide)

/-- After 1000, 1200 and 1300 ms the velocity is that of an interval of 1000 ms, and 500 ms after
the last strip the next is not overdue. -/
theorem stale_interval : ¬ LatestInterval (bench 1350) boot [1000, 1200, 1300] ∧
    (boot.getVelocity ((bench 1350).afterStrips [1000, 1200, 1300])).1 = 3048 ∧
    ¬ { boot with now := 1800 }.Overdue ((bench 1350).afterStrips [1000, 1200, 1300]) := by
  refine ⟨fun h => absurd h.1 (by decide +kernel), by decide +kernel, by decide +kernel⟩

end Velocity

end PodFirmware
