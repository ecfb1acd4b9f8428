import PodFirmware.Lib.Machine
import PodFirmware.Lib.Rolling
import PodFirmware.Application
import PodFirmware.Beside

/-!
# PodFirmware.Rolling

The rolling mean of the accelerometer: `accelRollingBuffer`, its sum and the number of samples.

* `slots_rollAccel`: one sample, as the library's `slew` of one slot.
* `Balanced`: `accelSum` is the sum of the slots, and the slots are 16-bit values.
* `always_rolled`: what every update of a run does, `ACCEL_IMPULSE` changing in between.
-/

namespace PodFirmware

/-! ## One sample -/

/-- The slots of `accelRollingBuffer`. -/
def DaqState.slots (d : DaqState) : List Int := d.accelRollingBuffer.toList.map Int32.toInt

@[simp] theorem length_slots (d : DaqState) : d.slots.length = 10 := by simp [DaqState.slots]

/-- The range of `int16_t`. -/
def Short (x : Int) : Prop := -32768 ≤ x ∧ x ≤ 32767

instance : DecidablePred Short := fun x => inferInstanceAs (Decidable (-32768 ≤ x ∧ x ≤ 32767))

/-- The statics that the rolling mean is computed from. -/
def DaqState.rolling (d : DaqState) : Vector Int32 10 × Int32 × Int32 :=
  (d.accelRollingBuffer, d.accelSum, d.accelCount)

/-- After `n` samples. -/
structure Balanced (d : DaqState) (n : Nat) : Prop where
  sum : d.accelSum.toInt = d.slots.sum
  short : ∀ x ∈ d.slots, Short x
  count : d.accelCount.toInt = n

/-- What `badgerloop_update_data` stores for a sample. -/
def nextSlot (impulse : UInt32) (prev sample : Int32) : Int32 :=
  let diff := if sample - prev > 0 then sample - prev else prev - sample
  if diff.toUInt32 > impulse then
    if sample - prev > 0 then (prev.toUInt32 + impulse).toInt32
    else (prev.toUInt32 - impulse).toInt32
  else sample

section Sample

variable {d : DaqState} {n : Nat} {cfg : Config} {impulse : UInt32} {prev sample : Int32}

theorem toInt_sub_short (hp : Short prev.toInt) (hs : Short sample.toInt) :
    (sample - prev).toInt = sample.toInt - prev.toInt := by
  unfold Short at hp hs
  rw [Int32.toInt_sub]
  exact Int.bmod_eq_of_le (by omega) (by omega)

theorem toInt_add_toInt32 (x : Int32) (c : UInt32) :
    (x.toUInt32 + c).toInt32.toInt = Int.bmod (x.toInt + c.toNat) (2 ^ 32) := by
  have hc := CInt.toInt_toInt32 c
  have h : (x.toUInt32 + c).toInt32 = x + c.toInt32 := rfl
  rw [h, Int32.toInt_add, hc, Int.add_bmod_bmod]

theorem toInt_sub_toInt32 (x : Int32) (c : UInt32) :
    (x.toUInt32 - c).toInt32.toInt = Int.bmod (x.toInt - c.toNat) (2 ^ 32) := by
  have hc := CInt.toInt_toInt32 c
  have h : (x.toUInt32 - c).toInt32 = x - c.toInt32 := rfl
  rw [h, Int32.toInt_sub, hc, Int.sub_bmod_bmod]

/-- The comparison with `ACCEL_IMPULSE` is unsigned, and the difference is not negative. -/
theorem toNat_diff (hp : Short prev.toInt) (hs : Short sample.toInt) :
    (if sample - prev > 0 then sample - prev else prev - sample).toUInt32.toNat =
      (sample.toInt - prev.toInt).natAbs := by
  have hsub := toInt_sub_short hp hs
  have hsub' := toInt_sub_short hs hp
  have hpos : sample - prev > 0 ↔ prev.toInt < sample.toInt := by
    rw [gt_iff_lt, Int32.lt_iff_toInt_lt, hsub, Int32.toInt_zero]
    omega
  unfold Short at hp hs
  by_cases h : sample - prev > 0
  · have hmod := CInt.toNat_toUInt32 (sample - prev)
    rw [if_pos h]
    rw [hpos] at h
    omega
  · have hmod := CInt.toNat_toUInt32 (prev - sample)
    rw [if_neg h]
    rw [hpos] at h
    omega

theorem toInt_nextSlot (hp : Short prev.toInt) (hs : Short sample.toInt) :
    (nextSlot impulse prev sample).toInt =
      Rolling.slew impulse.toNat prev.toInt sample.toInt := by
  have hdiff := toNat_diff hp hs
  have hsub := toInt_sub_short hp hs
  have hpos : sample - prev > 0 ↔ prev.toInt < sample.toInt := by
    rw [gt_iff_lt, Int32.lt_iff_toInt_lt, hsub, Int32.toInt_zero]
    omega
  unfold nextSlot Rolling.slew
  simp only [gt_iff_lt, UInt32.lt_iff_toNat_lt] at hdiff hpos ⊢
  rw [hdiff]
  unfold Short at hp hs
  split
  · -- here `ACCEL_IMPULSE` is less than a difference of 16-bit values
    by_cases h : prev.toInt < sample.toInt
    · rw [if_pos (hpos.mpr h), if_pos h, toInt_add_toInt32]
      exact Int.bmod_eq_of_le (by omega) (by omega)
    · rw [if_neg (mt hpos.mp h), if_neg h, toInt_sub_toInt32]
      exact Int.bmod_eq_of_le (by omega) (by omega)
  · rfl

/-- The slot of the next sample. -/
theorem slot_eq (h : d.accelCount.toInt = n) : (d.accelCount % 10).toNatClampNeg = n % 10 := by
  rw [← Int32.toNat_toInt, Int32.toInt_mod, h]
  rfl

theorem getD_slots (i : Nat) : d.slots.getD i 0 = (d.accelRollingBuffer[i]?.getD 0).toInt := by
  by_cases hi : i < 10
  · simp [DaqState.slots, hi]
  · simp [DaqState.slots, hi]

theorem short_getD (h : ∀ x ∈ d.slots, Short x) (i : Nat) : Short (d.slots.getD i 0) := by
  by_cases hi : i < d.slots.length
  · rw [List.getD_eq_getElem _ _ hi]
    exact h _ (List.getElem_mem hi)
  · rw [List.getD_eq_default _ _ (by omega)]
    exact ⟨by decide, by decide⟩

theorem short_sample (x : Int16) : Short x.toInt32.toInt := by
  rw [Int16.toInt_toInt32]
  have := x.le_toInt
  have := x.toInt_lt
  exact ⟨by omega, by omega⟩

/-- The slot that the next sample replaces, and what it becomes. -/
theorem rollAccel_eq (h : d.accelCount.toInt = n) :
    let prev := d.accelRollingBuffer[n % 10]?.getD 0
    let next := nextSlot cfg.accelImpulse prev d.accelBuffer0.toInt32
    Pod.rollAccel cfg d = { d with
      accelRollingBuffer := d.accelRollingBuffer.setIfInBounds (n % 10) next
      accelSum := d.accelSum - prev + next
      accelCount := d.accelCount + 1 } := by
  rw [← slot_eq h]
  rfl

theorem toInt_next (h : Balanced d n) :
    (nextSlot cfg.accelImpulse (d.accelRollingBuffer[n % 10]?.getD 0)
        d.accelBuffer0.toInt32).toInt =
      Rolling.slew cfg.accelImpulse.toNat (d.slots.getD (n % 10) 0) d.accelBuffer0.toInt := by
  have hprev := short_getD h.short (n % 10)
  rw [getD_slots] at hprev ⊢
  rw [toInt_nextSlot hprev (short_sample _), Int16.toInt_toInt32]

theorem slots_rollAccel (h : Balanced d n) : (Pod.rollAccel cfg d).slots =
    d.slots.set (n % 10) (Rolling.slew cfg.accelImpulse.toNat (d.slots.getD (n % 10) 0)
      d.accelBuffer0.toInt) := by
  rw [rollAccel_eq h.count, DaqState.slots, Vector.toList_setIfInBounds, List.map_set, toInt_next h]
  rfl

/-- The sum and the slots need each other: the sum does not overflow as the slots are short. -/
theorem balanced_rollAccel (h : Balanced d n) (hn : n + 1 < 2 ^ 31) :
    Balanced (Pod.rollAccel cfg d) (n + 1) := by
  have hslots : (Pod.rollAccel cfg d).slots = d.slots.set (n % 10) _ := slots_rollAccel h
  have hshort : ∀ x ∈ (Pod.rollAccel cfg d).slots, Short x := by
    intro x hx
    rw [hslots] at hx
    rcases List.mem_or_eq_of_mem_set hx with hx | rfl
    · exact h.short x hx
    · have := short_sample d.accelBuffer0
      rw [Int16.toInt_toInt32] at this
      exact Rolling.slew_mem (short_getD h.short _) this
  have hbounds := Rolling.sum_bounds hshort
  have hlen : (Pod.rollAccel cfg d).slots.length = 10 := length_slots _
  refine ⟨?_, hshort, ?_⟩
  · have hsum : (Pod.rollAccel cfg d).slots.sum = d.accelSum.toInt - d.slots.getD (n % 10) 0 +
        Rolling.slew cfg.accelImpulse.toNat (d.slots.getD (n % 10) 0) d.accelBuffer0.toInt := by
      rw [hslots, Rolling.sum_set (by simp; omega), h.sum]
    rw [hlen, hsum] at hbounds
    rw [hsum, rollAccel_eq h.count]
    show (_ - _ + _ : Int32).toInt = _
    rw [Int32.toInt_add, Int32.toInt_sub, toInt_next h, Int.bmod_add_bmod, ← getD_slots]
    exact Int.bmod_eq_of_le (by omega) (by omega)
  · rw [rollAccel_eq h.count]
    show (d.accelCount + 1).toInt = _
    have h1 : (1 : Int32).toInt = 1 := rfl
    rw [CInt.toInt_add_of_bounds, h.count, h1]
    · rfl
    · rw [h.count, h1]
      omega
    · rw [h.count, h1]
      omega

end Sample

/-! ## One update -/

namespace Pod

/-- `mpu9250_handler` has a sample ready. -/
def sampled (env : Env) (p : Pod) : Bool := (mpu9250Handler env p).1

section Update

variable (env : Env) (p : Pod)

theorem sampled_setTelem (t : Telemetry) : (p.setTelem t).sampled env = p.sampled env := by
  have hread (x : TickRead) : ((p.setTelem t).readTicks env x).ticks =
      (p.readTicks env x).ticks := rfl
  unfold sampled mpu9250Handler
  simp only [setTelem_daq, hread, readTicks_daq]
  split
  · rfl
  · split <;> rfl

theorem mpu9250Handler_rolling : (mpu9250Handler env p).2.daq.rolling = p.daq.rolling ∧
    (p.sampled env = true → (mpu9250Handler env p).2.daq.accelBuffer0 = env.fifoAverage) ∧
    (mpu9250Handler env p).2.telem = p.telem ∧ (mpu9250Handler env p).2.cfg = p.cfg := by
  unfold sampled mpu9250Handler
  dsimp only
  split
  · exact ⟨rfl, by simp, rfl, rfl⟩
  · split
    · exact ⟨rfl, fun _ => rfl, rfl, rfl⟩
    · exact ⟨rfl, by simp, rfl, rfl⟩

theorem accelerometer_rolling : let q := accelerometer env p
    (p.sampled env = true → (∃ d : DaqState, d.rolling = p.daq.rolling ∧
        d.accelBuffer0 = env.fifoAverage ∧ q.daq.rolling = (rollAccel p.cfg d).rolling) ∧
      q.telem.acceleration = -(q.daq.accelSum / 10)) ∧
    (p.sampled env = false → q.daq.rolling = p.daq.rolling ∧
      q.telem.acceleration = p.telem.acceleration) := by
  obtain ⟨hrolling, hsample, htelem, hcfg⟩ := mpu9250Handler_rolling env p
  unfold sampled at hsample ⊢
  unfold accelerometer
  generalize mpu9250Handler env p = r at hrolling hsample htelem hcfg
  obtain ⟨ready, q⟩ := r
  dsimp only at hrolling hsample htelem hcfg ⊢
  cases ready with
  | false =>
    refine ⟨fun h => absurd h (by decide), fun _ => ⟨hrolling, ?_⟩⟩
    exact congrArg Telemetry.acceleration htelem
  | true =>
    refine ⟨fun _ => ?_, fun h => absurd h (by decide)⟩
    let d : DaqState := { q.daq with
      prevAccelTs := q.daq.currAccelTs, currAccelTs := (q.readTicks env .accelTs).ticks }
    have hd : d.rolling = p.daq.rolling := hrolling
    have hb : d.accelBuffer0 = env.fifoAverage := hsample rfl
    rw [if_pos rfl, ← hcfg]
    split
    · exact ⟨⟨d, hd, hb, rfl⟩, rfl⟩
    · exact ⟨⟨d, hd, hb, rfl⟩, rfl⟩

theorem besideStrips_rolling :
    BesideStrips fun p : Pod => (p.daq.rolling, p.telem.acceleration) where
  readTicks _ _ _ := rfl
  critical _ _ _ := rfl
  moved _ _ _ := rfl

/-- Of an update only the accelerometer matters here. -/
theorem badgerloopUpdateData_rolling : let q := badgerloopUpdateData env p
    (p.sampled env = true → (∃ d : DaqState, d.rolling = p.daq.rolling ∧
        d.accelBuffer0 = env.fifoAverage ∧ q.daq.rolling = (rollAccel p.cfg d).rolling) ∧
      q.telem.acceleration = -(q.daq.accelSum / 10)) ∧
    (p.sampled env = false → q.daq.rolling = p.daq.rolling ∧
      q.telem.acceleration = p.telem.acceleration) := by
  let counted := p.setTelem { p.telem with sCount := (env.retro .scount).count }
  let moved := stripVelocity env (accelerometer env counted)
  let placed := pressures env (moved.setTelem { moved.telem with
    position := (moved.cfg.cmPerStrip * moved.telem.sCount).toInt32 })
  obtain ⟨hdaq, htelem⟩ :=
    Prod.mk.inj (besideStrips_rolling.stripVelocity env (accelerometer env counted))
  have hrolling : (badgerloopUpdateData env p).daq.rolling =
      (accelerometer env counted).daq.rolling :=
    (congrArg DaqState.rolling (statics_badgerloopForcedData env placed)).trans hdaq
  have hmean : (badgerloopUpdateData env p).telem.acceleration =
      (accelerometer env counted).telem.acceleration :=
    (badgerloopForcedData_forced env placed).acceleration.trans htelem
  have hsum : (badgerloopUpdateData env p).daq.accelSum =
      (accelerometer env counted).daq.accelSum := congrArg (fun r => r.2.1) hrolling
  have haccel := accelerometer_rolling env counted
  rw [show counted.sampled env = p.sampled env from sampled_setTelem env p _] at haccel
  dsimp only at haccel ⊢
  rw [hrolling, hmean, hsum]
  exact haccel

end Update

end Pod

/-- The acceleration for a sum. -/
def DaqState.published (d : DaqState) : Int := -d.accelSum.toInt.tdiv 10

/-- What an update that finds `p`, after `n` samples, makes of it: `p'`. -/
structure Rolled (env : Env) (n : Nat) (p p' : Pod) : Prop where
  sum : p'.daq.accelSum.toInt = p'.daq.slots.sum
  short : ∀ x ∈ p'.daq.slots, Short x
  others : ∀ i, i ≠ n % 10 → p'.daq.slots[i]? = p.daq.slots[i]?
  slot : (p'.daq.slots.getD (n % 10) 0 - p.daq.slots.getD (n % 10) 0).natAbs ≤
    p.cfg.accelImpulse.toNat
  mean : (p'.daq.published - p.daq.published).natAbs ≤ (p.cfg.accelImpulse.toNat + 9) / 10
  acceleration : p.sampled env = true → p'.telem.acceleration.toInt = p'.daq.published
  unsampled : p.sampled env = false → p'.daq.rolling = p.daq.rolling ∧
    p'.telem.acceleration = p.telem.acceleration

section Law

variable {d d' : DaqState} {n : Nat} {env : Env} {p : Pod}

theorem slots_congr (h : d'.rolling = d.rolling) : d'.slots = d.slots :=
  congrArg (fun r => r.1.toList.map Int32.toInt) h

theorem accelSum_congr (h : d'.rolling = d.rolling) : d'.accelSum = d.accelSum :=
  congrArg (fun r => r.2.1) h

theorem Balanced.congr (h : d'.rolling = d.rolling) (hd : Balanced d n) : Balanced d' n where
  sum := by rw [slots_congr h, accelSum_congr h]; exact hd.sum
  short := by rw [slots_congr h]; exact hd.short
  count := by
    have hc : d'.accelCount = d.accelCount := congrArg (fun r => r.2.2) h
    rw [hc]; exact hd.count

/-- The mean of short slots is short, so its negation does not wrap. -/
theorem toInt_mean (h : Balanced d n) : (-(d.accelSum / 10)).toInt = d.published := by
  have hbounds := Rolling.sum_bounds h.short
  rw [length_slots, ← h.sum] at hbounds
  have h10 : (10 : Int32).toInt = 10 := rfl
  have habs := Int.natAbs_tdiv_le_natAbs d.accelSum.toInt 10
  rw [Int32.toInt_neg, Int32.toInt_div, h10, Int.bmod_eq_of_le (n := d.accelSum.toInt.tdiv 10)]
  · exact Int.bmod_eq_of_le (by omega) (by omega)
  · omega
  · omega

/-- Nothing moves without a sample. -/
theorem rolled_of_unsampled (h : Balanced p.daq n) (hs : p.sampled env = false) {q : Pod}
    (hq : q.daq.rolling = p.daq.rolling) (ha : q.telem.acceleration = p.telem.acceleration) :
    Rolled env n p q where
  sum := (h.congr hq).sum
  short := (h.congr hq).short
  others _ _ := by rw [slots_congr hq]
  slot := by rw [slots_congr hq]; omega
  mean := by rw [DaqState.published, DaqState.published, accelSum_congr hq]; omega
  acceleration hs' := by rw [hs] at hs'; cases hs'
  unsampled _ := ⟨hq, ha⟩

/-- With a sample the sum moves by as much as its slot. -/
theorem rolled_of_sampled (h : Balanced p.daq n) (hn : n + 1 < 2 ^ 31) (hs : p.sampled env = true)
    (hd : d.rolling = p.daq.rolling) {q : Pod}
    (hq : q.daq.rolling = (Pod.rollAccel p.cfg d).rolling)
    (ha : q.telem.acceleration = -(q.daq.accelSum / 10)) : Rolled env n p q := by
  have hbd : Balanced d n := h.congr hd
  have hbq : Balanced q.daq (n + 1) := (balanced_rollAccel hbd hn).congr hq
  have hslots : q.daq.slots = p.daq.slots.set (n % 10)
      (Rolling.slew p.cfg.accelImpulse.toNat (p.daq.slots.getD (n % 10) 0)
        d.accelBuffer0.toInt) := by
    rw [slots_congr hq, slots_rollAccel hbd, slots_congr hd]
  have hi : n % 10 < p.daq.slots.length := by
    rw [length_slots]
    omega
  have hslew := @Rolling.natAbs_slew_sub_le p.cfg.accelImpulse.toNat
    (p.daq.slots.getD (n % 10) 0) d.accelBuffer0.toInt
  refine ⟨hbq.sum, hbq.short, ?_, ?_, ?_, ?_, ?_⟩
  · intro i hne
    rw [hslots, List.getElem?_set_ne (Ne.symm hne)]
  · rw [hslots, List.getD_eq_getElem?_getD, List.getElem?_set_self hi]
    exact hslew
  · have hmoved : (q.daq.accelSum.toInt - p.daq.accelSum.toInt).natAbs ≤
        p.cfg.accelImpulse.toNat := by
      rw [hbq.sum, hslots, Rolling.sum_set hi, h.sum]
      omega
    have hmean : (q.daq.accelSum.toInt.tdiv 10 - p.daq.accelSum.toInt.tdiv 10).natAbs ≤
        (p.cfg.accelImpulse.toNat + 9) / 10 := Rolling.natAbs_tdiv_sub_le (by decide) hmoved
    rw [DaqState.published, DaqState.published]
    omega
  · intro _
    rw [ha, toInt_mean hbq]
  · intro hs'
    rw [hs] at hs'
    cases hs'

end Law

/-! ## Runs -/

/-- One update, in whatever condition it finds everything but the rolling mean, `ACCEL_IMPULSE`
included. -/
structure Update where
  found : Pod
  env : Env

/-- The pod, and how many samples have been taken. -/
structure Sampler where
  pod : Pod
  taken : Nat

namespace Sampler

/-- What an update finds. -/
def before (s : Sampler) (u : Update) : Pod :=
  u.found.setDaq { u.found.daq with
    accelRollingBuffer := s.pod.daq.accelRollingBuffer
    accelSum := s.pod.daq.accelSum
    accelCount := s.pod.daq.accelCount }

def step (s : Sampler) (u : Update) : Sampler where
  pod := (s.before u).badgerloopUpdateData u.env
  taken := s.taken + if (s.before u).sampled u.env then 1 else 0

/-- The rolling mean as it starts, zeroed. -/
def Zeroed (s : Sampler) : Prop :=
  s.pod.daq.rolling = (Vector.replicate 10 0, 0, 0) ∧ s.taken = 0

section Run

variable {s : Sampler} {u : Update} {us : List Update}

theorem balanced_before (h : Balanced s.pod.daq s.taken) : Balanced (s.before u).daq s.taken :=
  ⟨h.sum, h.short, h.count⟩

theorem step_rolled (h : Balanced s.pod.daq s.taken) (hn : (s.step u).taken < 2 ^ 31) :
    Rolled u.env s.taken (s.before u) (s.step u).pod ∧
      Balanced (s.step u).pod.daq (s.step u).taken := by
  have hb := balanced_before (u := u) h
  obtain ⟨hyes, hno⟩ := Pod.badgerloopUpdateData_rolling u.env (s.before u)
  cases hs : (s.before u).sampled u.env with
  | false =>
    obtain ⟨hq, ha⟩ := hno hs
    have hn' : (s.step u).taken = s.taken := by simp [step, hs]
    rw [hn']
    exact ⟨rolled_of_unsampled hb hs hq ha, hb.congr hq⟩
  | true =>
    obtain ⟨⟨d, hd, -, hq⟩, ha⟩ := hyes hs
    have hn' : (s.step u).taken = s.taken + 1 := by simp [step, hs]
    rw [hn'] at hn ⊢
    exact ⟨rolled_of_sampled hb hn hs hd hq ha, (balanced_rollAccel (hb.congr hd) hn).congr hq⟩

theorem balanced_zeroed (h : s.Zeroed) : Balanced s.pod.daq s.taken := by
  have hzero : Balanced {} 0 := ⟨by decide, by decide, by decide⟩
  have hrolling : s.pod.daq.rolling = DaqState.rolling {} := h.1
  rw [h.2]
  exact hzero.congr hrolling

theorem taken_le_run : s.taken ≤ (Machine.run step s us).taken :=
  @Machine.run_le _ _ step (fun _ => True) (fun _ _ => True) s us _ _ Sampler.taken
    (fun _ _ _ _ => trivial) (fun _ _ _ _ => Nat.le_add_right _ _) trivial
    (Machine.always_of_forall fun _ _ _ => trivial)

theorem always_rolled_of_balanced (h : Balanced s.pod.daq s.taken)
    (hn : (Machine.run step s us).taken < 2 ^ 31) :
    Machine.Always step (fun s u => Rolled u.env s.taken (s.before u) (s.step u).pod) s us := by
  induction us generalizing s with
  | nil => trivial
  | cons u us ih =>
    rw [Machine.run_cons] at hn
    have hfew : (s.step u).taken < 2 ^ 31 := Nat.lt_of_le_of_lt taken_le_run hn
    obtain ⟨hrolled, hbalanced⟩ := step_rolled h hfew
    exact ⟨hrolled, ih hbalanced hn⟩

end Run

end Sampler

/-- From the zeroed buffer, and with fewer than `2 ^ 31` samples, every update keeps the sum. -/
theorem always_rolled (s : Sampler) (us : List Update) (h : s.Zeroed)
    (hn : (Machine.run Sampler.step s us).taken < 2 ^ 31) :
    Machine.Always Sampler.step
      (fun s u => Rolled u.env s.taken (s.before u) (s.step u).pod) s us :=
  Sampler.always_rolled_of_balanced (Sampler.balanced_zeroed h) hn

/-- The gathering takes more than 250 ms, so that every other of these updates has a sample. -/
def twoSamples : List Update :=
  [⟨boot, bench 1000⟩,
    ⟨{ boot with daq := { mpuGathering := true } }, { bench 1300 with fifoAverage := -32768 }⟩,
    ⟨boot, bench 1400⟩,
    ⟨{ boot with
        cfg := { accelImpulse := 0xFFFFFFFF }
        daq := { mpuGathering := true } }, { bench 1700 with fifoAverage := 32767 }⟩]

theorem rolled_twoSamples :
    (Machine.run Sampler.step ⟨boot, 0⟩ twoSamples).pod.daq.slots =
        [-100, 32767, 0, 0, 0, 0, 0, 0, 0, 0] ∧
      Machine.Always Sampler.step
        (fun s u => Rolled u.env s.taken (s.before u) (s.step u).pod) ⟨boot, 0⟩ twoSamples :=
  ⟨by decide +kernel, always_rolled ⟨boot, 0⟩ twoSamples ⟨rfl, rfl⟩ (by decide +kernel)⟩

end PodFirmware
