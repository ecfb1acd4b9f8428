import PodFirmware.Lib.Machine
import PodFirmware.Interrupts
import PodFirmware.Rolling

/-!
# PodFirmware.Reckoning

The position between strips. When the last interval is out of date, `badgerloop_update_data` adds
the way made since its previous run to the position, and then stores the position of the last strip
over it.

* `badgerloopUpdateData_stale`: the position and the velocity that such a call publishes.
* `reckoned_iff`: the position is the reckoned one exactly when there was no way to add.
-/

namespace PodFirmware

namespace Pod

/-- A call that finds no new strip after the `n`-th and takes the stale branch. -/
structure Stale (n : UInt32) (p : Pod) (env : Env) : Prop where
  counted : ∀ r, (env.retro r).count = n
  old : ¬ p.NewStrip env
  several : 2 < n
  stale : mainInterval (env.retro .interval) < env.ticks .stripStale - (env.retro .stale).curr
  elapsed : env.ticks .stripElapsed - (env.retro .elapsed).curr ≠ 0

/-- The time since the last strip, as the stale branch measures it. -/
def sinceStrip (env : Env) : UInt32 := env.ticks .stripElapsed - (env.retro .elapsed).curr

section Stale

variable {env : Env} {p : Pod} {n : UInt32}

theorem besideMpu_sCount : BesideMpu fun p : Pod => p.telem.sCount where
  readTicks _ _ _ := rfl
  imu _ _ _ _ _ _ := rfl
  rollAccel _ := rfl
  accelerated _ _ _ := rfl

/-- The stale branch. -/
theorem stripVelocity_stale (h : p.Stale n env) (hs : p.telem.sCount = n) :
    (stripVelocity env p).telem.velocity = (1000 * p.cfg.cmPerStrip / sinceStrip env).toInt32 ∧
      (stripVelocity env p).telem.sCount = n := by
  have hgo : (p.readTicks env .stripStale).Overdue env ∧
      (p.readTicks env .stripStale).telem.sCount > 2 := ⟨h.stale, hs ▸ h.several⟩
  unfold stripVelocity
  dsimp only
  rw [if_neg h.old, if_pos hgo]
  exact ⟨rfl, hs⟩

theorem badgerloopUpdateData_stale (h : p.Stale n env) :
    (badgerloopUpdateData env p).telem.position = (p.cfg.cmPerStrip * n).toInt32 ∧
      (badgerloopUpdateData env p).telem.velocity =
        (1000 * p.cfg.cmPerStrip / sinceStrip env).toInt32 := by
  let counted := p.setTelem { p.telem with sCount := (env.retro .scount).count }
  let moved := stripVelocity env (accelerometer env counted)
  let placed := pressures env (moved.setTelem { moved.telem with
    position := (moved.cfg.cmPerStrip * moved.telem.sCount).toInt32 })
  have hforced := badgerloopForcedData_forced env placed
  have hnew : (accelerometer env counted).NewStrip env ↔ p.NewStrip env := by
    rw [NewStrip, (irqEnabled_accelerometer env counted).2]
    rfl
  have hstale : (accelerometer env counted).Stale n env := { h with old := mt hnew.mp h.old }
  have hcount : (accelerometer env counted).telem.sCount = n :=
    (besideMpu_sCount.accelerometer env counted).trans (h.counted .scount)
  have hcfg : (accelerometer env counted).cfg = p.cfg := (accelerometer_frame env counted).cfg
  obtain ⟨hv, hs⟩ := stripVelocity_stale hstale hcount
  have hmoved : moved.cfg = p.cfg := (stripVelocity_frame env _).cfg.trans hcfg
  constructor
  · refine hforced.position.trans ?_
    show (moved.cfg.cmPerStrip * moved.telem.sCount).toInt32 = _
    rw [hmoved, hs]
  · refine hforced.velocity.trans ?_
    rw [← hcfg]
    exact hv

end Stale

end Pod

/-! ## Runs -/

/-- The pod, and the position that its published velocities add up to. -/
structure Reckoner where
  pod : Pod
  expected : Int

namespace Reckoner

def step (s : Reckoner) (env : Env) : Reckoner :=
  let p := s.pod.badgerloopUpdateData env
  { pod := p, expected := s.expected + (p.telem.velocity.toInt * 10).tdiv 1000 }

/-- The published position is the expected one. -/
def Agrees (s : Reckoner) : Prop := s.pod.telem.position.toInt = s.expected

/-- Where the `n`-th strip is. -/
def atStrip (p : Pod) (n : UInt32) : Reckoner where
  pod := p
  expected := p.cfg.cmPerStrip.toNat * n.toNat

section Step

/-- Only a velocity from `2 ^ 31` on wraps as an `int`, and it is a multiple of 1000 then. -/
theorem natAbs_velocity_lt {x c : Nat} (h : x < 2 ^ 31 ∨ x = 1000 * c) (hx : x < 2 ^ 32) :
    (Int.bmod x (2 ^ 32)).natAbs < 100 ↔ x < 100 := by
  have hb := Int.bmod_eq_emod (x : Int) (2 ^ 32)
  rw [Int.emod_eq_of_lt (by omega) (by exact_mod_cast hx)] at hb
  rcases h with hsmall | rfl
  · split at hb <;> omega
  · split at hb <;> omega

theorem tdiv_eq_zero_iff {x : Int} : (x * 10).tdiv 1000 = 0 ↔ x.natAbs < 100 := by
  have h1000 : Int.natAbs 1000 = 1000 := rfl
  have h10 : Int.natAbs 10 = 10 := rfl
  rw [← Int.natAbs_eq_zero, Int.natAbs_tdiv, Int.natAbs_mul, h1000, h10]
  show x.natAbs * 10 / 1000 = 0 ↔ _
  omega

variable {s : Reckoner} {env : Env} {n cm : UInt32}

theorem position_step (h : s.pod.Stale n env) (hcm : s.pod.cfg.cmPerStrip = cm)
    (hn : cm.toNat * n.toNat < 2 ^ 31) :
    (s.step env).pod.telem.position.toInt = cm.toNat * n.toNat := by
  have hprod : (cm * n).toNat = cm.toNat * n.toNat := by
    rw [UInt32.toNat_mul]
    exact Nat.mod_eq_of_lt (by omega)
  have hpos : (s.step env).pod.telem.position = (cm * n).toInt32 :=
    hcm ▸ (Pod.badgerloopUpdateData_stale h).1
  rw [hpos, (CInt.toInt_toInt32_iff _).mpr (by omega), hprod]
  exact Int.natCast_mul _ _

/-- There is no way to add below 100 cm/s. -/
theorem way_eq_zero_iff (h : s.pod.Stale n env) (hcm : s.pod.cfg.cmPerStrip = cm)
    (hcm' : 1000 * cm.toNat < 2 ^ 32) :
    ((s.step env).pod.telem.velocity.toInt * 10).tdiv 1000 = 0 ↔
      10 * cm.toNat < (Pod.sinceStrip env).toNat := by
  have hvel : (s.step env).pod.telem.velocity = (1000 * cm / Pod.sinceStrip env).toInt32 :=
    hcm ▸ (Pod.badgerloopUpdateData_stale h).2
  have hpos : 0 < (Pod.sinceStrip env).toNat :=
    Nat.pos_of_ne_zero fun h0 => h.elapsed (UInt32.toNat_inj.mp h0)
  have hlt : 1000 * cm.toNat / (Pod.sinceStrip env).toNat < 100 ↔
      10 * cm.toNat < (Pod.sinceStrip env).toNat := by
    rw [Nat.div_lt_iff_lt_mul hpos]
    omega
  have hle := Nat.div_le_self (1000 * cm.toNat) (Pod.sinceStrip env).toNat
  rw [hvel, tdiv_eq_zero_iff, CInt.toInt_toInt32, toNat_velocity hcm', ← hlt]
  refine natAbs_velocity_lt (c := cm.toNat) ?_ (by omega)
  rcases Nat.lt_or_ge 1 (Pod.sinceStrip env).toNat with h2 | h1
  · left
    rw [Nat.div_lt_iff_lt_mul hpos]
    omega
  · right
    have he : (Pod.sinceStrip env).toNat = 1 := by omega
    rw [he, Nat.div_one]

theorem agrees_iff (h : s.pod.Stale n env) (hcm : s.pod.cfg.cmPerStrip = cm)
    (hcm' : 1000 * cm.toNat < 2 ^ 32) (hn : cm.toNat * n.toNat < 2 ^ 31)
    (hs : s.expected = cm.toNat * n.toNat) :
    (s.step env).Agrees ↔ 10 * cm.toNat < (Pod.sinceStrip env).toNat := by
  have hexpected : (s.step env).expected =
      s.expected + ((s.step env).pod.telem.velocity.toInt * 10).tdiv 1000 := rfl
  rw [← way_eq_zero_iff h hcm hcm', Agrees, position_step h hcm hn, hexpected, hs]
  omega

end Step

end Reckoner

/-- While no strip comes after the `n`-th and every call takes the stale branch: the published
position is the reckoned one after every call if and only if more than 10 * CM_PER_STRIP ms have
passed since the strip in each, so that the velocity is too small to count. -/
theorem reckoned_iff (p : Pod) (n : UInt32) (es : List Env)
    (hstale : Machine.Always Reckoner.step (fun s env => s.pod.Stale n env)
      (.atStrip p n) es)
    (hcm : 1000 * p.cfg.cmPerStrip.toNat < 2 ^ 32)
    (hn : p.cfg.cmPerStrip.toNat * n.toNat < 2 ^ 31) :
    Machine.Always Reckoner.step (fun s env => (s.step env).Agrees) (.atStrip p n) es ↔
      ∀ env ∈ es, 10 * p.cfg.cmPerStrip.toNat < (Pod.sinceStrip env).toNat := by
  have hinputs : Machine.Always Reckoner.step
      (fun _ env => 10 * p.cfg.cmPerStrip.toNat < (Pod.sinceStrip env).toNat) (.atStrip p n) es ↔
      ∀ env ∈ es, 10 * p.cfg.cmPerStrip.toNat < (Pod.sinceStrip env).toNat :=
    Machine.always_inputs_iff
  rw [← hinputs]
  refine @Machine.always_iff_of_preserved _ _ Reckoner.step
    (fun s => s.pod.cfg.cmPerStrip = p.cfg.cmPerStrip ∧
      s.expected = (p.cfg.cmPerStrip.toNat * n.toNat : Int)) _ _ _ _ _ ?_ ?_ ⟨rfl, rfl⟩ hstale
  · rintro s env ⟨hs, he⟩ h hlong
    refine ⟨?_, ?_⟩
    · rw [← hs]
      exact congrArg Config.cmPerStrip (Pod.badgerloopUpdateData_frame env s.pod).cfg
    · have hway := (Reckoner.way_eq_zero_iff h hs hcm).mpr hlong
      show s.expected + ((s.step env).pod.telem.velocity.toInt * 10).tdiv 1000 = _
      rw [hway, he, Int.add_zero]
  · rintro s env ⟨hs, he⟩ h
    exact Reckoner.agrees_iff h hs hcm hn he

/-- Strips at 1, 2 and 3 s, all of them seen. -/
def threeStrips : Pod := { boot with daq := { prevScount := 3 } }

/-- A call at `t`. -/
def passed (t : Nat) : Env := (bench t).afterStrips [1000, 2000, 3000]

theorem stale_passed {p : Pod} {t : Nat} (hp : p.daq.prevScount = 3)
    (ht : 1000 < Tick.reading t - 3000) : p.Stale 3 (passed t) := by
  have hcount : (TimeStamp.record [1000, 2000, 3000]).count = 3 := by decide
  have hcurr : (TimeStamp.record [1000, 2000, 3000]).curr = 3000 := by decide
  have hmain : mainInterval (.record [1000, 2000, 3000]) = 1000 := by decide
  refine ⟨fun _ => hcount, ?_, by decide, ?_, ?_⟩
  · show ¬ p.daq.prevScount < (TimeStamp.record [1000, 2000, 3000]).count
    rw [hp, hcount]
    exact UInt32.lt_irrefl 3
  · show mainInterval (.record [1000, 2000, 3000]) <
      Tick.reading t - (TimeStamp.record [1000, 2000, 3000]).curr
    rwa [hmain, hcurr]
  · show Tick.reading t - (TimeStamp.record [1000, 2000, 3000]).curr ≠ 0
    rw [hcurr]
    intro h0
    rw [h0] at ht
    exact absurd ht (by decide)

/-- Half a minute after the last strip the pod is slow enough. -/
theorem reckoned_slow : Machine.Always Reckoner.step (fun s env => (s.step env).Agrees)
    (.atStrip threeStrips 3) [passed 34000, passed 34010] :=
  (reckoned_iff threeStrips 3 [passed 34000, passed 34010]
    ⟨stale_passed rfl (by decide +kernel),
      stale_passed (by decide +kernel) (by decide +kernel), trivial⟩
    (by decide) (by decide)).mpr (by decide +kernel)

/-- At 27.7 m/s the way of one call is 27 cm, and it is lost. -/
theorem way_is_lost :
    ((Reckoner.atStrip threeStrips 3).step (passed 4100)).pod.telem.velocity = 2770 ∧
      ((Reckoner.atStrip threeStrips 3).step (passed 4100)).pod.telem.position = 9144 ∧
      ((Reckoner.atStrip threeStrips 3).step (passed 4100)).expected = 9171 ∧
      ¬ ∀ (p : Pod) (n : UInt32) (es : List Env),
        Machine.Always Reckoner.step (fun s env => s.pod.Stale n env) (.atStrip p n) es →
        1000 * p.cfg.cmPerStrip.toNat < 2 ^ 32 → p.cfg.cmPerStrip.toNat * n.toNat < 2 ^ 31 →
        Machine.Always Reckoner.step (fun s env => (s.step env).Agrees) (.atStrip p n) es := by
  refine ⟨by decide +kernel, by decide +kernel, by decide +kernel, fun h => ?_⟩
  have hagrees := (h threeStrips 3 [passed 4100]
    ⟨stale_passed rfl (by decide +kernel), trivial⟩ (by decide) (by decide)).1
  revert hagrees
  unfold Reckoner.Agrees
  decide +kernel

end PodFirmware
