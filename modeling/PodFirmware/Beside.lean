import PodFirmware.Daq

/-!
# PodFirmware.Beside

What `badgerloop_update_data` leaves alone before it calls `badgerloop_forced_data`. Until then it
reads the accelerometer (`BesideMpu`), the strips (`BesideStrips`) and the pressures; a part of the
state that none of these writes is the same (`Beside.badgerloopUpdateData`).
-/

namespace PodFirmware

/-- The part `g` of the state has nothing to do with what the accelerometer writes. -/
structure BesideMpu {α : Type} (g : Pod → α) : Prop where
  readTicks : ∀ p env r, g (p.readTicks env r) = g p
  imu : ∀ p ts gathering sample prev curr, g (p.setDaq { p.daq with
    mpuTs := ts
    mpuGathering := gathering
    accelBuffer0 := sample
    prevAccelTs := prev
    currAccelTs := curr }) = g p
  rollAccel : ∀ p, g (p.setDaq (Pod.rollAccel p.cfg p.daq)) = g p
  accelerated : ∀ p a v,
    g (p.setTelem { p.telem with acceleration := a, velocity := v }) = g p

/-- The part `g` of the state has nothing to do with what is written for a strip. -/
structure BesideStrips {α : Type} (g : Pod → α) : Prop where
  readTicks : ∀ p env r, g (p.readTicks env r) = g p
  critical : ∀ p n on, g (p.setDaq { p.daq with prevScount := n, irqEnabled := on }) = g p
  moved : ∀ p v x, g (p.setTelem { p.telem with velocity := v, position := x }) = g p

structure Beside {α : Type} (g : Pod → α) : Prop extends BesideMpu g, BesideStrips g where
  counted : ∀ p n, g (p.setTelem { p.telem with sCount := n }) = g p
  pressures : ∀ p env, g (Pod.pressures env p) = g p

open Pod

variable {α : Type} {g : Pod → α} (env : Env) (p : Pod)

namespace BesideMpu

variable (hg : BesideMpu g)

include hg

theorem mpu9250Handler : g (mpu9250Handler env p).2 = g p := by
  unfold Pod.mpu9250Handler
  dsimp only
  split
  · exact (hg.imu _ _ _ _ _ _).trans (hg.readTicks p env _)
  · split
    · exact (hg.imu _ _ _ _ _ _).trans (hg.readTicks p env _)
    · exact hg.readTicks p env _

theorem accelerometer : g (accelerometer env p) = g p := by
  have hmpu := hg.mpu9250Handler env p
  unfold Pod.accelerometer
  generalize Pod.mpu9250Handler env p = r at hmpu ⊢
  obtain ⟨ready, q⟩ := r
  dsimp only at hmpu ⊢
  split
  · have htimed := (hg.imu (q.readTicks env .accelTs) q.daq.mpuTs q.daq.mpuGathering
      q.daq.accelBuffer0 q.daq.currAccelTs (q.readTicks env .accelTs).ticks).trans
        ((hg.readTicks q env _).trans hmpu)
    have hrolled := (hg.rollAccel _).trans htimed
    split
    · exact (hg.accelerated _ _ _).trans ((hg.accelerated _ _ _).trans hrolled)
    · exact (hg.accelerated _ _ _).trans hrolled
  · exact hmpu

end BesideMpu

namespace BesideStrips

variable (hg : BesideStrips g)

include hg

theorem getVelocity : g (getVelocity env p).2 = g p := by
  unfold Pod.getVelocity
  dsimp only
  split
  · exact hg.critical p _ _
  · exact (hg.critical _ _ _).trans (hg.critical p _ _)

theorem stripVelocity : g (stripVelocity env p) = g p := by
  unfold Pod.stripVelocity
  dsimp only
  split
  · exact (hg.moved _ _ _).trans <| (hg.getVelocity env _).trans (hg.critical p _ _)
  · split
    · exact (hg.critical _ _ _).trans <| (hg.moved _ _ _).trans <| (hg.readTicks _ env _).trans <|
        (hg.critical _ _ _).trans (hg.readTicks p env _)
    · exact hg.readTicks p env _

end BesideStrips

/-- The same until `badgerloop_forced_data` is called. -/
theorem Beside.badgerloopUpdateData (hg : Beside g) : ∃ q, g q = g p ∧
    badgerloopUpdateData env p = badgerloopForcedData env q := by
  let counted := p.setTelem { p.telem with sCount := (env.retro .scount).count }
  let moved := stripVelocity env (accelerometer env counted)
  let placed := moved.setTelem
    { moved.telem with position := (moved.cfg.cmPerStrip * moved.telem.sCount).toInt32 }
  have hcounted : g counted = g p := hg.counted p _
  have hmoved : g moved = g counted :=
    (hg.toBesideStrips.stripVelocity env _).trans (hg.toBesideMpu.accelerometer env counted)
  have hplaced : g placed = g moved := hg.moved moved _ _
  exact ⟨Pod.pressures env placed,
    (hg.pressures placed env).trans (hplaced.trans (hmoved.trans hcounted)), rfl⟩

end PodFirmware
