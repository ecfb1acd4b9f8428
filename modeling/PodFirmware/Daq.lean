import PodFirmware.Output

/-!
# PodFirmware.Daq

Data acquisition: `badgerloop_update_data`, which reads the sensors whose values the console can
override, and `badgerloop_forced_data`, which reads the others, computes the stopping distance and
raises `RUN_OVER`. Both write telemetry and their own statics only: of the state machine they touch
the `RUN_OVER` flag and nothing else (`DaqFrame`). The fields that the console can override are not
touched by `badgerloop_forced_data` (`Forced`).

Signed arithmetic wraps, as the target's does.
-/

namespace PodFirmware

/-- `CHECK_THRESHOLD` with signed bounds. -/
def outOfRange (x upper lower : Int32) : Bool := x > upper || x < lower

def calculateStoppingDistance (cfg : Config) (velocity targetDecel : Int32) : Int32 :=
  if velocity ≤ 0 ∨ targetDecel ≥ 0 then cfg.targetEndPos.toInt32
  else -(velocity * velocity / targetDecel)

def adcToMv (reading offset : UInt16) : UInt16 :=
  let t := reading - (if reading > offset then offset else reading)
  let t := t * 16 / 11
  t * 3 + t / 5

def brakingSensorScalar (reading : UInt16) : UInt16 :=
  CInt.toU16 (CInt.ofU16 (adcToMv reading 107) * 75 / 1000)

/-- `MAIN_INTERVAL`: the slot of the ring that `count` indexes. -/
def mainInterval (ts : TimeStamp) : UInt32 := ts.filter[(ts.count % 3).toNat]?.getD 0

namespace Pod

/-! ## Forced data -/

def batteryVoltage (env : Env) (p : Pod) : Pod :=
  let t1 := env.analogRead 13
  let t2 := t1 * 3
  let t2 := t2 + t1 / 5
  let t1 := 4 * t2
  let t2 := CInt.toU16 (CInt.ofU16 t1 + 3 * CInt.ofU16 t2 / 10)
  p.setTelem { p.telem with vBatt := CInt.ofU16 t2 }

def batteryCurrent (env : Env) (p : Pod) : Pod :=
  let t := env.analogRead 3
  let t := t - (if t > 120 then 120 else t)
  let t := t * 3 + t / 5
  p.setTelem { p.telem with iBatt := CInt.ofU16 t * 1000 / 37 }

/-- One limit switch: note a change, then store the pin. -/
def sampleLimit (env : Env) (pin : InputPin) (bit : UInt8) (r : TickRead) (site : Print)
    (mark : LimitTimes → UInt32 → LimitTimes) (p : Pod) : Pod :=
  let temp := env.pins pin
  let p :=
    if (temp && !p.telem.getLim bit) || (!temp && p.telem.getLim bit) then
      let p := p.readTicks env r
      (p.setLimits (mark p.limits p.ticks)).printf env site
    else p
  p.setTelem (p.telem.putLim bit temp)

def sampleBlim1 (env : Env) : Pod → Pod :=
  sampleLimit env .g2 Telemetry.blim1 .blim1 .blim1 fun l t => { l with blim1Ts := t }
def sampleBlim2 (env : Env) : Pod → Pod :=
  sampleLimit env .g3 Telemetry.blim2 .blim2 .blim2 fun l t => { l with blim2Ts := t }
def samplePlim1 (env : Env) : Pod → Pod :=
  sampleLimit env .d0 Telemetry.plim1 .plim1 .plim1 fun l t => { l with plim1Ts := t }
def samplePlim2 (env : Env) : Pod → Pod :=
  sampleLimit env .d1 Telemetry.plim2 .plim2 .plim2 fun l t => { l with plim2Ts := t }
def sampleDlim (env : Env) : Pod → Pod :=
  sampleLimit env .d3 Telemetry.dlim .dlim .dlim fun l t => { l with dlimTs := t }

def stoppingDistance (p : Pod) : Pod :=
  -- when braking, the deceleration is measured; before, it is the target
  let decel := if p.handle.currState ≠ .braking then -981 else p.telem.acceleration
  p.setTelem { p.telem with
    stoppingDistance := calculateStoppingDistance p.cfg p.telem.velocity decel }

def podSensors (env : Env) (p : Pod) : Pod :=
  let p := p.setTelem { p.telem with
    status := UInt8.ofNat p.handle.currState.ctorIdx
    pAmb := CInt.toU16 env.honeywellPressure
    tPod := env.honeywellTemperature * 10 }
  let p := batteryCurrent env (batteryVoltage env p)
  p.setTelem { p.telem with tBatt := env.thermistorScalar (env.analogRead 6) * 10 }

/-- `CHECK_THRESHOLD(GET_POS, TARGET_END_POS, -1)`: only the lower bound is signed. -/
def positionOver (cfg : Config) (t : Telemetry) : Bool :=
  t.position.toUInt32 > cfg.targetEndPos || t.position < -1

def badgerloopForcedData (env : Env) (p : Pod) : Pod :=
  let p := stoppingDistance p
  let p := sampleDlim env (samplePlim2 env (samplePlim1 env (sampleBlim2 env (sampleBlim1 env p))))
  let p := podSensors env p
  if positionOver p.cfg p.telem then p.setFlag runOver else p

/-! ## Data that the console can override -/

def mpu9250Handler (env : Env) (p : Pod) : Bool × Pod :=
  if !p.daq.mpuGathering then
    let p := p.readTicks env .mpuStart
    (false, p.setDaq { p.daq with mpuTs := p.ticks, mpuGathering := true })
  else
    let p := p.readTicks env .mpuElapsed
    if p.ticks - p.daq.mpuTs > 250 then
      (true, p.setDaq { p.daq with accelBuffer0 := env.fifoAverage, mpuGathering := false })
    else (false, p)

/-- Replace the oldest slot of the rolling buffer, by at most `ACCEL_IMPULSE`. -/
def rollAccel (cfg : Config) (d : DaqState) : DaqState :=
  let slot := (d.accelCount % 10).toNatClampNeg
  let prev := d.accelRollingBuffer[slot]?.getD 0
  let sample := d.accelBuffer0.toInt32
  let diff := if sample - prev > 0 then sample - prev else prev - sample
  let next :=
    if diff.toUInt32 > cfg.accelImpulse then
      if sample - prev > 0 then (prev.toUInt32 + cfg.accelImpulse).toInt32
      else (prev.toUInt32 - cfg.accelImpulse).toInt32
    else sample
  { d with
    accelRollingBuffer := d.accelRollingBuffer.setIfInBounds slot next
    accelSum := d.accelSum - prev + next
    accelCount := d.accelCount + 1 }

def accelerometer (env : Env) (p : Pod) : Pod :=
  let (ready, p) := mpu9250Handler env p
  if ready then
    let p := p.readTicks env .accelTs
    let p := p.setDaq { p.daq with prevAccelTs := p.daq.currAccelTs, currAccelTs := p.ticks }
    let p := p.setDaq (rollAccel p.cfg p.daq)
    let mean := p.daq.accelSum / 10
    let p := p.setTelem { p.telem with acceleration := -mean }
    if p.cfg.interpolate ≠ 0 ∧ p.handle.currState ≠ .idle ∧ p.handle.currState ≠ .ready ∧
        p.handle.currState ≠ .fault then
      let dt := (p.daq.currAccelTs - p.daq.prevAccelTs).toInt32
      p.setTelem { p.telem with velocity := p.telem.velocity + -mean * dt / 1000 }
    else p
  else p

def disableIrq (p : Pod) : Pod := p.setDaq { p.daq with irqEnabled := false }
def enableIrq (p : Pod) : Pod := p.setDaq { p.daq with irqEnabled := true }

def getVelocity (env : Env) (p : Pod) : Int32 × Pod :=
  let p := p.disableIrq
  let interval := mainInterval (env.retro .velocity)
  if interval = 0 then (0, p)
  else ((1000 * p.cfg.cmPerStrip / interval).toInt32, p.enableIrq)

/-- `(ticks - mainRetro->curr) > MAIN_INTERVAL`: the next strip is overdue. -/
abbrev Overdue (env : Env) (p : Pod) : Prop :=
  p.ticks - (env.retro .stale).curr > mainInterval (env.retro .interval)

def stripVelocity (env : Env) (p : Pod) : Pod :=
  if p.daq.prevScount < (env.retro .compare).count then
    let p := p.setDaq { p.daq with prevScount := p.telem.sCount }
    let (v, p) := getVelocity env p
    p.setTelem { p.telem with velocity := v }
  else
    let p := p.readTicks env .stripStale
    if p.Overdue env ∧ p.telem.sCount > 2 then
      let p := p.disableIrq
      let p := p.readTicks env .stripElapsed
      let v := (1000 * p.cfg.cmPerStrip / (p.ticks - (env.retro .elapsed).curr)).toInt32
      let p := p.setTelem { p.telem with
        velocity := v
        position := p.telem.position + v * 10 / 1000 }
      p.enableIrq
    else p

def pressures (env : Env) (p : Pod) : Pod :=
  p.setTelem { p.telem with
    prP1 := adcToMv (env.analogRead 9) 107 * 5 / 4 + 15
    prP2 := adcToMv (env.analogRead 12) 213 * 5 / 3
    brP3 := brakingSensorScalar (env.analogRead 15)
    brP2 := brakingSensorScalar (env.analogRead 14)
    brP1 := brakingSensorScalar (env.analogRead 8) }

def badgerloopUpdateData (env : Env) (p : Pod) : Pod :=
  let p := p.setTelem { p.telem with sCount := (env.retro .scount).count }
  let p := stripVelocity env (accelerometer env p)
  let p := p.setTelem { p.telem with position := (p.cfg.cmPerStrip * p.telem.sCount).toInt32 }
  badgerloopForcedData env (pressures env p)

end Pod

/-! ## What data acquisition leaves alone -/

/-- `p'` was reached from `p` without touching the state machine, except perhaps for raising
`RUN_OVER`, and its clock is that of `p` or of a read of `env`. -/
structure DaqFrame (env : Env) (p p' : Pod) : Prop where
  handle : p'.handle = p.handle ∨
    p'.handle = { p.handle with flags := p.handle.flags ||| runOver }
  cfg : p'.cfg = p.cfg
  marks : p'.marks = p.marks
  act : p'.act = p.act
  linkUp : p'.linkUp = p.linkUp
  log : p'.log = p.log
  now : p'.now = p.now ∨ ∃ r, p'.now = env.clock.read r

namespace DaqFrame

variable {env : Env} {p q r : Pod}

theorem refl (p : Pod) : DaqFrame env p p := ⟨.inl rfl, rfl, rfl, rfl, rfl, rfl, .inl rfl⟩

theorem trans (h₁ : DaqFrame env p q) (h₂ : DaqFrame env q r) : DaqFrame env p r where
  handle := by
    rcases h₁.handle with e₁ | e₁ <;> rcases h₂.handle with e₂ | e₂ <;> rw [e₂, e₁]
    · exact .inl rfl
    · exact .inr rfl
    · exact .inr rfl
    · exact .inr (by simp [UInt32.or_assoc])
  cfg := h₂.cfg.trans h₁.cfg
  marks := h₂.marks.trans h₁.marks
  act := h₂.act.trans h₁.act
  linkUp := h₂.linkUp.trans h₁.linkUp
  log := h₂.log.trans h₁.log
  now := by
    rcases h₂.now with e₂ | e₂
    · rw [e₂]; exact h₁.now
    · exact .inr e₂

theorem setTelem (p : Pod) (t : Telemetry) : DaqFrame env p (p.setTelem t) :=
  ⟨.inl rfl, rfl, rfl, rfl, rfl, rfl, .inl rfl⟩

theorem setDaq (p : Pod) (d : DaqState) : DaqFrame env p (p.setDaq d) :=
  ⟨.inl rfl, rfl, rfl, rfl, rfl, rfl, .inl rfl⟩

theorem setLimits (p : Pod) (l : LimitTimes) : DaqFrame env p (p.setLimits l) :=
  ⟨.inl rfl, rfl, rfl, rfl, rfl, rfl, .inl rfl⟩

theorem printf (p : Pod) (site : Print) : DaqFrame env p (p.printf env site) :=
  ⟨.inl rfl, rfl, rfl, rfl, rfl, rfl, .inl rfl⟩

theorem readTicks (p : Pod) (x : TickRead) : DaqFrame env p (p.readTicks env x) :=
  ⟨.inl rfl, rfl, rfl, rfl, rfl, rfl, .inr ⟨x, rfl⟩⟩

theorem setRunOver (p : Pod) : DaqFrame env p (p.setFlag runOver) :=
  ⟨.inr rfl, rfl, rfl, rfl, rfl, rfl, .inl rfl⟩

end DaqFrame

/-- From `t` to `t'` nothing changed but what `badgerloop_forced_data` measures. -/
structure Forced (t t' : Telemetry) : Prop where
  teamId : t'.teamId = t.teamId
  acceleration : t'.acceleration = t.acceleration
  position : t'.position = t.position
  velocity : t'.velocity = t.velocity
  sCount : t'.sCount = t.sCount
  prP1 : t'.prP1 = t.prP1
  prP2 : t'.prP2 = t.prP2
  brP1 : t'.brP1 = t.brP1
  brP2 : t'.brP2 = t.brP2
  brP3 : t'.brP3 = t.brP3
  stoppingDistance : t'.stoppingDistance = t.stoppingDistance
  percentage : t'.percentage = t.percentage
  timeRemaining : t'.timeRemaining = t.timeRemaining

theorem Forced.trans {t t' t'' : Telemetry} (h₁ : Forced t t') (h₂ : Forced t' t'') :
    Forced t t'' where
  teamId := h₂.teamId.trans h₁.teamId
  acceleration := h₂.acceleration.trans h₁.acceleration
  position := h₂.position.trans h₁.position
  velocity := h₂.velocity.trans h₁.velocity
  sCount := h₂.sCount.trans h₁.sCount
  prP1 := h₂.prP1.trans h₁.prP1
  prP2 := h₂.prP2.trans h₁.prP2
  brP1 := h₂.brP1.trans h₁.brP1
  brP2 := h₂.brP2.trans h₁.brP2
  brP3 := h₂.brP3.trans h₁.brP3
  stoppingDistance := h₂.stoppingDistance.trans h₁.stoppingDistance
  percentage := h₂.percentage.trans h₁.percentage
  timeRemaining := h₂.timeRemaining.trans h₁.timeRemaining

namespace Pod

variable (env : Env) (p : Pod)

theorem sampleLimit_frame (pin : InputPin) (bit : UInt8) (r : TickRead) (site : Print)
    (mark : LimitTimes → UInt32 → LimitTimes) :
    DaqFrame env p (sampleLimit env pin bit r site mark p) := by
  unfold sampleLimit
  refine DaqFrame.trans ?_ (DaqFrame.setTelem _ _)
  split
  · exact ((DaqFrame.readTicks p r).trans (DaqFrame.setLimits _ _)).trans (DaqFrame.printf _ _)
  · exact DaqFrame.refl p

theorem podSensors_frame : DaqFrame env p (podSensors env p) :=
  (DaqFrame.setTelem _ _).trans <| (DaqFrame.setTelem _ _).trans <|
    (DaqFrame.setTelem _ _).trans (DaqFrame.setTelem _ _)

theorem badgerloopForcedData_frame : DaqFrame env p (badgerloopForcedData env p) := by
  have hlim : DaqFrame env p (podSensors env (sampleDlim env (samplePlim2 env (samplePlim1 env
      (sampleBlim2 env (sampleBlim1 env (stoppingDistance p))))))) := by
    refine DaqFrame.trans ?_ (podSensors_frame env _)
    refine DaqFrame.trans ?_ (sampleLimit_frame env _ _ _ _ _ _)
    refine DaqFrame.trans ?_ (sampleLimit_frame env _ _ _ _ _ _)
    refine DaqFrame.trans ?_ (sampleLimit_frame env _ _ _ _ _ _)
    refine DaqFrame.trans ?_ (sampleLimit_frame env _ _ _ _ _ _)
    exact (DaqFrame.setTelem _ _).trans (sampleLimit_frame env _ _ _ _ _ _)
  unfold badgerloopForcedData
  dsimp only
  split
  · exact hlim.trans (DaqFrame.setRunOver _)
  · exact hlim

theorem mpu9250Handler_frame : DaqFrame env p (mpu9250Handler env p).2 := by
  unfold mpu9250Handler
  dsimp only
  split
  · exact (DaqFrame.readTicks _ _).trans (DaqFrame.setDaq _ _)
  · split
    · exact (DaqFrame.readTicks _ _).trans (DaqFrame.setDaq _ _)
    · exact DaqFrame.readTicks _ _

theorem accelerometer_frame : DaqFrame env p (accelerometer env p) := by
  have hmpu := mpu9250Handler_frame env p
  unfold accelerometer
  dsimp only
  split
  · have hroll (d d' : DaqState) (t : Telemetry) : DaqFrame env p
        (((((mpu9250Handler env p).2.readTicks env .accelTs).setDaq d).setDaq d').setTelem t) :=
      hmpu.trans <| (DaqFrame.readTicks _ _).trans <| (DaqFrame.setDaq _ _).trans <|
        (DaqFrame.setDaq _ _).trans (DaqFrame.setTelem _ _)
    split
    · exact (hroll _ _ _).trans (DaqFrame.setTelem _ _)
    · exact hroll _ _ _
  · exact hmpu

theorem getVelocity_frame : DaqFrame env p (getVelocity env p).2 := by
  unfold getVelocity
  dsimp only
  split
  · exact DaqFrame.setDaq _ _
  · exact (DaqFrame.setDaq _ _).trans (DaqFrame.setDaq _ _)

theorem stripVelocity_frame : DaqFrame env p (stripVelocity env p) := by
  unfold stripVelocity
  dsimp only
  split
  · exact (DaqFrame.setDaq _ _).trans <| (getVelocity_frame env _).trans (DaqFrame.setTelem _ _)
  · split
    · exact (DaqFrame.readTicks _ _).trans <| (DaqFrame.setDaq _ _).trans <|
        (DaqFrame.readTicks _ _).trans <| (DaqFrame.setTelem _ _).trans (DaqFrame.setDaq _ _)
    · exact DaqFrame.readTicks _ _

theorem badgerloopUpdateData_frame : DaqFrame env p (badgerloopUpdateData env p) :=
  (DaqFrame.setTelem _ _).trans <| (accelerometer_frame env _).trans <|
    (stripVelocity_frame env _).trans <| (DaqFrame.setTelem _ _).trans <|
      (DaqFrame.setTelem _ _).trans (badgerloopForcedData_frame env _)

theorem sampleLimit_forced (pin : InputPin) (bit : UInt8) (r : TickRead) (site : Print)
    (mark : LimitTimes → UInt32 → LimitTimes) :
    Forced p.telem (sampleLimit env pin bit r site mark p).telem := by
  unfold sampleLimit
  dsimp only
  split <;> exact ⟨rfl, rfl, rfl, rfl, rfl, rfl, rfl, rfl, rfl, rfl, rfl, rfl, rfl⟩

theorem podSensors_forced : Forced p.telem (podSensors env p).telem :=
  ⟨rfl, rfl, rfl, rfl, rfl, rfl, rfl, rfl, rfl, rfl, rfl, rfl, rfl⟩

theorem badgerloopForcedData_forced :
    Forced (stoppingDistance p).telem (badgerloopForcedData env p).telem := by
  have hlim : Forced (stoppingDistance p).telem (podSensors env (sampleDlim env (samplePlim2 env
      (samplePlim1 env (sampleBlim2 env (sampleBlim1 env (stoppingDistance p))))))).telem := by
    refine Forced.trans ?_ (podSensors_forced env _)
    refine Forced.trans ?_ (sampleLimit_forced env _ _ _ _ _ _)
    refine Forced.trans ?_ (sampleLimit_forced env _ _ _ _ _ _)
    refine Forced.trans ?_ (sampleLimit_forced env _ _ _ _ _ _)
    refine Forced.trans ?_ (sampleLimit_forced env _ _ _ _ _ _)
    exact sampleLimit_forced env _ _ _ _ _ _
  unfold badgerloopForcedData
  dsimp only
  split <;> exact hlim

end Pod

/-- The statics of data acquisition, less the interrupt flag, which console output raises. -/
def DaqState.statics (d : DaqState) : DaqState := { d with irqEnabled := true }

namespace Pod

theorem statics_sampleLimit (env : Env) (p : Pod) (pin : InputPin) (bit : UInt8) (r : TickRead)
    (site : Print) (mark : LimitTimes → UInt32 → LimitTimes) :
    (sampleLimit env pin bit r site mark p).daq.statics = p.daq.statics := by
  unfold sampleLimit
  dsimp only
  split <;> rfl

theorem statics_badgerloopForcedData (env : Env) (p : Pod) :
    (badgerloopForcedData env p).daq.statics = p.daq.statics := by
  have hlim : (podSensors env (sampleDlim env (samplePlim2 env (samplePlim1 env (sampleBlim2 env
      (sampleBlim1 env (stoppingDistance p))))))).daq.statics = p.daq.statics := by
    have hsensors (q : Pod) : (podSensors env q).daq = q.daq := rfl
    simp only [hsensors, sampleDlim, samplePlim2, samplePlim1, sampleBlim2, sampleBlim1,
      statics_sampleLimit]
    rfl
  unfold badgerloopForcedData
  dsimp only
  split <;> exact hlim

end Pod

end PodFirmware
