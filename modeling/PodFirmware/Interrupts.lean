import PodFirmware.Latch
import PodFirmware.Strip

/-!
# PodFirmware.Interrupts

The critical sections of data acquisition: `getVelocity` and the update of a stale velocity disable
interrupts and enable them again by hand.

* `irqEnabled_getVelocity`, `irqEnabled_badgerloopUpdateData`: the interrupt flag on return.
* `irqRestored_iff`: both functions give back what they were given exactly when the slot that
  `MAIN_INTERVAL` reads holds an interval, or is not read; a message to the serial console in
  between enables interrupts as well.
-/

namespace PodFirmware

/-! ## Console output -/

theorem writesSerial_append (r : Reports) (ws ws' : List WriteCall) :
    Pod.writesSerial r (ws ++ ws') =
      (Pod.writesSerial r ws || Pod.writesSerial (ws.foldl Pod.write r) ws') := by
  induction ws generalizing r with
  | nil => rfl
  | cons w ws ih =>
    simp only [List.cons_append, Pod.writesSerial, ih, List.foldl_cons, Bool.or_assoc]

namespace Pod

variable (env : Env) (p : Pod)

/-- A strip was counted since `prev_scount`. -/
abbrev NewStrip : Prop := p.daq.prevScount < (env.retro .compare).count

/-! ## Forced data -/

theorem irqEnabled_sampleLimit (pin : InputPin) (bit : UInt8) (r : TickRead) (site : Print)
    (mark : LimitTimes → UInt32 → LimitTimes) :
    (sampleLimit env pin bit r site mark p).daq.irqEnabled =
      (p.daq.irqEnabled || writesSerial p.reports (switchWrites env p.telem pin bit site)) := by
  unfold sampleLimit switchWrites
  cases env.pins pin <;> cases p.telem.getLim bit <;> simp [writesSerial, printf]

theorem irqEnabled_badgerloopForcedData : (badgerloopForcedData env p).daq.irqEnabled =
    (p.daq.irqEnabled || writesSerial p.reports (forcedWrites env p.telem)) := by
  have hstop : (stoppingDistance p).telem.limStates = p.telem.limStates := rfl
  have hlim : (sampleDlim env (samplePlim2 env (samplePlim1 env (sampleBlim2 env
      (sampleBlim1 env (stoppingDistance p)))))).daq.irqEnabled =
      (p.daq.irqEnabled || writesSerial p.reports (forcedWrites env p.telem)) := by
    simp only [sampleDlim, samplePlim2, samplePlim1, sampleBlim2, sampleBlim1,
      irqEnabled_sampleLimit, reports_sampleLimit, telem_sampleLimit]
    simp (disch := decide) only [switchWrites_putLim, switchWrites_congr env hstop]
    simp only [forcedWrites, limitSwitches, List.flatMap_cons, List.flatMap_nil, List.append_nil,
      writesSerial_append, Bool.or_assoc]
    rfl
  unfold badgerloopForcedData
  dsimp only
  split <;> exact hlim

/-! ## Critical sections -/

theorem besideMpu_irqEnabled :
    BesideMpu fun p : Pod => (p.daq.irqEnabled, p.daq.prevScount) where
  readTicks _ _ _ := rfl
  imu _ _ _ _ _ _ := rfl
  rollAccel _ := rfl
  accelerated _ _ _ := rfl

theorem irqEnabled_accelerometer :
    (accelerometer env p).daq.irqEnabled = p.daq.irqEnabled ∧
      (accelerometer env p).daq.prevScount = p.daq.prevScount :=
  Prod.mk.inj (besideMpu_irqEnabled.accelerometer env p)

/-- The early return leaves the critical section open. -/
theorem irqEnabled_getVelocity : (getVelocity env p).2.daq.irqEnabled = true ↔
    mainInterval (env.retro .velocity) ≠ 0 := by
  unfold getVelocity
  dsimp only
  split
  · rename_i h
    simp [h, disableIrq]
  · rename_i h
    simp [h, enableIrq]

theorem irqEnabled_stripVelocity (h : p.daq.irqEnabled = true) :
    (stripVelocity env p).daq.irqEnabled = true ↔
      ¬ (p.NewStrip env ∧ mainInterval (env.retro .velocity) = 0) := by
  unfold stripVelocity
  by_cases hnew : p.NewStrip env
  · rw [if_pos hnew]
    dsimp only
    rw [setTelem_daq, irqEnabled_getVelocity]
    simp [hnew]
  · rw [if_neg hnew]
    have hstale : ∀ q : Pod, q.enableIrq.daq.irqEnabled = true := fun _ => rfl
    dsimp only
    split
    · simp [hnew, hstale]
    · simp [hnew, h]

theorem irqEnabled_badgerloopUpdateData (h : p.daq.irqEnabled = true) :
    (badgerloopUpdateData env p).daq.irqEnabled = true ↔
      ¬ (p.NewStrip env ∧ mainInterval (env.retro .velocity) = 0) ∨
        writesSerial p.reports (forcedWrites env p.telem) = true := by
  let counted := p.setTelem { p.telem with sCount := (env.retro .scount).count }
  let moved := stripVelocity env (accelerometer env counted)
  let placed := moved.setTelem
    { moved.telem with position := (moved.cfg.cmPerStrip * moved.telem.sCount).toInt32 }
  have haccel := irqEnabled_accelerometer env counted
  have hstrip := irqEnabled_stripVelocity env (accelerometer env counted) (haccel.1.trans h)
  have hstill : Still p moved := still_of_eq <|
    (beside_still.toBesideStrips.stripVelocity env _).trans
      (beside_still.toBesideMpu.accelerometer env counted)
  have hlast : badgerloopUpdateData env p = badgerloopForcedData env (pressures env placed) := rfl
  have hreports : (pressures env placed).reports = p.reports := hstill.reports
  have hlim : (pressures env placed).telem.limStates = p.telem.limStates := hstill.limStates
  have hirq : (pressures env placed).daq.irqEnabled = moved.daq.irqEnabled := rfl
  have hnew : (accelerometer env counted).NewStrip env ↔ p.NewStrip env := by
    rw [NewStrip, haccel.2]
    rfl
  rw [hlast, irqEnabled_badgerloopForcedData, forcedWrites_congr env hlim, hreports, hirq,
    Bool.or_eq_true, hstrip, hnew]

end Pod

/-! ## Return paths -/

/-- Interrupts are enabled when either function returns. -/
def IrqRestored (env : Env) (p : Pod) : Prop :=
  (p.getVelocity env).2.daq.irqEnabled = true ∧
    (p.badgerloopUpdateData env).daq.irqEnabled = true

/-- Entered with interrupts enabled, both functions return with interrupts enabled if and only if
`MAIN_INTERVAL` is not zero. -/
theorem irqRestored_iff (env : Env) (p : Pod) (h : p.daq.irqEnabled = true) :
    ((p.getVelocity env).2.daq.irqEnabled = true ↔ mainInterval (env.retro .velocity) ≠ 0) ∧
      ((p.badgerloopUpdateData env).daq.irqEnabled = true ↔
        ¬ (p.NewStrip env ∧ mainInterval (env.retro .velocity) = 0) ∨
          Pod.writesSerial p.reports (forcedWrites env p.telem) = true) ∧
      (IrqRestored env p ↔ mainInterval (env.retro .velocity) ≠ 0) := by
  have hget := Pod.irqEnabled_getVelocity env p
  have hupdate := Pod.irqEnabled_badgerloopUpdateData env p h
  refine ⟨hget, hupdate, fun hr => hget.mp hr.1, fun hi => ⟨hget.mpr hi, hupdate.mpr (.inl ?_)⟩⟩
  exact fun hn => hi hn.2

/-- Three strips, each 200 ms after the one before. -/
theorem irqRestored_steady : IrqRestored ((bench 650).afterStrips [200, 400, 600]) boot :=
  (irqRestored_iff _ boot rfl).2.2.mpr (by decide)

/-- Until the third strip the ring has no interval in the slot that is read. -/
theorem irqRestored_afterStrips (env : Env) {p : Pod} {ticks : List UInt32}
    (h : p.daq.irqEnabled = true) (hn : ticks.length < 2 ^ 32) :
    IrqRestored (env.afterStrips ticks) p ↔
      3 ≤ ticks.length ∧ nthInterval ticks (ticks.length - 2) ≠ 0 := by
  have hread : (env.afterStrips ticks).retro .velocity = .record ticks := rfl
  have hget := Pod.irqEnabled_getVelocity (env.afterStrips ticks) p
  have hupdate := Pod.irqEnabled_badgerloopUpdateData (env.afterStrips ticks) p h
  rw [hread, mainInterval_record hn] at hget hupdate
  rw [IrqRestored, hget, hupdate]
  split
  · rename_i h3
    simp only [h3, true_and]
    exact ⟨fun hi => hi.1, fun hi => ⟨hi, .inl fun hz => hi hz.2⟩⟩
  · rename_i h3
    simp [h3]

/-- The first strip of a run. -/
theorem interrupts_stay_off : boot.daq.irqEnabled = true ∧
    (boot.getVelocity ((bench 1010).afterStrips [1000])).2.daq.irqEnabled = false ∧
    (boot.badgerloopUpdateData ((bench 1010).afterStrips [1000])).daq.irqEnabled = false ∧
    ¬ ∀ env p, p.daq.irqEnabled = true → IrqRestored env p := by
  have hget : (boot.getVelocity ((bench 1010).afterStrips [1000])).2.daq.irqEnabled = false := by
    decide +kernel
  refine ⟨rfl, hget, by decide +kernel, fun h => ?_⟩
  have hon := (h ((bench 1010).afterStrips [1000]) boot rfl).1
  rw [hget] at hon
  cases hon

end PodFirmware
