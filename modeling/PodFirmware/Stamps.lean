import PodFirmware.Application
import PodFirmware.Aside
import PodFirmware.Beside

/-!
# PodFirmware.Stamps

The time stamps that gate the periodic activities, and who sets them. Each of the four gates has its
own stamp, set where the gate lets the activity through, and no other code touches it (`Stamps`).
The exception is `last_telem_timestamp`, which every datagram sets as well; it is kept apart.

`Still` is for the part of data acquisition that does not print.
-/

namespace PodFirmware

/-- The stamps that only their own gate sets, and the override that closes one of the gates. -/
@[ext] structure Stamps where
  timestamps : StateName → UInt32
  lastDaqTimestamp : UInt32
  lastBattTimestamp : UInt32
  manualUpdate : Bool

def Pod.stamps (p : Pod) : Stamps where
  timestamps := p.handle.timestamps
  lastDaqTimestamp := p.daq.lastDaqTimestamp
  lastBattTimestamp := p.daq.lastBattTimestamp
  manualUpdate := p.daq.manualUpdate

namespace Pod

variable (env : Env) (p : Pod)

@[simp] theorem stamps_readTicks (r : TickRead) : (p.readTicks env r).stamps = p.stamps := rfl
@[simp] theorem stamps_emit (ev : Event) : (p.emit ev).stamps = p.stamps := rfl

theorem stamps_setTimestamps (ts : StateName → UInt32) :
    (p.setHandle { p.handle with timestamps := ts }).stamps = { p.stamps with timestamps := ts } :=
  rfl

end Pod

/-! ## Data acquisition -/

/-- From `p` to `q` nothing was printed, no limit switch was sampled and no gate was passed. -/
structure Still (p q : Pod) : Prop where
  stamps : q.stamps = p.stamps
  reports : q.reports = p.reports
  limStates : q.telem.limStates = p.telem.limStates

theorem still_of_eq {p q : Pod} (h : (q.stamps, q.reports, q.telem.limStates) =
    (p.stamps, p.reports, p.telem.limStates)) : Still p q := by
  simp only [Prod.mk.injEq] at h
  obtain ⟨hstamps, hreports, hlim⟩ := h
  exact ⟨hstamps, hreports, hlim⟩

theorem beside_still : Beside fun p : Pod => (p.stamps, p.reports, p.telem.limStates) where
  readTicks _ _ _ := rfl
  imu _ _ _ _ _ _ := rfl
  rollAccel _ := rfl
  accelerated _ _ _ := rfl
  critical _ _ _ := rfl
  moved _ _ _ := rfl
  counted _ _ := rfl
  pressures _ _ := rfl

namespace Pod

variable (env : Env) (p : Pod)

/-- `badgerloop_update_data` does nothing that prints until it calls `badgerloop_forced_data`. -/
theorem badgerloopUpdateData_eq : ∃ q, Still p q ∧
    badgerloopUpdateData env p = badgerloopForcedData env q := by
  obtain ⟨q, hq, hupdate⟩ := beside_still.badgerloopUpdateData env p
  exact ⟨q, still_of_eq hq, hupdate⟩

theorem stamps_sampleLimit (pin : InputPin) (bit : UInt8) (r : TickRead) (site : Print)
    (mark : LimitTimes → UInt32 → LimitTimes) :
    (sampleLimit env pin bit r site mark p).stamps = p.stamps := by
  unfold sampleLimit
  dsimp only
  split <;> rfl

theorem stamps_badgerloopForcedData : (badgerloopForcedData env p).stamps = p.stamps := by
  have hlim : (sampleDlim env (samplePlim2 env (samplePlim1 env (sampleBlim2 env (sampleBlim1 env
      (stoppingDistance p)))))).stamps = p.stamps := by
    simp only [sampleDlim, samplePlim2, samplePlim1, sampleBlim2, sampleBlim1, stamps_sampleLimit]
    rfl
  unfold badgerloopForcedData
  dsimp only
  split <;> exact hlim

theorem stamps_badgerloopUpdateData : (badgerloopUpdateData env p).stamps = p.stamps := by
  obtain ⟨q, hq, he⟩ := badgerloopUpdateData_eq env p
  rw [he, stamps_badgerloopForcedData, hq.stamps]

/-! ## Handlers -/

theorem aside_stamps : Aside stamps where
  readTicks _ _ _ := rfl
  setReports _ _ := rfl
  printf _ _ _ := rfl
  drive _ _ _ := rfl
  emit _ _ := rfl
  setMarks _ _ _ := rfl
  setHandle p h ht := by rw [stamps, setHandle_handle, ht]; rfl

theorem stamps_inHandlers (s : StateName) (flags : UInt32) :
    (inHandlers env s flags p).stamps = p.stamps := by
  rw [aside_stamps.inHandlers, countEmergency]
  split
  · split <;> rfl
  · rfl

theorem stamps_switchTo (target : StateName) : (switchTo env target p).stamps = p.stamps :=
  aside_stamps.switchTo env p target

end Pod
end PodFirmware
