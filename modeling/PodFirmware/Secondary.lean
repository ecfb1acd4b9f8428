import PodFirmware.Apart
import PodFirmware.Aside
import PodFirmware.Brakes
import PodFirmware.Distance

/-!
# PodFirmware.Secondary

When `in_braking` applies the secondary brakes. The comment there says what an emergency is; the
code differs from it in the limit switches and where distance and position add up to a negative
number, and its count goes on from one braking episode to the next.

* `emergency`, `emergency_eq_iff`: the emergency of the comment, and where the code decides alike.
* `Episodes`: the pod, with the emergencies found in this episode and before it.
* `decides_of_regular`: where none of the differences matters, the decision is the documented one.
-/

namespace PodFirmware

/-! ## The emergency -/

/-- The stopping distance, known by not being `TARGET_END_POS` itself, leads beyond the target. -/
def overshoots (cfg : Config) (t : Telemetry) : Bool :=
  t.stoppingDistance.toUInt32 ≠ cfg.targetEndPos &&
    (cfg.targetEndPos.toNat : Int) < t.stoppingDistance.toInt + t.position.toInt

/-- As the comment has it: the downstream pressure is out of its band while one of the switches is
open, or the pod would come to a stop beyond the target. -/
def emergency (cfg : Config) (t : Telemetry) : Bool :=
  (Pod.brakePressureOut t.brP3 && (t.getLim Telemetry.blim1 || t.getLim Telemetry.blim2)) ||
    overshoots cfg t

/-- A negative sum is not taken for a large one. -/
def DistanceClear (cfg : Config) (t : Telemetry) : Prop :=
  t.stoppingDistance.toInt + t.position.toInt < 0 →
    t.stoppingDistance.toUInt32 = cfg.targetEndPos ∨
      2 ^ 32 + t.stoppingDistance.toInt + t.position.toInt ≤ cfg.targetEndPos.toNat

/-- The code decides as the comment says: one switch alone makes no difference, and where the
switches do not decide, the sum does not wrap. -/
structure Unambiguous (cfg : Config) (t : Telemetry) : Prop where
  switches : Pod.brakePressureOut t.brP3 = true →
    t.getLim Telemetry.blim1 ≠ t.getLim Telemetry.blim2 → Pod.brakingDistance cfg t = true
  distance : (Pod.brakePressureOut t.brP3 &&
    (t.getLim Telemetry.blim1 || t.getLim Telemetry.blim2)) = false → DistanceClear cfg t

section Emergency

variable {cfg : Config} {t : Telemetry}

theorem distance_iff : Pod.brakingDistance cfg t = overshoots cfg t ↔ DistanceClear cfg t := by
  have hT := cfg.targetEndPos.toNat_lt
  unfold DistanceClear
  rw [Bool.eq_iff_iff, Pod.brakingDistance, overshoots, Bool.and_eq_true, Bool.and_eq_true,
    beyondTarget_iff, decide_eq_true_eq, decide_eq_true_eq]
  by_cases hk : t.stoppingDistance.toUInt32 = cfg.targetEndPos
  · simp [hk]
  · simp only [hk, ne_eq, not_false_eq_true, true_and, false_or]
    omega

/-- Both switches and the code's distance condition, against one switch and the documented one. -/
theorem alike_iff (out switch1 switch2 distance meant : Bool) :
    ((out && (switch1 && switch2)) || distance) = ((out && (switch1 || switch2)) || meant) ↔
      (out = true → switch1 ≠ switch2 → distance = true) ∧
        ((out && (switch1 || switch2)) = false → distance = meant) := by
  revert out switch1 switch2 distance meant
  decide

theorem emergency_eq_iff :
    Pod.brakingEmergency cfg t = emergency cfg t ↔ Unambiguous cfg t := by
  rw [Pod.brakingEmergency, emergency, alike_iff, distance_iff]
  exact ⟨fun ⟨hs, hd⟩ => ⟨hs, hd⟩, fun ⟨hs, hd⟩ => ⟨hs, hd⟩⟩

end Emergency

/-! ## One evaluation -/

/-- `in_braking` runs in this call. -/
def evaluates (env : Env) (p : Pod) : Bool :=
  fires env (p.beforeHandler env) && (p.beforeHandler env).handle.currState = .braking

/-- `in_braking`, run from `p`, applies the secondary brakes. -/
def appliesSecondary (env : Env) (p : Pod) : Prop :=
  ∃ t, (t, Event.secondaryBrakes 100) ∈ Trace.since (Pod.runIn env p).log p.log

section Evaluation

variable {env : Env} {p : Pod}

theorem appliesSecondary_iff (hf : fires env p = true) (hb : p.handle.currState = .braking) :
    appliesSecondary env p ↔ Pod.brakingEmergency p.cfg p.telem = true ∧
      (p.marks.primaryLowCount + 1).toUInt32 > p.cfg.brakingCountThrs ∧
        pushedFor env p .brakingSecondary > p.cfg.dontBrakeTo := by
  have hlog := (Pod.runIn_spec env p).1.log
  unfold appliesSecondary
  rw [hlog, Trace.since_append, inLog, if_pos hf, hb]
  unfold inEvents
  dsimp only
  constructor
  · rintro ⟨t, ht⟩
    by_contra hno
    rw [if_neg hno] at ht
    split at ht <;> simp at ht
  · intro h
    rw [if_pos h]
    exact ⟨env.clock.read .brakingSecondary, by simp⟩

end Evaluation

/-! ## Episodes -/

/-- The pod, and how many evaluations of `in_braking` have found the emergency: in earlier episodes,
and since `BRAKING` was taken up. -/
structure Episodes where
  pod : Pod
  earlier : Nat
  found : Nat

/-- An evaluation in this step finds the emergency. -/
def finds (p : Pod) (i : ShellInput) : Bool :=
  match i.env? with
  | some env =>
    evaluates env p && emergency (p.beforeHandler env).cfg (p.beforeHandler env).telem
  | none => false

namespace Episodes

def step (s : Episodes) (i : ShellInput) : Episodes :=
  let q := shellStep s.pod i
  let found := s.found + if finds s.pod i then 1 else 0
  if s.pod.handle.currState = .braking ∧ q.handle.currState = .braking then
    { pod := q, earlier := s.earlier, found := found }
  else { pod := q, earlier := s.earlier + found, found := 0 }

/-- An evaluation in this step applies the secondary brakes exactly when it should: after the
lockout, in an emergency, which has been found more than `BRAKING_COUNT_THRS` times in this
episode. -/
def Decides (s : Episodes) (i : ShellInput) : Prop :=
  ∀ env, i.env? = some env → evaluates env s.pod = true →
    let q := s.pod.beforeHandler env
    appliesSecondary env q ↔
      pushEntry s.pod.log + q.cfg.dontBrakeTo.toNat < env.clock.read .brakingSecondary ∧
        emergency q.cfg q.telem = true ∧ q.cfg.brakingCountThrs.toNat < s.found + 1

/-- Time does not run backwards. -/
def Timely (s : Episodes) (i : ShellInput) : Prop :=
  ∀ env, i.env? = some env → pushEntry s.pod.log ≤ env.clock.read .brakingSecondary

/-- None of the defects matters to an evaluation in this step. -/
structure Regular (s : Episodes) (env : Env) (q : Pod) : Prop where
  clear : Unambiguous q.cfg q.telem
  elapsed : env.clock.read .brakingSecondary < pushEntry s.pod.log + 2 ^ 32
  own : emergency q.cfg q.telem = true → q.cfg.brakingCountThrs.toNat < s.earlier + s.found + 1 →
    q.cfg.brakingCountThrs.toNat < s.found + 1
  bounded : s.earlier + s.found + 1 < 2 ^ 32

def RegularStep (s : Episodes) (i : ShellInput) : Prop :=
  ∀ env, i.env? = some env → evaluates env s.pod = true →
    s.Regular env (s.pod.beforeHandler env)

/-- The pod's own count is of all episodes together. -/
structure Counted (s : Episodes) : Prop where
  mark : s.pod.marks.pushingStartTs = Tick.reading (pushEntry s.pod.log)
  count : s.pod.marks.primaryLowCount.toUInt32 = UInt32.ofNat (s.earlier + s.found)

variable {s : Episodes} {i : ShellInput} {env : Env}

theorem total_step : (s.step i).earlier + (s.step i).found =
    s.earlier + s.found + if finds s.pod i then 1 else 0 := by
  unfold step
  dsimp only
  split <;> dsimp only <;> omega

theorem pod_step : (s.step i).pod = shellStep s.pod i := by
  unfold step
  dsimp only
  split <;> rfl

theorem apart_marks : Apart fun p => (p.marks, pushEntry p.log) where
  readTicks _ _ _ := rfl
  setReports _ _ := rfl
  setDaq _ _ := rfl
  setTelem _ _ := rfl
  setConfig _ _ := rfl
  changeState _ _ := rfl
  drive p ev f hev := by
    have hnone : entry .pushing (p.now, ev) = none := entry_eq_none (Event.not_isTransition hev)
    have hlast : pushEntry (p.drive ev f).log = pushEntry p.log := by
      show pushEntry ((p.now, ev) :: p.log) = pushEntry p.log
      rw [pushEntry, lastEntry, Trace.latest_cons, hnone]
      rfl
    rw [hlast]
    rfl
  update env p := by
    have hframe := Pod.badgerloopUpdateData_frame env p
    rw [hframe.marks, hframe.log]

/-- What the code finds is what the comment means. -/
theorem findsEmergency_eq (hr : s.RegularStep i) (he : i.env? = some env) :
    (s.pod.beforeHandler env).findsEmergency env = finds s.pod i := by
  have hfinds : finds s.pod i = (evaluates env s.pod &&
      emergency (s.pod.beforeHandler env).cfg (s.pod.beforeHandler env).telem) := by
    rw [finds, he]
  have hcode : (s.pod.beforeHandler env).findsEmergency env = (evaluates env s.pod &&
      Pod.brakingEmergency (s.pod.beforeHandler env).cfg (s.pod.beforeHandler env).telem) := rfl
  rw [hfinds, hcode]
  cases hev : evaluates env s.pod with
  | false => rfl
  | true => rw [emergency_eq_iff.mpr (hr env he hev).clear]

theorem ofNat_succ_count {c : Int32} {n : Nat} (h : c.toUInt32 = UInt32.ofNat n) :
    (c + 1).toUInt32 = UInt32.ofNat (n + 1) := by
  rw [Int32.toUInt32_add, h, UInt32.ofNat_add]
  rfl

theorem Counted.step (h : s.Counted) (hr : s.RegularStep i) : (s.step i).Counted := by
  cases he : i.env? with
  | none =>
    have hkept := apart_marks.shellStep s.pod he fun _ _ => rfl
    obtain ⟨hmarks, hentry⟩ := Prod.mk.inj hkept
    have hfinds : finds s.pod i = false := by rw [finds, he]
    constructor
    · rw [pod_step, hmarks, hentry]
      exact h.mark
    · rw [pod_step, hmarks, total_step, hfinds]
      exact h.count
  | some env =>
    have hbefore := Pod.beforeHandler_before env s.pod
    have hcall := Pod.stateMachineHandler_call env (s.pod.beforeHandler env)
    have hpod : (s.step i).pod = (s.pod.beforeHandler env).stateMachineHandler env := by
      rw [pod_step, shellStep_of_env? he]
      rfl
    have hmark : (s.pod.beforeHandler env).marks.pushingStartTs =
        Tick.reading (pushEntry (s.pod.beforeHandler env).log) := by
      rw [hbefore.marks, hbefore.log]
      exact h.mark
    have hcount : (s.pod.beforeHandler env).marks.primaryLowCount.toUInt32 =
        UInt32.ofNat (s.earlier + s.found) := by
      rw [hbefore.marks]
      exact h.count
    constructor
    · rw [hpod]
      exact hcall.pushingStartTs hmark
    · rw [hpod, Pod.primaryLowCount_stateMachineHandler, findsEmergency_eq hr he, total_step]
      split
      · exact ofNat_succ_count hcount
      · exact hcount

/-- Where the count and the clock do not wrap, the two thresholds are what they are meant to be. -/
theorem Counted.decides (h : s.Counted) (ht : s.Timely i) (hr : s.RegularStep i) :
    s.Decides i := by
  intro env he hev
  have hregular := hr env he hev
  have hbefore := Pod.beforeHandler_before env s.pod
  simp only [evaluates, Bool.and_eq_true, decide_eq_true_eq] at hev
  have hcount : ((s.pod.beforeHandler env).marks.primaryLowCount + 1).toUInt32.toNat =
      s.earlier + s.found + 1 := by
    rw [hbefore.marks, ofNat_succ_count h.count, UInt32.toNat_ofNat']
    exact Nat.mod_eq_of_lt hregular.bounded
  have hpushed : (pushedFor env (s.pod.beforeHandler env) .brakingSecondary).toNat =
      env.clock.read .brakingSecondary - pushEntry s.pod.log := by
    have hle := ht env he
    have hlt := hregular.elapsed
    rw [pushedFor, hbefore.marks, h.mark]
    refine (Tick.toNat_elapsed hle).trans (Nat.mod_eq_of_lt ?_)
    omega
  dsimp only
  rw [appliesSecondary_iff hev.1 hev.2, emergency_eq_iff.mpr hregular.clear, gt_iff_lt, gt_iff_lt,
    UInt32.lt_iff_toNat_lt, UInt32.lt_iff_toNat_lt, hcount, hpushed]
  constructor
  · rintro ⟨hemergency, hthreshold, htime⟩
    exact ⟨by omega, hemergency, hregular.own hemergency hthreshold⟩
  · rintro ⟨htime, hemergency, hthreshold⟩
    exact ⟨hemergency, by omega, by omega⟩

end Episodes

theorem Booted.counted {p : Pod} (h : Booted p) : Episodes.Counted ⟨p, 0, 0⟩ := by
  constructor
  · show p.marks.pushingStartTs = Tick.reading (pushEntry p.log)
    rw [h.marks, h.log]
    rfl
  · show p.marks.primaryLowCount.toUInt32 = UInt32.ofNat 0
    rw [h.marks]
    rfl

/-- In a run in which none of the defects matters, every evaluation decides as documented. -/
theorem decides_of_regular (p : Pod) (is : List ShellInput) (hp : Booted p)
    (ht : Machine.Always Episodes.step Episodes.Timely ⟨p, 0, 0⟩ is)
    (hr : Machine.Always Episodes.step Episodes.RegularStep ⟨p, 0, 0⟩ is) :
    Machine.Always Episodes.step Episodes.Decides ⟨p, 0, 0⟩ is := by
  have hok := Machine.always_and.mpr ⟨ht, hr⟩
  refine Machine.always_of_ok ?_ ?_ hp.counted hok
  · intro s i h ho
    exact h.step ho.2
  · intro s i h ho
    exact h.decides ho.1 ho.2

/-! ## On the bench -/

/-- One evaluation after the lockout, with no downstream pressure and `BRAKING_COUNT_THRS` at 0. -/
def brakeAt (env : Nat → Env) : List ShellInput :=
  [.command quietIo (["badgerloop", "BCT", "0"].map CString.ascii), .loop (.base (.state 'b')),
    .loop (.base (.app (env 8101))), .loop (.base (.app (env 8200)))]

/-- Braking limit switch 2 is closed. -/
def oneOpen (t : Nat) : Env := { bench t with pins := fun pin => pin != .g3 }

theorem Episodes.timely_app {s : Episodes} {env : Env}
    (h : pushEntry s.pod.log ≤ env.clock.read .brakingSecondary) :
    s.Timely (.loop (.base (.app env))) := by
  intro env' he
  cases he
  exact h

theorem decides_at_8200 :
    appliesSecondary (bench 8200) ((Machine.run Episodes.step ⟨boot, 0, 0⟩
      ((brakeAt bench).take 3)).pod.beforeHandler (bench 8200)) := by
  have hother {s : Episodes} {i : ShellInput} (hi : i.env? = none) :
      s.Timely i ∧ s.RegularStep i := by
    refine ⟨fun env he => ?_, fun env he => ?_⟩ <;> rw [hi] at he <;> cases he
  have htimely : Machine.Always Episodes.step Episodes.Timely ⟨boot, 0, 0⟩ (brakeAt bench) :=
    ⟨(hother rfl).1, (hother rfl).1, Episodes.timely_app (by decide +kernel),
      Episodes.timely_app (by decide +kernel), trivial⟩
  have hregular : Machine.Always Episodes.step Episodes.RegularStep ⟨boot, 0, 0⟩
      (brakeAt bench) := by
    refine ⟨(hother rfl).2, (hother rfl).2, fun env he hev => ?_, fun env he hev => ?_, trivial⟩
    · cases he
      exact absurd hev (by decide +kernel)
    · cases he
      exact ⟨emergency_eq_iff.mp (by decide +kernel), by decide +kernel, by decide +kernel,
        by decide +kernel⟩
  have hdecides := decides_of_regular boot (brakeAt bench) booted_boot htimely hregular
  exact (hdecides.2.2.2.1 (bench 8200) rfl (by decide +kernel)).mpr
    ⟨by decide +kernel, by decide +kernel, by decide +kernel⟩

/-- One open switch is an emergency by the comment, and none for the code. -/
theorem one_switch_ignored :
    Booted boot ∧ Machine.Always Episodes.step Episodes.Timely ⟨boot, 0, 0⟩ (brakeAt oneOpen) ∧
      ¬ ∀ p is, Booted p → Machine.Always Episodes.step Episodes.Timely ⟨p, 0, 0⟩ is →
        Machine.Always Episodes.step Episodes.Decides ⟨p, 0, 0⟩ is := by
  have htimely : Machine.Always Episodes.step Episodes.Timely ⟨boot, 0, 0⟩ (brakeAt oneOpen) :=
    ⟨fun _ h => (by cases h), fun _ h => (by cases h), Episodes.timely_app (by decide +kernel),
      Episodes.timely_app (by decide +kernel), trivial⟩
  refine ⟨booted_boot, htimely, fun h => ?_⟩
  have hdecides := h boot (brakeAt oneOpen) booted_boot htimely
  have happlies := (hdecides.2.2.2.1 (oneOpen 8200) rfl (by decide +kernel)).mpr
    ⟨by decide +kernel, by decide +kernel, by decide +kernel⟩
  have hcode := ((appliesSecondary_iff (by decide +kernel) (by decide +kernel)).mp happlies).1
  exact absurd hcode (by decide +kernel)

end PodFirmware
