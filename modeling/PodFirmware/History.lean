import PodFirmware.Run

/-!
# PodFirmware.History

What one `state_machine_handler` call adds to the log.

* `Gives`, `Reason`: the commands to the actuators, where they come from and under which guard.
* `entry`, `lastEntry`: when the machine took up a state.
* `Call.lawful`: how a law about the time since the last entry is carried over a call.
-/

namespace PodFirmware

def Event.isCommand : Event → Bool
  | .inHandler _ => false
  | .fromHandler _ _ => false
  | .toHandler _ _ => false
  | .transition _ _ => false
  | _ => true

variable {env : Env} {p p' : Pod} {t : Nat} {s source target : StateName} {e : Nat × Event}

/-! ## Handlers only give commands -/

theorem inEvents_all : (inEvents env p t s).all (·.2.isCommand) = true := by
  unfold inEvents
  cases s with
  | idle => simp only []; split <;> split <;> rfl
  | coast => simp only []; split <;> rfl
  | braking => simp only []; split <;> split <;> rfl
  | fault => rfl
  | ready => rfl
  | pushing => rfl

theorem fromEvents_all : (fromEvents t target s).all (·.2.isCommand) = true := by
  unfold fromEvents
  cases s with
  | braking => simp only []; split <;> rfl
  | _ => rfl

theorem toEvents_all : (toEvents env p t source target).all (·.2.isCommand) = true := by
  unfold toEvents
  cases target with
  | fault => simp only []; split <;> rfl
  | coast => simp only []; split <;> rfl
  | braking => simp only []; split <;> rfl
  | _ => rfl

/-- The call from `p` to `p'` gives the command `e`: in the periodic handler of the current state,
on leaving it, or on entering another. -/
inductive Gives (env : Env) (p p' : Pod) (e : Nat × Event) : Prop where
  | inside (fires : fires env p = true)
      (mem : e ∈ inEvents env p (env.clock.read .checkSet) p.handle.currState)
  | leaving {target : StateName} {t : Nat} (move : Move env p p' target t)
      (mem : e ∈ fromEvents t target p.handle.currState)
  | entering {target : StateName} {t : Nat} (move : Move env p p' target t)
      (mem : e ∈ toEvents env p t p.handle.currState target)

theorem gives_of_inLog (h : e ∈ inLog env p) (hc : e.2.isCommand = true) : Gives env p p' e := by
  unfold inLog at h
  split at h
  case isTrue hf =>
    rcases List.mem_append.mp h with h | h
    · exact .inside hf h
    · rw [List.mem_singleton.mp h] at hc
      cases hc
  case isFalse => cases h

theorem gives_of_passLog (hm : Move env p p' target t) (h : e ∈ passLog env p target t)
    (hc : e.2.isCommand = true) : Gives env p p' e := by
  simp only [passLog, List.mem_cons, List.mem_append] at h
  rcases h with h | rfl | h | rfl | h
  · exact .entering hm h
  · cases hc
  · exact .leaving hm h
  · cases hc
  · exact gives_of_inLog h hc

theorem Call.gives (h : Call env p p') :
    ∃ evs, p'.log = evs ++ p.log ∧ ∀ e ∈ evs, e.2.isCommand = true → Gives env p p' e := by
  rcases h.outcome with hstay | ⟨target, t, hmove⟩
  · exact ⟨inLog env p, hstay.log, fun e he hc => gives_of_inLog he hc⟩
  · refine ⟨(p'.now, _) :: passLog env p target t, hmove.log, ?_⟩
    intro e he hc
    rcases List.mem_cons.mp he with rfl | he
    · cases hc
    · exact gives_of_passLog hmove he hc

/-! ## Entries -/

def Event.isTransition : Event → Bool
  | .transition _ _ => true
  | _ => false

theorem Event.not_isTransition {ev : Event} (h : ev.isCommand = true) :
    ev.isTransition = false := by
  cases ev with
  | transition => cases h
  | _ => rfl

theorem inLog_quiet : ∀ e ∈ inLog env p, e.2.isTransition = false := by
  intro e he
  unfold inLog at he
  split at he
  · rcases List.mem_append.mp he with he | he
    · exact Event.not_isTransition (List.all_eq_true.mp inEvents_all e he)
    · rw [List.mem_singleton.mp he]
      rfl
  · cases he

/-- Only the last event of a call can be a change of state. -/
theorem passLog_quiet : ∀ e ∈ passLog env p target t, e.2.isTransition = false := by
  intro e he
  simp only [passLog, List.mem_cons, List.mem_append] at he
  rcases he with he | rfl | he | rfl | he
  · exact Event.not_isTransition (List.all_eq_true.mp toEvents_all e he)
  · rfl
  · exact Event.not_isTransition (List.all_eq_true.mp fromEvents_all e he)
  · rfl
  · exact inLog_quiet e he

def entry (s : StateName) : Nat × Event → Option Nat
  | (t, .transition source target) => if target = s ∧ source ≠ s then some t else none
  | _ => none

theorem entry_eq_none (h : e.2.isTransition = false) : entry s e = none := by
  obtain ⟨t, ev⟩ := e
  cases ev with
  | transition => cases h
  | _ => rfl

theorem entry_inLog : ∀ e ∈ inLog env p, entry s e = none :=
  fun e he => entry_eq_none (inLog_quiet e he)

theorem entry_passLog : ∀ e ∈ passLog env p target t, entry s e = none :=
  fun e he => entry_eq_none (passLog_quiet e he)

/-- When the machine last entered `s` before now, if ever. -/
def lastEntry (s : StateName) (log : Log) : Option Nat := Trace.latest (entry s) log

theorem Stay.lastEntry (h : Stay env p p') : lastEntry s p'.log = lastEntry s p.log := by
  rw [h.log, PodFirmware.lastEntry, Trace.latest_append, Trace.latest_eq_none.mpr entry_inLog,
    Option.none_or]
  rfl

theorem Move.lastEntry (h : Move env p p' target t) : lastEntry s p'.log =
    if p'.handle.currState = s ∧ p.handle.currState ≠ s then some p'.now
    else lastEntry s p.log := by
  rw [h.log, PodFirmware.lastEntry, Trace.latest_cons, Trace.latest_append,
    Trace.latest_eq_none.mpr entry_passLog, Option.none_or]
  simp only [entry]
  split <;> rfl

/-- Commands obey a law about the time since the last entry into `s` if all those that the call
gives do. -/
theorem Call.lawful {law : Log → Nat × Event → Prop} {P : Option Nat → Nat × Event → Prop}
    (h : Call env p p') (hlaw : ∀ older e, law older e ↔ P (PodFirmware.lastEntry s older) e)
    (hother : ∀ o e, e.2.isCommand = false → P o e)
    (hgives : ∀ e, e.2.isCommand = true → Gives env p p' e → P (PodFirmware.lastEntry s p.log) e)
    (hp : Trace.Lawful law p.log) : Trace.Lawful law p'.log := by
  have hnew : ∀ evs : Log, (∀ e ∈ evs, entry s e = none) →
      (∀ e ∈ evs, e.2.isCommand = true → Gives env p p' e) → Trace.Lawful law (evs ++ p.log) := by
    intro evs hentry hevs
    refine (Trace.lawful_append_of_latest hlaw hentry).mpr ⟨fun e he => ?_, hp⟩
    cases hc : e.2.isCommand with
    | false => exact hother _ e hc
    | true => exact hgives e hc (hevs e he hc)
  rcases h.outcome with hstay | ⟨target, t, hmove⟩
  · rw [hstay.log]
    exact hnew _ entry_inLog fun e he hc => gives_of_inLog he hc
  · rw [hmove.log]
    exact ⟨(hlaw _ _).mpr (hother _ _ rfl),
      hnew _ entry_passLog fun e he hc => gives_of_passLog hmove he hc⟩

/-! ## Brakes and thrusters -/

def primaryCommand : Nat × Event → Option Int32
  | (_, .primaryBrakes i) => some i
  | _ => none

def secondaryCommand : Nat × Event → Option Int32
  | (_, .secondaryBrakes i) => some i
  | _ => none

def thrusterCommand : Nat × Event → Option Bool
  | (_, .thrusters on) => some on
  | _ => none

def Event.Brakes (ev : Event) : Prop := ev = .primaryBrakes 100 ∨ ev = .secondaryBrakes 100

def Event.Releases (ev : Event) : Prop := ev = .primaryBrakes 0 ∨ ev = .secondaryBrakes 0

def Event.isVent : Event → Bool
  | .ventPrimaryBrakes _ => true
  | .ventSecondaryBrakes _ => true
  | .ventThrusters _ => true
  | _ => false

inductive Reason (env : Env) (p p' : Pod) : Nat × Event → Prop where
  | vent {t : Nat} {ev : Event} (h : ev.isVent = true) : Reason env p p' (t, ev)
  | shut {t : Nat} : Reason env p p' (t, .thrusters false)
  | thrust (coast : p.handle.currState = .coast)
      (elapsed : env.ticks .coastThrust - p.marks.coastTs > p.cfg.thrustTo) :
      Reason env p p' (env.clock.read .coastThrust, .thrusters true)
  | brake {r : TickRead} {ev : Event} (h : ev.Brakes)
      (guard : ¬ pushedFor env p r < p.cfg.dontBrakeTo) : Reason env p p' (env.clock.read r, ev)
  | powerOn {t : Nat} {ev : Event} (h : ev.Releases) (idle : p.handle.currState = .idle)
      (flag : hasFlag p.handle.flags powerOn = true) : Reason env p p' (t, ev)
  | release {t t' : Nat} {ev : Event} {target : StateName} (h : ev.Releases)
      (braking : p.handle.currState = .braking) (move : Move env p p' target t')
      (ne : target ≠ .fault) : Reason env p p' (t, ev)

theorem not_lt_of_pushedFor_gt {r : TickRead} (h : pushedFor env p r > p.cfg.dontBrakeTo) :
    ¬ pushedFor env p r < p.cfg.dontBrakeTo :=
  UInt32.not_lt.mpr (UInt32.le_of_lt h)

theorem reason_of_inside (h : e ∈ inEvents env p t p.handle.currState) : Reason env p p' e := by
  cases hs : p.handle.currState <;> rw [hs] at h <;> simp only [inEvents, List.mem_append,
    List.mem_ite_nil_right, List.mem_cons, List.not_mem_nil, or_false] at h
  case idle =>
    rcases h with ⟨_, rfl | rfl | rfl⟩ | ⟨hf, rfl | rfl | rfl | rfl | rfl | rfl⟩
    · exact .vent rfl
    · exact .vent rfl
    · exact .vent rfl
    · exact .vent rfl
    · exact .vent rfl
    · exact .vent rfl
    · exact .shut
    · exact .powerOn (.inr rfl) hs hf
    · exact .powerOn (.inl rfl) hs hf
  case coast =>
    obtain ⟨ht, rfl⟩ := h
    exact .thrust hs ht
  case braking =>
    rcases h with ⟨ht, rfl⟩ | ⟨⟨_, _, ht⟩, rfl⟩
    · exact .brake (.inl rfl) (not_lt_of_pushedFor_gt ht)
    · exact .brake (.inr rfl) (not_lt_of_pushedFor_gt ht)

theorem reason_of_leaving (hm : Move env p p' target t)
    (h : e ∈ fromEvents t target p.handle.currState) : Reason env p p' e := by
  cases hs : p.handle.currState <;> rw [hs] at h <;> simp only [fromEvents,
    List.mem_ite_nil_right, List.mem_cons, List.not_mem_nil, or_false] at h
  case coast =>
    subst h
    exact .shut
  case braking =>
    rcases h with ⟨hne, rfl | rfl⟩
    · exact .release (.inr rfl) hs hm hne
    · exact .release (.inl rfl) hs hm hne

theorem reason_of_entering (h : e ∈ toEvents env p t source target) : Reason env p p' e := by
  cases target <;> simp only [toEvents, List.mem_ite_nil_right, List.mem_ite_nil_left,
    List.mem_cons, List.not_mem_nil, or_false] at h
  case fault =>
    obtain ⟨⟨_, ht⟩, rfl | rfl⟩ := h
    · exact .brake (.inr rfl) (not_lt_of_pushedFor_gt ht)
    · exact .brake (.inl rfl) (not_lt_of_pushedFor_gt ht)
  case coast =>
    obtain ⟨_, rfl⟩ := h
    exact .vent rfl
  case braking =>
    obtain ⟨ht, rfl⟩ := h
    exact .brake (.inl rfl) ht

theorem Gives.reason (h : Gives env p p' e) : Reason env p p' e := by
  cases h with
  | inside _ h => exact reason_of_inside h
  | leaving hm h => exact reason_of_leaving hm h
  | entering _ h => exact reason_of_entering h

/-- Brakes are applied under a guard on the time since the push. -/
theorem Gives.brakes (h : Gives env p p' e) (hb : e.2.Brakes) :
    ∃ r, e.1 = env.clock.read r ∧ ¬ pushedFor env p r < p.cfg.dontBrakeTo := by
  cases h.reason with
  | brake _ hg => exact ⟨_, rfl, hg⟩
  | vent hv => rcases hb with rfl | rfl <;> cases hv
  | shut => rcases hb with h | h <;> cases h
  | thrust => rcases hb with h | h <;> cases h
  | powerOn hr => rcases hb with rfl | rfl <;> rcases hr with h | h <;> simp at h
  | release hr => rcases hb with rfl | rfl <;> rcases hr with h | h <;> simp at h

/-- Brakes are released after power-on, and on leaving `BRAKING` for anything but `FAULT`. -/
theorem Gives.releases (h : Gives env p p' e) (hr : e.2.Releases) :
    (p.handle.currState = .idle ∧ hasFlag p.handle.flags powerOn = true) ∨
      p.handle.currState = .braking ∧ ∃ target t, Move env p p' target t ∧ target ≠ .fault := by
  cases h.reason with
  | powerOn _ hs hf => exact .inl ⟨hs, hf⟩
  | release _ hs hm hne => exact .inr ⟨hs, _, _, hm, hne⟩
  | brake hb => rcases hb with rfl | rfl <;> rcases hr with h | h <;> simp at h
  | vent hv => rcases hr with rfl | rfl <;> cases hv
  | shut => rcases hr with h | h <;> cases h
  | thrust => rcases hr with h | h <;> cases h

/-- Thrusters are turned on by `in_coast` only, under a guard on the time since `to_coast`. -/
theorem Gives.thrusters (h : Gives env p p' e) (ht : e.2 = .thrusters true) :
    p.handle.currState = .coast ∧ e.1 = env.clock.read .coastThrust ∧
      env.ticks .coastThrust - p.marks.coastTs > p.cfg.thrustTo := by
  cases h.reason with
  | thrust hs hg => exact ⟨hs, rfl, hg⟩
  | vent hv => subst ht; cases hv
  | shut => cases ht
  | brake hb => subst ht; rcases hb with h | h <;> cases h
  | powerOn hr => subst ht; rcases hr with h | h <;> cases h
  | release hr => subst ht; rcases hr with h | h <;> cases h

end PodFirmware
