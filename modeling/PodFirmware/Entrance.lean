import PodFirmware.History

/-!
# PodFirmware.Entrance

Which entrance handlers run, and in what condition the pod enters `FAULT`.

An entrance handler that asks for another state redirects the transition: the machine takes up that
state at once, and the entrance handler of that state is never run. `entryLaw_iff` says in which
calls this happens. `movingFaultLaw_iff` is about the one redirect that lands in `FAULT` in motion,
on which `to_fault` has no chance to divert or to brake.
-/

namespace PodFirmware

/-! ## Entrance handlers -/

/-- The entrance handler that an event is a call of, and the state it is told it comes from. -/
def entrance : Nat × Event → Option (StateName × StateName)
  | (_, .toHandler s source) => some (s, source)
  | _ => none

/-- If the call ends in a new state, the last entrance handler that it ran is that of this state,
called with the state in which the call began. -/
def EntryLaw (env : Env) (p : Pod) : Prop :=
  let p' := p.stateMachineHandler env
  p'.handle.currState ≠ p.handle.currState →
    Trace.latest entrance (Trace.since p'.log p.log) =
      some (p'.handle.currState, p.handle.currState)

instance (env : Env) (p : Pod) : Decidable (EntryLaw env p) := by
  unfold EntryLaw; infer_instance

/-- The call makes a transition whose entrance handler asks for yet another state. -/
def Redirects (env : Env) (p : Pod) : Prop :=
  let curr := p.handle.currState
  (request env p = some .fault ∧ (curr = .ready ∨ curr = .pushing ∨ curr = .coast)) ∨
    (request env p = some .coast ∧ curr ≠ .coast ∧ curr ≠ .braking ∧ curr ≠ .fault ∧
      brakePressureBad p.telem = true) ∨
    (request env p = some .braking ∧ curr ≠ .braking ∧ curr ≠ .coast ∧
      pushedFor env p .toBraking < p.cfg.dontBrakeTo)

/-- A transition ends in its target, or where it started, exactly when it is not one of these. -/
theorem arrival_iff {env : Env} {p : Pod} {target : StateName}
    (hr : request env p = some target) (hne : target ≠ p.handle.currState) :
    (arrival env p p.handle.currState target ≠ p.handle.currState →
      arrival env p p.handle.currState target = target) ↔ ¬ Redirects env p := by
  unfold Redirects
  simp only [hr, Option.some.injEq]
  cases target with
  | idle => simp [arrival, redirect]
  | ready => simp [arrival, redirect]
  | pushing => simp [arrival, redirect]
  | fault =>
    cases p.handle.currState <;> simp [arrival, redirect]
    split <;> simp
  | coast =>
    cases hb : brakePressureBad p.telem <;>
      cases hs : p.handle.currState <;> simp [arrival, redirect, hb, hs] at hne ⊢
  | braking =>
    by_cases ht : pushedFor env p .toBraking < p.cfg.dontBrakeTo <;>
      cases hs : p.handle.currState <;> simp [arrival, redirect, ht, hs] at hne ⊢

theorem redirects_move {env : Env} {p : Pod} (h : Redirects env p) :
    ∃ target, request env p = some target ∧ target ≠ p.handle.currState := by
  rcases h with ⟨hr, hs⟩ | ⟨hr, hne, _⟩ | ⟨hr, hne, _⟩
  · refine ⟨.fault, hr, ?_⟩
    intro e
    rw [← e] at hs
    simp at hs
  · exact ⟨.coast, hr, hne.symm⟩
  · exact ⟨.braking, hr, hne.symm⟩

theorem entrance_of_isCommand {e : Nat × Event} (h : e.2.isCommand = true) : entrance e = none := by
  obtain ⟨t, ev⟩ := e
  cases ev with
  | toHandler => cases h
  | _ => rfl

theorem Move.since_eq {env : Env} {p p' : Pod} {target : StateName} {t : Nat}
    (h : Move env p p' target t) : Trace.since p'.log p.log =
      (p'.now, .transition p.handle.currState p'.handle.currState) :: passLog env p target t := by
  rw [h.log, ← List.cons_append, Trace.since_append]

theorem Move.entrance {env : Env} {p p' : Pod} {target : StateName} {t : Nat}
    (h : Move env p p' target t) :
    Trace.latest entrance (Trace.since p'.log p.log) = some (target, p.handle.currState) := by
  have hto : Trace.latest PodFirmware.entrance (toEvents env p t p.handle.currState target) =
      none := by
    rw [Trace.latest_eq_none]
    exact fun e he => entrance_of_isCommand (List.all_eq_true.mp toEvents_all e he)
  rw [h.since_eq, Trace.latest_cons, passLog, Trace.latest_append, hto]
  rfl

theorem entryLaw_iff (env : Env) (p : Pod) : EntryLaw env p ↔ ¬ Redirects env p := by
  have hc := Pod.stateMachineHandler_call env p
  unfold EntryLaw
  rcases hc.outcome with hstay | ⟨target, t, hmove⟩
  · refine iff_of_true (fun hne => absurd hstay.currState hne) fun hr => ?_
    obtain ⟨target, hreq, hne⟩ := redirects_move hr
    exact hne (hstay.request target hreq)
  · rw [← arrival_iff hmove.request hmove.ne, ← hmove.currState]
    simp only [hmove.entrance, Option.some.injEq, Prod.mk.injEq, and_true]
    exact ⟨fun h hne => (h hne).symm, fun h hne => (h hne).symm⟩

/-- In every run, all calls obey the entry law if and only if no call redirects. -/
theorem entryLaw_run_iff (p : Pod) (is : List Input) :
    EveryCall EntryLaw p is ↔ EveryCall (fun env p => ¬ Redirects env p) p is :=
  everyCall_congr entryLaw_iff p is

theorem entryLaw_fails : Booted boot ∧ ¬ EveryCall EntryLaw boot linkLoss :=
  ⟨booted_boot, by decide +kernel⟩

/-! ## Entering `FAULT` in motion -/

def BrakesHeld (log : Log) : Prop :=
  (Trace.latest primaryCommand log).any (· ≠ 0) = true ∧
    (Trace.latest secondaryCommand log).any (· ≠ 0) = true

instance (log : Log) : Decidable (BrakesHeld log) := by
  unfold BrakesHeld; infer_instance

/-- If the call takes a moving pod to `FAULT`, it leaves the brakes on. -/
def MovingFaultLaw (env : Env) (p : Pod) : Prop :=
  let p' := p.stateMachineHandler env
  (p.handle.currState = .pushing ∨ p.handle.currState = .coast ∨ p.handle.currState = .braking) →
    p'.handle.currState = .fault → BrakesHeld p'.log

instance (env : Env) (p : Pod) : Decidable (MovingFaultLaw env p) := by
  unfold MovingFaultLaw; infer_instance

/-- The push ends with an upstream braking pressure out of range and the brakes not both on. -/
def FaultsUnbraked (env : Env) (p : Pod) : Prop :=
  p.handle.currState = .pushing ∧ request env p = some .coast ∧ brakePressureBad p.telem = true ∧
    ¬ BrakesHeld p.log

theorem passLog_push {env : Env} {p : Pod} {t : Nat} (hs : p.handle.currState = .pushing) :
    ∀ e ∈ passLog env p .coast t, primaryCommand e = none ∧ secondaryCommand e = none := by
  intro e he
  simp only [passLog, toEvents, fromEvents, inLog, inEvents, hs, List.nil_append, List.mem_append,
    List.mem_ite_nil_right, List.mem_cons, List.not_mem_nil, or_false] at he
  rcases he with ⟨_, rfl⟩ | rfl | rfl | ⟨_, rfl⟩ <;> exact ⟨rfl, rfl⟩

theorem Move.brakesHeld_of_push {env : Env} {p p' : Pod} {t : Nat} (h : Move env p p' .coast t)
    (hs : p.handle.currState = .pushing) : BrakesHeld p'.log ↔ BrakesHeld p.log := by
  have hpass := @passLog_push env p t hs
  have hp : Trace.latest primaryCommand p'.log = Trace.latest primaryCommand p.log := by
    rw [h.log, Trace.latest_cons, Trace.latest_append,
      Trace.latest_eq_none.mpr fun e he => (hpass e he).1]
    rfl
  have hq : Trace.latest secondaryCommand p'.log = Trace.latest secondaryCommand p.log := by
    rw [h.log, Trace.latest_cons, Trace.latest_append,
      Trace.latest_eq_none.mpr fun e he => (hpass e he).2]
    rfl
  rw [BrakesHeld, hp, hq, BrakesHeld]

theorem Move.brakesHeld_of_braking {env : Env} {p p' : Pod} {t : Nat} (h : Move env p p' .fault t)
    (hs : p.handle.currState = .braking) (hto : p'.handle.currState = .fault) :
    BrakesHeld p'.log := by
  have hlate : pushedFor env p .toFault > p.cfg.dontBrakeTo := by
    by_contra hearly
    rw [h.currState, hs] at hto
    simp only [arrival, redirect, if_neg hearly] at hto
    cases hto
  rw [h.log, passLog]
  simp only [hs, toEvents, hlate, and_self, if_true]
  exact ⟨rfl, rfl⟩

theorem movingFaultLaw_iff (env : Env) (p : Pod) :
    MovingFaultLaw env p ↔ ¬ FaultsUnbraked env p := by
  have hc := Pod.stateMachineHandler_call env p
  constructor
  · rintro hlaw ⟨hs, hreq, hbad, hnot⟩
    rcases hc.outcome with hstay | ⟨target, t, hmove⟩
    · have := hstay.request _ hreq
      rw [hs] at this
      cases this
    · obtain rfl : target = .coast := Option.some.inj (hmove.request.symm.trans hreq)
      have hto : (p.stateMachineHandler env).handle.currState = .fault := by
        rw [hmove.currState, hs, arrival, redirect, if_pos ⟨by simp, by simp, hbad⟩]
        rfl
      exact hnot ((hmove.brakesHeld_of_push hs).mp (hlaw (.inl hs) hto))
  · intro hno hmoving hto
    rcases hc.outcome with hstay | ⟨target, t, hmove⟩
    · rw [hstay.currState] at hto
      rcases hmoving with h | h | h <;> rw [h] at hto <;> cases hto
    · have harr := arrival_cases env p p.handle.currState target
      rw [← hmove.currState, hto] at harr
      rcases harr with rfl | hd
      · rcases hmoving with hs | hs | hs
        · rw [hmove.currState, hs] at hto
          cases hto
        · rw [hmove.currState, hs] at hto
          cases hto
        · exact hmove.brakesHeld_of_braking hs hto
      · generalize hcurr : p.handle.currState = curr at hd
        cases hd with
        | lowPressure hb hf hbad =>
          rw [hcurr] at hmoving
          rcases hmoving with rfl | rfl | rfl
          · rw [hmove.brakesHeld_of_push hcurr]
            by_contra hnot
            exact hno ⟨hcurr, hmove.request, hbad, hnot⟩
          · exact absurd hcurr.symm hmove.ne
          · exact absurd rfl hb

/-- In every run, a moving pod enters `FAULT` with its brakes on in all calls if and only if no push
ends with a bad pressure while the brakes are off. -/
theorem movingFaultLaw_run_iff (p : Pod) (is : List Input) :
    EveryCall MovingFaultLaw p is ↔ EveryCall (fun env p => ¬ FaultsUnbraked env p) p is :=
  everyCall_congr movingFaultLaw_iff p is

/-- Checked at 100 ms, which leaves the brakes off, and pushed from the console at 101 ms, with the
switches open from the start. At 1250 ms `in_pushing` asks for `COAST`, and `to_coast` finds the
pressures at zero. -/
def pushWithoutPressure : List Input :=
  [.app (bench 100), .state 'p', .app (bench 101), .app (bench 1250)]

theorem movingFaultLaw_fails :
    Booted boot ∧ ¬ EveryCall MovingFaultLaw boot pushWithoutPressure :=
  ⟨booted_boot, by decide +kernel⟩

end PodFirmware
