import PodFirmware.Application
import PodFirmware.Lib.Machine

/-!
# PodFirmware.Interval

`check_interval` over its own calls, with anything else happening in between that leaves the time
stamps of the states alone. It reads `ticks` up to three times: for the modulus, for the comparison
with the time stamp, and for the new time stamp.

* `Gate`: a ghost list of what has been let through: the state and the multiple of its interval that
  the modulus found.
* `Steady`: if the modulus finds the multiple of the last time again, so does the comparison.
* `letThrough_nodup_iff`: nothing is let through twice, exactly when every call is steady.
-/

namespace PodFirmware

structure Gate where
  pod : Pod
  letThrough : List (StateName × Nat) := []

namespace Gate

inductive Input where
  | check (state : StateName) (env : Env)
  | other (q : Pod)

def step (g : Gate) : Input → Gate
  | .check state env =>
    let (hit, p) := Pod.checkInterval env state g.pod
    { pod := p
      letThrough :=
        if hit then (state, env.clock.read .checkMod) :: g.letThrough else g.letThrough }
  | .other q =>
    { g with pod := q.setHandle { q.handle with timestamps := g.pod.handle.timestamps } }

/-- `ticks` never runs backwards, and does not wrap around. -/
def InOrder (g : Gate) : Input → Prop
  | .check _ env => g.pod.now ≤ env.clock.read .checkMod ∧ env.clock.read .checkSet < 2 ^ 32
  | .other q => g.pod.now ≤ q.now

/-- The multiple at which the state was let through the last time. -/
def last (g : Gate) (state : StateName) : Option Nat :=
  (g.letThrough.find? fun e => e.1 = state).map (·.2)

def Steady (g : Gate) : Input → Prop
  | .check state env => g.last state = some (env.clock.read .checkMod) →
    env.clock.read .checkCmp = env.clock.read .checkMod
  | .other _ => True

/-! ## One call -/

section Call

variable {g : Gate} {state : StateName} {env : Env}

/-- The call returns 1. -/
def Hits (g : Gate) (state : StateName) (env : Env) : Prop :=
  env.ticks .checkMod % Pod.stateIntervals state = 0 ∧
    env.ticks .checkCmp ≠ g.pod.handle.timestamps state

theorem mod_le_cmp (env : Env) : env.clock.read .checkMod ≤ env.clock.read .checkCmp :=
  env.clock.mono _ _ (by decide)

theorem cmp_le_set (env : Env) : env.clock.read .checkCmp ≤ env.clock.read .checkSet :=
  env.clock.mono _ _ (by decide)

theorem step_hit (h : Hits g state env) : ∃ p, step g (.check state env) =
      ⟨p, (state, env.clock.read .checkMod) :: g.letThrough⟩ ∧
    p.now = env.clock.read .checkSet ∧ p.handle.timestamps =
      Function.update g.pod.handle.timestamps state (env.ticks .checkSet) := by
  have hcmp : (env.ticks .checkCmp != g.pod.handle.timestamps state) = true := bne_iff_ne.mpr h.2
  simp only [step, Pod.checkInterval, Pod.due_eq, if_pos h.1, hcmp, if_true]
  exact ⟨_, rfl, rfl, rfl⟩

theorem step_miss (h : ¬Hits g state env) : ∃ p, step g (.check state env) = ⟨p, g.letThrough⟩ ∧
    env.clock.read .checkMod ≤ p.now ∧ p.now ≤ env.clock.read .checkSet ∧
    p.handle.timestamps = g.pod.handle.timestamps := by
  have h₁ := mod_le_cmp env
  have h₂ := cmp_le_set env
  by_cases hmod : env.ticks .checkMod % Pod.stateIntervals state = 0
  · have hcmp : (env.ticks .checkCmp != g.pod.handle.timestamps state) = false := by
      rw [bne_eq_false_iff_eq]
      exact not_not.mp fun hne => h ⟨hmod, hne⟩
    simp only [step, Pod.checkInterval, Pod.due_eq, if_pos hmod, hcmp, Bool.false_eq_true, if_false]
    exact ⟨_, rfl, h₁, h₂, rfl⟩
  · simp only [step, Pod.checkInterval, Pod.due_eq, if_neg hmod, Bool.false_eq_true, if_false]
    exact ⟨_, rfl, Nat.le_refl _, Nat.le_trans h₁ h₂, rfl⟩

end Call

/-! ## Runs -/

/-- What is known of a state that was let through at the multiple `m` the last time. -/
structure Stamped (g : Gate) (state : StateName) (m : Nat) : Prop where
  multiple : Tick.reading m % Pod.stateIntervals state = 0
  latest : ∀ n, (state, n) ∈ g.letThrough → n ≤ m
  stamp : ∃ t, g.pod.handle.timestamps state = Tick.reading t ∧ m ≤ t ∧ t ≤ g.pod.now ∧ t < 2 ^ 32

def Inv (g : Gate) : Prop := ∀ state m, g.last state = some m → Stamped g state m

section Step

variable {g : Gate} {state : StateName} {env : Env}

theorem last_eq_none (h : g.last state = none) (n : Nat) : (state, n) ∉ g.letThrough := by
  rw [last, Option.map_eq_none_iff, List.find?_eq_none] at h
  intro hmem
  exact h _ hmem (decide_eq_true rfl)

theorem mem_of_last {m : Nat} (h : g.last state = some m) : (state, m) ∈ g.letThrough := by
  obtain ⟨⟨s, n⟩, hfind, rfl⟩ := Option.map_eq_some_iff.mp h
  have hs := List.find?_some hfind
  obtain rfl : s = state := of_decide_eq_true hs
  exact List.mem_of_find?_eq_some hfind

theorem last_hit {p : Pod} {m : Nat} (s : StateName) :
    last ⟨p, (state, m) :: g.letThrough⟩ s = if state = s then some m else g.last s := by
  unfold last
  by_cases hs : state = s
  · rw [List.find?_cons_of_pos (by simpa using hs), if_pos hs]
    rfl
  · rw [List.find?_cons_of_neg (by simpa using hs), if_neg hs]

theorem Stamped.carry {p : Pod} {l : List (StateName × Nat)} {s : StateName} {m : Nat}
    (h : Stamped g s m) (hl : ∀ n, (s, n) ∈ l → (s, n) ∈ g.letThrough)
    (hstamp : p.handle.timestamps s = g.pod.handle.timestamps s) (hnow : g.pod.now ≤ p.now) :
    Stamped ⟨p, l⟩ s m := by
  obtain ⟨t, ht, hmt, htnow, hlt⟩ := h.stamp
  exact ⟨h.multiple, fun n hn => h.latest n (hl n hn), t, hstamp.trans ht, hmt,
    Nat.le_trans htnow hnow, hlt⟩

/-- What was let through was let through at a multiple that has been read. -/
theorem le_now (hg : Inv g) {s : StateName} {n : Nat} (hn : (s, n) ∈ g.letThrough) :
    n ≤ g.pod.now := by
  cases hlast : g.last s with
  | none => exact absurd hn (last_eq_none hlast n)
  | some m =>
    obtain ⟨t, -, hmt, htnow, -⟩ := (hg s m hlast).stamp
    have hle := (hg s m hlast).latest n hn
    omega

theorem inv_step {g : Gate} {i : Input} (hg : Inv g) (hok : InOrder g i) : Inv (step g i) := by
  intro s m hlast
  cases i with
  | other q => exact (hg s m hlast).carry (fun _ hn => hn) rfl hok
  | check state env =>
    obtain ⟨hnow, hlt⟩ := hok
    have h₁ := mod_le_cmp env
    have h₂ := cmp_le_set env
    by_cases hhit : Hits g state env
    · obtain ⟨p, hstep, hp, hts⟩ := step_hit hhit
      rw [hstep] at hlast ⊢
      rw [last_hit] at hlast
      by_cases hs : state = s
      · subst hs
        rw [if_pos rfl, Option.some_inj] at hlast
        subst hlast
        refine ⟨hhit.1, ?_, env.clock.read .checkSet, ?_, Nat.le_trans h₁ h₂, hp.ge, hlt⟩
        · intro n hn
          rcases List.mem_cons.mp hn with heq | hn
          · rw [(Prod.mk.inj heq).2]
          · exact Nat.le_trans (le_now hg hn) hnow
        · rw [hts, Function.update_self]
          rfl
      · rw [if_neg hs] at hlast
        refine (hg s m hlast).carry ?_ ?_ (by omega)
        · intro n hn
          rcases List.mem_cons.mp hn with heq | hn
          · exact absurd (Prod.mk.inj heq).1.symm hs
          · exact hn
        · rw [hts, Function.update_of_ne (Ne.symm hs)]
    · obtain ⟨p, hstep, hp, -, hts⟩ := step_miss hhit
      rw [hstep] at hlast ⊢
      exact (hg s m hlast).carry (fun _ hn => hn) (by rw [hts]) (by omega)

/-- If the state was let through at this multiple before, the time stamp is the multiple itself. -/
theorem stamp_eq (hg : Inv g) (hok : InOrder g (.check state env))
    (hlast : g.last state = some (env.clock.read .checkMod)) :
    g.pod.handle.timestamps state = env.ticks .checkMod := by
  obtain ⟨t, ht, hmt, htnow, -⟩ := (hg state _ hlast).stamp
  have hnow := hok.1
  have heq : t = env.clock.read .checkMod := by omega
  rw [ht, heq]
  rfl

theorem notMem_of_steady (hg : Inv g) (hok : InOrder g (.check state env))
    (hhit : Hits g state env) (hsteady : Steady g (.check state env)) :
    (state, env.clock.read .checkMod) ∉ g.letThrough := by
  intro hmem
  cases hlast : g.last state with
  | none => exact last_eq_none hlast _ hmem
  | some m =>
    have hle := (hg state m hlast).latest _ hmem
    have hm := le_now hg (mem_of_last hlast)
    have hnow := hok.1
    obtain rfl : m = env.clock.read .checkMod := by omega
    have hcmp : env.ticks .checkCmp = env.ticks .checkMod := congrArg Tick.reading (hsteady hlast)
    exact hhit.2 (hcmp.trans (stamp_eq hg hok hlast).symm)

theorem steady_of_not_hits (hg : Inv g) (hok : InOrder g (.check state env))
    (hhit : ¬Hits g state env) : Steady g (.check state env) := by
  intro hlast
  have hmod : env.ticks .checkMod % Pod.stateIntervals state = 0 := (hg state _ hlast).multiple
  have hcmp : env.ticks .checkCmp = env.ticks .checkMod := by
    rw [← stamp_eq hg hok hlast]
    exact not_not.mp fun hne => hhit ⟨hmod, hne⟩
  have hnat := congrArg UInt32.toNat hcmp
  have h₁ := mod_le_cmp env
  have h₂ := cmp_le_set env
  have hlt := hok.2
  rwa [Env.ticks, Env.ticks, Tick.toNat_reading, Tick.toNat_reading, Nat.mod_eq_of_lt (by omega),
    Nat.mod_eq_of_lt (by omega)] at hnat

/-- One call lets through nothing twice, exactly if it is steady. -/
theorem nodup_step {i : Input} (hg : Inv g) (hok : InOrder g i) :
    (step g i).letThrough.Nodup ↔ Steady g i ∧ g.letThrough.Nodup := by
  cases i with
  | other q => exact ⟨fun h => ⟨trivial, h⟩, And.right⟩
  | check state env =>
    by_cases hhit : Hits g state env
    · obtain ⟨p, hstep, -, -⟩ := step_hit hhit
      rw [hstep, List.nodup_cons]
      refine and_congr_left fun _ => ⟨?_, notMem_of_steady hg hok hhit⟩
      intro hnot hlast
      exact absurd (mem_of_last hlast) hnot
    · obtain ⟨p, hstep, -⟩ := step_miss hhit
      rw [hstep]
      exact ⟨fun h => ⟨steady_of_not_hits hg hok hhit, h⟩, And.right⟩

end Step

/-- In every run, no state is let through twice at one multiple of its interval, exactly when every
call is steady. -/
theorem letThrough_nodup_iff (p : Pod) (is : List Input)
    (hok : Machine.Always step InOrder ⟨p, []⟩ is) :
    (Machine.run step ⟨p, []⟩ is).letThrough.Nodup ↔ Machine.Always step Steady ⟨p, []⟩ is := by
  have h0 : Inv ⟨p, []⟩ := by
    intro state m hlast
    exact absurd (mem_of_last hlast) List.not_mem_nil
  have hiff := @Machine.run_iff_of_ok _ _ step Inv InOrder Steady ⟨p, []⟩ is
    (fun g => g.letThrough.Nodup) (fun _ _ => inv_step) (fun _ _ => nodup_step) h0 hok
  rw [hiff]
  exact ⟨And.left, fun h => ⟨h, List.nodup_nil⟩⟩

/-- `SysTick` comes between the modulus and the comparison. -/
def interrupted (t : Nat) : Env :=
  { bench t with
    clock := ⟨fun r => if r.ctorIdx ≤ TickRead.checkMod.ctorIdx then t else t + 1, by
      intro r r' h
      split <;> split <;> omega⟩ }

def twiceAt100 : List Input := [.check .idle (bench 100), .check .idle (interrupted 100)]

theorem inOrder_twiceAt100 : Machine.Always step InOrder ⟨boot, []⟩ twiceAt100 := by
  refine ⟨⟨?_, ?_⟩, ⟨?_, ?_⟩, trivial⟩ <;> decide

/-- The second call of the tick is let through as well. -/
theorem idle_twice_at_100 : Machine.Always step InOrder ⟨boot, []⟩ twiceAt100 ∧
    ¬(Machine.run step ⟨boot, []⟩ twiceAt100).letThrough.Nodup :=
  ⟨inOrder_twiceAt100, by decide⟩

theorem letThrough_nodup_iff_100 :
    (Machine.run step ⟨boot, []⟩ twiceAt100).letThrough.Nodup ↔
      Machine.Always step Steady ⟨boot, []⟩ twiceAt100 :=
  letThrough_nodup_iff boot twiceAt100 inOrder_twiceAt100

end Gate

end PodFirmware
