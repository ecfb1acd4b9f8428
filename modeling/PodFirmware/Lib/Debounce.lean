import Mathlib.Tactic.Common
import PodFirmware.Lib.Tick

/-!
# PodFirmware.Lib.Debounce

A switch is sampled at irregular times. Of the past a `Tracker` keeps the last level and a reading
of the counter at the last change. `Tracks` says what that tells about the samples: as long as the
level is high, it has been high since the sample at the last change.

* `Tracks.sample`: one more sample.
* `Tracks.settled`: a level that is high and has not changed for more than `d` ticks was high in
  every sample of the last `d` ticks.
-/

namespace Debounce

structure Sample where
  time : Nat
  level : Bool
  deriving DecidableEq, Repr

@[ext] structure Tracker where
  level : Bool
  changed : UInt32
  deriving DecidableEq, Repr

def Tracker.sample (k : Tracker) (s : Sample) : Tracker where
  level := s.level
  changed := if s.level = k.level then k.changed else Tick.reading s.time

/-- The samples `h` up to now, latest first, and what the tracker knows of them. -/
structure Tracks (k : Tracker) (h : List Sample) : Prop where
  ordered : h.Pairwise fun later earlier => earlier.time ≤ later.time
  rise : k.level = true → ∃ later first earlier, h = later ++ first :: earlier ∧
    (∀ s ∈ later, s.level = true) ∧ first.level = true ∧ k.changed = Tick.reading first.time

/-- At the time `t` the level is settled: more than `d` ticks ago it was sampled high, it was so in
every sample since, and these are all samples of the last `d` ticks. -/
structure Settled (d t : Nat) (h : List Sample) : Prop where
  window : ∀ s ∈ h, t ≤ s.time + d → s.level = true
  sampled : ∃ later first earlier, h = later ++ first :: earlier ∧
    (∀ s ∈ later, s.level = true) ∧ first.level = true ∧ first.time + d < t

variable {k : Tracker} {s : Sample} {h : List Sample}

theorem tracks_nil (hk : k.level = false) : Tracks k [] := by
  refine ⟨.nil, fun hl => ?_⟩
  rw [hk] at hl
  cases hl

theorem Tracks.sample (ht : Tracks k h) (hs : ∀ x ∈ h, x.time ≤ s.time) :
    Tracks (k.sample s) (s :: h) := by
  refine ⟨List.pairwise_cons.mpr ⟨hs, ht.ordered⟩, ?_⟩
  intro hl
  have hlevel : s.level = true := hl
  by_cases hk : k.level = true
  · obtain ⟨later, first, earlier, hh, hlater, hfirst, hchanged⟩ := ht.rise hk
    refine ⟨s :: later, first, earlier, ?_, ?_, hfirst, ?_⟩
    · rw [hh, List.cons_append]
    · exact List.forall_mem_cons.mpr ⟨hlevel, hlater⟩
    · rw [Tracker.sample, hlevel, hk, if_pos rfl, hchanged]
  · refine ⟨[], s, h, rfl, by simp, hlevel, ?_⟩
    rw [Tracker.sample, if_neg]
    rw [hlevel]
    exact Ne.symm hk

/-- The reading at the last change does not lie in the future. -/
theorem Tracks.changed_le (ht : Tracks k h) (hk : k.level = true) {t : Nat} (hlt : t < 2 ^ 32)
    (hpast : ∀ x ∈ h, x.time ≤ t) : k.changed ≤ Tick.reading t := by
  obtain ⟨later, first, earlier, hh, -, -, hchanged⟩ := ht.rise hk
  have hfirst := hpast first (by rw [hh]; simp)
  rw [hchanged, UInt32.le_iff_toNat_le, Tick.toNat_reading, Tick.toNat_reading,
    Nat.mod_eq_of_lt hlt, Nat.mod_eq_of_lt (Nat.lt_of_le_of_lt hfirst hlt)]
  exact hfirst

theorem Tracks.settled (ht : Tracks k h) (hk : k.level = true) {t : Nat} {d : UInt32}
    (hpast : ∀ x ∈ h, x.time ≤ t) (hd : d < Tick.reading t - k.changed) :
    Settled d.toNat t h := by
  obtain ⟨later, first, earlier, hh, hlater, hfirst, hchanged⟩ := ht.rise hk
  have hlong : first.time + d.toNat < t := by
    rw [hchanged] at hd
    exact Tick.lt_of_lt_elapsed (hpast first (by rw [hh]; simp)) hd
  refine ⟨?_, later, first, earlier, hh, hlater, hfirst, hlong⟩
  intro s hs hwindow
  have hord := ht.ordered
  rw [hh] at hs hord
  rcases List.mem_append.mp hs with hs | hs
  · exact hlater s hs
  · rcases List.mem_cons.mp hs with rfl | hs
    · exact hfirst
    · -- a sample before `first` is older than the window
      have hold := (List.pairwise_cons.mp (List.pairwise_append.mp hord).2.1).1 s hs
      omega

end Debounce
