import Mathlib.Algebra.Order.BigOperators.Group.List
import Mathlib.Data.List.Induction
import PodFirmware.Lib.CInt
import PodFirmware.Lib.Machine
import PodFirmware.Lib.Window

/-!
# PodFirmware.Analog

`analogRead` of `stm32_adc.c`: a conversion, and the mean of the last hundred on the same channel of
the same converter. `filter`, `count` and `average` have one row for `ADC3` and one for the others.

* `analogRead`: the statics, and what the call returns.
* `Tracked`: the statics hold the window of every channel.
* `movingAverage`: what a call returns after any calls on `ADC1` and `ADC3`.
-/

namespace PodFirmware

inductive Adc where
  | adc1 | adc2 | adc3
  deriving DecidableEq, Repr

/-- `filter`, `count` and `average` at one row and channel. `AVERAGE_SIZE` is 100. -/
structure AnalogMean where
  filter : Nat → Int32 := fun _ => 0
  count : UInt32 := 0
  average : Int32 := 0

abbrev AnalogStatics := Fin 2 → Fin 16 → AnalogMean

/-- One call. The converter leaves the result of the conversion in `DR`. -/
structure AnalogCall where
  adc : Adc
  channel : Fin 16
  dr : UInt16
  deriving DecidableEq, Repr

def AnalogMean.sample (retval : UInt16) (m : AnalogMean) : AnalogMean :=
  let slot := (m.count % 100).toNat
  { filter := Function.update m.filter slot (CInt.ofU16 retval)
    count := m.count + 1
    average := m.average - m.filter slot + CInt.ofU16 retval }

def Adc.row (adc : Adc) : Fin 2 := if adc = .adc3 then 0 else 1

def analogRead (c : AnalogCall) (s : AnalogStatics) : UInt16 × AnalogStatics :=
  let m := (s c.adc.row c.channel).sample c.dr
  (CInt.toU16 (m.average / 100),
    Function.update s c.adc.row (Function.update (s c.adc.row) c.channel m))

namespace Analog

def step (s : AnalogStatics) (c : AnalogCall) : AnalogStatics := (analogRead c s).2

def zeroed : AnalogStatics := fun _ _ => {}

/-- The results of the conversions on a channel, the last one first. -/
def raws (adc : Adc) (channel : Fin 16) (calls : List AnalogCall) : List UInt16 :=
  ((calls.filter fun c => c.adc = adc ∧ c.channel = channel).map AnalogCall.dr).reverse

/-! ## One cell -/

def window (m : AnalogMean) : Window Int where
  slots := fun i => (m.filter i).toInt
  count := m.count.toNat
  sum := m.average.toInt

def ints (h : List UInt16) : List Int := h.map fun x => (x.toNat : Int)

section Cell

variable {m : AnalogMean} {h : List UInt16}

theorem ints_bounds {x : Int} (hx : x ∈ ints h) : 0 ≤ x ∧ x ≤ 65535 := by
  obtain ⟨y, -, rfl⟩ := List.mem_map.mp hx
  have := y.toNat_lt
  omega

theorem getD_ints_bounds (j : Nat) : 0 ≤ (ints h).getD j 0 ∧ (ints h).getD j 0 ≤ 65535 := by
  by_cases hj : j < (ints h).length
  · rw [List.getD_eq_getElem _ _ hj]
    exact ints_bounds (List.getElem_mem hj)
  · rw [List.getD_eq_default _ _ (by omega)]
    omega

theorem sum_take_bounds (n : Nat) :
    0 ≤ ((ints h).take n).sum ∧ ((ints h).take n).sum ≤ 65535 * n := by
  induction n with
  | zero => simp
  | succ n ih =>
    have := @getD_ints_bounds h n
    rw [Window.sum_take_succ]
    omega

/-- While the counter does not wrap, a sample is a sample of the window. -/
theorem window_sample (ht : (window m).Tracks 100 (ints h)) (hlen : h.length + 1 < 2 ^ 32)
    (dr : UInt16) : window (m.sample dr) = (window m).push 100 (dr.toNat : Int) := by
  have hcount : m.count.toNat = h.length := by simpa [window, ints] using ht.count
  have hslot : (m.count % 100).toNat = (window m).count % 100 := by
    rw [UInt32.toNat_mod]
    rfl
  have hold : (m.filter (m.count % 100).toNat).toInt = (ints h).getD 99 0 := by
    rw [hslot]
    exact ht.oldest
  have hsum : m.average.toInt = ((ints h).take 100).sum := ht.sum
  have hdr := CInt.toInt_ofU16 dr
  have hdrb := dr.toNat_lt
  have hb := @getD_ints_bounds h 99
  have hs := @sum_take_bounds h 100
  have hsub : (m.average - m.filter (m.count % 100).toNat).toInt =
      m.average.toInt - (m.filter (m.count % 100).toNat).toInt := by
    rw [Int32.toInt_sub]
    exact Int.bmod_eq_of_le (by omega) (by omega)
  rw [Window.push, ← hslot]
  unfold window AnalogMean.sample
  congr 1
  · funext i
    simp only [Function.update_apply]
    split
    · exact hdr
    · rfl
  · rw [UInt32.toNat_add, hcount]
    exact Nat.mod_eq_of_lt hlen
  · rw [CInt.toInt_add_of_bounds (by omega) (by omega), hsub, hdr]

theorem sum_ints (h : List UInt16) : (ints h).sum = ((h.map UInt16.toNat).sum : Int) := by
  induction h with
  | nil => rfl
  | cons x h ih =>
    rw [ints, List.map_cons, List.sum_cons, ← ints, ih, List.map_cons, List.sum_cons]
    omega

/-- What a call returns is the mean of the window after it. -/
theorem toNat_mean (ht : (window m).Tracks 100 (ints h)) :
    (CInt.toU16 (m.average / 100)).toNat = ((h.take 100).map UInt16.toNat).sum / 100 := by
  have hs := @sum_take_bounds h 100
  have hsum : m.average.toInt = ((ints h).take 100).sum := ht.sum
  have hnat : ((ints h).take 100).sum = (((h.take 100).map UInt16.toNat).sum : Int) := by
    rw [← sum_ints, ints, ints, List.map_take]
  have h100 : (100 : Int32).toInt = 100 := rfl
  have hdiv : (m.average / 100).toInt = m.average.toInt / 100 :=
    CInt.toInt_div_of_nonneg (by omega) (by omega)
  rw [CInt.toNat_toU16 (by omega), hdiv]
  omega

end Cell

/-! ## Runs -/

variable {calls : List AnalogCall} {adc : Adc} {channel : Fin 16}

theorem raws_concat (calls : List AnalogCall) (c : AnalogCall) (adc : Adc) (channel : Fin 16) :
    raws adc channel (calls ++ [c]) =
      if c.adc = adc ∧ c.channel = channel then c.dr :: raws adc channel calls
      else raws adc channel calls := by
  rw [raws, List.filter_append, List.map_append, List.reverse_append, List.filter_singleton]
  by_cases h : c.adc = adc ∧ c.channel = channel
  · rw [if_pos h, decide_eq_true h]
    rfl
  · rw [if_neg h, decide_eq_false h]
    rfl

theorem length_raws_le (adc : Adc) (channel : Fin 16) (calls : List AnalogCall) :
    (raws adc channel calls).length ≤ calls.length := by
  rw [raws, List.length_reverse, List.length_map]
  exact List.length_filter_le _ _

theorem row_inj {a b : Adc} (ha : a ≠ .adc2) (hb : b ≠ .adc2) : a.row = b.row ↔ a = b := by
  cases a <;> cases b <;> simp_all [Adc.row]

/-- The statics hold the window of every channel of `ADC1` and `ADC3`. -/
def Tracked (s : AnalogStatics) (calls : List AnalogCall) : Prop :=
  ∀ adc channel, adc ≠ .adc2 →
    (window (s adc.row channel)).Tracks 100 (ints (raws adc channel calls))

theorem step_self (s : AnalogStatics) (c : AnalogCall) :
    step s c c.adc.row c.channel = (s c.adc.row c.channel).sample c.dr := by
  simp [step, analogRead]

theorem step_of_ne (s : AnalogStatics) {c : AnalogCall} {row : Fin 2} {channel : Fin 16}
    (h : ¬(row = c.adc.row ∧ channel = c.channel)) : step s c row channel = s row channel := by
  by_cases hrow : row = c.adc.row
  · subst hrow
    simp [step, analogRead, Function.update_of_ne fun hch => h ⟨rfl, hch⟩]
  · simp [step, analogRead, Function.update_of_ne hrow]

theorem tracked_step {s : AnalogStatics} {c : AnalogCall} (ht : Tracked s calls)
    (hc : c.adc ≠ .adc2) (hlen : calls.length + 1 < 2 ^ 32) :
    Tracked (step s c) (calls ++ [c]) := by
  intro adc channel hadc
  rw [raws_concat]
  by_cases hcell : c.adc = adc ∧ c.channel = channel
  · obtain ⟨rfl, rfl⟩ := hcell
    have hle := length_raws_le c.adc c.channel calls
    rw [if_pos ⟨rfl, rfl⟩, step_self, window_sample (ht c.adc c.channel hc) (by omega)]
    exact Window.tracks_push (by omega) (ht c.adc c.channel hc) _
  · have hne : ¬(adc.row = c.adc.row ∧ channel = c.channel) := by
      rintro ⟨hrow, hch⟩
      exact hcell ⟨((row_inj hadc hc).mp hrow).symm, hch.symm⟩
    rw [if_neg hcell, step_of_ne s hne]
    exact ht adc channel hadc

theorem tracked_run (hadc : ∀ c ∈ calls, c.adc ≠ .adc2) (hlen : calls.length < 2 ^ 32) :
    Tracked (Machine.run step zeroed calls) calls := by
  induction calls using List.reverseRecOn with
  | nil =>
    intro adc channel _
    exact Window.tracks_zero 100
  | append_singleton calls c ih =>
    rw [List.length_append, List.length_singleton] at hlen
    rw [Machine.run_concat]
    exact tracked_step (ih (fun d hd => hadc d (by simp [hd])) (by omega)) (hadc c (by simp)) hlen

theorem sum_take_le (h : List Nat) (n : Nat) : (h.take n).sum ≤ n * (h.take n).foldr max 0 := by
  have hle : ∀ x ∈ h.take n, x ≤ (h.take n).foldr max 0 := by
    generalize h.take n = l
    induction l with
    | nil => simp
    | cons y l ih =>
      intro x hx
      rw [List.foldr_cons]
      rcases List.mem_cons.mp hx with rfl | hx
      · exact le_max_left _ _
      · exact le_trans (ih x hx) (le_max_right _ _)
  calc (h.take n).sum ≤ (h.take n).length * (h.take n).foldr max 0 := by
        simpa using List.sum_le_card_nsmul _ _ hle
    _ ≤ n * (h.take n).foldr max 0 := Nat.mul_le_mul_right _ (List.length_take_le n h)

/-- After any calls on `ADC1` and `ADC3`, a call returns the mean of the last hundred results of its
own channel, rounded down, which is at most their maximum. -/
theorem movingAverage (calls : List AnalogCall) (c : AnalogCall)
    (hadc : ∀ d ∈ calls ++ [c], d.adc ≠ .adc2) (hlen : (calls ++ [c]).length < 2 ^ 32) :
    let last := ((raws c.adc c.channel (calls ++ [c])).take 100).map UInt16.toNat
    let result := (analogRead c (Machine.run step zeroed calls)).1.toNat
    result = last.sum / 100 ∧ result ≤ last.foldr max 0 := by
  intro last result
  have hrun := tracked_run hadc hlen c.adc c.channel (hadc c (by simp))
  rw [Machine.run_concat, step_self] at hrun
  have hresult : result = last.sum / 100 := toNat_mean hrun
  refine ⟨hresult, ?_⟩
  have hsum : last.sum ≤ 100 * last.foldr max 0 := by
    have := sum_take_le ((raws c.adc c.channel (calls ++ [c])).map UInt16.toNat) 100
    rwa [← List.map_take] at this
  omega

/-- The other converter has a row of its own. -/
theorem movingAverage_third :
    (analogRead ⟨.adc3, 3, 2000⟩
      (Machine.run step zeroed [⟨.adc1, 3, 40000⟩, ⟨.adc3, 3, 1050⟩])).1.toNat = 30 :=
  (movingAverage [⟨.adc1, 3, 40000⟩, ⟨.adc3, 3, 1050⟩] ⟨.adc3, 3, 2000⟩ (by decide) (by decide)).1

end Analog

end PodFirmware
