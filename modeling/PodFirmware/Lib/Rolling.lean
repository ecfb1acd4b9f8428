import Mathlib.Algebra.BigOperators.Group.List.Basic
import Mathlib.Algebra.Order.BigOperators.Group.List
import Mathlib.Algebra.Order.Ring.Int
import Mathlib.Data.Int.Init
import Mathlib.Data.List.GetD
import Mathlib.Tactic.Common

/-!
# PodFirmware.Lib.Rolling

The mean over a ring of slots whose sum is kept beside it. A sample replaces a slot, but moves it by
no more than a limit.

* `slew`: what is stored for a sample.
* `sum_set`: the sum is kept by taking the old slot away and adding the new one.
* `natAbs_tdiv_sub_le`: how far the mean moves, rounded towards zero as C's division does.
-/

namespace Rolling

/-- `prev` moved towards `sample`, by at most `limit`. -/
def slew (limit : Nat) (prev sample : Int) : Int :=
  if limit < (sample - prev).natAbs then
    if prev < sample then prev + limit else prev - limit
  else sample

section Slot

variable {limit : Nat} {prev sample lo hi : Int}

theorem natAbs_slew_sub_le : (slew limit prev sample - prev).natAbs ≤ limit := by
  unfold slew
  split
  · split <;> omega
  · omega

theorem slew_mem (hp : lo ≤ prev ∧ prev ≤ hi) (hs : lo ≤ sample ∧ sample ≤ hi) :
    lo ≤ slew limit prev sample ∧ slew limit prev sample ≤ hi := by
  unfold slew
  split
  · split <;> omega
  · exact hs

end Slot

section Sum

variable {l : List Int}

theorem sum_set {i : Nat} (h : i < l.length) (x : Int) :
    (l.set i x).sum = l.sum - l.getD i 0 + x := by
  rw [List.sum_set', dif_pos h, List.getD_eq_getElem l 0 h]
  omega

theorem sum_bounds {lo hi : Int} (h : ∀ x ∈ l, lo ≤ x ∧ x ≤ hi) :
    l.length * lo ≤ l.sum ∧ l.sum ≤ l.length * hi := by
  constructor
  · simpa using List.card_nsmul_le_sum l lo fun x hx => (h x hx).1
  · simpa using List.sum_le_card_nsmul l hi fun x hx => (h x hx).2

end Sum

section Mean

variable {a b n k : Int}

theorem add_mul_tdiv_le (hn : 0 < n) (hk : 0 ≤ k) : (b + n * k).tdiv n ≤ b.tdiv n + k := by
  have hmul : 0 ≤ n * k := Int.mul_nonneg (Int.le_of_lt hn) hk
  have hquot : (b + n * k) / n = b / n + k := Int.add_mul_ediv_left b k (by omega)
  have hdvd : n ∣ b + n * k ↔ n ∣ b := Int.dvd_add_left (Int.dvd_mul_right n k)
  simp only [Int.tdiv_eq_ediv, hquot, hdvd, Int.sign_eq_one_of_pos hn]
  by_cases hb : 0 ≤ b ∨ n ∣ b
  · have hb' : 0 ≤ b + n * k ∨ n ∣ b := hb.imp_left (by omega)
    simp [hb, hb']
  · rw [if_neg hb]
    split <;> omega

theorem tdiv_le_add (hn : 0 < n) (hk : 0 ≤ k) (h : a ≤ b + n * k) :
    a.tdiv n ≤ b.tdiv n + k :=
  Int.le_trans (Int.tdiv_le_tdiv hn h) (add_mul_tdiv_le hn hk)

/-- A sum that moves by at most `limit` moves the mean by at most the quotient, rounded up. -/
theorem natAbs_tdiv_sub_le {n limit : Nat} (hn : 0 < n) (h : (a - b).natAbs ≤ limit) :
    (a.tdiv n - b.tdiv n).natAbs ≤ (limit + n - 1) / n := by
  have hceil : limit ≤ n * ((limit + n - 1) / n) := by
    have := Nat.div_add_mod (limit + n - 1) n
    have := Nat.mod_lt (limit + n - 1) hn
    omega
  generalize (limit + n - 1) / n = k at hceil ⊢
  have hceil' : (limit : Int) ≤ n * (k : Int) := by exact_mod_cast hceil
  have hn' : (0 : Int) < n := by omega
  have hup : a.tdiv n ≤ b.tdiv n + k := tdiv_le_add hn' (by omega) (by omega)
  have hdown : b.tdiv n ≤ a.tdiv n + k := tdiv_le_add hn' (by omega) (by omega)
  omega

end Mean

end Rolling
