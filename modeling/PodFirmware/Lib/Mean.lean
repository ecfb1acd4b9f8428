import Mathlib.Algebra.Order.Ring.Int
import Mathlib.Data.Int.Init
import Mathlib.Tactic.Common

/-!
# PodFirmware.Lib.Mean

The mean of signed numbers of 16 bits, computed from the unsigned ones of the same bit patterns.
Each negative number then counts `2 ^ 16` too much, and the quotient is rounded down instead of
towards zero.

* `wrapped_mean_iff`: of `n` numbers with the sum `s`, `k` of them negative, the unsigned mean is
  the signed one modulo `2 ^ 16` exactly when none is negative, or all are and `n` divides `s`.
-/

namespace Mean

variable {n k s : Int}

/-- With no negative number among them, or with all of them negative, the two quotients differ by a
multiple of `2 ^ 16` if at all. -/
theorem wrapped_mean_of_all (hn : 0 < n) (hs : s < 0) :
    ((s + 65536 * n) / n) % 65536 = s.tdiv n % 65536 ↔ n ∣ s := by
  have hshift : (s + 65536 * n) / n = s / n + 65536 := Int.add_mul_ediv_right s 65536 (by omega)
  have hround := Int.tdiv_eq_ediv (a := s) (b := n)
  rw [Int.sign_eq_one_of_pos hn] at hround
  by_cases hd : n ∣ s
  · rw [if_pos (.inr hd)] at hround
    simp only [hd, iff_true]
    omega
  · rw [if_neg (by omega)] at hround
    simp only [hd, iff_false]
    omega

/-- Some numbers are negative and some are not: the unsigned mean is out by less than `2 ^ 16`. -/
theorem wrapped_mean_of_some (hn : n ≤ 32768) (hk : 0 < k) (hkn : k < n) :
    ((s + 65536 * k) / n) % 65536 ≠ s.tdiv n % 65536 := by
  have hpos : 0 < n := by omega
  have hround := Int.tdiv_eq_ediv (a := s) (b := n)
  rw [Int.sign_eq_one_of_pos hpos] at hround
  have habove : s / n + 2 ≤ (s + 65536 * k) / n := by
    have h := Int.ediv_le_ediv hpos (show s + 2 * n ≤ s + 65536 * k by omega)
    rwa [Int.add_mul_ediv_right s 2 (by omega)] at h
  have hbelow : (s + 65536 * k) / n ≤ s / n + 65535 := by
    have h := Int.ediv_le_ediv hpos (show s + 65536 * k ≤ s + 65535 * n by omega)
    rwa [Int.add_mul_ediv_right s 65535 (by omega)] at h
  by_cases hexact : 0 ≤ s ∨ n ∣ s
  · rw [if_pos hexact] at hround
    omega
  · rw [if_neg hexact] at hround
    omega

theorem wrapped_mean_iff (hn : 0 < n) (hn' : n ≤ 32768) (hk : 0 ≤ k) (hkn : k ≤ n)
    (hnone : k = 0 → 0 ≤ s) (hall : k = n → s < 0) :
    ((s + 65536 * k) / n) % 65536 = s.tdiv n % 65536 ↔ k = 0 ∨ (k = n ∧ n ∣ s) := by
  by_cases hk0 : k = 0
  · subst hk0
    have hround := Int.tdiv_eq_ediv (a := s) (b := n)
    rw [if_pos (.inl (hnone rfl))] at hround
    simp [hround]
  · by_cases hkn' : k = n
    · subst hkn'
      simp [wrapped_mean_of_all hn (hall rfl), hk0]
    · have hne := @wrapped_mean_of_some n k s hn' (by omega) (by omega)
      simp [hne, hk0, hkn']

end Mean
