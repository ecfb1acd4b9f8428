import Mathlib.Algebra.Ring.Nat
import Mathlib.Tactic.Common

/-!
# PodFirmware.Lib.Tick

A free-running 32-bit counter. The true count is a natural number `t`; a program reads
`UInt32.ofNat t`, so differences of readings are differences of true counts modulo `2 ^ 32`.
-/

namespace Tick

abbrev reading (t : Nat) : UInt32 := UInt32.ofNat t

theorem toNat_reading (t : Nat) : (reading t).toNat = t % 2 ^ 32 := by simp [reading]

theorem toNat_elapsed {e t : Nat} (h : e ≤ t) :
    (reading t - reading e).toNat = (t - e) % 2 ^ 32 := by
  rw [UInt32.toNat_sub, toNat_reading, toNat_reading]
  omega

/-- Wrap-around can only make a measured interval too short. -/
theorem elapsed_le {e t : Nat} (h : e ≤ t) : (reading t - reading e).toNat ≤ t - e := by
  rw [toNat_elapsed h]
  exact Nat.mod_le _ _

theorem lt_of_lt_elapsed {e t : Nat} {d : UInt32} (h : e ≤ t) (hd : d < reading t - reading e) :
    e + d.toNat < t := by
  have h1 := elapsed_le h
  have h2 := UInt32.lt_iff_toNat_lt.mp hd
  omega

theorem le_of_not_elapsed_lt {e t : Nat} {d : UInt32} (h : e ≤ t)
    (hd : ¬ reading t - reading e < d) : e + d.toNat ≤ t := by
  have h1 := elapsed_le h
  have h2 := UInt32.le_iff_toNat_le.mp (UInt32.not_lt.mp hd)
  omega

end Tick
