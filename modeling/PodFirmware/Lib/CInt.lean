import Mathlib.Algebra.Ring.Int.Defs
import Mathlib.Algebra.Ring.Nat
import Mathlib.Tactic.Common

/-!
# PodFirmware.Lib.CInt

C's integer conversions on the 32-bit types `int` (`Int32`) and `uint32_t` (`UInt32`). When one
operand of a comparison is unsigned, the other is converted to unsigned before comparing, so a
negative value compares as one of at least `2 ^ 31`.
-/

namespace CInt

def ofU16 (x : UInt16) : Int32 := x.toUInt32.toInt32

def toU16 (x : Int32) : UInt16 := x.toUInt32.toUInt16

theorem toNat_toUInt32 (x : Int32) : (x.toUInt32.toNat : Int) = x.toInt % 2 ^ 32 := by
  have h : x.toUInt32.toNat = x.toBitVec.toNat := rfl
  have h' : x.toInt = x.toBitVec.toInt := rfl
  have := x.toBitVec.isLt
  rw [h, h', BitVec.toInt_eq_toNat_cond]
  split <;> omega

theorem toInt_bounds (x : Int32) : -2 ^ 31 ≤ x.toInt ∧ x.toInt < 2 ^ 31 :=
  ⟨x.le_toInt, x.toInt_lt⟩

theorem toInt_add_of_bounds {x y : Int32} (hl : -2 ^ 31 ≤ x.toInt + y.toInt)
    (hu : x.toInt + y.toInt < 2 ^ 31) : (x + y).toInt = x.toInt + y.toInt := by
  rw [Int32.toInt_add]
  exact Int.bmod_eq_of_le (by omega) (by omega)

theorem toInt_mul_of_bounds {x y : Int32} (hl : -2 ^ 31 ≤ x.toInt * y.toInt)
    (hu : x.toInt * y.toInt < 2 ^ 31) : (x * y).toInt = x.toInt * y.toInt := by
  rw [Int32.toInt_mul]
  exact Int.bmod_eq_of_le (by omega) (by omega)

theorem toInt_div_of_nonneg {x y : Int32} (hx : 0 ≤ x.toInt) (hy : 0 ≤ y.toInt) :
    (x / y).toInt = x.toInt / y.toInt := by
  have hb := toInt_bounds x
  have hle := Int.ediv_le_self y.toInt hx
  have hpos := Int.ediv_nonneg hx hy
  rw [Int32.toInt_div, Int.tdiv_eq_ediv_of_nonneg hx]
  exact Int.bmod_eq_of_le (by omega) (by omega)

/-- The comparison that C makes: above an unsigned bound below `2 ^ 31` lie the larger values and
all negative ones. -/
theorem lt_toUInt32_iff {c : UInt32} (hc : c.toNat < 2 ^ 31) (x : Int32) :
    c < x.toUInt32 ↔ (c.toNat : Int) < x.toInt ∨ x.toInt < 0 := by
  have h := toNat_toUInt32 x
  have hb := toInt_bounds x
  rw [UInt32.lt_iff_toNat_lt]
  omega

theorem toUInt32_eq_iff {c : UInt32} (hc : c.toNat < 2 ^ 31) (x : Int32) :
    x.toUInt32 = c ↔ x.toInt = c.toNat := by
  have h := toNat_toUInt32 x
  have hb := toInt_bounds x
  rw [← UInt32.toNat_inj]
  omega

theorem toInt_toInt32 (x : UInt32) : x.toInt32.toInt = Int.bmod x.toNat (2 ^ 32) :=
  BitVec.toInt_eq_toNat_bmod x.toBitVec

theorem toInt_toInt32_iff (x : UInt32) : x.toInt32.toInt = x.toNat ↔ x.toNat < 2 ^ 31 := by
  have h := toNat_toUInt32 x.toInt32
  have hb := toInt_bounds x.toInt32
  have hx : x.toInt32.toUInt32 = x := rfl
  rw [hx] at h
  omega

theorem toInt_ofU16 (x : UInt16) : (ofU16 x).toInt = x.toNat := by
  have hx : x.toUInt32.toNat = x.toNat := UInt16.toNat_toUInt32 x
  have hlt := x.toNat_lt
  rw [ofU16, (toInt_toInt32_iff _).mpr (by omega), hx]

theorem toNat_toU16 {x : Int32} (h : 0 ≤ x.toInt) : (toU16 x).toNat = x.toInt.toNat % 2 ^ 16 := by
  have hx := toNat_toUInt32 x
  have hb := toInt_bounds x
  have hu : (toU16 x).toNat = x.toUInt32.toNat % 2 ^ 16 := UInt32.toNat_toUInt16 _
  omega

end CInt
