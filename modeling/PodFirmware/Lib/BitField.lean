import Mathlib.Algebra.Ring.Nat
import Mathlib.Tactic.Common

/-!
# PodFirmware.Lib.BitField

Fields of `n` bits packed into a word. The field at offset `off` is cleared and set by masks that
are shifted up to it, and read by shifting it down.

* `get`, `join`, `clear`, `put`: read a field, or bits into it, zero it, replace it. `assign` writes
  a field of one bit.
* `get_put_self`: what is put into a field is read from it.
* `get_put_of_apart`: fields that do not overlap do not see it.
-/

namespace BitField

variable {w : Nat}

/-- `n` ones at the bottom of a word. -/
def mask (w n : Nat) : BitVec w := (BitVec.allOnes n).setWidth w

def get (n off : Nat) (r : BitVec w) : BitVec w := r >>> off &&& mask w n

def join (off : Nat) (v r : BitVec w) : BitVec w := r ||| v <<< off

def clear (n off : Nat) (r : BitVec w) : BitVec w := r &&& ~~~(mask w n <<< off)

def put (n off : Nat) (v r : BitVec w) : BitVec w := join off v (clear n off r)

/-- A field of one bit, set or cleared. -/
def assign (off : Nat) (b : Bool) (r : BitVec w) : BitVec w :=
  if b then join off (mask w 1) r else clear 1 off r

/-- The value has no bits above the field. -/
def Fits (n : Nat) (v : BitVec w) : Prop := ∀ i, n ≤ i → v.getLsbD i = false

/-- The fields have no bit in common. -/
def Apart (n off m off' : Nat) : Prop := off + n ≤ off' ∨ off' + m ≤ off

theorem fits_of_lt {n : Nat} {v : BitVec w} (h : v.toNat < 2 ^ n) : Fits n v := by
  intro i hi
  exact Nat.testBit_lt_two_pow (Nat.lt_of_lt_of_le h (Nat.pow_le_pow_right (by omega) hi))

/-! ## Bits -/

section Bits

variable (n m off i : Nat) (v r : BitVec w)

theorem getLsbD_mask : (mask w n).getLsbD i = (decide (i < w) && decide (i < n)) := by
  rw [mask, BitVec.getLsbD_setWidth, BitVec.getLsbD_allOnes]

theorem getLsbD_get : (get n off r).getLsbD i = (decide (i < n) && r.getLsbD (off + i)) := by
  simp only [get, BitVec.getLsbD_and, BitVec.getLsbD_ushiftRight, getLsbD_mask]
  by_cases hi : i < w
  · simp [hi, Bool.and_comm]
  · simp [BitVec.getLsbD_of_ge r (off + i) (by omega)]

theorem getLsbD_join :
    (join off v r).getLsbD i =
      (r.getLsbD i || (decide (i < w) && !decide (i < off) && v.getLsbD (i - off))) := by
  simp only [join, BitVec.getLsbD_or, BitVec.getLsbD_shiftLeft]

theorem getLsbD_clear :
    (clear n off r).getLsbD i = (r.getLsbD i && !(decide (off ≤ i) && decide (i < off + n))) := by
  simp only [clear, BitVec.getLsbD_and, BitVec.getLsbD_not, BitVec.getLsbD_shiftLeft, getLsbD_mask]
  by_cases hi : i < w
  · by_cases hoff : off ≤ i
    · have hlt : i - off < w := by omega
      have hsub : i - off < n ↔ i < off + n := by omega
      simp [hi, hoff, hlt, hsub, Nat.not_lt.mpr hoff]
    · simp [hi, hoff, Nat.lt_of_not_le hoff]
  · simp [BitVec.getLsbD_of_ge r i (by omega)]

end Bits

/-! ## Fields -/

section Fields

variable {n m off off' : Nat} {v r : BitVec w}

theorem get_join_self (hoff : off + n ≤ w) (hv : Fits n v) :
    get n off (join off v r) = get n off r ||| v := by
  apply BitVec.eq_of_getLsbD_eq
  intro i _
  simp only [getLsbD_get, getLsbD_join, BitVec.getLsbD_or]
  by_cases hi : i < n
  · have hlt : off + i < w := by omega
    have hoff' : ¬off + i < off := by omega
    simp [hi, hlt, hoff']
  · simp [hi, hv i (by omega)]

theorem get_join_of_apart (hv : Fits n v) (h : Apart n off m off') :
    get m off' (join off v r) = get m off' r := by
  apply BitVec.eq_of_getLsbD_eq
  intro i _
  simp only [getLsbD_get, getLsbD_join]
  by_cases hi : i < m
  · by_cases hlow : off' + i < off
    · simp [hlow]
    · have hhigh : n ≤ off' + i - off := by
        unfold Apart at h
        omega
      simp [hv _ hhigh]
  · simp [hi]

theorem get_clear_self : get n off (clear n off r) = 0 := by
  apply BitVec.eq_of_getLsbD_eq
  intro i _
  simp only [getLsbD_get, getLsbD_clear]
  by_cases hi : i < n <;> simp [hi]

theorem get_clear_of_apart (h : Apart n off m off') :
    get m off' (clear n off r) = get m off' r := by
  apply BitVec.eq_of_getLsbD_eq
  intro i _
  simp only [getLsbD_get, getLsbD_clear]
  by_cases hi : i < m
  · have hout : ¬(off ≤ off' + i ∧ off' + i < off + n) := by
      unfold Apart at h
      omega
    have hkeep : (decide (off ≤ off' + i) && decide (off' + i < off + n)) = false := by
      simpa using hout
    rw [hkeep, Bool.not_false, Bool.and_true]
  · simp [hi]

theorem getLsbD_join_of_outside {i : Nat} (hv : Fits n v) (h : i < off ∨ off + n ≤ i) :
    (join off v r).getLsbD i = r.getLsbD i := by
  rw [getLsbD_join]
  by_cases hlow : i < off
  · simp [hlow]
  · simp [hv (i - off) (by omega)]

theorem getLsbD_put_of_outside {i : Nat} (hv : Fits n v) (h : i < off ∨ off + n ≤ i) :
    (put n off v r).getLsbD i = r.getLsbD i := by
  have hout : ¬(off ≤ i ∧ i < off + n) := by omega
  rw [put, getLsbD_join_of_outside hv h, getLsbD_clear, ← Bool.decide_and, decide_eq_false hout,
    Bool.not_false, Bool.and_true]

theorem fits_mask : Fits n (mask w n) := by
  intro i hi
  rw [getLsbD_mask, decide_eq_false (Nat.not_lt.mpr hi), Bool.and_false]

theorem getLsbD_assign (hoff : off < w) (b : Bool) (r : BitVec w) (i : Nat) :
    (assign off b r).getLsbD i = if i = off then b else r.getLsbD i := by
  by_cases hi : i = off
  · subst hi
    cases b
    · simp [assign, getLsbD_clear]
    · simp [assign, getLsbD_join, getLsbD_mask, hoff, Nat.lt_of_le_of_lt (Nat.zero_le i) hoff]
  · have hout : i < off ∨ off + 1 ≤ i := by omega
    rw [if_neg hi]
    cases b
    · have hbit : ¬(off ≤ i ∧ i < off + 1) := by omega
      rw [assign, if_neg Bool.false_ne_true, getLsbD_clear, ← Bool.decide_and,
        decide_eq_false hbit, Bool.not_false, Bool.and_true]
    · exact getLsbD_join_of_outside fits_mask hout

theorem get_put_self (hoff : off + n ≤ w) (hv : Fits n v) : get n off (put n off v r) = v := by
  rw [put, get_join_self hoff hv, get_clear_self]
  exact BitVec.zero_or

theorem get_put_of_apart (hv : Fits n v) (h : Apart n off m off') :
    get m off' (put n off v r) = get m off' r := by
  rw [put, get_join_of_apart hv h, get_clear_of_apart h]

end Fields

end BitField
