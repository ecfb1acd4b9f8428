import Mathlib.Data.Nat.ModEq
import Mathlib.Tactic.Ring
import PodFirmware.Lib.Bytes

/-!
# PodFirmware.Lib.OnesComplement

Sums in ones' complement arithmetic, where the carry out of the top is added at the bottom again.
On the numbers up to `m` this is addition modulo `m`, but zero has two representations: only the
empty sum is `0`, every other sum that is divisible by `m` is `m`.

* `rep m n`: the representation of `n`.
* `rep_fold`: adding the high part to the low part does not change it.
* `sum`: the sum of the words of some bytes, and `sum_eq`: it is the representation of the number
  that the bytes are, so that it can be computed in parts (`numeral_append`).
-/

namespace OnesComplement

def rep (m n : Nat) : Nat := if n = 0 then 0 else (n - 1) % m + 1

section Rep

variable {m a b n : Nat}

@[simp] theorem rep_zero : rep m 0 = 0 := rfl

theorem rep_eq_zero_iff : rep m n = 0 ↔ n = 0 := by
  rw [rep]
  split
  · next h => exact iff_of_true rfl h
  · next h => exact iff_of_false (Nat.succ_ne_zero _) h

theorem rep_le (hm : 0 < m) : rep m n ≤ m := by
  rw [rep]
  split
  · exact Nat.zero_le m
  · exact Nat.mod_lt _ hm

theorem rep_of_le (h : n ≤ m) : rep m n = n := by
  rw [rep]
  split
  · next h0 => exact h0.symm
  · next h0 => rw [Nat.mod_eq_of_lt (by omega), Nat.sub_add_cancel (Nat.pos_of_ne_zero h0)]

theorem rep_modEq : rep m n ≡ n [MOD m] := by
  rw [rep]
  split
  · next h0 => rw [h0]
  · next h0 =>
    have hmod : (n - 1) % m + 1 ≡ n - 1 + 1 [MOD m] := (Nat.mod_modEq (n - 1) m).add_right 1
    rwa [Nat.sub_add_cancel (Nat.pos_of_ne_zero h0)] at hmod

/-- Two sums are the same if they are congruent and both empty or both not. -/
theorem rep_eq_of_modEq (h0 : a = 0 ↔ b = 0) (h : a ≡ b [MOD m]) : rep m a = rep m b := by
  by_cases ha : a = 0
  · rw [ha, h0.mp ha]
  · have hb : b ≠ 0 := fun hb => ha (h0.mpr hb)
    have hpred : a - 1 ≡ b - 1 [MOD m] := by
      apply Nat.ModEq.add_right_cancel' 1
      rwa [Nat.sub_add_cancel (Nat.pos_of_ne_zero ha), Nat.sub_add_cancel (Nat.pos_of_ne_zero hb)]
    rw [rep, rep, if_neg ha, if_neg hb, hpred]

theorem rep_eq_iff : rep m a = rep m b ↔ (a = 0 ↔ b = 0) ∧ a ≡ b [MOD m] := by
  refine ⟨fun h => ⟨?_, ?_⟩, fun h => rep_eq_of_modEq h.1 h.2⟩
  · rw [← rep_eq_zero_iff (m := m), h, rep_eq_zero_iff]
  · exact rep_modEq.symm.trans (h ▸ rep_modEq)

theorem rep_rep_add (m a b : Nat) : rep m (rep m a + b) = rep m (a + b) := by
  refine rep_eq_of_modEq ?_ (rep_modEq.add_right b)
  rw [Nat.add_eq_zero_iff, Nat.add_eq_zero_iff, rep_eq_zero_iff]

theorem rep_add_rep (m a b : Nat) : rep m (a + rep m b) = rep m (a + b) := by
  rw [Nat.add_comm, rep_rep_add, Nat.add_comm]

theorem rep_add_congr {a' b' : Nat} (ha : rep m a = rep m a') (hb : rep m b = rep m b') :
    rep m (a + b) = rep m (a' + b') := by
  rw [← rep_rep_add, ← rep_add_rep, ha, hb, rep_rep_add, rep_add_rep]

theorem rep_mul_rep (m c a : Nat) : rep m (c * rep m a) = rep m (c * a) := by
  refine rep_eq_of_modEq ?_ (rep_modEq.mul_left c)
  rw [Nat.mul_eq_zero, Nat.mul_eq_zero, rep_eq_zero_iff]

theorem rep_mul_congr {a' : Nat} (c : Nat) (ha : rep m a = rep m a') :
    rep m (c * a) = rep m (c * a') := by
  rw [← rep_mul_rep, ha, rep_mul_rep]

/-- All digits set, the other zero. -/
theorem rep_eq_top_iff (hm : 0 < m) : rep m n = m ↔ 0 < n ∧ n ≡ 0 [MOD m] := by
  have hself : rep m m = m := rep_of_le (Nat.le_refl m)
  constructor
  · intro h
    refine ⟨Nat.pos_of_ne_zero fun h0 => ?_, ?_⟩
    · rw [h0, rep_zero] at h
      omega
    · have hmod : rep m n ≡ n [MOD m] := rep_modEq
      rw [h] at hmod
      exact hmod.symm.trans (Nat.modEq_zero_iff_dvd.mpr (Nat.dvd_refl m))
  · rintro ⟨hpos, hmod⟩
    refine (rep_eq_of_modEq (by omega) (hmod.trans ?_)).trans hself
    exact (Nat.modEq_zero_iff_dvd.mpr (Nat.dvd_refl m)).symm

/-! ## Folding -/

theorem fold_modEq (m n : Nat) : n / (m + 1) + n % (m + 1) ≡ n [MOD m] := by
  have hone : m + 1 ≡ 1 [MOD m] := Nat.add_modEq_left
  have hdiv : (m + 1) * (n / (m + 1)) ≡ 1 * (n / (m + 1)) [MOD m] := hone.mul_right _
  rw [Nat.one_mul] at hdiv
  calc n / (m + 1) + n % (m + 1) ≡ (m + 1) * (n / (m + 1)) + n % (m + 1) [MOD m] :=
        hdiv.symm.add_right _
    _ = n := Nat.div_add_mod n (m + 1)

theorem rep_fold (m n : Nat) : rep m (n / (m + 1) + n % (m + 1)) = rep m n := by
  refine rep_eq_of_modEq ?_ (fold_modEq m n)
  have := Nat.div_add_mod n (m + 1)
  rw [Nat.add_eq_zero_iff]
  constructor
  · rintro ⟨hdiv, hmod⟩
    rw [← this, hdiv, hmod, Nat.mul_zero]
  · rintro rfl
    exact ⟨Nat.zero_div _, Nat.zero_mod _⟩

/-- One fold is enough for a number whose high part is small. -/
theorem fold_eq_rep (h : n / (m + 1) + n % (m + 1) ≤ m) : n / (m + 1) + n % (m + 1) = rep m n := by
  rw [← rep_fold, rep_of_le h]

end Rep

/-! ## Words of two bytes -/

open Bytes

/-- The words that bytes are read as, low byte first; an odd byte is the low byte of the last. -/
def words : List UInt8 → List Nat
  | [] => []
  | [b] => [b.toNat]
  | b :: c :: bs => (b.toNat + 256 * c.toNat) :: words bs

def sum (bs : List UInt8) : Nat := rep 65535 (words bs).sum

theorem words_sum_modEq (bs : List UInt8) : (words bs).sum ≡ ofLittleEndian bs [MOD 65535] := by
  induction bs using words.induct with
  | case1 => rfl
  | case2 b => rfl
  | case3 b c bs ih =>
    rw [words, List.sum_cons, ofLittleEndian, ofLittleEndian]
    have hsquare : 65536 * ofLittleEndian bs ≡ 1 * ofLittleEndian bs [MOD 65535] :=
      Nat.ModEq.mul_right _ rfl
    have heq : b.toNat + 256 * (c.toNat + 256 * ofLittleEndian bs) =
        b.toNat + 256 * c.toNat + 65536 * ofLittleEndian bs := by omega
    rw [heq]
    refine Nat.ModEq.add_left _ (ih.trans ?_)
    rw [Nat.one_mul] at hsquare
    exact hsquare.symm

theorem words_sum_eq_zero_iff (bs : List UInt8) : (words bs).sum = 0 ↔ ofLittleEndian bs = 0 := by
  induction bs using words.induct with
  | case1 => exact Iff.rfl
  | case2 b => exact Iff.rfl
  | case3 b c bs ih =>
    rw [words, List.sum_cons, ofLittleEndian, ofLittleEndian]
    omega

theorem sum_eq (bs : List UInt8) : sum bs = rep 65535 (ofLittleEndian bs) :=
  rep_eq_of_modEq (words_sum_eq_zero_iff bs) (words_sum_modEq bs)

theorem numeral_append (xs ys : List UInt8) :
    ofLittleEndian (xs ++ ys) = ofLittleEndian xs + 256 ^ xs.length * ofLittleEndian ys := by
  induction xs with
  | nil =>
    rw [List.nil_append, ofLittleEndian, List.length_nil, pow_zero, Nat.zero_add, Nat.one_mul]
  | cons x xs ih =>
    rw [List.cons_append, ofLittleEndian, ofLittleEndian, ih, List.length_cons, pow_succ']
    ring

/-- Moving by an even number of bytes does not change what a byte adds. -/
theorem rep_shift (n a : Nat) : rep 65535 (256 ^ n * a) = rep 65535 (256 ^ (n % 2) * a) := by
  have hzero : 256 ^ n * a = 0 ↔ 256 ^ (n % 2) * a = 0 := by
    rw [Nat.mul_eq_zero, Nat.mul_eq_zero]
    simp
  refine rep_eq_of_modEq hzero (Nat.ModEq.mul_right a ?_)
  have hsquare : (256 ^ 2) ^ (n / 2) ≡ 1 ^ (n / 2) [MOD 65535] := Nat.ModEq.pow _ rfl
  have hmod := hsquare.mul_right (256 ^ (n % 2))
  rw [one_pow, Nat.one_mul, ← pow_mul, ← pow_add, Nat.div_add_mod] at hmod
  exact hmod

theorem rep_shift_even {n : Nat} (h : n % 2 = 0) (a : Nat) :
    rep 65535 (256 ^ n * a) = rep 65535 a := by
  rw [rep_shift, h, pow_zero, Nat.one_mul]

/-- What is behind an even number of bytes counts as if it were in front. -/
theorem sum_append {xs : List UInt8} (h : xs.length % 2 = 0) (ys : List UInt8) :
    sum (xs ++ ys) = rep 65535 (sum xs + sum ys) := by
  rw [sum_eq, sum_eq, sum_eq, numeral_append, rep_rep_add, rep_add_rep]
  exact rep_add_congr rfl (rep_shift_even h _)

/-- Exchanging the bytes of a word moves it by one byte. -/
theorem swap_eq_rep {x : Nat} (h : x ≤ 65535) :
    256 * (x % 256) + x / 256 = rep 65535 (256 * x) := by
  have hle : 256 * (x % 256) + x / 256 ≤ 65535 := by omega
  rw [← rep_of_le hle]
  refine rep_eq_of_modEq (by omega) ?_
  rw [Nat.ModEq]
  omega

/-! ## A word that is checked -/

section Check

variable {xs ys : List UInt8} {c c' : Nat}

/-- What a word adds, at an even place. -/
theorem sum_put (h : xs.length % 2 = 0) (hc : c < 65536) :
    sum (xs ++ littleEndian 2 c ++ ys) =
      rep 65535 (c + sum (xs ++ littleEndian 2 0 ++ ys)) := by
  have hput : ∀ c, c < 65536 → rep 65535 (ofLittleEndian (xs ++ littleEndian 2 c ++ ys)) =
      rep 65535 (ofLittleEndian xs + (c + 65536 * ofLittleEndian ys)) := by
    intro c hc
    have hval : ofLittleEndian (littleEndian 2 c) = c := by
      rw [ofLittleEndian_littleEndian]
      exact Nat.mod_eq_of_lt hc
    rw [List.append_assoc, numeral_append, numeral_append, length_littleEndian, hval]
    exact rep_add_congr rfl (rep_shift_even h _)
  rw [sum_eq, sum_eq, rep_add_rep, hput c hc]
  refine Eq.trans ?_ (rep_add_congr rfl (hput 0 (by decide)).symm)
  congr 1
  omega

/-- With the complement of the rest in it, everything adds up to ones. -/
theorem sum_put_complement (h : xs.length % 2 = 0) :
    sum (xs ++ littleEndian 2 (65535 - sum (xs ++ littleEndian 2 0 ++ ys)) ++ ys) = 65535 := by
  have hle : sum (xs ++ littleEndian 2 0 ++ ys) ≤ 65535 := rep_le (by decide)
  rw [sum_put h (by omega), Nat.sub_add_cancel hle]
  exact rep_of_le (Nat.le_refl _)

/-- All ones can stand for zero. -/
theorem sum_put_top (h : xs.length % 2 = 0)
    (hzero : sum (xs ++ littleEndian 2 0 ++ ys) = 65535) :
    sum (xs ++ littleEndian 2 65535 ++ ys) = 65535 := by
  have hmod : 65535 + 65535 ≡ 0 [MOD 65535] := Nat.modEq_zero_iff_dvd.mpr ⟨2, rfl⟩
  rw [sum_put h (by decide), hzero]
  exact (rep_eq_top_iff (by decide)).mpr ⟨by decide, hmod⟩

/-- Of two words only the two representations of zero add up to the same. -/
theorem put_eq_of_sum (h : xs.length % 2 = 0) (hc : c < 65536) (hc' : c' < 65536)
    (hsum : sum (xs ++ littleEndian 2 c ++ ys) = sum (xs ++ littleEndian 2 c' ++ ys)) :
    c = c' ∨ (c = 0 ∧ c' = 65535) ∨ (c = 65535 ∧ c' = 0) := by
  rw [sum_put h hc, sum_put h hc', rep_eq_iff] at hsum
  have hmod := Nat.ModEq.add_right_cancel' _ hsum.2
  rw [Nat.ModEq] at hmod
  omega

end Check

end OnesComplement
