import Mathlib.Algebra.Order.Ring.Nat
import Mathlib.Tactic.Common

/-!
# PodFirmware.Lib.Bytes

Bytes in memory and on the wire.

* `littleEndian w n`, `bigEndian w n`: the `w` low bytes of `n`, and their decoding.
* `slice`, `splice`: a part of a buffer is read, or overwritten.
* `load`, `store`: the same for addresses, without bounds.
-/

namespace Bytes

/-! ## Numerals -/

def littleEndian : Nat → Nat → List UInt8
  | 0, _ => []
  | w + 1, n => UInt8.ofNat n :: littleEndian w (n / 256)

def ofLittleEndian : List UInt8 → Nat
  | [] => 0
  | b :: bs => b.toNat + 256 * ofLittleEndian bs

def bigEndian (w n : Nat) : List UInt8 := (littleEndian w n).reverse

def ofBigEndian (bs : List UInt8) : Nat := ofLittleEndian bs.reverse

@[simp] theorem length_littleEndian (w n : Nat) : (littleEndian w n).length = w := by
  induction w generalizing n with
  | zero => rfl
  | succ w ih => rw [littleEndian, List.length_cons, ih]

@[simp] theorem length_bigEndian (w n : Nat) : (bigEndian w n).length = w := by
  rw [bigEndian, List.length_reverse, length_littleEndian]

theorem ofLittleEndian_littleEndian (w n : Nat) :
    ofLittleEndian (littleEndian w n) = n % 256 ^ w := by
  induction w generalizing n with
  | zero => rw [littleEndian, ofLittleEndian, pow_zero, Nat.mod_one]
  | succ w ih =>
    rw [littleEndian, ofLittleEndian, ih, pow_succ', Nat.mod_mul, UInt8.toNat_ofNat']

theorem ofBigEndian_bigEndian (w n : Nat) : ofBigEndian (bigEndian w n) = n % 256 ^ w := by
  rw [ofBigEndian, bigEndian, List.reverse_reverse, ofLittleEndian_littleEndian]

theorem littleEndian_ofLittleEndian (bs : List UInt8) :
    littleEndian bs.length (ofLittleEndian bs) = bs := by
  induction bs with
  | nil => rfl
  | cons b bs ih =>
    have hb : UInt8.ofNat (b.toNat + 256 * ofLittleEndian bs) = b := by
      apply UInt8.toNat_inj.mp
      rw [UInt8.toNat_ofNat']
      have := b.toNat_lt
      omega
    have hdiv : (b.toNat + 256 * ofLittleEndian bs) / 256 = ofLittleEndian bs := by
      have := b.toNat_lt
      omega
    rw [List.length_cons, ofLittleEndian, littleEndian, hb, hdiv, ih]

theorem bigEndian_ofBigEndian {w : Nat} {bs : List UInt8} (h : bs.length = w) :
    bigEndian w (ofBigEndian bs) = bs := by
  have hr : w = bs.reverse.length := by rw [List.length_reverse, h]
  rw [bigEndian, ofBigEndian, hr, littleEndian_ofLittleEndian, List.reverse_reverse]

theorem ofLittleEndian_lt (bs : List UInt8) : ofLittleEndian bs < 256 ^ bs.length := by
  induction bs with
  | nil => exact Nat.one_pos
  | cons b bs ih =>
    have := b.toNat_lt
    rw [ofLittleEndian, List.length_cons, pow_succ']
    omega

/-! ## Buffers -/

variable {α : Type*}

def slice (buf : List α) (a w : Nat) : List α := (buf.drop a).take w

/-- `xs` is written over the buffer from position `a` on. -/
def splice (buf : List α) (a : Nat) (xs : List α) : List α :=
  buf.take a ++ (xs ++ buf.drop (a + xs.length))

theorem length_splice {buf xs : List α} {a : Nat} (h : a + xs.length ≤ buf.length) :
    (splice buf a xs).length = buf.length := by
  simp only [splice, List.length_append, List.length_take, List.length_drop]
  omega

theorem length_slice {buf : List α} {a w : Nat} (h : a + w ≤ buf.length) :
    (slice buf a w).length = w := by
  rw [slice, List.length_take, List.length_drop]
  omega

theorem slice_splice_self {buf xs : List α} {a : Nat} (h : a + xs.length ≤ buf.length) :
    slice (splice buf a xs) a xs.length = xs := by
  have ha : (buf.take a).length = a := by
    rw [List.length_take]
    omega
  rw [slice, splice, List.drop_append_of_le_length (by omega), List.drop_of_length_le (by omega),
    List.nil_append, List.take_left']
  rfl

theorem getElem?_slice (buf : List α) (a w i : Nat) :
    (slice buf a w)[i]? = if i < w then buf[a + i]? else none := by
  rw [slice, List.getElem?_take]
  split
  · rw [List.getElem?_drop]
  · rfl

theorem getElem?_splice {buf xs : List α} {a i : Nat} (h : a + xs.length ≤ buf.length)
    (hi : i < a ∨ a + xs.length ≤ i) : (splice buf a xs)[i]? = buf[i]? := by
  have ha : (buf.take a).length = a := by
    rw [List.length_take]
    omega
  rw [splice]
  rcases hi with hi | hi
  · rw [List.getElem?_append_left (by omega), List.getElem?_take_of_lt hi]
  · rw [List.getElem?_append_right (by omega), ha, List.getElem?_append_right (by omega),
      List.getElem?_drop]
    congr 1
    omega

/-- What is written elsewhere does not change a slice. -/
theorem slice_splice_of_disjoint {buf xs : List α} {a b w : Nat}
    (h : a + xs.length ≤ buf.length) (hd : b + w ≤ a ∨ a + xs.length ≤ b) :
    slice (splice buf a xs) b w = slice buf b w := by
  apply List.ext_getElem?
  intro i
  rw [getElem?_slice, getElem?_slice]
  split
  · exact getElem?_splice h (by omega)
  · rfl

theorem slice_take {buf : List α} {a w n : Nat} (h : a + w ≤ n) :
    slice (buf.take n) a w = slice buf a w := by
  rw [slice, slice, List.drop_take, List.take_take, Nat.min_eq_left (by omega)]

/-! ## Addresses -/

def load (m : Nat → α) (a n : Nat) : List α := (List.range n).map fun i => m (a + i)

/-- `xs` is written to the addresses from `a` on. -/
def store (m : Nat → α) (a : Nat) (xs : List α) : Nat → α :=
  fun x => if a ≤ x then xs.getD (x - a) (m x) else m x

/-- Two writes, one behind the other, are one. -/
theorem store_append (m : Nat → α) (a : Nat) (xs ys : List α) :
    store (store m a xs) (a + xs.length) ys = store m a (xs ++ ys) := by
  funext x
  simp only [store, List.getD_eq_getElem?_getD, List.getElem?_append]
  by_cases hx : a + xs.length ≤ x
  · rw [if_pos hx, if_pos (by omega), if_pos (by omega), if_neg (by omega), Nat.sub_add_eq,
      List.getElem?_eq_none (l := xs) (by omega)]
    rfl
  · rw [if_neg hx]
    by_cases ha : a ≤ x
    · rw [if_pos ha, if_pos ha, if_pos (by omega)]
    · rw [if_neg ha, if_neg ha]

theorem load_store_self (m : Nat → α) (a : Nat) (xs : List α) :
    load (store m a xs) a xs.length = xs := by
  apply List.ext_getElem
  · rw [load, List.length_map, List.length_range]
  · intro i _ hi
    simp only [load, store, List.getElem_map, List.getElem_range, List.getD_eq_getElem?_getD,
      Nat.le_add_right, if_true, Nat.add_sub_cancel_left, List.getElem?_eq_getElem hi,
      Option.getD_some]

end Bytes
