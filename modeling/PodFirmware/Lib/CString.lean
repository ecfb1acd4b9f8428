import Mathlib.Algebra.Ring.Nat
import Mathlib.Data.List.TakeWhile
import Mathlib.Tactic.Common

/-!
# PodFirmware.Lib.CString

C strings as the lists of bytes in front of the NUL, and the conversions of the C library on them.

* `takeWhile_append_of_not_mem`, `takeWhile_append_of_mem`: whether what follows belongs to the
  string.
* `magnitude base w`: the number that the leading digits of `w` stand for.
* `strtoul`, `strtol`: blanks, a sign, the digits. A number that does not fit gives the largest
  one, or the smallest for a negative `long`.
-/

namespace CString

abbrev Word := List UInt8

/-- A string literal. -/
def ascii (s : String) : Word := s.toList.map fun c => UInt8.ofNat c.toNat

/-! ## Ends -/

section Ends

variable {w : Word} {stop : UInt8}

theorem ne_of_not_mem (h : stop ∉ w) : ∀ c ∈ w, (c != stop) = true := by
  intro c hc
  have : c ≠ stop := by
    rintro rfl
    exact h hc
  simpa using this

theorem takeWhile_of_not_mem (h : stop ∉ w) : w.takeWhile (· != stop) = w :=
  List.takeWhile_eq_self_iff.mpr (ne_of_not_mem h)

/-- A string goes on behind the bytes in which nothing ends it. -/
theorem takeWhile_append_of_not_mem (h : stop ∉ w) (rest : Word) :
    (w ++ rest).takeWhile (· != stop) = w ++ rest.takeWhile (· != stop) :=
  List.takeWhile_append_of_pos (ne_of_not_mem h)

theorem takeWhile_append_of_mem (h : stop ∈ w) (rest : Word) :
    (w ++ rest).takeWhile (· != stop) = w.takeWhile (· != stop) := by
  rw [List.takeWhile_append, if_neg]
  intro hlen
  have heq := (List.takeWhile_prefix (· != stop)).eq_of_length hlen
  have := List.mem_takeWhile_imp (heq ▸ h)
  simp at this

end Ends

/-! ## Numbers -/

def isSpace (c : UInt8) : Bool := c == 32 || (9 ≤ c && c ≤ 13)

def digit (base : Nat) (c : UInt8) : Option Nat :=
  let d :=
    if 48 ≤ c ∧ c ≤ 57 then some (c.toNat - 48)
    else if 65 ≤ c ∧ c ≤ 90 then some (c.toNat - 55)
    else if 97 ≤ c ∧ c ≤ 122 then some (c.toNat - 87)
    else none
  d.filter (· < base)

def magnitude (base : Nat) : Word → Nat → Nat
  | [], n => n
  | c :: w, n =>
    match digit base c with
    | some d => magnitude base w (n * base + d)
    | none => n

/-- The sign, and what follows it. -/
def sign (w : Word) : Bool × Word :=
  match w with
  | 45 :: w => (true, w)
  | 43 :: w => (false, w)
  | w => (false, w)

/-- The prefix that base 16 allows. -/
def skipHex (base : Nat) (w : Word) : Word :=
  match w with
  | 48 :: x :: rest => if base = 16 ∧ (x = 120 ∨ x = 88) then rest else w
  | w => w

def strtoul (base : Nat) (w : Word) : UInt32 :=
  let (neg, digits) := sign (w.dropWhile isSpace)
  let n := magnitude base (skipHex base digits) 0
  if n ≥ 2 ^ 32 then 0xffffffff
  else if neg then -UInt32.ofNat n
  else UInt32.ofNat n

def strtol (base : Nat) (w : Word) : Int32 :=
  let (neg, digits) := sign (w.dropWhile isSpace)
  let n := magnitude base (skipHex base digits) 0
  if neg then (if n > 2 ^ 31 then Int32.minValue else -Int32.ofNat n)
  else if n ≥ 2 ^ 31 then Int32.maxValue
  else Int32.ofNat n

def atoi (w : Word) : Int32 := strtol 10 w

example : strtoul 10 (ascii " 125000x") = 125000 := by decide
example : strtol 10 (ascii "-9999999999") = Int32.minValue := by decide
example : strtoul 16 (ascii "0x2f") = 47 := by decide

end CString
