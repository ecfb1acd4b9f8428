import Mathlib.Algebra.Order.Ring.Nat
import Mathlib.Data.Nat.ModEq
import Mathlib.Logic.Function.Basic
import Mathlib.Tactic.Common

/-!
# PodFirmware.Lib.RingBuffer

A ring buffer with free-running 32-bit counters: `produce` counts the elements that were put in,
`consume` those that were taken out, both modulo `2 ^ 32`. The ring has `size` slots, and `size`
divides `2 ^ 32`, so that slots are not shifted when a counter wraps around.

* `occupied`: the elements put in and not yet taken out.
* `unread`: the queue that the ring stands for, as long as at most `size` elements are in it.
-/

structure RingBuffer (α : Type*) where
  produce : UInt32
  consume : UInt32
  array : Nat → α

namespace RingBuffer

variable {α : Type*}

def occupied (r : RingBuffer α) : Nat := (r.produce - r.consume).toNat

def push (size : Nat) (x : α) (r : RingBuffer α) : RingBuffer α :=
  { r with
    produce := r.produce + 1
    array := Function.update r.array (r.produce.toNat % size) x }

/-- The oldest element and the ring without it. -/
def pop (size : Nat) (r : RingBuffer α) : α × RingBuffer α :=
  (r.array (r.consume.toNat % size), { r with consume := r.consume + 1 })

/-- The newest element is taken back. -/
def unpush (r : RingBuffer α) : RingBuffer α := { r with produce := r.produce - 1 }

/-- The elements in the ring, oldest first. -/
def unread (size : Nat) (r : RingBuffer α) : List α :=
  (List.range r.occupied).map fun i => r.array ((r.consume.toNat + i) % size)

section Occupancy

variable (r : RingBuffer α) (size : Nat) (x : α)

@[simp] theorem length_unread : (r.unread size).length = r.occupied := by
  rw [unread, List.length_map, List.length_range]

theorem occupied_lt : r.occupied < 2 ^ 32 := UInt32.toNat_lt _

theorem occupied_eq : r.occupied = (2 ^ 32 - r.consume.toNat + r.produce.toNat) % 2 ^ 32 :=
  UInt32.toNat_sub _ _

theorem occupied_push : (r.push size x).occupied = (r.occupied + 1) % 2 ^ 32 := by
  rw [occupied_eq, occupied_eq]
  have hc := r.consume.toNat_lt
  simp only [push, UInt32.toNat_add, UInt32.reduceToNat]
  omega

theorem occupied_pop : (r.pop size).2.occupied = (r.occupied + (2 ^ 32 - 1)) % 2 ^ 32 := by
  rw [occupied_eq, occupied_eq]
  have hc := r.consume.toNat_lt
  simp only [pop, UInt32.toNat_add, UInt32.reduceToNat]
  omega

theorem occupied_unpush : r.unpush.occupied = (r.occupied + (2 ^ 32 - 1)) % 2 ^ 32 := by
  rw [occupied_eq, occupied_eq]
  have hc := r.consume.toNat_lt
  have hp := r.produce.toNat_lt
  simp only [unpush, UInt32.toNat_sub, UInt32.reduceToNat]
  omega

theorem produce_eq_consume_iff : r.produce = r.consume ↔ r.occupied = 0 := by
  rw [occupied, ← UInt32.toNat_inj, UInt32.toNat_sub]
  have hc := r.consume.toNat_lt
  have hp := r.produce.toNat_lt
  omega

end Occupancy

/-! ## The queue -/

section Queue

variable {r : RingBuffer α} {size : Nat}

/-- Counter values that differ by a multiple of `2 ^ 32` name the same slot. -/
theorem slot_eq (hd : size ∣ 2 ^ 32) (n : Nat) : n % 2 ^ 32 % size = n % size :=
  Nat.mod_mod_of_dvd n hd

theorem produce_slot (hd : size ∣ 2 ^ 32) (r : RingBuffer α) :
    r.produce.toNat % size = (r.consume.toNat + r.occupied) % size := by
  have hc := r.consume.toNat_lt
  have hp := r.produce.toNat_lt
  rw [← slot_eq hd (r.consume.toNat + r.occupied), occupied_eq]
  congr 1
  omega

theorem slot_ne {i j c : Nat} (hi : i < j) (hj : j < i + size) :
    (c + i) % size ≠ (c + j) % size := by
  intro h
  have hdvd : size ∣ j - i := by
    have := (Nat.modEq_iff_dvd' (show c + i ≤ c + j by omega)).mp h
    rwa [show c + j - (c + i) = j - i by omega] at this
  have := Nat.le_of_dvd (by omega) hdvd
  omega

theorem unread_push (hd : size ∣ 2 ^ 32) (h : r.occupied < size) (hs : size < 2 ^ 32) (x : α) :
    (r.push size x).unread size = r.unread size ++ [x] := by
  have hocc : (r.push size x).occupied = r.occupied + 1 := by
    rw [occupied_push, Nat.mod_eq_of_lt (by omega)]
  rw [unread, hocc, List.range_succ, List.map_append, List.map_singleton]
  congr 1
  · apply List.map_congr_left
    intro i hi
    rw [List.mem_range] at hi
    simp only [push, produce_slot hd]
    exact Function.update_of_ne (slot_ne hi (by omega)) ..
  · simp only [push, produce_slot hd, Function.update_self]

theorem unread_pop (hd : size ∣ 2 ^ 32) (h : 0 < r.occupied) :
    r.unread size = (r.pop size).1 :: (r.pop size).2.unread size := by
  have hlt := r.occupied_lt
  obtain ⟨n, hn⟩ : ∃ n, r.occupied = n + 1 := ⟨r.occupied - 1, by omega⟩
  have hocc : (r.pop size).2.occupied = n := by
    rw [occupied_pop]
    omega
  rw [unread, unread, hocc, hn, List.range_succ_eq_map, List.map_cons, List.map_map]
  congr 1
  apply List.map_congr_left
  intro i _
  simp only [pop, Function.comp_apply, UInt32.toNat_add, UInt32.reduceToNat]
  congr 1
  rw [← slot_eq hd (r.consume.toNat + (i + 1)),
    ← slot_eq hd ((r.consume.toNat + 1) % 2 ^ 32 + i)]
  congr 1
  omega

theorem unread_unpush (h : 0 < r.occupied) : r.unpush.unread size = (r.unread size).dropLast := by
  have hlt := r.occupied_lt
  obtain ⟨n, hn⟩ : ∃ n, r.occupied = n + 1 := ⟨r.occupied - 1, by omega⟩
  have hocc : r.unpush.occupied = n := by
    rw [occupied_unpush]
    omega
  rw [unread, unread, hocc, hn, List.range_succ, List.map_append, List.map_singleton,
    List.dropLast_concat]
  rfl

end Queue

/-- What may happen to a queue: elements are appended, the oldest is taken, the newest is taken
back. Nothing is overwritten, and nothing is taken from an empty queue. -/
inductive QueueStep : List α → List α → Prop where
  | append (q xs : List α) : QueueStep q (q ++ xs)
  | take (x : α) (q : List α) : QueueStep (x :: q) q
  | retract (q : List α) (x : α) : QueueStep (q ++ [x]) q

theorem QueueStep.keep (q : List α) : QueueStep q q := by
  simpa using QueueStep.append q []

/-! ## Bounds -/

section Bounds

variable {r : RingBuffer α} {size : Nat}

theorem push_le_iff (h : r.occupied ≤ size) (hs : size < 2 ^ 32 - 1) (x : α) :
    (r.push size x).occupied ≤ size ↔ r.occupied < size := by
  rw [occupied_push]
  omega

theorem pop_le_iff (h : r.occupied ≤ size) (hs : size < 2 ^ 32 - 1) :
    (r.pop size).2.occupied ≤ size ↔ 0 < r.occupied := by
  rw [occupied_pop]
  omega

theorem unpush_le_iff (h : r.occupied ≤ size) (hs : size < 2 ^ 32 - 1) :
    r.unpush.occupied ≤ size ↔ 0 < r.occupied := by
  rw [occupied_unpush]
  omega

end Bounds

end RingBuffer
