import Mathlib.Algebra.BigOperators.Group.List.Basic
import Mathlib.Algebra.Group.Basic
import Mathlib.Data.List.GetD
import PodFirmware.Lib.RingBuffer

/-!
# PodFirmware.Lib.Window

The sum of the last `n` samples, kept by a free-running counter: a sample takes the slot at `count`
modulo `n`, and the sum is corrected by what was in it.

* `push`: one sample.
* `Tracks`: slots, counter and sum are those of a history, the newest sample first.
* `tracks_push`: one sample more.
-/

structure Window (α : Type*) where
  slots : Nat → α
  count : Nat
  sum : α

namespace Window

variable {α : Type*} [AddCommGroup α] {n : Nat} {w : Window α} {h : List α}

def push (n : Nat) (x : α) (w : Window α) : Window α where
  slots := Function.update w.slots (w.count % n) x
  count := w.count + 1
  sum := w.sum - w.slots (w.count % n) + x

/-- Samples before the first one count as zero. -/
structure Tracks (n : Nat) (w : Window α) (h : List α) : Prop where
  count : w.count = h.length
  slot : ∀ j < n, w.slots ((w.count + (n - 1 - j)) % n) = h.getD j 0
  sum : w.sum = (h.take n).sum

theorem sum_take_succ (h : List α) (m : Nat) :
    (h.take (m + 1)).sum = (h.take m).sum + h.getD m 0 := by
  rw [List.take_add_one, List.sum_append, List.getD_eq_getElem?_getD]
  cases h[m]? <;> simp

/-- The slot that the next sample takes holds the oldest one of the window. -/
theorem Tracks.oldest (ht : Tracks (n + 1) w h) : w.slots (w.count % (n + 1)) = h.getD n 0 := by
  have hslot := ht.slot n (by omega)
  rwa [Nat.add_sub_cancel, Nat.sub_self, Nat.add_zero] at hslot

theorem tracks_push (hn : 0 < n) (ht : Tracks n w h) (x : α) : Tracks n (w.push n x) (x :: h) := by
  obtain ⟨m, rfl⟩ : ∃ m, n = m + 1 := ⟨n - 1, by omega⟩
  refine ⟨?_, ?_, ?_⟩
  · rw [push, ht.count, List.length_cons]
  · intro j hj
    have hidx : w.count + 1 + (m + 1 - 1 - j) = w.count + (m + 1 - j) := by omega
    simp only [push, hidx]
    cases j with
    | zero =>
      rw [Nat.sub_zero, Nat.add_mod_right, Function.update_self, List.getD_cons_zero]
    | succ j =>
      have hne : (w.count + (m + 1 - (j + 1))) % (m + 1) ≠ w.count % (m + 1) :=
        (RingBuffer.slot_ne (i := 0) (by omega) (by omega)).symm
      rw [Function.update_of_ne hne, List.getD_cons_succ, ← ht.slot j (by omega)]
      congr 2
      omega
  · rw [push, ht.oldest, ht.sum, sum_take_succ, add_sub_cancel_right, List.take_succ_cons,
      List.sum_cons]
    exact add_comm _ _

theorem tracks_zero (n : Nat) : Tracks n ⟨fun _ => (0 : α), 0, 0⟩ [] := by
  refine ⟨rfl, ?_, ?_⟩
  · intro j _
    rw [List.getD_nil]
  · rw [List.take_nil, List.sum_nil]

end Window
