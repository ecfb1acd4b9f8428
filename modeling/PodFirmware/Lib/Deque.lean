import PodFirmware.Lib.Machine
import PodFirmware.Lib.RingBuffer

/-!
# PodFirmware.Lib.Deque

A double-ended queue of at most `n` elements, and the ring buffer that stands for it. An element
that is pushed to a full queue is dropped, and an empty queue gives none.

* `pushBack`, `popFront`, `dropBack`: the operations, each within the bound.
* `Holds`: a ring of `n` slots holds the elements of a queue.
-/

structure Deque (α : Type*) (n : Nat) where
  items : List α
  length_le : items.length ≤ n

namespace Deque

variable {α : Type*} {n : Nat}

def empty : Deque α n := ⟨[], Nat.zero_le n⟩

def pushBack (x : α) (d : Deque α n) : Deque α n :=
  if h : d.items.length < n then ⟨d.items ++ [x], by rw [List.length_append]; exact h⟩ else d

def popFront (d : Deque α n) : Option α × Deque α n :=
  (d.items.head?, ⟨d.items.tail, Nat.le_trans (by simp) d.length_le⟩)

def dropBack (d : Deque α n) : Deque α n :=
  ⟨d.items.dropLast, Nat.le_trans (by simp) d.length_le⟩

/-! ## The ring buffer -/

def Holds (r : RingBuffer α) (d : Deque α n) : Prop := r.unread n = d.items

section Ring

variable {r : RingBuffer α} {d : Deque α n}

theorem Holds.occupied (h : Holds r d) : r.occupied = d.items.length := by
  rw [← h, RingBuffer.length_unread]

theorem holds_pushBack (hd : n ∣ 2 ^ 32) (hn : n < 2 ^ 32) (h : Holds r d)
    (hroom : r.occupied < n) (x : α) : Holds (r.push n x) (d.pushBack x) := by
  have hlt : d.items.length < n := h.occupied ▸ hroom
  rw [Holds, RingBuffer.unread_push hd hroom hn, pushBack, dif_pos hlt, h]

theorem pushBack_full (h : Holds r d) (hfull : ¬r.occupied < n) (x : α) : d.pushBack x = d := by
  rw [pushBack, dif_neg (h.occupied ▸ hfull)]

theorem holds_popFront (hd : n ∣ 2 ^ 32) (h : Holds r d) (hpos : 0 < r.occupied) :
    d.popFront.1 = some (r.pop n).1 ∧ Holds (r.pop n).2 d.popFront.2 := by
  have hcons : d.items = (r.pop n).1 :: (r.pop n).2.unread n := by
    rw [← h, RingBuffer.unread_pop hd hpos]
  simp only [Holds, popFront, hcons, List.head?_cons, List.tail_cons, and_self]

theorem holds_dropBack (h : Holds r d) (hpos : 0 < r.occupied) : Holds r.unpush d.dropBack := by
  rw [Holds, RingBuffer.unread_unpush hpos, h, dropBack]

end Ring

end Deque
