import PodFirmware.Lib.Deque
import PodFirmware.PcBuffer

/-!
# PodFirmware.SizedBuffer

`PC_Buffer` with the size that `pc_buffer_init` was given. The counters run freely and are reduced
modulo the size at every access, also after a backspace has taken one back.

* `ring`: the counters and the array, as the library's ring buffer.
* `step`: an operation, made only when the buffer's own tests allow it.
* `refinesDeque`: over any operations, the bytes removed and the tests are those of a bounded queue.
-/

namespace PodFirmware

structure SizedBuffer where
  produceCount : UInt32
  consumeCount : UInt32
  bufferSize : UInt16
  messageAvailable : UInt16
  array : Nat → UInt8

namespace SizedBuffer

/-- `pc_buffer_init`, with what `malloc` returns. -/
def init (malloc : Option (Nat → UInt8)) (bufferSize : UInt16) (b : SizedBuffer) :
    Bool × SizedBuffer :=
  match malloc with
  | none => (false, b)
  | some temp =>
    (true, { b with
      array := temp, bufferSize := bufferSize, consumeCount := 0, produceCount := 0
      messageAvailable := 0 })

def add (b : SizedBuffer) (data : UInt8) : SizedBuffer :=
  { b with
    array := Function.update b.array (b.produceCount % b.bufferSize.toUInt32).toNat data
    produceCount := b.produceCount + 1 }

def remove (b : SizedBuffer) : UInt8 × SizedBuffer :=
  (b.array (b.consumeCount % b.bufferSize.toUInt32).toNat,
    { b with consumeCount := b.consumeCount + 1 })

def isEmpty (b : SizedBuffer) : Bool := b.produceCount == b.consumeCount

def isFull (b : SizedBuffer) : Bool :=
  b.produceCount - b.consumeCount == b.bufferSize.toUInt32

def backspace (b : SizedBuffer) : SizedBuffer := { b with produceCount := b.produceCount - 1 }

/-! ## Operations -/

inductive Op where
  | add (data : UInt8)
  | remove
  | backspace
  deriving DecidableEq, Repr

/-- The buffer, and the bytes that have been removed from it. -/
def step (s : SizedBuffer × List UInt8) : Op → SizedBuffer × List UInt8
  | .add data => if s.1.isFull then s else (s.1.add data, s.2)
  | .remove => if s.1.isEmpty then s else (s.1.remove.2, s.2 ++ [s.1.remove.1])
  | .backspace => if s.1.isEmpty then s else (s.1.backspace, s.2)

/-- The reference: a queue of at most `n` bytes. -/
def reference {n : Nat} (s : Deque UInt8 n × List UInt8) : Op → Deque UInt8 n × List UInt8
  | .add data => (s.1.pushBack data, s.2)
  | .remove => (s.1.popFront.2, s.2 ++ s.1.popFront.1.toList)
  | .backspace => (s.1.dropBack, s.2)

/-! ## The ring -/

def ring (b : SizedBuffer) : RingBuffer UInt8 := ⟨b.produceCount, b.consumeCount, b.array⟩

/-- The buffer of the console has 128 bytes. -/
def ofPcBuffer (b : PcBuffer) : SizedBuffer where
  produceCount := b.ring.produce
  consumeCount := b.ring.consume
  bufferSize := 128
  messageAvailable := b.messageAvailable
  array := b.ring.array

section Ring

variable (b : SizedBuffer) (data : UInt8)

theorem slot_eq (count : UInt32) :
    (count % b.bufferSize.toUInt32).toNat = count.toNat % b.bufferSize.toNat := by
  rw [UInt32.toNat_mod, UInt16.toNat_toUInt32]

theorem ring_add : (b.add data).ring = b.ring.push b.bufferSize.toNat data := by
  simp only [ring, add, RingBuffer.push, slot_eq]

theorem ring_remove : b.remove.2.ring = (b.ring.pop b.bufferSize.toNat).2 := rfl

theorem remove_fst : b.remove.1 = (b.ring.pop b.bufferSize.toNat).1 := by
  simp only [ring, remove, RingBuffer.pop, slot_eq]

theorem isEmpty_iff : b.isEmpty = true ↔ b.ring.occupied = 0 := by
  rw [isEmpty, beq_iff_eq]
  exact b.ring.produce_eq_consume_iff

theorem isFull_iff : b.isFull = true ↔ b.ring.occupied = b.bufferSize.toNat := by
  rw [isFull, beq_iff_eq, ← UInt32.toNat_inj, UInt16.toNat_toUInt32]
  rfl

end Ring

section OfPcBuffer

variable (b : PcBuffer) (data : UInt8)

theorem ofPcBuffer_add : ofPcBuffer (b.add data) = (ofPcBuffer b).add data := by
  simp [ofPcBuffer, add, PcBuffer.add, RingBuffer.push, usartBuf]

theorem ofPcBuffer_remove : ofPcBuffer b.remove.2 = (ofPcBuffer b).remove.2 := rfl

theorem ofPcBuffer_unproduce : ofPcBuffer b.unproduce = (ofPcBuffer b).backspace := rfl

end OfPcBuffer

/-! ## Runs -/

/-- The buffer holds the queue, and the same bytes have been removed from both. -/
structure Refines (size : UInt16) (s : SizedBuffer × List UInt8)
    (d : Deque UInt8 size.toNat × List UInt8) : Prop where
  size : s.1.bufferSize = size
  holds : Deque.Holds s.1.ring d.1
  removed : s.2 = d.2

section Refines

variable {size : UInt16} {s : SizedBuffer × List UInt8} {d : Deque UInt8 size.toNat × List UInt8}

theorem Refines.isEmpty_iff (h : Refines size s d) :
    s.1.isEmpty = true ↔ d.1.items.length = 0 := by
  rw [SizedBuffer.isEmpty_iff, h.holds.occupied]

theorem Refines.isFull_iff (h : Refines size s d) :
    s.1.isFull = true ↔ d.1.items.length = size.toNat := by
  rw [SizedBuffer.isFull_iff, h.holds.occupied, h.size]

theorem Refines.pos (h : Refines size s d) (hempty : ¬s.1.isEmpty = true) :
    0 < s.1.ring.occupied := by
  have hne := mt h.isEmpty_iff.mpr hempty
  rw [h.holds.occupied]
  omega

theorem Refines.nil (h : Refines size s d) (hempty : s.1.isEmpty = true) : d.1.items = [] :=
  List.length_eq_zero_iff.mp (h.isEmpty_iff.mp hempty)

theorem refines_add (hd : size.toNat ∣ 2 ^ 32) (h : Refines size s d) (data : UInt8) :
    Refines size (step s (.add data)) (reference d (.add data)) := by
  have hlt := size.toNat_lt
  have hle := d.1.length_le
  have hocc := h.holds.occupied
  have hfull := h.isFull_iff
  simp only [step, reference]
  by_cases hroom : s.1.ring.occupied < size.toNat
  · rw [if_neg (mt hfull.mp (by omega))]
    refine ⟨h.size, ?_, h.removed⟩
    rw [ring_add, h.size]
    exact Deque.holds_pushBack hd (by omega) h.holds hroom data
  · rw [if_pos (hfull.mpr (by omega)), Deque.pushBack_full h.holds hroom]
    exact h

theorem refines_remove (hd : size.toNat ∣ 2 ^ 32) (h : Refines size s d) :
    Refines size (step s .remove) (reference d .remove) := by
  simp only [step, reference]
  by_cases hempty : s.1.isEmpty = true
  · rw [if_pos hempty]
    refine ⟨h.size, ?_, ?_⟩
    · simpa [Deque.Holds, Deque.popFront, h.nil hempty] using h.holds
    · simpa [Deque.popFront, h.nil hempty] using h.removed
  · obtain ⟨hfst, hsnd⟩ := Deque.holds_popFront hd h.holds (h.pos hempty)
    rw [if_neg hempty]
    refine ⟨h.size, ?_, ?_⟩
    · rw [ring_remove, h.size]
      exact hsnd
    · rw [hfst, remove_fst, h.size, h.removed]
      rfl

theorem refines_backspace (h : Refines size s d) :
    Refines size (step s .backspace) (reference d .backspace) := by
  simp only [step, reference]
  by_cases hempty : s.1.isEmpty = true
  · rw [if_pos hempty]
    refine ⟨h.size, ?_, h.removed⟩
    simpa [Deque.Holds, Deque.dropBack, h.nil hempty] using h.holds
  · rw [if_neg hempty]
    exact ⟨h.size, Deque.holds_dropBack h.holds (h.pos hempty), h.removed⟩

theorem refines_step (hd : size.toNat ∣ 2 ^ 32) (h : Refines size s d) (op : Op) :
    Refines size (step s op) (reference d op) := by
  cases op with
  | add data => exact refines_add hd h data
  | remove => exact refines_remove hd h
  | backspace => exact refines_backspace h

end Refines

/-- A size that is a power of two divides the range of the counters. -/
theorem size_dvd {size : UInt16} (h : ∃ k, size.toNat = 2 ^ k) : size.toNat ∣ 2 ^ 32 := by
  obtain ⟨k, hk⟩ := h
  have hlt : 2 ^ k < 2 ^ 16 := hk ▸ size.toNat_lt
  have hk16 : k < 16 := (Nat.pow_lt_pow_iff_right (by decide)).mp hlt
  rw [hk]
  exact Nat.pow_dvd_pow 2 (by omega)

/-- For every size that is a power of two, from what `pc_buffer_init` makes of any buffer. -/
theorem refinesDeque (size : UInt16) (hsize : ∃ k, size.toNat = 2 ^ k) (b : SizedBuffer)
    (temp : Nat → UInt8) (ops : List Op) :
    let s := Machine.run step ((init (some temp) size b).2, []) ops
    let d := Machine.run reference ((Deque.empty : Deque UInt8 size.toNat), []) ops
    s.2 = d.2 ∧ (s.1.isEmpty = true ↔ d.1.items.length = 0) ∧
      (s.1.isFull = true ↔ d.1.items.length = size.toNat) := by
  intro s d
  have h : Refines size s d := by
    refine Machine.run_related (fun _ _ op h => refines_step (size_dvd hsize) h op) ⟨rfl, ?_, rfl⟩
    have hocc : (init (some temp) size b).2.ring.occupied = 0 := by
      simp [init, ring, RingBuffer.occupied]
    rw [Deque.Holds, RingBuffer.unread, hocc]
    rfl
  exact ⟨h.removed, h.isEmpty_iff, h.isFull_iff⟩

/-- The third byte does not fit, and the second is taken back. -/
theorem refinesDeque_two :
    (Machine.run step ((init (some fun _ => 0) 2 ⟨7, 3, 0, 0, fun _ => 0⟩).2, [])
      [.add 65, .add 66, .add 67, .backspace, .add 68, .remove, .remove, .remove]).2 = [65, 68] :=
  (refinesDeque 2 ⟨1, rfl⟩ _ _ _).1.trans (by decide)

end SizedBuffer

end PodFirmware
