import PodFirmware.Lib.RingBuffer

/-!
# PodFirmware.PcBuffer

`pcbuffer.c`: the ring buffers of the serial console, of `USART_BUF` bytes each, and the counter of
the messages that are waiting in one. None of the functions checks anything; what they do to the
queue of unread bytes is said under the conditions that their callers are to check.
-/

namespace PodFirmware

def usartBuf : Nat := 128

structure PcBuffer where
  ring : RingBuffer UInt8
  messageAvailable : UInt16

namespace PcBuffer

/-- `pc_buffer_init`, which leaves the array as it is. -/
def init (array : Nat → UInt8) : PcBuffer := ⟨⟨0, 0, array⟩, 0⟩

def add (b : PcBuffer) (data : UInt8) : PcBuffer := { b with ring := b.ring.push usartBuf data }

def remove (b : PcBuffer) : UInt8 × PcBuffer :=
  let (data, ring) := b.ring.pop usartBuf
  (data, { b with ring := ring })

def isEmpty (b : PcBuffer) : Bool := b.ring.produce == b.ring.consume

def isFull (b : PcBuffer) : Bool := b.ring.produce - b.ring.consume == 128

/-- A backspace takes the newest byte back: `produce_count--`. -/
def unproduce (b : PcBuffer) : PcBuffer := { b with ring := b.ring.unpush }

def occupied (b : PcBuffer) : Nat := b.ring.occupied

/-- The bytes that are waiting, oldest first. -/
def unread (b : PcBuffer) : List UInt8 := b.ring.unread usartBuf

section Queue

variable (b : PcBuffer) (c : UInt8)

@[simp] theorem messageAvailable_add : (b.add c).messageAvailable = b.messageAvailable := rfl
@[simp] theorem messageAvailable_remove : b.remove.2.messageAvailable = b.messageAvailable := rfl
@[simp] theorem messageAvailable_unproduce :
    b.unproduce.messageAvailable = b.messageAvailable := rfl

theorem occupied_init (array : Nat → UInt8) : (init array).occupied = 0 := by
  simp [init, occupied, RingBuffer.occupied]

@[simp] theorem length_unread : b.unread.length = b.occupied := b.ring.length_unread usartBuf

theorem isEmpty_iff : b.isEmpty = true ↔ b.occupied = 0 := by
  rw [isEmpty, beq_iff_eq]
  exact b.ring.produce_eq_consume_iff

theorem isFull_iff : b.isFull = true ↔ b.occupied = 128 := by
  rw [isFull, beq_iff_eq, ← UInt32.toNat_inj]
  rfl

theorem unread_eq_nil_iff : b.unread = [] ↔ b.isEmpty = true := by
  rw [isEmpty_iff, ← length_unread, List.length_eq_zero_iff]

theorem isEmpty_eq_false_iff : b.isEmpty = false ↔ b.unread ≠ [] := by
  rw [Bool.eq_false_iff, Ne, Ne, unread_eq_nil_iff]

theorem occupied_pos_iff : 0 < b.occupied ↔ b.unread ≠ [] := by
  rw [← length_unread, List.length_pos_iff]

/-- A message is taken off the count. -/
theorem toNat_sub_one {n : UInt16} (h : 0 < n.toNat) : (n - 1).toNat = n.toNat - 1 := by
  have hone : (1 : UInt16) ≤ n := UInt16.le_iff_toNat_le.mpr h
  exact UInt16.toNat_sub_of_le _ _ hone

variable {b}

theorem unread_add (h : b.occupied < 128) : (b.add c).unread = b.unread ++ [c] :=
  RingBuffer.unread_push (by decide) h (by decide) c

theorem unread_remove (h : 0 < b.occupied) : b.unread = b.remove.1 :: b.remove.2.unread :=
  RingBuffer.unread_pop (by decide) h

theorem unread_unproduce (h : 0 < b.occupied) : b.unproduce.unread = b.unread.dropLast :=
  RingBuffer.unread_unpush h

theorem add_le_iff (h : b.occupied ≤ 128) : (b.add c).occupied ≤ 128 ↔ b.occupied < 128 :=
  RingBuffer.push_le_iff h (by decide) c

theorem remove_le_iff (h : b.occupied ≤ 128) : b.remove.2.occupied ≤ 128 ↔ 0 < b.occupied :=
  RingBuffer.pop_le_iff h (by decide)

theorem unproduce_le (h : b.occupied ≤ 128) (h0 : 0 < b.occupied) : b.unproduce.occupied ≤ 128 :=
  (RingBuffer.unpush_le_iff h (by decide)).mpr h0

end Queue

end PcBuffer

end PodFirmware
