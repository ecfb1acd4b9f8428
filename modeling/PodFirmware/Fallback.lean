import PodFirmware.Lib.Machine
import PodFirmware.Message
import PodFirmware.Output
import PodFirmware.PcBuffer

/-!
# PodFirmware.Fallback

The bytes of `_write`. As long as the dashboard is the target of standard output, a call sends its
bytes as a message; when that fails, the serial console becomes the target, for the calls that
follow.

* `Serial`: the transmit ring of the serial console, and what has left it.
* `write`: `_write`, with the bytes.
* `delivered_iff`: no call loses its bytes exactly as long as no call that has some fails, or is too
  long for a message.
-/

namespace PodFirmware
namespace Fallback

open Message
open Pbuf (chainLength poolBufsize transport)

/-! ## The serial console -/

/-- `usart3_tx`, and the bytes that its interrupt handler has given to the transmitter. -/
structure Serial where
  tx : PcBuffer
  line : List UInt8
  bound : tx.occupied ≤ 128

namespace Serial

/-- The bytes written to the console so far: those that are out, and those that are to follow. -/
def stream (s : Serial) : List UInt8 := s.line ++ s.tx.unread

theorem occupied_of_not_isEmpty {s : Serial} (h : ¬ s.tx.isEmpty = true) : 0 < s.tx.occupied :=
  Nat.pos_of_ne_zero fun h0 => h (s.tx.isEmpty_iff.mpr h0)

/-- The interrupt: the transmitter takes a byte, if there is one. -/
def txe (s : Serial) : Serial :=
  if h : s.tx.isEmpty then s
  else
    { tx := s.tx.remove.2
      line := s.line ++ [s.tx.remove.1]
      bound := (PcBuffer.remove_le_iff s.bound).mpr (occupied_of_not_isEmpty h) }

def drain : Nat → Serial → Serial
  | 0, s => s
  | n + 1, s => drain n s.txe

/-- `while (pc_buffer_full(&usart3_tx))`, which one interrupt ends. -/
def awaitRoom (s : Serial) : Serial := if s.tx.isFull then s.txe else s

theorem stream_txe (s : Serial) : s.txe.stream = s.stream := by
  unfold txe
  split
  · rfl
  · rename_i h
    have hpos := occupied_of_not_isEmpty h
    rw [stream, stream, PcBuffer.unread_remove hpos, List.append_assoc]
    rfl

theorem occupied_txe (s : Serial) : s.txe.tx.occupied = s.tx.occupied - 1 := by
  unfold txe
  split
  · rename_i h
    rw [s.tx.isEmpty_iff.mp h]
  · rename_i h
    have hpos := occupied_of_not_isEmpty h
    have hlength := congrArg List.length (PcBuffer.unread_remove hpos)
    rw [List.length_cons, PcBuffer.length_unread, PcBuffer.length_unread] at hlength
    dsimp only
    omega

theorem stream_drain (n : Nat) (s : Serial) : (s.drain n).stream = s.stream := by
  induction n generalizing s with
  | zero => rfl
  | succ n ih => rw [drain, ih, stream_txe]

theorem occupied_drain (n : Nat) (s : Serial) : (s.drain n).tx.occupied = s.tx.occupied - n := by
  induction n generalizing s with
  | zero => rfl
  | succ n ih =>
    rw [drain, ih, occupied_txe]
    omega

theorem stream_awaitRoom (s : Serial) : s.awaitRoom.stream = s.stream := by
  unfold awaitRoom
  split
  · exact s.stream_txe
  · rfl

theorem occupied_awaitRoom (s : Serial) : s.awaitRoom.tx.occupied < 128 := by
  have hbound := s.bound
  unfold awaitRoom
  split
  · rw [occupied_txe]
    omega
  · rename_i h
    rw [PcBuffer.isFull_iff] at h
    omega

/-- One pass of the loop in `_write`, after `n` interrupts. -/
def put (n : Nat) (s : Serial) (c : UInt8) : Serial :=
  { tx := (s.drain n).awaitRoom.tx.add c
    line := (s.drain n).awaitRoom.line
    bound := (PcBuffer.add_le_iff c (s.drain n).awaitRoom.bound).mpr (occupied_awaitRoom _) }

/-- The loop, with the interrupts before each byte. -/
def puts : List UInt8 → List Nat → Serial → Serial
  | [], _, s => s
  | c :: bytes, irqs, s => puts bytes irqs.tail (s.put (irqs.headD 0) c)

/-- `_write` to the serial console, which at last waits until everything is out. -/
def write (bytes : List UInt8) (irqs : List Nat) (s : Serial) : Serial :=
  let s := s.puts bytes irqs
  s.drain s.tx.occupied

theorem stream_put (n : Nat) (s : Serial) (c : UInt8) : (s.put n c).stream = s.stream ++ [c] := by
  have hadd := PcBuffer.unread_add c (occupied_awaitRoom (s.drain n))
  rw [stream, put, hadd, ← List.append_assoc]
  show (s.drain n).awaitRoom.stream ++ [c] = s.stream ++ [c]
  rw [stream_awaitRoom, stream_drain]

theorem stream_puts (bytes : List UInt8) (irqs : List Nat) (s : Serial) :
    (s.puts bytes irqs).stream = s.stream ++ bytes := by
  induction bytes generalizing irqs s with
  | nil => rw [puts, List.append_nil]
  | cons c bytes ih => rw [puts, ih, stream_put, List.append_assoc, List.singleton_append]

theorem stream_write (bytes : List UInt8) (irqs : List Nat) (s : Serial) :
    (s.write bytes irqs).stream = s.stream ++ bytes := by
  rw [write, stream_drain, stream_puts]

/-- When `_write` returns, the bytes are on the line. -/
theorem line_write (bytes : List UInt8) (irqs : List Nat) (s : Serial) :
    (s.write bytes irqs).line = s.stream ++ bytes := by
  have hout : (s.write bytes irqs).tx.unread = [] := by
    rw [PcBuffer.unread_eq_nil_iff, PcBuffer.isEmpty_iff, write, occupied_drain, Nat.sub_self]
  rw [← stream_write bytes irqs, stream, hout, List.append_nil]

end Serial

/-! ## `_write` -/

structure Stdio where
  tar : StdioTarget
  serial : Serial
  /-- The contents of the datagrams sent so far, oldest first. -/
  datagrams : List (List UInt8)

/-- A call of `_write`, and what it finds: the free elements of the pool, the memory and the result
of `udp_send`, or the interrupts of the serial console. -/
structure Call where
  buf : List UInt8
  free : List Nat
  memory : Nat → UInt8
  err : Int8
  irqs : List Nat

def Call.message (base : Nat) (c : Call) : Outcome :=
  sendMessageToDashboard base c.free c.err c.buf c.memory

def write (base : Nat) (s : Stdio) (c : Call) : Nat × Stdio :=
  match s.tar with
  | .udp =>
    let o := c.message base
    (c.buf.length,
      { s with
        tar := if o.ret = -1 then .usbSerial else .udp
        datagrams := s.datagrams ++ o.datagram.toList })
  | .usbSerial => (c.buf.length, { s with serial := s.serial.write c.buf c.irqs })

def step (base : Nat) (s : Stdio) (c : Call) : Stdio := (write base s c).2

/-- The bytes of the call are delivered once: as a message of their own, or at the end of what the
serial console has been given. -/
def Delivered (base : Nat) (s : Stdio) (c : Call) : Prop :=
  (Intact c.buf (c.message base) ∧
    (step base s c).datagrams = s.datagrams ++ [CString.ascii "MSG: " ++ c.buf] ∧
      (step base s c).serial.stream = s.serial.stream) ∨
    ((step base s c).datagrams = s.datagrams ∧
      (step base s c).serial.stream = s.serial.stream ++ c.buf)

/-- A message with bytes that is sent to the dashboard gets a buffer, fits into its first segment
and is sent. -/
def Reaches (s : Stdio) (c : Call) : Prop :=
  s.tar = .udp → c.buf = [] ∨
    (chainLength transport (UInt16.ofNat (c.buf.length + 5)) ≤ c.free.length ∧
      c.buf.length + 5 ≤ poolBufsize - transport ∧ c.err = 0)

section Steps

variable {base : Nat} {s : Stdio} {c : Call}

/-- What happens to the message, in the words of the model without bytes. -/
def Call.result (base : Nat) (c : Call) : SendResult :=
  if pbufAlloc base transport (UInt16.ofNat (c.buf.length + 5)) c.free = none then .noBuffer
  else if c.err ≠ 0 then .failed else .sent

theorem message_eq : (c.message base).ret = (if c.result base = .sent then 0 else -1) ∧
    ((c.message base).datagram = none ↔ c.result base ≠ .sent) := by
  unfold Call.message sendMessageToDashboard Call.result
  cases pbufAlloc base transport (UInt16.ofNat (c.buf.length + 5)) c.free with
  | none => simp
  | some chain =>
    by_cases herr : c.err = 0
    · simp [herr]
    · simp [herr]

theorem result_eq_sent_iff : c.result base = .sent ↔
    chainLength transport (UInt16.ofNat (c.buf.length + 5)) ≤ c.free.length ∧ c.err = 0 := by
  rw [← Nat.not_lt, ← @pbufAlloc_eq_none base, Call.result]
  split
  · rename_i h
    exact ⟨fun hs => (by cases hs), fun hs => absurd h hs.1⟩
  · rename_i h
    split
    · rename_i herr
      exact ⟨fun hs => (by cases hs), fun hs => absurd hs.2 herr⟩
    · rename_i herr
      exact ⟨fun _ => ⟨h, Decidable.not_not.mp herr⟩, fun _ => rfl⟩

/-- Without the bytes, `write` is the `_write` of the reports. -/
theorem tar_step (r : Reports) (hr : r.tar = s.tar) (tick : Nat) :
    (step base s c).tar = (Pod.write r ⟨c.result base, tick⟩).tar := by
  unfold step write Pod.write
  cases htar : s.tar with
  | usbSerial =>
    rw [htar] at hr
    rw [hr]
    exact hr.symm
  | udp =>
    rw [htar] at hr
    rw [hr]
    dsimp only
    rw [(@message_eq base c).1]
    cases c.result base with
    | noBuffer => rfl
    | failed => rfl
    | sent => exact hr.symm

/-- The call returns `count` in every case. -/
theorem write_count : (write base s c).1 = c.buf.length := by
  unfold write
  split <;> rfl

theorem step_udp (h : s.tar = .udp) : step base s c =
    { s with
      tar := if (c.message base).ret = -1 then .usbSerial else .udp
      datagrams := s.datagrams ++ (c.message base).datagram.toList } := by
  unfold step write
  rw [h]

theorem step_serial (h : s.tar = .usbSerial) :
    step base s c = { s with serial := s.serial.write c.buf c.irqs } := by
  unfold step write
  rw [h]

theorem datagram_eq_none (h : s.datagrams ++ (c.message base).datagram.toList = s.datagrams) :
    c.result base ≠ .sent :=
  message_eq.2.mp (Option.toList_eq_nil_iff.mp (List.self_eq_append_right.mp h.symm))

/-- A call that adds no datagram leaves the serial console as the target. -/
theorem tar_of_no_datagram (h : (step base s c).datagrams = s.datagrams) :
    (step base s c).tar = .usbSerial := by
  cases htar : s.tar with
  | usbSerial => rw [step_serial htar, htar]
  | udp =>
    rw [step_udp htar] at h ⊢
    dsimp only
    rw [message_eq.1, if_neg (datagram_eq_none h)]
    rfl

theorem delivered_serial (h : s.tar = .usbSerial) : Delivered base s c := by
  refine .inr ?_
  rw [step_serial h]
  exact ⟨rfl, Serial.stream_write _ _ _⟩

/-- With the dashboard as the target, the serial console gets nothing. -/
theorem delivered_udp_iff (h : s.tar = .udp) : Delivered base s c ↔
    (Intact c.buf (c.message base) ∧ c.result base = .sent) ∨
      (c.buf = [] ∧ c.result base ≠ .sent) := by
  obtain ⟨hret, hnone⟩ := @message_eq base c
  unfold Delivered
  rw [step_udp h]
  dsimp only
  constructor
  · rintro (⟨hintact, hdatagram, -⟩ | ⟨hdatagram, hstream⟩)
    · refine .inl ⟨hintact, ?_⟩
      by_contra hno
      rw [hnone.mpr hno] at hdatagram
      simp at hdatagram
    · exact .inr ⟨List.self_eq_append_right.mp hstream, datagram_eq_none hdatagram⟩
  · rintro (⟨hintact, hsent⟩ | ⟨hbuf, hfailed⟩)
    · rcases hintact.sent with ⟨hno, -⟩ | ⟨-, hdatagram⟩
      · rw [hret, if_pos hsent] at hno
        cases hno
      · exact .inl ⟨hintact, by rw [hdatagram]; rfl, rfl⟩
    · exact .inr ⟨by rw [hnone.mpr hfailed]; simp, by rw [hbuf, List.append_nil]⟩

theorem delivered_iff_reaches : Delivered base s c ↔ Reaches s c := by
  cases htar : s.tar with
  | usbSerial =>
    have hserial := @delivered_serial base s c htar
    exact iff_of_true hserial fun hudp => (by rw [htar] at hudp; cases hudp)
  | udp =>
    have hempty : c.buf = [] → ¬ poolBufsize - transport < c.buf.length + 5 := by
      intro h
      rw [h]
      decide
    rw [delivered_udp_iff htar, Call.message, intact_iff_alloc, Ne, result_eq_sent_iff, Reaches]
    simp only [htar, true_implies, ← Nat.not_lt]
    tauto

end Steps

/-- At first, with the dashboard as the target. -/
def opened (array : Nat → UInt8) : Stdio where
  tar := .udp
  serial := { tx := .init array, line := [], bound := by rw [PcBuffer.occupied_init]; decide }
  datagrams := []

/-- Every call of a run delivers its bytes exactly when every message with bytes that is sent to the
dashboard reaches it. -/
theorem delivered_iff (base : Nat) (array : Nat → UInt8) (cs : List Call) :
    Machine.Always (step base) (Delivered base) (opened array) cs ↔
      Machine.Always (step base) Reaches (opened array) cs :=
  Machine.always_congr_of_forall fun _ _ => delivered_iff_reaches

section Runs

variable {base : Nat} {s : Stdio} {cs : List Call}

/-- There is no way back from the serial console. -/
theorem run_serial (h : s.tar = .usbSerial) :
    (Machine.run (step base) s cs).datagrams = s.datagrams ∧
      (Machine.run (step base) s cs).serial.stream = s.serial.stream ++ cs.flatMap Call.buf := by
  induction cs generalizing s with
  | nil => exact ⟨rfl, by rw [List.flatMap_nil, List.append_nil]; rfl⟩
  | cons c cs ih =>
    have htar : (step base s c).tar = .usbSerial := by
      rw [step_serial h]
      exact h
    obtain ⟨hdatagrams, hstream⟩ := ih htar
    rw [Machine.run_cons, hdatagrams, hstream, step_serial h, List.flatMap_cons,
      ← List.append_assoc, ← Serial.stream_write c.buf c.irqs]
    exact ⟨rfl, rfl⟩

/-- Where every call delivers its bytes, the calls up to the fallback are datagrams in their order,
and the others follow each other on the serial console. -/
theorem delivered_in_order (h : Machine.Always (step base) (Delivered base) s cs) :
    ∃ sent rest, cs = sent ++ rest ∧
      (Machine.run (step base) s cs).datagrams =
        s.datagrams ++ sent.map (fun c => CString.ascii "MSG: " ++ c.buf) ∧
      (Machine.run (step base) s cs).serial.stream =
        s.serial.stream ++ rest.flatMap Call.buf := by
  induction cs generalizing s with
  | nil => exact ⟨[], [], rfl, by simp, by simp⟩
  | cons c cs ih =>
    rcases h.1 with ⟨-, hdatagrams, hstream⟩ | ⟨hdatagrams, hstream⟩
    · obtain ⟨sent, rest, rfl, hall, hserial⟩ := ih h.2
      refine ⟨c :: sent, rest, rfl, ?_, ?_⟩
      · rw [Machine.run_cons, hall, hdatagrams, List.map_cons, List.append_assoc,
          List.singleton_append]
      · rw [Machine.run_cons, hserial, hstream]
    · obtain ⟨hall, hserial⟩ := @run_serial base _ cs (tar_of_no_datagram hdatagrams)
      refine ⟨[], c :: cs, rfl, ?_, ?_⟩
      · rw [Machine.run_cons, hall, hdatagrams, List.map_nil, List.append_nil]
      · rw [Machine.run_cons, hserial, hstream, List.flatMap_cons, List.append_assoc]

end Runs

/-- A call whose datagram is refused returns its count, and its bytes are nowhere. -/
theorem first_message_lost :
    let c : Call := ⟨CString.ascii "hi", [0], fun _ => 0, -4, []⟩
    let s := opened fun _ => 0
    (write 0 s c).1 = 2 ∧ (step 0 s c).tar = .usbSerial ∧ (step 0 s c).datagrams = [] ∧
      (step 0 s c).serial.stream = [] ∧
      ¬ ∀ base array cs, Machine.Always (step base) (Delivered base) (opened array) cs := by
  intro c s
  refine ⟨rfl, by decide +kernel, by decide +kernel, by decide +kernel, fun h => ?_⟩
  have hreaches := delivered_iff_reaches.mp (h 0 (fun _ => 0) [c]).1
  rcases hreaches rfl with hbuf | ⟨-, -, herr⟩
  · cases hbuf
  · exact absurd herr (by decide)

end Fallback
end PodFirmware
