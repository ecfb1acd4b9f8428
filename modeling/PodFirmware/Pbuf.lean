import PodFirmware.Datagram
import PodFirmware.Lib.Machine
import PodFirmware.Lib.Pool

/-!
# PodFirmware.Pbuf

The packet buffers that the controller takes from the pool of the network stack. Each sending
function allocates one and frees it; the receive callback owns the one it is called with. A command
that the callback runs may send in its turn or poll for another datagram, so the callbacks that have
not returned form a stack. `query_Dashboard` itself holds no buffer: it sends and receives.

* `sendFrame`: the life of a buffer in a sending function.
* `step`: a function sends, a datagram arrives, a callback returns.
* `freedOnce_iff`: every buffer is freed once, and the pool is full whenever no callback is in
  progress, exactly as long as no response to a query arrives.
-/

namespace PodFirmware
namespace Pbuf

/-! ## The code -/

def poolSize : Nat := 5
def poolBufsize : Nat := 592

/-- `PBUF_TRANSPORT`, with its headers rounded up to words. -/
def transport : Nat := 56

/-- The elements in the chain that `pbuf_alloc` makes. -/
def chainLength (offset : Nat) (length : UInt16) : Nat :=
  1 + (length.toNat - (poolBufsize - offset) + (poolBufsize - 1)) / poolBufsize

/-- What the sending functions have in common: `err` is what `udp_send` returns. -/
def sendFrame (length : UInt16) (err : Int8) (p : Pool) : Int32 × Pool :=
  match p.alloc (chainLength transport length) with
  | none => (-1, p)
  | some (b, p) => (if err ≠ 0 then -1 else 0, p.release b)

def sendTelemetryToSpaceX (err : Int8) (p : Pool) : Int32 × Pool := sendFrame 34 err p

def sendTelemetryToDashboard (err : Int8) (p : Pool) : Int32 × Pool := sendFrame 59 err p

def sendMessageToDashboard (length : Int32) (err : Int8) (p : Pool) : Int32 × Pool :=
  sendFrame (length + 5).toUInt32.toUInt16 err p

/-- The message is `MSG: dashboard?`. -/
def sendQueryMessage (err : Int8) (p : Pool) : Int8 × Pool :=
  match p.alloc (chainLength transport 15) with
  | none => (0, p)
  | some (b, p) => (err, p.release b)

inductive Sender where
  | spacex
  | dashboard
  | message (length : Int32)
  | query
  deriving DecidableEq, Repr

def Sender.length : Sender → UInt16
  | .spacex => 34
  | .dashboard => 59
  | .message length => (length + 5).toUInt32.toUInt16
  | .query => 15

def Sender.send (f : Sender) (err : Int8) (p : Pool) : Pool :=
  match f with
  | .spacex => (sendTelemetryToSpaceX err p).2
  | .dashboard => (sendTelemetryToDashboard err p).2
  | .message length => (sendMessageToDashboard length err p).2
  | .query => (sendQueryMessage err p).2

/-! ## Runs -/

/-- `callbacks` are the buffers that the callbacks in progress were called with. -/
structure Traffic where
  pool : Pool := { free := poolSize }
  callbacks : List Nat := []
  deriving DecidableEq, Repr

inductive Input where
  | send (f : Sender) (err : Int8)
  | datagram (frame : UInt16) (payload : Memory)
  | finish

/-- The driver takes a buffer for the frame, or drops it. `udp_echo_recv` returns at once from a
response; otherwise it frees the buffer when the command has been run. -/
def step (s : Traffic) : Input → Traffic
  | .send f err => { s with pool := f.send err s.pool }
  | .datagram frame payload =>
    match s.pool.alloc (chainLength 0 frame) with
    | none => s
    | some (b, pool) =>
      if isResponse payload then { s with pool := pool }
      else { pool := pool, callbacks := b :: s.callbacks }
  | .finish =>
    match s.callbacks with
    | [] => s
    | b :: rest => { pool := s.pool.release b, callbacks := rest }

/-- The buffer of the function that returns in the step. -/
def returning (s : Traffic) : Input → Option Nat
  | .send f _ => (s.pool.alloc (chainLength transport f.length)).map (·.1)
  | .datagram frame payload =>
    if isResponse payload then (s.pool.alloc (chainLength 0 frame)).map (·.1) else none
  | .finish => s.callbacks.head?

def FreedOnce (s : Traffic) (i : Input) : Prop :=
  (∀ b, returning s i = some b → (step s i).pool.freed.count b = 1) ∧
    ((step s i).callbacks = [] → (step s i).pool.free = poolSize)

/-- A response to a query arrives, and there is a buffer for it. -/
def Leaks (s : Traffic) : Input → Prop
  | .datagram frame payload => isResponse payload = true ∧ chainLength 0 frame ≤ s.pool.free
  | _ => False

/-! ## Steps -/

theorem send_eq (f : Sender) (err : Int8) (p : Pool) :
    f.send err p =
      match p.alloc (chainLength transport f.length) with
      | none => p
      | some (b, q) => q.release b := by
  cases f <;> simp only [Sender.send, sendTelemetryToSpaceX, sendTelemetryToDashboard,
    sendMessageToDashboard, sendQueryMessage, sendFrame, Sender.length] <;> split <;> rfl

/-- The buffers that are out are those of the callbacks in progress. -/
structure Inv (s : Traffic) : Prop where
  valid : s.pool.Valid poolSize
  buffers : s.pool.buffers = s.callbacks

variable {s : Traffic}

theorem Inv.full (h : Inv s) (hs : s.callbacks = []) : s.pool.free = poolSize := by
  have hheld : s.pool.held = [] := List.map_eq_nil_iff.mp (h.buffers.trans hs)
  simpa [hheld] using h.valid.total

theorem Inv.send (h : Inv s) (f : Sender) (err : Int8) :
    Inv (step s (.send f err)) ∧ FreedOnce s (.send f err) := by
  have hstep : Inv (step s (.send f err)) := by
    simp only [step, send_eq]
    split
    · exact h
    · next b q ha =>
      have hheld := (Pool.release_alloc ha).2
      refine ⟨?_, ?_⟩
      · obtain ⟨-, -, rfl⟩ := Pool.alloc_eq_some ha
        exact (h.valid.alloc ha).release rfl
      · rw [Pool.buffers, hheld]
        exact h.buffers
  refine ⟨hstep, fun b hb => ?_, hstep.full⟩
  obtain ⟨⟨b', q⟩, ha, rfl⟩ := Option.map_eq_some_iff.mp hb
  refine hstep.valid.count_of_freed ?_
  simp only [step, send_eq, ha, Pool.release]
  exact List.mem_cons_self ..

theorem Inv.finish (h : Inv s) : Inv (step s .finish) ∧ FreedOnce s .finish := by
  cases hs : s.callbacks with
  | nil =>
    have hstep : step s .finish = s := by simp only [step, hs]
    rw [FreedOnce, hstep]
    refine ⟨h, fun b hb => ?_, h.full⟩
    simp [returning, hs] at hb
  | cons b rest =>
    obtain ⟨⟨b', n⟩, held, hheld, rfl, hrest⟩ := List.map_eq_cons_iff.mp (h.buffers.trans hs)
    have hstep : Inv (step s .finish) := by
      simp only [step, hs]
      refine ⟨h.valid.release hheld, ?_⟩
      rw [Pool.release_of_held hheld]
      exact hrest
    refine ⟨hstep, fun c hc => ?_, hstep.full⟩
    refine hstep.valid.count_of_freed ?_
    simp only [returning, hs, List.head?_cons, Option.some.injEq] at hc
    simp only [step, hs, Pool.release, hc]
    exact List.mem_cons_self ..

theorem Inv.datagram (h : Inv s) {frame : UInt16} {payload : Memory}
    (hleak : ¬Leaks s (.datagram frame payload)) :
    Inv (step s (.datagram frame payload)) ∧ FreedOnce s (.datagram frame payload) := by
  cases ha : s.pool.alloc (chainLength 0 frame) with
  | none =>
    have hstep : step s (.datagram frame payload) = s := by simp only [step, ha]
    rw [FreedOnce, hstep]
    refine ⟨h, fun b hb => ?_, h.full⟩
    simp [returning, ha] at hb
  | some r =>
    obtain ⟨b, q⟩ := r
    have hcommand : isResponse payload = false := by
      by_contra hresponse
      exact hleak ⟨by simpa using hresponse, (Pool.alloc_eq_some ha).1⟩
    have hbuffers : q.buffers = b :: s.callbacks := by
      obtain ⟨-, rfl, rfl⟩ := Pool.alloc_eq_some ha
      exact congrArg (s.pool.next :: ·) h.buffers
    simp only [FreedOnce, step, returning, ha, hcommand, Bool.false_eq_true, if_false]
    refine ⟨⟨h.valid.alloc ha, hbuffers⟩, ?_, ?_⟩
    · intro c hc
      cases hc
    · intro hnil
      cases hnil

/-- A response leaves `udp_echo_recv` with its buffer still out. -/
theorem Inv.not_freedOnce (h : Inv s) {i : Input} (hleak : Leaks s i) : ¬FreedOnce s i := by
  cases i with
  | send f err => exact hleak.elim
  | finish => exact hleak.elim
  | datagram frame payload =>
    obtain ⟨hresponse, hfits⟩ := hleak
    have ha : s.pool.alloc (chainLength 0 frame) = some (s.pool.next, _) := if_pos hfits
    intro hfreed
    have hcount := hfreed.1 s.pool.next (by simp [returning, hresponse, ha])
    have hheld := (h.valid.alloc ha).count_of_held (List.mem_cons_self ..)
    simp only [step, ha, hresponse, if_true] at hcount
    exact absurd (hheld.symm.trans hcount) Nat.zero_ne_one

theorem inv_step (s : Traffic) (i : Input) (h : Inv s) (hleak : ¬Leaks s i) : Inv (step s i) := by
  cases i with
  | send f err => exact (h.send f err).1
  | datagram frame payload => exact (h.datagram hleak).1
  | finish => exact h.finish.1

theorem freedOnce_iff_of_inv (s : Traffic) (i : Input) (h : Inv s) :
    FreedOnce s i ↔ ¬Leaks s i := by
  refine ⟨fun hfreed hleak => h.not_freedOnce hleak hfreed, fun hleak => ?_⟩
  cases i with
  | send f err => exact (h.send f err).2
  | datagram frame payload => exact (h.datagram hleak).2
  | finish => exact h.finish.2

/-- In every run each buffer is freed exactly once by the time the function that owns it returns,
and all are back between two iterations of the main loop, exactly as long as no response to a query
arrives. -/
theorem freedOnce_iff (is : List Input) :
    Machine.Always step FreedOnce {} is ↔ Machine.Always step (fun s i => ¬Leaks s i) {} is :=
  Machine.always_iff_of_kept inv_step freedOnce_iff_of_inv
    ⟨⟨rfl, fun b hb => by simp [Pool.buffers] at hb, List.nodup_nil⟩, rfl⟩

/-- Five responses, each in a frame of 60 bytes, empty the pool; no frame of telemetry gets a buffer
after that. -/
theorem responses_empty_pool :
    let responses := List.replicate 5 (Input.datagram 60 (CString.ascii "new phone who dis"))
    (Machine.run step {} responses).callbacks = [] ∧ (Machine.run step {} responses).pool.free = 0 ∧
      (sendTelemetryToSpaceX 0 (Machine.run step {} responses).pool).1 = -1 ∧
      ¬∀ is, Machine.Always step FreedOnce {} is := by
  refine ⟨by decide, by decide, by decide, fun h => ?_⟩
  have hfirst := (h [.datagram 60 (CString.ascii "new phone who dis")]).1.2 (by decide)
  revert hfirst
  decide

end Pbuf
end PodFirmware
