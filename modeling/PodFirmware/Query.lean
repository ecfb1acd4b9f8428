import PodFirmware.Datagram
import PodFirmware.Lib.Machine

/-!
# PodFirmware.Query

`query_Dashboard` and the datagrams that are delivered to `udp_echo_recv` before, while and after it
polls for the response. A datagram with a command may start a query within a query, so the calls
that have not returned form a stack.

* `pollDashboard`: the rest of an iteration behind `lwip_loop_handler`.
* `OwnResponse`: what a return has to satisfy.
* `ownResponse_iff`: a run satisfies it exactly as long as no query message fails to be sent.
-/

namespace PodFirmware
namespace Query

open CString

/-- Where the innermost iteration is: in `lwip_loop_handler` with no datagram yet, in the command
that a datagram brought, or behind a response. -/
inductive Stage where
  | polling | command | answered
  deriving DecidableEq, Repr

/-- A call that has not returned, with its local variables. `responded` records that a response has
been delivered since its start. -/
structure Activation where
  queryStart : UInt32
  lastRetryTick : UInt32 := 0
  stage : Stage := .polling
  responded : Bool := false
  deriving DecidableEq, Repr

structure Queries where
  flags : UInt8 := 0
  calls : List Activation := []
  deriving DecidableEq, Repr

/-- The reads of `ticks` in one iteration, and the outcome of the query message. -/
structure PollIo where
  modTick : UInt32
  cmpTick : UInt32
  setTick : UInt32
  timeoutTick : UInt32
  send : SendResult
  deriving DecidableEq, Repr

inductive Input where
  | call (tick : UInt32)
  | datagram (payload : Memory)
  | poll (io : PollIo)
  deriving DecidableEq, Repr

def due (io : PollIo) (a : Activation) : Bool :=
  (io.modTick - a.queryStart) % 500 = 0 && a.lastRetryTick ≠ io.cmpTick

/-- What `query_Dashboard` returns, if it does, with the flags and its variables. Without a packet
buffer `sendQueryMessage` reports success. -/
def pollDashboard (io : PollIo) (flags : UInt8) (a : Activation) :
    Option Int32 × UInt8 × Activation :=
  if flags &&& dashResponse ≠ 0 then (some 1, flags &&& ~~~(dashResponse ||| outgoingQuery), a)
  else if due io a ∧ io.send = .failed then (some 0, flags, a)
  else
    let a := if due io a then { a with lastRetryTick := io.setTick } else a
    if io.timeoutTick - a.queryStart < 10000 then (none, flags, { a with stage := .polling })
    else (some 0, flags &&& ~~~outgoingQuery, a)

/-- `lwip_loop_handler` delivers one datagram at most. Inputs that cannot happen are ignored. -/
def step (s : Queries) : Input → Queries
  | .call tick =>
    if s.calls.head?.all (·.stage = .command) then
      { flags := s.flags ||| outgoingQuery, calls := { queryStart := tick } :: s.calls }
    else s
  | .datagram payload =>
    match s.calls with
    | [] => if isResponse payload then { s with flags := noteResponse s.flags } else s
    | a :: rest =>
      if a.stage ≠ .polling then s
      else if isResponse payload then
        { flags := noteResponse s.flags
          calls := ({ a with stage := .answered } :: rest).map ({ · with responded := true }) }
      else { s with calls := { a with stage := .command } :: rest }
  | .poll io =>
    match s.calls with
    | [] => s
    | a :: rest =>
      match pollDashboard io s.flags a with
      | (none, flags, a) => { flags := flags, calls := a :: rest }
      | (some _, flags, _) => { flags := flags, calls := rest }

/-- A call that returns with 1 has seen the response itself, and a call that returns leaves neither
flag behind. -/
def OwnResponse (s : Queries) : Input → Prop
  | .poll io =>
    match s.calls with
    | [] => True
    | a :: _ =>
      match (pollDashboard io s.flags a).1 with
      | none => True
      | some result =>
        (result = 1 → a.responded = true) ∧
          (step s (.poll io)).flags &&& outgoingQuery = 0 ∧
            (step s (.poll io)).flags &&& dashResponse = 0
  | _ => True

/-- A query message is due while the query is out, and it cannot be sent. -/
def SendFails (s : Queries) : Input → Prop
  | .poll io =>
    match s.calls with
    | [] => False
    | a :: _ =>
      s.flags &&& dashResponse = 0 ∧ s.flags &&& outgoingQuery ≠ 0 ∧ due io a = true ∧
        io.send = .failed
  | _ => False

/-! ## Flags -/

section Flags

variable (f : UInt8)

theorem clear_both : (f &&& ~~~(dashResponse ||| outgoingQuery)) &&& outgoingQuery = 0 ∧
    (f &&& ~~~(dashResponse ||| outgoingQuery)) &&& dashResponse = 0 := by
  constructor <;> rw [UInt8.and_assoc] <;> exact UInt8.and_zero

theorem clear_outgoing : (f &&& ~~~outgoingQuery) &&& outgoingQuery = 0 ∧
    (f &&& ~~~outgoingQuery) &&& dashResponse = f &&& dashResponse := by
  constructor
  · rw [UInt8.and_assoc]
    exact UInt8.and_zero
  · rw [UInt8.and_assoc]
    rfl

theorem set_outgoing : (f ||| outgoingQuery) &&& dashResponse = f &&& dashResponse := by
  have h : (f ||| outgoingQuery) &&& dashResponse =
      f &&& dashResponse ||| outgoingQuery &&& dashResponse :=
    UInt8.toBitVec_inj.mp BitVec.and_or_distrib_right
  rw [h]
  exact UInt8.or_zero

theorem noteResponse_of_idle {f : UInt8} (h : f &&& outgoingQuery = 0) : noteResponse f = f := by
  simp [noteResponse, h]

end Flags

/-! ## Steps -/

/-- A response is on record only for the innermost call, and only until it looks; no query is out
when none is in progress. -/
structure Inv (s : Queries) : Prop where
  response : s.flags &&& dashResponse ≠ 0 →
    ∃ a rest, s.calls = a :: rest ∧ a.stage = .answered ∧ a.responded = true
  idle : s.calls = [] → s.flags &&& outgoingQuery = 0

variable {s : Queries}

theorem Inv.quiet (h : Inv s) {a : Activation} {rest : List Activation} (hs : s.calls = a :: rest)
    (ha : a.stage ≠ .answered) : s.flags &&& dashResponse = 0 := by
  by_contra hd
  obtain ⟨a', rest', hs', hstage, -⟩ := h.response hd
  rw [hs] at hs'
  cases hs'
  exact ha hstage

theorem Inv.call (h : Inv s) (tick : UInt32) : Inv (step s (.call tick)) := by
  simp only [step]
  split
  · next hstage =>
    have hquiet : s.flags &&& dashResponse = 0 := by
      cases hs : s.calls with
      | nil =>
        by_contra hd
        obtain ⟨a, rest, hs', -⟩ := h.response hd
        rw [hs] at hs'
        cases hs'
      | cons a rest =>
        refine h.quiet hs ?_
        rw [hs] at hstage
        have : a.stage = .command := by simpa using hstage
        rw [this]
        decide
    constructor
    · intro hd
      rw [set_outgoing] at hd
      exact absurd hquiet hd
    · intro hs
      cases hs
  · exact h

theorem Inv.datagram (h : Inv s) (payload : Memory) : Inv (step s (.datagram payload)) := by
  simp only [step]
  split
  · next hs =>
    split
    · rw [noteResponse_of_idle (h.idle hs)]
      exact h
    · exact h
  · next a rest hs =>
    split
    · exact h
    · next hstage =>
      have hpolling : a.stage = .polling := not_not.mp hstage
      split
      · constructor
        · intro _
          exact ⟨_, _, rfl, rfl, rfl⟩
        · intro hnil
          cases hnil
      · constructor
        · intro hd
          exact absurd (h.quiet hs (by rw [hpolling]; decide)) hd
        · intro hnil
          cases hnil

/-- The exits of an iteration. -/
theorem pollDashboard_cases (io : PollIo) (flags : UInt8) (a : Activation) :
    (flags &&& dashResponse ≠ 0 ∧
      pollDashboard io flags a = (some 1, flags &&& ~~~(dashResponse ||| outgoingQuery), a)) ∨
    (flags &&& dashResponse = 0 ∧ (due io a = true ∧ io.send = .failed) ∧
      pollDashboard io flags a = (some 0, flags, a)) ∨
    (flags &&& dashResponse = 0 ∧ ¬(due io a = true ∧ io.send = .failed) ∧
      ∃ b, pollDashboard io flags a = (none, flags, b) ∨
        pollDashboard io flags a = (some 0, flags &&& ~~~outgoingQuery, b)) := by
  unfold pollDashboard
  by_cases hd : flags &&& dashResponse = 0
  · rw [if_neg (not_not.mpr hd)]
    by_cases hfail : due io a = true ∧ io.send = .failed
    · rw [if_pos hfail]
      exact .inr (.inl ⟨hd, hfail, rfl⟩)
    · rw [if_neg hfail]
      refine .inr (.inr ⟨hd, hfail, ?_⟩)
      by_cases ht : io.timeoutTick - a.queryStart < 10000
      · cases due io a <;> exact ⟨_, .inl (if_pos ht)⟩
      · cases due io a <;> exact ⟨_, .inr (if_neg ht)⟩
  · rw [if_pos hd]
    exact .inl ⟨hd, rfl⟩

theorem Inv.poll (h : Inv s) (io : PollIo) (hsend : ¬SendFails s (.poll io)) :
    Inv (step s (.poll io)) := by
  simp only [step]
  simp only [SendFails] at hsend
  split
  · exact h
  · next a rest hs =>
    rw [hs] at hsend
    rcases pollDashboard_cases io s.flags a with
      ⟨-, hpoll⟩ | ⟨hd, hfail, hpoll⟩ | ⟨hd, -, b, hpoll | hpoll⟩ <;> rw [hpoll]
    · obtain ⟨ho, hd⟩ := clear_both s.flags
      exact ⟨fun hd' => absurd hd hd', fun _ => ho⟩
    · refine ⟨fun hd' => absurd hd hd', fun _ => ?_⟩
      by_contra ho
      exact hsend ⟨hd, ho, hfail⟩
    · exact ⟨fun hd' => absurd hd hd', fun hnil => by cases hnil⟩
    · obtain ⟨ho, hkeep⟩ := clear_outgoing s.flags
      exact ⟨fun hd' => absurd (hkeep.trans hd) hd', fun _ => ho⟩

theorem inv_step (s : Queries) (i : Input) (h : Inv s) (hsend : ¬SendFails s i) :
    Inv (step s i) := by
  cases i with
  | call tick => exact h.call tick
  | datagram payload => exact h.datagram payload
  | poll io => exact h.poll io hsend

theorem ownResponse_iff_of_inv (s : Queries) (i : Input) (h : Inv s) :
    OwnResponse s i ↔ ¬SendFails s i := by
  cases i with
  | call tick => simp [OwnResponse, SendFails]
  | datagram payload => simp [OwnResponse, SendFails]
  | poll io =>
    cases hs : s.calls with
    | nil => simp [OwnResponse, SendFails, hs]
    | cons a rest =>
      simp only [OwnResponse, SendFails, step, hs]
      rcases pollDashboard_cases io s.flags a with
        ⟨hd, hpoll⟩ | ⟨hd, hfail, hpoll⟩ | ⟨hd, hfail, b, hpoll | hpoll⟩ <;> rw [hpoll]
      · obtain ⟨a', rest', hs', -, hresponded⟩ := h.response hd
        rw [hs] at hs'
        cases hs'
        exact iff_of_true ⟨fun _ => hresponded, clear_both s.flags⟩ fun hsend => hd hsend.1
      · simp [hd, hfail]
      · exact iff_of_true trivial fun hsend => hfail hsend.2.2
      · obtain ⟨ho, hkeep⟩ := clear_outgoing s.flags
        exact iff_of_true ⟨by simp, ho, hkeep.trans hd⟩ fun hsend => hfail hsend.2.2

/-- In every run, each return of `query_Dashboard` is due to its own response and leaves no flag
behind exactly as long as no query message fails to be sent while the query is out. -/
theorem ownResponse_iff (is : List Input) :
    Machine.Always step OwnResponse {} is ↔ Machine.Always step (fun s i => ¬SendFails s i) {} is :=
  Machine.always_iff_of_kept inv_step ownResponse_iff_of_inv
    ⟨fun hd => absurd rfl hd, fun _ => rfl⟩

/-- A query message fails, the response to an earlier one arrives late, and the next query takes it
for its own. -/
def lateResponse : List Input :=
  [.call 500, .poll ⟨500, 500, 500, 500, .failed⟩, .datagram (ascii "new phone who dis")]

theorem stale_response :
    let s := Machine.run step {} (lateResponse ++ [.call 2000])
    s.calls = [{ queryStart := 2000 }] ∧
      (∀ io, (pollDashboard io s.flags { queryStart := 2000 }).1 = some 1) ∧
      ¬∀ is, Machine.Always step OwnResponse {} is := by
  refine ⟨by decide, fun io => ?_, fun h => ?_⟩
  · have hflags : (Machine.run step {} (lateResponse ++ [.call 2000])).flags = 3 := by decide
    rw [hflags]
    rfl
  · have hreturn := (h lateResponse).2.1
    have hflags : (Machine.run step {} (lateResponse.take 2)).flags &&& outgoingQuery = 0 :=
      hreturn.2.1
    revert hflags
    decide

end Query
end PodFirmware
