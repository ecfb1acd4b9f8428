import Mathlib.Data.List.Count
import Mathlib.Data.List.Induction
import PodFirmware.Occupancy

/-!
# PodFirmware.Messages

`message_available` is to count the line ends in `usart3_rx`. The interrupt handler counts them as
they come in and `pc_buffer_getMessage` as it takes them out, each by its own notion of the previous
character; and there are ways into and out of the ring that do not count.

* `recognised`: the messages that `pc_buffer_getMessage` would find in a queue.
* `MessageLaw`: after a step the counter is exact, and a message that was announced is found.
* `Drifts`: the steps after which it is not, told by the state they start in.
* `messageLaw_run_iff`: as long as `usart3_rx` is not overrun, the law holds in every step of a run
  exactly when no step drifts.
-/

namespace PodFirmware
namespace Console

def isTerm (c : UInt8) : Bool := c == 10 || c == 13

/-- The messages that calls of `pc_buffer_getMessage` would find; each starts with no previous
character. -/
def recognised (prev : UInt8) : List UInt8 → Nat
  | [] => 0
  | c :: q => if newlineGuard prev c then recognised 0 q + 1 else recognised c q

/-- The message whose end has been taken out and not yet been subtracted. -/
def inFlight (s : Console) : Nat :=
  match s.todo with
  | .getStore _ prev curr :: _ => if newlineGuard prev curr then 1 else 0
  | .getGuard _ prev curr :: _ => if newlineGuard prev curr then 1 else 0
  | _ => 0

def Exact (s : Console) : Prop :=
  s.rx.messageAvailable.toNat = recognised 0 s.rx.unread + s.inFlight

/-- The loop of `pc_buffer_getMessage` ends without a line end. -/
def RunsOff (s : Console) : Input → Prop
  | .main _ =>
    match s.todo with
    | .getLoop index _ :: _ => ¬ (index < usartBuf ∧ s.rx.isEmpty = false)
    | _ => False
  | _ => False

def MessageLaw (s : Console) (i : Input) : Prop := Exact (step s i) ∧ ¬ RunsOff s i

def Drifts (s : Console) : Input → Prop
  | .rx c =>
    (c = 0x08 ∨ c = 0x7F) ∧ s.rx.unread.getLast?.any isTerm = true ∨
      s.accepts c ∧
        if newlineGuard s.curr c then s.rx.isFull = true
        else isTerm c = true ∧ s.rx.isFull = false
  | .main _ =>
    match s.todo with
    | .removeRx :: _ => s.rx.unread.head?.any isTerm = true
    | _ => False
  | _ => False

/-- A history recall adds to a full `usart3_rx`, or a character is discarded from an empty one. -/
def RxOverruns (s : Console) : Input → Prop
  | .main _ =>
    match s.todo with
    | .recallAdd _ :: _ => s.rx.isFull = true
    | .removeRx :: _ => s.rx.isEmpty = true
    | _ => False
  | _ => False

instance (s : Console) (i : Input) : Decidable (Drifts s i) := by
  unfold Drifts
  split
  · infer_instance
  · split <;> infer_instance
  · infer_instance

instance (s : Console) (i : Input) : Decidable (RxOverruns s i) := by
  unfold RxOverruns
  split
  · split <;> infer_instance
  · infer_instance

/-! ## Line ends -/

theorem newlineGuard_eq {prev : UInt8} (h : isTerm prev = false) (c : UInt8) :
    newlineGuard prev c = isTerm c := by
  simp only [isTerm, Bool.or_eq_false_iff, beq_eq_false_iff_ne] at h
  rw [newlineGuard, bne_iff_ne.mpr h.1, bne_iff_ne.mpr h.2, Bool.and_true, Bool.and_true, isTerm]

theorem isTerm_of_newlineGuard {prev c : UInt8} (h : newlineGuard prev c = true) :
    isTerm c = true := by
  simp only [newlineGuard, Bool.or_eq_true, Bool.and_eq_true] at h
  rw [isTerm, Bool.or_eq_true]
  exact h.imp And.left And.left

theorem recognised_eq {prev : UInt8} (h : isTerm prev = false) (q : List UInt8) :
    recognised prev q = q.countP isTerm := by
  induction q generalizing prev with
  | nil => rfl
  | cons c q ih =>
    rw [recognised, newlineGuard_eq h, List.countP_cons]
    cases hc : isTerm c with
    | true => rw [if_pos rfl, if_pos rfl, ih (by decide)]
    | false => rw [if_neg (by simp), if_neg (by simp), ih hc, Nat.add_zero]

theorem exact_iff {s : Console} :
    s.Exact ↔ s.rx.messageAvailable.toNat = s.rx.unread.countP isTerm + s.inFlight := by
  rw [Exact, recognised_eq (by decide)]

/-- A line end comes up before the index of the message buffer reaches its bound. -/
def Ahead (index : Nat) (q : List UInt8) : Prop :=
  ∃ pre c post, q = pre ++ c :: post ∧ isTerm c = true ∧ index + pre.length < 128

namespace Ahead

variable {index : Nat} {q : List UInt8} {c : UInt8}

theorem append (h : Ahead index q) (c : UInt8) : Ahead index (q ++ [c]) := by
  obtain ⟨pre, x, post, rfl, hx, hlt⟩ := h
  exact ⟨pre, x, post ++ [c], by simp, hx, hlt⟩

theorem dropLast (h : Ahead index q) (hq : q.getLast?.any isTerm = false) :
    Ahead index q.dropLast := by
  obtain ⟨pre, x, post, rfl, hx, hlt⟩ := h
  cases post using List.reverseRecOn with
  | nil => simp [hx] at hq
  | append_singleton post y =>
    refine ⟨pre, x, post, ?_, hx, hlt⟩
    rw [← List.cons_append, ← List.append_assoc, List.dropLast_concat]

theorem tail (h : Ahead index (c :: q)) (hc : isTerm c = false) : Ahead (index + 1) q := by
  obtain ⟨pre, x, post, he, hx, hlt⟩ := h
  cases pre with
  | nil =>
    obtain ⟨rfl, -⟩ := List.cons.inj he
    rw [hc] at hx
    cases hx
  | cons y pre =>
    obtain ⟨-, rfl⟩ := List.cons.inj he
    rw [List.length_cons] at hlt
    exact ⟨pre, x, post, rfl, hx, by omega⟩

theorem lt (h : Ahead index q) : index < 128 ∧ q ≠ [] := by
  obtain ⟨pre, x, post, rfl, -, hlt⟩ := h
  exact ⟨by omega, by simp⟩

theorem of_count (hq : q.length ≤ 128) (h : 0 < q.countP isTerm) : Ahead 0 q := by
  obtain ⟨c, hmem, hc⟩ := List.countP_pos_iff.mp h
  obtain ⟨pre, post, rfl⟩ := List.append_of_mem hmem
  rw [List.length_append, List.length_cons] at hq
  exact ⟨pre, c, post, rfl, hc, by omega⟩

end Ahead

theorem countP_dropLast {q : List UInt8} (h : q ≠ []) :
    q.countP isTerm = q.dropLast.countP isTerm + if q.getLast?.any isTerm then 1 else 0 := by
  obtain ⟨init, x, rfl⟩ : ∃ init x, q = init ++ [x] :=
    ⟨_, _, (List.dropLast_concat_getLast h).symm⟩
  rw [List.countP_append, List.dropLast_concat, List.getLast?_concat, List.countP_singleton]
  rfl

/-! ## The statements of `pc_buffer_getMessage` -/

def Stmt.isGet : Stmt → Bool
  | .getMessage => true
  | .getLoop _ _ => true
  | .getRemove _ _ => true
  | .getStore _ _ _ => true
  | .getGuard _ _ _ => true
  | _ => false

/-- Before each statement of `pc_buffer_getMessage`, the line end that it looks for is in the queue
`q`, within the bound of its loop, or has just been taken out. -/
def Stmt.Ready (q : List UInt8) : Stmt → Prop
  | .getMessage => Ahead 0 q
  | .getLoop index curr => isTerm curr = false ∧ Ahead index q
  | .getRemove index prev => isTerm prev = false ∧ Ahead index q
  | .getStore index prev curr =>
    isTerm prev = false ∧ (isTerm curr = false → Ahead (index + 1) q)
  | .getGuard index prev curr => isTerm prev = false ∧ (isTerm curr = false → Ahead index q)
  | _ => True

theorem Stmt.Ready.imp {st : Stmt} {q q' : List UInt8} (h : st.Ready q)
    (hq : ∀ index, Ahead index q → Ahead index q') : st.Ready q' := by
  cases st with
  | getMessage => exact hq _ h
  | getLoop index curr => exact ⟨h.1, hq _ h.2⟩
  | getRemove index prev => exact ⟨h.1, hq _ h.2⟩
  | getStore index prev curr => exact ⟨h.1, fun hc => hq _ (h.2 hc)⟩
  | getGuard index prev curr => exact ⟨h.1, fun hc => hq _ (h.2 hc)⟩
  | _ => trivial

theorem Stmt.ready_of_not_isGet {st : Stmt} (h : st.isGet = false) (q : List UInt8) :
    st.Ready q := by
  cases st <;> trivial

def NoGet (todo : List Stmt) : Prop := ∀ st ∈ todo, st.isGet = false

theorem NoGet.append {l l' : List Stmt} (h : NoGet l) (h' : NoGet l') : NoGet (l ++ l') := by
  intro st hst
  exact (List.mem_append.mp hst).elim (h st) (h' st)

theorem noGet_writes (out : List (List UInt8)) : NoGet (out.map .write) := by
  intro st hst
  obtain ⟨bytes, -, rfl⟩ := List.mem_map.mp hst
  rfl

theorem mem_writeLoop {bytes : List UInt8} {st : Stmt} (h : st ∈ writeLoop bytes) :
    st = .guardTx ∨ (∃ c, st = .addTx c) ∨ st = .enableTxe ∨ st = .drainTx := by
  rw [writeLoop, List.mem_append, List.mem_flatMap] at h
  obtain ⟨c, -, hc⟩ | htail := h
  · obtain rfl | rfl : st = .guardTx ∨ st = .addTx c := by simpa using hc
    · exact .inl rfl
    · exact .inr (.inl ⟨c, rfl⟩)
  · exact .inr (.inr (by simpa using htail))

theorem noGet_writeLoop (bytes : List UInt8) : NoGet (writeLoop bytes) := by
  intro st hst
  obtain rfl | ⟨c, rfl⟩ | rfl | rfl := mem_writeLoop hst <;> rfl

theorem noGet_stmts (c : Call) : NoGet c.stmts := by
  intro st hst
  cases c with
  | checkInput =>
    rw [List.mem_singleton.mp hst]
    rfl
  | write bytes =>
    rw [List.mem_singleton.mp hst]
    rfl
  | read count =>
    rw [Call.stmts, readLoop, List.mem_flatten] at hst
    obtain ⟨l, hl, hst⟩ := hst
    rw [(List.mem_replicate.mp hl).2] at hst
    obtain rfl | rfl : st = .awaitRx ∨ st = .removeRx := by simpa using hst
    all_goals rfl

theorem inFlight_of_noGet {s : Console} (h : NoGet s.todo) : s.inFlight = 0 := by
  unfold inFlight
  split
  · rename_i hs
    rw [hs] at h
    cases h _ (List.mem_cons_self ..)
  · rename_i hs
    rw [hs] at h
    cases h _ (List.mem_cons_self ..)
  · rfl

/-- The counter is exact, and what is left of `pc_buffer_getMessage`, if anything, comes first. -/
structure Counted (s : Console) : Prop where
  sound : s.rx.occupied ≤ 128
  /-- The last message, which a history recall puts back, has no line end in it. -/
  buffer : ∀ k, isTerm (s.buffer k) = false
  ready : ∀ st ∈ s.todo.head?, st.Ready s.rx.unread
  tail : NoGet s.todo.tail
  exact : s.Exact

theorem Counted.of_noGet {s : Console} (sound : s.rx.occupied ≤ 128)
    (buffer : ∀ k, isTerm (s.buffer k) = false) (h : NoGet s.todo)
    (count : s.rx.messageAvailable.toNat = s.rx.unread.countP isTerm) : Counted s where
  sound := sound
  buffer := buffer
  ready st hst := Stmt.ready_of_not_isGet (h st (List.mem_of_mem_head? hst)) _
  tail st hst := h st (List.mem_of_mem_tail hst)
  exact := by
    rw [exact_iff, inFlight_of_noGet h]
    exact count

theorem counted_boot (tx rx : Nat → UInt8) : Counted (boot tx rx) := by
  have hocc : (boot tx rx).rx.occupied = 0 := PcBuffer.occupied_init rx
  have hnil : (boot tx rx).rx.unread = [] := by
    rw [PcBuffer.unread_eq_nil_iff, PcBuffer.isEmpty_iff, hocc]
  refine .of_noGet (by omega) (fun _ => rfl) (fun st hst => by cases hst) ?_
  rw [hnil]
  rfl

/-! ## Received characters -/

/-- What belongs to the main loop. -/
def mainLoop (s : Console) : List Stmt × (Nat → UInt8) × Bool × List (List UInt8) :=
  (s.todo, s.buffer, s.swapReady, s.commands)

theorem mainLoop_echo (s : Console) (c : UInt8) : (s.echo c).mainLoop = s.mainLoop := by
  unfold echo
  split <;> rfl

theorem mainLoop_backspaceIrq (s : Console) (c : UInt8) :
    (s.backspaceIrq c).mainLoop = s.mainLoop := by
  have hecho := (mainLoop_echo ({ s with rx := s.rx.unproduce }.echo c) 32).trans
    (mainLoop_echo { s with rx := s.rx.unproduce } c)
  unfold backspaceIrq
  split
  · rfl
  · generalize ({ s with rx := s.rx.unproduce }.echo c).echo 32 = t at hecho
    dsimp only
    split <;> exact hecho

theorem mainLoop_rxIrq (s : Console) (c : UInt8) : (s.rxIrq c).mainLoop = s.mainLoop := by
  unfold rxIrq
  dsimp only
  split
  · exact mainLoop_backspaceIrq _ c
  · split
    · rfl
    · split
      · rfl
      · split
        · unfold acceptIrq
          dsimp only
          split <;> rfl
        · rfl

theorem rx_backspaceIrq (s : Console) (c : UInt8) :
    (s.backspaceIrq c).rx = if s.rx.isEmpty then s.rx else s.rx.unproduce := by
  have hecho : (({ s with rx := s.rx.unproduce }.echo c).echo 32).rx = s.rx.unproduce := by
    rw [rx_echo, rx_echo]
  unfold backspaceIrq
  split
  · rfl
  · dsimp only
    split <;> exact hecho

section Rx

variable {s : Console} {c : UInt8}

theorem rx_rxIrq_of_backspace (h : c = 0x08 ∨ c = 0x7F) :
    (s.rxIrq c).rx = if s.rx.isEmpty then s.rx else s.rx.unproduce := by
  unfold rxIrq
  dsimp only
  rw [if_pos h]
  exact rx_backspaceIrq _ c

/-- What is neither a backspace nor accepted is part of an escape sequence. -/
theorem rx_rxIrq_of_escape (hback : ¬ (c = 0x08 ∨ c = 0x7F)) (h : ¬ s.accepts c) :
    (s.rxIrq c).rx = s.rx := by
  unfold rxIrq
  dsimp only
  rw [if_neg hback]
  split
  · rfl
  · split
    · rfl
    · split
      · rename_i hacc
        rw [not_or] at hback
        exact absurd ⟨hback.1, hback.2, fun he => hacc.1.2 he.1, hacc⟩ h
      · rfl

theorem rxIrq_of_accepts (h : s.accepts c) :
    s.rxIrq c = acceptIrq { s with prev2 := s.prev, prev := s.curr, curr := c } s.curr c := by
  obtain ⟨h8, h7f, -, hacc⟩ := h
  unfold rxIrq
  dsimp only
  rw [if_neg (not_or.mpr ⟨h8, h7f⟩), if_neg fun hup => hacc.1.2 hup.1,
    if_neg fun hdown => hacc.1.2 hdown.1, if_pos hacc]

theorem ring_rxIrq (h : s.accepts c) :
    (s.rxIrq c).rx.ring = if s.rx.isFull then s.rx.ring else (s.rx.add c).ring := by
  rw [rxIrq_of_accepts h]
  exact ring_acceptIrq _ _ c

theorem messageAvailable_rxIrq (h : s.accepts c) : (s.rxIrq c).rx.messageAvailable =
    if newlineGuard s.curr c then s.rx.messageAvailable + 1 else s.rx.messageAvailable := by
  have hkept (b : PcBuffer) :
      (if b.isFull then b else b.add c).messageAvailable = b.messageAvailable := by
    split <;> rfl
  rw [rxIrq_of_accepts h, rx_acceptIrq]
  dsimp only
  rw [hkept]
  split <;> rfl

end Rx

section Received

variable {s s' : Console} {c : UInt8}

theorem inFlight_congr (h : s'.todo = s.todo) : s'.inFlight = s.inFlight := by
  rw [inFlight, inFlight, h]

theorem inFlight_le (s : Console) : s.inFlight ≤ 1 := by
  unfold inFlight
  split
  · split <;> omega
  · split <;> omega
  · omega

theorem exact_congr (h : s.Exact) (htodo : s'.todo = s.todo) : s'.Exact ↔
    s'.rx.messageAvailable.toNat + s.rx.unread.countP isTerm =
      s.rx.messageAvailable.toNat + s'.rx.unread.countP isTerm := by
  rw [exact_iff] at h ⊢
  rw [inFlight_congr htodo]
  omega

/-- The counter does not wrap around. -/
theorem Counted.toNat_succ (h : s.Counted) :
    (s.rx.messageAvailable + 1).toNat = s.rx.messageAvailable.toNat + 1 := by
  have hexact := exact_iff.mp h.exact
  have hle := inFlight_le s
  have hcount := List.countP_le_length (p := isTerm) (l := s.rx.unread)
  rw [PcBuffer.length_unread] at hcount
  have hsound := h.sound
  rw [UInt16.toNat_add]
  exact Nat.mod_eq_of_lt (by simp only [UInt16.reduceToNat]; omega)

theorem Counted.received (h : s.Counted) (htodo : s'.todo = s.todo) (hbuffer : s'.buffer = s.buffer)
    (sound : s'.rx.occupied ≤ 128)
    (hahead : ∀ index, Ahead index s.rx.unread → Ahead index s'.rx.unread) (hexact : s'.Exact) :
    s'.Counted where
  sound := sound
  buffer := by rw [hbuffer]; exact h.buffer
  ready := by rw [htodo]; exact fun st hst => (h.ready st hst).imp hahead
  tail := by rw [htodo]; exact h.tail
  exact := hexact

theorem counted_backspace (h : s.Counted) (htodo : s'.todo = s.todo)
    (hbuffer : s'.buffer = s.buffer)
    (hrx : s'.rx = if s.rx.isEmpty then s.rx else s.rx.unproduce) :
    if s.rx.unread.getLast?.any isTerm then ¬ s'.Exact else s'.Counted := by
  have hexact := exact_congr h.exact htodo
  cases hempty : s.rx.isEmpty with
  | true =>
    rw [hempty, if_pos rfl] at hrx
    rw [(PcBuffer.unread_eq_nil_iff s.rx).mpr hempty]
    rw [hrx] at hexact
    exact h.received htodo hbuffer (by rw [hrx]; exact h.sound) (by rw [hrx]; exact fun _ => id)
      (hexact.mpr rfl)
  | false =>
    rw [hempty, if_neg (by simp)] at hrx
    have hne : s.rx.unread ≠ [] := (PcBuffer.isEmpty_eq_false_iff _).mp hempty
    have hpos : 0 < s.rx.occupied := (PcBuffer.occupied_pos_iff _).mpr hne
    have hcount := countP_dropLast hne
    rw [hrx, PcBuffer.unread_unproduce hpos, PcBuffer.messageAvailable_unproduce] at hexact
    cases hlast : s.rx.unread.getLast?.any isTerm with
    | true =>
      rw [hlast, if_pos rfl] at hcount
      rw [if_pos rfl, hexact]
      omega
    | false =>
      rw [hlast, if_neg (by simp)] at hcount
      rw [if_neg (by simp)]
      refine h.received htodo hbuffer ?_ ?_ (hexact.mpr (by omega))
      · rw [hrx]
        exact PcBuffer.unproduce_le h.sound hpos
      · rw [hrx, PcBuffer.unread_unproduce hpos]
        exact fun _ ha => ha.dropLast hlast

theorem counted_accept (h : s.Counted) (htodo : s'.todo = s.todo) (hbuffer : s'.buffer = s.buffer)
    {guard : Bool} (hguard : guard = true → isTerm c = true)
    (hring : s'.rx.ring = if s.rx.isFull then s.rx.ring else (s.rx.add c).ring)
    (hcount : s'.rx.messageAvailable =
      if guard then s.rx.messageAvailable + 1 else s.rx.messageAvailable) :
    if (if guard then s.rx.isFull = true else isTerm c = true ∧ s.rx.isFull = false)
      then ¬ s'.Exact else s'.Counted := by
  have hexact := exact_congr h.exact htodo
  have hmsg : s'.rx.messageAvailable.toNat =
      s.rx.messageAvailable.toNat + if guard then 1 else 0 := by
    rw [hcount]
    cases guard with
    | true => exact h.toNat_succ
    | false => rfl
  rw [hmsg] at hexact
  cases hfull : s.rx.isFull with
  | true =>
    rw [hfull, if_pos rfl] at hring
    have hunread : s'.rx.unread = s.rx.unread := by rw [PcBuffer.unread, PcBuffer.unread, hring]
    rw [hunread] at hexact
    cases guard with
    | true =>
      rw [if_pos rfl] at hexact
      rw [if_pos (by simp), hexact]
      omega
    | false =>
      rw [if_neg (by simp)]
      refine h.received htodo hbuffer ?_ (by rw [hunread]; exact fun _ => id) (hexact.mpr rfl)
      rw [PcBuffer.occupied, hring]
      exact h.sound
  | false =>
    rw [hfull, if_neg (by simp)] at hring
    have hlt := occupied_lt_of_not_full h.sound (by simp [hfull])
    have hunread : s'.rx.unread = s.rx.unread ++ [c] := by
      rw [← PcBuffer.unread_add c hlt, PcBuffer.unread, PcBuffer.unread, hring]
    have hcounted (he : s'.Exact) : s'.Counted := by
      refine h.received htodo hbuffer ?_ (by rw [hunread]; exact fun _ ha => ha.append c) he
      rw [PcBuffer.occupied, hring]
      exact (PcBuffer.add_le_iff c h.sound).mpr hlt
    rw [hunread, List.countP_append, List.countP_singleton] at hexact
    cases guard with
    | true =>
      rw [hguard rfl] at hexact
      rw [if_neg (by simp)]
      exact hcounted (hexact.mpr (by simp only [if_true]; omega))
    | false =>
      cases hc : isTerm c with
      | true =>
        rw [hc] at hexact
        rw [if_pos (by simp), hexact]
        simp
      | false =>
        rw [hc] at hexact
        rw [if_neg (by simp)]
        exact hcounted (hexact.mpr (by simp))

end Received

theorem counted_rx {s : Console} (h : s.Counted) (c : UInt8) :
    (Drifts s (.rx c) → ¬ Exact (step s (.rx c))) ∧
      (¬ Drifts s (.rx c) → Counted (step s (.rx c))) := by
  have hmain := mainLoop_rxIrq s c
  simp only [mainLoop, Prod.mk.injEq] at hmain
  obtain ⟨htodo, hbuffer, -⟩ := hmain
  rw [step, Drifts]
  by_cases hback : c = 0x08 ∨ c = 0x7F
  · have hdrift := counted_backspace h htodo hbuffer (rx_rxIrq_of_backspace hback)
    have hnot : ¬ s.accepts c := fun ha => hback.elim ha.1 ha.2.1
    split at hdrift
    · rename_i hlast
      exact ⟨fun _ => hdrift, fun hd => absurd (.inl ⟨hback, hlast⟩) hd⟩
    · rename_i hlast
      exact ⟨fun hd => hd.elim (fun hb => absurd hb.2 hlast) fun ha => absurd ha.1 hnot,
        fun _ => hdrift⟩
  · by_cases haccepts : s.accepts c
    · have hdrift := counted_accept h htodo hbuffer isTerm_of_newlineGuard (ring_rxIrq haccepts)
        (messageAvailable_rxIrq haccepts)
      by_cases hd : if newlineGuard s.curr c then s.rx.isFull = true
          else isTerm c = true ∧ s.rx.isFull = false
      · rw [if_pos hd] at hdrift
        exact ⟨fun _ => hdrift, fun hn => absurd (.inr ⟨haccepts, hd⟩) hn⟩
      · rw [if_neg hd] at hdrift
        exact ⟨fun hn => hn.elim (fun hb => absurd hb.1 hback) fun ha => absurd ha.2 hd,
          fun _ => hdrift⟩
    · have hrx := rx_rxIrq_of_escape hback haccepts
      have hexact : (s.rxIrq c).Exact := by
        rw [exact_congr h.exact htodo, hrx]
      constructor
      · intro hd
        exact hd.elim (fun hb => absurd hb.1 hback) fun ha => absurd ha.1 haccepts
      · intro _
        exact h.received htodo hbuffer (by rw [hrx]; exact h.sound)
          (by rw [hrx]; exact fun _ => id) hexact

/-! ## The main loop -/

def TermFree (buffer : Nat → UInt8) : Prop := ∀ k, isTerm (buffer k) = false

theorem TermFree.update {buffer : Nat → UInt8} (h : TermFree buffer) (i : Nat) {c : UInt8}
    (hc : isTerm c = false) : TermFree (Function.update buffer i c) := by
  intro k
  rw [Function.update_apply]
  split
  · exact hc
  · exact h k

theorem TermFree.tokenize {buffer : Nat → UInt8} (h : TermFree buffer) (i argsIndex left : Nat) :
    TermFree (tokenize buffer i argsIndex left) := by
  induction left generalizing buffer i argsIndex with
  | zero => exact h
  | succ left ih =>
    rw [PodFirmware.tokenize]
    split
    · dsimp only
      split
      · exact h.update i (by decide)
      · exact ih (h.update i (by decide)) _ _
    · exact ih h _ _

/-- The statement leaves `usart3_rx` alone and does not lead into `pc_buffer_getMessage`. -/
def Stmt.isPlain : Stmt → Bool
  | .testMessage => false
  | .removeRx => false
  | .recallAdd _ => false
  | st => !st.isGet

theorem run_plain (io : Io) {s : Console} {st : Stmt} (h : st.isPlain = true) :
    (st.run io s).rx = s.rx ∧ (∃ l, NoGet l ∧ (st.run io s).todo = l ++ s.todo) ∧
      (TermFree s.buffer → TermFree (st.run io s).buffer) := by
  have hnil : ∃ l, NoGet l ∧ s.todo = l ++ s.todo := ⟨[], by simp [NoGet], rfl⟩
  cases st with
  | testMessage => cases h
  | removeRx => cases h
  | recallAdd i => cases h
  | getMessage => cases h
  | getLoop index curr => cases h
  | getRemove index prev => cases h
  | getStore index prev curr => cases h
  | getGuard index prev curr => cases h
  | write bytes =>
    dsimp only [Stmt.run]
    cases s.tar with
    | usbSerial => exact ⟨rfl, ⟨_, noGet_writeLoop bytes, rfl⟩, id⟩
    | udp =>
      dsimp only
      split <;> exact ⟨rfl, hnil, id⟩
  | addTx c => exact ⟨rfl, hnil, id⟩
  | enableTxe => exact ⟨rfl, hnil, id⟩
  | clearDown => exact ⟨rfl, hnil, id⟩
  | clearSwap => exact ⟨rfl, hnil, id⟩
  | clearUp => exact ⟨rfl, hnil, id⟩
  | print => exact ⟨rfl, ⟨_, noGet_writes io.out, rfl⟩, id⟩
  | process =>
    dsimp only [Stmt.run]
    split
    · exact ⟨rfl, hnil, id⟩
    · refine ⟨rfl, ⟨_, noGet_writes io.out, rfl⟩, ?_⟩
      intro hb
      dsimp only [first]
      exact hb.tokenize 0 1 _
  | _ =>
    dsimp only [Stmt.run]
    split
    · exact ⟨rfl, by first | exact hnil | exact ⟨_, by simp [NoGet, Stmt.isGet], rfl⟩, id⟩
    · exact ⟨rfl, by first | exact hnil | exact ⟨_, by simp [NoGet, Stmt.isGet], rfl⟩, id⟩

section Main

variable {s s' : Console} {io : Io} {st : Stmt} {rest : List Stmt}

theorem Counted.of_get (htodo : s'.todo = st :: rest) (hrest : NoGet rest)
    (sound : s'.rx.occupied ≤ 128) (buffer : TermFree s'.buffer) (ready : st.Ready s'.rx.unread)
    (exact : s'.Exact) : Counted s' where
  sound := sound
  buffer := buffer
  ready := by
    rw [htodo]
    rintro _ ⟨⟩
    exact ready
  tail := by rw [htodo]; exact hrest
  exact := exact

theorem Ahead.count {index : Nat} {q : List UInt8} (h : Ahead index q) : 0 < q.countP isTerm := by
  obtain ⟨pre, x, post, rfl, hx, -⟩ := h
  exact List.countP_pos_iff.mpr ⟨x, by simp, hx⟩

theorem Counted.count_of_not_get (h : s.Counted) (htodo : s.todo = st :: rest)
    (hst : st.isGet = false) : s.rx.messageAvailable.toNat = s.rx.unread.countP isTerm := by
  have hno : NoGet s.todo := by
    rw [htodo]
    intro x hx
    obtain rfl | hx := List.mem_cons.mp hx
    · exact hst
    · exact h.tail x (by rw [htodo]; exact hx)
  have hexact := exact_iff.mp h.exact
  rwa [inFlight_of_noGet hno] at hexact

theorem Counted.noGet_rest (h : s.Counted) (htodo : s.todo = st :: rest) : NoGet rest := by
  have htail := h.tail
  rwa [htodo] at htail

theorem Counted.ready_head (h : s.Counted) (htodo : s.todo = st :: rest) : st.Ready s.rx.unread :=
  h.ready st (by rw [htodo]; rfl)

theorem counted_plain (h : s.Counted) (htodo : s.todo = st :: rest) (hst : st.isPlain = true) :
    Counted (st.run io { s with todo := rest }) := by
  have hget : st.isGet = false := by cases st <;> first | rfl | cases hst
  obtain ⟨hrx, ⟨l, hl, htodo'⟩, hbuffer⟩ := run_plain io (s := { s with todo := rest }) hst
  have hrest := h.noGet_rest htodo
  refine .of_noGet ?_ (hbuffer h.buffer) ?_ ?_
  · rw [hrx]
    exact h.sound
  · rw [htodo']
    exact hl.append hrest
  · rw [hrx]
    exact h.count_of_not_get htodo hget

theorem counted_testMessage (h : s.Counted) (htodo : s.todo = .testMessage :: rest) :
    Counted (Stmt.run io { s with todo := rest } .testMessage) := by
  have hrest := h.noGet_rest htodo
  have hcount := h.count_of_not_get htodo rfl
  dsimp only [Stmt.run]
  split
  · rename_i hpos
    have hpos' : 0 < s.rx.messageAvailable.toNat := UInt16.lt_iff_toNat_lt.mp hpos
    have hlen : s.rx.unread.length ≤ 128 := by
      rw [PcBuffer.length_unread]
      exact h.sound
    have hno : NoGet ([.process, .print] ++ rest) := .append (by simp [NoGet, Stmt.isGet]) hrest
    have hahead : Ahead 0 s.rx.unread := .of_count hlen (by omega)
    refine .of_get rfl hno h.sound h.buffer hahead ?_
    rw [exact_iff]
    exact hcount
  · exact .of_noGet h.sound h.buffer hrest hcount

theorem counted_removeRx (io : Io) (h : s.Counted) (htodo : s.todo = .removeRx :: rest)
    (hempty : ¬ s.rx.isEmpty = true) :
    if s.rx.unread.head?.any isTerm then ¬ Exact (Stmt.run io { s with todo := rest } .removeRx)
    else Counted (Stmt.run io { s with todo := rest } .removeRx) := by
  have hrest := h.noGet_rest htodo
  have hcount := h.count_of_not_get htodo rfl
  have hpos : 0 < s.rx.occupied := by
    rw [PcBuffer.isEmpty_iff] at hempty
    omega
  rw [PcBuffer.unread_remove hpos, List.countP_cons] at hcount
  rw [PcBuffer.unread_remove hpos, List.head?_cons, Option.any_some]
  cases hc : isTerm s.rx.remove.1 with
  | true =>
    rw [hc] at hcount
    rw [if_pos rfl, exact_iff, inFlight_of_noGet hrest]
    dsimp only [Stmt.run]
    rw [PcBuffer.messageAvailable_remove, hcount]
    simp
  | false =>
    rw [hc] at hcount
    exact .of_noGet ((PcBuffer.remove_le_iff h.sound).mpr hpos) h.buffer hrest hcount

theorem counted_recallAdd {i : Nat} (h : s.Counted) (htodo : s.todo = .recallAdd i :: rest)
    (hfull : ¬ s.rx.isFull = true) :
    Counted (Stmt.run io { s with todo := rest } (.recallAdd i)) := by
  have hrest := h.noGet_rest htodo
  have hcount := h.count_of_not_get htodo rfl
  have hlt := occupied_lt_of_not_full h.sound hfull
  refine .of_noGet ((PcBuffer.add_le_iff _ h.sound).mpr hlt) h.buffer hrest ?_
  dsimp only [Stmt.run]
  rw [PcBuffer.unread_add _ hlt, List.countP_append, List.countP_singleton, h.buffer i]
  exact hcount

theorem counted_getMessage (h : s.Counted) (htodo : s.todo = .getMessage :: rest) :
    Counted (Stmt.run io { s with todo := rest } .getMessage) := by
  have hrest := h.noGet_rest htodo
  have hahead : Ahead 0 s.rx.unread := h.ready_head htodo
  have hexact := exact_iff.mp h.exact
  rw [inFlight, htodo] at hexact
  have hpos := hahead.count
  have hne : ¬ s.rx.messageAvailable = 0 := by
    intro he
    rw [he] at hexact
    simp at hexact
    omega
  dsimp only [Stmt.run]
  rw [if_neg hne]
  exact .of_get rfl hrest h.sound h.buffer ⟨by decide, hahead⟩ (exact_iff.mpr hexact)

theorem counted_getLoop (io : Io) {index : Nat} {curr : UInt8} (h : s.Counted)
    (htodo : s.todo = .getLoop index curr :: rest) :
    (index < usartBuf ∧ s.rx.isEmpty = false) ∧
      Counted (Stmt.run io { s with todo := rest } (.getLoop index curr)) := by
  have hrest := h.noGet_rest htodo
  have hready := h.ready_head htodo
  have hexact := exact_iff.mp h.exact
  rw [inFlight, htodo] at hexact
  obtain ⟨hlt, hne⟩ := hready.2.lt
  have hempty : s.rx.isEmpty = false := (PcBuffer.isEmpty_eq_false_iff _).mpr hne
  refine ⟨⟨hlt, hempty⟩, ?_⟩
  dsimp only [Stmt.run]
  rw [if_pos ⟨hlt, hempty⟩]
  exact .of_get rfl hrest h.sound h.buffer hready (exact_iff.mpr hexact)

theorem counted_getRemove {index : Nat} {prev : UInt8} (h : s.Counted)
    (htodo : s.todo = .getRemove index prev :: rest) :
    Counted (Stmt.run io { s with todo := rest } (.getRemove index prev)) := by
  have hrest := h.noGet_rest htodo
  obtain ⟨hprev, hahead⟩ := h.ready_head htodo
  have hexact := exact_iff.mp h.exact
  rw [inFlight, htodo] at hexact
  have hpos : 0 < s.rx.occupied := (PcBuffer.occupied_pos_iff _).mpr hahead.lt.2
  rw [PcBuffer.unread_remove hpos] at hexact hahead
  rw [List.countP_cons] at hexact
  refine .of_get rfl hrest ((PcBuffer.remove_le_iff h.sound).mpr hpos) h.buffer
    ⟨hprev, fun hc => hahead.tail hc⟩ ?_
  rw [exact_iff]
  simp only [inFlight, Stmt.run, first, List.cons_append, newlineGuard_eq hprev]
  exact hexact

theorem counted_getStore {index : Nat} {prev curr : UInt8} (h : s.Counted)
    (htodo : s.todo = .getStore index prev curr :: rest) :
    Counted (Stmt.run io { s with todo := rest } (.getStore index prev curr)) := by
  have hrest := h.noGet_rest htodo
  have hready := h.ready_head htodo
  have hexact := exact_iff.mp h.exact
  rw [inFlight, htodo] at hexact
  have hfree : isTerm (if newlineGuard prev curr then 0 else curr) = false := by
    rw [newlineGuard_eq hready.1]
    cases hc : isTerm curr with
    | true => rfl
    | false => exact hc
  exact .of_get rfl hrest h.sound (TermFree.update h.buffer index hfree) hready
    (exact_iff.mpr hexact)

theorem counted_getGuard {index : Nat} {prev curr : UInt8} (h : s.Counted)
    (htodo : s.todo = .getGuard index prev curr :: rest) :
    Counted (Stmt.run io { s with todo := rest } (.getGuard index prev curr)) := by
  have hrest := h.noGet_rest htodo
  obtain ⟨hprev, hahead⟩ := h.ready_head htodo
  have hexact := exact_iff.mp h.exact
  rw [inFlight, htodo] at hexact
  dsimp only [Stmt.run] at hexact ⊢
  rw [newlineGuard_eq hprev] at hexact ⊢
  cases hc : isTerm curr with
  | true =>
    rw [hc, if_pos rfl] at hexact
    rw [if_pos rfl]
    refine .of_noGet h.sound h.buffer hrest ?_
    have hsub : (s.rx.messageAvailable - 1).toNat = s.rx.unread.countP isTerm := by
      rw [PcBuffer.toNat_sub_one (by omega), hexact, Nat.add_sub_cancel]
    exact hsub
  | false =>
    rw [hc, if_neg (by simp)] at hexact
    rw [if_neg (by simp)]
    exact .of_get rfl hrest h.sound h.buffer ⟨hc, hahead hc⟩ (exact_iff.mpr hexact)

end Main

theorem counted_main {s : Console} {io : Io} (h : s.Counted) (hover : ¬ RxOverruns s (.main io)) :
    ¬ RunsOff s (.main io) ∧ (Drifts s (.main io) → ¬ Exact (step s (.main io))) ∧
      (¬ Drifts s (.main io) → Counted (step s (.main io))) := by
  cases htodo : s.todo with
  | nil =>
    rw [step_main_nil io htodo, RunsOff, Drifts, htodo]
    exact ⟨not_false, False.elim, fun _ => h⟩
  | cons st rest =>
    rw [RxOverruns, htodo] at hover
    rw [step_main_cons io htodo, RunsOff, Drifts, htodo]
    cases st with
    | testMessage => exact ⟨not_false, False.elim, fun _ => counted_testMessage h htodo⟩
    | removeRx =>
      have hdrift := counted_removeRx io h htodo hover
      refine ⟨not_false, ?_, ?_⟩
      · intro hd
        rwa [if_pos hd] at hdrift
      · intro hd
        rwa [if_neg hd] at hdrift
    | recallAdd i => exact ⟨not_false, False.elim, fun _ => counted_recallAdd h htodo hover⟩
    | getMessage => exact ⟨not_false, False.elim, fun _ => counted_getMessage h htodo⟩
    | getLoop index curr =>
      have hloop := counted_getLoop io h htodo
      exact ⟨not_not.mpr hloop.1, False.elim, fun _ => hloop.2⟩
    | getRemove index prev => exact ⟨not_false, False.elim, fun _ => counted_getRemove h htodo⟩
    | getStore index prev curr => exact ⟨not_false, False.elim, fun _ => counted_getStore h htodo⟩
    | getGuard index prev curr => exact ⟨not_false, False.elim, fun _ => counted_getGuard h htodo⟩
    | _ => exact ⟨not_false, False.elim, fun _ => counted_plain h htodo rfl⟩

theorem counted_call {s : Console} (h : s.Counted) (c : Call) : Counted (step s (.call c)) := by
  rw [step]
  split
  · rename_i htodo
    have hno : NoGet s.todo := by rw [htodo]; simp [NoGet]
    have hexact := exact_iff.mp h.exact
    rw [inFlight_of_noGet hno] at hexact
    exact .of_noGet h.sound h.buffer (noGet_stmts c) hexact
  · exact h

/-! ## Runs -/

theorem counted_step {s : Console} {i : Input} (h : s.Counted) (hover : ¬ RxOverruns s i) :
    ¬ RunsOff s i ∧ (Drifts s i → ¬ Exact (step s i)) ∧ (¬ Drifts s i → Counted (step s i)) := by
  cases i with
  | rx c => exact ⟨not_false, counted_rx h c⟩
  | txe =>
    refine ⟨not_false, False.elim, ?_⟩
    intro _
    rw [step]
    unfold txIrq
    split
    · exact ⟨h.sound, h.buffer, h.ready, h.tail, h.exact⟩
    · exact ⟨h.sound, h.buffer, h.ready, h.tail, h.exact⟩
  | call c => exact ⟨not_false, False.elim, fun _ => counted_call h c⟩
  | main io => exact counted_main h hover
  | target tar =>
    refine ⟨not_false, False.elim, ?_⟩
    intro _
    exact ⟨h.sound, h.buffer, h.ready, h.tail, h.exact⟩

theorem messageLaw_iff {s : Console} {i : Input} (h : s.Counted) (hover : ¬ RxOverruns s i) :
    MessageLaw s i ↔ ¬ Drifts s i := by
  obtain ⟨hoff, hdrift, hkeep⟩ := counted_step h hover
  exact ⟨fun hl hd => hdrift hd hl.1, fun hd => ⟨(hkeep hd).exact, hoff⟩⟩

/-- In every run that does not overrun `usart3_rx`, the counter is exact after each step, and
`pc_buffer_getMessage` finds the message it was called for, if and only if no step drifts. -/
theorem messageLaw_run_iff {tx rx : Nat → UInt8} {is : List Input}
    (hover : Machine.Always step (fun s i => ¬ RxOverruns s i) (boot tx rx) is) :
    Machine.Always step MessageLaw (boot tx rx) is ↔
      Machine.Always step (fun s i => ¬ Drifts s i) (boot tx rx) is := by
  have hstep : ∀ s i, Counted s → ¬ RxOverruns s i → ¬ Drifts s i → Counted (step s i) :=
    fun _ _ hs ho hd => (counted_step hs ho).2.2 hd
  exact Machine.always_iff_of_preserved hstep (fun _ _ hs ho => messageLaw_iff hs ho)
    (counted_boot tx rx) hover

/-- A line is received, and taken out by `check_input`. -/
def oneLine : List Input :=
  [.rx 97, .rx 13, .call .checkInput] ++ List.replicate 12 (.main silent)

theorem oneLine_counted :
    Machine.Always step MessageLaw (boot (fun _ => 0) fun _ => 0) oneLine :=
  (messageLaw_run_iff (by decide +kernel)).mpr (by decide +kernel)

/-- The end of the line is erased by a backspace, and `check_input` goes looking for it. -/
def erasedEnd : List Input :=
  [.rx 97, .rx 13, .rx 0x08, .call .checkInput] ++ List.replicate 8 (.main silent)

theorem erasedEnd_counted :
    ¬ Machine.Always step MessageLaw (boot (fun _ => 0) fun _ => 0) erasedEnd ∧
      (Machine.run step (boot (fun _ => 0) fun _ => 0) erasedEnd).rx.messageAvailable = 1 ∧
      RunsOff (Machine.run step (boot (fun _ => 0) fun _ => 0) erasedEnd) (.main silent) := by
  have hexact : ¬ Exact (Machine.run step (boot (fun _ => 0) fun _ => 0)
      [.rx 97, .rx 13, .rx 0x08]) := by
    unfold Exact
    decide +kernel
  have htodo : (Machine.run step (boot (fun _ => 0) fun _ => 0) erasedEnd).todo =
      [.getLoop 1 97, .process, .print] := by
    decide +kernel
  have hempty : (Machine.run step (boot (fun _ => 0) fun _ => 0) erasedEnd).rx.isEmpty = true := by
    decide +kernel
  refine ⟨fun h => hexact h.2.2.1.1, by decide +kernel, ?_⟩
  rw [RunsOff, htodo, hempty]
  simp

end Console
end PodFirmware
