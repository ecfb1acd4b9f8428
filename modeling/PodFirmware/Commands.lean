import PodFirmware.Lines

/-!
# PodFirmware.Commands

The console as a line discipline. In an ordinary run characters are received, none of them a control
of the console, there is room for each, and `check_input` is called at any time. What is given to
`process_input` in the end is to be the lines of the stream of characters.

* `Ledger`: the invariant of ordinary runs. What was received is what was taken out as messages and
  what is waiting; as many messages were taken as the handler has counted and the counter does not
  show.
* `exists_quiet`: from every state of an ordinary run, enough calls of `check_input` take out all
  messages that are counted.
* `settles_run_iff`: the lines are delivered exactly when no line end follows after a pair of
  opposite ones and no line has a NUL in it.
-/

namespace PodFirmware
namespace Console

def Ordinary (s : Console) : Input → Prop
  | .rx c => (c ≠ 0x08 ∧ c ≠ 0x7F ∧ c ≠ 0x1B ∧ c ≠ 0x5B) ∧ s.rx.isFull = false
  | .call (.read _) => False
  | _ => True

instance (s : Console) : ∀ i, Decidable (Ordinary s i)
  | .rx _ => inferInstanceAs (Decidable ((_ ∧ _ ∧ _ ∧ _) ∧ _))
  | .txe => instDecidableTrue
  | .call .checkInput => instDecidableTrue
  | .call (.write _) => instDecidableTrue
  | .call (.read _) => instDecidableFalse
  | .main _ => instDecidableTrue
  | .target _ => instDecidableTrue

/-- Nothing is received any more. -/
def Polls : Input → Prop
  | .rx _ => False
  | .call (.read _) => False
  | _ => True

def received : Input → List UInt8
  | .rx c => [c]
  | _ => []

/-- The lines of the stream that are not empty have been given to `process_input`, and no line is
left in `usart3_rx`. -/
def Delivered (bs : List UInt8) (s : Console) : Prop :=
  s.commands = (lines [] bs).filter (· ≠ []) ∧
    lines [] (bs.take (bs.length - s.rx.occupied)) = lines [] bs

/-- Polling makes it so for good. -/
def Settles (bs : List UInt8) (s : Console) : Prop :=
  ∃ js, (∀ j ∈ js, Polls j) ∧
    ∀ ks, (∀ k ∈ ks, Polls k) → Delivered bs (Machine.run step s (js ++ ks))

/-! ## The message buffer -/

/-- The first part of the buffer. -/
def Holds (buffer : Nat → UInt8) (part : List UInt8) : Prop :=
  (List.range part.length).map buffer = part

section Buffer

variable {buffer : Nat → UInt8} {part : List UInt8}

theorem Holds.update (h : Holds buffer part) (c : UInt8) :
    Holds (Function.update buffer part.length c) part := by
  have hsame : (List.range part.length).map (Function.update buffer part.length c) =
      (List.range part.length).map buffer := by
    refine List.map_congr_left fun k hk => Function.update_of_ne ?_ ..
    exact (List.mem_range.mp hk).ne
  rw [Holds, hsame]
  exact h

theorem Holds.concat {c : UInt8} (h : Holds buffer part) (hc : buffer part.length = c) :
    Holds buffer (part ++ [c]) := by
  rw [Holds, List.length_append, List.length_singleton, List.range_succ, List.map_append, h,
    List.map_singleton, hc]

theorem cString_of_holds (h : Holds buffer part) (hzero : buffer part.length = 0)
    (hlen : part.length < 1024) : cString buffer = part.takeWhile (· != 0) := by
  obtain ⟨n, hn⟩ : ∃ n, 1024 = part.length + (n + 1) := ⟨1023 - part.length, by omega⟩
  have hrange : (List.range 1024).map buffer =
      part ++ 0 :: (List.range n).map fun k => buffer (part.length + (k + 1)) := by
    rw [hn, List.range_add, List.map_append, h, List.map_map, List.range_succ_eq_map, List.map_cons,
      List.map_map]
    congr 1
    exact congrArg (· :: _) hzero
  rw [cString, hrange, List.takeWhile_append, List.takeWhile_cons_of_neg (by decide),
    List.append_nil]
  split
  · rename_i hlen'
    exact (List.takeWhile_prefix _).eq_of_length hlen' |>.symm
  · rfl

theorem cString_eq_nil_iff (buffer : Nat → UInt8) : cString buffer = [] ↔ buffer 0 = 0 := by
  rw [cString, show 1024 = 1023 + 1 from rfl, List.range_succ_eq_map, List.map_cons,
    List.takeWhile_cons]
  split
  · rename_i hne
    exact iff_of_false (List.cons_ne_nil _ _) (bne_iff_ne.mp hne)
  · rename_i hzero
    exact iff_of_true rfl (by simpa using hzero)

end Buffer

/-! ## The interrupt handler -/

/-- What the handler keeps to itself, and the flags. -/
def handler (s : Console) : UInt8 × UInt8 × Bool × Bool :=
  (s.prev, s.curr, s.upArrowFlag, s.downArrowFlag)

theorem handler_acceptIrq (s : Console) (prev c : UInt8) :
    (s.acceptIrq prev c).handler = s.handler := by
  unfold acceptIrq
  dsimp only
  split <;> rfl

theorem handler_run (io : Io) {s : Console} (st : Stmt) (hup : s.upArrowFlag = false)
    (hdown : s.downArrowFlag = false) : (st.run io s).handler = s.handler := by
  cases st with
  | write bytes =>
    dsimp only [Stmt.run]
    cases s.tar with
    | usbSerial => rfl
    | udp =>
      dsimp only
      split <;> rfl
  | clearDown => simp [Stmt.run, handler, hdown]
  | clearUp => simp [Stmt.run, handler, hup]
  | addTx c => rfl
  | enableTxe => rfl
  | removeRx => rfl
  | recallAdd i => rfl
  | clearSwap => rfl
  | print => rfl
  | getRemove index prev => rfl
  | getStore index prev curr => rfl
  | _ =>
    dsimp only [Stmt.run]
    split <;> rfl

/-! ## The ledger -/

/-- The statements of an ordinary run that do not take a message. -/
def Stmt.calm : Stmt → Bool
  | .write _ => true
  | .guardTx => true
  | .awaitTx => true
  | .addTx _ => true
  | .enableTxe => true
  | .drainTx => true
  | .checkInput => true
  | .testUp => true
  | .testMessage => true
  | .print => true
  | _ => false

def Calm (todo : List Stmt) : Prop := ∀ st ∈ todo, st.calm = true

theorem Calm.nil : Calm [] := by
  intro st hst
  cases hst

theorem Calm.single {st : Stmt} (h : st.calm = true) : Calm [st] := List.forall_mem_singleton.mpr h

theorem Calm.append {l l' : List Stmt} (h : Calm l) (h' : Calm l') : Calm (l ++ l') := by
  intro st hst
  exact (List.mem_append.mp hst).elim (h st) (h' st)

/-- Where `pc_buffer_getMessage` stands, when it has stored `part` of the message. -/
def Stmt.Stands (buffer : Nat → UInt8) (part : List UInt8) : Stmt → Prop
  | .getMessage => part = []
  | .getLoop index _ => index = part.length ∧ Holds buffer part
  | .getRemove index _ => index = part.length ∧ Holds buffer part
  | .getStore index _ _ => index = part.length ∧ part.length < 128 ∧ Holds buffer part
  | .getGuard index _ curr =>
    index = part.length + 1 ∧ part.length < 128 ∧ Holds buffer part ∧
      buffer part.length = if isTerm curr then 0 else curr
  | _ => False

/-- What is left to do, when the messages `ms` and the part `part` of another one have been taken
out. -/
inductive Stage (ms : List (List UInt8)) (part : List UInt8) (s : Console) : List Stmt → Prop where
  | calm {todo : List Stmt} (htodo : Calm todo) (hpart : part = [])
      (hpassed : s.commands = passed ms) : Stage ms part s todo
  | get {st : Stmt} {rest : List Stmt} (hrest : Calm rest) (hst : st.Stands s.buffer part)
      (hready : st.Ready s.rx.unread) (hpassed : s.commands = passed ms)
      (hmsg : 0 < s.rx.messageAvailable.toNat) : Stage ms part s (st :: .process :: rest)
  | process {rest : List Stmt} {ms' : List (List UInt8)} {m : List UInt8} (hrest : Calm rest)
      (hms : ms = ms' ++ [m]) (hpart : part = []) (hpassed : s.commands = passed ms')
      (hm : cString s.buffer = m.takeWhile (· != 0)) : Stage ms part s (.process :: rest)

theorem Stage.of_calm {ms : List (List UInt8)} {part : List UInt8} {s : Console}
    {todo : List Stmt} (h : Stage ms part s todo) (hcalm : Calm todo) :
    part = [] ∧ s.commands = passed ms := by
  cases h with
  | calm _ hpart hpassed => exact ⟨hpart, hpassed⟩
  | get => cases hcalm .process (by simp)
  | process => cases hcalm .process (by simp)

/-- The character that has been taken out and not yet been looked at. -/
def held : List Stmt → List UInt8
  | .getStore _ _ curr :: _ => [curr]
  | .getGuard _ _ curr :: _ => [curr]
  | _ => []

theorem held_of_calm {todo : List Stmt} (h : Calm todo) : held todo = [] := by
  unfold held
  split
  · cases h _ (List.mem_cons_self ..)
  · cases h _ (List.mem_cons_self ..)
  · rfl

/-- What was received is what was taken out, what is held and what is waiting; and the counter and
the messages taken out make up what was counted. -/
def Balance (bs : List UInt8) (s : Console) (todo : List Stmt) : Prop :=
  ∃ done, bs = done ++ held todo ++ s.rx.unread ∧
    s.rx.messageAvailable.toNat + (messages [] done).1.length = counted 0 bs ∧
    Stage (messages [] done).1 (messages [] done).2 s todo

theorem Balance.of_kept {bs : List UInt8} {s s' : Console} {todo : List Stmt}
    (h : Balance bs s todo) (hrx : s'.rx = s.rx) (hbuffer : s'.buffer = s.buffer)
    (hcommands : s'.commands = s.commands) : Balance bs s' todo := by
  obtain ⟨done, hbs, hcount, hstage⟩ := h
  refine ⟨done, by rwa [hrx], by rwa [hrx], ?_⟩
  cases hstage with
  | calm htodo hpart hpassed => exact .calm htodo hpart (hcommands.trans hpassed)
  | get hrest hst hready hpassed hmsg =>
    exact .get hrest (by rwa [hbuffer]) (by rwa [hrx]) (hcommands.trans hpassed) (by rwa [hrx])
  | process hrest hms hpart hpassed hm =>
    rw [← hbuffer] at hm
    exact .process hrest hms hpart (hcommands.trans hpassed) hm

structure Ledger (bs : List UInt8) (s : Console) : Prop where
  up : s.upArrowFlag = false
  down : s.downArrowFlag = false
  prev : s.prev ≠ 0x1B
  curr : s.curr ≠ 0x1B ∧ s.curr ≠ 0x5B
  last : s.curr = bs.getLastD 0
  sound : s.rx.occupied ≤ 128
  balance : Balance bs s s.todo

theorem ledger_boot (tx rx : Nat → UInt8) : Ledger [] (boot tx rx) := by
  have hocc : (boot tx rx).rx.occupied = 0 := PcBuffer.occupied_init rx
  have hnil : (boot tx rx).rx.unread = [] := by
    rw [PcBuffer.unread_eq_nil_iff, PcBuffer.isEmpty_iff, hocc]
  refine ⟨rfl, rfl, by simp [boot], by simp [boot], rfl, by omega, [], ?_, rfl, ?_⟩
  · rw [hnil]
    rfl
  · exact .calm .nil rfl rfl

/-- A step of the main loop leaves the handler alone. -/
theorem Ledger.of_handler {bs : List UInt8} {s s' : Console} (h : Ledger bs s)
    (hhandler : s'.handler = s.handler) (sound : s'.rx.occupied ≤ 128)
    (balance : Balance bs s' s'.todo) : Ledger bs s' := by
  simp only [handler, Prod.mk.injEq] at hhandler
  obtain ⟨hprev, hcurr, hup, hdown⟩ := hhandler
  refine ⟨?_, ?_, ?_, ?_, ?_, sound, balance⟩
  · rw [hup]
    exact h.up
  · rw [hdown]
    exact h.down
  · rw [hprev]
    exact h.prev
  · rw [hcurr]
    exact h.curr
  · rw [hcurr]
    exact h.last

/-! ## Received characters -/

section Received

variable {bs : List UInt8} {s : Console} {c : UInt8}

theorem Ledger.accepts (h : Ledger bs s) (hc : c ≠ 0x08 ∧ c ≠ 0x7F ∧ c ≠ 0x1B ∧ c ≠ 0x5B) :
    s.accepts c :=
  ⟨hc.1, hc.2.1, fun he => h.prev he.1, ⟨h.curr.2, h.prev⟩, hc.2.2⟩

/-- The counter stays far from its bound. -/
theorem Ledger.messageAvailable_le (h : Ledger bs s) : s.rx.messageAvailable.toNat ≤ 129 := by
  obtain ⟨done, hbs, hcount, -⟩ := h.balance
  have hle := counted_le 0 bs
  have hheld : (held s.todo).length ≤ 1 := by
    unfold held
    split <;> simp
  have hheld' := List.countP_le_length (p := isTerm) (l := held s.todo)
  have hwaiting := List.countP_le_length (p := isTerm) (l := s.rx.unread)
  have hsound := h.sound
  rw [PcBuffer.length_unread] at hwaiting
  rw [length_messages] at hcount
  have hsum : bs.countP isTerm =
      done.countP isTerm + (held s.todo).countP isTerm + s.rx.unread.countP isTerm := by
    conv_lhs => rw [hbs]
    rw [List.countP_append, List.countP_append]
  omega

theorem Stage.received {ms : List (List UInt8)} {part : List UInt8} {s' : Console}
    {todo : List Stmt} (h : Stage ms part s todo) (hbuffer : s'.buffer = s.buffer)
    (hcommands : s'.commands = s.commands) (hunread : s'.rx.unread = s.rx.unread ++ [c])
    (hmsg : s.rx.messageAvailable.toNat ≤ s'.rx.messageAvailable.toNat) :
    Stage ms part s' todo := by
  cases h with
  | calm htodo hpart hpassed => exact .calm htodo hpart (hcommands.trans hpassed)
  | get hrest hst hready hpassed hpos =>
    refine .get hrest (by rwa [hbuffer]) ?_ (hcommands.trans hpassed) (by omega)
    rw [hunread]
    exact hready.imp fun _ ha => ha.append c
  | process hrest hms hpart hpassed hm =>
    exact .process hrest hms hpart (hcommands.trans hpassed) (by rwa [hbuffer])

theorem handler_rxIrq (h : s.accepts c) :
    (s.rxIrq c).handler = (s.curr, c, s.upArrowFlag, s.downArrowFlag) := by
  rw [rxIrq_of_accepts h, handler_acceptIrq]
  rfl

theorem ring_rxIrq_of_lt (h : s.accepts c) (hlt : s.rx.occupied < 128) :
    (s.rxIrq c).rx.ring = (s.rx.add c).ring := by
  rw [ring_rxIrq h, if_neg]
  rw [PcBuffer.isFull_iff]
  omega

theorem unread_rxIrq (h : s.accepts c) (hlt : s.rx.occupied < 128) :
    (s.rxIrq c).rx.unread = s.rx.unread ++ [c] := by
  rw [← PcBuffer.unread_add c hlt, PcBuffer.unread, PcBuffer.unread, ring_rxIrq_of_lt h hlt]

theorem ledger_rx (h : Ledger bs s) (hc : c ≠ 0x08 ∧ c ≠ 0x7F ∧ c ≠ 0x1B ∧ c ≠ 0x5B)
    (hfull : s.rx.isFull = false) : Ledger (bs ++ [c]) (s.rxIrq c) := by
  have haccepts := h.accepts hc
  have hmain := mainLoop_rxIrq s c
  simp only [mainLoop, Prod.mk.injEq] at hmain
  obtain ⟨htodo, hbuffer, -, hcommands⟩ := hmain
  have hhandler := handler_rxIrq haccepts
  simp only [handler, Prod.mk.injEq] at hhandler
  obtain ⟨hprev, hcurr, hup, hdown⟩ := hhandler
  have hlt := occupied_lt_of_not_full h.sound (by simp [hfull])
  have hring := ring_rxIrq_of_lt haccepts hlt
  have hunread := unread_rxIrq haccepts hlt
  have hmsg : (s.rxIrq c).rx.messageAvailable.toNat =
      s.rx.messageAvailable.toNat + if newlineGuard s.curr c then 1 else 0 := by
    have hle := h.messageAvailable_le
    rw [messageAvailable_rxIrq haccepts]
    split
    · rw [UInt16.toNat_add]
      exact Nat.mod_eq_of_lt (by simp only [UInt16.reduceToNat]; omega)
    · rfl
  obtain ⟨done, hbs, hcount, hstage⟩ := h.balance
  refine ⟨hup.trans h.up, hdown.trans h.down, ?_, ?_, ?_, ?_, done, ?_, ?_, ?_⟩
  · rw [hprev]
    exact h.curr.1
  · rw [hcurr]
    exact hc.2.2
  · rw [hcurr, List.getLastD_concat]
  · rw [PcBuffer.occupied, hring]
    exact (PcBuffer.add_le_iff c h.sound).mpr hlt
  · rw [htodo, hunread, hbs, List.append_assoc, List.append_assoc]
  · rw [counted_append, hmsg, ← h.last, counted, counted]
    omega
  · rw [htodo]
    exact hstage.received hbuffer hcommands hunread (by omega)

end Received

/-! ## The main loop -/

/-- What printing leaves alone. -/
def kept (s : Console) :
    PcBuffer × (Nat → UInt8) × List (List UInt8) × (UInt8 × UInt8 × Bool × Bool) × Bool :=
  (s.rx, s.buffer, s.commands, s.handler, s.swapReady)

/-- The statements of `printf` and `_write`. -/
def Stmt.prints : Stmt → Bool
  | .write _ => true
  | .guardTx => true
  | .awaitTx => true
  | .addTx _ => true
  | .enableTxe => true
  | .drainTx => true
  | .print => true
  | _ => false

def Prints (todo : List Stmt) : Prop := ∀ st ∈ todo, st.prints = true

theorem Prints.nil : Prints [] := by
  intro st hst
  cases hst

theorem Prints.append {l l' : List Stmt} (h : Prints l) (h' : Prints l') : Prints (l ++ l') := by
  intro st hst
  exact (List.mem_append.mp hst).elim (h st) (h' st)

theorem prints_writes (out : List (List UInt8)) : Prints (out.map .write) := by
  intro st hst
  obtain ⟨bytes, -, rfl⟩ := List.mem_map.mp hst
  rfl

theorem prints_writeLoop (bytes : List UInt8) : Prints (writeLoop bytes) := by
  intro st hst
  obtain rfl | ⟨c, rfl⟩ | rfl | rfl := mem_writeLoop hst <;> rfl

theorem Prints.calm {l : List Stmt} (h : Prints l) : Calm l := by
  intro st hst
  have hprints := h st hst
  cases st <;> first | rfl | cases hprints

theorem calm_cases {st : Stmt} (h : st.calm = true) :
    st.prints = true ∨ st = .checkInput ∨ st = .testUp ∨ st = .testMessage := by
  cases st <;> first | exact .inl rfl | (cases h; done) | simp

theorem prints_run (io : Io) (s : Console) {st : Stmt} (h : st.prints = true) :
    kept (st.run io s) = kept s ∧ ∃ l, Prints l ∧ (st.run io s).todo = l ++ s.todo := by
  have hnil : ∃ l, Prints l ∧ s.todo = l ++ s.todo := ⟨[], .nil, rfl⟩
  have hawait : Prints [.awaitTx] := List.forall_mem_singleton.mpr rfl
  have hdrain : Prints [.drainTx] := List.forall_mem_singleton.mpr rfl
  cases st with
  | write bytes =>
    dsimp only [Stmt.run]
    cases s.tar with
    | usbSerial => exact ⟨rfl, _, prints_writeLoop bytes, rfl⟩
    | udp =>
      dsimp only
      split <;> exact ⟨rfl, hnil⟩
  | guardTx =>
    dsimp only [Stmt.run]
    split
    · exact ⟨rfl, _, hawait, rfl⟩
    · exact ⟨rfl, hnil⟩
  | awaitTx =>
    dsimp only [Stmt.run]
    split
    · exact ⟨rfl, _, hawait, rfl⟩
    · exact ⟨rfl, hnil⟩
  | addTx c => exact ⟨rfl, hnil⟩
  | enableTxe => exact ⟨rfl, hnil⟩
  | drainTx =>
    dsimp only [Stmt.run]
    split
    · exact ⟨rfl, hnil⟩
    · exact ⟨rfl, _, hdrain, rfl⟩
  | print => exact ⟨rfl, _, prints_writes io.out, rfl⟩
  | _ => cases h

theorem calm_run (io : Io) {s : Console} {st : Stmt} (hst : st.calm = true)
    (hne : st ≠ .testMessage) (hup : s.upArrowFlag = false) (hdown : s.downArrowFlag = false) :
    kept (st.run io s) = kept s ∧ ∃ l, Calm l ∧ (st.run io s).todo = l ++ s.todo := by
  rcases calm_cases hst with hprints | rfl | rfl | rfl
  · obtain ⟨hk, l, hl, htodo⟩ := prints_run io s hprints
    exact ⟨hk, l, hl.calm, htodo⟩
  · have hrun : Stmt.checkInput.run io s = s.first [.testUp] := if_neg (by simp [hup, hdown])
    rw [hrun]
    exact ⟨rfl, _, .single rfl, rfl⟩
  · have hrun : Stmt.testUp.run io s = s.first [.testMessage] := if_neg (by simp [hup])
    rw [hrun]
    exact ⟨rfl, _, .single rfl, rfl⟩
  · exact absurd rfl hne

section Main

variable {bs done : List UInt8} {s : Console} {io : Io} {st : Stmt} {rest : List Stmt}

/-- If the counter is not zero, a line end is waiting. -/
theorem waiting_pos (hbs : bs = done ++ [] ++ s.rx.unread)
    (hcount : s.rx.messageAvailable.toNat + (messages [] done).1.length = counted 0 bs)
    (hmsg : 0 < s.rx.messageAvailable.toNat) : 0 < s.rx.unread.countP isTerm := by
  have hle := counted_le 0 bs
  have hsum : bs.countP isTerm = done.countP isTerm + s.rx.unread.countP isTerm := by
    rw [hbs, List.append_nil, List.countP_append]
  rw [length_messages] at hcount
  omega

theorem balance_testMessage (hbs : bs = done ++ [] ++ s.rx.unread) (sound : s.rx.occupied ≤ 128)
    (hcount : s.rx.messageAvailable.toNat + (messages [] done).1.length = counted 0 bs)
    (hrest : Calm rest) (hpart : (messages [] done).2 = [])
    (hpassed : s.commands = passed (messages [] done).1) :
    Balance bs (Stmt.run io { s with todo := rest } .testMessage)
      (Stmt.run io { s with todo := rest } .testMessage).todo := by
  dsimp only [Stmt.run]
  split
  · rename_i hpos
    have hmsg : 0 < s.rx.messageAvailable.toNat := UInt16.lt_iff_toNat_lt.mp hpos
    have hlen : s.rx.unread.length ≤ 128 := by
      rw [PcBuffer.length_unread]
      exact sound
    have hahead : Ahead 0 s.rx.unread := .of_count hlen (waiting_pos hbs hcount hmsg)
    have hcalm : Calm ([.print] ++ rest) := .append (.single rfl) hrest
    exact ⟨done, hbs, hcount, .get hcalm hpart hahead hpassed hmsg⟩
  · exact ⟨done, by rw [held_of_calm hrest]; exact hbs, hcount, .calm hrest hpart hpassed⟩

theorem balance_calm (io : Io) (hbs : bs = done ++ [] ++ s.rx.unread)
    (hcount : s.rx.messageAvailable.toNat + (messages [] done).1.length = counted 0 bs)
    (hst : st.calm = true) (hne : st ≠ .testMessage) (hrest : Calm rest)
    (hpart : (messages [] done).2 = []) (hpassed : s.commands = passed (messages [] done).1)
    (hup : s.upArrowFlag = false) (hdown : s.downArrowFlag = false) :
    (st.run io { s with todo := rest }).rx = s.rx ∧
      Balance bs (st.run io { s with todo := rest }) (st.run io { s with todo := rest }).todo := by
  obtain ⟨hk, l, hl, htodo⟩ := calm_run io (s := { s with todo := rest }) hst hne hup hdown
  simp only [kept, Prod.mk.injEq] at hk
  obtain ⟨hrx, -, hcommands, -⟩ := hk
  have hcalm : Calm (st.run io { s with todo := rest }).todo := by
    rw [htodo]
    exact hl.append hrest
  refine ⟨hrx, done, ?_, ?_, .calm hcalm hpart (hcommands.trans hpassed)⟩
  · rw [held_of_calm hcalm, hrx]
    exact hbs
  · rw [hrx]
    exact hcount

/-- The guard ends the message, or the byte joins it. -/
theorem balance_getGuard (io : Io) {index : Nat} {prev curr : UInt8}
    (hbs : bs = done ++ held (.getGuard index prev curr :: .process :: rest) ++ s.rx.unread)
    (hcount : s.rx.messageAvailable.toNat + (messages [] done).1.length = counted 0 bs)
    (sound : s.rx.occupied ≤ 128) (hrest : Calm rest)
    (hst : (Stmt.getGuard index prev curr).Stands s.buffer (messages [] done).2)
    (hready : (Stmt.getGuard index prev curr).Ready s.rx.unread)
    (hpassed : s.commands = passed (messages [] done).1)
    (hmsg : 0 < s.rx.messageAvailable.toNat) :
    ((Stmt.getGuard index prev curr).run io
        { s with todo := .process :: rest }).rx.occupied ≤ 128 ∧
      Balance bs ((Stmt.getGuard index prev curr).run io { s with todo := .process :: rest })
        ((Stmt.getGuard index prev curr).run io { s with todo := .process :: rest }).todo := by
  obtain ⟨rfl, hlt, hholds, hcurr⟩ := hst
  dsimp only [Stmt.run]
  rw [newlineGuard_eq hready.1]
  have hbs' : bs = done ++ [curr] ++ [] ++ s.rx.unread := by
    rw [List.append_nil]
    exact hbs
  cases hc : isTerm curr with
  | true =>
    rw [hc, if_pos rfl] at hcurr
    rw [if_pos rfl]
    have hsub := PcBuffer.toNat_sub_one hmsg
    refine ⟨sound, done ++ [curr], hbs', ?_, ?_⟩
    · rw [messages_concat_term _ _ hc, List.length_append, List.length_singleton, hsub]
      omega
    · rw [messages_concat_term _ _ hc]
      exact .process hrest rfl rfl hpassed (cString_of_holds hholds hcurr (by omega))
  | false =>
    have hchar : ¬ isTerm curr = true := by simp [hc]
    rw [hc, if_neg (by simp)] at hcurr
    rw [if_neg (by simp)]
    refine ⟨sound, done ++ [curr], hbs', ?_, ?_⟩
    · rw [messages_concat_char _ _ hchar]
      exact hcount
    · rw [messages_concat_char _ _ hchar]
      refine .get hrest ⟨?_, hholds.concat hcurr⟩
        ⟨hc, hready.2 hc⟩ hpassed hmsg
      rw [List.length_append, List.length_singleton]

/-- A statement of `pc_buffer_getMessage` keeps the balance. -/
theorem balance_get (io : Io) (hbs : bs = done ++ held (st :: .process :: rest) ++ s.rx.unread)
    (hcount : s.rx.messageAvailable.toNat + (messages [] done).1.length = counted 0 bs)
    (sound : s.rx.occupied ≤ 128) (hrest : Calm rest)
    (hst : st.Stands s.buffer (messages [] done).2) (hready : st.Ready s.rx.unread)
    (hpassed : s.commands = passed (messages [] done).1)
    (hmsg : 0 < s.rx.messageAvailable.toNat) :
    (st.run io { s with todo := .process :: rest }).rx.occupied ≤ 128 ∧
      Balance bs (st.run io { s with todo := .process :: rest })
        (st.run io { s with todo := .process :: rest }).todo := by
  cases st with
  | getMessage =>
    have hne : ¬ s.rx.messageAvailable = 0 := by
      intro he
      rw [he] at hmsg
      cases hmsg
    dsimp only [Stmt.run]
    rw [if_neg hne]
    refine ⟨sound, done, hbs, hcount, .get hrest ?_ ⟨by decide, hready⟩ hpassed hmsg⟩
    rw [show (messages [] done).2 = [] from hst]
    exact ⟨rfl, rfl⟩
  | getLoop index curr =>
    obtain ⟨hlt, hne⟩ := hready.2.lt
    have hempty : s.rx.isEmpty = false := (PcBuffer.isEmpty_eq_false_iff _).mpr hne
    dsimp only [Stmt.run]
    rw [if_pos ⟨hlt, hempty⟩]
    exact ⟨sound, done, hbs, hcount,
      .get hrest hst hready hpassed hmsg⟩
  | getRemove index prev =>
    obtain ⟨hprev, hahead⟩ := hready
    have hlt := hahead.lt
    have hpos : 0 < s.rx.occupied := (PcBuffer.occupied_pos_iff _).mpr hlt.2
    rw [PcBuffer.unread_remove hpos] at hbs hahead
    refine ⟨(PcBuffer.remove_le_iff sound).mpr hpos, done, ?_, hcount,
      .get hrest
        ⟨hst.1, hst.1 ▸ hlt.1, hst.2⟩ ⟨hprev, fun hc => hahead.tail hc⟩ hpassed hmsg⟩
    rw [hbs]
    simp [held, Stmt.run, first]
  | getStore index prev curr =>
    obtain ⟨hindex, hlt, hholds⟩ := hst
    refine ⟨sound, done, hbs, hcount,
      .get hrest ?_ hready hpassed hmsg⟩
    dsimp only [Stmt.run]
    rw [hindex, newlineGuard_eq hready.1]
    exact ⟨rfl, hlt, hholds.update _, Function.update_self ..⟩
  | getGuard index prev curr =>
    exact balance_getGuard io hbs hcount sound hrest hst hready hpassed hmsg
  | _ => exact hst.elim

theorem balance_process {ms : List (List UInt8)} {m : List UInt8}
    (hbs : bs = done ++ [] ++ s.rx.unread)
    (hcount : s.rx.messageAvailable.toNat + (messages [] done).1.length = counted 0 bs)
    (hrest : Calm rest) (hms : (messages [] done).1 = ms ++ [m])
    (hpart : (messages [] done).2 = []) (hpassed : s.commands = passed ms)
    (hm : cString s.buffer = m.takeWhile (· != 0)) :
    Balance bs (Stmt.run io { s with todo := rest } .process)
      (Stmt.run io { s with todo := rest } .process).todo := by
  have hnil := cString_eq_nil_iff s.buffer
  dsimp only [Stmt.run]
  split
  · rename_i hzero
    refine ⟨done, ?_, hcount, .calm hrest hpart ?_⟩
    · rw [held_of_calm hrest]
      exact hbs
    · rw [hms, passed_concat, if_pos (hm ▸ hnil.mpr hzero)]
      exact hpassed
  · rename_i hzero
    have hcalm : Calm (io.out.map .write ++ rest) := .append (prints_writes io.out).calm hrest
    refine ⟨done, ?_, hcount, .calm hcalm hpart ?_⟩
    · dsimp only [first]
      rw [held_of_calm hcalm]
      exact hbs
    · rw [hms, passed_concat, if_neg (hm ▸ fun he => hzero (hnil.mp he)), ← hm, ← hpassed]
      rfl

end Main

theorem ledger_main {bs : List UInt8} {s : Console} (h : Ledger bs s) (io : Io) :
    Ledger bs (step s (.main io)) := by
  cases htodo : s.todo with
  | nil =>
    rwa [step_main_nil io htodo]
  | cons st rest =>
    have hhandler := handler_run io (s := { s with todo := rest }) st h.up h.down
    obtain ⟨done, hbs, hcount, hstage⟩ := h.balance
    rw [htodo] at hbs hstage
    rw [step_main_cons io htodo]
    cases hstage with
    | calm hcalm hpart hpassed =>
      have hrest : Calm rest := fun x hx => hcalm x (List.mem_cons_of_mem _ hx)
      rw [held_of_calm hcalm] at hbs
      by_cases hne : st = .testMessage
      · subst hne
        refine h.of_handler hhandler ?_
          (balance_testMessage hbs h.sound hcount hrest hpart hpassed)
        dsimp only [Stmt.run]
        split <;> exact h.sound
      · have hbalance := balance_calm io hbs hcount (hcalm st (List.mem_cons_self ..)) hne
          hrest hpart hpassed h.up h.down
        refine h.of_handler hhandler ?_ hbalance.2
        rw [hbalance.1]
        exact h.sound
    | get hrest hst hready hpassed hmsg =>
      have hbalance := balance_get io hbs hcount h.sound hrest hst hready hpassed hmsg
      exact h.of_handler hhandler hbalance.1 hbalance.2
    | process hrest hms hpart hpassed hm =>
      refine h.of_handler hhandler ?_ (balance_process hbs hcount hrest hms hpart hpassed hm)
      dsimp only [Stmt.run]
      split <;> exact h.sound

/-! ## Runs -/

theorem calm_stmts {c : Call} (h : Polls (.call c)) : Calm c.stmts := by
  cases c with
  | checkInput => exact .single rfl
  | write bytes => exact .single rfl
  | read count => exact h.elim

theorem ledger_polls {bs : List UInt8} {s : Console} {i : Input} (h : Ledger bs s) (hi : Polls i) :
    Ledger bs (step s i) := by
  cases i with
  | rx c => exact hi.elim
  | txe =>
    rw [step]
    unfold txIrq
    split
    · exact h.of_handler rfl h.sound (h.balance.of_kept rfl rfl rfl)
    · exact h.of_handler rfl h.sound (h.balance.of_kept rfl rfl rfl)
  | call c =>
    rw [step]
    split
    · rename_i htodo
      refine h.of_handler rfl h.sound ?_
      obtain ⟨done, hbs, hcount, hstage⟩ := h.balance
      rw [htodo] at hbs hstage
      have hcalm := calm_stmts hi
      cases hstage with
      | calm _ hpart hpassed =>
        exact ⟨done, by rw [held_of_calm hcalm]; exact hbs, hcount, .calm hcalm hpart hpassed⟩
    · exact h
  | main io => exact ledger_main h io
  | target tar => exact h.of_handler rfl h.sound (h.balance.of_kept rfl rfl rfl)

theorem ledger_step {bs : List UInt8} {s : Console} {i : Input} (h : Ledger bs s)
    (hi : Ordinary s i) : Ledger (bs ++ received i) (step s i) := by
  cases i with
  | rx c => exact ledger_rx h hi.1 hi.2
  | txe => simpa [received] using ledger_polls h (i := .txe) trivial
  | call c => simpa [received] using ledger_polls h (i := .call c) (by cases c <;> exact hi)
  | main io => simpa [received] using ledger_polls h (i := .main io) trivial
  | target tar => simpa [received] using ledger_polls h (i := .target tar) trivial

theorem ledger_run {bs : List UInt8} {s : Console} {is : List Input} (h : Ledger bs s)
    (his : Machine.Always step Ordinary s is) :
    Ledger (bs ++ is.flatMap received) (Machine.run step s is) := by
  have hstep : ∀ bs s i, Ledger bs s → Ordinary s i → Ledger (bs ++ received i) (step s i) :=
    fun _ _ _ hs hi => ledger_step hs hi
  exact Machine.run_inv_log received hstep h his

theorem ledger_polling {bs : List UInt8} {s : Console} {js : List Input} (h : Ledger bs s)
    (hjs : ∀ j ∈ js, Polls j) : Ledger bs (Machine.run step s js) := by
  have hstep : ∀ s i, Ledger bs s → Polls i → Ledger bs (step s i) :=
    fun _ _ hs hi => ledger_polls hs hi
  exact Machine.run_inv hstep h (Machine.always_of_forall fun _ j hj => hjs j hj)

/-! ## Quiescence -/

/-- No message is counted, and none is being taken out. -/
def Quiet (s : Console) : Prop := s.rx.messageAvailable = 0 ∧ Calm s.todo

theorem quiet_step {bs : List UInt8} {s : Console} {i : Input} (h : Ledger bs s) (hq : Quiet s)
    (hi : Polls i) : Quiet (step s i) := by
  obtain ⟨hmsg, hcalm⟩ := hq
  cases i with
  | rx c => exact hi.elim
  | txe =>
    rw [step]
    unfold txIrq
    split <;> exact ⟨hmsg, hcalm⟩
  | call c =>
    rw [step]
    split
    · exact ⟨hmsg, calm_stmts hi⟩
    · exact ⟨hmsg, hcalm⟩
  | main io =>
    cases htodo : s.todo with
    | nil =>
      rw [step_main_nil io htodo]
      exact ⟨hmsg, hcalm⟩
    | cons st rest =>
      rw [htodo] at hcalm
      have hrest : Calm rest := fun x hx => hcalm x (List.mem_cons_of_mem _ hx)
      rw [step_main_cons io htodo]
      by_cases hne : st = .testMessage
      · subst hne
        dsimp only [Stmt.run]
        rw [hmsg, if_neg (by decide)]
        exact ⟨hmsg, hrest⟩
      · obtain ⟨hk, l, hl, htodo'⟩ := calm_run io (s := { s with todo := rest })
          (hcalm st (List.mem_cons_self ..)) hne h.up h.down
        have hrx := congrArg Prod.fst hk
        dsimp only [kept] at hrx
        rw [Quiet, hrx, htodo']
        exact ⟨hmsg, hl.append hrest⟩
  | target tar => exact ⟨hmsg, hcalm⟩

theorem quiet_polling {bs : List UInt8} {s : Console} {js : List Input} (h : Ledger bs s)
    (hq : Quiet s) (hjs : ∀ j ∈ js, Polls j) : Quiet (Machine.run step s js) := by
  have hstep : ∀ s i, Ledger bs s ∧ Quiet s → Polls i → Ledger bs (step s i) ∧ Quiet (step s i) :=
    fun _ _ hs hi => ⟨ledger_polls hs.1 hi, quiet_step hs.1 hs.2 hi⟩
  exact (Machine.run_inv hstep ⟨h, hq⟩ (Machine.always_of_forall fun _ j hj => hjs j hj)).2

theorem delivered_iff_lines {bs : List UInt8} {s : Console} (h : Ledger bs s) (hq : Quiet s) :
    Delivered bs s ↔ pairLast bs = true ∧ ∀ l ∈ lines [] bs, 0 ∉ l := by
  obtain ⟨hmsg, hcalm⟩ := hq
  obtain ⟨done, hbs, hcount, hstage⟩ := h.balance
  have hpassed : s.commands = passed (messages [] done).1 := (hstage.of_calm hcalm).2
  rw [held_of_calm hcalm, List.append_nil] at hbs
  rw [hmsg] at hcount
  have htake : bs.take (bs.length - s.rx.occupied) = done := by
    rw [hbs, List.length_append, PcBuffer.length_unread, Nat.add_sub_cancel, List.take_left']
    rfl
  rw [Delivered, hpassed, htake]
  exact passed_lines_iff hbs (by simpa using hcount)

/-! ## Progress -/

/-- A bound on the steps that a statement takes when nothing is printed, the transmitter is ready
and `n` characters are waiting. -/
def Stmt.weight (n : Nat) : Stmt → Nat
  | .write bytes => 2 * bytes.length + 3
  | .checkInput => 4 * n + 8
  | .testUp => 4 * n + 7
  | .testMessage => 4 * n + 6
  | .getMessage => 4 * n + 3
  | .getLoop _ _ => 4 * n + 2
  | .getRemove _ _ => 4 * n + 1
  | .getStore _ _ _ => 4 * n + 4
  | .getGuard _ _ _ => 4 * n + 3
  | _ => 1

def weight (n : Nat) (todo : List Stmt) : Nat := (todo.map (Stmt.weight n)).sum

/-- The statement is on the way to take a message. -/
def Stmt.checks : Stmt → Bool
  | .checkInput => true
  | .testUp => true
  | .testMessage => true
  | st => st.isGet

def Checks (todo : List Stmt) : Prop := ∃ st rest, todo = st :: rest ∧ st.checks = true

theorem weight_cons (n : Nat) (st : Stmt) (rest : List Stmt) :
    weight n (st :: rest) = st.weight n + weight n rest := List.sum_cons

theorem weight_append (n : Nat) (l l' : List Stmt) :
    weight n (l ++ l') = weight n l + weight n l' := by
  rw [weight, List.map_append, List.sum_append]
  rfl

theorem weight_mono {n n' : Nat} (h : n ≤ n') (todo : List Stmt) :
    weight n todo ≤ weight n' todo := by
  induction todo with
  | nil => exact Nat.le_refl _
  | cons st rest ih =>
    have hst : st.weight n ≤ st.weight n' := by
      cases st <;> simp only [Stmt.weight] <;> omega
    rw [weight_cons, weight_cons]
    exact Nat.add_le_add hst ih

theorem weight_writeLoop (n : Nat) (bytes : List UInt8) :
    weight n (writeLoop bytes) = 2 * bytes.length + 2 := by
  have hbytes : weight n (bytes.flatMap fun c => [.guardTx, .addTx c]) = 2 * bytes.length := by
    induction bytes with
    | nil => rfl
    | cons c bytes ih =>
      rw [List.flatMap_cons, weight_append, ih, List.length_cons]
      simp only [weight, List.map_cons, List.map_nil, List.sum_cons, List.sum_nil, Stmt.weight]
      omega
  rw [writeLoop, weight_append, hbytes]
  rfl

/-- What is put in front of the rest weighs less than the statement, and either the check goes on or
a message has been taken. -/
def Advances (s s' : Console) (st : Stmt) : Prop :=
  s'.rx.occupied ≤ s.rx.occupied ∧
    s'.rx.messageAvailable.toNat ≤ s.rx.messageAvailable.toNat ∧
    ∃ l, s'.todo = l ++ s.todo ∧ weight s'.rx.occupied l < st.weight s.rx.occupied ∧
      (st.checks = true → 0 < s.rx.messageAvailable.toNat →
        Checks l ∨ s'.rx.messageAvailable.toNat < s.rx.messageAvailable.toNat)

section Advances

variable {s s' : Console} {st : Stmt}

theorem Advances.of_kept {l : List Stmt} (hrx : s'.rx = s.rx) (htodo : s'.todo = l ++ s.todo)
    (hweight : weight s.rx.occupied l < st.weight s.rx.occupied)
    (hchecks : st.checks = true → 0 < s.rx.messageAvailable.toNat → Checks l) :
    Advances s s' st := by
  refine ⟨by rw [hrx], by rw [hrx], l, htodo, by rwa [hrx], fun hc hm => .inl (hchecks hc hm)⟩

theorem advances_calm (hst : st.calm = true) (htx : s.tx.isEmpty = true)
    (hup : s.upArrowFlag = false) (hdown : s.downArrowFlag = false) :
    Advances s (st.run silent s) st := by
  have hfull : s.tx.isFull = false := by
    rw [PcBuffer.isEmpty_iff] at htx
    rw [Bool.eq_false_iff, Ne, PcBuffer.isFull_iff]
    omega
  cases st with
  | write bytes =>
    dsimp only [Stmt.run]
    cases s.tar with
    | udp => exact .of_kept (l := []) rfl rfl (by simp [weight, Stmt.weight]) nofun
    | usbSerial =>
      refine .of_kept (l := writeLoop bytes) rfl rfl ?_ nofun
      rw [weight_writeLoop, Stmt.weight]
      omega
  | guardTx =>
    dsimp only [Stmt.run]
    rw [hfull, if_neg (by simp)]
    exact .of_kept (l := []) rfl rfl (by simp [weight, Stmt.weight]) nofun
  | awaitTx =>
    dsimp only [Stmt.run]
    rw [hfull, if_neg (by simp)]
    exact .of_kept (l := []) rfl rfl (by simp [weight, Stmt.weight]) nofun
  | addTx c => exact .of_kept (l := []) rfl rfl (by simp [weight, Stmt.weight]) nofun
  | enableTxe => exact .of_kept (l := []) rfl rfl (by simp [weight, Stmt.weight]) nofun
  | drainTx =>
    dsimp only [Stmt.run]
    rw [htx, if_pos rfl]
    exact .of_kept (l := []) rfl rfl (by simp [weight, Stmt.weight]) nofun
  | checkInput =>
    dsimp only [Stmt.run]
    rw [hup, hdown, if_neg (by simp)]
    exact .of_kept (l := [.testUp]) rfl rfl (by simp [weight, Stmt.weight])
      fun _ _ => ⟨_, _, rfl, rfl⟩
  | testUp =>
    dsimp only [Stmt.run]
    rw [hup, if_neg (by simp)]
    exact .of_kept (l := [.testMessage]) rfl rfl (by simp [weight, Stmt.weight])
      fun _ _ => ⟨_, _, rfl, rfl⟩
  | testMessage =>
    dsimp only [Stmt.run]
    split
    · exact .of_kept (l := [.getMessage, .process, .print]) rfl rfl (by simp [weight, Stmt.weight])
        fun _ _ => ⟨_, _, rfl, rfl⟩
    · rename_i hzero
      refine .of_kept (l := []) rfl rfl (by simp [weight, Stmt.weight]) fun _ hm => ?_
      have hpos : 0 < s.rx.messageAvailable := UInt16.lt_iff_toNat_lt.mpr hm
      exact absurd hpos hzero
  | print => exact .of_kept (l := []) rfl rfl (by simp [weight, Stmt.weight]) nofun
  | _ => cases hst

theorem advances_get (hst : st.isGet = true) (hready : st.Ready s.rx.unread)
    (hmsg : 0 < s.rx.messageAvailable.toNat) : Advances s (st.run silent s) st := by
  cases st with
  | getMessage =>
    have hne : ¬ s.rx.messageAvailable = 0 := by
      intro he
      rw [he] at hmsg
      cases hmsg
    dsimp only [Stmt.run]
    rw [if_neg hne]
    exact .of_kept (l := [.getLoop 0 0]) rfl rfl (by simp [weight, Stmt.weight])
      fun _ _ => ⟨_, _, rfl, rfl⟩
  | getLoop index curr =>
    obtain ⟨hlt, hne⟩ := hready.2.lt
    have hempty : s.rx.isEmpty = false := (PcBuffer.isEmpty_eq_false_iff _).mpr hne
    dsimp only [Stmt.run]
    rw [if_pos ⟨hlt, hempty⟩]
    exact .of_kept (l := [.getRemove index curr]) rfl rfl (by simp [weight, Stmt.weight])
      fun _ _ => ⟨_, _, rfl, rfl⟩
  | getRemove index prev =>
    have hpos : 0 < s.rx.occupied := (PcBuffer.occupied_pos_iff _).mpr hready.2.lt.2
    have hocc : s.rx.remove.2.occupied + 1 = s.rx.occupied := by
      rw [← PcBuffer.length_unread, ← PcBuffer.length_unread, PcBuffer.unread_remove hpos]
      rfl
    refine ⟨?_, Nat.le_refl _, [.getStore index prev s.rx.remove.1], rfl, ?_,
      fun _ _ => .inl ⟨_, _, rfl, rfl⟩⟩
    · dsimp only [Stmt.run, first]
      omega
    · simp only [weight, Stmt.run, first, List.map_cons, List.map_nil, List.sum_cons, List.sum_nil,
        Stmt.weight]
      omega
  | getStore index prev curr =>
    exact .of_kept (l := [.getGuard (index + 1) prev curr]) rfl rfl (by simp [weight, Stmt.weight])
      fun _ _ => ⟨_, _, rfl, rfl⟩
  | getGuard index prev curr =>
    dsimp only [Stmt.run]
    split
    · have hsub := PcBuffer.toNat_sub_one hmsg
      refine ⟨Nat.le_refl _, ?_, [], rfl, by simp [weight, Stmt.weight], fun _ _ => .inr ?_⟩
      · dsimp only
        omega
      · dsimp only
        omega
    · exact .of_kept (l := [.getLoop index curr]) rfl rfl (by simp [weight, Stmt.weight])
        fun _ _ => ⟨_, _, rfl, rfl⟩
  | _ => cases hst

end Advances

theorem advances_main {bs : List UInt8} {s : Console} {st : Stmt} {rest : List Stmt}
    (h : Ledger bs s) (htodo : s.todo = st :: rest) (htx : s.tx.isEmpty = true) :
    Advances { s with todo := rest } (step s (.main silent)) st := by
  obtain ⟨done, -, -, hstage⟩ := h.balance
  rw [htodo] at hstage
  rw [step_main_cons silent htodo]
  cases hstage with
  | calm hcalm => exact advances_calm (hcalm st (List.mem_cons_self ..)) htx h.up h.down
  | get hrest hst hready hpassed hmsg =>
    have hget : st.isGet = true := by
      cases st <;> first | rfl | exact hst.elim
    exact advances_get hget hready hmsg
  | process =>
    dsimp only [Stmt.run]
    split
    · exact .of_kept (l := []) rfl rfl (by simp [weight, Stmt.weight]) nofun
    · exact .of_kept (l := []) rfl rfl (by simp [weight, Stmt.weight]) nofun

/-- The transmitter sends what is in `usart3_tx`. -/
theorem exists_sent (s : Console) : ∃ js, (∀ j ∈ js, Polls j) ∧
    (Machine.run step s js).tx.isEmpty = true ∧ (Machine.run step s js).rx = s.rx ∧
      (Machine.run step s js).todo = s.todo := by
  induction hn : s.tx.occupied generalizing s with
  | zero => exact ⟨[], by simp, (PcBuffer.isEmpty_iff _).mpr hn, rfl, rfl⟩
  | succ n ih =>
    have hempty : ¬ s.tx.isEmpty = true := by
      rw [PcBuffer.isEmpty_iff]
      omega
    have hstep : step s .txe = { s with tdr := s.tx.remove.1, tx := s.tx.remove.2 } := by
      rw [step, txIrq, if_neg hempty]
    have hocc : (step s .txe).tx.occupied = n := by
      have hlen := congrArg List.length (PcBuffer.unread_remove (b := s.tx) (by omega))
      rw [List.length_cons, PcBuffer.length_unread, PcBuffer.length_unread] at hlen
      rw [hstep]
      dsimp only
      omega
    obtain ⟨js, hjs, htx, hrx, htodo⟩ := ih (step s .txe) hocc
    refine ⟨.txe :: js, ?_, htx, ?_, ?_⟩
    · exact List.forall_mem_cons.mpr ⟨trivial, hjs⟩
    · rw [Machine.run_cons, hrx, hstep]
    · rw [Machine.run_cons, htodo, hstep]

/-- The main loop finishes what it is doing; if it is taking a message, one is taken. -/
theorem exists_done {bs : List UInt8} {s : Console} (h : Ledger bs s) :
    ∃ js, (∀ j ∈ js, Polls j) ∧ (Machine.run step s js).todo = [] ∧
      (Machine.run step s js).rx.messageAvailable.toNat ≤ s.rx.messageAvailable.toNat ∧
      (Checks s.todo → 0 < s.rx.messageAvailable.toNat →
        (Machine.run step s js).rx.messageAvailable.toNat < s.rx.messageAvailable.toNat) := by
  induction hn : weight s.rx.occupied s.todo using Nat.strongRecOn generalizing s with
  | ind n ih =>
    cases htodo : s.todo with
    | nil =>
      refine ⟨[], by simp, htodo, Nat.le_refl _, ?_⟩
      rintro ⟨st, rest, hst, -⟩
      cases hst
    | cons st rest =>
      obtain ⟨js, hjs, htx, hrx, htodo'⟩ := exists_sent s
      have hledger := ledger_polling h hjs
      rw [htodo] at htodo'
      obtain ⟨hocc, hmsg, l, hl, hweight, hchecks⟩ := advances_main hledger htodo' htx
      dsimp only at hocc hmsg hl hweight hchecks
      rw [hrx] at hocc hmsg hweight hchecks
      have hless : weight (step (Machine.run step s js) (.main silent)).rx.occupied
          (step (Machine.run step s js) (.main silent)).todo < n := by
        have hrest := weight_mono hocc rest
        rw [hl, weight_append, ← hn, htodo, weight_cons]
        exact Nat.add_lt_add_of_lt_of_le hweight hrest
      obtain ⟨ks, hks, hdone, hle, hlt⟩ :=
        ih _ hless (ledger_polls (i := .main silent) hledger trivial) rfl
      have hrun : Machine.run step s (js ++ .main silent :: ks) =
          Machine.run step (step (Machine.run step s js) (.main silent)) ks := by
        rw [Machine.run_append, Machine.run_cons]
      refine ⟨js ++ .main silent :: ks, ?_, ?_, ?_, ?_⟩
      · exact List.forall_mem_append.mpr ⟨hjs, List.forall_mem_cons.mpr ⟨trivial, hks⟩⟩
      · rw [hrun]
        exact hdone
      · rw [hrun]
        omega
      · rintro ⟨st', rest', hst', hc⟩ hpos
        obtain ⟨rfl, rfl⟩ := List.cons.inj hst'
        rw [hrun]
        by_cases hsame : (step (Machine.run step s js) (.main silent)).rx.messageAvailable.toNat <
            s.rx.messageAvailable.toNat
        · omega
        · obtain hl' | hmsg' := hchecks hc hpos
          · obtain ⟨x, xs, rfl, hx⟩ := hl'
            have := hlt ⟨x, xs ++ rest, hl, hx⟩ (by omega)
            omega
          · exact absurd hmsg' hsame

theorem exists_quiet {bs : List UInt8} {s : Console} (h : Ledger bs s) :
    ∃ js, (∀ j ∈ js, Polls j) ∧ Quiet (Machine.run step s js) := by
  induction hn : s.rx.messageAvailable.toNat using Nat.strongRecOn generalizing s with
  | ind n ih =>
    obtain ⟨js, hjs, htodo, hle, -⟩ := exists_done h
    have hledger := ledger_polling h hjs
    by_cases hzero : (Machine.run step s js).rx.messageAvailable.toNat = 0
    · refine ⟨js, hjs, UInt16.toNat_inj.mp hzero, ?_⟩
      rw [htodo]
      exact .nil
    · have hcall : step (Machine.run step s js) (.call .checkInput) =
          { Machine.run step s js with todo := [.checkInput] } := by
        rw [step, if_pos htodo]
        rfl
      have hledger' := ledger_polls (i := .call .checkInput) hledger trivial
      obtain ⟨ks, hks, -, -, hlt⟩ := exists_done hledger'
      have hmsg : (step (Machine.run step s js) (.call .checkInput)).rx =
          (Machine.run step s js).rx := by
        rw [hcall]
      have hless := hlt (by rw [hcall]; exact ⟨_, _, rfl, rfl⟩)
        (by rw [hmsg]; exact Nat.pos_of_ne_zero hzero)
      rw [hmsg] at hless
      obtain ⟨ls, hls, hquiet⟩ := ih _ (by omega) (ledger_polling hledger' hks) rfl
      refine ⟨js ++ .call .checkInput :: (ks ++ ls), ?_, ?_⟩
      · exact List.forall_mem_append.mpr
          ⟨hjs, List.forall_mem_cons.mpr ⟨trivial, List.forall_mem_append.mpr ⟨hks, hls⟩⟩⟩
      · rw [Machine.run_append, Machine.run_cons, Machine.run_append]
        exact hquiet

theorem Ledger.settles_iff {bs : List UInt8} {s : Console} (h : Ledger bs s) :
    Settles bs s ↔ pairLast bs = true ∧ ∀ l ∈ lines [] bs, 0 ∉ l := by
  constructor
  · rintro ⟨js, hjs, hdelivered⟩
    have hjs' := ledger_polling h hjs
    obtain ⟨ks, hks, hquiet⟩ := exists_quiet hjs'
    have hks' := hdelivered ks hks
    rw [Machine.run_append] at hks'
    exact (delivered_iff_lines (ledger_polling hjs' hks) hquiet).mp hks'
  · intro hlines
    obtain ⟨js, hjs, hquiet⟩ := exists_quiet h
    have hjs' := ledger_polling h hjs
    refine ⟨js, hjs, ?_⟩
    intro ks hks
    rw [Machine.run_append]
    exact (delivered_iff_lines (ledger_polling hjs' hks) (quiet_polling hjs' hquiet hks)).mpr hlines

/-- After every ordinary run, polling delivers the lines of what was received if and only if no line
end follows after a pair of opposite ones and no line has a NUL in it. -/
theorem settles_run_iff {tx rx : Nat → UInt8} {is : List Input}
    (his : Machine.Always step Ordinary (boot tx rx) is) :
    Settles (is.flatMap received) (Machine.run step (boot tx rx) is) ↔
      pairLast (is.flatMap received) = true ∧ ∀ l ∈ lines [] (is.flatMap received), 0 ∉ l :=
  (ledger_run (ledger_boot tx rx) his).settles_iff

/-- A line that ends with CR LF, and a call of `check_input` before its end has come. -/
def earlyCall : List Input :=
  [.rx 97, .call .checkInput, .rx 98, .main silent, .main silent, .rx 13, .main silent, .rx 10]

theorem earlyCall_settles : Settles (earlyCall.flatMap received)
    (Machine.run step (boot (fun _ => 0) fun _ => 0) earlyCall) :=
  (settles_run_iff (by decide +kernel)).mpr (by decide)

/-- Two lines that end with CR LF. -/
def twoLines : List Input := [120, 13, 10, 97, 98, 99, 13, 10].map .rx

/-- The second one waits for ever: the LF of the first is taken for a message of its own. -/
theorem twoLines_waiting :
    Machine.Always step Ordinary (boot (fun _ => 0) fun _ => 0) twoLines ∧
      (let s := Machine.run step (boot (fun _ => 0) fun _ => 0) (twoLines ++
        (List.replicate 3 (.call .checkInput :: List.replicate 20 (.main silent))).flatten)
      s.commands = [[120]] ∧ s.rx.messageAvailable = 0 ∧ s.rx.unread = [97, 98, 99, 13, 10]) ∧
      ¬ Settles (twoLines.flatMap received)
        (Machine.run step (boot (fun _ => 0) fun _ => 0) twoLines) := by
  have hordinary : Machine.Always step Ordinary (boot (fun _ => 0) fun _ => 0) twoLines := by
    decide +kernel
  refine ⟨hordinary, by decide +kernel, ?_⟩
  intro h
  have hlast := ((ledger_run (ledger_boot _ _) hordinary).settles_iff.mp h).1
  exact absurd hlast (by decide)

end Console
end PodFirmware
