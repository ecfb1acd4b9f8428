import PodFirmware.Commands

/-!
# PodFirmware.Recall

The up arrow. `check_input` puts the message buffer back into `usart3_rx`, byte by byte, so that the
next line end runs the last command again. But `process_input` has cut the line into its words in
this same buffer, and what is put back ends with the first of them.

* `cString_tokenize`: what `process_input` leaves of a line.
* `Phase`, `Recall`: where `check_input` stands between the up arrow and the recalled line.
* `NextCommand`: the next string given to `process_input`, whatever is polled.
* `nextCommand_iff`: it is the last one again, exactly when that has no blank.
-/

namespace PodFirmware
namespace Console

/-! ## What is left of the line -/

section Buffer

variable {buffer : Nat → UInt8}

theorem tokenize_of_lt {k i : Nat} (h : k < i) (argsIndex left : Nat) :
    tokenize buffer i argsIndex left k = buffer k := by
  induction left generalizing buffer i argsIndex with
  | zero => rfl
  | succ left ih =>
    have hupdate : Function.update buffer i 0 k = buffer k := Function.update_of_ne h.ne ..
    rw [tokenize]
    split
    · dsimp only
      split
      · exact hupdate
      · rw [ih (by omega), hupdate]
    · exact ih (by omega) _

/-- The characters in front of the first blank are passed over. -/
theorem tokenize_skip {m : Nat} (i argsIndex left : Nat)
    (h : ∀ k, i ≤ k → k < i + m → buffer k ≠ 32) :
    tokenize buffer i argsIndex (m + left) = tokenize buffer (i + m) argsIndex left := by
  induction m generalizing i with
  | zero => rw [Nat.zero_add, Nat.add_zero]
  | succ m ih =>
    have hrest : ∀ k, i + 1 ≤ k → k < i + 1 + m → buffer k ≠ 32 := by
      intro k hk hk'
      exact h k (by omega) (by omega)
    rw [show m + 1 + left = m + left + 1 by omega, tokenize, if_neg (h i (by omega) (by omega)),
      ih (i + 1) hrest, Nat.add_assoc, Nat.add_comm 1 m]

theorem Holds.getElem {part : List UInt8} (h : Holds buffer part) {k : Nat} (hk : k < part.length) :
    buffer k = part[k] := by
  have hget : ((List.range part.length).map buffer)[k]? = part[k]? := congrArg (·[k]?) h
  rw [List.getElem?_map, List.getElem?_range hk, List.getElem?_eq_getElem hk] at hget
  exact Option.some.inj hget

theorem Holds.of_getElem {part : List UInt8}
    (h : ∀ k (hk : k < part.length), buffer k = part[k]) : Holds buffer part := by
  refine List.ext_getElem (by simp) ?_
  intro k hk hk'
  simpa using h k hk'

theorem holds_cString (buffer : Nat → UInt8) : Holds buffer (cString buffer) := by
  have hbegin : cString buffer <+: (List.range 1024).map buffer := List.takeWhile_prefix _
  refine .of_getElem fun k hk => ?_
  rw [hbegin.getElem hk, List.getElem_map, List.getElem_range]

/-- The prefix ends where the test fails. -/
theorem takeWhile_ends {p : UInt8 → Bool} {l : List UInt8} {c : UInt8}
    (h : l[(l.takeWhile p).length]? = some c) : p c = false := by
  induction l with
  | nil => cases h
  | cons d l ih =>
    by_cases hd : p d = true
    · rw [List.takeWhile_cons_of_pos hd, List.length_cons, List.getElem?_cons_succ] at h
      exact ih h
    · rw [List.takeWhile_cons_of_neg hd] at h
      rw [← Option.some.inj h]
      simpa using hd

theorem zero_notMem_cString (buffer : Nat → UInt8) : ∀ c ∈ cString buffer, c ≠ 0 := by
  intro c hc
  unfold cString at hc
  simpa using List.mem_takeWhile_imp hc

/-- The first word of the line is left in the buffer. -/
theorem cString_tokenize {text : List UInt8} (hline : cString buffer = text)
    (hlen : text.length < 1024) :
    cString (tokenize buffer 0 1 text.length) = text.takeWhile (· != 32) := by
  have hholds := holds_cString buffer
  rw [hline] at hholds
  generalize hw : text.takeWhile (· != 32) = w
  have hbegin : w <+: text := hw ▸ List.takeWhile_prefix _
  have hword (k : Nat) (hk : k < w.length) : buffer k = w[k] := by
    rw [hholds.getElem (Nat.lt_of_lt_of_le hk hbegin.length_le), hbegin.getElem hk]
  have hskip : ∀ k, 0 ≤ k → k < 0 + w.length → buffer k ≠ 32 := by
    intro k _ hk
    have hk' : k < w.length := by omega
    have hmem : w[k] ∈ text.takeWhile (· != 32) := hw ▸ List.getElem_mem hk'
    rw [hword k hk']
    simpa using List.mem_takeWhile_imp hmem
  obtain ⟨left, hleft⟩ : ∃ left, text.length = w.length + left :=
    ⟨text.length - w.length, by have := hbegin.length_le; omega⟩
  rw [hleft, tokenize_skip 0 1 left hskip, Nat.zero_add]
  have hzero : ∀ c ∈ w, c ≠ 0 := fun c hc =>
    zero_notMem_cString buffer c (hline ▸ hbegin.subset hc)
  have hall : w.takeWhile (· != 0) = w :=
    List.takeWhile_eq_self_iff.mpr fun c hc => bne_iff_ne.mpr (hzero c hc)
  cases left with
  | zero =>
    have hsame : w = text := hbegin.eq_of_length hleft.symm
    rw [tokenize, hline, hsame]
  | succ left =>
    have hblank : buffer w.length = 32 := by
      have hlt : w.length < text.length := by omega
      have hget : text[(text.takeWhile (· != 32)).length]? = some (buffer w.length) := by
        rw [hw, List.getElem?_eq_getElem hlt, hholds.getElem hlt]
      simpa using takeWhile_ends hget
    rw [tokenize, if_pos hblank]
    refine (cString_of_holds (.of_getElem fun k hk => ?_) ?_ (by omega)).trans hall
    · rw [if_neg (by omega), tokenize_of_lt (by omega), Function.update_of_ne hk.ne, hword k hk]
    · rw [if_neg (by omega), tokenize_of_lt (by omega), Function.update_self]

end Buffer

/-! ## From the up arrow to the recalled line -/

/-- The flag, whether there is something to recall, and what is waiting in `usart3_rx`. -/
structure Stands (s : Console) (up swap : Bool) (unread : List UInt8) : Prop where
  up : s.upArrowFlag = up
  swap : s.swapReady = swap
  unread : s.rx.unread = unread

/-- What is left to do, from when the up arrow has been recognised. The word `w` is recalled. -/
inductive Phase (w : List UInt8) (s : Console) : List Stmt → Prop where
  | pressed {todo : List Stmt} (htodo : Calm todo) (hs : Stands s true true []) : Phase w s todo
  | erase {rest : List Stmt} (hrest : Calm rest) (hs : Stands s true true []) :
    Phase w s (.erase :: .clearDown :: .testUp :: rest)
  | clearDown {rest : List Stmt} (hrest : Calm rest) (hs : Stands s true true []) :
    Phase w s (.clearDown :: .testUp :: rest)
  | start {rest : List Stmt} (hrest : Calm rest) (hs : Stands s true true []) :
    Phase w s (.recall :: rest)
  | load {i : Nat} {rest : List Stmt} (hrest : Calm rest) (hi : i ≤ w.length)
      (hs : Stands s true true (w.take i)) :
    Phase w s (.recallLoop i :: .print :: .clearSwap :: .clearUp :: rest)
  | add {i : Nat} {rest : List Stmt} (hrest : Calm rest) (hi : i < w.length)
      (hs : Stands s true true (w.take i)) :
    Phase w s (.recallAdd i :: .recallLoop (i + 1) :: .print :: .clearSwap :: .clearUp :: rest)
  | output {todo l rest : List Stmt} (htodo : todo = l ++ .clearSwap :: .clearUp :: rest)
      (hl : Prints l) (hrest : Calm rest) (hs : Stands s true true w) : Phase w s todo
  | clearUp {rest : List Stmt} (hrest : Calm rest) (hs : Stands s true false w) :
    Phase w s (.clearUp :: rest)
  | done {todo : List Stmt} (htodo : Calm todo) (hs : Stands s false false w) : Phase w s todo

/-- No command reads from `usart3_rx`. -/
def NoRead : Input → Prop
  | .rx _ => True
  | i => Polls i

/-- The up arrow, as the terminal sends it. -/
def upArrow : List UInt8 := [0x1B, 0x5B, 65]

/-- After the part `log` of the up arrow, when `left` is what the last line has left in the buffer,
`ran` are the lines that were run, and nothing else has been typed. -/
structure Recall (left : Nat → UInt8) (ran : List (List UInt8)) (log : List UInt8) (s : Console) :
    Prop where
  curr : ∀ c, log.getLast? = some c → s.curr = c
  prev : ∀ c, log.dropLast.getLast? = some c → s.prev = c
  down : s.downArrowFlag = false
  uncounted : s.rx.messageAvailable = 0
  buffer : s.buffer = left
  commands : s.commands = ran
  phase : log.length < 3 ∧ Calm s.todo ∧ Stands s false true [] ∨
    log.length = 3 ∧ Phase (cString left) s s.todo

section Recalling

variable {left : Nat → UInt8} {ran : List (List UInt8)} {log : List UInt8} {s s' : Console}

theorem Stands.of_kept {up swap : Bool} {unread : List UInt8} (h : Stands s up swap unread)
    (hk : kept s' = kept s) : Stands s' up swap unread := by
  simp only [kept, handler, Prod.mk.injEq] at hk
  obtain ⟨hrx, -, -, ⟨-, -, hup, -⟩, hswap⟩ := hk
  exact ⟨hup.trans h.up, hswap.trans h.swap, by rw [hrx, h.unread]⟩

theorem Phase.of_kept {w : List UInt8} {todo : List Stmt} (h : Phase w s todo)
    (hk : kept s' = kept s) : Phase w s' todo := by
  cases h with
  | pressed htodo hs => exact .pressed htodo (hs.of_kept hk)
  | erase hrest hs => exact .erase hrest (hs.of_kept hk)
  | clearDown hrest hs => exact .clearDown hrest (hs.of_kept hk)
  | start hrest hs => exact .start hrest (hs.of_kept hk)
  | load hrest hi hs => exact .load hrest hi (hs.of_kept hk)
  | add hrest hi hs => exact .add hrest hi (hs.of_kept hk)
  | output htodo hl hrest hs => exact .output htodo hl hrest (hs.of_kept hk)
  | clearUp hrest hs => exact .clearUp hrest (hs.of_kept hk)
  | done htodo hs => exact .done htodo (hs.of_kept hk)

/-- A calm statement, when no key has been pressed and nothing is counted. -/
theorem calm_main (io : Io) {st : Stmt} {rest : List Stmt} (hcalm : Calm (st :: rest))
    (hup : s.upArrowFlag = false) (hdown : s.downArrowFlag = false)
    (hmsg : s.rx.messageAvailable = 0) :
    kept (st.run io { s with todo := rest }) = kept s ∧
      Calm (st.run io { s with todo := rest }).todo := by
  have hrest : Calm rest := fun x hx => hcalm x (List.mem_cons_of_mem _ hx)
  by_cases hne : st = .testMessage
  · subst hne
    have hrun : Stmt.testMessage.run io { s with todo := rest } = { s with todo := rest } :=
      if_neg (by simp [hmsg])
    rw [hrun]
    exact ⟨rfl, hrest⟩
  · obtain ⟨hk, l, hl, htodo⟩ := calm_run io (s := { s with todo := rest })
      (hcalm st (List.mem_cons_self ..)) hne hup hdown
    rw [htodo]
    exact ⟨hk, hl.append hrest⟩

/-- A calm statement, when the up arrow has been pressed. -/
theorem pressed_main (io : Io) {w : List UInt8} {st : Stmt} {rest : List Stmt}
    (hcalm : Calm (st :: rest)) (hs : Stands s true true []) (hmsg : s.rx.messageAvailable = 0) :
    kept (st.run io { s with todo := rest }) = kept s ∧
      Phase w (st.run io { s with todo := rest }) (st.run io { s with todo := rest }).todo := by
  have hrest : Calm rest := fun x hx => hcalm x (List.mem_cons_of_mem _ hx)
  rcases calm_cases (hcalm st (List.mem_cons_self ..)) with hprints | rfl | rfl | rfl
  · obtain ⟨hk, l, hl, htodo⟩ := prints_run io { s with todo := rest } hprints
    rw [htodo]
    exact ⟨hk, .pressed (hl.calm.append hrest) (hs.of_kept hk)⟩
  · have hrun : Stmt.checkInput.run io { s with todo := rest } =
        { s with todo := rest }.first [.erase, .clearDown, .testUp] := if_pos (by simp [hs.up])
    rw [hrun]
    exact ⟨rfl, .erase hrest (hs.of_kept rfl)⟩
  · have hrun : Stmt.testUp.run io { s with todo := rest } =
        { s with todo := rest }.first [.recall] := if_pos (by simp [hs.up])
    rw [hrun]
    exact ⟨rfl, .start hrest (hs.of_kept rfl)⟩
  · have hrun : Stmt.testMessage.run io { s with todo := rest } = { s with todo := rest } :=
      if_neg (by simp [hmsg])
    rw [hrun]
    exact ⟨rfl, .pressed hrest (hs.of_kept rfl)⟩

/-- What the statements of a recall leave alone. -/
def untouched (s : Console) :
    UInt8 × UInt8 × Bool × UInt16 × (Nat → UInt8) × List (List UInt8) :=
  (s.prev, s.curr, s.downArrowFlag, s.rx.messageAvailable, s.buffer, s.commands)

theorem untouched_of_kept (h : kept s' = kept s) : untouched s' = untouched s := by
  simp only [kept, handler, Prod.mk.injEq] at h
  obtain ⟨hrx, hbuffer, hcommands, ⟨hprev, hcurr, -, hdown⟩, -⟩ := h
  simp only [untouched, hrx, hbuffer, hcommands, hprev, hcurr, hdown]

theorem Recall.of_untouched (h : Recall left ran log s) (hk : untouched s' = untouched s)
    (hphase : log.length < 3 ∧ Calm s'.todo ∧ Stands s' false true [] ∨
      log.length = 3 ∧ Phase (cString left) s' s'.todo) : Recall left ran log s' := by
  simp only [untouched, Prod.mk.injEq] at hk
  obtain ⟨hprev, hcurr, hdown, hmsg, hbuffer, hcommands⟩ := hk
  refine ⟨?_, ?_, hdown.trans h.down, hmsg.trans h.uncounted, hbuffer.trans h.buffer,
    hcommands.trans h.commands, hphase⟩
  · intro c hc
    rw [hcurr, h.curr c hc]
  · intro c hc
    rw [hprev, h.prev c hc]

/-- One statement of the recall. -/
theorem phase_main (io : Io) {w : List UInt8} {st : Stmt} {rest : List Stmt}
    (h : Phase w s (st :: rest)) (hw : cString s.buffer = w) (hlen : w.length ≤ 126)
    (hdown : s.downArrowFlag = false) (hmsg : s.rx.messageAvailable = 0) :
    untouched (st.run io { s with todo := rest }) = untouched s ∧
      Phase w (st.run io { s with todo := rest }) (st.run io { s with todo := rest }).todo := by
  cases h with
  | pressed htodo hs =>
    obtain ⟨hk, hphase⟩ := pressed_main io (w := w) htodo hs hmsg
    exact ⟨untouched_of_kept hk, hphase⟩
  | @erase rest hrest hs =>
    have hempty : s.rx.isEmpty = true := (PcBuffer.unread_eq_nil_iff _).mp hs.unread
    have hrun : Stmt.erase.run io { s with todo := .clearDown :: .testUp :: rest } =
        { s with todo := .clearDown :: .testUp :: rest } := if_pos hempty
    rw [hrun]
    exact ⟨rfl, .clearDown hrest (hs.of_kept rfl)⟩
  | clearDown hrest hs =>
    refine ⟨?_, .pressed (Calm.append (.single rfl) hrest) ⟨hs.up, hs.swap, hs.unread⟩⟩
    simp only [Stmt.run, untouched, hdown]
  | start hrest hs =>
    have hrun : Stmt.recall.run io { s with todo := rest } =
        { s with todo := rest }.first [.recallLoop 0, .print, .clearSwap, .clearUp] :=
      if_pos hs.swap
    rw [hrun]
    exact ⟨rfl, .load hrest (Nat.zero_le _) (hs.of_kept rfl)⟩
  | @load i rest hrest hi hs =>
    by_cases hlt : i < w.length
    · have hrun : (Stmt.recallLoop i).run io
          { s with todo := .print :: .clearSwap :: .clearUp :: rest } =
          { s with todo := .print :: .clearSwap :: .clearUp :: rest }.first
            [.recallAdd i, .recallLoop (i + 1)] := by
        dsimp only [Stmt.run]
        rw [hw]
        exact if_pos hlt
      rw [hrun]
      exact ⟨rfl, .add hrest hlt (hs.of_kept rfl)⟩
    · have hrun : (Stmt.recallLoop i).run io
          { s with todo := .print :: .clearSwap :: .clearUp :: rest } =
          { s with todo := .print :: .clearSwap :: .clearUp :: rest } := by
        dsimp only [Stmt.run]
        rw [hw]
        exact if_neg hlt
      have htake : w.take i = w := List.take_of_length_le (by omega)
      rw [htake] at hs
      rw [hrun]
      have hprint : Prints [.print] := List.forall_mem_singleton.mpr rfl
      exact ⟨rfl, .output rfl hprint hrest (hs.of_kept rfl)⟩
  | @add i rest hrest hi hs =>
    have hocc : s.rx.occupied < 128 := by
      rw [← PcBuffer.length_unread, hs.unread, List.length_take]
      omega
    have hchar : s.buffer i = w[i] := by
      have hholds := holds_cString s.buffer
      rw [hw] at hholds
      exact hholds.getElem hi
    have hunread : (s.rx.add (s.buffer i)).unread = w.take (i + 1) := by
      rw [PcBuffer.unread_add _ hocc, hs.unread, hchar, List.take_append_getElem]
    exact ⟨rfl, .load hrest hi ⟨hs.up, hs.swap, hunread⟩⟩
  | @output _ l _ htodo hl hrest hs =>
    cases l with
    | nil =>
      obtain ⟨rfl, rfl⟩ := List.cons.inj htodo
      exact ⟨rfl, .clearUp hrest ⟨hs.up, rfl, hs.unread⟩⟩
    | cons st' l' =>
      obtain ⟨rfl, hrest'⟩ := List.cons.inj htodo
      have hst := hl _ (List.mem_cons_self ..)
      have hl' : Prints l' := fun x hx => hl x (List.mem_cons_of_mem _ hx)
      obtain ⟨hk, new, hnew, htodo'⟩ := prints_run io { s with todo := rest } hst
      refine ⟨untouched_of_kept hk, .output ?_ (hnew.append hl') hrest (hs.of_kept hk)⟩
      rw [htodo', List.append_assoc]
      exact congrArg (new ++ ·) hrest'
  | clearUp hrest hs => exact ⟨rfl, .done hrest ⟨rfl, hs.swap, hs.unread⟩⟩
  | done htodo hs =>
    obtain ⟨hk, hcalm⟩ := calm_main io htodo hs.up hdown hmsg
    exact ⟨untouched_of_kept hk, .done hcalm (hs.of_kept hk)⟩

theorem recall_main (io : Io) (hlen : (cString left).length ≤ 126) (h : Recall left ran log s) :
    Recall left ran log (step s (.main io)) := by
  cases htodo : s.todo with
  | nil =>
    rw [step_main_nil io htodo]
    exact h
  | cons st rest =>
    rw [step_main_cons io htodo]
    rcases h.phase with ⟨hlog, hcalm, hs⟩ | ⟨hlog, hphase⟩
    · rw [htodo] at hcalm
      obtain ⟨hk, hcalm'⟩ := calm_main io hcalm hs.up h.down h.uncounted
      exact h.of_untouched (untouched_of_kept hk) (.inl ⟨hlog, hcalm', hs.of_kept hk⟩)
    · rw [htodo] at hphase
      obtain ⟨hk, hphase'⟩ := phase_main io hphase (by rw [h.buffer]) hlen h.down h.uncounted
      exact h.of_untouched hk (.inr ⟨hlog, hphase'⟩)

theorem phase_call {w : List UInt8} {stmts : List Stmt} (h : Phase w s []) (hcalm : Calm stmts) :
    Phase w s stmts := by
  cases h with
  | pressed htodo hs => exact .pressed hcalm hs
  | output htodo hl hrest hs => exact absurd htodo.symm (List.append_ne_nil_of_right_ne_nil _ nofun)
  | done htodo hs => exact .done hcalm hs

theorem recall_call {c : Call} (hc : Polls (.call c)) (h : Recall left ran log s) :
    Recall left ran log (step s (.call c)) := by
  rw [step]
  split
  · rename_i htodo
    refine h.of_untouched rfl ?_
    rcases h.phase with ⟨hlog, -, hs⟩ | ⟨hlog, hphase⟩
    · exact .inl ⟨hlog, calm_stmts hc, hs.of_kept rfl⟩
    · rw [htodo] at hphase
      exact .inr ⟨hlog, (phase_call hphase (calm_stmts hc)).of_kept rfl⟩
  · exact h

/-- What the transmitter and the target change does not matter. -/
theorem recall_kept (hk : kept s' = kept s) (htodo : s'.todo = s.todo)
    (h : Recall left ran log s) : Recall left ran log s' := by
  refine h.of_untouched (untouched_of_kept hk) ?_
  rw [htodo]
  rcases h.phase with ⟨hlog, hcalm, hs⟩ | ⟨hlog, hphase⟩
  · exact .inl ⟨hlog, hcalm, hs.of_kept hk⟩
  · exact .inr ⟨hlog, hphase.of_kept hk⟩

/-! ## The up arrow is typed -/

theorem upArrow_concat {c : UInt8} (h : log ++ [c] <+: upArrow) :
    log = [] ∧ c = 0x1B ∨ log = [0x1B] ∧ c = 0x5B ∨ log = [0x1B, 0x5B] ∧ c = 65 := by
  obtain ⟨rest, hrest⟩ := h
  match log with
  | [] => simp_all [upArrow]
  | [a] => simp_all [upArrow]
  | [a, b] => simp_all [upArrow]
  | a :: b :: d :: log => simp_all [upArrow]

/-- The three keys leave only the state of the handler, and the last one the flag. -/
theorem recall_rx {c : UInt8} (hc : log ++ [c] <+: upArrow) (h : Recall left ran log s) :
    Recall left ran (log ++ [c]) (s.rxIrq c) := by
  have hidle (hlog : log.length < 3) : Calm s.todo ∧ Stands s false true [] := by
    rcases h.phase with ⟨-, hidle⟩ | ⟨hlog', -⟩
    · exact hidle
    · omega
  obtain ⟨rfl, rfl⟩ | ⟨rfl, rfl⟩ | ⟨rfl, rfl⟩ := upArrow_concat hc
  · obtain ⟨hcalm, hs⟩ := hidle (by decide)
    have hirq : s.rxIrq 0x1B = { s with prev2 := s.prev, prev := s.curr, curr := 0x1B } := by
      simp [rxIrq]
    rw [hirq]
    exact ⟨by simp, nofun, h.down, h.uncounted, h.buffer, h.commands,
      .inl ⟨by decide, hcalm, hs.up, hs.swap, hs.unread⟩⟩
  · obtain ⟨hcalm, hs⟩ := hidle (by decide)
    have hirq : s.rxIrq 0x5B = { s with prev2 := s.prev, prev := s.curr, curr := 0x5B } := by
      simp [rxIrq]
    have hcurr := h.curr 0x1B rfl
    rw [hirq]
    exact ⟨by simp, by simp [hcurr], h.down, h.uncounted, h.buffer, h.commands,
      .inl ⟨by decide, hcalm, hs.up, hs.swap, hs.unread⟩⟩
  · obtain ⟨hcalm, hs⟩ := hidle (by decide)
    have hcurr := h.curr 0x5B rfl
    have hprev := h.prev 0x1B rfl
    have hirq : s.rxIrq 65 =
        { s with prev2 := s.prev, prev := s.curr, curr := 65, upArrowFlag := true } := by
      simp [rxIrq, hcurr, hprev]
    rw [hirq]
    exact ⟨by simp, by simp [hcurr], h.down, h.uncounted, h.buffer, h.commands,
      .inr ⟨by decide, .pressed hcalm ⟨rfl, hs.swap, hs.unread⟩⟩⟩

theorem recall_polls (hlen : (cString left).length ≤ 126) {i : Input} (hi : Polls i)
    (h : Recall left ran log s) : Recall left ran log (step s i) := by
  cases i with
  | rx c => exact hi.elim
  | txe =>
    have hirq : kept s.txIrq = kept s ∧ s.txIrq.todo = s.todo := by
      unfold txIrq
      split <;> exact ⟨rfl, rfl⟩
    exact recall_kept hirq.1 hirq.2 h
  | call c => exact recall_call hi h
  | main io => exact recall_main io hlen h
  | target tar => exact recall_kept (s := s) rfl rfl h

theorem recall_step (hlen : (cString left).length ≤ 126) {i : Input} (hi : NoRead i)
    (h : log <+: upArrow → Recall left ran log s) (hlog : log ++ received i <+: upArrow) :
    Recall left ran (log ++ received i) (step s i) := by
  have hrecall := h ((List.prefix_append ..).trans hlog)
  by_cases hpolls : Polls i
  · have hnil : received i = [] := by
      cases i <;> first | rfl | exact hpolls.elim
    rw [hnil, List.append_nil]
    exact recall_polls hlen hpolls hrecall
  · cases i with
    | rx c => exact recall_rx hlog hrecall
    | _ => exact absurd hi hpolls

/-- While the up arrow is typed and the line is recalled. -/
theorem recall_run {is : List Input} (hlen : (cString left).length ≤ 126)
    (h : Recall left ran [] s) (his : ∀ i ∈ is, NoRead i)
    (hkeys : is.flatMap received = upArrow) :
    Recall left ran upArrow (Machine.run step s is) := by
  have hrun := @Machine.run_inv_log _ _ step (fun _ i => NoRead i) s is _
    (fun log s => log <+: upArrow → Recall left ran log s) received
    (fun _ _ _ hinv hi => recall_step hlen hi hinv) [] (fun _ => h)
    (Machine.always_inputs_iff.mpr his)
  rw [hkeys, List.nil_append] at hrun
  exact hrun (List.prefix_refl _)

end Recalling

/-! ## Enter -/

/-- The same state, when `ran` has been run before. -/
def after (ran : List (List UInt8)) (s : Console) : Console :=
  { s with commands := ran ++ s.commands }

theorem after_run (ran : List (List UInt8)) (io : Io) (s : Console) (st : Stmt) :
    st.run io (after ran s) = after ran (st.run io s) := by
  cases st with
  | write bytes =>
    dsimp only [Stmt.run, after]
    split
    · split <;> rfl
    · rfl
  | process =>
    dsimp only [Stmt.run, after]
    split
    · rfl
    · simp only [first, List.append_assoc]
  | addTx c => rfl
  | enableTxe => rfl
  | removeRx => rfl
  | clearDown => rfl
  | recallAdd i => rfl
  | clearSwap => rfl
  | clearUp => rfl
  | print => rfl
  | getRemove index prev => rfl
  | getStore index prev curr => rfl
  | _ =>
    dsimp only [Stmt.run, after]
    split <;> rfl

theorem after_step (ran : List (List UInt8)) (s : Console) {i : Input} (hi : Polls i) :
    step (after ran s) i = after ran (step s i) := by
  cases i with
  | rx c => exact hi.elim
  | txe =>
    dsimp only [step, txIrq, after]
    split <;> rfl
  | call c =>
    dsimp only [step, after]
    split <;> rfl
  | main io =>
    cases htodo : s.todo with
    | nil => rw [step_main_nil io htodo, step_main_nil io (by exact htodo)]
    | cons st rest =>
      rw [step_main_cons io htodo, step_main_cons (s := after ran s) io htodo, ← after_run]
      rfl
  | target tar => rfl

theorem after_polling (ran : List (List UInt8)) (s : Console) {js : List Input}
    (hjs : ∀ j ∈ js, Polls j) :
    Machine.run step (after ran s) js = after ran (Machine.run step s js) := by
  induction js generalizing s with
  | nil => rfl
  | cons j js ih =>
    obtain ⟨hj, hjs'⟩ := List.forall_mem_cons.mp hjs
    rw [Machine.run_cons, Machine.run_cons, after_step ran s hj, ih _ hjs']

section Entered

variable {bs : List UInt8} {s : Console}

theorem passed_append (ms ms' : List (List UInt8)) :
    passed (ms ++ ms') = passed ms ++ passed ms' := by
  rw [passed, List.map_append, List.filter_append]
  rfl

/-- Nothing has been run that is not among the messages. -/
theorem Ledger.commands_le (h : Ledger bs s) : s.commands <+: passed (messages [] bs).1 := by
  obtain ⟨done, hbs, -, hstage⟩ := h.balance
  have hdone : passed (messages [] done).1 <+: passed (messages [] bs).1 := by
    rw [hbs, List.append_assoc, messages_append, passed_append]
    exact List.prefix_append _ _
  generalize s.todo = todo at hstage
  cases hstage with
  | calm _ _ hpassed => exact hpassed ▸ hdone
  | get _ _ _ hpassed _ => exact hpassed ▸ hdone
  | process _ hms _ hpassed _ =>
    rw [hms, passed_append] at hdone
    rw [hpassed]
    exact (List.prefix_append _ _).trans hdone

/-- When all line ends are counted and nothing is left to take, every message has been run. -/
theorem Ledger.commands_eq (h : Ledger bs s) (hq : Quiet s)
    (hcounted : counted 0 bs = bs.countP isTerm) : s.commands = passed (messages [] bs).1 := by
  obtain ⟨hmsg, hcalm⟩ := hq
  obtain ⟨done, hbs, hcount, hstage⟩ := h.balance
  rw [held_of_calm hcalm, List.append_nil] at hbs
  have hfree : s.rx.unread.countP isTerm = 0 := by
    rw [hmsg, hcounted, length_messages, hbs, List.countP_append] at hcount
    simpa using hcount
  rw [(hstage.of_calm hcalm).2, hbs, messages_append, messages_of_free _ hfree, List.append_nil]

theorem counted_concat {w : List UInt8} {c : UInt8} (hw : ∀ d ∈ w, isTerm d = false)
    (hc : isTerm c = true) : counted 0 (w ++ [c]) = 1 := by
  have hfree : w.countP isTerm = 0 := by
    rw [List.countP_eq_zero]
    simpa using hw
  have hzero : counted 0 w = 0 := by
    have hle := counted_le 0 w
    omega
  have hlast : isTerm (w.getLastD 0) = false := by
    rw [List.getLastD_eq_getLast?]
    cases hd : w.getLast? with
    | none => rfl
    | some d => exact hw d (List.mem_of_getLast? hd)
  have hguard : newlineGuard (w.getLastD 0) c = true := by
    refine (newlineGuard_iff _ _).mpr ⟨hc, Bool.eq_false_iff.mpr fun hop => ?_⟩
    rw [(isTerm_of_opposite hop).1] at hlast
    cases hlast
  rw [counted_append, hzero, counted, if_pos hguard]
  rfl

/-- Enter, when the line `w` has been put back. -/
theorem ledger_enter {w : List UInt8} {c : UInt8} (hc : isTerm c = true)
    (hw : ∀ d ∈ w, isTerm d = false) (hlen : w.length ≤ 126) (hcalm : Calm s.todo)
    (hs : Stands s false false w) (hdown : s.downArrowFlag = false) (hprev : s.prev = 0x5B)
    (hcurr : s.curr = 65) (hmsg : s.rx.messageAvailable = 0) :
    Ledger (w ++ [c]) { s.rxIrq c with commands := [] } := by
  have hkey : c = 10 ∨ c = 13 := by simpa [isTerm] using hc
  have hocc : s.rx.occupied = w.length := by rw [← PcBuffer.length_unread, hs.unread]
  have haccepts : s.accepts c := by
    rcases hkey with rfl | rfl <;> simp [accepts, hprev, hcurr]
  have hhandler := handler_rxIrq haccepts
  simp only [handler, Prod.mk.injEq] at hhandler
  obtain ⟨hprev', hcurr', hup', hdown'⟩ := hhandler
  have hmain := mainLoop_rxIrq s c
  simp only [mainLoop, Prod.mk.injEq] at hmain
  have hcalm' : Calm (s.rxIrq c).todo := by
    rw [hmain.1]
    exact hcalm
  have hunread := unread_rxIrq haccepts (by omega)
  rw [hs.unread] at hunread
  have hcount : (s.rxIrq c).rx.messageAvailable = 1 := by
    have hguard : newlineGuard s.curr c = true := by
      rw [hcurr]
      rcases hkey with rfl | rfl <;> rfl
    rw [messageAvailable_rxIrq haccepts, if_pos hguard, hmsg]
    rfl
  refine ⟨hup'.trans hs.up, hdown'.trans hdown, ?_, ?_, ?_, ?_, [], ?_, ?_, .calm hcalm' rfl rfl⟩
  · rw [hprev', hcurr]
    decide
  · rw [hcurr']
    rcases hkey with rfl | rfl <;> decide
  · rw [hcurr', List.getLastD_concat]
  · rw [← PcBuffer.length_unread, hunread, List.length_append, List.length_singleton]
    omega
  · rw [held_of_calm hcalm', hunread]
    rfl
  · rw [hcount, counted_concat hw hc]
    rfl

theorem passed_enter {w : List UInt8} {c : UInt8} (hc : isTerm c = true)
    (hw : ∀ d ∈ w, isTerm d = false) (hzero : 0 ∉ w) :
    passed (messages [] (w ++ [c])).1 = [w].filter (· ≠ []) := by
  have hfree : w.countP isTerm = 0 := by
    rw [List.countP_eq_zero]
    simpa using hw
  rw [messages_concat_term _ _ hc, messages_of_free _ hfree, List.nil_append, List.nil_append]
  exact (passed_eq_iff [w]).mpr (by simpa using hzero)

/-- The next string given to `process_input` is `line`, whatever is polled. -/
def NextCommand (line : List UInt8) (s : Console) : Prop :=
  (∃ js, (∀ j ∈ js, Polls j) ∧ (Machine.run step s js).commands ≠ s.commands) ∧
    ∀ js, (∀ j ∈ js, Polls j) → (Machine.run step s js).commands ≠ s.commands →
      s.commands ++ [line] <+: (Machine.run step s js).commands

theorem nextCommand_iff_word {w line : List UInt8} {c : UInt8} (hc : isTerm c = true)
    (hw : ∀ d ∈ w, isTerm d = false) (hzero : 0 ∉ w)
    (h : Ledger (w ++ [c]) { s with commands := [] }) :
    NextCommand line s ↔ w ≠ [] ∧ line = w := by
  have hafter : after s.commands { s with commands := [] } = s := by
    rw [after, List.append_nil]
  have hrun {js : List Input} (hjs : ∀ j ∈ js, Polls j) :
      (Machine.run step s js).commands =
        s.commands ++ (Machine.run step { s with commands := [] } js).commands := by
    have hsame := after_polling s.commands { s with commands := [] } hjs
    rw [hafter] at hsame
    rw [hsame]
    rfl
  have hle {js : List Input} (hjs : ∀ j ∈ js, Polls j) :
      (Machine.run step { s with commands := [] } js).commands <+: [w].filter (· ≠ []) := by
    rw [← passed_enter hc hw hzero]
    exact (ledger_polling h hjs).commands_le
  obtain ⟨js, hjs, hquiet⟩ := exists_quiet h
  have hcounted : counted 0 (w ++ [c]) = (w ++ [c]).countP isTerm := by
    rw [counted_concat hw hc, List.countP_append, List.countP_eq_zero.mpr (by simpa using hw)]
    simp [hc]
  have hall := (ledger_polling h hjs).commands_eq hquiet hcounted
  rw [passed_enter hc hw hzero] at hall
  by_cases hword : w = []
  · refine iff_of_false ?_ fun hcond => hcond.1 hword
    rintro ⟨⟨ks, hks, hne⟩, -⟩
    have hnil : (Machine.run step { s with commands := [] } ks).commands = [] := by
      simpa [hword] using hle hks
    rw [hrun hks, hnil, List.append_nil] at hne
    exact hne rfl
  have hone : [w].filter (· ≠ []) = [w] := by simp [hword]
  rw [hone] at hall
  constructor
  · rintro ⟨-, hnext⟩
    have hpassed := hnext js hjs (by rw [hrun hjs, hall]; simp)
    rw [hrun hjs, hall, List.prefix_append_right_inj] at hpassed
    exact ⟨hword, by simpa using hpassed⟩
  · rintro ⟨-, rfl⟩
    refine ⟨⟨js, hjs, by rw [hrun hjs, hall]; simp⟩, fun ks hks hne => ?_⟩
    have hsome := hle hks
    rw [hone, List.prefix_cons_iff] at hsome
    rw [hrun hks] at hne ⊢
    obtain hnil | ⟨more, hmore, -⟩ := hsome
    · rw [hnil, List.append_nil] at hne
      exact absurd rfl hne
    · rw [hmore, List.prefix_append_right_inj]
      exact List.prefix_append [line] more

end Entered

/-! ## A line is run, recalled and entered -/

section Executed

variable {line : List UInt8} {s : Console}

/-- `process_input` is about to be called with `line`, which has been typed on the serial console;
nothing is typed after it. -/
structure Executes (line : List UInt8) (s : Console) : Prop where
  todo : ∃ rest, s.todo = .process :: rest ∧ Calm rest
  typed : cString s.buffer = line
  plain : ∀ c ∈ line, isTerm c = false
  up : s.upArrowFlag = false
  down : s.downArrowFlag = false
  empty : s.rx.unread = []
  uncounted : s.rx.messageAvailable = 0

/-- In an ordinary run it comes to this whenever nothing follows the line. -/
theorem Ledger.executes {bs : List UInt8} {rest : List Stmt} (h : Ledger bs s)
    (htodo : s.todo = .process :: rest) (hempty : s.rx.unread = [])
    (hmsg : s.rx.messageAvailable = 0) : Executes (cString s.buffer) s := by
  obtain ⟨done, -, -, hstage⟩ := h.balance
  rw [htodo] at hstage
  cases hstage with
  | calm hcalm => cases hcalm .process (List.mem_cons_self ..)
  | get _ hst => exact hst.elim
  | @process _ ms' m hrest hms _ _ hm =>
    refine ⟨⟨rest, htodo, hrest⟩, rfl, fun c hc => ?_, h.up, h.down, hempty, hmsg⟩
    have hmem : m ∈ (messages [] done).1 := by
      rw [hms]
      exact List.mem_append_right _ (List.mem_singleton_self m)
    rw [hm] at hc
    exact isTerm_of_mem_messages [] (fun d hd => absurd hd List.not_mem_nil) m hmem c
      ((List.takeWhile_prefix _).subset hc)

theorem Executes.recall (h : Executes line s) (io : Io) (hne : line ≠ []) :
    Recall (tokenize s.buffer 0 1 line.length) (s.commands ++ [line]) [] (step s (.main io)) := by
  obtain ⟨rest, htodo, hrest⟩ := h.todo
  have hbuffer : ¬ s.buffer 0 = 0 := by
    rw [← cString_eq_nil_iff, h.typed]
    exact hne
  have hstep : step s (.main io) = { s with
      swapReady := true
      commands := s.commands ++ [line]
      buffer := tokenize s.buffer 0 1 line.length
      todo := io.out.map .write ++ rest } := by
    rw [step_main_cons io htodo]
    dsimp only [Stmt.run]
    rw [if_neg hbuffer, h.typed]
    rfl
  rw [hstep]
  exact ⟨nofun, nofun, h.down, h.uncounted, rfl, rfl,
    .inl ⟨by decide, (prints_writes io.out).calm.append hrest, h.up, rfl, h.empty⟩⟩

theorem Phase.of_down {w : List UInt8} {todo : List Stmt} (h : Phase w s todo)
    (hup : s.upArrowFlag = false) : Calm todo ∧ Stands s false false w := by
  have hdown {swap : Bool} {unread : List UInt8} (hs : Stands s true swap unread) : False := by
    rw [hs.up] at hup
    cases hup
  cases h with
  | pressed _ hs => exact (hdown hs).elim
  | erase _ hs => exact (hdown hs).elim
  | clearDown _ hs => exact (hdown hs).elim
  | start _ hs => exact (hdown hs).elim
  | load _ _ hs => exact (hdown hs).elim
  | add _ _ hs => exact (hdown hs).elim
  | output _ _ _ hs => exact (hdown hs).elim
  | clearUp _ hs => exact (hdown hs).elim
  | done htodo hs => exact ⟨htodo, hs⟩

/-- What a line leaves in the buffer is recalled, and run by the next Enter. -/
theorem nextCommand_iff_head {left : Nat → UInt8} {ran : List (List UInt8)} {w : List UInt8}
    {c : UInt8} (hleft : cString left = w) (hw : ∀ d ∈ w, isTerm d = false) (hzero : 0 ∉ w)
    (hlen : w.length ≤ 126) (h : Recall left ran upArrow s) (hup : s.upArrowFlag = false)
    (hc : isTerm c = true) : NextCommand line (s.rxIrq c) ↔ w ≠ [] ∧ line = w := by
  have hphase : Phase w s s.todo := by
    rcases h.phase with ⟨hlog, -⟩ | ⟨-, hphase⟩
    · exact absurd hlog (by decide)
    · rwa [hleft] at hphase
  obtain ⟨hcalm, hs⟩ := hphase.of_down hup
  have hledger := ledger_enter hc hw hlen hcalm hs h.down (h.prev 0x5B rfl) (h.curr 65 rfl)
    h.uncounted
  exact nextCommand_iff_word hc hw hzero hledger

/-- The recalled command is the line that was run exactly when the line has no blank. -/
theorem nextCommand_iff (h : Executes line s) (hne : line ≠ []) (hlen : line.length ≤ 126) (io : Io)
    {is : List Input} (his : ∀ i ∈ is, NoRead i) (hkeys : is.flatMap received = upArrow)
    (hup : (Machine.run step s (.main io :: is)).upArrowFlag = false) {c : UInt8}
    (hc : isTerm c = true) :
    NextCommand line (step (Machine.run step s (.main io :: is)) (.rx c)) ↔ 32 ∉ line := by
  have hleft := cString_tokenize h.typed (by omega)
  have hhead : line.takeWhile (· != 32) <+: line := List.takeWhile_prefix _
  have hzero : 0 ∉ line.takeWhile (· != 32) := fun hmem =>
    zero_notMem_cString s.buffer 0 (h.typed ▸ hhead.subset hmem) rfl
  have hhead' : (line.takeWhile (· != 32)).length ≤ 126 := hhead.length_le.trans hlen
  have hrecall := recall_run (by rw [hleft]; exact hhead') (h.recall io hne) his hkeys
  have hplain : ∀ d ∈ line.takeWhile (· != 32), isTerm d = false := fun d hd =>
    h.plain d (hhead.subset hd)
  rw [Machine.run_cons, step, nextCommand_iff_head hleft hplain hzero hhead' hrecall hup hc]
  constructor
  · rintro ⟨-, hsame⟩ hblank
    rw [hsame] at hblank
    exact absurd (List.mem_takeWhile_imp hblank) (by decide)
  · intro hblank
    have hall : line.takeWhile (· != 32) = line :=
      List.takeWhile_eq_self_iff.mpr fun c hc => bne_iff_ne.mpr fun he => hblank (he ▸ hc)
    rw [hall]
    exact ⟨hne, rfl⟩

end Executed

/-- A call of `check_input` with `n` steps of the main loop. -/
def checking (n : Nat) : List Input := .call .checkInput :: List.replicate n (.main silent)

/-- The line is typed, and the call goes up to `process_input`. -/
def typing (line : List UInt8) : List Input :=
  (line ++ [13]).map .rx ++ checking (4 * line.length + 8)

/-- The rest of that call, the up arrow, and a call that puts `n` characters back. -/
def recalling (n : Nat) : List Input := .main silent :: upArrow.map .rx ++ checking (2 * n + 9)

theorem polls_checking (n : Nat) : ∀ j ∈ checking n, Polls j :=
  List.forall_mem_cons.mpr ⟨trivial, fun j hj => by rw [List.eq_of_mem_replicate hj]; trivial⟩

theorem noRead_recalling (n : Nat) : ∀ i ∈ recalling n, NoRead i := by
  intro i hi
  rw [recalling, List.cons_append] at hi
  obtain rfl | hi := List.mem_cons.mp hi
  · trivial
  · obtain hi | hi := List.mem_append.mp hi
    · obtain ⟨c, -, rfl⟩ := List.mem_map.mp hi
      trivial
    · have hpolls := polls_checking _ i hi
      cases i with
      | rx c => trivial
      | _ => exact hpolls

theorem received_recalling (n : Nat) : (recalling n).flatMap received = upArrow := by
  have hnil : (List.replicate (2 * n + 9) (Input.main silent)).flatMap received = [] :=
    List.flatMap_eq_nil_iff.mpr fun i hi => by rw [List.eq_of_mem_replicate hi]; rfl
  simp only [recalling, checking, upArrow, List.map_cons, List.map_nil, List.cons_append,
    List.nil_append, List.flatMap_cons, hnil, received]

/-- The console when `line` has been typed after the start. -/
def typed (line : List UInt8) : Console :=
  Machine.run step (boot (fun _ => 0) fun _ => 0) (typing line)

theorem executes_typed {line : List UInt8}
    (his : Machine.Always step Ordinary (boot (fun _ => 0) fun _ => 0) (typing line))
    (htodo : (typed line).todo = [.process, .print]) (hempty : (typed line).rx.unread = [])
    (hmsg : (typed line).rx.messageAvailable = 0) (hline : cString (typed line).buffer = line) :
    Executes line (typed line) := by
  have hledger : Ledger _ (typed line) := ledger_run (ledger_boot (fun _ => 0) fun _ => 0) his
  have hexecutes := hledger.executes htodo hempty hmsg
  rwa [hline] at hexecutes

/-- The text `help`. -/
def help : List UInt8 := [104, 101, 108, 112]

theorem executes_help : Executes help (typed help) :=
  executes_typed (by decide +kernel) (by decide +kernel) (by decide +kernel) (by decide +kernel)
    (by decide +kernel)

theorem nextCommand_iff_help :
    NextCommand help (step (Machine.run step (typed help) (.main silent :: recalling 4)) (.rx 13)) ↔
      32 ∉ help :=
  nextCommand_iff executes_help (by decide) (by decide) silent (noRead_recalling 4)
    (received_recalling 4) (by decide +kernel) rfl

/-- The text `pin A0`. -/
def pinA0 : List UInt8 := [112, 105, 110, 32, 65, 48]

theorem executes_pinA0 : Executes pinA0 (typed pinA0) :=
  executes_typed (by decide +kernel) (by decide +kernel) (by decide +kernel) (by decide +kernel)
    (by decide +kernel)

/-- Only the first word is run again. -/
theorem pinA0_recalled : Executes pinA0 (typed pinA0) ∧
    let t := Machine.run step (typed pinA0) (.main silent :: recalling 3)
    t.upArrowFlag = false ∧ ¬ NextCommand pinA0 (step t (.rx 13)) ∧
      (Machine.run step (step t (.rx 13)) (checking 24)).commands = [pinA0, [112, 105, 110]] := by
  refine ⟨executes_pinA0, by decide +kernel, ?_, by decide +kernel⟩
  intro h
  have hnext := h.2 (checking 24) (polls_checking 24) (by decide +kernel)
  exact absurd hnext (by decide +kernel)

end Console
end PodFirmware
