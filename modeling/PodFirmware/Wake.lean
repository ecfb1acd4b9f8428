import PodFirmware.Console

/-!
# PodFirmware.Wake

No wake-up is lost. The interrupt handler switches the transmitter's interrupt off when it finds
`usart3_tx` empty, and then nothing is sent until someone switches it on again. Both the main loop
and the other half of the handler put characters into the ring.

* `Armed`: the main loop is on its way to `enableTxe`.
* `awake_run`: whenever something is left to send, the interrupt is on or about to be.
-/

namespace PodFirmware
namespace Console

/-- Nothing but characters of the same `_write` comes before `enableTxe`. -/
def Armed : List Stmt → Prop
  | .enableTxe :: _ => True
  | .guardTx :: rest => Armed rest
  | .addTx _ :: rest => Armed rest
  | _ => False

/-- A character is put into `usart3_tx` only on the way to `enableTxe`. -/
def Followed : List Stmt → Prop
  | [] => True
  | .addTx _ :: rest => Armed rest ∧ Followed rest
  | _ :: rest => Followed rest

structure Awake (s : Console) : Prop where
  followed : Followed s.todo
  awake : s.tx.isEmpty = false → s.txeie = true ∨ Armed s.todo

theorem Armed.exists {todo : List Stmt} (h : Armed todo) : ∃ l rest,
    todo = l ++ .enableTxe :: rest ∧ ∀ st ∈ l, st = .guardTx ∨ ∃ c, st = .addTx c := by
  induction todo with
  | nil => cases h
  | cons st todo ih =>
    cases st with
    | enableTxe => exact ⟨[], todo, rfl, nofun⟩
    | guardTx =>
      obtain ⟨l, rest, rfl, hl⟩ := ih h
      exact ⟨.guardTx :: l, rest, rfl, List.forall_mem_cons.mpr ⟨.inl rfl, hl⟩⟩
    | addTx c =>
      obtain ⟨l, rest, rfl, hl⟩ := ih h
      exact ⟨.addTx c :: l, rest, rfl, List.forall_mem_cons.mpr ⟨.inr ⟨c, rfl⟩, hl⟩⟩
    | _ => cases h

/-! ## What is put before the rest -/

theorem armed_writeLoop (bytes : List UInt8) (rest : List Stmt) :
    Armed (writeLoop bytes ++ rest) := by
  induction bytes with
  | nil => trivial
  | cons c bytes ih => exact ih

theorem followed_writeLoop (bytes : List UInt8) {rest : List Stmt} (h : Followed rest) :
    Followed (writeLoop bytes ++ rest) := by
  induction bytes with
  | nil => exact h
  | cons c bytes ih => exact ⟨armed_writeLoop bytes rest, ih⟩

theorem Followed.append {l rest : List Stmt} (hl : ∀ st ∈ l, ∀ c, st ≠ .addTx c)
    (h : Followed rest) : Followed (l ++ rest) := by
  induction l with
  | nil => exact h
  | cons st l ih =>
    have hne := hl st List.mem_cons_self
    have hrest := ih fun st hst => hl st (List.mem_cons_of_mem _ hst)
    cases st with
    | addTx c => exact absurd rfl (hne c)
    | _ => exact hrest

theorem Followed.tail {st : Stmt} {rest : List Stmt} (h : Followed (st :: rest)) :
    Followed rest := by
  cases st with
  | addTx c => exact h.2
  | _ => exact h

/-! ## The interrupt handler -/

section Handler

variable {s : Console}

theorem Awake.of_txeie (hfollowed : Followed s.todo) (h : s.txeie = true) : Awake s :=
  ⟨hfollowed, fun _ => .inl h⟩

/-- Nothing is put into an empty ring. -/
theorem Awake.of_kept {t : Console} (h : Awake s) (htodo : t.todo = s.todo)
    (htxeie : t.txeie = s.txeie) (hempty : s.tx.isEmpty = true → t.tx.isEmpty = true) :
    Awake t := by
  refine ⟨htodo ▸ h.followed, fun hne => ?_⟩
  rw [htodo, htxeie]
  apply h.awake
  rw [Bool.eq_false_iff] at hne ⊢
  exact fun he => hne (hempty he)

theorem echo_kept (s : Console) (c : UInt8) : (s.echo c).todo = s.todo ∧
    (s.echo c).txeie = s.txeie ∧ (s.echo c).tx.occupied ≤ s.tx.occupied + 1 := by
  rw [echo]
  split
  · exact ⟨rfl, rfl, Nat.le_add_right _ _⟩
  · refine ⟨rfl, rfl, ?_⟩
    rw [PcBuffer.occupied, PcBuffer.add, RingBuffer.occupied_push]
    exact Nat.mod_le _ _

/-- After three characters the ring can only be full when it was not empty before. -/
theorem awake_backspaceIrq (h : Awake s) (c : UInt8) : Awake (s.backspaceIrq c) := by
  rw [backspaceIrq]
  split
  · exact h
  · have hfirst := echo_kept { s with rx := s.rx.unproduce } c
    have hsecond := echo_kept ({ s with rx := s.rx.unproduce }.echo c) 32
    generalize ({ s with rx := s.rx.unproduce }.echo c) = t at hfirst hsecond ⊢
    generalize t.echo 32 = u at hsecond ⊢
    obtain ⟨htodo, htxeie, hocc⟩ := hfirst
    obtain ⟨htodo', htxeie', hocc'⟩ := hsecond
    dsimp only at htodo htxeie hocc ⊢
    split
    · next hfull =>
      refine h.of_kept (htodo'.trans htodo) (htxeie'.trans htxeie) fun hempty => ?_
      rw [PcBuffer.isEmpty_iff] at hempty
      rw [PcBuffer.isFull_iff] at hfull
      omega
    · refine .of_txeie ?_ rfl
      dsimp only
      rw [htodo', htodo]
      exact h.followed

theorem awake_acceptIrq (h : Awake s) (prev c : UInt8) : Awake (s.acceptIrq prev c) := by
  unfold acceptIrq
  dsimp only
  split
  · exact ⟨h.followed, h.awake⟩
  · exact .of_txeie h.followed rfl

theorem awake_rxIrq (h : Awake s) (c : UInt8) : Awake (s.rxIrq c) := by
  have hseen : Awake { s with prev2 := s.prev, prev := s.curr, curr := c } := ⟨h.followed, h.awake⟩
  unfold rxIrq
  dsimp only
  split
  · exact awake_backspaceIrq hseen c
  · split
    · exact ⟨h.followed, h.awake⟩
    · split
      · exact ⟨h.followed, h.awake⟩
      · split
        · exact awake_acceptIrq hseen _ c
        · exact hseen

theorem awake_txIrq (h : Awake s) : Awake s.txIrq := by
  rw [txIrq]
  split
  · next hempty =>
    refine ⟨h.followed, fun hne => ?_⟩
    rw [hempty] at hne
    cases hne
  · next hempty =>
    refine ⟨h.followed, fun _ => h.awake ?_⟩
    exact Bool.eq_false_iff.mpr hempty

end Handler

/-! ## The main loop -/

/-- The statements that have to do with `usart3_tx` and its interrupt. -/
def Stmt.sends : Stmt → Bool
  | .write _ => true
  | .guardTx => true
  | .addTx _ => true
  | .enableTxe => true
  | _ => false

/-- The others leave both alone and put none of these before the rest, but a `write`. -/
theorem run_of_not_sends (io : Io) (s : Console) {st : Stmt} (h : st.sends = false) :
    (st.run io s).tx = s.tx ∧ (st.run io s).txeie = s.txeie ∧
      ∃ l, (st.run io s).todo = l ++ s.todo ∧ ∀ st ∈ l, ∀ c, st ≠ .addTx c := by
  have hnil : ∃ l, s.todo = l ++ s.todo ∧ ∀ st ∈ l, ∀ c, st ≠ .addTx c := ⟨[], rfl, nofun⟩
  have hwrites : ∀ st ∈ io.out.map Stmt.write, ∀ c, st ≠ .addTx c := by
    intro st hst c
    obtain ⟨bytes, -, rfl⟩ := List.mem_map.mp hst
    exact nofun
  cases st with
  | write bytes => cases h
  | guardTx => cases h
  | addTx c => cases h
  | enableTxe => cases h
  | print => exact ⟨rfl, rfl, _, rfl, hwrites⟩
  | process =>
    dsimp only [Stmt.run]
    split
    · exact ⟨rfl, rfl, hnil⟩
    · exact ⟨rfl, rfl, _, rfl, hwrites⟩
  | removeRx => exact ⟨rfl, rfl, hnil⟩
  | clearDown => exact ⟨rfl, rfl, hnil⟩
  | recallAdd i => exact ⟨rfl, rfl, hnil⟩
  | clearSwap => exact ⟨rfl, rfl, hnil⟩
  | clearUp => exact ⟨rfl, rfl, hnil⟩
  | getRemove index prev => exact ⟨rfl, rfl, [_], rfl, by simp⟩
  | getStore index prev curr => exact ⟨rfl, rfl, [_], rfl, by simp⟩
  | checkInput =>
    dsimp only [Stmt.run]
    split
    · exact ⟨rfl, rfl, [_, _, _], rfl, by simp⟩
    · exact ⟨rfl, rfl, [_], rfl, by simp⟩
  | erase =>
    dsimp only [Stmt.run]
    split
    · exact ⟨rfl, rfl, hnil⟩
    · exact ⟨rfl, rfl, [_, _, _], rfl, by simp⟩
  | testUp =>
    dsimp only [Stmt.run]
    split <;> exact ⟨rfl, rfl, [_], rfl, by simp⟩
  | testMessage =>
    dsimp only [Stmt.run]
    split
    · exact ⟨rfl, rfl, [_, _, _], rfl, by simp⟩
    · exact ⟨rfl, rfl, hnil⟩
  | «recall» =>
    dsimp only [Stmt.run]
    split
    · exact ⟨rfl, rfl, [_, _, _, _], rfl, by simp⟩
    · exact ⟨rfl, rfl, [_], rfl, by simp⟩
  | recallLoop i =>
    dsimp only [Stmt.run]
    split
    · exact ⟨rfl, rfl, [_, _], rfl, by simp⟩
    · exact ⟨rfl, rfl, hnil⟩
  | awaitTx =>
    dsimp only [Stmt.run]
    split
    · exact ⟨rfl, rfl, [_], rfl, by simp⟩
    · exact ⟨rfl, rfl, hnil⟩
  | drainTx =>
    dsimp only [Stmt.run]
    split
    · exact ⟨rfl, rfl, hnil⟩
    · exact ⟨rfl, rfl, [_], rfl, by simp⟩
  | awaitRx =>
    dsimp only [Stmt.run]
    split
    · exact ⟨rfl, rfl, [_], rfl, by simp⟩
    · exact ⟨rfl, rfl, hnil⟩
  | getMessage =>
    dsimp only [Stmt.run]
    split
    · exact ⟨rfl, rfl, hnil⟩
    · exact ⟨rfl, rfl, [_], rfl, by simp⟩
  | getLoop index curr =>
    dsimp only [Stmt.run]
    split
    · exact ⟨rfl, rfl, [_], rfl, by simp⟩
    · exact ⟨rfl, rfl, hnil⟩
  | getGuard index prev curr =>
    dsimp only [Stmt.run]
    split
    · exact ⟨rfl, rfl, hnil⟩
    · exact ⟨rfl, rfl, [_], rfl, by simp⟩

theorem not_armed_of_not_sends {st : Stmt} {rest : List Stmt} (h : st.sends = false) :
    ¬Armed (st :: rest) := by
  intro harmed
  cases st <;> first | exact False.elim harmed | cases h

section Main

variable {s : Console}

theorem awake_main (h : Awake s) (io : Io) : Awake (s.exec io) := by
  cases htodo : s.todo with
  | nil => rwa [exec, htodo]
  | cons st rest =>
    obtain ⟨hfollowed, hawake⟩ := h
    rw [htodo] at hfollowed hawake
    rw [exec, htodo]
    dsimp only
    by_cases hsends : st.sends = false
    · obtain ⟨htx, htxeie, l, hl, hplain⟩ := run_of_not_sends io { s with todo := rest } hsends
      refine ⟨hl ▸ hfollowed.tail.append hplain, fun hne => .inl ?_⟩
      rw [htx] at hne
      rw [htxeie]
      exact (hawake hne).resolve_right (not_armed_of_not_sends hsends)
    · cases st with
      | write bytes =>
        have hidle : s.tx.isEmpty = false → s.txeie = true :=
          fun hne => (hawake hne).resolve_right id
        dsimp only [Stmt.run]
        cases s.tar with
        | usbSerial =>
          exact ⟨followed_writeLoop bytes hfollowed, fun _ => .inr (armed_writeLoop bytes rest)⟩
        | udp =>
          dsimp only
          split <;> exact ⟨hfollowed, fun hne => .inl (hidle hne)⟩
      | guardTx =>
        dsimp only [Stmt.run]
        split
        · exact .of_txeie hfollowed rfl
        · exact ⟨hfollowed, hawake⟩
      | addTx c => exact ⟨hfollowed.2, fun _ => .inr hfollowed.1⟩
      | enableTxe => exact .of_txeie hfollowed rfl
      | _ => exact absurd rfl hsends

theorem awake_step (s : Console) (i : Input) (h : Awake s) : Awake (step s i) := by
  cases i with
  | rx c => exact awake_rxIrq h c
  | txe => exact awake_txIrq h
  | main io => exact awake_main h io
  | target tar => exact ⟨h.followed, h.awake⟩
  | call c =>
    dsimp only [step]
    split
    · next hidle =>
      have hkeep : ∀ l : List Stmt, (∀ st ∈ l, ∀ c, st ≠ .addTx c) →
          Awake { s with todo := l } := by
        intro l hl
        refine ⟨?_, fun hne => .inl ((h.awake hne).resolve_right ?_)⟩
        · have hfollowed : Followed (l ++ []) := Followed.append hl trivial
          rwa [List.append_nil] at hfollowed
        · rw [hidle]
          exact id
      apply hkeep
      cases c with
      | checkInput => simp [Call.stmts]
      | write bytes => simp [Call.stmts]
      | read count =>
        intro st hst c
        obtain ⟨l, hl, hst⟩ := List.mem_flatten.mp hst
        rw [List.eq_of_mem_replicate hl] at hst
        rcases List.mem_cons.mp hst with rfl | hst
        · exact nofun
        · rw [List.mem_singleton.mp hst]
          exact nofun
    · exact h

end Main

theorem awake_boot (tx rx : Nat → UInt8) : Awake (boot tx rx) := by
  refine ⟨trivial, fun hne => ?_⟩
  have hempty : (boot tx rx).tx.isEmpty = true := by
    rw [PcBuffer.isEmpty_iff]
    exact PcBuffer.occupied_init tx
  rw [hempty] at hne
  cases hne

theorem awake_of_run (tx rx : Nat → UInt8) (is : List Input) :
    Awake (Machine.run step (boot tx rx) is) :=
  Machine.run_inv_of_step awake_step (awake_boot tx rx)

/-- In every state that is reached, whatever is received and printed and wherever the interrupts
fall: when something is in `usart3_tx`, the interrupt that sends it is on, or the main loop switches
it on before it does anything but put further characters there. -/
theorem awake_run (tx rx : Nat → UInt8) (is : List Input) :
    let s := Machine.run step (boot tx rx) is
    s.tx.isEmpty = false → s.txeie = true ∨ ∃ l rest,
      s.todo = l ++ .enableTxe :: rest ∧ ∀ st ∈ l, st = .guardTx ∨ ∃ c, st = .addTx c := by
  intro s hne
  rcases (awake_of_run tx rx is).awake hne with htxeie | harmed
  · exact .inl htxeie
  · exact .inr harmed.exists

end Console
end PodFirmware
