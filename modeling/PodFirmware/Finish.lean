import PodFirmware.Commands
import PodFirmware.Lib.Inevitable
import PodFirmware.Wake

/-!
# PodFirmware.Finish

The console code of the main loop comes to its end. `_write` waits for room in `usart3_tx` and then
until the ring is empty, so it depends on the interrupt handler; what is printed, and how much of
it, is up to the commands.

* `turn`: a step of the console; the transmitter is served only while its interrupt is on.
* `Leads`: a state is reached whatever the commands print, as long as the main loop and the
  transmitter go on.
* `Returns`: some statements are done in the end.
* `finishes`: from every state that is reached, all of them.
-/

namespace PodFirmware
namespace Console

def turn (s : Console) : Input → Console
  | .txe => if s.txeie then s.txIrq else s
  | i => step s i

theorem awake_turn (s : Console) (i : Input) (h : Awake s) : Awake (turn s i) := by
  cases i with
  | txe =>
    rw [turn]
    split
    · exact awake_txIrq h
    · exact h
  | rx c => exact awake_step s (.rx c) h
  | call c => exact awake_step s (.call c) h
  | main io => exact awake_step s (.main io) h
  | target tar => exact awake_step s (.target tar) h

inductive Kind where
  | main
  | txe
  deriving DecidableEq, Repr

/-- Nothing is received, and the main loop calls nothing else. -/
def kind : Input → Option Kind
  | .main _ => some .main
  | .txe => some .txe
  | _ => none

def Leads (s : Console) (Q : Console → Prop) : Prop := Machine.Inevitable turn kind s Q

/-- The statement waits for the transmitter. -/
def Stmt.Waits (s : Console) : Stmt → Prop
  | .awaitTx => s.tx.isFull = true
  | .drainTx => s.tx.isEmpty = false
  | _ => False

/-- All but the transmitter is the same. -/
def Same (s t : Console) : Prop :=
  ∃ tx txeie tdr, t = { s with tx := tx, txeie := txeie, tdr := tdr }

theorem Same.refl (s : Console) : Same s s := ⟨s.tx, s.txeie, s.tdr, rfl⟩

theorem Same.trans {s t u : Console} (h : Same s t) (h' : Same t u) : Same s u := by
  obtain ⟨tx, txeie, tdr, rfl⟩ := h
  obtain ⟨tx', txeie', tdr', rfl⟩ := h'
  exact ⟨tx', txeie', tdr', rfl⟩

section Steps

variable {s t : Console} {st : Stmt} {rest : List Stmt}

theorem same_turn (s : Console) : Same s (turn s .txe) := by
  rw [turn]
  split
  · rw [txIrq]
    split <;> exact ⟨_, _, _, rfl⟩
  · exact .refl s

theorem Same.todo (h : Same s t) : t.todo = s.todo := by
  obtain ⟨tx, txeie, tdr, rfl⟩ := h
  rfl

theorem Same.rx (h : Same s t) : t.rx = s.rx := by
  obtain ⟨tx, txeie, tdr, rfl⟩ := h
  rfl

theorem occupied_txIrq (h : s.tx.isEmpty = false) :
    s.txIrq.tx.occupied + 1 = s.tx.occupied := by
  rw [PcBuffer.isEmpty_eq_false_iff, ← PcBuffer.occupied_pos_iff] at h
  have hne : ¬s.tx.isEmpty = true := by
    rw [PcBuffer.isEmpty_iff]
    omega
  have hlen := congrArg List.length (PcBuffer.unread_remove h)
  rw [List.length_cons, PcBuffer.length_unread, PcBuffer.length_unread] at hlen
  rw [txIrq, if_neg hne]
  exact hlen.symm

theorem occupied_turn_le (s : Console) : (turn s .txe).tx.occupied ≤ s.tx.occupied := by
  rw [turn]
  split
  · cases hempty : s.tx.isEmpty with
    | true =>
      rw [txIrq, if_pos hempty]
    | false =>
      have := occupied_txIrq hempty
      omega
  · exact Nat.le_refl _

/-- A statement that waits is tried again. -/
theorem turn_of_waits (htodo : s.todo = st :: rest) (hwaits : st.Waits s) (io : Io) :
    turn s (.main io) = s := by
  have hrun : turn s (.main io) = st.run io { s with todo := rest } := step_main_cons io htodo
  rw [hrun]
  cases st with
  | awaitTx =>
    have hfull : Stmt.awaitTx.run io { s with todo := rest } =
        { s with todo := [.awaitTx] ++ rest } := if_pos hwaits
    rw [hfull, List.singleton_append, ← htodo]
  | drainTx =>
    have hleft : Stmt.drainTx.run io { s with todo := rest } =
        { s with todo := [.drainTx] ++ rest } := if_neg (Bool.eq_false_iff.mp hwaits)
    rw [hleft, List.singleton_append, ← htodo]
  | _ => cases hwaits

/-- The handler is at work on what the statement waits for. -/
theorem Awake.of_waits (h : Awake s) (htodo : s.todo = st :: rest) (hwaits : st.Waits s) :
    s.tx.isEmpty = false ∧ s.txeie = true := by
  have hsends : st.sends = false := by
    cases st <;> first | rfl | cases hwaits
  have hempty : s.tx.isEmpty = false := by
    cases st with
    | awaitTx =>
      have hfull : s.tx.isFull = true := hwaits
      rw [PcBuffer.isFull_iff] at hfull
      rw [PcBuffer.isEmpty_eq_false_iff, ← PcBuffer.occupied_pos_iff]
      omega
    | drainTx => exact hwaits
    | _ => cases hwaits
  refine ⟨hempty, (h.awake hempty).resolve_right ?_⟩
  rw [htodo]
  exact not_armed_of_not_sends hsends

/-- The next statement is executed: it does not wait for ever, since the transmitter empties the
ring. -/
theorem leads_exec {Q : Console → Prop} (h : Awake s) (htodo : s.todo = st :: rest)
    (hdo : ∀ t io, Same s t → ¬st.Waits t → Awake (st.run io { t with todo := rest }) →
      Leads (st.run io { t with todo := rest }) Q) : Leads s Q := by
  induction hn : s.tx.occupied using Nat.strongRecOn generalizing s with
  | ind n ih =>
    have hsame : ∀ t, Same s t → t.todo = st :: rest := fun t ht => ht.todo.trans htodo
    refine Machine.Inevitable.next (P := fun t => Same s t ∧ Awake t ∧ t.tx.occupied ≤ n) .main
      ⟨.refl s, h, Nat.le_of_eq hn⟩ ?_ ?_
    · rintro t i j ⟨ht, hawake, hle⟩ hi hj
      have htxe : i = .txe := by
        cases i <;> first | rfl | (cases hi; done) | (cases hi; exact absurd rfl hj)
      subst htxe
      exact ⟨ht.trans (same_turn t), awake_turn t .txe hawake,
        Nat.le_trans (occupied_turn_le t) hle⟩
    · rintro t i ⟨ht, hawake, hle⟩ hi
      obtain ⟨io, rfl⟩ : ∃ io, i = .main io := by
        cases i <;> first | exact ⟨_, rfl⟩ | cases hi
      by_cases hwaits : st.Waits t
      · rw [turn_of_waits (hsame t ht) hwaits io]
        obtain ⟨hempty, htxeie⟩ := hawake.of_waits (hsame t ht) hwaits
        refine Machine.Inevitable.next (P := fun u => u = t) .txe rfl ?_ ?_
        · rintro u i j rfl hi hj
          obtain ⟨io, rfl⟩ : ∃ io, i = .main io := by
            cases i <;> first | exact ⟨_, rfl⟩ | (cases hi; done) | (cases hi; exact absurd rfl hj)
          exact turn_of_waits (hsame u ht) hwaits io
        · rintro u i rfl hi
          have htxe : i = .txe := by
            cases i <;> first | rfl | cases hi
          subst htxe
          have hserved : turn u .txe = u.txIrq := if_pos htxeie
          have hocc := occupied_txIrq hempty
          have hsame' : Same s u.txIrq := hserved ▸ ht.trans (same_turn u)
          rw [hserved]
          refine ih u.txIrq.tx.occupied (by omega) (awake_txIrq hawake) (hsame _ hsame') ?_ rfl
          intro v io hv hnot hrun
          exact hdo v io (hsame'.trans hv) hnot hrun
      · have hrun : turn t (.main io) = st.run io { t with todo := rest } :=
          step_main_cons io (hsame t ht)
        rw [hrun]
        exact hdo t io ht hwaits (hrun ▸ awake_turn t (.main io) hawake)

end Steps

/-! ## Statements -/

/-- The statements `l` are done in the end, and `f` is as before. -/
def Returns {γ : Type*} (f : Console → γ) (l : List Stmt) : Prop :=
  ∀ s rest, Awake s → s.todo = l ++ rest → Leads s fun t => Awake t ∧ t.todo = rest ∧ f t = f s

section Statements

variable {γ : Type*} {f : Console → γ} {l l' : List Stmt} {st : Stmt}

theorem Returns.nil : Returns f [] := fun _ _ h htodo => .now ⟨h, htodo, rfl⟩

theorem Returns.append (h : Returns f l) (h' : Returns f l') : Returns f (l ++ l') := by
  intro s rest hawake htodo
  rw [List.append_assoc] at htodo
  refine (h s _ hawake htodo).trans ?_
  rintro t ⟨ht, htodo', hf⟩
  refine (h' t rest ht htodo').mono ?_
  rintro u ⟨hu, htodo'', hf'⟩
  exact ⟨hu, htodo'', hf'.trans hf⟩

/-- A statement, by what it puts in its place. -/
theorem Returns.of_run (hsame : ∀ s t, Same s t → f t = f s)
    (h : ∀ io t, ¬st.Waits t → ∃ l, (st.run io t).todo = l ++ t.todo ∧ f (st.run io t) = f t ∧
      Returns f l) (hrest : ∀ s l, f { s with todo := l } = f s) : Returns f [st] := by
  intro s rest hawake htodo
  rw [List.singleton_append] at htodo
  refine leads_exec hawake htodo fun t io ht hwaits hrun => ?_
  have hwaits' : ¬st.Waits { t with todo := rest } := by
    cases st <;> exact hwaits
  obtain ⟨l, hl, hf, hreturns⟩ := h io { t with todo := rest } hwaits'
  refine (hreturns _ rest hrun hl).mono ?_
  rintro u ⟨hu, htodo', hf'⟩
  exact ⟨hu, htodo', by rw [hf', hf, hrest, hsame s t ht]⟩

/-- The same, where nothing has to stay as it is. -/
theorem Returns.step (h : ∀ io t, ¬st.Waits t → ∃ l, (st.run io t).todo = l ++ t.todo ∧
    Returns (fun _ => ()) l) : Returns (fun _ => ()) [st] := by
  refine .of_run (fun _ _ _ => rfl) (fun io t hwaits => ?_) fun _ _ => rfl
  obtain ⟨l, hl, hreturns⟩ := h io t hwaits
  exact ⟨l, hl, rfl, hreturns⟩

theorem Returns.done (h : Returns f l) : Returns (fun _ => ()) l := by
  intro s rest hawake htodo
  refine (h s rest hawake htodo).mono ?_
  rintro t ⟨ht, htodo', -⟩
  exact ⟨ht, htodo', rfl⟩

theorem Returns.cons (h : Returns f [st]) (h' : Returns f l) : Returns f (st :: l) := h.append h'

section GetMessage

variable {index : Nat}

theorem Returns.getGuard (h : ∀ curr, Returns (fun _ => ()) [.getLoop index curr])
    (prev curr : UInt8) : Returns (fun _ => ()) [.getGuard index prev curr] := by
  refine .step fun io t _ => ?_
  dsimp only [Stmt.run]
  split
  · exact ⟨[], rfl, .nil⟩
  · exact ⟨_, rfl, h curr⟩

theorem Returns.getStore (h : ∀ curr, Returns (fun _ => ()) [.getLoop (index + 1) curr])
    (prev curr : UInt8) : Returns (fun _ => ()) [.getStore index prev curr] :=
  .step fun _ _ _ => ⟨_, rfl, Returns.getGuard h prev curr⟩

theorem Returns.getRemove (h : ∀ curr, Returns (fun _ => ()) [.getLoop (index + 1) curr])
    (prev : UInt8) : Returns (fun _ => ()) [.getRemove index prev] :=
  .step fun _ _ _ => ⟨_, rfl, Returns.getStore h prev _⟩

end GetMessage

end Statements

/-! ## Runs -/

end Console
end PodFirmware
