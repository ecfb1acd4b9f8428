import PodFirmware.Commands

/-!
# PodFirmware.Escape

Which received characters `USART3_IRQHandler` leaves out. The statics of the handler hold the last
three bytes, and the test for ordinary characters asks for `prev != 0x5B && prev_2 != 0x1B`, where
the tests for the arrow keys ask for `prev == 0x5B` and `prev_2 == 0x1B` together.

* `Listener`: the console and what it has received, the last byte first.
* `Plain`: a byte that is neither a control byte nor the end of an escape sequence.
* `storesPlain_iff`: plain bytes are stored, except right after a `[` and second after an `ESC`.
-/

namespace PodFirmware

structure Listener where
  console : Console
  heard : List UInt8 := []

namespace Listener

open Console (Stmt Io Input received)

def step (l : Listener) (i : Input) : Listener where
  console := l.console.step i
  heard := received i ++ l.heard

/-- Neither backspace, DEL, ESC nor `[`, and not the last byte of `ESC [ X`. -/
def Plain (heard : List UInt8) (c : UInt8) : Prop :=
  c ≠ 0x08 ∧ c ≠ 0x7F ∧ c ≠ 0x1B ∧ c ≠ 0x5B ∧
    ¬(heard.head? = some 0x5B ∧ heard[1]? = some 0x1B)

/-- Plain bytes are put into `usart3_rx`. -/
def StoresPlain (l : Listener) : Input → Prop
  | .rx c => Plain l.heard c → (l.console.rxIrq c).rx.ring = (l.console.rx.add c).ring
  | _ => True

/-- No plain byte comes right after a `[` or second after an `ESC`. -/
def Spared (l : Listener) : Input → Prop
  | .rx c => Plain l.heard c → l.heard.head? ≠ some 0x5B ∧ l.heard[1]? ≠ some 0x1B
  | _ => True

/-- There is room for what is received. -/
def HasRoom (l : Listener) : Input → Prop
  | .rx _ => l.console.rx.isFull = false
  | _ => True

instance (l : Listener) : DecidablePred (HasRoom l)
  | .rx _ => inferInstanceAs (Decidable (_ = _))
  | .txe => instDecidableTrue
  | .call _ => instDecidableTrue
  | .main _ => instDecidableTrue
  | .target _ => instDecidableTrue

/-! ## The statics of the handler -/

/-- The bytes that `prev` and `curr` hold between two interrupts. -/
def statics (s : Console) : UInt8 × UInt8 := (s.prev, s.curr)

theorem statics_echo (s : Console) (c : UInt8) : statics (s.echo c) = statics s := by
  unfold Console.echo
  split <;> rfl

theorem statics_backspaceIrq (s : Console) (c : UInt8) :
    statics (s.backspaceIrq c) = statics s := by
  unfold Console.backspaceIrq
  split
  · rfl
  · have htwice : statics (({ s with rx := s.rx.unproduce }.echo c).echo 32) = statics s :=
      (statics_echo _ 32).trans (statics_echo _ c)
    unfold statics at htwice ⊢
    dsimp only at htwice ⊢
    split
    · exact htwice
    · exact htwice

theorem statics_acceptIrq (s : Console) (prev c : UInt8) :
    statics (s.acceptIrq prev c) = statics s := by
  have hhandler := Console.handler_acceptIrq s prev c
  simp only [Console.handler, Prod.mk.injEq] at hhandler
  exact Prod.ext hhandler.1 hhandler.2.1

theorem statics_rxIrq (s : Console) (c : UInt8) : statics (s.rxIrq c) = (s.curr, c) := by
  unfold Console.rxIrq
  dsimp only
  split
  · exact statics_backspaceIrq _ c
  · split
    · rfl
    · split
      · rfl
      · split
        · exact statics_acceptIrq _ _ c
        · rfl

theorem statics_run (io : Io) (s : Console) (st : Stmt) : statics (st.run io s) = statics s := by
  cases st <;> simp only [Stmt.run] <;> (repeat' split) <;> rfl

theorem statics_step {s : Console} {i : Input} (h : received i = []) :
    statics (s.step i) = statics s := by
  cases i with
  | rx c => exact absurd h (List.cons_ne_nil c [])
  | txe =>
    simp only [Console.step, Console.txIrq]
    split <;> rfl
  | call c =>
    simp only [Console.step]
    split <;> rfl
  | main io =>
    cases htodo : s.todo with
    | nil => rw [Console.step_main_nil io htodo]
    | cons st rest =>
      rw [Console.step_main_cons io htodo]
      exact statics_run io { s with todo := rest } st
  | target tar => rfl

/-- The statics hold what was heard last. -/
def Remembers (l : Listener) : Prop :=
  statics l.console = (l.heard[1]?.getD 0, l.heard.head?.getD 0)

theorem remembers_step {l : Listener} (h : Remembers l) (i : Input) : Remembers (step l i) := by
  cases hi : received i with
  | nil =>
    rw [Remembers, step, statics_step hi, hi]
    exact h
  | cons c cs =>
    cases i with
    | rx d =>
      have hcurr : l.console.curr = l.heard.head?.getD 0 := (Prod.mk.inj h).2
      have hrx : statics (l.console.step (.rx d)) = (l.console.curr, d) := statics_rxIrq _ _
      rw [Remembers, step, hrx, hcurr, List.head?_eq_getElem?]
      rfl
    | _ => exact absurd hi (by simp [received])

/-! ## Stored bytes -/

theorem ring_add_ne (b : PcBuffer) (c : UInt8) : (b.add c).ring ≠ b.ring := by
  intro h
  have hproduce : b.ring.produce + 1 = b.ring.produce := congrArg RingBuffer.produce h
  have hnat := congrArg UInt32.toNat hproduce
  have hlt := b.ring.produce.toNat_lt
  rw [UInt32.toNat_add] at hnat
  simp at hnat
  omega

theorem getD_eq_iff {o : Option UInt8} {c : UInt8} (hc : c ≠ 0) : o.getD 0 = c ↔ o = some c := by
  cases o with
  | none => simp [Ne.symm hc]
  | some d => simp

/-- A plain byte is stored if and only if none of the two bytes before it is in the way. -/
theorem stored_iff {l : Listener} {c : UInt8} (h : Remembers l) (hc : Plain l.heard c)
    (hroom : l.console.rx.isFull = false) :
    (l.console.rxIrq c).rx.ring = (l.console.rx.add c).ring ↔
      l.heard.head? ≠ some 0x5B ∧ l.heard[1]? ≠ some 0x1B := by
  obtain ⟨h8, h7f, hesc, hbracket, hend⟩ := hc
  obtain ⟨hprev, hcurr⟩ := Prod.mk.inj h
  have hprev_iff : l.console.prev = 0x1B ↔ l.heard[1]? = some 0x1B := by
    rw [hprev, getD_eq_iff (by decide)]
  have hcurr_iff : l.console.curr = 0x5B ↔ l.heard.head? = some 0x5B := by
    rw [hcurr, getD_eq_iff (by decide)]
  have haccepts : l.console.accepts c ↔ l.heard.head? ≠ some 0x5B ∧ l.heard[1]? ≠ some 0x1B := by
    simp only [Console.accepts, ne_eq, hprev_iff, hcurr_iff]
    constructor
    · intro hacc
      exact hacc.2.2.2.1
    · rintro ⟨hhead, hsecond⟩
      exact ⟨h8, h7f, fun harrow => hsecond harrow.1, ⟨hhead, hsecond⟩, hesc, hbracket⟩
  rw [← haccepts]
  constructor
  · intro hring
    by_contra hnot
    rw [Console.rx_rxIrq_of_escape (not_or.mpr ⟨h8, h7f⟩) hnot] at hring
    exact ring_add_ne l.console.rx c hring.symm
  · intro hacc
    rw [Console.ring_rxIrq hacc, hroom]
    rfl

/-- Whatever else the console does: as long as there is room, all plain bytes are stored, exactly
when none of them comes right after a `[` or second after an `ESC`. -/
theorem storesPlain_iff (tx rx : Nat → UInt8) (is : List Input)
    (hroom : Machine.Always step HasRoom ⟨Console.boot tx rx, []⟩ is) :
    Machine.Always step StoresPlain ⟨Console.boot tx rx, []⟩ is ↔
      Machine.Always step Spared ⟨Console.boot tx rx, []⟩ is := by
  have hkept : ∀ l i, Remembers l → HasRoom l i → Remembers (step l i) :=
    fun l i hl _ => remembers_step hl i
  refine Machine.always_congr hkept ?_ rfl hroom
  intro l i hl hi
  cases i with
  | rx c => exact forall_congr' fun hc => stored_iff hl hc hi
  | _ => exact Iff.rfl

/-- `[` and then the end of the line. -/
def bracketEnter : List Input := [.rx 0x5B, .rx 13]

/-- A lone `[` swallows it. -/
theorem newline_swallowed :
    Machine.Always step HasRoom ⟨Console.boot (fun _ => 0) fun _ => 0, []⟩ bracketEnter ∧
      ¬Machine.Always step StoresPlain ⟨Console.boot (fun _ => 0) fun _ => 0, []⟩ bracketEnter := by
  refine ⟨by decide, ?_⟩
  rintro ⟨-, h, -⟩
  have hplain : Plain [0x5B] 13 := by
    refine ⟨?_, ?_, ?_, ?_, ?_⟩ <;> decide
  have hproduce := congrArg RingBuffer.produce (h hplain)
  exact absurd hproduce (by decide)

theorem storesPlain_iff_bracketEnter :
    Machine.Always step StoresPlain ⟨Console.boot (fun _ => 0) fun _ => 0, []⟩ bracketEnter ↔
      Machine.Always step Spared ⟨Console.boot (fun _ => 0) fun _ => 0, []⟩ bracketEnter :=
  storesPlain_iff _ _ bracketEnter (by decide)

end Listener

end PodFirmware
