import PodFirmware.Console

/-!
# PodFirmware.Occupancy

The rings of the console hold at most `USART_BUF` bytes. Additions and removals are checked, where
they are checked at all, by a statement of their own, and the interrupt handler may come in between;
and it checks once for the two characters that it echoes for a CR.

* `Law`: a step leaves both rings within their bounds and treats them as queues.
* `Overruns`: the steps that do not, told by the state they start in.
* `law_run_iff`: the law holds in every step of a run exactly when no step overruns.
-/

namespace PodFirmware
namespace Console

open RingBuffer (QueueStep)

def Sound (s : Console) : Prop := s.tx.occupied ≤ 128 ∧ s.rx.occupied ≤ 128

/-- Both rings stay within their bounds, no unread byte is overwritten, and nothing is read from an
empty ring. -/
def Law (s : Console) (i : Input) : Prop :=
  (step s i).Sound ∧ QueueStep s.tx.unread (step s i).tx.unread ∧
    QueueStep s.rx.unread (step s i).rx.unread

/-- The handler takes `c` for an ordinary character. -/
def accepts (s : Console) (c : UInt8) : Prop :=
  c ≠ 0x08 ∧ c ≠ 0x7F ∧ ¬ (s.prev = 0x1B ∧ s.curr = 0x5B ∧ (c = 65 ∨ c = 66)) ∧
    (s.curr ≠ 0x5B ∧ s.prev ≠ 0x1B) ∧ c ≠ 0x1B ∧ c ≠ 0x5B

instance (s : Console) (c : UInt8) : Decidable (s.accepts c) := by
  unfold accepts
  infer_instance

/-- A CR is echoed with room for one character; or the main loop adds to a full ring, or takes from
an empty one, that was not so when it looked. -/
def Overruns (s : Console) : Input → Prop
  | .rx c => c = 13 ∧ s.accepts c ∧ s.tx.occupied = 127
  | .main _ =>
    match s.todo with
    | .addTx _ :: _ => s.tx.occupied = 128
    | .recallAdd _ :: _ => s.rx.occupied = 128
    | .removeRx :: _ => s.rx.occupied = 0
    | .getRemove _ _ :: _ => s.rx.occupied = 0
    | _ => False
  | _ => False

/-! ## The interrupt handler -/

/-- Bytes are appended within the bound. -/
def Grown (b b' : PcBuffer) : Prop := ∃ xs, b'.unread = b.unread ++ xs ∧ b'.occupied ≤ 128

theorem Grown.refl {b : PcBuffer} (h : b.occupied ≤ 128) : Grown b b :=
  ⟨[], (List.append_nil _).symm, h⟩

theorem Grown.add {b b' : PcBuffer} (h : Grown b b') (hfull : b'.isFull = false) (c : UInt8) :
    Grown b (b'.add c) := by
  obtain ⟨xs, hxs, hle⟩ := h
  have hne : b'.occupied ≠ 128 := by
    intro he
    rw [(PcBuffer.isFull_iff b').mpr he] at hfull
    cases hfull
  have hlt : b'.occupied < 128 := by omega
  refine ⟨xs ++ [c], ?_, (PcBuffer.add_le_iff c hle).mpr hlt⟩
  rw [PcBuffer.unread_add c hlt, hxs, List.append_assoc]

theorem Grown.queueStep {b b' : PcBuffer} (h : Grown b b') : QueueStep b.unread b'.unread := by
  obtain ⟨xs, hxs, -⟩ := h
  rw [hxs]
  exact .append _ _

theorem grown_echo {b : PcBuffer} {s : Console} (h : Grown b s.tx) (c : UInt8) :
    Grown b (s.echo c).tx := by
  unfold echo
  split
  · exact h
  · rename_i hfull
    exact h.add (by simpa using hfull) c

theorem rx_echo (s : Console) (c : UInt8) : (s.echo c).rx = s.rx := by
  unfold echo
  split <;> rfl

theorem law_backspaceIrq {s : Console} (h : s.Sound) (c : UInt8) :
    Grown s.tx (s.backspaceIrq c).tx ∧ (s.backspaceIrq c).rx.occupied ≤ 128 ∧
      QueueStep s.rx.unread (s.backspaceIrq c).rx.unread := by
  unfold backspaceIrq
  split
  · exact ⟨.refl h.1, h.2, .keep _⟩
  · rename_i hempty
    have hpos : 0 < s.rx.occupied := by
      rw [PcBuffer.isEmpty_iff] at hempty
      omega
    have hgrown := grown_echo (grown_echo (s := { s with rx := s.rx.unproduce }) (.refl h.1) c) 32
    have hrx : ((({ s with rx := s.rx.unproduce } : Console).echo c).echo 32).rx =
        s.rx.unproduce := by
      rw [rx_echo, rx_echo]
    have hstep : QueueStep s.rx.unread s.rx.unproduce.unread := by
      rw [PcBuffer.unread_unproduce hpos]
      have hne : s.rx.unread ≠ [] := by
        intro hnil
        have := PcBuffer.length_unread s.rx
        rw [hnil] at this
        simp at this
        omega
      have hlast := List.dropLast_concat_getLast hne
      have hretract := QueueStep.retract s.rx.unread.dropLast (s.rx.unread.getLast hne)
      rwa [hlast] at hretract
    dsimp only
    split
    · rw [hrx]
      exact ⟨hgrown, PcBuffer.unproduce_le h.2 hpos, hstep⟩
    · rename_i hfull
      refine ⟨hgrown.add (by simpa using hfull) c, ?_, ?_⟩
      · rw [hrx]
        exact PcBuffer.unproduce_le h.2 hpos
      · rw [hrx]
        exact hstep

theorem occupied_lt_of_not_full {b : PcBuffer} (h : b.occupied ≤ 128) (hfull : ¬ b.isFull = true) :
    b.occupied < 128 := by
  rw [PcBuffer.isFull_iff] at hfull
  omega

theorem rx_acceptIrq (s : Console) (prev c : UInt8) : (s.acceptIrq prev c).rx =
    let rx := if newlineGuard prev c then
      { s.rx with messageAvailable := s.rx.messageAvailable + 1 } else s.rx
    if rx.isFull then rx else rx.add c := by
  unfold acceptIrq
  dsimp only
  split <;> split <;> rfl

/-- The character is put into the ring unless it is full; the count of messages is another thing. -/
theorem ring_acceptIrq (s : Console) (prev c : UInt8) : (s.acceptIrq prev c).rx.ring =
    if s.rx.isFull then s.rx.ring else (s.rx.add c).ring := by
  rw [rx_acceptIrq]
  dsimp only
  split
  · exact apply_ite PcBuffer.ring _ _ _
  · exact apply_ite PcBuffer.ring _ _ _

theorem grown_rx_acceptIrq {s : Console} (h : s.Sound) (prev c : UInt8) :
    Grown s.rx (s.acceptIrq prev c).rx := by
  have hgrown : Grown s.rx (if s.rx.isFull then s.rx else s.rx.add c) := by
    split
    · exact .refl h.2
    · rename_i hfull
      exact (Grown.refl h.2).add (by simpa using hfull) c
  obtain ⟨xs, hxs, hle⟩ := hgrown
  have hring : (s.acceptIrq prev c).rx.ring = (if s.rx.isFull then s.rx else s.rx.add c).ring := by
    rw [ring_acceptIrq, apply_ite PcBuffer.ring]
  rw [Grown, PcBuffer.unread, PcBuffer.occupied, hring]
  exact ⟨xs, hxs, hle⟩

theorem law_acceptIrq {s : Console} (h : s.Sound) (prev c : UInt8) :
    ((s.acceptIrq prev c).tx.occupied ≤ 128 ↔ ¬ (c = 13 ∧ s.tx.occupied = 127)) ∧
      ((s.acceptIrq prev c).tx.occupied ≤ 128 → Grown s.tx (s.acceptIrq prev c).tx) := by
  unfold acceptIrq
  dsimp only
  split
  · rename_i hfull
    rw [PcBuffer.isFull_iff] at hfull
    exact ⟨iff_of_true h.1 (by omega), fun _ => .refl h.1⟩
  · rename_i hfull
    have hlt := occupied_lt_of_not_full h.1 hfull
    have hadd : (s.tx.add c).occupied = s.tx.occupied + 1 := by
      rw [← PcBuffer.length_unread, PcBuffer.unread_add c hlt, List.length_append,
        PcBuffer.length_unread]
      rfl
    have hgrown := (Grown.refl h.1).add (by simpa using hfull) c
    split
    · rename_i hc
      have hle := PcBuffer.add_le_iff (b := s.tx.add c) 10 (by omega)
      constructor
      · rw [and_iff_right hc, hle]
        omega
      · intro h'
        have hnot : (s.tx.add c).isFull = false := by
          rw [Bool.eq_false_iff, Ne, PcBuffer.isFull_iff]
          have := hle.mp h'
          omega
        exact hgrown.add hnot 10
    · rename_i hc
      exact ⟨iff_of_true (by dsimp only; omega) fun hcr => hc hcr.1, fun _ => hgrown⟩

theorem law_rx {s : Console} (h : s.Sound) (c : UInt8) : Law s (.rx c) ↔ ¬ Overruns s (.rx c) := by
  have hkeep {s' : Console} (htx : s'.tx = s.tx) (hrx : s'.rx = s.rx) :
      s'.Sound ∧ QueueStep s.tx.unread s'.tx.unread ∧ QueueStep s.rx.unread s'.rx.unread := by
    rw [Sound, htx, hrx]
    exact ⟨h, .keep _, .keep _⟩
  unfold Law Overruns
  simp only [step]
  unfold rxIrq
  dsimp only
  split
  · rename_i hback
    have hlaw := law_backspaceIrq (s := { s with prev2 := s.prev, prev := s.curr, curr := c }) h c
    refine iff_of_true ⟨⟨?_, hlaw.2.1⟩, hlaw.1.queueStep, hlaw.2.2⟩ ?_
    · obtain ⟨-, -, hle⟩ := hlaw.1
      exact hle
    · rintro ⟨rfl, -⟩
      simp at hback
  · rename_i hback
    split
    · rename_i hup
      refine iff_of_true (hkeep rfl rfl) ?_
      rintro ⟨rfl, -⟩
      simp at hup
    · rename_i hup
      split
      · rename_i hdown
        refine iff_of_true (hkeep rfl rfl) ?_
        rintro ⟨rfl, -⟩
        simp at hdown
      · rename_i hdown
        split
        · rename_i hacc
          have haccepts : s.accepts c := by
            refine ⟨fun e => hback (.inl e), fun e => hback (.inr e), ?_, hacc⟩
            rintro ⟨h1, h2, h3⟩
            exact hacc.1.2 h1
          have hs' : Sound { s with prev2 := s.prev, prev := s.curr, curr := c } := h
          have htx := law_acceptIrq hs' s.curr c
          have hrx := grown_rx_acceptIrq hs' s.curr c
          obtain ⟨-, -, hrxle⟩ := id hrx
          have hover : (c = 13 ∧ s.accepts c ∧ s.tx.occupied = 127) ↔
              (c = 13 ∧ s.tx.occupied = 127) := by
            simp [haccepts]
          rw [hover, ← htx.1]
          exact ⟨fun hl => hl.1.1, fun hle => ⟨⟨hle, hrxle⟩, (htx.2 hle).queueStep, hrx.queueStep⟩⟩
        · rename_i hacc
          exact iff_of_true (hkeep rfl rfl) fun ho => hacc ho.2.1.2.2.2

theorem law_txe {s : Console} (h : s.Sound) : Law s .txe := by
  unfold Law
  simp only [step]
  unfold txIrq
  split
  · exact ⟨h, .keep _, .keep _⟩
  · rename_i hempty
    have hpos : 0 < s.tx.occupied := by
      rw [PcBuffer.isEmpty_iff] at hempty
      omega
    have htake : QueueStep s.tx.unread s.tx.remove.2.unread := by
      rw [PcBuffer.unread_remove hpos]
      exact .take _ _
    exact ⟨⟨(PcBuffer.remove_le_iff h.1).mpr hpos, h.2⟩, htake, .keep _⟩

/-! ## The main loop -/

/-- The statement moves bytes into or out of a ring. -/
def Stmt.moves : Stmt → Bool
  | .addTx _ => true
  | .recallAdd _ => true
  | .removeRx => true
  | .getRemove _ _ => true
  | _ => false

theorem run_kept (io : Io) {s : Console} {st : Stmt} (h : st.moves = false) :
    (st.run io s).tx = s.tx ∧ (st.run io s).rx.ring = s.rx.ring := by
  cases st with
  | addTx c => cases h
  | recallAdd i => cases h
  | removeRx => cases h
  | getRemove index prev => cases h
  | write bytes =>
    unfold Stmt.run
    cases s.tar with
    | usbSerial => exact ⟨rfl, rfl⟩
    | udp =>
      dsimp only
      split <;> exact ⟨rfl, rfl⟩
  | enableTxe => exact ⟨rfl, rfl⟩
  | clearDown => exact ⟨rfl, rfl⟩
  | clearSwap => exact ⟨rfl, rfl⟩
  | clearUp => exact ⟨rfl, rfl⟩
  | print => exact ⟨rfl, rfl⟩
  | getStore index prev curr => exact ⟨rfl, rfl⟩
  | _ =>
    dsimp only [Stmt.run]
    split <;> exact ⟨rfl, rfl⟩

theorem law_of_kept {s : Console} {i : Input} (h : s.Sound) (htx : (step s i).tx = s.tx)
    (hrx : (step s i).rx.ring = s.rx.ring) : Law s i := by
  unfold Law Sound PcBuffer.unread PcBuffer.occupied
  rw [htx, hrx]
  exact ⟨h, .keep _, .keep _⟩

theorem queueStep_add {b : PcBuffer} (h : b.occupied < 128) (c : UInt8) :
    QueueStep b.unread (b.add c).unread := by
  rw [PcBuffer.unread_add c h]
  exact .append _ _

theorem queueStep_remove {b : PcBuffer} (h : 0 < b.occupied) :
    QueueStep b.unread b.remove.2.unread := by
  rw [PcBuffer.unread_remove h]
  exact .take _ _

theorem law_main {s : Console} (h : s.Sound) (io : Io) :
    Law s (.main io) ↔ ¬ Overruns s (.main io) := by
  have hadd {b : PcBuffer} (hb : b.occupied ≤ 128) (c : UInt8) :
      ((b.add c).occupied ≤ 128 ∧ QueueStep b.unread (b.add c).unread) ↔ ¬ b.occupied = 128 := by
    rw [PcBuffer.add_le_iff c hb]
    exact ⟨fun hl => by omega, fun hne => ⟨by omega, queueStep_add (by omega) c⟩⟩
  have hremove {b : PcBuffer} (hb : b.occupied ≤ 128) :
      (b.remove.2.occupied ≤ 128 ∧ QueueStep b.unread b.remove.2.unread) ↔ ¬ b.occupied = 0 := by
    rw [PcBuffer.remove_le_iff hb]
    exact ⟨fun hl => by omega, fun hne => ⟨by omega, queueStep_remove (by omega)⟩⟩
  cases htodo : s.todo with
  | nil =>
    have hstep := step_main_nil io htodo
    rw [Overruns, htodo]
    exact iff_of_true (law_of_kept h (by rw [hstep]) (by rw [hstep])) not_false
  | cons st rest =>
    have hstep := step_main_cons io htodo
    rw [Overruns, htodo]
    cases hm : st.moves with
    | false =>
      have hkept := run_kept io (s := { s with todo := rest }) hm
      have hlaw : Law s (.main io) :=
        law_of_kept h (by rw [hstep]; exact hkept.1) (by rw [hstep]; exact hkept.2)
      refine iff_of_true hlaw ?_
      cases st <;> first | exact not_false | cases hm
    | true =>
      unfold Law
      rw [hstep]
      cases st with
      | addTx c =>
        rw [← hadd h.1 c]
        exact ⟨fun hl => ⟨hl.1.1, hl.2.1⟩, fun hl => ⟨⟨hl.1, h.2⟩, hl.2, .keep _⟩⟩
      | recallAdd i =>
        rw [← hadd h.2 (s.buffer i)]
        exact ⟨fun hl => ⟨hl.1.2, hl.2.2⟩, fun hl => ⟨⟨h.1, hl.1⟩, .keep _, hl.2⟩⟩
      | removeRx =>
        rw [← hremove h.2]
        exact ⟨fun hl => ⟨hl.1.2, hl.2.2⟩, fun hl => ⟨⟨h.1, hl.1⟩, .keep _, hl.2⟩⟩
      | getRemove index prev =>
        rw [← hremove h.2]
        exact ⟨fun hl => ⟨hl.1.2, hl.2.2⟩, fun hl => ⟨⟨h.1, hl.1⟩, .keep _, hl.2⟩⟩
      | _ => cases hm

/-! ## Runs -/

theorem law_iff {s : Console} (h : s.Sound) (i : Input) : Law s i ↔ ¬ Overruns s i := by
  cases i with
  | rx c => exact law_rx h c
  | txe => exact iff_of_true (law_txe h) not_false
  | call c =>
    have hkept : (step s (.call c)).tx = s.tx ∧ (step s (.call c)).rx = s.rx := by
      rw [step]
      split <;> exact ⟨rfl, rfl⟩
    exact iff_of_true (law_of_kept h hkept.1 (by rw [hkept.2])) not_false
  | main io => exact law_main h io
  | target tar => exact iff_of_true (law_of_kept h rfl rfl) not_false

theorem sound_boot (tx rx : Nat → UInt8) : (boot tx rx).Sound := by
  simp [Sound, boot, PcBuffer.occupied_init]

/-- In every run, both rings stay within their bounds and are read and written as queues if and only
if no step overruns. -/
theorem law_run_iff (tx rx : Nat → UInt8) (is : List Input) :
    Machine.Always step Law (boot tx rx) is ↔
      Machine.Always step (fun s i => ¬ Overruns s i) (boot tx rx) is := by
  have hstep : ∀ s i, Sound s → True → ¬ Overruns s i → Sound (step s i) :=
    fun _ i hs _ ho => ((law_iff hs i).mpr ho).1
  exact Machine.always_iff_of_preserved hstep (fun _ i hs _ => law_iff hs i) (sound_boot tx rx)
    (Machine.always_of_forall fun _ _ _ => trivial)

def silent : Io := ⟨[], true⟩

/-- A character, the up arrow, and a backspace while `check_input` clears the line. -/
def backspaceAtErase : List Input :=
  [.rx 97, .rx 0x1B, .rx 0x5B, .rx 65, .call .checkInput, .main silent, .main silent, .rx 0x08,
    .main silent]

/-- The main loop takes a character from the ring that has just been emptied. -/
theorem law_fails : ¬ Machine.Always step Law (boot (fun _ => 0) fun _ => 0) backspaceAtErase ∧
    (Machine.run step (boot (fun _ => 0) fun _ => 0) backspaceAtErase).rx.occupied =
      2 ^ 32 - 1 := by
  have hocc : (Machine.run step (boot (fun _ => 0) fun _ => 0) backspaceAtErase).rx.occupied =
      2 ^ 32 - 1 := by
    decide +kernel
  refine ⟨?_, hocc⟩
  intro h
  obtain ⟨-, -, -, -, -, -, -, -, hlast, -⟩ := h
  have hle : (Machine.run step (boot (fun _ => 0) fun _ => 0) backspaceAtErase).rx.occupied ≤ 128 :=
    hlast.1.2
  rw [hocc] at hle
  exact absurd hle (by decide)

end Console
end PodFirmware
