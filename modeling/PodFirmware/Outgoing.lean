import PodFirmware.Lib.Machine
import PodFirmware.Transmit

/-!
# PodFirmware.Outgoing

The frames that are accepted are sent, whole and in order, whatever the driver is doing while the
DMA reads the ring.

* `Ring`: the segments that the ring holds, as a queue.
* `Phase`: where the driver is, and how much of its frame is copied or handed over.
* `wire_of_run`: the frames on the wire.
-/

namespace PodFirmware
namespace Transmit

open Bytes SharedRing

/-- A chain that the transmit buffers have room for. A frame of the network stack is a packet of at
most 1500 bytes and a header. -/
def Input.Fits : Input → Prop
  | .output p => p.flatten.length ≤ ethTxBufNb * ethTxBufSize
  | _ => True

instance : DecidablePred Input.Fits
  | .output _ => inferInstanceAs (Decidable (_ ≤ _))
  | .cpu => .isTrue trivial
  | .dma => .isTrue trivial

/-- The frames that `low_level_output` has accepted and that are not empty. -/
def frames (s : Tx) : List (List UInt8) := s.accepted.filter fun f => !f.isEmpty

/-! ## The list of descriptors -/

/-- The descriptors form a ring, each with a buffer of its own. -/
def Wired (s : Tx) : Prop :=
  SharedRing.Wired ethTxBufNb ethTxBufSize (fun i => (s.desc i).buffer1Addr)
    (fun i => (s.desc i).buffer2NextDescAddr) s.buff

/-- The segments in the ring, from the place of the DMA to that of the driver. -/
structure Ring (s : Tx) (q : List Segment) : Prop where
  holds : SharedRing.Holds ethTxBufNb (fun i => (s.desc i).own) (fun i x => segment s i = x)
    s.current q
  txDesc : s.txDesc = (s.current + q.length) % ethTxBufNb

section Ring

variable {s : Tx} {q : List Segment} {x : Segment}

theorem next_txDesc (h : Ring s q) (hw : Wired s) :
    (s.desc s.txDesc).buffer2NextDescAddr = (s.current + (q.length + 1)) % ethTxBufNb := by
  rw [hw.next_eq _ (h.txDesc ▸ Nat.mod_lt _ (by decide)), h.txDesc, Nat.mod_add_mod, Nat.add_assoc]

theorem desc_init (tab : Nat → DmaDesc) (buff : Nat → List UInt8) {i : Nat} (hi : i < ethTxBufNb) :
    (init tab buff).desc i =
      { tab i with
        own := false
        fs := false
        ls := false
        buffer1Addr := i
        buffer2NextDescAddr := if i < ethTxBufNb - 1 then i + 1 else 0 } := by
  rw [init, ethDmaTxDescListInit]
  dsimp only
  rw [setUp_of_lt _ tab hi]

theorem wired_init (tab : Nat → DmaDesc) {buff : Nat → List UInt8}
    (hbuff : ∀ i < ethTxBufNb, (buff i).length = ethTxBufSize) : Wired (init tab buff) := by
  refine ⟨fun i hi => by rw [desc_init tab buff hi], fun i hi => ?_, hbuff⟩
  rw [desc_init tab buff hi]
  dsimp only
  unfold ethTxBufNb at hi ⊢
  split <;> omega

theorem ring_init (tab : Nat → DmaDesc) (buff : Nat → List UInt8) : Ring (init tab buff) [] := by
  refine ⟨holds_nil (Nat.succ_pos 3) fun i hi => ?_, rfl⟩
  simp only [desc_init tab buff hi]

/-- A buffer that the DMA does not own is written. -/
theorem ring_copy (h : Ring s q) (hw : Wired s) (hfree : (s.desc s.buffer).own = false)
    (bytes : List UInt8) : Ring { s with buff := copy s bytes } q := by
  refine ⟨h.holds.congr (fun _ _ => rfl) fun i hi hown => ?_, h.txDesc⟩
  have hne : i ≠ s.buffer := by
    rintro rfl
    rw [hfree] at hown
    cases hown
  simp only [segment, copy, hw.addr_eq i hi, Function.update_of_ne hne]
  exact fun x hx => hx

theorem wired_copy (hw : Wired s) {bytes : List UInt8}
    (hfits : s.bufferoffset + bytes.length ≤ ethTxBufSize) (hlt : s.buffer < ethTxBufNb) :
    Wired { s with buff := copy s bytes } :=
  hw.splice hlt hfits

/-- The driver hands its descriptor over. -/
theorem ring_push (h : Ring s q) (hw : Wired s) (hroom : q.length < ethTxBufNb) {d : DmaDesc}
    (hown : d.own = true) (hbuffer : d.buffer1Addr = (s.desc s.txDesc).buffer1Addr) {next : Nat}
    (hnext : next = (s.current + (q.length + 1)) % ethTxBufNb) :
    Ring { s with desc := Function.update s.desc s.txDesc d, txDesc := next }
      (q ++ [⟨(s.buff s.txDesc).take d.controlBufferSize, d.fs, d.ls⟩]) := by
  have hlt : s.txDesc < ethTxBufNb := h.txDesc ▸ Nat.mod_lt _ (by decide)
  refine ⟨h.holds.push hroom (fun i _ => ?_) ?_ fun i _ hne x hx => ?_, ?_⟩
  · rw [← h.txDesc]
    by_cases heq : i = s.txDesc
    · subst heq
      simp [hown]
    · simp [heq]
  · rw [← h.txDesc]
    simp [segment, hbuffer, hw.addr_eq _ hlt]
  · rw [← h.txDesc] at hne
    rw [← hx]
    simp [segment, hne]
  · rw [List.length_append, List.length_singleton]
    exact hnext

theorem wired_push (hw : Wired s) {d : DmaDesc} (next : Nat)
    (hbuffer : d.buffer1Addr = (s.desc s.txDesc).buffer1Addr)
    (hnext : d.buffer2NextDescAddr = (s.desc s.txDesc).buffer2NextDescAddr) :
    Wired { s with desc := Function.update s.desc s.txDesc d, txDesc := next } := by
  refine ⟨fun i hi => ?_, fun i hi => ?_, hw.length_eq⟩
  · by_cases heq : i = s.txDesc
    · subst heq
      simp [hbuffer, hw.addr_eq _ hi]
    · simp [heq, hw.addr_eq _ hi]
  · by_cases heq : i = s.txDesc
    · subst heq
      simp [hnext, hw.next_eq _ hi]
    · simp [heq, hw.next_eq _ hi]

end Ring

/-! ## The driver -/

/-- What `low_level_output` has copied: `d` buffers and a part of the next one. `left` is the rest
of the frame. -/
structure Copied (s : Tx) (d : Nat) (left : List UInt8) : Prop where
  lt : d < ethTxBufNb
  dmaTxDesc : s.dmaTxDesc = (s.txDesc + d) % ethTxBufNb
  buffer : s.buffer = s.dmaTxDesc
  offset_le : s.bufferoffset ≤ ethTxBufSize
  written : written ethTxBufNb s.buff s.txDesc d s.bufferoffset ++ left = s.p.flatten
  framelength : s.framelength = d * ethTxBufSize + s.bufferoffset
  fits : s.p.flatten.length ≤ ethTxBufNb * ethTxBufSize

/-- `HAL_ETH_TransmitFrame` has handed over `i` descriptors with the bytes `sent`. -/
structure Handing (s : Tx) (i bufcount : Nat) (sent : List UInt8) : Prop where
  lt : i < bufcount
  first : i = 0 → sent = []
  offset_pos : (bufcount - 1) * ethTxBufSize < s.framelength
  offset_le : s.framelength ≤ bufcount * ethTxBufSize
  written : sent ++ written ethTxBufNb s.buff s.txDesc (bufcount - 1 - i)
    (s.framelength - (bufcount - 1) * ethTxBufSize) = s.p.flatten

/-- What the ring holds, and what the driver is about to add to it. -/
def Phase (s : Tx) (q : List Segment) : Prop :=
  match s.pc with
  | .idle => q.foldl emit (s.wire, s.sending) = (frames s, [])
  | .chain rest => q.foldl emit (s.wire, s.sending) = (frames s, []) ∧
      ∃ d, Copied s d rest.flatten ∧ (0 < s.framelength → q.length + d < ethTxBufNb) ∧
        (0 < d → 0 < s.bufferoffset)
  | .segment payload rest => q.foldl emit (s.wire, s.sending) = (frames s, []) ∧
      ∃ d, Copied s d (payload ++ rest.flatten) ∧ q.length + d < ethTxBufNb ∧
        (0 < d → 0 < s.bufferoffset + payload.length)
  | .descriptor i bufcount => ∃ sent, q.foldl emit (s.wire, s.sending) = (frames s, sent) ∧
      Handing s i bufcount sent ∧ q.length + (bufcount - 1 - i) < ethTxBufNb

structure Inv (s : Tx) (q : List Segment) : Prop where
  wired : Wired s
  ring : Ring s q
  phase : Phase s q

section Driver

variable {s : Tx} {q : List Segment}

theorem written_append (hw : Wired s) {d : Nat} {left bytes : List UInt8}
    (h : Copied s d (bytes ++ left)) (hfits : s.bufferoffset + bytes.length ≤ ethTxBufSize) :
    SharedRing.written ethTxBufNb (copy s bytes) s.txDesc d (s.bufferoffset + bytes.length) ++
      left = s.p.flatten := by
  have hlt : (s.txDesc + d) % ethTxBufNb < ethTxBufNb := Nat.mod_lt _ (by decide)
  rw [copy, h.buffer, h.dmaTxDesc, written_splice h.lt (by rw [hw.length_eq _ hlt]; exact hfits),
    List.append_assoc]
  exact h.written

/-- The end of a buffer of the chain. -/
theorem inv_segment_last (h : Inv s q) {payload : List UInt8} {rest : List (List UInt8)}
    (hpc : s.pc = .segment payload rest) (hfits : s.bufferoffset + payload.length ≤ ethTxBufSize) :
    Inv { s with
      buff := copy s payload
      bufferoffset := s.bufferoffset + payload.length
      framelength := s.framelength + payload.length
      pc := .chain rest } q := by
  have hphase := h.phase
  rw [Phase, hpc] at hphase
  obtain ⟨hfold, d, hcopied, hroom, hpos⟩ := hphase
  have hbuffer : s.buffer = (s.current + q.length + d) % ethTxBufNb := by
    rw [hcopied.buffer, hcopied.dmaTxDesc, h.ring.txDesc, Nat.mod_add_mod]
  have hlt : s.buffer < ethTxBufNb := hbuffer ▸ Nat.mod_lt _ (by decide)
  have hfree : (s.desc s.buffer).own = false := hbuffer ▸ h.ring.holds.not_marked hroom
  have hcopy := ring_copy h.ring h.wired hfree payload
  have hwired := wired_copy h.wired hfits hlt
  refine ⟨⟨hwired.1, hwired.2, hwired.3⟩, ⟨hcopy.1, hcopy.2⟩, hfold, d, ?_, fun _ => hroom, hpos⟩
  refine ⟨hcopied.lt, hcopied.dmaTxDesc, hcopied.buffer, hfits,
    written_append h.wired hcopied hfits, ?_, hcopied.fits⟩
  simp only [hcopied.framelength, Nat.add_assoc]

theorem Copied.length (hw : Wired s) {d : Nat} {left : List UInt8} (h : Copied s d left) :
    s.framelength + left.length = s.p.flatten.length := by
  have hlen : (SharedRing.written ethTxBufNb s.buff s.txDesc d s.bufferoffset).length =
      d * ethTxBufSize + s.bufferoffset :=
    length_written (fun j _ => hw.length_eq _ (Nat.mod_lt _ (by decide))) h.offset_le
  rw [← h.written, List.length_append, hlen, h.framelength]

/-- `ERR_USE`: nothing is handed over. -/
theorem inv_fail (hw : Wired s) (hr : Ring s q)
    (hfold : q.foldl emit (s.wire, s.sending) = (frames s, [])) : Inv (fail s) q :=
  ⟨⟨hw.1, hw.2, hw.3⟩, ⟨hr.1, hr.2⟩, hfold⟩

/-- A buffer of the chain goes on in the next transmit buffer. -/
theorem inv_segment_next (h : Inv s q) {payload : List UInt8} {rest : List (List UInt8)}
    (hpc : s.pc = .segment payload rest) (hmore : payload.length + s.bufferoffset > ethTxBufSize) :
    Inv (cpu s) q := by
  have hphase := h.phase
  rw [Phase, hpc] at hphase
  obtain ⟨hfold, d, hcopied, hroom, -⟩ := hphase
  have hbuffer : s.buffer = (s.current + q.length + d) % ethTxBufNb := by
    rw [hcopied.buffer, hcopied.dmaTxDesc, h.ring.txDesc, Nat.mod_add_mod]
  have hlt : s.buffer < ethTxBufNb := hbuffer ▸ Nat.mod_lt _ (by decide)
  have hfree : (s.desc s.buffer).own = false := hbuffer ▸ h.ring.holds.not_marked hroom
  have hn : (payload.take (ethTxBufSize - s.bufferoffset)).length =
      ethTxBufSize - s.bufferoffset := by
    rw [List.length_take]
    omega
  have hend : s.bufferoffset + (ethTxBufSize - s.bufferoffset) = ethTxBufSize :=
    Nat.add_sub_cancel' hcopied.offset_le
  have hfits : s.bufferoffset + (payload.take (ethTxBufSize - s.bufferoffset)).length ≤
      ethTxBufSize := by
    rw [hn, hend]
  have hring := ring_copy h.ring h.wired hfree (payload.take (ethTxBufSize - s.bufferoffset))
  have hwired := wired_copy h.wired hfits hlt
  have hnext : (s.desc s.dmaTxDesc).buffer2NextDescAddr = (s.txDesc + (d + 1)) % ethTxBufNb := by
    rw [h.wired.next_eq _ (hcopied.buffer ▸ hlt), hcopied.dmaTxDesc, Nat.mod_add_mod, Nat.add_assoc]
  have hlength := hcopied.length h.wired
  rw [hcopied.framelength, List.length_append] at hlength
  have hd : d + 1 < ethTxBufNb := by
    have := hcopied.fits
    simp only [ethTxBufNb, ethTxBufSize] at this hlength hmore ⊢
    omega
  unfold cpu
  rw [hpc]
  dsimp only
  rw [if_pos hmore]
  split
  · exact inv_fail ⟨hwired.1, hwired.2, hwired.3⟩ ⟨hring.1, hring.2⟩ hfold
  · next hown =>
    have hnotown := Bool.eq_false_iff.mpr hown
    rw [hnext, h.ring.txDesc, Nat.mod_add_mod] at hnotown
    have hroom' := hring.holds.room hd hnotown
    refine ⟨⟨hwired.1, hwired.2, hwired.3⟩, ⟨hring.1, hring.2⟩, hfold, d + 1, ?_, hroom', ?_⟩
    · refine ⟨hd, hnext, ?_, Nat.zero_le _, ?_, ?_, hcopied.fits⟩
      · exact h.wired.addr_eq _ (hnext ▸ Nat.mod_lt _ (by decide))
      · have hcopied' : Copied s d (payload.take (ethTxBufSize - s.bufferoffset) ++
            (payload.drop (ethTxBufSize - s.bufferoffset) ++ rest.flatten)) := by
          rw [← List.append_assoc, List.take_append_drop]
          exact hcopied
        have happend := written_append h.wired hcopied' hfits
        rw [hn, hend, written_next] at happend
        · exact happend
        · exact hwired.length_eq _ (Nat.mod_lt _ (by decide))
      · simp only [hcopied.framelength, Nat.add_mul, Nat.one_mul]
        omega
    · intro _
      simp only [List.length_drop]
      omega

/-- The number of buffers that `HAL_ETH_TransmitFrame` finds. -/
theorem bufcount_eq {framelength d off : Nat} (h : framelength = d * ethTxBufSize + off)
    (hpos : 0 < off) (hle : off ≤ ethTxBufSize) :
    (if framelength > ethTxBufSize then
      framelength / ethTxBufSize + if framelength % ethTxBufSize ≠ 0 then 1 else 0
      else 1) = d + 1 := by
  split
  · split
    · simp only [ethTxBufSize] at *
      omega
    · simp only [ethTxBufSize] at *
      omega
  · simp only [ethTxBufSize] at *
    omega

theorem frames_finish (s : Tx) :
    frames (finish s) = if s.p.flatten = [] then frames s else frames s ++ [s.p.flatten] := by
  simp only [frames, finish, List.filter_append]
  cases s.p.flatten <;> simp

theorem inv_transmitFrame (h : Inv s q) (hpc : s.pc = .chain []) : Inv (ethTransmitFrame s) q := by
  have hphase := h.phase
  rw [Phase, hpc] at hphase
  obtain ⟨hfold, d, hcopied, hroom, hpos⟩ := hphase
  have hlength := hcopied.length h.wired
  rw [List.flatten_nil, List.length_nil, Nat.add_zero] at hlength
  rw [ethTransmitFrame]
  split
  · next hzero =>
    have hnil : s.p.flatten = [] := List.length_eq_zero_iff.mp (hlength ▸ hzero)
    refine ⟨⟨h.wired.1, h.wired.2, h.wired.3⟩, ⟨h.ring.1, h.ring.2⟩, ?_⟩
    change q.foldl emit (s.wire, s.sending) = (frames (finish s), [])
    rw [frames_finish, if_pos hnil]
    exact hfold
  · next hne =>
    have hroom := hroom (Nat.pos_of_ne_zero hne)
    have hfree : (s.desc s.txDesc).own = false := by
      have := h.ring.holds.not_marked (d := 0) (by omega)
      rwa [Nat.add_zero, ← h.ring.txDesc] at this
    have hoff : 0 < s.bufferoffset := by
      rcases Nat.eq_zero_or_pos d with hd | hd
      · have := hcopied.framelength
        rw [hd, Nat.zero_mul] at this
        omega
      · exact hpos hd
    rw [if_neg (by rw [hfree]; exact Bool.false_ne_true),
      bufcount_eq hcopied.framelength hoff hcopied.offset_le]
    refine ⟨⟨h.wired.1, h.wired.2, h.wired.3⟩, ⟨h.ring.1, h.ring.2⟩, [], hfold, ?_, hroom⟩
    have hle := hcopied.offset_le
    refine ⟨Nat.succ_pos d, fun _ => rfl, ?_, ?_, ?_⟩
    · simp only [hcopied.framelength, Nat.add_sub_cancel]
      omega
    · simp only [hcopied.framelength, Nat.add_mul, Nat.one_mul]
      omega
    · have hwritten := hcopied.written
      rw [List.flatten_nil, List.append_nil] at hwritten
      simp only [Nat.add_sub_cancel, Nat.sub_zero, List.nil_append]
      rw [hcopied.framelength, Nat.add_sub_cancel_left]
      exact hwritten

/-- One descriptor of the frame: the first and the last are marked as such, and all but the last
are full. -/
theorem handOver_eq {framelength i bufcount : Nat} (hi : i < bufcount) (d : DmaDesc) :
    handOver framelength i bufcount d =
      { d with
        own := true
        fs := decide (i = 0)
        ls := decide (i + 1 = bufcount)
        controlBufferSize := tbs1 (if i + 1 = bufcount then
          framelength - (bufcount - 1) * ethTxBufSize else ethTxBufSize) } := by
  by_cases hone : bufcount = 1
  · subst hone
    have hzero : i = 0 := by omega
    subst hzero
    simp [handOver]
  · have hlast : i = bufcount - 1 ↔ i + 1 = bufcount := by omega
    simp only [handOver, if_neg hone, hlast]
    by_cases hzero : i = 0
    · by_cases hend : i + 1 = bufcount
      · simp only [if_pos hzero, if_pos hend, decide_eq_true hzero, decide_eq_true hend]
      · simp only [if_pos hzero, if_neg hend, decide_eq_true hzero, decide_eq_false hend]
    · by_cases hend : i + 1 = bufcount
      · simp only [if_neg hzero, if_pos hend, decide_eq_false hzero, decide_eq_true hend]
      · simp only [if_neg hzero, if_neg hend, decide_eq_false hzero, decide_eq_false hend]

theorem emit_more {w : List (List UInt8)} {sent bytes : List UInt8} {fs : Bool}
    (h : fs = true → sent = []) : emit (w, sent) ⟨bytes, fs, false⟩ = (w, sent ++ bytes) := by
  cases fs with
  | false => rfl
  | true => simp [emit, h rfl]

theorem emit_last {w : List (List UInt8)} {sent bytes : List UInt8} {fs : Bool}
    (h : fs = true → sent = []) :
    emit (w, sent) ⟨bytes, fs, true⟩ = (w ++ [sent ++ bytes], []) := by
  cases fs with
  | false => rfl
  | true => simp [emit, h rfl]

theorem inv_descriptor (h : Inv s q) {i bufcount : Nat} (hpc : s.pc = .descriptor i bufcount) :
    ∃ q', Inv (cpu s) q' := by
  have hphase := h.phase
  rw [Phase, hpc] at hphase
  obtain ⟨sent, hfold, hhanding, hroom⟩ := hphase
  have hlt := hhanding.lt
  have htx : s.txDesc < ethTxBufNb := h.ring.txDesc ▸ Nat.mod_lt _ (by decide)
  have hsize := h.wired.length_eq _ htx
  have hnext := next_txDesc h.ring h.wired
  have hfirst : decide (i = 0) = true → sent = [] := fun hi => hhanding.first (of_decide_eq_true hi)
  have hring := ring_push h.ring h.wired (by omega) (d := handOver s.framelength i bufcount
    (s.desc s.txDesc)) (by rw [handOver_eq hlt]) (by rw [handOver_eq hlt]) hnext
  have hwired := wired_push h.wired (d := handOver s.framelength i bufcount (s.desc s.txDesc))
    (s.desc s.txDesc).buffer2NextDescAddr (by rw [handOver_eq hlt]) (by rw [handOver_eq hlt])
  rw [handOver_eq hlt] at hring hwired
  dsimp only at hring
  have hwritten := hhanding.written
  have hpos := hhanding.offset_pos
  have hle := hhanding.offset_le
  unfold cpu
  rw [hpc]
  dsimp only
  rw [handOver_eq hlt]
  split
  · next hmore =>
    -- a full buffer, and others behind it
    have hcount : bufcount - 1 - i = bufcount - 1 - (i + 1) + 1 := by omega
    rw [hcount, written_succ htx] at hwritten
    refine ⟨_, ⟨hwired.1, hwired.2, hwired.3⟩, ⟨hring.1, hring.2⟩, sent ++ s.buff s.txDesc, ?_, ?_,
      ?_⟩
    · rw [List.foldl_append, hfold, List.foldl_cons, List.foldl_nil,
        decide_eq_false (show ¬i + 1 = bufcount by omega), if_neg (by omega), emit_more hfirst,
        List.take_of_length_le (by rw [hsize]; decide)]
      rfl
    · refine ⟨hmore, fun hi => absurd hi (Nat.succ_ne_zero i), hpos, hle, ?_⟩
      rw [List.append_assoc]
      simp only
      rw [h.wired.next_eq _ htx]
      exact hwritten
    · rw [List.length_append, List.length_singleton]
      omega
  · next hmore =>
    have hend : i + 1 = bufcount := by omega
    have hzero : bufcount - 1 - i = 0 := by omega
    rw [hzero, SharedRing.written, List.range_zero, List.flatMap_nil, List.nil_append, Nat.add_zero,
      Nat.mod_eq_of_lt htx] at hwritten
    have htbs : tbs1 (s.framelength - (bufcount - 1) * ethTxBufSize) =
        s.framelength - (bufcount - 1) * ethTxBufSize := by
      apply Nat.mod_eq_of_lt
      have : bufcount * ethTxBufSize = (bufcount - 1) * ethTxBufSize + ethTxBufSize := by
        rw [← Nat.succ_mul, Nat.succ_eq_add_one, Nat.sub_add_cancel (by omega)]
      simp only [ethTxBufSize] at *
      omega
    have hne : s.p.flatten ≠ [] := by
      have : (s.p.flatten).length ≠ 0 := by
        rw [← hwritten, List.length_append, List.length_take, hsize]
        have : bufcount * ethTxBufSize = (bufcount - 1) * ethTxBufSize + ethTxBufSize := by
          rw [← Nat.succ_mul, Nat.succ_eq_add_one, Nat.sub_add_cancel (by omega)]
        simp only [ethTxBufSize] at *
        omega
      exact fun hnil => this (by rw [hnil]; rfl)
    refine ⟨_, ⟨hwired.1, hwired.2, hwired.3⟩, ⟨hring.1, hring.2⟩, ?_⟩
    change List.foldl emit (s.wire, s.sending) _ = (frames (finish s), [])
    rw [List.foldl_append, hfold, List.foldl_cons, List.foldl_nil, decide_eq_true hend,
      if_pos hend, emit_last hfirst, htbs, hwritten, frames_finish, if_neg hne]

theorem inv_cpu (h : Inv s q) : ∃ q', Inv (cpu s) q' := by
  cases hpc : s.pc with
  | idle =>
    exact ⟨q, by rwa [cpu, hpc]⟩
  | chain rest =>
    cases rest with
    | nil =>
      refine ⟨q, ?_⟩
      rw [cpu, hpc]
      exact inv_transmitFrame h hpc
    | cons payload rest =>
      have hphase := h.phase
      rw [Phase, hpc] at hphase
      obtain ⟨hfold, d, hcopied, -, hpos⟩ := hphase
      refine ⟨q, ?_⟩
      unfold cpu
      rw [hpc]
      dsimp only
      split
      · exact inv_fail h.wired h.ring hfold
      · next hown =>
        have hfree := Bool.eq_false_iff.mpr hown
        rw [hcopied.dmaTxDesc, h.ring.txDesc, Nat.mod_add_mod] at hfree
        have hroom := h.ring.holds.room hcopied.lt hfree
        rw [List.flatten_cons] at hcopied
        exact ⟨⟨h.wired.1, h.wired.2, h.wired.3⟩, ⟨h.ring.1, h.ring.2⟩, hfold, d,
          ⟨hcopied.1, hcopied.2, hcopied.3, hcopied.4, hcopied.5, hcopied.6, hcopied.7⟩, hroom,
          fun hd => Nat.add_pos_left (hpos hd) _⟩
  | segment payload rest =>
    by_cases hmore : payload.length + s.bufferoffset > ethTxBufSize
    · exact ⟨q, inv_segment_next h hpc hmore⟩
    · have hlast := inv_segment_last h hpc (by omega)
      refine ⟨q, ?_⟩
      unfold cpu
      rw [hpc]
      dsimp only
      rw [if_neg hmore]
      exact hlast
  | descriptor i bufcount => exact inv_descriptor h hpc

theorem inv_output (h : Inv s q) {p : List (List UInt8)} (hfits : Input.Fits (.output p)) :
    Inv (lowLevelOutput p s) q := by
  cases hpc : s.pc with
  | idle =>
    have hphase := h.phase
    rw [Phase, hpc] at hphase
    have htx : s.txDesc < ethTxBufNb := h.ring.txDesc ▸ Nat.mod_lt _ (by decide)
    unfold lowLevelOutput
    rw [hpc]
    refine ⟨⟨h.wired.1, h.wired.2, h.wired.3⟩, ⟨h.ring.1, h.ring.2⟩, hphase, 0, ?_,
      fun hpos => absurd hpos (Nat.lt_irrefl 0), fun hpos => absurd hpos (Nat.lt_irrefl 0)⟩
    refine ⟨by decide, ?_, h.wired.addr_eq _ htx, Nat.zero_le _, ?_, rfl, hfits⟩
    · exact (Nat.mod_eq_of_lt htx).symm
    · rw [written_zero, List.nil_append]
  | chain rest => rwa [lowLevelOutput, hpc]
  | segment payload rest => rwa [lowLevelOutput, hpc]
  | descriptor i bufcount => rwa [lowLevelOutput, hpc]

end Driver

/-! ## The DMA -/

section Dma

variable {s : Tx} {q : List Segment}

/-- The DMA takes the first segment, if there is one. -/
theorem inv_dma (h : Inv s q) : ∃ q', Inv (dma s) q' ∧ q'.length = q.length - 1 ∧
    q'.foldl emit ((dma s).wire, (dma s).sending) = q.foldl emit (s.wire, s.sending) := by
  rw [dma]
  split
  · next hown =>
    obtain ⟨x, q', rfl, hx⟩ := h.ring.holds.marked_head hown
    rw [hx]
    have hlt := h.ring.holds.head_lt
    have hnext := h.wired.next_eq _ hlt
    refine ⟨q', ⟨⟨fun i hi => ?_, fun i hi => ?_, h.wired.length_eq⟩, ⟨?_, ?_⟩, ?_⟩,
      by rw [List.length_cons, Nat.add_sub_cancel], rfl⟩
    · by_cases heq : i = s.current
      · subst heq
        simp [h.wired.addr_eq _ hi]
      · simp [heq, h.wired.addr_eq _ hi]
    · by_cases heq : i = s.current
      · subst heq
        simp [h.wired.next_eq _ hi]
      · simp [heq, h.wired.next_eq _ hi]
    · rw [hnext]
      refine h.ring.holds.pop (fun i _ => ?_) fun i _ hne y hy => ?_
      · by_cases heq : i = s.current
        · subst heq
          simp
        · simp [heq]
      · rw [← hy]
        simp [segment, hne]
    · rw [hnext, h.ring.txDesc, List.length_cons, Nat.mod_add_mod]
      congr 1
      omega
    · have hphase := h.phase
      rw [Phase] at hphase ⊢
      dsimp only
      cases hpc : s.pc with
      | idle =>
        rw [hpc] at hphase
        exact hphase
      | chain rest =>
        rw [hpc] at hphase
        obtain ⟨hfold, d, hcopied, hroom, hpos⟩ := hphase
        rw [List.length_cons] at hroom
        exact ⟨hfold, d, ⟨hcopied.1, hcopied.2, hcopied.3, hcopied.4, hcopied.5, hcopied.6,
          hcopied.7⟩, fun hlen => by have := hroom hlen; omega, hpos⟩
      | segment payload rest =>
        rw [hpc] at hphase
        obtain ⟨hfold, d, hcopied, hroom, hpos⟩ := hphase
        rw [List.length_cons] at hroom
        exact ⟨hfold, d, ⟨hcopied.1, hcopied.2, hcopied.3, hcopied.4, hcopied.5, hcopied.6,
          hcopied.7⟩, by omega, hpos⟩
      | descriptor i bufcount =>
        rw [hpc] at hphase
        obtain ⟨sent, hfold, hhanding, hroom⟩ := hphase
        rw [List.length_cons] at hroom
        exact ⟨sent, hfold, ⟨hhanding.1, hhanding.2, hhanding.3, hhanding.4, hhanding.5⟩, by omega⟩
  · next hown =>
    have hnil := h.ring.holds.eq_nil (Bool.eq_false_iff.mpr hown)
    subst hnil
    exact ⟨[], h, rfl, rfl⟩

theorem inv_step (s : Tx) (i : Input) (h : ∃ q, Inv s q) (hfits : i.Fits) :
    ∃ q, Inv (step s i) q := by
  obtain ⟨q, h⟩ := h
  cases i with
  | output p => exact ⟨q, inv_output h hfits⟩
  | cpu => exact inv_cpu h
  | dma =>
    obtain ⟨q', h', -⟩ := inv_dma h
    exact ⟨q', h'⟩

theorem inv_run (tab : Nat → DmaDesc) {buff : Nat → List UInt8}
    (hbuff : ∀ i < ethTxBufNb, (buff i).length = ethTxBufSize) {is : List Input}
    (hfits : ∀ i ∈ is, i.Fits) : ∃ q, Inv (Machine.run step (init tab buff) is) q :=
  Machine.run_inv inv_step ⟨[], wired_init tab hbuff, ring_init tab buff, rfl⟩
    (Machine.always_inputs_iff.mpr hfits)

end Dma

end Transmit
end PodFirmware
