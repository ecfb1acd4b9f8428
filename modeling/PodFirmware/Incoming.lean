import PodFirmware.Lib.Machine
import PodFirmware.Receive

/-!
# PodFirmware.Incoming

The frames that the DMA has stored reach the network stack, whole and in order.

* `deliver`: what becomes of a frame.
* `Ring`: the segments that the CPU has in the ring, as a queue.
* `Phase`: where the driver is, and how much of its frame is found, copied or given back.
* `taken_of_run`: what `low_level_input` returns.
-/

namespace PodFirmware
namespace Receive

open Bytes SharedRing

/-- The elements of the pool before a call are some of those that there are. -/
def Input.Fits : Input → Prop
  | .input free => free.length ≤ Pbuf.poolSize
  | _ => True

/-- The packet for a frame: without the checksum, unless there is nothing else or the pool has not
the elements for it. -/
def deliver (free : List Nat) (frame : List UInt8) : Option (List UInt8) :=
  if 4 < frame.length ∧ frame.length - 4 ≤ free.length * Pbuf.poolBufsize then
    some (frame.take (frame.length - 4))
  else none

/-! ## The chain -/

section Chain

variable {free lens : List Nat} {len : UInt16}

theorem sum_allocTail {base rem : Nat} {chain : List Message.Segment}
    (h : Message.allocTail base rem free = some chain) : (chain.map (·.len)).sum = rem := by
  induction free generalizing rem chain with
  | nil =>
    cases rem with
    | zero =>
      cases h
      rfl
    | succ rem => cases h
  | cons e free ih =>
    cases rem with
    | zero =>
      cases h
      rfl
    | succ rem =>
      obtain ⟨tail, htail, rfl⟩ := Option.map_eq_some_iff.mp h
      rw [List.map_cons, List.sum_cons, ih htail]
      exact Nat.add_sub_cancel' (Nat.min_le_left _ _)

theorem pbufAlloc_eq_none (hlen : 0 < len.toNat) :
    pbufAlloc free len = none ↔ free.length * Pbuf.poolBufsize < len.toNat := by
  rw [pbufAlloc, Option.map_eq_none_iff]
  cases free with
  | nil => simpa [Message.pbufAlloc] using hlen
  | cons e free =>
    rw [Message.pbufAlloc, Option.map_eq_none_iff, Message.allocTail_eq_none, List.length_cons]
    simp only [Pbuf.poolBufsize]
    omega

theorem sum_pbufAlloc (h : pbufAlloc free len = some lens) : lens.sum = len.toNat := by
  cases free with
  | nil => cases h
  | cons e free =>
    obtain ⟨chain, hchain, rfl⟩ := Option.map_eq_some_iff.mp h
    obtain ⟨tail, htail, rfl⟩ := Option.map_eq_some_iff.mp hchain
    rw [List.map_cons, List.sum_cons, sum_allocTail htail]
    exact Nat.add_sub_cancel' (Nat.min_le_left _ _)

end Chain

/-! ## The segments of a frame -/

section Segments

variable {frame : List UInt8} {j off m : Nat} {buffer : List UInt8}

theorem lt_segCount : j < segCount frame ↔ j * ethRxBufSize < frame.length := by
  rw [segCount]
  simp only [ethRxBufSize]
  omega

theorem length_segments : (segments frame).length = segCount frame := by
  rw [segments, List.length_map, List.length_range]

theorem getElem_segments (h : j < (segments frame).length) :
    (segments frame)[j] = segment frame j := by
  simp [segments]

theorem drop_segments (h : j < segCount frame) :
    (segments frame).drop j = segment frame j :: (segments frame).drop (j + 1) := by
  rw [List.drop_eq_getElem_cons (by rw [length_segments]; exact h), getElem_segments]

theorem length_le (h : segCount frame ≤ ethRxBufNb) : frame.length ≤ ethRxBufNb * ethRxBufSize := by
  rw [segCount] at h
  simp only [ethRxBufNb, ethRxBufSize] at h ⊢
  omega

/-- A part of a frame is read from the buffer of its segment. -/
theorem slice_eq (h : (segment frame j).bytes <+: buffer) (hoff : off + m ≤ ethRxBufSize)
    (hlen : j * ethRxBufSize + off + m ≤ frame.length) :
    slice buffer off m = (frame.drop (j * ethRxBufSize + off)).take m := by
  obtain ⟨tail, rfl⟩ := h
  have hseg : (segment frame j).bytes.length =
      min ethRxBufSize (frame.length - j * ethRxBufSize) := by
    simp only [segment, List.length_take, List.length_drop]
  rw [slice, List.drop_append_of_le_length (by omega), List.take_append_of_le_length
    (by rw [List.length_drop]; omega)]
  simp only [segment, List.drop_take, List.drop_drop, List.take_take]
  congr 1
  omega

theorem take_slice (h : (segment frame j).bytes <+: buffer) (hoff : off + m ≤ ethRxBufSize)
    (hlen : j * ethRxBufSize + off + m ≤ frame.length) :
    frame.take (j * ethRxBufSize + off) ++ slice buffer off m =
      frame.take (j * ethRxBufSize + off + m) := by
  rw [slice_eq h hoff hlen, ← List.take_add]

end Segments

/-! ## The ring -/

def Wired (s : Rx) : Prop :=
  SharedRing.Wired ethRxBufNb ethRxBufSize (fun i => (s.desc i).buffer1Addr)
    (fun i => (s.desc i).buffer2NextDescAddr) s.buff

/-- A descriptor with its buffer stands for a segment. -/
structure Stores (d : DmaDesc) (buffer : List UInt8) (x : Segment) : Prop where
  fs : d.fs = x.fs
  ls : d.ls = x.ls
  frameLength : d.frameLength = x.frameLength
  bytes : x.bytes <+: buffer

/-- The segments that the DMA has stored and the driver has not given back, from descriptor `r`
on. -/
structure Ring (s : Rx) (r : Nat) (q : List Segment) : Prop where
  holds : SharedRing.Holds ethRxBufNb (fun i => !(s.desc i).own)
    (fun i => Stores (s.desc i) (s.buff i)) r q
  current : s.current = (r + q.length) % ethRxBufNb

/-- The frames that the driver has not done with. -/
def pending (s : Rx) : List (List UInt8) := s.arrived.drop s.taken.length

/-- The driver has found the frame `f`. -/
structure Found (s : Rx) (r : Nat) (q : List Segment) (f : List UInt8) : Prop where
  frames : ∃ rest, pending s = f :: rest ∧ q ++ s.todo = segments f ++ rest.flatMap segments
  segCount : s.infos.segCount = Receive.segCount f
  stored : Receive.segCount f ≤ q.length
  rxDesc : s.rxDesc = (r + Receive.segCount f) % ethRxBufNb
  fsRxDesc : s.infos.fsRxDesc = r

/-- `got` has been copied from `f`, `left` bytes have not. -/
structure Reading (s : Rx) (r : Nat) (f got : List UInt8) (left d : Nat) : Prop where
  lt : d < segCount f
  dmarxdesc : s.dmarxdesc = (r + d) % ethRxBufNb
  buffer : s.buffer = s.dmarxdesc
  offset_le : s.bufferoffset ≤ ethRxBufSize
  got : got = f.take (d * ethRxBufSize + s.bufferoffset)
  left : d * ethRxBufSize + s.bufferoffset + left = f.length - 4
  deliver : deliver s.free f = some (f.take (f.length - 4))

/-- `i` descriptors of `f` have been given back. -/
structure Releasing (s : Rx) (r : Nat) (q : List Segment) (f : List UInt8) (i : Nat) : Prop where
  frames : ∃ rest, pending s = f :: rest ∧
    q ++ s.todo = (segments f).drop i ++ rest.flatMap segments
  segCount : s.infos.segCount = Receive.segCount f
  le : i ≤ Receive.segCount f
  stored : Receive.segCount f - i ≤ q.length
  rxDesc : s.rxDesc = (r + (Receive.segCount f - i)) % ethRxBufNb
  dmarxdesc : s.dmarxdesc = r
  deliver : s.p.map List.flatten = deliver s.free f

/-- The search has passed `segCount` segments of the first frame, and none of them is its last. -/
structure Scanned (s : Rx) (r : Nat) (q : List Segment) : Prop where
  queue : q ++ s.todo = (pending s).flatMap segments
  rxDesc : s.rxDesc = (r + s.infos.segCount) % ethRxBufNb
  first : 0 < s.infos.segCount → s.infos.fsRxDesc = r ∧ s.infos.segCount ≤ q.length ∧
    ∃ f rest, pending s = f :: rest ∧ s.infos.segCount < Receive.segCount f

def Phase (s : Rx) (r : Nat) (q : List Segment) : Prop :=
  match s.pc with
  | .idle => Scanned s r q
  | .scan _ => Scanned s r q
  | .chain lens => ∃ f ps d, Found s r q f ∧ s.p = some ps ∧ Reading s r f ps.flatten lens.sum d
  | .segment left payload lens => ∃ f ps d, Found s r q f ∧ s.p = some ps ∧
      Reading s r f (ps.flatten ++ payload) (left + lens.sum) d
  | .release i => ∃ f, Releasing s r q f i

/-- What the driver has made of the frames so far, one after the other. -/
def Delivered (s : Rx) : Prop :=
  ∀ (i : Nat) (t : Taken), s.taken[i]? = some t →
    ∃ f, s.arrived[i]? = some f ∧ t.packet = deliver t.free f

structure Inv (s : Rx) (r : Nat) (q : List Segment) : Prop where
  wired : Wired s
  ring : Ring s r q
  phase : Phase s r q
  delivered : Delivered s
  arrived : ∀ f ∈ s.arrived, f ≠ [] ∧ segCount f ≤ ethRxBufNb
  free : s.free.length ≤ Pbuf.poolSize
  todo : ∀ x ∈ s.todo, x.bytes.length ≤ ethRxBufSize

section Found

variable {s : Rx} {r : Nat} {q : List Segment} {f : List UInt8}

theorem segCount_pos (h : f ≠ []) : 0 < segCount f := by
  rw [lt_segCount, Nat.zero_mul]
  exact List.length_pos_iff.mpr h

theorem Inv.pending_mem (h : Inv s r q) {rest : List (List UInt8)} (hf : pending s = f :: rest) :
    f ≠ [] ∧ segCount f ≤ ethRxBufNb := by
  apply h.arrived
  apply List.mem_of_mem_drop (i := s.taken.length)
  rw [← pending, hf]
  exact List.mem_cons_self

/-- A segment of the first frame is in its place. -/
theorem Ring.stores (hr : Ring s r q) {tail : List Segment} (hq : q ++ s.todo = segments f ++ tail)
    {j : Nat} (hj : j < segCount f) (hlt : j < q.length) :
    Stores (s.desc ((r + j) % ethRxBufNb)) (s.buff ((r + j) % ethRxBufNb)) (segment f j) := by
  have hlen : j < (segments f).length := by rwa [length_segments]
  have hseg : q[j] = segment f j := by
    have hget := congrArg (·[j]?) hq
    rw [List.getElem?_append_left hlt, List.getElem?_append_left hlen,
      List.getElem?_eq_getElem hlt, List.getElem?_eq_getElem hlen, getElem_segments] at hget
    exact Option.some.inj hget
  have hget := hr.holds.slot_get j hlt
  rwa [hseg] at hget

/-- The length in the last descriptor, and what `pbuf_alloc` makes of it. -/
theorem pbufAlloc_deliver {free : List Nat} (hf : f.length ≤ ethRxBufNb * ethRxBufSize)
    (hfree : free.length ≤ Pbuf.poolSize) {len : UInt16}
    (hlen : len = (UInt32.ofNat f.length - 4).toUInt16) :
    (∃ lens, (if len > 0 then pbufAlloc free len else none) = some lens ∧
      lens.sum = f.length - 4 ∧ deliver free f = some (f.take (f.length - 4))) ∨
    ((if len > 0 then pbufAlloc free len else none) = none ∧ deliver free f = none) := by
  have hnat : len.toNat = (f.length + (2 ^ 32 - 4)) % 2 ^ 32 % 2 ^ 16 := by
    rw [hlen, UInt32.toNat_toUInt16, UInt32.toNat_sub, UInt32.toNat_ofNat']
    simp only [ethRxBufNb, ethRxBufSize] at hf
    have : (4 : UInt32).toNat = 4 := rfl
    rw [this]
    omega
  simp only [ethRxBufNb, ethRxBufSize, Pbuf.poolSize] at hf hfree
  have hpos : len > 0 ↔ 0 < len.toNat := UInt16.lt_iff_toNat_lt
  by_cases hlong : 4 < f.length
  · have hsub : len.toNat = f.length - 4 := by omega
    have hlt : 0 < len.toNat := by omega
    rw [if_pos (hpos.mpr hlt)]
    cases halloc : pbufAlloc free len with
    | none =>
      refine .inr ⟨rfl, if_neg fun hok => ?_⟩
      have := (pbufAlloc_eq_none hlt).mp halloc
      omega
    | some lens =>
      refine .inl ⟨lens, rfl, (sum_pbufAlloc halloc).trans hsub, if_pos ⟨hlong, ?_⟩⟩
      by_contra hno
      have : pbufAlloc free len = none := (pbufAlloc_eq_none hlt).mpr (by omega)
      rw [halloc] at this
      cases this
  · refine .inr ⟨?_, if_neg fun hok => hlong hok.1⟩
    split
    · next hgt =>
      have hlt := hpos.mp hgt
      rw [pbufAlloc_eq_none hlt]
      simp only [Pbuf.poolBufsize]
      omega
    · rfl

end Found

/-! ## The driver -/

section Driver

variable {s : Rx} {r : Nat} {q : List Segment}

/-- The frame that the search is in. -/
theorem Scanned.frame (h : Scanned s r q) (hi : Inv s r q)
    (hown : (s.desc s.rxDesc).own = false) :
    ∃ f rest, pending s = f :: rest ∧ s.infos.segCount < segCount f ∧
      s.infos.segCount < q.length := by
  have hframe : s.infos.segCount < ethRxBufNb ∧
      (0 < s.infos.segCount → ∃ f rest, pending s = f :: rest ∧ s.infos.segCount < segCount f) := by
    rcases Nat.eq_zero_or_pos s.infos.segCount with hzero | hpos
    · exact ⟨by rw [hzero]; decide, fun hpos => absurd hpos (by omega)⟩
    · obtain ⟨-, -, f, rest, hf, hlt⟩ := h.first hpos
      exact ⟨Nat.lt_of_lt_of_le hlt (hi.pending_mem hf).2, fun _ => ⟨f, rest, hf, hlt⟩⟩
  obtain ⟨hn, hfirst⟩ := hframe
  have hlt : s.infos.segCount < q.length := by
    rw [← hi.ring.holds.marked_iff _ hn, ← h.rxDesc, hown]
    rfl
  rcases Nat.eq_zero_or_pos s.infos.segCount with hzero | hpos
  · cases hf : pending s with
    | nil =>
      have hnil := h.queue
      rw [hf, List.flatMap_nil, List.append_eq_nil_iff] at hnil
      rw [hnil.1] at hlt
      cases hlt
    | cons f rest =>
      exact ⟨f, rest, rfl, hzero ▸ segCount_pos (hi.pending_mem hf).1, hlt⟩
  · obtain ⟨f, rest, hf, hless⟩ := hfirst hpos
    exact ⟨f, rest, hf, hless, hlt⟩

/-- The last segment has been found. -/
theorem inv_receivedFrame {f : List UInt8} (hw : Wired s) (hr : Ring s r q) (hfound : Found s r q f)
    (hdel : Delivered s) (harr : ∀ f ∈ s.arrived, f ≠ [] ∧ segCount f ≤ ethRxBufNb)
    (hfree : s.free.length ≤ Pbuf.poolSize) (htodo : ∀ x ∈ s.todo, x.bytes.length ≤ ethRxBufSize)
    (hlen : s.infos.length = UInt32.ofNat f.length - 4) (hbuffer : s.infos.buffer = r) :
    Inv (receivedFrame s) r q := by
  obtain ⟨rest, hpending, hq⟩ := hfound.frames
  have hf : f ≠ [] ∧ segCount f ≤ ethRxBufNb := by
    apply harr
    apply List.mem_of_mem_drop (i := s.taken.length)
    rw [← pending, hpending]
    exact List.mem_cons_self
  have hr0 : (r + 0) % ethRxBufNb = r := Nat.mod_eq_of_lt hr.holds.head_lt
  have halloc := pbufAlloc_deliver (length_le hf.2) hfree (congrArg UInt32.toUInt16 hlen)
  rcases halloc with ⟨lens, hsome, hsum, hdeliver⟩ | ⟨hnone, hdeliver⟩
  · have hstate : receivedFrame s = { s with
        p := some []
        buffer := s.infos.buffer
        dmarxdesc := s.infos.fsRxDesc
        bufferoffset := 0
        pc := .chain lens } := by
      simp only [receivedFrame, hsome]
    rw [hstate]
    refine ⟨hw, ⟨hr.1, hr.2⟩, ?_, hdel, harr, hfree, htodo⟩
    refine ⟨f, [], 0, ⟨hfound.1, hfound.2, hfound.3, hfound.4, hfound.5⟩, rfl, ?_⟩
    refine ⟨segCount_pos hf.1, ?_, ?_, Nat.zero_le _, rfl, ?_, hdeliver⟩
    · exact hfound.fsRxDesc.trans hr0.symm
    · exact hbuffer.trans hfound.fsRxDesc.symm
    · simp [hsum]
  · have hstate : receivedFrame s =
        { s with p := none, dmarxdesc := s.infos.fsRxDesc, pc := .release 0 } := by
      simp only [receivedFrame, hnone]
    rw [hstate]
    exact ⟨hw, ⟨hr.1, hr.2⟩, ⟨f, ⟨rest, hpending, hq⟩, hfound.segCount, Nat.zero_le _,
      hfound.stored, hfound.rxDesc, hfound.fsRxDesc, hdeliver.symm⟩, hdel, harr, hfree, htodo⟩

theorem next_rxDesc (hw : Wired s) (hr : Ring s r q) {c : Nat}
    (hrx : s.rxDesc = (r + c) % ethRxBufNb) :
    (s.desc s.rxDesc).buffer2NextDescAddr = (r + (c + 1)) % ethRxBufNb := by
  have hpos := hr.holds.pos
  rw [hw.next_eq _ (hrx ▸ Nat.mod_lt _ hpos), hrx, Nat.mod_add_mod, Nat.add_assoc]

theorem inv_scan (h : Inv s r q) (hs : Scanned s r q) (k : Nat) : Inv (scan s k) r q := by
  rw [scan]
  dsimp only
  split
  · next hguard =>
    rw [Bool.and_eq_true, Bool.not_eq_true'] at hguard
    obtain ⟨f, rest, hf, hless, hlt⟩ := hs.frame h hguard.1
    have hqueue := hs.queue
    rw [hf, List.flatMap_cons] at hqueue
    have hstores := h.ring.stores hqueue hless hlt
    rw [← hs.rxDesc] at hstores
    have hnext := next_rxDesc h.wired h.ring hs.rxDesc
    have hfs : (s.desc s.rxDesc).fs = decide (s.infos.segCount = 0) := hstores.fs
    have hls : (s.desc s.rxDesc).ls = decide (s.infos.segCount + 1 = segCount f) := hstores.ls
    have hzero : s.infos.segCount = 0 → s.rxDesc = r := by
      intro hzero
      rw [hs.rxDesc, hzero, Nat.add_zero, Nat.mod_eq_of_lt h.ring.holds.head_lt]
    split
    · -- the first segment, and others follow
      next hfirst =>
      rw [hfs, hls, Bool.and_eq_true, Bool.not_eq_true', decide_eq_true_eq, decide_eq_false_iff_not]
        at hfirst
      obtain ⟨hc, hmore⟩ := hfirst
      refine ⟨h.wired, ⟨h.ring.1, h.ring.2⟩, ?_, h.delivered, h.arrived, h.free,
      h.todo⟩
      rw [hc] at hnext hmore hless hlt
      exact ⟨hs.queue, hnext, fun _ => ⟨hzero hc, hlt, f, rest, hf, by dsimp only; omega⟩⟩
    · next hfirst =>
      split
      · next hmid =>
        rw [hfs, hls, Bool.and_eq_true, Bool.not_eq_true', Bool.not_eq_true',
          decide_eq_false_iff_not, decide_eq_false_iff_not] at hmid
        obtain ⟨hmore, hc⟩ := hmid
        obtain ⟨hfsrx, -, -⟩ := hs.first (Nat.pos_of_ne_zero hc)
        refine ⟨h.wired, ⟨h.ring.1, h.ring.2⟩, ?_, h.delivered, h.arrived, h.free,
      h.todo⟩
        exact ⟨hs.queue, hnext, fun _ => ⟨hfsrx, hlt, f, rest, hf, by dsimp only; omega⟩⟩
      · next hmid =>
        have hlast : s.infos.segCount + 1 = segCount f := by
          rw [hfs, hls] at hfirst hmid
          by_contra hno
          by_cases hc : s.infos.segCount = 0
          · simp [hc] at hfirst hno
            omega
          · simp [hc, hno] at hmid
        have hfsrx : (if s.infos.segCount + 1 = 1 then s.rxDesc else s.infos.fsRxDesc) = r := by
          split
          · exact hzero (by omega)
          · exact (hs.first (by omega)).1
        have hlength : (s.desc s.rxDesc).frameLength = UInt32.ofNat f.length := by
          rw [hstores.frameLength]
          exact if_pos hlast
        refine inv_receivedFrame (f := f) h.wired ⟨h.ring.1, h.ring.2⟩ ?_ h.delivered h.arrived
          h.free h.todo ?_ ?_
        · refine ⟨⟨rest, hf, hqueue⟩, hlast, hlast ▸ hlt, ?_, hfsrx⟩
          rw [← hlast]
          exact hnext
        · dsimp only
          rw [hlength]
        · dsimp only
          rw [hfsrx, h.wired.addr_eq _ h.ring.holds.head_lt]
  · refine ⟨h.wired, ⟨h.ring.1, h.ring.2⟩, ?_, h.delivered, h.arrived, h.free,
      h.todo⟩
    exact ⟨hs.1, hs.2, hs.3⟩

/-- The copy of a part of the frame. -/
theorem Reading.slice (hr : Ring s r q) {f got : List UInt8} {left d m : Nat}
    (hfound : Found s r q f) (hreading : Reading s r f got left d)
    (hm : s.bufferoffset + m ≤ ethRxBufSize) (hleft : m ≤ left) :
    got ++ Bytes.slice (s.buff s.buffer) s.bufferoffset m =
      f.take (d * ethRxBufSize + s.bufferoffset + m) := by
  obtain ⟨rest, -, hq⟩ := hfound.frames
  have hlt : d < q.length := Nat.lt_of_lt_of_le hreading.lt hfound.stored
  have hstores := hr.stores hq hreading.lt hlt
  have htotal := hreading.left
  rw [hreading.got, hreading.buffer, hreading.dmarxdesc]
  exact take_slice hstores.bytes hm (by omega)

theorem inv_segment (h : Inv s r q) {left : Nat} {payload : List UInt8} {lens : List Nat}
    (hpc : s.pc = .segment left payload lens) : Inv (cpu s) r q := by
  have hphase := h.phase
  rw [Phase, hpc] at hphase
  obtain ⟨f, ps, d, hfound, hp, hreading⟩ := hphase
  have hslice : ∀ m, s.bufferoffset + m ≤ ethRxBufSize → m ≤ left + lens.sum →
      ps.flatten ++ payload ++ slice (s.buff s.buffer) s.bufferoffset m =
        f.take (d * ethRxBufSize + s.bufferoffset + m) :=
    fun m hm hle => hreading.slice h.ring hfound hm hle
  have hoff := hreading.offset_le
  have htotal := hreading.left
  unfold cpu
  rw [hpc]
  dsimp only
  split
  · next hmore =>
    have hend : s.bufferoffset + (ethRxBufSize - s.bufferoffset) = ethRxBufSize :=
      Nat.add_sub_cancel' hoff
    have hd : d + 1 < segCount f := by
      rw [lt_segCount, Nat.add_mul, Nat.one_mul]
      omega
    have hlt : s.dmarxdesc < ethRxBufNb := hreading.dmarxdesc ▸ Nat.mod_lt _ (by decide)
    have hnext : (s.desc s.dmarxdesc).buffer2NextDescAddr = (r + (d + 1)) % ethRxBufNb := by
      rw [h.wired.next_eq _ hlt, hreading.dmarxdesc, Nat.mod_add_mod, Nat.add_assoc]
    refine ⟨h.wired, ⟨h.ring.1, h.ring.2⟩, ⟨f, ps, d + 1, ?_, hp, ?_⟩, h.delivered, h.arrived,
      h.free, h.todo⟩
    · exact ⟨hfound.1, hfound.2, hfound.3, hfound.4, hfound.5⟩
    · refine ⟨hd, hnext, h.wired.addr_eq _ (hnext ▸ Nat.mod_lt _ (by decide)), Nat.zero_le _, ?_,
        ?_, hreading.deliver⟩
      · rw [← List.append_assoc, hslice _ (Nat.le_of_eq hend) (by omega), Nat.add_assoc, hend,
          Nat.add_zero, Nat.add_mul, Nat.one_mul]
      · rw [Nat.add_mul, Nat.one_mul]
        dsimp only
        omega
  · next hmore =>
    refine ⟨h.wired, ⟨h.ring.1, h.ring.2⟩, ⟨f, ps ++ [payload ++ slice (s.buff s.buffer)
      s.bufferoffset left], d, ?_, by simp only [hp, Option.map_some], ?_⟩, h.delivered, h.arrived,
      h.free, h.todo⟩
    · exact ⟨hfound.1, hfound.2, hfound.3, hfound.4, hfound.5⟩
    · refine ⟨hreading.lt, hreading.dmarxdesc, hreading.buffer, by dsimp only; omega, ?_, ?_,
        hreading.deliver⟩
      · rw [List.flatten_append, List.flatten_singleton, ← List.append_assoc,
          hslice left (by omega) (by omega), Nat.add_assoc]
      · dsimp only
        omega

theorem inv_chain (h : Inv s r q) {lens : List Nat} (hpc : s.pc = .chain lens) :
    Inv (cpu s) r q := by
  have hphase := h.phase
  rw [Phase, hpc] at hphase
  obtain ⟨f, ps, d, hfound, hp, hreading⟩ := hphase
  unfold cpu
  rw [hpc]
  cases lens with
  | nil =>
    have hall : ps.flatten = f.take (f.length - 4) := by
      rw [hreading.got, ← hreading.left, List.sum_nil, Nat.add_zero]
    refine ⟨h.wired, ⟨h.ring.1, h.ring.2⟩, ⟨f, ?_⟩, h.delivered, h.arrived, h.free, h.todo⟩
    refine ⟨hfound.frames, hfound.segCount, Nat.zero_le _, hfound.stored, hfound.rxDesc,
      hfound.fsRxDesc, ?_⟩
    rw [hreading.deliver, ← hall]
    simp only [hp, Option.map_some]
  | cons len lens =>
    refine ⟨h.wired, ⟨h.ring.1, h.ring.2⟩, ⟨f, ps, d, ?_, hp, ?_⟩, h.delivered, h.arrived, h.free,
      h.todo⟩
    · exact ⟨hfound.1, hfound.2, hfound.3, hfound.4, hfound.5⟩
    · rw [List.append_nil]
      rw [List.sum_cons] at hreading
      exact ⟨hreading.1, hreading.2, hreading.3, hreading.4, hreading.5, hreading.6, hreading.7⟩

theorem Delivered.length_le (h : Delivered s) : s.taken.length ≤ s.arrived.length := by
  cases hlen : s.taken.length with
  | zero => exact Nat.zero_le _
  | succ k =>
    have hk : k < s.taken.length := by omega
    obtain ⟨f, hf, -⟩ := h k _ (List.getElem?_eq_getElem hk)
    exact (List.getElem?_eq_some_iff.mp hf).1

/-- The descriptors of the frame are given back. -/
theorem inv_release (h : Inv s r q) {i : Nat} (hpc : s.pc = .release i) :
    ∃ r' q', Inv (cpu s) r' q' := by
  have hphase := h.phase
  rw [Phase, hpc] at hphase
  obtain ⟨f, hrel⟩ := hphase
  obtain ⟨rest, hf, hq⟩ := hrel.frames
  have hcount := hrel.segCount
  unfold cpu
  rw [hpc]
  dsimp only
  split
  · next hlt =>
    rw [hcount] at hlt
    rw [drop_segments hlt, List.cons_append] at hq
    have hstored := hrel.stored
    cases q with
    | nil =>
      rw [List.length_nil] at hstored
      omega
    | cons x q =>
      rw [List.cons_append, List.cons.injEq] at hq
      have hr := h.ring.holds.head_lt
      have hnext := h.wired.next_eq _ hr
      rw [hrel.dmarxdesc]
      refine ⟨(r + 1) % ethRxBufNb, q, ⟨fun j hj => ?_, fun j hj => ?_, h.wired.length_eq⟩,
        ⟨?_, ?_⟩, ⟨f, ?_⟩, h.delivered, h.arrived, h.free, h.todo⟩
      · by_cases heq : j = r
        · subst heq
          simp [h.wired.addr_eq _ hj]
        · simp [heq, h.wired.addr_eq _ hj]
      · by_cases heq : j = r
        · subst heq
          simp [h.wired.next_eq _ hj]
        · simp [heq, h.wired.next_eq _ hj]
      · refine h.ring.holds.pop (fun j _ => ?_) fun j _ hne y hy => ?_
        · by_cases heq : j = r
          · subst heq
            simp
          · simp [heq]
        · simpa [hne] using hy
      · have hcur := h.ring.current
        rw [List.length_cons] at hcur
        dsimp only
        rw [hcur, Nat.mod_add_mod]
        congr 1
        omega
      · rw [List.length_cons] at hstored
        refine ⟨⟨rest, hf, hq.2⟩, hcount, hlt, by omega, ?_, hnext, hrel.deliver⟩
        have hrx := hrel.rxDesc
        dsimp only
        rw [hrx, Nat.mod_add_mod]
        congr 1
        omega
  · next hlt =>
    have hi : i = segCount f := by
      have := hrel.le
      omega
    have hrx := hrel.rxDesc
    rw [hi, Nat.sub_self, Nat.add_zero] at hrx
    rw [hi, List.drop_of_length_le (by rw [length_segments]), List.nil_append] at hq
    have hle := h.delivered.length_le
    refine ⟨r, q, h.wired, ⟨h.ring.1, h.ring.2⟩, ?_, ?_, h.arrived, h.free, h.todo⟩
    · have hpending : pending (finish s) = rest := by
        have hdrop := congrArg List.tail hf
        rw [pending, List.tail_drop] at hdrop
        simp only [pending, finish, List.length_append, List.length_singleton]
        exact hdrop
      refine ⟨?_, ?_, fun hpos => absurd hpos (Nat.lt_irrefl 0)⟩
      · rw [hpending]
        exact hq
      · exact hrx
    · intro j t ht
      simp only [finish] at ht ⊢
      rcases Nat.lt_or_ge j s.taken.length with hj | hj
      · rw [List.getElem?_append_left hj] at ht
        exact h.delivered j t ht
      · rw [List.getElem?_append_right hj] at ht
        obtain ⟨hj0, rfl⟩ := List.getElem?_eq_some_iff.mp ht
        rw [List.length_singleton] at hj0
        have hjeq : j = s.taken.length := by omega
        refine ⟨f, ?_, ?_⟩
        · have hhead := congrArg (·[0]?) hf
          rw [pending] at hhead
          simpa [hjeq] using hhead
        · simpa using hrel.deliver

theorem inv_cpu (h : Inv s r q) : ∃ r' q', Inv (cpu s) r' q' := by
  have hphase := h.phase
  rw [Phase] at hphase
  cases hpc : s.pc with
  | idle => exact ⟨r, q, by rwa [cpu, hpc]⟩
  | scan k =>
    rw [hpc] at hphase
    refine ⟨r, q, ?_⟩
    rw [cpu, hpc]
    exact inv_scan h hphase k
  | chain lens => exact ⟨r, q, inv_chain h hpc⟩
  | segment left payload lens => exact ⟨r, q, inv_segment h hpc⟩
  | release i => exact inv_release h hpc

theorem inv_input (h : Inv s r q) {free : List Nat} (hfree : Input.Fits (.input free)) :
    Inv (lowLevelInput free s) r q := by
  have hphase := h.phase
  rw [Phase] at hphase
  cases hpc : s.pc with
  | idle =>
    rw [hpc] at hphase
    rw [lowLevelInput, hpc]
    exact ⟨h.wired, ⟨h.ring.1, h.ring.2⟩, ⟨hphase.1, hphase.2, hphase.3⟩, h.delivered, h.arrived,
      hfree, h.todo⟩
  | scan k => rwa [lowLevelInput, hpc]
  | chain lens => rwa [lowLevelInput, hpc]
  | segment left payload lens => rwa [lowLevelInput, hpc]
  | release i => rwa [lowLevelInput, hpc]

end Driver

/-! ## The DMA -/

section Dma

variable {s : Rx} {r : Nat} {q : List Segment} {f : List UInt8}

theorem length_segment (frame : List UInt8) (j : Nat) :
    (segment frame j).bytes.length ≤ ethRxBufSize := by
  rw [segment, List.length_take]
  exact Nat.min_le_left _ _

/-- A step of the DMA: the driver's variables stay, and more segments come behind the others. -/
structure Grown (s s' : Rx) (q q' : List Segment) : Prop where
  pc : s'.pc = s.pc
  rxDesc : s'.rxDesc = s.rxDesc
  infos : s'.infos = s.infos
  free : s'.free = s.free
  p : s'.p = s.p
  dmarxdesc : s'.dmarxdesc = s.dmarxdesc
  buffer : s'.buffer = s.buffer
  bufferoffset : s'.bufferoffset = s.bufferoffset
  length_le : q.length ≤ q'.length
  more : ∃ more, pending s' = pending s ++ more ∧
    q' ++ s'.todo = q ++ s.todo ++ more.flatMap segments

section Grown

variable {s' : Rx} {q' : List Segment}

theorem Grown.frames (h : Grown s s' q q') {front : List Segment}
    (hf : ∃ rest, pending s = f :: rest ∧ q ++ s.todo = front ++ rest.flatMap segments) :
    ∃ rest, pending s' = f :: rest ∧ q' ++ s'.todo = front ++ rest.flatMap segments := by
  obtain ⟨more, hpending, hqueue⟩ := h.more
  obtain ⟨rest, hrest, hq⟩ := hf
  refine ⟨rest ++ more, by rw [hpending, hrest, List.cons_append], ?_⟩
  rw [hqueue, hq, List.flatMap_append, List.append_assoc]

theorem Grown.scanned (h : Grown s s' q q') (hs : Scanned s r q) : Scanned s' r q' := by
  obtain ⟨more, hpending, hqueue⟩ := h.more
  refine ⟨?_, by rw [h.rxDesc, h.infos, hs.rxDesc], fun hpos => ?_⟩
  · rw [hqueue, hs.queue, hpending, List.flatMap_append]
  · rw [h.infos] at hpos ⊢
    obtain ⟨hfs, hle, f, rest, hf, hlt⟩ := hs.first hpos
    exact ⟨hfs, Nat.le_trans hle h.length_le, f, rest ++ more,
      by rw [hpending, hf, List.cons_append], hlt⟩

theorem Grown.found (h : Grown s s' q q') (hfound : Found s r q f) : Found s' r q' f :=
  ⟨h.frames hfound.frames, by rw [h.infos, hfound.segCount],
    Nat.le_trans hfound.stored h.length_le, by rw [h.rxDesc, hfound.rxDesc],
    by rw [h.infos, hfound.fsRxDesc]⟩

theorem Grown.reading (h : Grown s s' q q') {got : List UInt8} {left d : Nat}
    (hreading : Reading s r f got left d) : Reading s' r f got left d :=
  ⟨hreading.lt, by rw [h.dmarxdesc, hreading.dmarxdesc],
    by rw [h.buffer, h.dmarxdesc, hreading.buffer],
    by rw [h.bufferoffset]; exact hreading.offset_le,
    by rw [h.bufferoffset, ← hreading.got], by rw [h.bufferoffset]; exact hreading.left,
    by rw [h.free, hreading.deliver]⟩

theorem Grown.releasing (h : Grown s s' q q') {i : Nat} (hrel : Releasing s r q f i) :
    Releasing s' r q' f i :=
  ⟨h.frames hrel.frames, by rw [h.infos, hrel.segCount], hrel.le,
    Nat.le_trans hrel.stored h.length_le, by rw [h.rxDesc, hrel.rxDesc],
    by rw [h.dmarxdesc, hrel.dmarxdesc], by rw [h.p, h.free, hrel.deliver]⟩

theorem Grown.phase (h : Grown s s' q q') (hphase : Phase s r q) : Phase s' r q' := by
  unfold Phase at hphase ⊢
  rw [h.pc]
  cases hpc : s.pc with
  | idle =>
    rw [hpc] at hphase
    exact h.scanned hphase
  | scan k =>
    rw [hpc] at hphase
    exact h.scanned hphase
  | chain lens =>
    rw [hpc] at hphase
    obtain ⟨f, ps, d, hfound, hp, hreading⟩ := hphase
    exact ⟨f, ps, d, h.found hfound, h.p.trans hp, h.reading hreading⟩
  | segment left payload lens =>
    rw [hpc] at hphase
    obtain ⟨f, ps, d, hfound, hp, hreading⟩ := hphase
    exact ⟨f, ps, d, h.found hfound, h.p.trans hp, h.reading hreading⟩
  | release i =>
    rw [hpc] at hphase
    obtain ⟨f, hrel⟩ := hphase
    exact ⟨f, h.releasing hrel⟩

end Grown

theorem inv_arrive (h : Inv s r q) (frame : List UInt8) :
    Inv (arrive frame s) r q ∧ Grown s (arrive frame s) q q := by
  rw [arrive]
  split
  · next hguard =>
    obtain ⟨htodo, hne, hcount, -⟩ := hguard
    have hgrown : Grown s { s with todo := segments frame, arrived := s.arrived ++ [frame] } q
        q := by
      refine ⟨rfl, rfl, rfl, rfl, rfl, rfl, rfl, rfl, Nat.le_refl _, [frame], ?_, ?_⟩
      · exact List.drop_append_of_le_length h.delivered.length_le
      · rw [htodo, List.append_nil, List.flatMap_singleton]
    refine ⟨⟨h.wired, ⟨h.ring.1, h.ring.2⟩, hgrown.phase h.phase, ?_, ?_, h.free, ?_⟩, hgrown⟩
    · intro i t ht
      obtain ⟨f, hf, hdeliver⟩ := h.delivered i t ht
      refine ⟨f, ?_, hdeliver⟩
      dsimp only
      rw [List.getElem?_append_left (List.getElem?_eq_some_iff.mp hf).1]
      exact hf
    · intro f hf
      rcases List.mem_append.mp hf with hold | hnew
      · exact h.arrived f hold
      · rw [List.mem_singleton.mp hnew]
        exact ⟨hne, hcount⟩
    · intro x hx
      obtain ⟨j, -, rfl⟩ := List.mem_map.mp hx
      exact length_segment frame j
  · exact ⟨h, rfl, rfl, rfl, rfl, rfl, rfl, rfl, rfl, Nat.le_refl _, [], by rw [List.append_nil],
      by rw [List.flatMap_nil, List.append_nil]⟩

/-- The DMA stores its next segment behind the others. -/
theorem inv_dma (h : Inv s r q) : ∃ q', Inv (dma s) r q' ∧ Grown s (dma s) q q' := by
  have hstay : Grown s s q q := ⟨rfl, rfl, rfl, rfl, rfl, rfl, rfl, rfl, Nat.le_refl _, [],
    by rw [List.append_nil], by rw [List.flatMap_nil, List.append_nil]⟩
  cases htodo : s.todo with
  | nil => exact ⟨q, by rwa [dma, htodo], by rwa [dma, htodo]⟩
  | cons x todo =>
    rw [dma, htodo]
    dsimp only
    split
    · next hown =>
      have hcur := h.ring.current
      have hlt : s.current < ethRxBufNb := hcur ▸ Nat.mod_lt _ h.ring.holds.pos
      have haddr := h.wired.addr_eq _ hlt
      have hnext := h.wired.next_eq _ hlt
      have hx : x.bytes.length ≤ ethRxBufSize := h.todo x (by rw [htodo]; exact List.mem_cons_self)
      have hroom : q.length + 0 < ethRxBufNb := by
        apply h.ring.holds.room h.ring.holds.pos
        rw [Nat.add_zero, ← hcur, hown]
        rfl
      rw [haddr, hnext]
      have hgrown : Grown s { s with
          desc := Function.update s.desc s.current ⟨false, x.fs, x.ls, x.frameLength, s.current,
            (s.current + 1) % ethRxBufNb⟩
          buff := Function.update s.buff s.current (splice (s.buff s.current) 0 x.bytes)
          current := (s.current + 1) % ethRxBufNb
          todo := todo } q (q ++ [x]) := by
        refine ⟨rfl, rfl, rfl, rfl, rfl, rfl, rfl, rfl, ?_, [], ?_, ?_⟩
        · rw [List.length_append]
          exact Nat.le_add_right _ _
        · exact (List.append_nil _).symm
        · rw [htodo, List.append_assoc, List.flatMap_nil, List.append_nil]
          rfl
      refine ⟨q ++ [x], ⟨?_, ⟨?_, ?_⟩, hgrown.phase h.phase, h.delivered, h.arrived, h.free, ?_⟩,
        hgrown⟩
      · have hfits : 0 + x.bytes.length ≤ ethRxBufSize := by omega
        have hwired := h.wired.splice hlt hfits
        refine ⟨fun i hi => ?_, fun i hi => ?_, hwired.length_eq⟩
        · by_cases heq : i = s.current
          · subst heq
            simp
          · simp [heq, h.wired.addr_eq _ hi]
        · by_cases heq : i = s.current
          · subst heq
            simp
          · simp [heq, h.wired.next_eq _ hi]
      · refine h.ring.holds.push hroom (fun i _ => ?_) ?_ fun i _ hne y hy => ?_
        · rw [← hcur]
          by_cases heq : i = s.current
          · subst heq
            simp
          · simp [heq]
        · rw [← hcur]
          dsimp only
          rw [Function.update_self, Function.update_self]
          exact ⟨rfl, rfl, rfl, by rw [splice, List.take_zero]; exact List.prefix_append _ _⟩
        · rw [← hcur] at hne
          dsimp only
          rw [Function.update_of_ne hne, Function.update_of_ne hne]
          exact hy
      · dsimp only
        rw [hcur, Nat.mod_add_mod, List.length_append, List.length_singleton, Nat.add_assoc]
      · intro y hy
        exact h.todo y (by rw [htodo]; exact List.mem_cons_of_mem _ hy)
    · exact ⟨q, h, hstay⟩

end Dma

/-! ## Runs -/

section Run

variable {tab : Nat → DmaDesc} {buff : Nat → List UInt8}

theorem desc_init (tab : Nat → DmaDesc) (buff : Nat → List UInt8) {i : Nat} (hi : i < ethRxBufNb) :
    (init tab buff).desc i =
      { tab i with
        own := true
        fs := false
        ls := false
        frameLength := 0
        buffer1Addr := i
        buffer2NextDescAddr := if i < ethRxBufNb - 1 then i + 1 else 0 } := by
  rw [init, ethDmaRxDescListInit]
  dsimp only
  rw [setUp_of_lt _ tab hi]

theorem inv_init (tab : Nat → DmaDesc)
    (hbuff : ∀ i < ethRxBufNb, (buff i).length = ethRxBufSize) : Inv (init tab buff) 0 [] := by
  refine ⟨⟨fun i hi => ?_, fun i hi => ?_, hbuff⟩, ⟨holds_nil (Nat.succ_pos 3) fun i hi => ?_, rfl⟩,
    ?_, fun i t ht => ?_, fun f hf => ?_, Nat.zero_le _, fun x hx => ?_⟩
  · rw [desc_init tab buff hi]
  · rw [desc_init tab buff hi]
    dsimp only
    unfold ethRxBufNb at hi ⊢
    split <;> omega
  · rw [desc_init tab buff hi]
    rfl
  · exact ⟨rfl, rfl, fun hpos => absurd hpos (Nat.lt_irrefl 0)⟩
  · cases ht
  · cases hf
  · cases hx

theorem inv_step (s : Rx) (i : Input) (h : ∃ r q, Inv s r q) (hfits : i.Fits) :
    ∃ r q, Inv (step s i) r q := by
  obtain ⟨r, q, h⟩ := h
  cases i with
  | input free => exact ⟨r, q, inv_input h hfits⟩
  | cpu => exact inv_cpu h
  | arrive frame => exact ⟨r, q, (inv_arrive h frame).1⟩
  | dma =>
    obtain ⟨q', h', -⟩ := inv_dma h
    exact ⟨r, q', h'⟩

theorem inv_run (tab : Nat → DmaDesc) (hbuff : ∀ i < ethRxBufNb, (buff i).length = ethRxBufSize)
    {is : List Input} (hfits : ∀ i ∈ is, i.Fits) :
    ∃ r q, Inv (Machine.run step (init tab buff) is) r q :=
  Machine.run_inv inv_step ⟨0, [], inv_init tab hbuff⟩ (Machine.always_inputs_iff.mpr hfits)

/-- With no frame left, all descriptors are the DMA's. -/
theorem Inv.all_owned {s : Rx} {r : Nat} {q : List Segment} (h : Inv s r q) (hpc : s.pc = .idle)
    (hall : s.taken.length = s.arrived.length) :
    s.todo = [] ∧ ∀ i < ethRxBufNb, (s.desc i).own = true := by
  have hphase := h.phase
  rw [Phase, hpc] at hphase
  have hpending : pending s = [] := List.drop_of_length_le (Nat.le_of_eq hall.symm)
  have hqueue := hphase.queue
  rw [hpending, List.flatMap_nil, List.append_eq_nil_iff] at hqueue
  obtain ⟨rfl, htodo⟩ := hqueue
  refine ⟨htodo, fun i hi => ?_⟩
  have hr := h.ring.holds.head_lt
  -- descriptor `i` as one of those from `r` on
  have hmark := h.ring.holds.marked_iff ((i + (ethRxBufNb - r)) % ethRxBufNb)
    (Nat.mod_lt _ h.ring.holds.pos)
  have hslot : (r + (i + (ethRxBufNb - r)) % ethRxBufNb) % ethRxBufNb = i := by
    rw [Nat.add_mod_mod, show r + (i + (ethRxBufNb - r)) = i + ethRxBufNb by omega,
      Nat.add_mod_right, Nat.mod_eq_of_lt hi]
  rw [hslot] at hmark
  simpa using hmark

/-- Whatever the order in which the driver and the DMA take their steps: `low_level_input` takes the
frames that the DMA has stored one after the other, and makes a packet of each, without its
checksum, or drops it for want of elements of the pool. When it has taken all of them, the DMA owns
all descriptors again. -/
theorem taken_of_run (tab : Nat → DmaDesc)
    (hbuff : ∀ i < ethRxBufNb, (buff i).length = ethRxBufSize) {is : List Input}
    (hfits : ∀ i ∈ is, i.Fits) :
    let s := Machine.run step (init tab buff) is
    s.taken.length ≤ s.arrived.length ∧
      (∀ (i : Nat) (t : Taken), s.taken[i]? = some t →
        ∃ f, s.arrived[i]? = some f ∧ t.packet = deliver t.free f) ∧
      (s.pc = .idle → s.taken.length = s.arrived.length →
        ∀ i < ethRxBufNb, (s.desc i).own = true) := by
  obtain ⟨r, q, h⟩ := inv_run tab hbuff hfits
  exact ⟨h.delivered.length_le, h.delivered, fun hpc hall => (h.all_owned hpc hall).2⟩

end Run

/-- A frame of six bytes comes in while the driver looks for one. -/
theorem one_frame_taken :
    let s := Machine.run step (init (fun _ => ⟨false, true, true, 7, 0, 0⟩)
      fun _ => List.replicate ethRxBufSize 0) [.input [0], .arrive [1, 2, 3, 4, 5, 6], .cpu, .dma]
    s.taken.length ≤ s.arrived.length ∧
      (∀ (i : Nat) (t : Taken), s.taken[i]? = some t →
        ∃ f, s.arrived[i]? = some f ∧ t.packet = deliver t.free f) ∧
      (s.pc = .idle → s.taken.length = s.arrived.length →
        ∀ i < ethRxBufNb, (s.desc i).own = true) :=
  taken_of_run _ (fun _ _ => List.length_replicate) (by simp [Input.Fits, Pbuf.poolSize])

end Receive
end PodFirmware
