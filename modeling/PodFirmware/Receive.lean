import PodFirmware.Lib.SharedRing
import PodFirmware.Message

/-!
# PodFirmware.Receive

Frames on their way in. The DMA stores a frame in the receive buffers of as many descriptors as it
needs, and marks the last. `HAL_ETH_GetReceivedFrame_IT` looks for a whole frame, and where it finds
none it goes on from there at the next call; `low_level_input` copies the frame to a chain of packet
buffers and gives the descriptors back. Every statement of the driver and every step of the DMA is a
step here, in any order.

* `ethDmaRxDescListInit`, `lowLevelInput`, `cpu`: the driver.
* `arrive`, `dma`: what the DMA does with a frame.
-/

namespace PodFirmware
namespace Receive

open Bytes SharedRing

/-! ## The code -/

def ethRxBufNb : Nat := 4

/-- `ETH_MAX_PACKET_SIZE`. -/
def ethRxBufSize : Nat := 1524

/-- `ETH_DMADescTypeDef`. An address is an index in `Rx_Buff` or in `DMARxDscrTab`. -/
structure DmaDesc where
  own : Bool
  fs : Bool
  ls : Bool
  frameLength : UInt32
  buffer1Addr : Nat
  buffer2NextDescAddr : Nat
  deriving DecidableEq, Repr

/-- `ETH_DMARxFrameInfos`. -/
structure FrameInfos where
  fsRxDesc : Nat := 0
  lsRxDesc : Nat := 0
  segCount : Nat := 0
  length : UInt32 := 0
  buffer : Nat := 0
  deriving DecidableEq, Repr

/-- Where the driver is: not called, in the search of the HAL, before the next buffer of the chain
(given by the lengths), before the next part of a buffer with `left` bytes to go, before the next
descriptor that is given back. -/
inductive Pc where
  | idle
  | scan (descriptorscancounter : Nat)
  | chain (q : List Nat)
  | segment (left : Nat) (payload : List UInt8) (q : List Nat)
  | release (i : Nat)
  deriving DecidableEq, Repr

/-- What a frame has become: the elements that the pool had, and the packet if there is one. -/
structure Taken where
  free : List Nat
  packet : Option (List UInt8)
  deriving DecidableEq, Repr

/-- What the DMA writes to one descriptor and its buffer. -/
structure Segment where
  bytes : List UInt8
  fs : Bool
  ls : Bool
  frameLength : UInt32
  deriving DecidableEq, Repr

structure Rx where
  desc : Nat → DmaDesc
  buff : Nat → List UInt8
  rxDesc : Nat := 0
  infos : FrameInfos := {}
  pc : Pc := .idle
  -- the variables of `low_level_input`, and the elements that the pool has
  free : List Nat := []
  p : Option (List (List UInt8)) := none
  dmarxdesc : Nat := 0
  buffer : Nat := 0
  bufferoffset : Nat := 0
  /-- What `low_level_input` has made of the frames that it found. -/
  taken : List Taken := []
  -- the DMA: its place in the list, what is left of a frame, and the frames that it has stored
  current : Nat := 0
  todo : List Segment := []
  arrived : List (List UInt8) := []

/-- `OWN` is set, and no other bit of the status. -/
def ethDmaRxDescListInit (tab : Nat → DmaDesc) (rxBuffCount : Nat) : Nat → DmaDesc :=
  setUp (fun i d =>
    { d with
      own := true
      fs := false
      ls := false
      frameLength := 0
      buffer1Addr := i
      buffer2NextDescAddr := if i < rxBuffCount - 1 then i + 1 else 0 }) rxBuffCount tab

def init (tab : Nat → DmaDesc) (buff : Nat → List UInt8) : Rx :=
  { desc := ethDmaRxDescListInit tab ethRxBufNb, buff := buff }

/-- `pbuf_alloc` with `PBUF_RAW` from the pool: the lengths of the chain. -/
def pbufAlloc (free : List Nat) (len : UInt16) : Option (List Nat) :=
  (Message.pbufAlloc 0 0 len free).map fun chain => (chain.1 :: chain.2).map (·.len)

/-- The loop of `HAL_ETH_GetReceivedFrame_IT` is left with `HAL_OK`: what follows in
`low_level_input` before its loops. -/
def receivedFrame (s : Rx) : Rx :=
  let len := s.infos.length.toUInt16
  match (if len > 0 then pbufAlloc s.free len else none) with
  | some lens =>
    { s with
      p := some []
      buffer := s.infos.buffer
      dmarxdesc := s.infos.fsRxDesc
      bufferoffset := 0
      pc := .chain lens }
  | none => { s with p := none, dmarxdesc := s.infos.fsRxDesc, pc := .release 0 }

/-- One turn of the loop of `HAL_ETH_GetReceivedFrame_IT`. -/
def scan (s : Rx) (descriptorscancounter : Nat) : Rx :=
  let d := s.desc s.rxDesc
  if !d.own && descriptorscancounter < ethRxBufNb then
    if d.fs && !d.ls then
      { s with
        infos := { s.infos with fsRxDesc := s.rxDesc, segCount := 1 }
        rxDesc := d.buffer2NextDescAddr
        pc := .scan (descriptorscancounter + 1) }
    else if !d.ls && !d.fs then
      { s with
        infos := { s.infos with segCount := s.infos.segCount + 1 }
        rxDesc := d.buffer2NextDescAddr
        pc := .scan (descriptorscancounter + 1) }
    else
      let segCount := s.infos.segCount + 1
      let fsRxDesc := if segCount = 1 then s.rxDesc else s.infos.fsRxDesc
      receivedFrame { s with
        infos :=
          { fsRxDesc := fsRxDesc
            lsRxDesc := s.rxDesc
            segCount := segCount
            length := d.frameLength - 4
            buffer := (s.desc fsRxDesc).buffer1Addr }
        rxDesc := d.buffer2NextDescAddr }
  else { s with pc := .idle }

/-- `low_level_input` returns after it has found a frame. -/
def finish (s : Rx) : Rx :=
  { s with
    infos := { s.infos with segCount := 0 }
    pc := .idle
    taken := s.taken ++ [⟨s.free, s.p.map List.flatten⟩] }

/-- The next statement of the driver. -/
def cpu (s : Rx) : Rx :=
  match s.pc with
  | .idle => s
  | .scan descriptorscancounter => scan s descriptorscancounter
  | .chain [] => { s with dmarxdesc := s.infos.fsRxDesc, pc := .release 0 }
  | .chain (len :: q) => { s with pc := .segment len [] q }
  | .segment left payload q =>
    if left + s.bufferoffset > ethRxBufSize then
      let n := ethRxBufSize - s.bufferoffset
      let next := (s.desc s.dmarxdesc).buffer2NextDescAddr
      { s with
        dmarxdesc := next
        buffer := (s.desc next).buffer1Addr
        bufferoffset := 0
        pc := .segment (left - n) (payload ++ slice (s.buff s.buffer) s.bufferoffset n) q }
    else
      let bytes := slice (s.buff s.buffer) s.bufferoffset left
      { s with
        p := s.p.map (· ++ [payload ++ bytes])
        bufferoffset := s.bufferoffset + left
        pc := .chain q }
  | .release i =>
    if i < s.infos.segCount then
      let d := s.desc s.dmarxdesc
      { s with
        desc := Function.update s.desc s.dmarxdesc { d with own := true }
        dmarxdesc := d.buffer2NextDescAddr
        pc := .release (i + 1) }
    else finish s

/-- `low_level_input` is called, `free` being the elements of the pool. -/
def lowLevelInput (free : List Nat) (s : Rx) : Rx :=
  match s.pc with
  | .idle => { s with free := free, pc := .scan 0 }
  | _ => s

/-! ## The DMA -/

/-- The descriptors that a frame fills. -/
def segCount (frame : List UInt8) : Nat := (frame.length + ethRxBufSize - 1) / ethRxBufSize

/-- The length, with the four bytes of the checksum, stands in the last descriptor. -/
def segment (frame : List UInt8) (j : Nat) : Segment :=
  { bytes := (frame.drop (j * ethRxBufSize)).take ethRxBufSize
    fs := decide (j = 0)
    ls := decide (j + 1 = segCount frame)
    frameLength := if j + 1 = segCount frame then UInt32.ofNat frame.length else 0 }

def segments (frame : List UInt8) : List Segment :=
  (List.range (segCount frame)).map (segment frame)

/-- A frame arrives. The DMA takes it when it owns the descriptors for it, and misses it otherwise,
or when it is not done with another. -/
def arrive (frame : List UInt8) (s : Rx) : Rx :=
  if s.todo = [] ∧ frame ≠ [] ∧ segCount frame ≤ ethRxBufNb ∧
      ∀ j < segCount frame, (s.desc ((s.current + j) % ethRxBufNb)).own = true then
    { s with todo := segments frame, arrived := s.arrived ++ [frame] }
  else s

/-- The DMA fills its next descriptor, if that is its own. -/
def dma (s : Rx) : Rx :=
  match s.todo with
  | [] => s
  | x :: todo =>
    let d := s.desc s.current
    if d.own then
      { s with
        desc := Function.update s.desc s.current
          { d with own := false, fs := x.fs, ls := x.ls, frameLength := x.frameLength }
        buff := Function.update s.buff d.buffer1Addr (splice (s.buff d.buffer1Addr) 0 x.bytes)
        current := d.buffer2NextDescAddr
        todo := todo }
    else s

inductive Input where
  | input (free : List Nat)
  | cpu
  | arrive (frame : List UInt8)
  | dma
  deriving DecidableEq, Repr

def step (s : Rx) : Input → Rx
  | .input free => lowLevelInput free s
  | .cpu => cpu s
  | .arrive frame => arrive frame s
  | .dma => dma s

end Receive
end PodFirmware
