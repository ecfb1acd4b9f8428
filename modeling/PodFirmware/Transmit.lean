import PodFirmware.Lib.SharedRing

/-!
# PodFirmware.Transmit

Frames on their way out. `low_level_output` copies a chain of packet buffers to the transmit buffers
and `HAL_ETH_TransmitFrame` hands their descriptors to the DMA, one by one, while the DMA reads the
frames that it has been given before. Every statement of the driver and every step of the DMA is a
step here, in any order.

* `ethDmaTxDescListInit`, `lowLevelOutput`, `cpu`: the driver.
* `dma`: what the DMA does with a descriptor that is its own.
-/

namespace PodFirmware
namespace Transmit

open Bytes SharedRing

/-! ## The code -/

def ethTxBufNb : Nat := 4

/-- `ETH_MAX_PACKET_SIZE`. -/
def ethTxBufSize : Nat := 1524

def errOk : Int8 := 0
def errUse : Int8 := -8

/-- `ETH_DMADescTypeDef`. An address is an index in `Tx_Buff` or in `DMATxDscrTab`. -/
structure DmaDesc where
  own : Bool
  fs : Bool
  ls : Bool
  controlBufferSize : Nat
  buffer1Addr : Nat
  buffer2NextDescAddr : Nat
  deriving DecidableEq, Repr

/-- Where the driver is: not called, before the next buffer of the chain, before the next part of
a buffer, before the next descriptor. -/
inductive Pc where
  | idle
  | chain (q : List (List UInt8))
  | segment (payload : List UInt8) (q : List (List UInt8))
  | descriptor (i bufcount : Nat)
  deriving DecidableEq, Repr

structure Tx where
  desc : Nat → DmaDesc
  buff : Nat → List UInt8
  txDesc : Nat := 0
  pc : Pc := .idle
  -- the argument and the variables of `low_level_output`
  p : List (List UInt8) := []
  dmaTxDesc : Nat := 0
  buffer : Nat := 0
  bufferoffset : Nat := 0
  framelength : Nat := 0
  errval : Int8 := errOk
  /-- The frames for which `ERR_OK` was returned. -/
  accepted : List (List UInt8) := []
  -- the DMA: its place in the list, the frame it has begun and those it has sent
  current : Nat := 0
  sending : List UInt8 := []
  wire : List (List UInt8) := []

/-- `ETH_DMATXDESC_TBS1`. -/
def tbs1 (size : Nat) : Nat := size % 2 ^ 13

def ethDmaTxDescListInit (tab : Nat → DmaDesc) (txBuffCount : Nat) : Nat → DmaDesc :=
  setUp (fun i d =>
    { d with
      own := false
      fs := false
      ls := false
      buffer1Addr := i
      buffer2NextDescAddr := if i < txBuffCount - 1 then i + 1 else 0 }) txBuffCount tab

/-- `tab` and `buff` are what the memory holds before. -/
def init (tab : Nat → DmaDesc) (buff : Nat → List UInt8) : Tx :=
  { desc := ethDmaTxDescListInit tab ethTxBufNb, buff := buff }

/-- What the body of the loop in `HAL_ETH_TransmitFrame` makes of a descriptor, and what is done
instead of the loop when there is one only. -/
def handOver (framelength i bufcount : Nat) (d : DmaDesc) : DmaDesc :=
  if bufcount = 1 then
    { d with fs := true, ls := true, controlBufferSize := tbs1 framelength, own := true }
  else
    let d := { d with fs := false, ls := false }
    let d := if i = 0 then { d with fs := true } else d
    let d := { d with controlBufferSize := tbs1 ethTxBufSize }
    let d :=
      if i = bufcount - 1 then
        let size := framelength - (bufcount - 1) * ethTxBufSize
        { d with ls := true, controlBufferSize := tbs1 size }
      else d
    { d with own := true }

/-- `low_level_output` returns `ERR_OK`. -/
def finish (s : Tx) : Tx :=
  { s with pc := .idle, errval := errOk, accepted := s.accepted ++ [s.p.flatten] }

def fail (s : Tx) : Tx := { s with pc := .idle, errval := errUse }

/-- `HAL_ETH_TransmitFrame` up to its loop. What it returns is not looked at. -/
def ethTransmitFrame (s : Tx) : Tx :=
  if s.framelength = 0 then finish s
  else if (s.desc s.txDesc).own then finish s
  else
    let bufcount :=
      if s.framelength > ethTxBufSize then
        s.framelength / ethTxBufSize + if s.framelength % ethTxBufSize ≠ 0 then 1 else 0
      else 1
    { s with pc := .descriptor 0 bufcount }

/-- `memcpy` to the transmit buffer. -/
def copy (s : Tx) (bytes : List UInt8) : Nat → List UInt8 :=
  Function.update s.buff s.buffer (splice (s.buff s.buffer) s.bufferoffset bytes)

/-- The next statement of the driver. -/
def cpu (s : Tx) : Tx :=
  match s.pc with
  | .idle => s
  | .chain [] => ethTransmitFrame s
  | .chain (payload :: q) =>
    if (s.desc s.dmaTxDesc).own then fail s else { s with pc := .segment payload q }
  | .segment payload q =>
    if payload.length + s.bufferoffset > ethTxBufSize then
      let n := ethTxBufSize - s.bufferoffset
      let next := (s.desc s.dmaTxDesc).buffer2NextDescAddr
      let s := { s with buff := copy s (payload.take n), dmaTxDesc := next }
      if (s.desc next).own then fail s
      else
        { s with
          buffer := (s.desc next).buffer1Addr
          framelength := s.framelength + n
          bufferoffset := 0
          pc := .segment (payload.drop n) q }
    else
      { s with
        buff := copy s payload
        bufferoffset := s.bufferoffset + payload.length
        framelength := s.framelength + payload.length
        pc := .chain q }
  | .descriptor i bufcount =>
    let next := (s.desc s.txDesc).buffer2NextDescAddr
    let d := handOver s.framelength i bufcount (s.desc s.txDesc)
    let s := { s with desc := Function.update s.desc s.txDesc d, txDesc := next }
    if i + 1 < bufcount then { s with pc := .descriptor (i + 1) bufcount } else finish s

/-- `low_level_output` is called with a chain, given by the payloads of its buffers. -/
def lowLevelOutput (p : List (List UInt8)) (s : Tx) : Tx :=
  match s.pc with
  | .idle =>
    { s with
      pc := .chain p
      p := p
      dmaTxDesc := s.txDesc
      buffer := (s.desc s.txDesc).buffer1Addr
      bufferoffset := 0
      framelength := 0 }
  | _ => s

/-! ## The DMA -/

/-- What a descriptor stands for. -/
structure Segment where
  bytes : List UInt8
  fs : Bool
  ls : Bool
  deriving DecidableEq, Repr

def segment (s : Tx) (i : Nat) : Segment :=
  { bytes := (s.buff (s.desc i).buffer1Addr).take (s.desc i).controlBufferSize
    fs := (s.desc i).fs
    ls := (s.desc i).ls }

/-- The frames that have been sent, and the one that has been begun, after one more segment. -/
def emit (w : List (List UInt8) × List UInt8) (x : Segment) : List (List UInt8) × List UInt8 :=
  let sending := (if x.fs then [] else w.2) ++ x.bytes
  if x.ls then (w.1 ++ [sending], []) else (w.1, sending)

def dma (s : Tx) : Tx :=
  if (s.desc s.current).own then
    let w := emit (s.wire, s.sending) (segment s s.current)
    { s with
      desc := Function.update s.desc s.current { s.desc s.current with own := false }
      current := (s.desc s.current).buffer2NextDescAddr
      wire := w.1
      sending := w.2 }
  else s

inductive Input where
  | output (p : List (List UInt8))
  | cpu
  | dma
  deriving DecidableEq, Repr

def step (s : Tx) : Input → Tx
  | .output p => lowLevelOutput p s
  | .cpu => cpu s
  | .dma => dma s

end Transmit
end PodFirmware
