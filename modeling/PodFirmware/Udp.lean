import PodFirmware.Chksum
import Mathlib.Logic.Function.Basic

/-!
# PodFirmware.Udp

`udp.c`: the protocol control blocks, the datagrams that are sent from one and the one that a
datagram is received for. A block lies at a place of the pool; the list `udp_pcbs` holds the places
of the blocks that are bound, and the block that a datagram was for moves to the front.

* `udpNew`, `udpBind`, `udpConnect`, `udpRecv`: the calls.
* `udpSendtoIfSrc`: the chain that goes to IP, with its header and checksum.
* `udpInput`: what becomes of a chain from IP.
-/

namespace PodFirmware

open Bytes (littleEndian ofLittleEndian slice)

def udpHlen : Nat := 8
def ipProtoUdp : UInt8 := 17
def sofReuseaddr : UInt8 := 0x04
def sofBroadcast : UInt8 := 0x20
def udpLocalPortRangeStart : UInt16 := 0xc000
def udpLocalPortRangeEnd : UInt16 := 0xffff

/-- Addresses are in network order, as they lie in memory: `IP4_ADDR`. -/
def ip4Addr (a b c d : UInt8) : UInt32 :=
  d.toUInt32 <<< 24 ||| c.toUInt32 <<< 16 ||| b.toUInt32 <<< 8 ||| a.toUInt32

def ip4AddrIsmulticast (addr : UInt32) : Bool := addr &&& 0x000000f0 == 0x000000e0

def ip4AddrNetcmp (addr1 addr2 mask : UInt32) : Bool := addr1 &&& mask == addr2 &&& mask

/-- What is used of a `struct netif`; `broadcast` is the flag `NETIF_FLAG_BROADCAST`. -/
structure Netif where
  ipAddr : UInt32
  netmask : UInt32
  broadcast : Bool
  deriving DecidableEq, Repr

def ip4AddrIsbroadcast (addr : UInt32) (netif : Netif) : Bool :=
  if ~~~addr = 0 ∨ addr = 0 then true
  else if netif.broadcast = false then false
  else if addr = netif.ipAddr then false
  else ip4AddrNetcmp addr netif.ipAddr netif.netmask &&
    addr &&& ~~~netif.netmask == 0xffffffff &&& ~~~netif.netmask

/-- `recv` tells whether there is a callback. -/
structure UdpPcb where
  localIp : UInt32 := 0
  remoteIp : UInt32 := 0
  soOptions : UInt8 := 0
  localPort : UInt16 := 0
  remotePort : UInt16 := 0
  connected : Bool := false
  recv : Bool := false
  deriving DecidableEq, Repr

def UdpPcb.option (pcb : UdpPcb) (opt : UInt8) : Bool := pcb.soOptions &&& opt != 0

structure Udp where
  pcb : Nat → UdpPcb
  free : List Nat
  udpPcbs : List Nat
  udpPort : UInt16

namespace Udp

def set (s : Udp) (i : Nat) (pcb : UdpPcb) : Udp := { s with pcb := Function.update s.pcb i pcb }

end Udp

/-! ## Blocks -/

def udpNew (s : Udp) : Option (Nat × Udp) :=
  match s.free with
  | [] => none
  | i :: free => some (i, { s with free := free }.set i {})

def nextPort (udpPort : UInt16) : UInt16 :=
  if udpPort = udpLocalPortRangeEnd then udpLocalPortRangeStart else udpPort + 1

/-- `udp_new_port` with what is left of the tries; it begins with `2 ^ 14`. -/
def udpNewPort (s : Udp) (udpPort : UInt16) : Nat → UInt16 × UInt16
  | 0 => (0, udpPort)
  | left + 1 =>
    let udpPort := nextPort udpPort
    if s.udpPcbs.any (fun i => (s.pcb i).localPort = udpPort) then udpNewPort s udpPort left
    else (udpPort, udpPort)

def errOk : Int8 := 0
def errUse : Int8 := -8

/-- Another block has the address and the port. -/
def bound (s : Udp) (i : Nat) (ipaddr : UInt32) (port : UInt16) : Bool :=
  s.udpPcbs.any fun j => j ≠ i &&
    (!(s.pcb i).option sofReuseaddr || !(s.pcb j).option sofReuseaddr) &&
    (s.pcb j).localPort = port && (s.pcb j).localIp = ipaddr

def udpBind (s : Udp) (i : Nat) (ipaddr : UInt32) (port : UInt16) : Int8 × Udp :=
  let (newPort, udpPort) := if port = 0 then udpNewPort s s.udpPort (2 ^ 14) else (port, s.udpPort)
  let s := { s with udpPort := udpPort }
  if newPort = 0 then (errUse, s)
  else if port ≠ 0 ∧ bound s i ipaddr port then (errUse, s)
  else
    let udpPcbs := if i ∈ s.udpPcbs then s.udpPcbs else i :: s.udpPcbs
    (errOk, { s with udpPcbs := udpPcbs }.set i
      { s.pcb i with localIp := ipaddr, localPort := newPort })

def udpConnect (s : Udp) (i : Nat) (ipaddr : UInt32) (port : UInt16) : Int8 × Udp :=
  let (err, s) := if (s.pcb i).localPort = 0 then udpBind s i (s.pcb i).localIp 0 else (errOk, s)
  if err ≠ errOk then (err, s)
  else
    let s := s.set i { s.pcb i with remoteIp := ipaddr, remotePort := port, connected := true }
    (errOk, { s with udpPcbs := if i ∈ s.udpPcbs then s.udpPcbs else i :: s.udpPcbs })

def udpRecv (s : Udp) (i : Nat) : Udp := s.set i { s.pcb i with recv := true }

/-! ## Headers -/

/-- The fields as they lie in memory, in network order. -/
structure UdpHdr where
  src : UInt16
  dest : UInt16
  len : UInt16
  chksum : UInt16
  deriving DecidableEq, Repr

def UdpHdr.bytes (h : UdpHdr) : List UInt8 :=
  littleEndian 2 h.src.toNat ++ littleEndian 2 h.dest.toNat ++ littleEndian 2 h.len.toNat ++
    littleEndian 2 h.chksum.toNat

def load16 (payload : List UInt8) (off : Nat) : UInt16 :=
  UInt16.ofNat (ofLittleEndian (slice payload off 2))

def udpHdr (payload : List UInt8) : UdpHdr :=
  ⟨load16 payload 0, load16 payload 2, load16 payload 4, load16 payload 6⟩

/-- A header is put before the data: in the first segment if there is room, else in a segment of its
own, behind which an empty chain is left away. -/
def addHeader (room : Bool) (hdr : List UInt8) (p : List (List UInt8)) : List (List UInt8) :=
  if room then
    match p with
    | [] => [hdr]
    | payload :: rest => (hdr ++ payload) :: rest
  else if p.flatten.length ≠ 0 then hdr :: p else [hdr]

/-! ## Sending -/

/-- The datagram that is handed to IP, or `ERR_VAL` for a broadcast. The block is bound. -/
def udpSendtoIfSrc (pcb : UdpPcb) (room : Bool) (p : List (List UInt8)) (dstIp : UInt32)
    (dstPort : UInt16) (netif : Netif) (srcIp : UInt32) : Option (List (List UInt8)) :=
  if !pcb.option sofBroadcast && ip4AddrIsbroadcast dstIp netif then none
  else
    let totLen := UInt16.ofNat (udpHlen + p.flatten.length)
    let hdr : UdpHdr := ⟨lwipHtons pcb.localPort, lwipHtons dstPort, lwipHtons totLen, 0⟩
    let udpchksum := inetChksumPseudo (addHeader room hdr.bytes p) ipProtoUdp totLen srcIp dstIp
    let udpchksum := if udpchksum = 0x0000 then 0xffff else udpchksum
    some (addHeader room { hdr with chksum := udpchksum }.bytes p)

/-! ## Receiving -/

def udpInputLocalMatch (pcb : UdpPcb) (dest : UInt32) (inp : Netif) (broadcast : Bool) : Bool :=
  if broadcast then
    pcb.option sofBroadcast && (pcb.localIp == 0 || dest == 0xffffffff ||
      ip4AddrNetcmp pcb.localIp dest inp.netmask)
  else pcb.localIp == 0 || ip4AddrIsmulticast dest || pcb.localIp == dest

/-- An IP packet: its addresses and the chain behind its header, the length of each segment counted
in 16 bits. -/
structure IpPacket where
  src : UInt32
  dest : UInt32
  p : List (List UInt8)
  fits : ∀ q ∈ p, q.length < 2 ^ 16
  deriving DecidableEq, Repr

namespace IpPacket

def header (d : IpPacket) : UdpHdr := udpHdr (d.p.headD [])

/-- The block is bound to where the packet goes. -/
def isFor (d : IpPacket) (inp : Netif) (pcb : UdpPcb) : Bool :=
  pcb.localPort == lwipHtons d.header.dest &&
    udpInputLocalMatch pcb d.dest inp (ip4AddrIsbroadcast d.dest inp)

/-- It is connected to where it comes from. -/
def isFrom (d : IpPacket) (pcb : UdpPcb) : Bool :=
  pcb.remotePort == lwipHtons d.header.src && (pcb.remoteIp == 0 || pcb.remoteIp == d.src)

def chksumFails (d : IpPacket) : Bool :=
  d.header.chksum != 0 &&
    inetChksumPseudo d.p ipProtoUdp (UInt16.ofNat d.p.flatten.length) d.src d.dest != 0

/-- The chain without the header. -/
def payload (d : IpPacket) : List (List UInt8) :=
  match d.p with
  | [] => []
  | first :: rest => first.drop udpHlen :: rest

end IpPacket

/-- The loop over `udp_pcbs`: the block that is found and the list afterwards. `before` has been
passed, and `unconPcb` is the first unconnected block there, or the last that is bound to an
address. -/
def findPcb (s : Udp) (inp : Netif) (d : IpPacket) (before : List Nat) (unconPcb : Option Nat) :
    List Nat → Option Nat × List Nat
  | [] => (unconPcb, before)
  | i :: rest =>
    let pcb := s.pcb i
    if d.isFor inp pcb then
      let unconPcb := if !pcb.connected && (unconPcb.isNone || pcb.localIp != 0) then some i
        else unconPcb
      if d.isFrom pcb then (some i, i :: (before ++ rest))
      else findPcb s inp d (before ++ [i]) unconPcb rest
    else findPcb s inp d (before ++ [i]) unconPcb rest

inductive Outcome where
  | dropped
  | unreachable
  /-- The callback of the block gets the data and the port of the sender. -/
  | received (pcb : Nat) (payload : List (List UInt8)) (port : UInt16)
  deriving DecidableEq, Repr

def udpInput (s : Udp) (inp : Netif) (d : IpPacket) : Outcome × Udp :=
  if (d.p.headD []).length < udpHlen then (.dropped, s)
  else
    let (pcb, udpPcbs) := findPcb s inp d [] none s.udpPcbs
    let s := { s with udpPcbs := udpPcbs }
    if pcb.isSome || inp.ipAddr == d.dest then
      if d.chksumFails then (.dropped, s)
      else
        match pcb with
        | some i =>
          if (s.pcb i).recv then (.received i d.payload (lwipHtons d.header.src), s)
          else (.dropped, s)
        | none =>
          if ip4AddrIsbroadcast d.dest inp || ip4AddrIsmulticast d.dest then (.dropped, s)
          else (.unreachable, s)
    else (.dropped, s)

/-! ## Bytes -/

section Bytes

variable {h : UdpHdr} {room : Bool} {hdr rest : List UInt8} {p : List (List UInt8)}

theorem length_bytes (h : UdpHdr) : h.bytes.length = udpHlen := by
  simp [UdpHdr.bytes, udpHlen]

theorem flatten_addHeader (room : Bool) (hdr : List UInt8) (p : List (List UInt8)) :
    (addHeader room hdr p).flatten = hdr ++ p.flatten := by
  unfold addHeader
  split
  · cases p with
    | nil => rfl
    | cons payload rest => exact List.append_assoc _ _ _
  · split
    · rfl
    · next hlen =>
      rw [List.length_eq_zero_iff.mp (not_not.mp hlen)]
      rfl

theorem load16_of_slice {payload : List UInt8} {off : Nat} {n : UInt16}
    (h : slice payload off 2 = littleEndian 2 n.toNat) : load16 payload off = n := by
  have hn := n.toNat_lt
  have hmod : n.toNat % 256 ^ 2 = n.toNat := Nat.mod_eq_of_lt hn
  rw [load16, h, Bytes.ofLittleEndian_littleEndian, hmod, UInt16.ofNat_toNat]

/-- The header is read from where it was written. -/
theorem udpHdr_bytes (h : UdpHdr) (rest : List UInt8) : udpHdr (h.bytes ++ rest) = h := by
  obtain ⟨src, dest, len, chksum⟩ := h
  rw [udpHdr, UdpHdr.mk.injEq]
  refine ⟨load16_of_slice ?_, load16_of_slice ?_, load16_of_slice ?_, load16_of_slice ?_⟩ <;>
    simp [UdpHdr.bytes, slice, littleEndian]

/-- What is read from the first segment is what is read from the whole. -/
theorem udpHdr_headD (h : udpHlen ≤ (p.headD []).length) :
    udpHdr (p.headD []) = udpHdr p.flatten := by
  cases p with
  | nil => rfl
  | cons first tail =>
    have hload : ∀ off, off + 2 ≤ 8 → load16 first off = load16 (first ++ tail.flatten) off := by
      intro off hoff
      have hslice : slice ((first ++ tail.flatten).take first.length) off 2 =
          slice (first ++ tail.flatten) off 2 := Bytes.slice_take (Nat.le_trans hoff h)
      rw [List.take_left] at hslice
      rw [load16, load16, hslice]
    simp only [udpHdr, List.headD_cons, List.flatten_cons]
    rw [hload 0 (by decide), hload 2 (by decide), hload 4 (by decide), hload 6 (by decide)]

theorem flatten_payload {d : IpPacket} (h : udpHlen ≤ (d.p.headD []).length) :
    d.payload.flatten = d.p.flatten.drop udpHlen := by
  obtain ⟨src, dest, p, fits⟩ := d
  cases p with
  | nil => rfl
  | cons first tail => exact (List.drop_append_of_le_length h).symm

end Bytes

end PodFirmware
