import PodFirmware.Ip4Input
import PodFirmware.Sockets

/-!
# PodFirmware.Delivered

A datagram's whole way: what `udp_sendto` hands to IP goes out as one packet or in fragments, and
the callback at the other end gets it.

* `output_delivered`: a packet goes through, whole or in fragments.
* `sendto_delivered`: the data of a datagram arrives as it was sent.
* `stream_delivered`: so does a stream of datagrams, in order.
-/

namespace PodFirmware

section Delivered

variable {pcb : UdpPcb} {room room' : Bool} {p q w : List (List UInt8)} {src dest : UInt32}
  {ipId ipId' : UInt16} {ttl tos proto : UInt8} {memory : UInt16 → FragRoom}

/-- A packet without options. -/
theorem output_spec
    (h : ip4OutputIfOptSrc ipId room q src dest ttl tos proto [] = some (w, ipId')) :
    ∃ hdr : IpHdr, w.flatten = hdr.bytes ++ q.flatten ∧ ipHlen ≤ (w.headD []).length ∧
      hdr.vHl = 0x45 ∧ hdr.offset = 0 ∧ inetChksum hdr.bytes = 0 ∧ hdr.proto = proto ∧
      hdr.len = lwipHtons (UInt16.ofNat (ipHlen + q.flatten.length)) ∧
      hdr.key = (src, dest, lwipHtons ipId) := by
  have hchksum := @inetChksum_sentIpHdr [] (by decide) (by decide) ipId
    (UInt16.ofNat (ipHlen + q.flatten.length)) src dest ttl tos proto
  rw [List.append_nil] at hchksum
  unfold ip4OutputIfOptSrc at h
  split at h
  · cases h
  cases q with
  | nil => cases h
  | cons first rest =>
    obtain ⟨hw, -⟩ := Prod.mk.inj (Option.some.inj h)
    subst hw
    have hnone : alignedOptions [] = [] := rfl
    refine ⟨_, ?_, ?_, rfl, rfl, hchksum, rfl, rfl, rfl⟩
    · rw [hnone, List.append_nil, List.flatten_cons, List.flatten_cons, List.append_assoc]
      rfl
    · rw [List.headD_cons, List.length_append, List.length_append, IpHdr.length_bytes]
      omega

variable {mtu : Mtu} {inp : Inp} {s : Reass} {cs : List Chain} {ws : List (List UInt8)}

/-- A packet goes through, whole or in fragments. -/
theorem output_delivered {hdr : IpHdr} {data : List UInt8} (hfits : ipHlen + data.length < 2 ^ 16)
    (hdata : udpHlen ≤ data.length) (hw : w.flatten = hdr.bytes ++ data)
    (hfirst : ipHlen ≤ (w.headD []).length) (hvHl : hdr.vHl = 0x45) (hoffset : hdr.offset = 0)
    (hlen : hdr.len = lwipHtons (UInt16.ofNat (ipHlen + data.length)))
    (hchksum : inetChksum hdr.bytes = 0) (hsrc : inp.srcInvalid hdr.src hdr.dest = false)
    (hdest : inp.accepts hdr.dest = true) (hlink : linkOutput mtu memory w = (errOk, ws))
    (harrive : List.Forall₂ Arrives ws cs)
    (hroom : mtu.val.toNat < ipHlen + data.length → mtu.Clean data.length ∧ s.Inv ∧
      s.datagrams.length < memNumReassdata ∧ (∀ r ∈ s.datagrams, r.iphdr.key ≠ hdr.key) ∧
      s.pbufcount + (cs.map Chain.clen).sum ≤ ipReassMaxPbufs) :
    ∃ iphdr q, HandedOn inp s cs hdr data iphdr q := by
  have htotal : (UInt16.ofNat w.flatten.length).toNat = ipHlen + data.length := by
    rw [hw, List.length_append, hdr.length_bytes, UInt16.toNat_ofNat']
    exact Nat.mod_eq_of_lt hfits
  unfold linkOutput at hlink
  split at hlink
  · next hlong =>
    rw [gt_iff_lt, UInt16.lt_iff_toNat_lt, htotal] at hlong
    obtain ⟨hclean, hinv, hplace, hnew, hcount⟩ := hroom hlong
    obtain ⟨hall, stop, hspans, hends⟩ := ip4Frag_spec mtu memory hfits hfirst hw hvHl hoffset
    obtain ⟨hok, rfl⟩ := Prod.mk.inj hlink
    rw [hok] at hends
    obtain rfl : stop = data.length := hends.of_ok
    have hgen : ∀ f ∈ (ip4Frag mtu memory w).2, (∃ y, FragmentAt hdr mtu data y f) ∧
        Genuine (sentIn mtu data hdr.proto hfits) f.1 f.2 := by
      intro f hf
      obtain ⟨y, hy, -⟩ := hall f hf
      exact ⟨⟨y, hy⟩, (hy.genuine_iff hfits hvHl).mpr
        ((mtu.clean_iff data.length).mp hclean y hy.aligned hy.lt)⟩
    have hheld : held s hdr.key = [] := held_of_not_mem hnew
    have hstart : Gathered (sentIn mtu data hdr.proto hfits) hdr.key Headed 0 s := by
      refine ⟨hinv, fun r hr hkey => absurd hkey (hnew r hr), ?_, ?_, .inl hplace⟩
      · rw [hheld]
        exact fun q hq => absurd hq List.not_mem_nil
      · exact fun m _ hlt => absurd hlt (Nat.not_lt_zero m)
    obtain ⟨iphdr, q, hon, -⟩ := hstart.run hfits hlong hdata hvHl hsrc hdest hgen hspans
      (Nat.lt_of_lt_of_le (by decide) hdata) (List.forall₂_map_left_iff.mp harrive) hcount
    exact ⟨iphdr, q, hon⟩
  · obtain ⟨-, rfl⟩ := Prod.mk.inj hlink
    cases harrive with
    | @cons _ c _ _ hc hnil =>
      cases hnil
      rw [hw] at hc
      obtain ⟨q, hbytes, -, hq, heq⟩ :=
        ip4Input_of_arrives hc hvHl hlen hfits hchksum hsrc hdest s
      rw [hoffset, if_neg (by decide)] at heq
      have hafter : afterInputs inp s [c] = s := by rw [afterInputs, heq, afterInputs]
      refine ⟨hdr, q, ?_, rfl, rfl, hbytes, by omega, ?_, ?_⟩
      · rw [ip4Inputs, heq]
        rfl
      · rw [hafter]
        exact id
      · rw [hafter]
        exact fun r hr => hr

def packetOf (iphdr : IpHdr) (c : Chain) : IpPacket := ⟨iphdr.src, iphdr.dest, c.segs, c.fits⟩

/-- A datagram as it should be, with its header in the first segment. -/
structure Datagram (d : IpPacket) (src dest : UInt32) (srcPort dstPort : UInt16)
    (data : List UInt8) : Prop where
  src : d.src = src
  dest : d.dest = dest
  srcPort : d.header.src = lwipHtons srcPort
  dstPort : d.header.dest = lwipHtons dstPort
  long : udpHlen ≤ (d.p.headD []).length
  passes : d.chksumFails = false
  data : d.payload.flatten = data

theorem datagram_of_sent {dstPort : UInt16} {netif : Netif}
    (hfits : udpHlen + p.flatten.length < 2 ^ 16)
    (hq : udpSendtoIfSrc pcb room p dest dstPort netif src = some q) {d : IpPacket}
    (hsrc : d.src = src) (hdest : d.dest = dest) (hbytes : d.p.flatten = q.flatten)
    (hlong : udpHlen ≤ (d.p.headD []).length) :
    Datagram d src dest pcb.localPort dstPort p.flatten := by
  obtain ⟨chksum, -, hqflat, hsum⟩ := sent_spec hfits hq
  have hheader := header_of_flatten hlong (hbytes.trans hqflat)
  refine ⟨hsrc, hdest, ?_, ?_, hlong, ?_, ?_⟩
  · rw [hheader]
    rfl
  · rw [hheader]
    rfl
  · rw [← hbytes, ← hsrc, ← hdest] at hsum
    rw [← Bool.not_eq_true, chksumFails_iff]
    exact fun h => h.2 hsum
  · rw [flatten_payload hlong, hbytes, hqflat, ← length_bytes (sentHdr pcb dstPort p chksum),
      List.drop_left]

theorem Datagram.received {d : IpPacket} {srcPort dstPort : UInt16} {data : List UInt8}
    (h : Datagram d src dest srcPort dstPort data) {u : Udp} {netif : Netif} {i : Nat}
    (hi : (findPcb u netif d [] none u.udpPcbs).1 = some i) (hrecv : (u.pcb i).recv = true) :
    (udpInput u netif d).1 = .received i d.payload srcPort := by
  have hport : srcPort = lwipHtons d.header.src := by
    rw [h.srcPort, lwipHtons_lwipHtons]
  exact udpInput_received_iff.mpr ⟨h.long, hi, h.passes, hrecv, rfl, hport⟩

theorem datagram_delivered {dstPort : UInt16} {netif : Netif}
    (hfits : ipHlen + (udpHlen + p.flatten.length) < 2 ^ 16)
    (hq : udpSendtoIfSrc pcb room p dest dstPort netif src = some q)
    (hw : ip4OutputIfOptSrc ipId room' q src dest ttl tos ipProtoUdp [] = some (w, ipId'))
    (hlink : linkOutput mtu memory w = (errOk, ws)) (harrive : List.Forall₂ Arrives ws cs)
    (hroom : mtu.val.toNat < ipHlen + (udpHlen + p.flatten.length) →
      mtu.Clean (udpHlen + p.flatten.length) ∧ s.Inv ∧ s.datagrams.length < memNumReassdata ∧
      (∀ r ∈ s.datagrams, r.iphdr.key ≠ (src, dest, lwipHtons ipId)) ∧
      s.pbufcount + (cs.map Chain.clen).sum ≤ ipReassMaxPbufs)
    (hsrc : inp.srcInvalid src dest = false) (hdest : inp.accepts dest = true) :
    ∃ iphdr c, Datagram (packetOf iphdr c) src dest pcb.localPort dstPort p.flatten ∧
      ip4Inputs inp s cs = List.replicate (cs.length - 1) .fragment ++ [.udpInput iphdr c] ∧
      (s.Inv → (afterInputs inp s cs).Inv) ∧
      ∀ r ∈ (afterInputs inp s cs).datagrams, r ∈ s.datagrams := by
  have hfits' : udpHlen + p.flatten.length < 2 ^ 16 := by omega
  obtain ⟨chksum, -, hqflat, -⟩ := sent_spec hfits' hq
  have hqlen : q.flatten.length = udpHlen + p.flatten.length := by
    rw [hqflat, List.length_append, length_bytes]
  have hends : ∀ hdr : IpHdr, hdr.key = (src, dest, lwipHtons ipId) →
      hdr.src = src ∧ hdr.dest = dest := by
    intro hdr hkey
    exact ⟨congrArg (·.1) hkey, congrArg (·.2.1) hkey⟩
  obtain ⟨hdr, hwflat, hfirst, hvHl, hoffset, hchksum, hproto, hlen, hkey⟩ := output_spec hw
  obtain ⟨hsrc', hdest'⟩ := hends hdr hkey
  rw [← hqlen, ← hkey] at hroom
  rw [← hqlen] at hfits
  rw [← hsrc', ← hdest'] at hsrc
  rw [← hdest'] at hdest
  obtain ⟨iphdr, c, hon⟩ := output_delivered hfits (by rw [hqlen]; exact Nat.le_add_right _ _)
    hwflat hfirst hvHl hoffset hlen hchksum hsrc hdest hlink harrive hroom
  obtain ⟨hsrc'', hdest''⟩ := hends iphdr (hon.key.trans hkey)
  have hupper : toUpper inp iphdr c = .udpInput iphdr c := by
    rw [toUpper, if_pos (hon.proto.trans hproto)]
  refine ⟨iphdr, c, ?_, hupper ▸ hon.outcomes, hon.inv, hon.kept⟩
  exact datagram_of_sent hfits' hq hsrc'' hdest'' hon.bytes hon.first

/-- What `udp_sendto` is given arrives at the callback, through the headers and in fragments where
the link asks for them: the packets may come in other segments and with padding, but in order, and
fragments have to find memory with the sender, to be marked right and to find room with the
receiver. -/
theorem sendto_delivered {dstPort : UInt16} {netif : Netif}
    (hfits : ipHlen + (udpHlen + p.flatten.length) < 2 ^ 16)
    (hq : udpSendtoIfSrc pcb room p dest dstPort netif src = some q)
    (hw : ip4OutputIfOptSrc ipId room' q src dest ttl tos ipProtoUdp [] = some (w, ipId'))
    (hlink : linkOutput mtu memory w = (errOk, ws)) (harrive : List.Forall₂ Arrives ws cs)
    (hroom : mtu.val.toNat < ipHlen + (udpHlen + p.flatten.length) →
      mtu.Clean (udpHlen + p.flatten.length) ∧ s.Inv ∧ s.datagrams.length < memNumReassdata ∧
      (∀ r ∈ s.datagrams, r.iphdr.key ≠ (src, dest, lwipHtons ipId)) ∧
      s.pbufcount + (cs.map Chain.clen).sum ≤ ipReassMaxPbufs)
    (hsrc : inp.srcInvalid src dest = false) (hdest : inp.accepts dest = true) {u : Udp} {i : Nat}
    (hi : ∀ d : IpPacket, d.src = src → d.dest = dest → d.header.src = lwipHtons pcb.localPort →
      d.header.dest = lwipHtons dstPort → (findPcb u inp.toNetif d [] none u.udpPcbs).1 = some i)
    (hrecv : (u.pcb i).recv = true) :
    ∃ iphdr c payload, ip4Inputs inp s cs =
        List.replicate (cs.length - 1) .fragment ++ [.udpInput iphdr c] ∧
      (udpInput u inp.toNetif (packetOf iphdr c)).1 = .received i payload pcb.localPort ∧
      payload.flatten = p.flatten := by
  obtain ⟨iphdr, c, hd, hrun, -⟩ :=
    datagram_delivered hfits hq hw hlink harrive hroom hsrc hdest
  have hfound := hi _ hd.src hd.dest hd.srcPort hd.dstPort
  exact ⟨iphdr, c, _, hrun, hd.received hfound hrecv, hd.data⟩

/-- Twelve bytes in three fragments, the last with padding. -/
def loopFragments : List (List UInt8) :=
  [[69, 0, 0, 28, 0, 1, 32, 0, 255, 17, 26, 5, 192, 168, 0, 112, 192, 168, 0, 10,
      11, 184, 11, 184, 0, 20, 61, 102],
    [69, 0, 0, 28, 0, 1, 32, 1, 255, 17, 26, 4, 192, 168, 0, 112, 192, 168, 0, 10,
      98, 97, 100, 103, 101, 114, 108, 111],
    [69, 0, 0, 24, 0, 1, 0, 2, 255, 17, 58, 7, 192, 168, 0, 112, 192, 168, 0, 10, 111, 112, 33, 10]]

def loopChains : List Chain :=
  [⟨[loopFragments.getD 0 []], by decide⟩, ⟨[loopFragments.getD 1 []], by decide⟩,
    ⟨[loopFragments.getD 2 [], [0, 0]], by decide⟩]

def dashboardInp : Inp :=
  { ipAddr := ip4Addr 192 168 0 10, netmask := ip4Addr 255 255 255 0, broadcast := true, up := true,
    igmp := false, groups := [] }

def listening : Udp := ⟨fun _ => { localPort := 3000, recv := true }, [], [0], 0xc000⟩

/-- For such datagrams the block is found, in whatever order the blocks are. -/
structure Listens (u : Udp) (netif : Netif) (i : Nat) (src dest : UInt32)
    (srcPort dstPort : UInt16) : Prop where
  recv : (u.pcb i).recv = true
  found : ∀ pcbs, pcbs.Perm u.udpPcbs → ∀ d : IpPacket, d.src = src → d.dest = dest →
    d.header.src = lwipHtons srcPort → d.header.dest = lwipHtons dstPort →
      (findPcb { u with udpPcbs := pcbs } netif d [] none pcbs).1 = some i

theorem listens_listening : Listens listening dashboardInp.toNetif 0 (ip4Addr 192 168 0 112)
    (ip4Addr 192 168 0 10) 3000 3000 := by
  refine ⟨rfl, fun pcbs hperm d hsrc hdest hsrcPort hdstPort => ?_⟩
  have hfor : d.isFor dashboardInp.toNetif (listening.pcb 0) = true := by
    rw [IpPacket.isFor, hdstPort, hdest]
    decide
  have hfrom : d.isFrom (listening.pcb 0) = false := by
    rw [IpPacket.isFrom, hsrcPort, hsrc]
    decide
  obtain rfl : pcbs = [0] := List.perm_singleton.mp hperm
  have hpcb : ({ listening with udpPcbs := [0] } : Udp) = listening := rfl
  rw [hpcb, findPcb, hfor, hfrom]
  rfl

theorem loop_sent : udpSendtoIfSrc { localPort := 3000 } true
    [[98, 97, 100, 103, 101, 114, 108, 111], [111, 112, 33, 10]] (ip4Addr 192 168 0 10) 3000
    ⟨ip4Addr 192 168 0 112, ip4Addr 255 255 255 0, true⟩ (ip4Addr 192 168 0 112) =
      some [[11, 184, 11, 184, 0, 20, 61, 102, 98, 97, 100, 103, 101, 114, 108, 111],
        [111, 112, 33, 10]] := by
  decide +kernel

def loopPacket : List (List UInt8) :=
  [[69, 0, 0, 40, 0, 1, 0, 0, 255, 17, 57, 249, 192, 168, 0, 112, 192, 168, 0, 10,
      11, 184, 11, 184, 0, 20, 61, 102, 98, 97, 100, 103, 101, 114, 108, 111],
    [111, 112, 33, 10]]

theorem loop_output : ip4OutputIfOptSrc 1 true [[11, 184, 11, 184, 0, 20, 61, 102, 98, 97, 100, 103,
    101, 114, 108, 111], [111, 112, 33, 10]] (ip4Addr 192 168 0 112) (ip4Addr 192 168 0 10) 255 0
    ipProtoUdp [] = some (loopPacket, 2) := by
  decide +kernel

theorem loop_link : linkOutput narrow idleRoom loopPacket = (errOk, loopFragments) := by
  decide +kernel

theorem loop_arrive : List.Forall₂ Arrives loopFragments loopChains := by
  refine .cons ?_ (.cons ?_ (.cons ?_ .nil))
  · exact ⟨⟨[], by decide⟩, by decide, by decide⟩
  · exact ⟨⟨[], by decide⟩, by decide, by decide⟩
  · exact ⟨⟨[0, 0], by decide⟩, by decide, by decide⟩

theorem clean_twenty : narrow.Clean 20 := by
  rw [Mtu.Clean]
  decide

theorem loop_delivered : ∃ iphdr c payload,
    ip4Inputs dashboardInp {} loopChains =
      List.replicate (loopChains.length - 1) .fragment ++ [.udpInput iphdr c] ∧
    (udpInput listening dashboardInp.toNetif (packetOf iphdr c)).1 =
      .received 0 payload 3000 ∧
    payload.flatten = [98, 97, 100, 103, 101, 114, 108, 111, 111, 112, 33, 10] := by
  refine sendto_delivered (by decide) loop_sent loop_output loop_link loop_arrive (fun _ => ?_)
    (by decide) (by decide) (listens_listening.found [0] (.refl _)) rfl
  exact ⟨clean_twenty, Reass.inv_init, by decide, fun r hr => absurd hr List.not_mem_nil, by decide⟩

/-! ### A stream of datagrams -/

/-- What comes of an outcome: the block whose callback is called, the data and the port. -/
def callback (netif : Netif) (u : Udp) : Upper → List (Nat × List UInt8 × UInt16) × Udp
  | .udpInput iphdr c =>
    let out := udpInput u netif (packetOf iphdr c)
    match out.1 with
    | .received i payload port => ([(i, payload.flatten, port)], out.2)
    | _ => ([], out.2)
  | _ => ([], u)

def callbacks (netif : Netif) : Udp → List Upper → List (Nat × List UInt8 × UInt16)
  | _, [] => []
  | u, upper :: uppers =>
    (callback netif u upper).1 ++ callbacks netif (callback netif u upper).2 uppers

theorem callbacks_fragments (netif : Netif) (u : Udp) (n : Nat) (uppers : List Upper) :
    callbacks netif u (List.replicate n .fragment ++ uppers) = callbacks netif u uppers := by
  induction n with
  | zero => rfl
  | succ n ih =>
    rw [List.replicate_succ, List.cons_append, callbacks]
    exact ih

theorem Listens.callback {u : Udp} {netif : Netif} {i : Nat} {srcPort dstPort : UInt16}
    (h : Listens u netif i src dest srcPort dstPort) {iphdr : IpHdr} {c : Chain}
    {data : List UInt8} (hd : Datagram (packetOf iphdr c) src dest srcPort dstPort data) :
    ∃ u', callback netif u (.udpInput iphdr c) = ([(i, data, srcPort)], u') ∧
      Listens u' netif i src dest srcPort dstPort := by
  have hfound := h.found u.udpPcbs (.refl _) _ hd.src hd.dest hd.srcPort hd.dstPort
  have hreceived := hd.received hfound h.recv
  obtain ⟨pcbs, hperm, hsnd⟩ := udpInput_snd u netif (packetOf iphdr c)
  refine ⟨{ u with udpPcbs := pcbs }, ?_, h.recv, fun pcbs' hperm' => ?_⟩
  · rw [PodFirmware.callback, hreceived, hsnd]
    dsimp only
    rw [hd.data]
  · exact h.found pcbs' (hperm'.trans hperm)

/-- `data` is sent, with memory for its fragments, and its packets arrive. A packet that is too long
for the link is cut cleanly, and the receiver has room for its fragments. -/
def Travels (pcb : UdpPcb) (netif : Netif) (src dest : UInt32) (dstPort : UInt16) (mtu : Mtu)
    (data : List (List UInt8)) (cs : List Chain) : Prop :=
  ∃ room room' memory q w ws ipId ipId' ttl tos,
    udpSendtoIfSrc pcb room data dest dstPort netif src = some q ∧
    ip4OutputIfOptSrc ipId room' q src dest ttl tos ipProtoUdp [] = some (w, ipId') ∧
    linkOutput mtu memory w = (errOk, ws) ∧ List.Forall₂ Arrives ws cs ∧
    ipHlen + (udpHlen + data.flatten.length) < 2 ^ 16 ∧
    (mtu.val.toNat < ipHlen + (udpHlen + data.flatten.length) →
      mtu.Clean (udpHlen + data.flatten.length) ∧ (cs.map Chain.clen).sum ≤ ipReassMaxPbufs)

/-- Of a stream of datagrams none is lost, repeated or changed, and the callback gets them in the
order in which they were sent. -/
theorem stream_delivered {netif : Netif} {dstPort : UInt16} {ps : List (List (List UInt8))}
    {css : List (List Chain)} {u : Udp} {i : Nat}
    (htravel : List.Forall₂ (Travels pcb netif src dest dstPort mtu) ps css)
    (hsrc : inp.srcInvalid src dest = false) (hdest : inp.accepts dest = true)
    (hlisten : Listens u inp.toNetif i src dest pcb.localPort dstPort) :
    callbacks inp.toNetif u (ip4Inputs inp {} css.flatten) =
      ps.map fun p => (i, p.flatten, pcb.localPort) := by
  induction htravel generalizing u with
  | nil => rfl
  | @cons p cs ps css hp _ ih =>
    obtain ⟨room, room', memory, q, w, ws, ipId, ipId', ttl, tos, hq, hw, hlink, harrive, hfits,
      hroom⟩ := hp
    have hnone : ∀ r, r ∉ ({} : Reass).datagrams := fun r => List.not_mem_nil
    obtain ⟨iphdr, c, hd, hrun, hinv, hkept⟩ := datagram_delivered hfits hq hw hlink harrive
      (fun hlong => ⟨(hroom hlong).1, Reass.inv_init, by decide, fun r hr => absurd hr (hnone r),
        (Nat.zero_add _).trans_le (hroom hlong).2⟩) hsrc hdest
    -- the receiver is then as it was before
    have hafter : afterInputs inp {} cs = {} := (hinv Reass.inv_init).eq_init
      (List.eq_nil_iff_forall_not_mem.mpr fun r hr => hnone r (hkept r hr))
    obtain ⟨u', hcallback, hlisten'⟩ := hlisten.callback hd
    rw [List.flatten_cons, ip4Inputs_append, hafter, hrun, List.append_assoc, callbacks_fragments,
      List.singleton_append, callbacks, hcallback, ih hlisten']
    rfl

/-- A packet that is not cut, between two that are. -/
def shortPacket : List UInt8 :=
  [69, 0, 0, 29, 0, 2, 0, 0, 255, 17, 58, 3, 192, 168, 0, 112, 192, 168, 0, 10,
    11, 184, 11, 184, 0, 9, 69, 161, 33]

theorem short_travels : Travels { localPort := 3000 }
    ⟨ip4Addr 192 168 0 112, ip4Addr 255 255 255 0, true⟩ (ip4Addr 192 168 0 112)
    (ip4Addr 192 168 0 10) 3000 narrow [[33]] [⟨[shortPacket, [0]], by decide⟩] := by
  refine ⟨true, true, idleRoom, [[11, 184, 11, 184, 0, 9, 69, 161, 33]], [shortPacket],
    [shortPacket], 2, 3, 255, 0, by decide +kernel, by decide +kernel, by decide +kernel,
    .cons ?_ .nil, by decide, fun hlong => absurd hlong (by decide)⟩
  exact ⟨⟨[0], by decide⟩, by decide, by decide⟩

theorem loop_travels : Travels { localPort := 3000 }
    ⟨ip4Addr 192 168 0 112, ip4Addr 255 255 255 0, true⟩ (ip4Addr 192 168 0 112)
    (ip4Addr 192 168 0 10) 3000 narrow
    [[98, 97, 100, 103, 101, 114, 108, 111], [111, 112, 33, 10]] loopChains :=
  ⟨true, true, idleRoom, _, loopPacket, loopFragments, 1, 2, 255, 0, loop_sent, loop_output,
    loop_link, loop_arrive, by decide, fun _ => ⟨clean_twenty, by decide⟩⟩

theorem three_delivered : callbacks dashboardInp.toNetif listening (ip4Inputs dashboardInp {}
    [loopChains, [⟨[shortPacket, [0]], by decide⟩], loopChains].flatten) =
      [(0, [98, 97, 100, 103, 101, 114, 108, 111, 111, 112, 33, 10], 3000), (0, [33], 3000),
        (0, [98, 97, 100, 103, 101, 114, 108, 111, 111, 112, 33, 10], 3000)] :=
  stream_delivered (.cons loop_travels (.cons short_travels (.cons loop_travels .nil))) (by decide)
    (by decide) listens_listening

end Delivered

end PodFirmware
