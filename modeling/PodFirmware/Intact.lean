import PodFirmware.Udp

/-!
# PodFirmware.Intact

The checksum of a datagram between `udp_sendto_if_src` and `udp_input`. The chain that arrives is
not the one that was sent: only its bytes are the same, and the driver has put them into segments of
its own.

* `sent_received`: what is sent passes the check at the other end, with its ports and its data.
* `damaged_dropped`: a datagram with a damaged word is dropped.
-/

namespace PodFirmware

open Bytes (littleEndian ofLittleEndian)
open OnesComplement (rep)

theorem length_lt_of_flatten {p : List (List UInt8)} {n : Nat} (h : p.flatten.length < n) :
    ∀ q ∈ p, q.length < n := by
  intro q hq
  exact Nat.lt_of_le_of_lt (List.sublist_flatten_of_mem hq).length_le h

/-- Zero is stored for the sum with all bits set. -/
theorem complement_eq_zero_iff {n : Nat} (h : n ≤ 65535) :
    ~~~UInt16.ofNat n = 0 ↔ n = 65535 := by
  have hn : (UInt16.ofNat n).toNat = n := by
    rw [UInt16.toNat_ofNat']
    omega
  have hnot := UInt16.toNat_not (UInt16.ofNat n)
  rw [← UInt16.toNat_inj, hnot, hn]
  have hsize : UInt16.size = 65536 := rfl
  have hzero : UInt16.toNat 0 = 0 := rfl
  omega

section Check

variable {d : IpPacket}

/-- The bytes that the checksum is about. -/
def IpPacket.covered (d : IpPacket) : List UInt8 :=
  pseudoHeader ipProtoUdp (UInt16.ofNat d.p.flatten.length) d.src d.dest ++ d.p.flatten

theorem chksumFails_iff (d : IpPacket) : d.chksumFails = true ↔
    d.header.chksum ≠ 0 ∧ OnesComplement.sum d.covered ≠ 65535 := by
  have hle : OnesComplement.sum d.covered ≤ 65535 := OnesComplement.rep_le (by decide)
  rw [IpPacket.chksumFails, Bool.and_eq_true, bne_iff_ne, bne_iff_ne,
    inetChksumPseudo_eq d.fits]
  exact and_congr_right fun _ => not_congr (complement_eq_zero_iff hle)

end Check

/-- When a callback gets something. -/
theorem udpInput_received_iff {s : Udp} {inp : Netif} {d : IpPacket} {i : Nat}
    {payload : List (List UInt8)} {port : UInt16} :
    (udpInput s inp d).1 = .received i payload port ↔
      udpHlen ≤ (d.p.headD []).length ∧ (findPcb s inp d [] none s.udpPcbs).1 = some i ∧
        d.chksumFails = false ∧ (s.pcb i).recv = true ∧ payload = d.payload ∧
          port = lwipHtons d.header.src := by
  unfold udpInput
  obtain ⟨found, udpPcbs⟩ := findPcb s inp d [] none s.udpPcbs
  dsimp only
  split
  · next hshort =>
    exact iff_of_false nofun fun h => absurd h.1 (Nat.not_le.mpr hshort)
  · next hlong =>
    have hle : udpHlen ≤ (d.p.headD []).length := Nat.not_lt.mp hlong
    cases hfails : d.chksumFails with
    | true =>
      refine iff_of_false ?_ fun h => Bool.noConfusion h.2.2.1
      split <;> exact nofun
    | false =>
      cases found with
      | none =>
        refine iff_of_false ?_ fun h => absurd h.2.1 nofun
        split
        · rw [if_neg Bool.false_ne_true]
          dsimp only
          split <;> exact nofun
        · exact nofun
      | some j =>
        rw [Option.isSome_some, Bool.true_or, if_pos rfl, if_neg Bool.false_ne_true]
        dsimp only
        cases hrecv : (s.pcb j).recv with
        | true =>
          rw [if_pos rfl, Outcome.received.injEq, Option.some.injEq]
          constructor
          · rintro ⟨rfl, rfl, rfl⟩
            exact ⟨hle, rfl, rfl, hrecv, rfl, rfl⟩
          · rintro ⟨-, rfl, -, -, rfl, rfl⟩
            exact ⟨rfl, rfl, rfl⟩
        | false =>
          rw [if_neg Bool.false_ne_true]
          refine iff_of_false nofun ?_
          rintro ⟨-, hji, -, h, -⟩
          rw [← Option.some.inj hji, hrecv] at h
          exact Bool.false_ne_true h

section Sent

variable {pcb : UdpPcb} {room : Bool} {p q : List (List UInt8)} {dstIp srcIp : UInt32}
  {dstPort : UInt16} {netif : Netif}

/-- The header that is sent, with a checksum. -/
def sentHdr (pcb : UdpPcb) (dstPort : UInt16) (p : List (List UInt8)) (chksum : UInt16) : UdpHdr :=
  ⟨lwipHtons pcb.localPort, lwipHtons dstPort,
    lwipHtons (UInt16.ofNat (udpHlen + p.flatten.length)), chksum⟩

def sentChksum (pcb : UdpPcb) (room : Bool) (p : List (List UInt8)) (dstIp : UInt32)
    (dstPort : UInt16) (srcIp : UInt32) : UInt16 :=
  let chksum := inetChksumPseudo (addHeader room (sentHdr pcb dstPort p 0).bytes p) ipProtoUdp
    (UInt16.ofNat (udpHlen + p.flatten.length)) srcIp dstIp
  if chksum = 0x0000 then 0xffff else chksum

theorem eq_addHeader_of_sent (hq : udpSendtoIfSrc pcb room p dstIp dstPort netif srcIp = some q) :
    q = addHeader room
      (sentHdr pcb dstPort p (sentChksum pcb room p dstIp dstPort srcIp)).bytes p := by
  unfold udpSendtoIfSrc at hq
  split at hq
  · cases hq
  · exact (Option.some.inj hq).symm

/-- The complement of a sum, with the other zero instead of zero, makes the sum all ones. -/
theorem stored_spec {xs ys : List UInt8} {chksum : UInt16} (heven : xs.length % 2 = 0)
    (h : chksum = ~~~UInt16.ofNat (OnesComplement.sum (xs ++ littleEndian 2 0 ++ ys))) :
    let c := if chksum = 0x0000 then 0xffff else chksum
    c ≠ 0 ∧ OnesComplement.sum (xs ++ littleEndian 2 c.toNat ++ ys) = 65535 := by
  have hle : OnesComplement.sum (xs ++ littleEndian 2 0 ++ ys) ≤ 65535 :=
    OnesComplement.rep_le (by decide)
  dsimp only
  split
  · next hzero =>
    have hones := (complement_eq_zero_iff hle).mp (h ▸ hzero)
    exact ⟨by decide, OnesComplement.sum_put_top heven hones⟩
  · next hne =>
    have hval : chksum.toNat = 65535 - OnesComplement.sum (xs ++ littleEndian 2 0 ++ ys) := by
      have hsize : UInt16.size = 65536 := rfl
      rw [h, UInt16.toNat_not, UInt16.toNat_ofNat']
      omega
    refine ⟨hne, ?_⟩
    rw [hval]
    exact OnesComplement.sum_put_complement heven

/-- The checksum that is sent makes the sum of everything all ones, and is never the one that stands
for none. -/
theorem sent_spec (hfits : udpHlen + p.flatten.length < 2 ^ 16)
    (hq : udpSendtoIfSrc pcb room p dstIp dstPort netif srcIp = some q) :
    ∃ c, c ≠ 0 ∧ q.flatten = (sentHdr pcb dstPort p c).bytes ++ p.flatten ∧
      OnesComplement.sum (pseudoHeader ipProtoUdp (UInt16.ofNat q.flatten.length) srcIp dstIp ++
        q.flatten) = 65535 := by
  have hbytes : ∀ c, (addHeader room (sentHdr pcb dstPort p c).bytes p).flatten =
      (sentHdr pcb dstPort p c).bytes ++ p.flatten := fun c => flatten_addHeader room _ p
  have hlen : ∀ c, (addHeader room (sentHdr pcb dstPort p c).bytes p).flatten.length =
      udpHlen + p.flatten.length := by
    intro c
    rw [hbytes, List.length_append, length_bytes]
  -- the checksum stands at byte 6 of the header, the pseudo header has twelve
  obtain ⟨xs, heven, hxs⟩ : ∃ xs, xs.length % 2 = 0 ∧ ∀ c,
      pseudoHeader ipProtoUdp (UInt16.ofNat (udpHlen + p.flatten.length)) srcIp dstIp ++
        ((sentHdr pcb dstPort p c).bytes ++ p.flatten) =
          xs ++ littleEndian 2 c.toNat ++ p.flatten := by
    refine ⟨pseudoHeader ipProtoUdp (UInt16.ofNat (udpHlen + p.flatten.length)) srcIp dstIp ++
      (littleEndian 2 (lwipHtons pcb.localPort).toNat ++ littleEndian 2 (lwipHtons dstPort).toNat ++
        littleEndian 2 (lwipHtons (UInt16.ofNat (udpHlen + p.flatten.length))).toNat), ?_, ?_⟩
    · simp [pseudoHeader]
    · intro c
      simp [sentHdr, UdpHdr.bytes]
  have hchk := inetChksumPseudo_eq (length_lt_of_flatten (hlen 0 ▸ hfits)) ipProtoUdp
    (UInt16.ofNat (udpHlen + p.flatten.length)) srcIp dstIp
  rw [hbytes, hxs 0] at hchk
  obtain ⟨hne, hsum⟩ := stored_spec heven hchk
  refine ⟨sentChksum pcb room p dstIp dstPort srcIp, hne, ?_, ?_⟩
  · rw [eq_addHeader_of_sent hq, hbytes]
  · rw [eq_addHeader_of_sent hq, hlen, hbytes, hxs]
    exact hsum

theorem header_of_flatten {d : IpPacket} {h : UdpHdr} {rest : List UInt8}
    (hfirst : udpHlen ≤ (d.p.headD []).length) (hbytes : d.p.flatten = h.bytes ++ rest) :
    d.header = h := by
  rw [IpPacket.header, udpHdr_headD hfirst, hbytes, udpHdr_bytes]

/-- What is sent arrives: however the bytes lie in the segments of the chain at the other end, the
block that the datagram is for gets the data and the port of the sender. -/
theorem sent_received (hfits : udpHlen + p.flatten.length < 2 ^ 16)
    (hq : udpSendtoIfSrc pcb room p dstIp dstPort netif srcIp = some q) {d : IpPacket}
    (hsrc : d.src = srcIp) (hdest : d.dest = dstIp) (hbytes : d.p.flatten = q.flatten)
    (hfirst : udpHlen ≤ (d.p.headD []).length) {s : Udp} {inp : Netif} {i : Nat}
    (hi : (findPcb s inp d [] none s.udpPcbs).1 = some i) (hrecv : (s.pcb i).recv = true) :
    ∃ payload, (udpInput s inp d).1 = .received i payload pcb.localPort ∧
      payload.flatten = p.flatten := by
  obtain ⟨c, -, hflat, hsum⟩ := sent_spec hfits hq
  have hheader := header_of_flatten hfirst (hbytes.trans hflat)
  have hpasses : d.chksumFails = false := by
    rw [← hbytes, ← hsrc, ← hdest] at hsum
    rw [← Bool.not_eq_true, chksumFails_iff]
    exact fun h => h.2 hsum
  have hport : lwipHtons d.header.src = pcb.localPort := by
    rw [hheader]
    exact lwipHtons_lwipHtons _
  refine ⟨d.payload, ?_, ?_⟩
  · exact udpInput_received_iff.mpr ⟨hfirst, hi, hpasses, hrecv, rfl, hport.symm⟩
  · rw [flatten_payload hfirst, hbytes, hflat, ← length_bytes (sentHdr pcb dstPort p c),
      List.drop_left]

/-- Four bytes in two segments, and the same in two others. -/
theorem help_received :
    ∃ payload, (udpInput ⟨fun _ => { localPort := 3000, recv := true }, [], [0], 0xc000⟩
      ⟨ip4Addr 192 168 0 10, ip4Addr 255 255 255 0, true⟩
      ⟨ip4Addr 192 168 0 112, ip4Addr 192 168 0 10,
        [[11, 184, 11, 184, 0, 12, 145, 197, 104], [101, 108, 112]], by decide⟩).1 =
        .received 0 payload 3000 ∧ payload.flatten = [104, 101, 108, 112] := by
  have hq : udpSendtoIfSrc { localPort := 3000 } true [[104, 101, 108], [112]]
      (ip4Addr 192 168 0 10) 3000 ⟨ip4Addr 192 168 0 112, ip4Addr 255 255 255 0, true⟩
      (ip4Addr 192 168 0 112) =
        some [[11, 184, 11, 184, 0, 12, 145, 197, 104, 101, 108], [112]] := by decide +kernel
  exact sent_received (by decide) hq rfl rfl rfl (by decide) (by decide +kernel) rfl

theorem udpInput_of_fails {d : IpPacket} (h : d.chksumFails = true) (s : Udp) (inp : Netif) :
    (udpInput s inp d).1 = .dropped := by
  rw [udpInput]
  split
  · rfl
  · dsimp only
    split <;> rfl

/-- A word elsewhere leaves a field of the header as it is. -/
theorem load16_of_disjoint {xs ys : List UInt8} {n n' off : Nat}
    (h : off + 2 ≤ xs.length ∨ xs.length + 2 ≤ off) :
    load16 (xs ++ littleEndian 2 n' ++ ys) off = load16 (xs ++ littleEndian 2 n ++ ys) off := by
  have hsplice : Bytes.splice (xs ++ littleEndian 2 n ++ ys) xs.length (littleEndian 2 n') =
      xs ++ littleEndian 2 n' ++ ys := by
    have hdrop : (xs ++ littleEndian 2 n ++ ys).drop (xs.length + 2) = ys :=
      List.drop_left' (by rw [List.length_append, Bytes.length_littleEndian])
    have htake : (xs ++ littleEndian 2 n ++ ys).take xs.length = xs := by
      rw [List.append_assoc, List.take_left]
    rw [Bytes.splice, Bytes.length_littleEndian, hdrop, htake, List.append_assoc]
  have hslice : Bytes.slice (Bytes.splice (xs ++ littleEndian 2 n ++ ys) xs.length
      (littleEndian 2 n')) off 2 = Bytes.slice (xs ++ littleEndian 2 n ++ ys) off 2 :=
    Bytes.slice_splice_of_disjoint (by simp) (by simpa using h)
  rw [load16, load16, ← hslice, hsplice]

/-- A datagram of which one word has been damaged on the way is dropped, whatever is bound at the
other end. Only three changes are not noticed: zero for all ones, all ones for zero, and a checksum
that becomes zero. -/
theorem damaged_dropped (hfits : udpHlen + p.flatten.length < 2 ^ 16)
    (hq : udpSendtoIfSrc pcb room p dstIp dstPort netif srcIp = some q) {d : IpPacket}
    (hsrc : d.src = srcIp) (hdest : d.dest = dstIp) {xs ys : List UInt8} {c c' : UInt16}
    (hxs : xs.length % 2 = 0) (hsent : q.flatten = xs ++ littleEndian 2 c.toNat ++ ys)
    (hbytes : d.p.flatten = xs ++ littleEndian 2 c'.toNat ++ ys) (hne : c ≠ c')
    (hzero : ¬(c = 0 ∧ c' = 0xffff) ∧ ¬(c = 0xffff ∧ c' = 0))
    (hnone : ¬(xs.length = 6 ∧ c' = 0)) (s : Udp) (inp : Netif) :
    (udpInput s inp d).1 = .dropped := by
  by_cases hfirst : (d.p.headD []).length < udpHlen
  · rw [udpInput, if_pos hfirst]
  have hfirst' : udpHlen ≤ (d.p.headD []).length := Nat.not_lt.mp hfirst
  obtain ⟨c₀, hc₀, hflat, hsum⟩ := sent_spec hfits hq
  apply udpInput_of_fails
  refine (chksumFails_iff d).mpr ⟨?_, fun hones => ?_⟩
  · have hd : d.header.chksum = load16 (xs ++ littleEndian 2 c'.toNat ++ ys) 6 := by
      rw [IpPacket.header, udpHdr_headD hfirst', hbytes, udpHdr]
    rw [hd]
    by_cases hsix : xs.length = 6
    · have hslice : Bytes.slice (xs ++ littleEndian 2 c'.toNat ++ ys) 6 2 =
          littleEndian 2 c'.toNat := by
        rw [Bytes.slice, ← hsix, List.append_assoc, List.drop_left]
        exact List.take_left' (Bytes.length_littleEndian 2 c'.toNat)
      rw [load16_of_slice hslice]
      exact fun h => hnone ⟨hsix, h⟩
    · have hq6 : load16 (xs ++ littleEndian 2 c.toNat ++ ys) 6 = c₀ := by
        have hhdr := udpHdr_bytes (sentHdr pcb dstPort p c₀) p.flatten
        rw [← hflat, hsent, udpHdr, UdpHdr.mk.injEq] at hhdr
        exact hhdr.2.2.2
      rw [load16_of_disjoint (n := c.toNat) (by omega), hq6]
      exact hc₀
  · have hlen : d.p.flatten.length = q.flatten.length := by
      rw [hbytes, hsent]
      simp
    rw [IpPacket.covered, hlen, hsrc, hdest, hbytes] at hones
    rw [hsent] at hones hsum
    have heven : ∀ len, (pseudoHeader ipProtoUdp len srcIp dstIp ++ xs).length % 2 = 0 := by
      intro len
      simp [pseudoHeader]
      omega
    have hassoc : ∀ a b c e : List UInt8, a ++ (b ++ c ++ e) = a ++ b ++ c ++ e := by
      intro a b c e
      simp only [List.append_assoc]
    rw [hassoc] at hones hsum
    have hsame := OnesComplement.put_eq_of_sum (heven _) (UInt16.toNat_lt c) (UInt16.toNat_lt c')
      (hsum.trans hones.symm)
    rcases hsame with h | ⟨h, h'⟩ | ⟨h, h'⟩
    · exact hne (UInt16.toNat_inj.mp h)
    · exact hzero.1 ⟨UInt16.toNat_inj.mp h, UInt16.toNat_inj.mp h'⟩
    · exact hzero.2 ⟨UInt16.toNat_inj.mp h, UInt16.toNat_inj.mp h'⟩

/-- A letter is changed. -/
def helq : IpPacket :=
  ⟨ip4Addr 192 168 0 112, ip4Addr 192 168 0 10,
    [[11, 184, 11, 184, 0, 12, 145, 197, 104], [101, 108, 113]], by decide⟩

theorem helq_dropped :
    (udpInput ⟨fun _ => { localPort := 3000, recv := true }, [], [0], 0xc000⟩
      ⟨ip4Addr 192 168 0 10, ip4Addr 255 255 255 0, true⟩ helq).1 = .dropped := by
  have hq : udpSendtoIfSrc { localPort := 3000 } true [[104, 101, 108], [112]]
      (ip4Addr 192 168 0 10) 3000 ⟨ip4Addr 192 168 0 112, ip4Addr 255 255 255 0, true⟩
      (ip4Addr 192 168 0 112) =
        some [[11, 184, 11, 184, 0, 12, 145, 197, 104, 101, 108], [112]] := by decide +kernel
  have hsent : [11, 184, 11, 184, 0, 12, 145, 197, 104, 101, 108, 112] =
      [11, 184, 11, 184, 0, 12, 145, 197, 104, 101] ++ littleEndian 2 (28780 : UInt16).toNat ++ [] :=
    by decide
  have hbytes : helq.p.flatten =
      [11, 184, 11, 184, 0, 12, 145, 197, 104, 101] ++ littleEndian 2 (29036 : UInt16).toNat ++ [] :=
    by decide
  exact damaged_dropped (by decide) hq rfl rfl (by decide) hsent hbytes (by decide) (by decide)
    (by decide) _ _

end Sent

end PodFirmware
