import PodFirmware.Ip4Frag

/-!
# PodFirmware.Ip4Input

`ip4_input`: padding is cut off, the header is checked, and a packet that is for us goes to its
protocol, or to `ip4_reass` if it is a fragment.

* `ip4Input`: what becomes of a packet that arrives.
* `Arrives`: how a packet comes out of the driver.
* `Gathered`: the fragments that have arrived in order.
* `Gathered.run`: with the last of them the packet is handed on.
-/

namespace PodFirmware

open Pieces (Cut Piece Spans)

/-! ## Input -/

/-- What `ip4_input` uses of a `struct netif`, of which there is one; `igmp` is the flag
`NETIF_FLAG_IGMP`. -/
structure Inp extends Netif where
  up : Bool
  igmp : Bool
  groups : List UInt32
  deriving DecidableEq, Repr

/-- `pbuf_realloc` to fewer bytes: the loop over the chain. -/
def pbufRealloc : List (List UInt8) → Nat → List (List UInt8)
  | [], _ => []
  | q :: p, remLen =>
    if remLen > q.length then q :: pbufRealloc p (remLen - q.length) else [q.take remLen]

theorem length_pbufRealloc (p : List (List UInt8)) (newLen : Nat) :
    ∀ q ∈ pbufRealloc p newLen, ∃ r ∈ p, q.length ≤ r.length := by
  induction p, newLen using pbufRealloc.induct with
  | case1 => exact nofun
  | case2 q p remLen hlt ih =>
    intro r hr
    rw [pbufRealloc, if_pos hlt] at hr
    rcases List.mem_cons.mp hr with rfl | hr
    · exact ⟨r, List.mem_cons_self, Nat.le_refl _⟩
    · obtain ⟨r', hr', hle⟩ := ih r hr
      exact ⟨r', List.mem_cons_of_mem _ hr', hle⟩
  | case3 q p remLen hle =>
    intro r hr
    rw [pbufRealloc, if_neg hle] at hr
    obtain rfl := List.mem_singleton.mp hr
    exact ⟨q, List.mem_cons_self, List.length_take_le' _ _⟩

def Chain.realloc (p : Chain) (newLen : UInt16) : Chain where
  segs := pbufRealloc p.segs newLen.toNat
  fits := by
    intro q hq
    obtain ⟨r, hr, hle⟩ := length_pbufRealloc p.segs newLen.toNat q hq
    exact Nat.lt_of_le_of_lt hle (p.fits r hr)

def ipProtoIcmp : UInt8 := 1
def ipProtoIgmp : UInt8 := 2

/-- What becomes of a packet. -/
inductive Upper where
  | dropped
  /-- `ip4_reass` has not returned a packet. -/
  | fragment
  | udpInput (iphdr : IpHdr) (p : Chain)
  | icmpInput (iphdr : IpHdr) (p : Chain)
  | igmpInput (iphdr : IpHdr) (p : Chain)
  /-- `icmp_dest_unreach`, unless the packet went to many. -/
  | unsupported (unreach : Bool)

namespace Inp

/-- It goes to a group that has been joined. -/
def inGroup (inp : Inp) (dest : UInt32) : Bool := inp.igmp && inp.groups.contains dest

/-- The packet is for us. -/
def accepts (inp : Inp) (dest : UInt32) : Bool :=
  if ip4AddrIsmulticast dest then inp.inGroup dest
  else inp.up && inp.ipAddr != 0 && (dest == inp.ipAddr || ip4AddrIsbroadcast dest inp.toNetif)

/-- `check_ip_src`, and the check. -/
def srcInvalid (inp : Inp) (src dest : UInt32) : Bool :=
  let checkIpSrc := !(ip4AddrIsmulticast dest && inp.inGroup dest && dest == ip4Addr 224 0 0 1 &&
    src == 0)
  checkIpSrc && (ip4AddrIsbroadcast src inp.toNetif || ip4AddrIsmulticast src)

end Inp

/-- The protocol that gets the packet. -/
def toUpper (inp : Inp) (iphdr : IpHdr) (p : Chain) : Upper :=
  if iphdr.proto = ipProtoUdp then .udpInput iphdr p
  else if iphdr.proto = ipProtoIcmp then .icmpInput iphdr p
  else if iphdr.proto = ipProtoIgmp then .igmpInput iphdr p
  else .unsupported (!ip4AddrIsbroadcast iphdr.dest inp.toNetif && !ip4AddrIsmulticast iphdr.dest)

/-- What `ip4_reass` returns is handed on, if there is something. -/
def afterReass (inp : Inp) (out : Option (IpHdr × Chain) × Reass) : Upper × Reass :=
  match out.1 with
  | none => (.fragment, out.2)
  | some (iphdr, p) => (toUpper inp iphdr p, out.2)

def ip4Input (s : Reass) (inp : Inp) (p : Chain) : Upper × Reass :=
  let iphdr := ipHdr (p.segs.headD [])
  if iphdr.v ≠ 4 then (.dropped, s)
  else
    let iphdrHlen := iphdr.hl.toNat * 4
    let iphdrLen := lwipHtons iphdr.len
    let p := if iphdrLen < p.totLen then p.realloc iphdrLen else p
    if iphdrHlen > p.len.toNat ∨ iphdrLen > p.totLen ∨ iphdrHlen < ipHlen then (.dropped, s)
    else if inetChksum ((p.segs.headD []).take iphdrHlen) ≠ 0 then (.dropped, s)
    else if inp.srcInvalid iphdr.src iphdr.dest then (.dropped, s)
    else if !inp.accepts iphdr.dest then (.dropped, s)
    else if iphdr.offset &&& lwipHtons (ipOffmask ||| ipMf) ≠ 0 then
      afterReass inp (ip4Reass s iphdr (p.hide iphdrHlen))
    else (toUpper inp iphdr (p.hide iphdrHlen), s)

/-! ### A packet that arrives whole -/

section Arrives

variable {p : List (List UInt8)} {c : Chain} {n : Nat}

theorem flatten_pbufRealloc (p : List (List UInt8)) (n : Nat) :
    (pbufRealloc p n).flatten = p.flatten.take n := by
  induction p, n using pbufRealloc.induct with
  | case1 n => rw [pbufRealloc, List.flatten_nil, List.take_nil]
  | case2 q p n hlt ih =>
    rw [pbufRealloc, if_pos hlt, List.flatten_cons, List.flatten_cons, ih, List.take_append,
      List.take_of_length_le (Nat.le_of_lt hlt)]
  | case3 q p n hle =>
    rw [pbufRealloc, if_neg hle, List.flatten_singleton, List.flatten_cons,
      List.take_append_of_le_length (Nat.not_lt.mp hle)]

theorem headD_pbufRealloc (p : List (List UInt8)) (n : Nat) :
    (pbufRealloc p n).headD [] = (p.headD []).take n := by
  cases p with
  | nil => rw [pbufRealloc, List.headD_nil, List.take_nil]
  | cons q p =>
    rw [pbufRealloc]
    split
    · next hlt => rw [List.headD_cons, List.headD_cons, List.take_of_length_le (Nat.le_of_lt hlt)]
    · rfl

theorem length_pbufRealloc_le (p : List (List UInt8)) (n : Nat) :
    (pbufRealloc p n).length ≤ p.length := by
  induction p, n using pbufRealloc.induct with
  | case1 n => exact Nat.le_refl _
  | case2 q p n hlt ih =>
    rw [pbufRealloc, if_pos hlt, List.length_cons, List.length_cons]
    omega
  | case3 q p n hle =>
    rw [pbufRealloc, if_neg hle, List.length_cons, List.length_cons, List.length_nil]
    omega

theorem bytes_hide (h : n ≤ (c.segs.headD []).length) : (c.hide n).bytes = c.bytes.drop n := by
  obtain ⟨segs, fits⟩ := c
  cases segs with
  | nil => exact List.drop_nil.symm
  | cons first rest => exact (List.drop_append_of_le_length h).symm

theorem clen_hide (c : Chain) (n : Nat) : (c.hide n).clen = c.clen := by
  obtain ⟨segs, fits⟩ := c
  cases segs with
  | nil => rfl
  | cons first rest => rfl

theorem headD_hide (c : Chain) (n : Nat) :
    (c.hide n).segs.headD [] = (c.segs.headD []).drop n := by
  obtain ⟨segs, fits⟩ := c
  cases segs with
  | nil => exact List.drop_nil.symm
  | cons first rest => rfl

/-- The packet `w` arrives in the chain: there may be padding behind it, and its headers are in the
first segment. -/
structure Arrives (w : List UInt8) (c : Chain) : Prop where
  bytes : ∃ pad, c.bytes = w ++ pad
  fits : c.bytes.length < 2 ^ 16
  first : min w.length (ipHlen + udpHlen) ≤ (c.segs.headD []).length

theorem toNat_totLen (h : c.bytes.length < 2 ^ 16) : c.totLen.toNat = c.bytes.length := by
  rw [Chain.totLen, UInt16.toNat_ofNat']
  exact Nat.mod_eq_of_lt h

theorem toNat_len (c : Chain) : c.len.toNat = (c.segs.headD []).length := by
  have hlt : (c.segs.headD []).length < 2 ^ 16 := by
    obtain ⟨segs, fits⟩ := c
    cases segs with
    | nil => exact Nat.two_pow_pos 16
    | cons first rest => exact fits first List.mem_cons_self
  rw [Chain.len, UInt16.toNat_ofNat']
  exact Nat.mod_eq_of_lt hlt

/-- The padding is cut off. -/
theorem Arrives.trimmed {w : List UInt8} (h : Arrives w c) {len : UInt16}
    (hlen : len.toNat = w.length) :
    ∃ p, (if len < c.totLen then c.realloc len else c) = p ∧ p.bytes = w ∧ p.clen ≤ c.clen ∧
      min w.length (ipHlen + udpHlen) ≤ (p.segs.headD []).length := by
  obtain ⟨pad, hbytes⟩ := h.bytes
  have hfirst := h.first
  have htotal := toNat_totLen h.fits
  rw [hbytes, List.length_append] at htotal
  refine ⟨_, rfl, ?_⟩
  split
  · have hsegs : (c.realloc len).segs = pbufRealloc c.segs len.toNat := rfl
    refine ⟨?_, length_pbufRealloc_le _ _, ?_⟩
    · rw [Chain.bytes, hsegs, flatten_pbufRealloc, hlen]
      exact (congrArg (List.take _) hbytes).trans List.take_left
    · rw [hsegs, headD_pbufRealloc, List.length_take, hlen]
      omega
  · next hle =>
    rw [UInt16.lt_iff_toNat_lt, hlen, htotal] at hle
    have hpad : pad = [] := List.length_eq_zero_iff.mp (by omega)
    refine ⟨?_, Nat.le_refl _, hfirst⟩
    rw [hbytes, hpad, List.append_nil]

variable {hdr : IpHdr} {data : List UInt8} {inp : Inp}

theorem Arrives.header (h : Arrives (hdr.bytes ++ data) c) : ipHdr (c.segs.headD []) = hdr := by
  have hfirst := h.first
  obtain ⟨pad, hbytes⟩ := h.bytes
  rw [List.length_append, hdr.length_bytes] at hfirst
  have hflat : c.segs.flatten = hdr.bytes ++ (data ++ pad) := by
    rw [← List.append_assoc]
    exact hbytes
  rw [ipHdr_headD (by omega), hflat, ipHdr_bytes]

/-- A packet with a valid header, for us, gets as far as its protocol or `ip4_reass`. -/
theorem ip4Input_of_arrives (harrives : Arrives (hdr.bytes ++ data) c) (hvHl : hdr.vHl = 0x45)
    (hlen : hdr.len = lwipHtons (UInt16.ofNat (ipHlen + data.length)))
    (hfits : ipHlen + data.length < 2 ^ 16) (hchksum : inetChksum hdr.bytes = 0)
    (hsrc : inp.srcInvalid hdr.src hdr.dest = false) (hdest : inp.accepts hdr.dest = true)
    (s : Reass) :
    ∃ p : Chain, p.bytes = data ∧ p.clen ≤ c.clen ∧
      min data.length udpHlen ≤ (p.segs.headD []).length ∧
      ip4Input s inp c = if hdr.offset &&& lwipHtons (ipOffmask ||| ipMf) ≠ 0 then
        afterReass inp (ip4Reass s hdr p) else (toUpper inp hdr p, s) := by
  have hw : (hdr.bytes ++ data).length = ipHlen + data.length := by
    rw [List.length_append, hdr.length_bytes]
  have hiphdrLen : (lwipHtons hdr.len).toNat = (hdr.bytes ++ data).length := by
    rw [hlen, lwipHtons_lwipHtons, UInt16.toNat_ofNat', hw]
    exact Nat.mod_eq_of_lt hfits
  have hv : hdr.v = 4 := by
    rw [IpHdr.v, hvHl]
    rfl
  have hhl : hdr.hl.toNat * 4 = ipHlen := by
    rw [IpHdr.hl, hvHl]
    rfl
  obtain ⟨p, htrimmed, hbytes, hclen, hfirst⟩ := harrives.trimmed hiphdrLen
  rw [hw] at hfirst
  have htotLen : p.totLen.toNat = (hdr.bytes ++ data).length := by
    rw [toNat_totLen (by rw [hbytes, hw]; exact hfits), hbytes]
  have hshort : ¬(ipHlen > p.len.toNat ∨ lwipHtons hdr.len > p.totLen ∨ ipHlen < ipHlen) := by
    rw [toNat_len, gt_iff_lt, gt_iff_lt, UInt16.lt_iff_toNat_lt, hiphdrLen, htotLen]
    omega
  have htake : (p.segs.headD []).take ipHlen = hdr.bytes := by
    rw [take_headD (by omega), ← Chain.bytes, hbytes, ← hdr.length_bytes, List.take_left]
  refine ⟨p.hide ipHlen, ?_, ?_, ?_, ?_⟩
  · rw [bytes_hide (by omega), hbytes, ← hdr.length_bytes, List.drop_left]
  · rw [clen_hide]
    exact hclen
  · rw [headD_hide, List.length_drop]
    omega
  · unfold ip4Input
    rw [harrives.header]
    dsimp only
    rw [if_neg (not_not.mpr hv), htrimmed, hhl, if_neg hshort, htake, hchksum,
      if_neg (not_not.mpr rfl), hsrc, if_neg Bool.false_ne_true, hdest, Bool.not_true,
      if_neg Bool.false_ne_true]

end Arrives

/-! ## Fragments in order -/

section Gathered

variable {d : SentPacket} {key : IpKey} {P : Frag → Prop} {x : Nat} {s : Reass} {fraghdr : IpHdr}
  {p : Chain}

/-- What is kept of a packet are its fragments up to `x`, and they satisfy `P`. -/
structure Gathered (d : SentPacket) (key : IpKey) (P : Frag → Prop) (x : Nat) (s : Reass) :
    Prop where
  inv : s.Inv
  kept : ∀ r ∈ s.datagrams, r.iphdr.key = key → Kept d r
  before : ∀ q ∈ held s key, q.start.toNat < x ∧ P q
  starts : ∀ m, d.cut.mark m → m < x → ∃ q ∈ held s key, q.start.toNat = m
  place : s.datagrams.length < memNumReassdata ∨ ∃ r ∈ s.datagrams, r.iphdr.key = key

theorem Gathered.no_hole (h : Gathered d fraghdr.key P x s)
    (hstart : (fragOf fraghdr p).start.toNat = x) :
    ¬Hole (held s fraghdr.key) (fragOf fraghdr p) := by
  rintro ⟨-, ⟨q, hq, hlt⟩, -⟩
  have hbefore := (h.before q hq).1
  rw [UInt16.lt_iff_toNat_lt] at hlt
  omega

/-- Every mark before the end of the next fragment is one of its own or of those that are kept. -/
theorem Gathered.covers (h : Gathered d fraghdr.key P x s) (hgen : Genuine d fraghdr p)
    (hstart : (fragOf fraghdr p).start.toNat = x) {m : Nat} (hm : d.cut.mark m)
    (hlt : m < (fragOf fraghdr p).piece.stop) :
    m = (fragOf fraghdr p).start.toNat ∨ ∃ q ∈ held s fraghdr.key, q.start.toNat = m := by
  rcases hgen.of.piece.next m hm with hle | hle
  · have hle : m ≤ (fragOf fraghdr p).start.toNat := hle
    rcases Nat.eq_or_lt_of_le hle with heq | hlt
    · exact .inl heq
    · exact .inr (h.starts m hm (hstart ▸ hlt))
  · omega

/-- The next fragment joins those that are kept. -/
theorem Gathered.next (h : Gathered d fraghdr.key P x s) (hgen : Genuine d fraghdr p)
    (hstart : (fragOf fraghdr p).start.toNat = x) (hP : P (fragOf fraghdr p))
    (hroom : s.pbufcount + p.clen ≤ ipReassMaxPbufs)
    (hmore : (fragOf fraghdr p).piece.stop ≠ d.cut.whole.length) :
    (ip4Reass s fraghdr p).1 = none ∧
      Gathered d fraghdr.key P (fragOf fraghdr p).piece.stop (ip4Reass s fraghdr p).2 ∧
      (ip4Reass s fraghdr p).2.pbufcount ≤ s.pbufcount + p.clen := by
  have hmeets := ip4Reass_spec h.inv h.kept hgen
  have hlt : x < (fragOf fraghdr p).piece.stop := hstart ▸ hgen.of.piece.lt
  have hle := d.cut.le _ hgen.of.piece.stop
  have hnone : (ip4Reass s fraghdr p).1 = none := by
    cases hout : (ip4Reass s fraghdr p).1 with
    | none => rfl
    | some out =>
      -- the end of the fragment is a mark where nothing begins
      have hcovered := (hmeets.handed out.1 out.2 hout).covered (h.no_hole hstart)
      rcases hcovered _ hgen.of.piece.stop (Nat.lt_of_le_of_ne hle hmore) with heq | ⟨q, hq, heq⟩
      · omega
      · have := (h.before q hq).1
        omega
  obtain ⟨hex, hjoined, hcount⟩ := hmeets.joined ⟨hroom, h.place⟩ hnone
  refine ⟨hnone, ⟨inv_ip4Reass h.inv fraghdr p, hmeets.kept, fun q hq => ?_, fun m hm hlt' => ?_,
    .inr hex⟩, hcount⟩
  · rcases (hjoined q).mp hq with hq | ⟨rfl, -⟩
    · exact ⟨Nat.lt_trans (h.before q hq).1 hlt, (h.before q hq).2⟩
    · exact ⟨hstart ▸ hlt, hP⟩
  · rcases h.covers hgen hstart hm hlt' with rfl | ⟨q, hq, heq⟩
    · refine ⟨_, (hjoined _).mpr (.inr ⟨rfl, fun r hr hsame => ?_⟩), rfl⟩
      have hr' := (h.before r hr).1
      rw [hsame] at hr'
      omega
    · exact ⟨q, (hjoined q).mpr (.inl hq), heq⟩

/-- With the last fragment the packet is complete. -/
theorem Gathered.last (h : Gathered d fraghdr.key P x s) (hgen : Genuine d fraghdr p)
    (hstart : (fragOf fraghdr p).start.toNat = x) (hP : P (fragOf fraghdr p))
    (hroom : s.pbufcount + p.clen ≤ ipReassMaxPbufs)
    (hend : (fragOf fraghdr p).piece.stop = d.cut.whole.length) :
    ∃ hdr q, (ip4Reass s fraghdr p).1 = some (hdr, q) ∧ hdr.key = fraghdr.key ∧
      hdr.proto = d.proto ∧ q.bytes = d.cut.whole ∧
      ∃ r, P r ∧ r.start.toNat = 0 ∧ ∃ rest, q.segs = r.p.segs ++ rest := by
  have hmeets := ip4Reass_spec h.inv h.kept hgen
  have hno := h.no_hole hstart
  have hcovered : Covered d (held s fraghdr.key) (fragOf fraghdr p) :=
    fun m hm hlt => h.covers hgen hstart hm (hend ▸ hlt)
  obtain ⟨⟨hdr, q⟩, hout⟩ := Option.isSome_iff_exists.mp
    (hmeets.covered ⟨hroom, h.place⟩ hcovered)
  have hhanded := hmeets.handed hdr q hout
  obtain ⟨r, hr, hzero, hrest⟩ := hmeets.first hdr q hout hno
  refine ⟨hdr, q, hout, hhanded.key, hhanded.proto, hhanded.whole.mpr hno, r, ?_, hzero, hrest⟩
  rcases hr with hr | rfl
  · exact (h.before r hr).2
  · exact hP

end Gathered

/-! ## The way of a datagram -/

/-- What goes to `netif->output` at the end of `ip4_output_if_opt_src`, and what `ip4_frag` returns
if it is called there. -/
def linkOutput (mtu : Mtu) (memory : UInt16 → FragRoom) (p : List (List UInt8)) :
    Int8 × List (List UInt8) :=
  if UInt16.ofNat p.flatten.length > mtu.val then
    let sent := ip4Frag mtu memory p
    (sent.1, sent.2.map fun f => f.1.bytes ++ f.2.bytes)
  else (errOk, [p.flatten])

/-- What becomes of packets that arrive one after the other. -/
def ip4Inputs (inp : Inp) : Reass → List Chain → List Upper
  | _, [] => []
  | s, c :: cs => (ip4Input s inp c).1 :: ip4Inputs inp (ip4Input s inp c).2 cs

/-- What is kept then. -/
def afterInputs (inp : Inp) : Reass → List Chain → Reass
  | s, [] => s
  | s, c :: cs => afterInputs inp (ip4Input s inp c).2 cs

theorem ip4Inputs_append (inp : Inp) (s : Reass) (cs cs' : List Chain) :
    ip4Inputs inp s (cs ++ cs') =
      ip4Inputs inp s cs ++ ip4Inputs inp (afterInputs inp s cs) cs' := by
  induction cs generalizing s with
  | nil => rfl
  | cons c cs ih => rw [List.cons_append, ip4Inputs, ip4Inputs, afterInputs, ih, List.cons_append]

theorem afterReass_snd (inp : Inp) (out : Option (IpHdr × Chain) × Reass) :
    (afterReass inp out).2 = out.2 := by
  obtain ⟨handed, s⟩ := out
  cases handed with
  | none => rfl
  | some handed => rfl

/-- The packet is handed on with the last of the chains, and nothing else is kept afterwards than
before. -/
structure HandedOn (inp : Inp) (s : Reass) (cs : List Chain) (hdr : IpHdr) (data : List UInt8)
    (iphdr : IpHdr) (q : Chain) : Prop where
  outcomes : ip4Inputs inp s cs =
    List.replicate (cs.length - 1) .fragment ++ [toUpper inp iphdr q]
  key : iphdr.key = hdr.key
  proto : iphdr.proto = hdr.proto
  bytes : q.bytes = data
  first : udpHlen ≤ (q.segs.headD []).length
  inv : s.Inv → (afterInputs inp s cs).Inv
  kept : ∀ r ∈ (afterInputs inp s cs).datagrams, r ∈ s.datagrams

section Fragments

variable {original : IpHdr} {mtu : Mtu} {data : List UInt8} {f : IpHdr × Chain} {c p : Chain}
  {y : Nat} {inp : Inp}

/-- A fragment of a packet that is too long for the link is one for the receiver. -/
theorem FragmentAt.offset_ne (h : FragmentAt original mtu data y f)
    (hfits : ipHlen + data.length < 2 ^ 16) (hlong : mtu.val.toNat < ipHlen + data.length) :
    f.1.offset &&& lwipHtons (ipOffmask ||| ipMf) ≠ 0 := by
  have hlt := h.lt
  have hle := mtu.le
  have hzero : lwipHtons 0 = 0 := rfl
  have hofo : (UInt16.ofNat (y / 8)).toNat = y / 8 := by
    rw [UInt16.toNat_ofNat']
    exact Nat.mod_eq_of_lt (by omega)
  have hsmall : (UInt16.ofNat (y / 8)).toNat < 8192 := by omega
  have hfield := toNat_offsetField hsmall (data.length - y ≤ mtu.val.toNat - 20)
  rw [h.hdr, fragHdr_offset, ← lwipHtons_and]
  intro heq
  have hand : offsetField (UInt16.ofNat (y / 8)) (data.length - y ≤ mtu.val.toNat - 20) &&&
      (ipOffmask ||| ipMf) = 0 := by
    rw [← lwipHtons_lwipHtons (_ &&& _), heq, hzero]
  have hmask : (ipOffmask ||| ipMf).toNat = 2 ^ 14 - 1 := rfl
  have hmod := congrArg UInt16.toNat hand
  rw [UInt16.toNat_and, hmask, Nat.and_two_pow_sub_one_eq_mod, hfield, hofo] at hmod
  -- the first fragment has the mark, and every other an offset
  rcases Nat.eq_zero_or_pos y with rfl | hpos
  · rw [Nat.zero_div, if_neg (by rw [decide_eq_true_eq]; rw [ipHlen] at hlong; omega)] at hmod
    exact absurd hmod (by decide)
  · have hdvd : 8 ∣ y := (Nat.dvd_mul_left 8 _).trans (Nat.dvd_of_mod_eq_zero h.aligned)
    have height : 1 ≤ y / 8 := (Nat.one_le_div_iff (by decide)).mpr (Nat.le_of_dvd hpos hdvd)
    have hzero' : UInt16.toNat 0 = 0 := rfl
    rw [hzero'] at hmod
    split at hmod <;> omega

theorem FragmentAt.len_eq (h : FragmentAt original mtu data y f) :
    f.1.len = lwipHtons (UInt16.ofNat (ipHlen + f.2.bytes.length)) := by
  have hlen : f.1.len = lwipHtons (UInt16.ofNat (fragSize mtu data.length y) +
      UInt16.ofNat ipHlen) := by
    rw [h.hdr]
    rfl
  rw [hlen, h.length, UInt16.ofNat_add, UInt16.add_comm]

/-- A fragment gets as far as `ip4_reass`. -/
theorem FragmentAt.input (h : FragmentAt original mtu data y f)
    (hfits : ipHlen + data.length < 2 ^ 16) (hlong : mtu.val.toNat < ipHlen + data.length)
    (hvHl : original.vHl = 0x45) (hsrc : inp.srcInvalid original.src original.dest = false)
    (hdest : inp.accepts original.dest = true) (harrives : Arrives (f.1.bytes ++ f.2.bytes) c)
    (s : Reass) :
    ∃ p : Chain, p.bytes = f.2.bytes ∧ p.clen ≤ c.clen ∧
      min f.2.bytes.length udpHlen ≤ (p.segs.headD []).length ∧
      ip4Input s inp c = afterReass inp (ip4Reass s f.1 p) := by
  have hlt := h.lt
  have hsize : fragSize mtu data.length y ≤ data.length - y := Nat.min_le_left _ _
  have hsame : f.1.vHl = original.vHl ∧ f.1.src = original.src ∧ f.1.dest = original.dest ∧
      inetChksum f.1.bytes = 0 := by
    rw [h.hdr]
    exact ⟨rfl, rfl, rfl, inetChksum_fragHdr _ _ _ _⟩
  obtain ⟨hvHl', hsrc', hdest', hchksum⟩ := hsame
  obtain ⟨p, hbytes, hclen, hfirst, heq⟩ := ip4Input_of_arrives harrives (hvHl'.trans hvHl)
    h.len_eq (by rw [h.length]; omega) hchksum (by rw [hsrc', hdest']; exact hsrc)
    (by rw [hdest']; exact hdest) s
  rw [if_pos (h.offset_ne hfits hlong)] at heq
  exact ⟨p, hbytes, hclen, hfirst, heq⟩

/-- The first fragment brings its first eight bytes in one segment. -/
def Headed (q : Frag) : Prop := q.start.toNat = 0 → udpHlen ≤ (q.p.segs.headD []).length

theorem FragmentAt.headed (h : FragmentAt original mtu data y f)
    (hfits : ipHlen + data.length < 2 ^ 16) (hdata : udpHlen ≤ data.length)
    (hfirst : min f.2.bytes.length udpHlen ≤ (p.segs.headD []).length) :
    Headed (fragOf f.1 p) := by
  intro hzero
  have hstart : (fragOf f.1 p).start.toNat = y := h.start hfits
  have hfull : 8 ≤ mtu.full := by
    have := mtu.le
    rw [mtu.full_eq]
    omega
  have hsegs : (fragOf f.1 p).p.segs = p.segs := rfl
  rw [h.length, fragSize, ← hstart, hzero] at hfirst
  rw [hsegs]
  rw [udpHlen] at hfirst hdata ⊢
  omega

theorem le_headD_append {l rest : List (List UInt8)} {n : Nat} (hpos : 0 < n)
    (h : n ≤ (l.headD []).length) : n ≤ ((l ++ rest).headD []).length := by
  cases l with
  | nil => exact absurd h (Nat.not_le.mpr hpos)
  | cons first tail => exact h

variable {fs : List (IpHdr × Chain)} {cs : List Chain} {s : Reass} {x : Nat}

/-- When the last of the fragments has come, the packet is handed on. -/
theorem Gathered.run (hfits : ipHlen + data.length < 2 ^ 16)
    (hlong : mtu.val.toNat < ipHlen + data.length) (hdata : udpHlen ≤ data.length)
    (hvHl : original.vHl = 0x45) (hsrc : inp.srcInvalid original.src original.dest = false)
    (hdest : inp.accepts original.dest = true)
    (hall : ∀ f ∈ fs, (∃ y, FragmentAt original mtu data y f) ∧
      Genuine (sentIn mtu data original.proto hfits) f.1 f.2)
    (hspans : Spans x data.length (fs.map fun f => (fragOf f.1 f.2).piece)) (hx : x < data.length)
    (harrive : List.Forall₂ (fun f c => Arrives (f.1.bytes ++ f.2.bytes) c) fs cs)
    (hs : Gathered (sentIn mtu data original.proto hfits) original.key Headed x s)
    (hroom : s.pbufcount + (cs.map Chain.clen).sum ≤ ipReassMaxPbufs) :
    ∃ iphdr q, HandedOn inp s cs original data iphdr q ∧
      ∀ r ∈ (afterInputs inp s cs).datagrams, r.iphdr.key ≠ original.key := by
  induction harrive generalizing s x with
  | nil => exact absurd hspans (Nat.ne_of_lt hx)
  | @cons f c fs cs hfc harrive ih =>
    obtain ⟨⟨y, hf⟩, hgen⟩ := hall f List.mem_cons_self
    obtain ⟨hstart, hrest⟩ := hspans
    obtain ⟨p, hbytes, hclen, hfirst, hinput⟩ := hf.input hfits hlong hvHl hsrc hdest hfc s
    have hgen' := hgen.congr hbytes
    have hkey : f.1.key = original.key := by
      rw [hf.hdr]
      rfl
    have hheaded := hf.headed hfits hdata hfirst
    have hpiece := piece_fragOf hbytes f.1
    rw [List.map_cons, List.sum_cons] at hroom
    rw [← hkey] at hs
    have hafter : ∀ cs, afterInputs inp s (c :: cs) = afterInputs inp (ip4Reass s f.1 p).2 cs := by
      intro cs
      rw [afterInputs, hinput, afterReass_snd]
    have hinv : s.Inv → (ip4Reass s f.1 p).2.Inv := fun h => inv_ip4Reass h f.1 p
    -- what is kept of other packets has been there before
    have hmem : ∀ r ∈ (ip4Reass s f.1 p).2.datagrams, r.iphdr.key ≠ original.key →
        r ∈ s.datagrams := by
      intro r hr hne
      rw [← hkey] at hne
      exact (mem_ip4Reass hs.inv hr).resolve_left hne
    cases harrive with
    | nil =>
      have hend : (fragOf f.1 p).piece.stop = data.length := by
        rw [hpiece]
        exact hrest
      obtain ⟨hdr, q, hout, hkey', hproto, hq, r, hr, hzero, rest, hsegs⟩ :=
        hs.last hgen' hstart hheaded (by omega) hend
      have hgone := ip4Reass_gone hs.inv (Option.isSome_iff_exists.mpr ⟨_, hout⟩)
      rw [hkey] at hgone
      refine ⟨hdr, q, ⟨?_, hkey'.trans hkey, hproto, hq, ?_, ?_, ?_⟩, ?_⟩
      · rw [ip4Inputs, hinput, afterReass, hout]
        rfl
      · rw [hsegs]
        exact le_headD_append (by decide) (hr hzero)
      · rw [hafter]
        exact hinv
      · rw [hafter]
        exact fun r hr => hmem r hr (hgone r hr)
      · rw [hafter]
        exact hgone
    | @cons f' c' fs cs hfc' harrive' =>
      obtain ⟨⟨y', hf'⟩, -⟩ := hall f' (List.mem_cons_of_mem _ List.mem_cons_self)
      have hstop : (fragOf f.1 p).piece.stop < data.length := by
        have hstart' : (fragOf f'.1 f'.2).piece.start = y' := hf'.start hfits
        rw [hpiece, ← hrest.1, hstart']
        exact hf'.lt
      obtain ⟨hnone, hnext, hcount⟩ := hs.next hgen' hstart hheaded (by omega) (Nat.ne_of_lt hstop)
      rw [hkey] at hnext
      obtain ⟨hdr, q, hon, hgone⟩ := ih (fun f hf => hall f (List.mem_cons_of_mem _ hf))
        (by rw [hpiece]; exact hrest) hstop hnext (by omega)
      have hfragment : afterReass inp (ip4Reass s f.1 p) = (.fragment, (ip4Reass s f.1 p).2) := by
        rw [afterReass, hnone]
      refine ⟨hdr, q, ⟨?_, hon.key, hon.proto, hon.bytes, hon.first, ?_, ?_⟩, ?_⟩
      · rw [ip4Inputs, hinput, hfragment, hon.outcomes]
        rfl
      · rw [hafter]
        exact fun h => hon.inv (hinv h)
      · rw [hafter]
        exact fun r hr => hmem r (hon.kept r hr) (hgone r hr)
      · rw [hafter]
        exact hgone

end Fragments

end PodFirmware
