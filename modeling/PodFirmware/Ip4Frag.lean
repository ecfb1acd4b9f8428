import Mathlib.Data.Nat.Bitwise
import PodFirmware.Reassembled

/-!
# PodFirmware.Ip4Frag

`ip4_frag`: a packet that is too long for the link goes out in fragments. They are headers of their
own, with pbufs behind them that point into the packet.

* `mirror`: the pbufs of one fragment, each of which takes one of the references that there are.
* `ip4Frag`: the fragments, as far as there is memory for them.
* `fragments_iff`: how far that is. The fragments of a whole packet are what a receiver takes them
  for unless the last but one is marked as the last, which takes a link on which a fragment leaves
  bytes unused.
-/

namespace PodFirmware

open Bytes (slice)
open Pieces (Cut Piece Spans)

/-- What a link takes: at least a header and eight bytes. -/
structure Mtu where
  val : UInt16
  le : 28 ≤ val.toNat
  deriving DecidableEq, Repr

namespace Mtu

def nfb (mtu : Mtu) : UInt16 := (mtu.val - 20) / 8

/-- The bytes of a fragment that is not the last. -/
def full (mtu : Mtu) : Nat := mtu.nfb.toNat * 8

theorem toNat_room (mtu : Mtu) : (mtu.val - 20).toNat = mtu.val.toNat - 20 := by
  have hle : (20 : UInt16) ≤ mtu.val := UInt16.le_iff_toNat_le.mpr (Nat.le_trans (by decide) mtu.le)
  exact UInt16.toNat_sub_of_le _ _ hle

theorem full_eq (mtu : Mtu) : mtu.full = (mtu.val.toNat - 20) / 8 * 8 := by
  rw [full, nfb, UInt16.toNat_div, toNat_room]
  rfl

theorem full_pos (mtu : Mtu) : 0 < mtu.full := by
  have := mtu.le
  rw [full_eq]
  omega

theorem full_le (mtu : Mtu) : mtu.full ≤ mtu.val.toNat - 20 := by
  rw [full_eq]
  omega

theorem toNat_full (mtu : Mtu) : (mtu.nfb * 8).toNat = mtu.full := by
  have hle := mtu.full_le
  have hlt := mtu.val.toNat_lt
  have height : (8 : UInt16).toNat = 8 := rfl
  rw [UInt16.toNat_mul, height, full]
  rw [full] at hle
  exact Nat.mod_eq_of_lt (by omega)

end Mtu

def errMem : Int8 := -1
def errVal : Int8 := -6

/-- `MEMP_NUM_FRAG_PBUF`: the references to pbufs that all fragments share. -/
def memNumFragPbuf : Nat := 15

/-- What a fragment finds of memory: whether there is some for its header, and how many references
are left. -/
structure FragRoom where
  rambuf : Bool
  refs : Nat
  le : refs ≤ memNumFragPbuf

/-- There is memory for a fragment with `n` pbufs behind its header. -/
def FragRoom.takes (r : FragRoom) (n : Nat) : Bool := r.rambuf && decide (n ≤ r.refs)

/-- The inner loop: the pbufs that point to the next `leftToCopy` bytes, and where `p` and `poff`
are then. -/
def mirror : List (List UInt8) → Nat → Nat → List (List UInt8) × List (List UInt8) × Nat
  | [], poff, _ => ([], [], poff)
  | q :: p, poff, leftToCopy =>
    let newpbuflen := min leftToCopy (q.length - poff)
    if newpbuflen = 0 then mirror p 0 leftToCopy
    else
      let newpbuf := slice q poff newpbuflen
      if leftToCopy - newpbuflen = 0 then ([newpbuf], q :: p, poff + newpbuflen)
      else
        let rambuf := mirror p 0 (leftToCopy - newpbuflen)
        (newpbuf :: rambuf.1, rambuf.2)

theorem length_mirror_le (p : List (List UInt8)) (poff leftToCopy : Nat) :
    ∀ q ∈ (mirror p poff leftToCopy).1, q.length ≤ leftToCopy := by
  induction p, poff, leftToCopy using mirror.induct with
  | case1 => exact nofun
  | case2 q p poff leftToCopy newpbuflen hzero ih =>
    rw [mirror, if_pos hzero]
    exact ih
  | case3 q p poff leftToCopy newpbuflen hpos hleft =>
    rw [mirror, if_neg hpos, if_pos hleft]
    intro r hr
    obtain rfl := List.mem_singleton.mp hr
    exact Nat.le_trans (List.length_take_le _ _) (Nat.min_le_left _ _)
  | case4 q p poff leftToCopy newpbuflen hpos hleft ih =>
    rw [mirror, if_neg hpos, if_neg hleft]
    intro r hr
    rcases List.mem_cons.mp hr with rfl | hr
    · exact Nat.le_trans (List.length_take_le _ _) (Nat.min_le_left _ _)
    · exact Nat.le_trans (ih r hr) (Nat.sub_le _ _)

/-- The data of a fragment. -/
def fragData (p : List (List UInt8)) (poff : Nat) (fragsize : UInt16) : Chain where
  segs := (mirror p poff fragsize.toNat).1
  fits := fun q hq => Nat.lt_of_le_of_lt (length_mirror_le p poff _ q hq) fragsize.toNat_lt

theorem bytes_fragData (p : List (List UInt8)) (poff : Nat) (fragsize : UInt16) :
    (fragData p poff fragsize).bytes = (mirror p poff fragsize.toNat).1.flatten := rfl

/-- The header of a fragment. -/
def fragHdr (original : IpHdr) (ofo fragsize : UInt16) (last : Bool) : IpHdr :=
  let tmp := ipOffmask &&& ofo
  let tmp := if last then tmp else tmp ||| ipMf
  let iphdr := { original with
    offset := lwipHtons tmp, len := lwipHtons (fragsize + UInt16.ofNat ipHlen), chksum := 0 }
  { iphdr with chksum := inetChksum iphdr.bytes }

/-- `LWIP_MIN`. -/
def lwipMin (x y : UInt16) : UInt16 := if x < y then x else y

/-- The outer loop. A turn sends a byte at least, so `turns` is at first what is `left`. What a turn
finds of memory is told by the offset `ofo`, which no two turns share. -/
def ip4FragLoop (original : IpHdr) (mtu : Mtu) (room : UInt16 → FragRoom) :
    Nat → UInt16 → UInt16 → List (List UInt8) → Nat → Int8 × List (IpHdr × Chain)
  | 0, _, _, _, _ => (errOk, [])
  | turns + 1, left, ofo, p, poff =>
    if left = 0 then (errOk, [])
    else
      let fragsize := lwipMin left (mtu.nfb * 8)
      let last := left ≤ mtu.val - 20
      let next := mirror p poff fragsize.toNat
      -- `memerr`: what has been sent before is not taken back
      if !(room ofo).takes next.1.length then (errMem, [])
      else
        let sent := ip4FragLoop original mtu room turns (left - fragsize) (ofo + mtu.nfb) next.2.1
          next.2.2
        (sent.1, (fragHdr original ofo fragsize last, fragData p poff fragsize) :: sent.2)

/-- What `ip4_frag` returns, and the fragments that go to the link. -/
def ip4Frag (mtu : Mtu) (room : UInt16 → FragRoom) (p : List (List UInt8)) :
    Int8 × List (IpHdr × Chain) :=
  let original := ipHdr (p.headD [])
  let tmp := lwipHtons original.offset
  if original.hl.toNat * 4 ≠ ipHlen then (errVal, [])
  else if tmp &&& ipMf ≠ 0 then (errVal, [])
  else
    let left := UInt16.ofNat p.flatten.length - UInt16.ofNat ipHlen
    ip4FragLoop original mtu room left.toNat left (tmp &&& ipOffmask) p ipHlen

/-! ## The data -/

section Data

/-- The pbufs have the next bytes, and the rest begins behind them. -/
theorem mirror_spec {p : List (List UInt8)} {poff n : Nat} (hpoff : poff ≤ (p.headD []).length)
    (hpos : 0 < n) (hn : n ≤ (p.flatten.drop poff).length) :
    (mirror p poff n).1.flatten = (p.flatten.drop poff).take n ∧
      (mirror p poff n).2.1.flatten.drop (mirror p poff n).2.2 =
        (p.flatten.drop poff).drop n ∧
      (mirror p poff n).2.2 ≤ ((mirror p poff n).2.1.headD []).length := by
  induction p, poff, n using mirror.induct with
  | case1 poff n =>
    rw [List.flatten_nil, List.drop_nil, List.length_nil] at hn
    omega
  | case2 q p poff n newpbuflen hzero ih =>
    rw [List.headD_cons] at hpoff
    have hlen : q.length = poff := by omega
    rw [List.flatten_cons, List.drop_left' hlen] at hn ⊢
    rw [mirror, if_pos hzero]
    exact ih (Nat.zero_le _) hpos hn
  | case3 q p poff n newpbuflen hne hleft =>
    rw [List.headD_cons] at hpoff
    have hmin : newpbuflen = n := by omega
    have hfit : n ≤ q.length - poff := by omega
    have hdrop : (q :: p).flatten.drop poff = q.drop poff ++ p.flatten :=
      List.drop_append_of_le_length hpoff
    rw [mirror, if_neg hne, if_pos hleft]
    dsimp only
    rw [show min n (q.length - poff) = n from hmin, hdrop,
      List.take_append_of_le_length (by rwa [List.length_drop])]
    refine ⟨by rw [List.flatten_singleton]; rfl, ?_, ?_⟩
    · rw [← hdrop, List.drop_drop]
    · rw [List.headD_cons]
      omega
  | case4 q p poff n newpbuflen hne hleft ih =>
    rw [List.headD_cons] at hpoff
    have hmin : newpbuflen = q.length - poff := by omega
    have hdrop : (q :: p).flatten.drop poff = q.drop poff ++ p.flatten :=
      List.drop_append_of_le_length hpoff
    have hlen : (q.drop poff).length = newpbuflen := by rw [List.length_drop, hmin]
    rw [hdrop, List.length_append, hlen] at hn
    obtain ⟨hflat, hrest, hle⟩ := ih (Nat.zero_le _) (by omega) (by rw [List.drop_zero]; omega)
    have hslice : slice q poff newpbuflen = q.drop poff := by
      rw [hmin]
      exact List.take_of_length_le (by rw [List.length_drop])
    have hbehind : (q.drop poff).length ≤ n := by omega
    rw [List.drop_zero] at hflat hrest
    rw [mirror, if_neg hne, if_neg hleft, hdrop]
    refine ⟨?_, ?_, hle⟩
    · rw [List.take_append, List.take_of_length_le hbehind, hlen, List.flatten_cons, hflat]
      exact congrArg (· ++ _) hslice
    · rw [List.drop_append, List.drop_of_length_le hbehind, List.nil_append, hlen]
      exact hrest

/-- How many pbufs have some of the `n` bytes from `m` on. -/
def pbufsIn : List (List UInt8) → Nat → Nat → Nat
  | [], _, _ => 0
  | q :: p, m, n =>
    (if m < q.length ∧ 0 < n then 1 else 0) + pbufsIn p (m - q.length) (n - (q.length - m))

theorem pbufsIn_zero (p : List (List UInt8)) (m : Nat) : pbufsIn p m 0 = 0 := by
  induction p generalizing m with
  | nil => rfl
  | cons q p ih => rw [pbufsIn, if_neg (by omega), Nat.zero_sub, ih]

/-- A pbuf that lies before the bytes does not count. -/
theorem pbufsIn_cons_of_le {q : List UInt8} {m : Nat} (h : q.length ≤ m) (p : List (List UInt8))
    (n : Nat) : pbufsIn (q :: p) m n = pbufsIn p (m - q.length) n := by
  rw [pbufsIn, if_neg (by omega), Nat.sub_eq_zero_of_le h, Nat.sub_zero, Nat.zero_add]

/-- The inner loop makes a pbuf for each of them. -/
theorem length_mirror {p : List (List UInt8)} {poff n : Nat} (hpoff : poff ≤ (p.headD []).length)
    (hpos : 0 < n) : (mirror p poff n).1.length = pbufsIn p poff n := by
  induction p, poff, n using mirror.induct with
  | case1 poff n => rfl
  | case2 q p poff n newpbuflen hzero ih =>
    rw [List.headD_cons] at hpoff
    have hlen : q.length = poff := by omega
    rw [mirror, if_pos hzero, ih (Nat.zero_le _) hpos, pbufsIn_cons_of_le (by omega), hlen,
      Nat.sub_self]
  | case3 q p poff n newpbuflen hne hleft =>
    have hfew : n - (q.length - poff) = 0 := by omega
    rw [mirror, if_neg hne, if_pos hleft, pbufsIn, if_pos (by omega), hfew, pbufsIn_zero]
    rfl
  | case4 q p poff n newpbuflen hne hleft ih =>
    have hrest : n - newpbuflen = n - (q.length - poff) := by omega
    have hzero : poff - q.length = 0 := by omega
    rw [mirror, if_neg hne, if_neg hleft, pbufsIn, if_pos (by omega), hzero, ← hrest,
      ← ih (Nat.zero_le _) (by omega), List.length_cons, Nat.add_comm]

/-- Where the inner loop ends, the pbufs of what follows are those behind its bytes. -/
theorem pbufsIn_mirror {p : List (List UInt8)} {poff n : Nat} (hpoff : poff ≤ (p.headD []).length)
    (hpos : 0 < n) (k m : Nat) : pbufsIn (mirror p poff n).2.1 ((mirror p poff n).2.2 + k) m =
      pbufsIn p (poff + n + k) m := by
  induction p, poff, n using mirror.induct with
  | case1 poff n => rfl
  | case2 q p poff n newpbuflen hzero ih =>
    rw [List.headD_cons] at hpoff
    have hshift : poff + n + k - q.length = 0 + n + k := by omega
    rw [mirror, if_pos hzero, ih (Nat.zero_le _) hpos, pbufsIn_cons_of_le (by omega), hshift]
  | case3 q p poff n newpbuflen hne hleft =>
    have hmin : newpbuflen = n := by omega
    rw [mirror, if_neg hne, if_pos hleft]
    dsimp only
    rw [show min n (q.length - poff) = n from hmin]
  | case4 q p poff n newpbuflen hne hleft ih =>
    have hshift : poff + n + k - q.length = 0 + (n - newpbuflen) + k := by omega
    rw [mirror, if_neg hne, if_neg hleft]
    dsimp only
    rw [ih (Nat.zero_le _) (by omega), pbufsIn_cons_of_le (by omega), hshift]

end Data

/-! ## The headers -/

section Headers

variable {original : IpHdr} {ofo fragsize : UInt16}

theorem lwipHtons_and (a b : UInt16) : lwipHtons (a &&& b) = lwipHtons a &&& lwipHtons b := by
  apply UInt16.toBitVec_inj.mp
  ext i hi
  interval_cases i <;> simp [lwipHtons]

theorem toNat_and_ipOffmask (n : UInt16) : (n &&& ipOffmask).toNat = n.toNat % 8192 := by
  rw [UInt16.toNat_and]
  exact Nat.and_two_pow_sub_one_eq_mod n.toNat 13

/-- The field with the offset and the mark. -/
def offsetField (ofo : UInt16) (last : Bool) : UInt16 :=
  if last then ipOffmask &&& ofo else ipOffmask &&& ofo ||| ipMf

theorem fragHdr_offset (original : IpHdr) (ofo fragsize : UInt16) (last : Bool) :
    (fragHdr original ofo fragsize last).offset = lwipHtons (offsetField ofo last) := rfl

theorem ipOffmask_and (hofo : ofo.toNat < 8192) : ipOffmask &&& ofo = ofo := by
  apply UInt16.toNat_inj.mp
  rw [UInt16.and_comm, toNat_and_ipOffmask]
  exact Nat.mod_eq_of_lt hofo

theorem toNat_offsetField (hofo : ofo.toNat < 8192) (last : Bool) :
    (offsetField ofo last).toNat = ofo.toNat + if last then 0 else 8192 := by
  cases last with
  | true =>
    rw [offsetField, if_pos rfl, if_pos rfl, ipOffmask_and hofo, Nat.add_zero]
  | false =>
    have hadd : 2 ^ 13 * 1 + ofo.toNat = 2 ^ 13 * 1 ||| ofo.toNat :=
      Nat.two_pow_add_eq_or_of_lt hofo 1
    have hmf : ipMf.toNat = 2 ^ 13 * 1 := rfl
    rw [offsetField, if_neg Bool.false_ne_true, if_neg Bool.false_ne_true, ipOffmask_and hofo,
      UInt16.toNat_or, hmf, Nat.or_comm, ← hadd, Nat.add_comm]
    rfl

theorem fragOffset_fragHdr (hofo : ofo.toNat < 8192) (last : Bool) :
    (fragHdr original ofo fragsize last).fragOffset = ofo * 8 := by
  have hmask : offsetField ofo last &&& ipOffmask = ofo := by
    apply UInt16.toNat_inj.mp
    rw [toNat_and_ipOffmask, toNat_offsetField hofo]
    split <;> omega
  rw [IpHdr.fragOffset, fragHdr_offset, lwipHtons_lwipHtons, hmask]

theorem moreFragments_fragHdr (hofo : ofo.toNat < 8192) (last : Bool) :
    (fragHdr original ofo fragsize last).moreFragments = !last := by
  have hzero : lwipHtons 0 = 0 := rfl
  have hswap : ∀ n : UInt16, (lwipHtons n != 0) = (n != 0) := by
    intro n
    rw [Bool.eq_iff_iff, bne_iff_ne, bne_iff_ne, ne_eq, ne_eq, not_iff_not]
    constructor
    · intro h
      rw [← lwipHtons_lwipHtons n, h, hzero]
    · rintro rfl
      exact hzero
  have hbit : (offsetField ofo last).toNat.testBit 13 = !last := by
    have hlow : ofo.toNat.testBit 13 = false := Nat.testBit_lt_two_pow hofo
    have hhigh : (ofo.toNat + 2 ^ 13).testBit 13 = true := by
      rw [Nat.add_comm, Nat.testBit_two_pow_add_eq, hlow, Bool.not_false]
    rw [toNat_offsetField hofo]
    cases last with
    | true => exact hlow
    | false => exact hhigh
  have hmf : ipMf.toNat = 2 ^ 13 := rfl
  have hand : (offsetField ofo last &&& ipMf).toNat = (!last).toNat * 2 ^ 13 := by
    rw [UInt16.toNat_and, hmf, Nat.and_two_pow, hbit]
  rw [IpHdr.moreFragments, fragHdr_offset, ← lwipHtons_and, hswap, Bool.eq_iff_iff, bne_iff_ne,
    ne_eq, ← UInt16.toNat_inj, hand]
  cases last <;> simp

theorem dataLen_fragHdr (h : original.vHl = 0x45) (last : Bool) :
    (fragHdr original ofo fragsize last).dataLen = fragsize := by
  have hlen : (fragHdr original ofo fragsize last).len =
      lwipHtons (fragsize + UInt16.ofNat ipHlen) := rfl
  have hhl : (fragHdr original ofo fragsize last).hl.toUInt16 * 4 = UInt16.ofNat ipHlen := by
    have hvHl : (fragHdr original ofo fragsize last).vHl = 0x45 := h
    rw [IpHdr.hl, hvHl]
    rfl
  rw [IpHdr.dataLen, hlen, hhl, lwipHtons_lwipHtons, UInt16.add_sub_cancel]

theorem inetChksum_fragHdr (original : IpHdr) (ofo fragsize : UInt16) (last : Bool) :
    inetChksum (fragHdr original ofo fragsize last).bytes = 0 := by
  have hstored := @inetChksum_stored [] (Nat.zero_le _) { original with
    offset := lwipHtons (offsetField ofo last)
    len := lwipHtons (fragsize + UInt16.ofNat ipHlen) }
  rw [List.append_nil, List.append_nil] at hstored
  exact hstored

end Headers

/-! ## The fragments -/

section Fragments

variable {original : IpHdr} {mtu : Mtu} {room : UInt16 → FragRoom} {pkt : List (List UInt8)}
  {data : List UInt8} {f : IpHdr × Chain} {x y : Nat}

def fragSize (mtu : Mtu) (n y : Nat) : Nat := min (n - y) mtu.full

theorem fragSize_pos {n : Nat} (h : y < n) : 0 < fragSize mtu n y :=
  Nat.lt_min.mpr ⟨Nat.sub_pos_of_lt h, mtu.full_pos⟩

/-- The fragment that begins at `y`. -/
structure FragmentAt (original : IpHdr) (mtu : Mtu) (data : List UInt8) (y : Nat)
    (f : IpHdr × Chain) : Prop where
  aligned : y % mtu.full = 0
  lt : y < data.length
  hdr : f.1 = fragHdr original (UInt16.ofNat (y / 8)) (UInt16.ofNat (fragSize mtu data.length y))
    (data.length - y ≤ mtu.val.toNat - 20)
  bytes : f.2.bytes = slice data y (fragSize mtu data.length y)

theorem FragmentAt.start (h : FragmentAt original mtu data y f)
    (hfits : ipHlen + data.length < 2 ^ 16) : (fragOf f.1 f.2).start.toNat = y := by
  have hlt := h.lt
  have height : y % 8 = 0 := by
    have hdvd : 8 ∣ mtu.full := Nat.dvd_mul_left 8 _
    exact Nat.mod_eq_zero_of_dvd (hdvd.trans (Nat.dvd_of_mod_eq_zero h.aligned))
  have hofo : (UInt16.ofNat (y / 8)).toNat = y / 8 := by
    rw [UInt16.toNat_ofNat']
    exact Nat.mod_eq_of_lt (by omega)
  have hoffset : f.1.fragOffset = UInt16.ofNat (y / 8) * 8 := by
    rw [h.hdr, fragOffset_fragHdr (by omega)]
  have heightNat : (8 : UInt16).toNat = 8 := rfl
  rw [fragOf, hoffset, UInt16.toNat_mul, hofo, heightNat]
  omega

theorem FragmentAt.length (h : FragmentAt original mtu data y f) :
    f.2.bytes.length = fragSize mtu data.length y := by
  have hlt := h.lt
  rw [h.bytes, slice, List.length_take, List.length_drop, fragSize]
  omega

theorem FragmentAt.stop (h : FragmentAt original mtu data y f)
    (hfits : ipHlen + data.length < 2 ^ 16) :
    (fragOf f.1 f.2).piece.stop = y + fragSize mtu data.length y := by
  have hstart : (fragOf f.1 f.2).piece.start = y := h.start hfits
  rw [Piece.stop, hstart]
  exact congrArg (y + ·) h.length

theorem toNat_lwipMin (x y : UInt16) : (lwipMin x y).toNat = min x.toNat y.toNat := by
  rw [lwipMin]
  split
  · next h => exact (Nat.min_eq_left (Nat.le_of_lt (UInt16.lt_iff_toNat_lt.mp h))).symm
  · next h => exact (Nat.min_eq_right (UInt16.le_iff_toNat_le.mp (UInt16.not_lt.mp h))).symm

/-- There is memory for the fragment that begins at `y`, of the `n` bytes behind the header of the
packet. -/
def HasMemory (mtu : Mtu) (room : UInt16 → FragRoom) (pkt : List (List UInt8)) (n y : Nat) : Prop :=
  (room (UInt16.ofNat (y / 8))).takes (pbufsIn pkt (ipHlen + y) (fragSize mtu n y)) = true

/-- No fragment gets more references than there are. -/
theorem HasMemory.le {n : Nat} (h : HasMemory mtu room pkt n y) :
    pbufsIn pkt (ipHlen + y) (fragSize mtu n y) ≤ memNumFragPbuf := by
  rw [HasMemory, FragRoom.takes, Bool.and_eq_true, decide_eq_true_eq] at h
  exact Nat.le_trans h.2 (room _).le

/-- Where the loop is: `left` bytes from `x` on are still to be sent, and `p` and `poff` are
there. -/
structure AtPlace (mtu : Mtu) (pkt : List (List UInt8)) (data : List UInt8) (x : Nat)
    (left ofo : UInt16) (p : List (List UInt8)) (poff : Nat) : Prop where
  count : left.toNat = data.length - x
  le : x ≤ data.length
  aligned : left ≠ 0 → x % mtu.full = 0
  offset : left ≠ 0 → ofo.toNat = x / 8
  within : poff ≤ (p.headD []).length
  rest : p.flatten.drop poff = data.drop x
  pbufs : ∀ k m, pbufsIn p (poff + k) m = pbufsIn pkt (ipHlen + x + k) m

section Turn

variable {left ofo : UInt16} {p : List (List UInt8)} {poff : Nat}

theorem AtPlace.toNat_fragsize (h : AtPlace mtu pkt data x left ofo p poff) :
    (lwipMin left (mtu.nfb * 8)).toNat = fragSize mtu data.length x := by
  rw [toNat_lwipMin, h.count, mtu.toNat_full, fragSize]

theorem AtPlace.pos (h : AtPlace mtu pkt data x left ofo p poff) (hleft : left ≠ 0) :
    x < data.length := by
  have hpos : left.toNat ≠ 0 := fun h => hleft (UInt16.toNat_inj.mp h)
  have := h.count
  omega

theorem AtPlace.done (h : AtPlace mtu pkt data x left ofo p poff) (hleft : left = 0) :
    x = data.length := by
  have hcount := h.count
  have hle := h.le
  rw [hleft, UInt16.toNat_zero] at hcount
  omega

theorem AtPlace.mirrored (h : AtPlace mtu pkt data x left ofo p poff) (hleft : left ≠ 0)
    (hfits : ipHlen + data.length < 2 ^ 16) :
    (fragData p poff (lwipMin left (mtu.nfb * 8))).bytes =
        slice data x (fragSize mtu data.length x) ∧
      AtPlace mtu pkt data (x + fragSize mtu data.length x) (left - lwipMin left (mtu.nfb * 8))
        (ofo + mtu.nfb) (mirror p poff (lwipMin left (mtu.nfb * 8)).toNat).2.1
        (mirror p poff (lwipMin left (mtu.nfb * 8)).toNat).2.2 := by
  have hsize := h.toNat_fragsize
  have hlt := h.pos hleft
  have hle : fragSize mtu data.length x ≤ data.length - x := Nat.min_le_left _ _
  have hpos : 0 < fragSize mtu data.length x := fragSize_pos hlt
  obtain ⟨hflat, hdrop, hpoff⟩ := mirror_spec (n := fragSize mtu data.length x) h.within hpos
    (by rw [h.rest, List.length_drop]; exact hle)
  rw [h.rest] at hflat hdrop
  have hbytes : (fragData p poff (lwipMin left (mtu.nfb * 8))).bytes =
      slice data x (fragSize mtu data.length x) := by
    rw [bytes_fragData, hsize]
    exact hflat
  rw [hsize]
  have hminLe : lwipMin left (mtu.nfb * 8) ≤ left := by
    rw [UInt16.le_iff_toNat_le, hsize, h.count]
    exact hle
  have hleft' : (left - lwipMin left (mtu.nfb * 8)).toNat =
      data.length - (x + fragSize mtu data.length x) := by
    rw [UInt16.toNat_sub_of_le _ _ hminLe, h.count, hsize]
    omega
  -- only the last turn takes less than a full fragment
  have hmore : left - lwipMin left (mtu.nfb * 8) ≠ 0 → fragSize mtu data.length x = mtu.full ∧
      x + mtu.full < data.length := by
    intro hne
    have hne' : (left - lwipMin left (mtu.nfb * 8)).toNat ≠ 0 :=
      fun h => hne (UInt16.toNat_inj.mp h)
    rw [fragSize] at hleft' ⊢
    omega
  refine ⟨hbytes, hleft', by omega, fun hne => ?_, fun hne => ?_, hpoff, ?_, fun k m => ?_⟩
  · rw [(hmore hne).1, Nat.add_mod_right]
    exact h.aligned hleft
  · have hnfb : mtu.full = mtu.nfb.toNat * 8 := rfl
    obtain ⟨hsizeFull, hlast⟩ := hmore hne
    rw [hnfb] at hlast
    rw [UInt16.toNat_add, h.offset hleft, hsizeFull, hnfb, Nat.add_mul_div_right _ _ (by decide)]
    exact Nat.mod_eq_of_lt (by omega)
  · rw [hdrop, List.drop_drop]
  · have hplace : ipHlen + (x + fragSize mtu data.length x) + k =
        ipHlen + x + (fragSize mtu data.length x + k) := by omega
    rw [pbufsIn_mirror h.within hpos, hplace, ← h.pbufs, Nat.add_assoc]

/-- The turn looks for memory for the fragment that begins where it is. -/
theorem AtPlace.hasMemory_iff (h : AtPlace mtu pkt data x left ofo p poff) (hleft : left ≠ 0) :
    HasMemory mtu room pkt data.length x ↔
      (room ofo).takes (mirror p poff (lwipMin left (mtu.nfb * 8)).toNat).1.length = true := by
  have hofo : ofo = UInt16.ofNat (x / 8) := by rw [← h.offset hleft, UInt16.ofNat_toNat]
  rw [HasMemory, h.toNat_fragsize, length_mirror h.within (fragSize_pos (h.pos hleft)), hofo]
  exact Iff.of_eq (congrArg (fun n => FragRoom.takes _ n = true) (h.pbufs 0 _).symm)

theorem AtPlace.fragmentAt (h : AtPlace mtu pkt data x left ofo p poff) (hleft : left ≠ 0)
    (hbytes : (fragData p poff (lwipMin left (mtu.nfb * 8))).bytes =
      slice data x (fragSize mtu data.length x)) :
    FragmentAt original mtu data x
      (fragHdr original ofo (lwipMin left (mtu.nfb * 8)) (left ≤ mtu.val - 20),
        fragData p poff (lwipMin left (mtu.nfb * 8))) where
  aligned := h.aligned hleft
  lt := h.pos hleft
  hdr := by
    have hofo : ofo = UInt16.ofNat (x / 8) := by rw [← h.offset hleft, UInt16.ofNat_toNat]
    have hsize : lwipMin left (mtu.nfb * 8) = UInt16.ofNat (fragSize mtu data.length x) := by
      rw [← h.toNat_fragsize, UInt16.ofNat_toNat]
    have hlast : (left ≤ mtu.val - 20) ↔ data.length - x ≤ mtu.val.toNat - 20 := by
      rw [UInt16.le_iff_toNat_le, h.count, mtu.toNat_room]
    rw [← hsize, ← hofo, decide_eq_decide.mpr hlast]
  bytes := hbytes

end Turn

/-- The loop ends at the end, or where there is no memory for the next fragment. -/
def EndsAt (mtu : Mtu) (room : UInt16 → FragRoom) (pkt : List (List UInt8)) (n : Nat) (err : Int8)
    (stop : Nat) : Prop :=
  (err = errOk ∧ stop = n) ∨
    (err = errMem ∧ stop < n ∧ stop % mtu.full = 0 ∧ ¬HasMemory mtu room pkt n stop)

theorem EndsAt.of_ok {n stop : Nat} (h : EndsAt mtu room pkt n errOk stop) : stop = n := by
  rcases h with ⟨-, hstop⟩ | ⟨hmem, -⟩
  · exact hstop
  · exact absurd hmem (by decide)

/-- The fragments are one behind the other from `x` to where the loop ends. -/
theorem ip4FragLoop_spec (hfits : ipHlen + data.length < 2 ^ 16) {turns : Nat} {left ofo : UInt16}
    {p : List (List UInt8)} {poff : Nat} (h : AtPlace mtu pkt data x left ofo p poff)
    (hturns : left.toNat ≤ turns) :
    let out := ip4FragLoop original mtu room turns left ofo p poff
    (∀ f ∈ out.2, ∃ y, FragmentAt original mtu data y f ∧ HasMemory mtu room pkt data.length y) ∧
      ∃ stop, Spans x stop (out.2.map fun f => (fragOf f.1 f.2).piece) ∧
        EndsAt mtu room pkt data.length out.1 stop := by
  induction turns generalizing left ofo p poff x with
  | zero =>
    have hdone := h.done (UInt16.toNat_inj.mp (Nat.le_zero.mp hturns))
    exact ⟨fun f hf => absurd hf List.not_mem_nil, x, rfl, .inl ⟨rfl, hdone⟩⟩
  | succ turns ih =>
    rw [ip4FragLoop]
    split
    · next hzero =>
      exact ⟨fun f hf => absurd hf List.not_mem_nil, x, rfl, .inl ⟨rfl, h.done hzero⟩⟩
    · next hleft =>
      have hroom : HasMemory mtu room pkt data.length x ↔ _ := h.hasMemory_iff hleft
      dsimp only
      split
      · next hfull =>
        -- nothing is sent from here on
        rw [Bool.not_eq_true', ← Bool.not_eq_true, ← hroom] at hfull
        exact ⟨fun f hf => absurd hf List.not_mem_nil, x, rfl,
          .inr ⟨rfl, h.pos hleft, h.aligned hleft, hfull⟩⟩
      · next htakes =>
        rw [Bool.not_eq_true', Bool.not_eq_false, ← hroom] at htakes
        obtain ⟨hbytes, hnext⟩ := h.mirrored hleft hfits
        have hfirst : FragmentAt original mtu data x _ := h.fragmentAt hleft hbytes
        have hless : (left - lwipMin left (mtu.nfb * 8)).toNat ≤ turns := by
          have hcount := hnext.count
          have hbefore := h.count
          have hpos : 0 < fragSize mtu data.length x := fragSize_pos hfirst.lt
          omega
        obtain ⟨hall, stop, hspans, hends⟩ := ih hnext hless
        refine ⟨fun f hf => ?_, stop, ⟨hfirst.start hfits, ?_⟩, hends⟩
        · rcases List.mem_cons.mp hf with rfl | hf
          · exact ⟨x, hfirst, htakes⟩
          · exact hall f hf
        · dsimp only
          rw [hfirst.stop hfits]
          exact hspans

/-! ### What a receiver takes them for -/

/-- A packet that is cut where the fragments are full. -/
def cutAt (mtu : Mtu) (data : List UInt8) : Cut UInt8 where
  whole := data
  mark m := m ≤ data.length ∧ (m % mtu.full = 0 ∨ m = data.length)
  zero := ⟨Nat.zero_le _, .inl (Nat.zero_mod _)⟩
  last := ⟨Nat.le_refl _, .inr rfl⟩
  le _ h := h.1

theorem FragmentAt.of (h : FragmentAt original mtu data y f)
    (hfits : ipHlen + data.length < 2 ^ 16) : (fragOf f.1 f.2).piece.Of (cutAt mtu data) := by
  have hstart : (fragOf f.1 f.2).piece.start = y := h.start hfits
  have hstop := h.stop hfits
  have hlt := h.lt
  have hsize : fragSize mtu data.length y ≤ data.length - y := Nat.min_le_left _ _
  refine ⟨?_, ?_, ?_, ?_, ?_⟩
  · have hdata : (fragOf f.1 f.2).piece.data = f.2.bytes := rfl
    rw [hstart, hdata, h.length]
    exact h.bytes
  · rw [hstart]
    exact ⟨Nat.le_of_lt hlt, .inl h.aligned⟩
  · rw [hstop]
    refine ⟨(show _ ≤ data.length by omega), ?_⟩
    rcases Nat.le_total (data.length - y) mtu.full with hle | hle
    · right
      rw [fragSize, Nat.min_eq_left hle]
      omega
    · left
      rw [fragSize, Nat.min_eq_right hle, Nat.add_mod_right]
      exact h.aligned
  · rw [hstart, hstop]
    have : 0 < fragSize mtu data.length y := fragSize_pos hlt
    omega
  · rintro m ⟨hle, hmark⟩
    rw [hstart, hstop]
    have hfull : fragSize mtu data.length y ≤ mtu.full := Nat.min_le_right _ _
    rcases hmark with hmark | rfl
    · rcases Nat.lt_or_ge y m with hlt' | hge
      · right
        have hdvd : mtu.full ∣ m - y :=
          Nat.dvd_sub (Nat.dvd_of_mod_eq_zero hmark) (Nat.dvd_of_mod_eq_zero h.aligned)
        have := Nat.le_of_dvd (by omega) hdvd
        omega
      · exact .inl hge
    · right
      omega

/-- What has been sent when `data` goes out in fragments. -/
def sentIn (mtu : Mtu) (data : List UInt8) (proto : UInt8) (hfits : ipHlen + data.length < 2 ^ 16) :
    SentPacket := ⟨cutAt mtu data, proto, hfits⟩

/-- A fragment is what it is taken for unless it is marked as the last and is not. -/
theorem FragmentAt.genuine_iff (h : FragmentAt original mtu data y f)
    (hfits : ipHlen + data.length < 2 ^ 16) (hvHl : original.vHl = 0x45) :
    Genuine (sentIn mtu data original.proto hfits) f.1 f.2 ↔
      (data.length - y ≤ mtu.val.toNat - 20 → data.length - y ≤ mtu.full) := by
  have hlt := h.lt
  have hsize : fragSize mtu data.length y ≤ data.length - y := Nat.min_le_left _ _
  have hpstop := h.stop hfits
  have hstop : (fragOf f.1 f.2).stop.toNat = y + fragSize mtu data.length y := by
    have hstart := h.start hfits
    have hdataLen : f.1.dataLen.toNat = fragSize mtu data.length y := by
      rw [h.hdr, dataLen_fragHdr hvHl, UInt16.toNat_ofNat']
      exact Nat.mod_eq_of_lt (by omega)
    have hsum : (fragOf f.1 f.2).stop = (fragOf f.1 f.2).start + f.1.dataLen := rfl
    rw [hsum, UInt16.toNat_add, hstart, hdataLen]
    exact Nat.mod_eq_of_lt (by omega)
  have hmore : f.1.moreFragments = true ↔ ¬data.length - y ≤ mtu.val.toNat - 20 := by
    rw [h.hdr, moreFragments_fragHdr (by rw [UInt16.toNat_ofNat']; omega), Bool.not_eq_true',
      decide_eq_false_iff_not]
  have hend : (fragOf f.1 f.2).stop.toNat ≠ data.length ↔ ¬data.length - y ≤ mtu.full := by
    rw [hstop, fragSize]
    omega
  have hwhole : (sentIn mtu data original.proto hfits).cut.whole.length = data.length := rfl
  have hle := mtu.full_le
  constructor
  · intro hgen hlast
    have hiff := hgen.more
    rw [hwhole, hmore, hend] at hiff
    exact not_not.mp fun hfull => hiff.mpr hfull hlast
  · intro hlast
    refine ⟨?_, ?_, ⟨h.of hfits, ?_⟩, ?_⟩
    · rw [h.hdr]
      exact hvHl
    · rw [h.hdr]
      rfl
    · rw [hstop, hpstop]
    · rw [hwhole, hmore, hend, not_iff_not]
      exact ⟨hlast, fun hfull => Nat.le_trans hfull hle⟩

/-- No fragment but the last is marked as the last: a packet of one fragment, or one that is cut
into full ones, or one with a rest that would not have fitted behind a full one. -/
def Mtu.Clean (mtu : Mtu) (n : Nat) : Prop :=
  n ≤ mtu.full ∨ n % mtu.full = 0 ∨ (mtu.val.toNat - 20) % 8 < n % mtu.full

theorem Mtu.clean_iff (mtu : Mtu) (n : Nat) : mtu.Clean n ↔
    ∀ y, y % mtu.full = 0 → y < n → n - y ≤ mtu.val.toNat - 20 → n - y ≤ mtu.full := by
  have hfull := mtu.full_eq
  have hpos := mtu.full_pos
  have hroom : mtu.val.toNat - 20 = mtu.full + (mtu.val.toNat - 20) % 8 := by omega
  have height : 8 ≤ mtu.full := by omega
  constructor
  · intro hclean y hy hlt hlast
    by_contra hmore
    -- what is left behind the next full fragment
    obtain ⟨r, hr⟩ : ∃ r, n = r + (y + mtu.full) := ⟨n - (y + mtu.full), by omega⟩
    have hmod : n % mtu.full = r := by
      rw [hr, Nat.add_mod, Nat.add_mod_right, hy, Nat.add_zero, Nat.mod_mod]
      exact Nat.mod_eq_of_lt (by omega)
    rcases hclean with h | h | h <;> omega
  · intro hall
    by_contra hclean
    rw [Mtu.Clean, not_or, not_or] at hclean
    obtain ⟨hbig, hrest, hsmall⟩ := hclean
    have hdiv := Nat.div_add_mod n mtu.full
    have hq : 1 ≤ n / mtu.full := (Nat.one_le_div_iff hpos).mpr (by omega)
    have hmul : mtu.full * (n / mtu.full - 1) + mtu.full = mtu.full * (n / mtu.full) := by
      rw [← Nat.mul_succ]
      congr 1
      omega
    have hlast := hall (mtu.full * (n / mtu.full - 1)) (Nat.mul_mod_right _ _) (by omega) (by omega)
    omega

theorem take_headD {p : List (List UInt8)} {n : Nat} (h : n ≤ (p.headD []).length) :
    (p.headD []).take n = p.flatten.take n := by
  cases p with
  | nil => rfl
  | cons first rest => exact (List.take_append_of_le_length h).symm

/-- The header is read from the first segment. -/
theorem ipHdr_headD {p : List (List UInt8)} (h : ipHlen ≤ (p.headD []).length) :
    ipHdr (p.headD []) = ipHdr p.flatten := by
  rw [← ipHdr_take, take_headD h, ipHdr_take]

/-- What the loop starts with. -/
theorem atPlace_zero {p : List (List UInt8)} {h : IpHdr} (hfits : ipHlen + data.length < 2 ^ 16)
    (hfirst : ipHlen ≤ (p.headD []).length) (hp : p.flatten = h.bytes ++ data) :
    AtPlace mtu p data 0 (UInt16.ofNat p.flatten.length - UInt16.ofNat ipHlen) 0 p ipHlen := by
  have hlen : p.flatten.length = ipHlen + data.length := by
    rw [hp, List.length_append, h.length_bytes]
  have hcount : UInt16.ofNat p.flatten.length - UInt16.ofNat ipHlen = UInt16.ofNat data.length := by
    rw [hlen, UInt16.ofNat_add, UInt16.add_comm, UInt16.add_sub_cancel]
  refine ⟨?_, Nat.zero_le _, fun _ => Nat.zero_mod _, fun _ => ?_, hfirst, ?_, fun _ _ => rfl⟩
  · rw [hcount, UInt16.toNat_ofNat', Nat.sub_zero]
    exact Nat.mod_eq_of_lt (by omega)
  · rw [Nat.zero_div]
    rfl
  · rw [hp, ← h.length_bytes, List.drop_left, List.drop_zero]

theorem ip4Frag_spec {p : List (List UInt8)} {h : IpHdr} (mtu : Mtu) (room : UInt16 → FragRoom)
    (hfits : ipHlen + data.length < 2 ^ 16) (hfirst : ipHlen ≤ (p.headD []).length)
    (hp : p.flatten = h.bytes ++ data) (hvHl : h.vHl = 0x45) (hoffset : h.offset = 0) :
    (∀ f ∈ (ip4Frag mtu room p).2,
        ∃ y, FragmentAt h mtu data y f ∧ HasMemory mtu room p data.length y) ∧
      ∃ stop, Spans 0 stop ((ip4Frag mtu room p).2.map fun f => (fragOf f.1 f.2).piece) ∧
        EndsAt mtu room p data.length (ip4Frag mtu room p).1 stop := by
  have hhl : ¬h.hl.toNat * 4 ≠ ipHlen := by
    rw [IpHdr.hl, hvHl]
    decide
  have htmp : lwipHtons h.offset = 0 := by
    rw [hoffset]
    rfl
  unfold ip4Frag
  rw [ipHdr_headD hfirst, hp, ipHdr_bytes, ← hp]
  dsimp only
  rw [if_neg hhl, htmp, if_neg (by decide)]
  exact ip4FragLoop_spec hfits (atPlace_zero hfits hfirst hp) (Nat.le_refl _)

/-! ### The last two -/

section LastTwo

variable {n z : Nat} {fs : List (IpHdr × Chain)}

/-- Two beginnings of fragments that are less than a full one apart are the same. -/
theorem aligned_unique (hx : x % mtu.full = 0) (hy : y % mtu.full = 0) (hxy : x < y + mtu.full)
    (hyx : y < x + mtu.full) : x = y := by
  have hdvd {a b : Nat} (ha : a % mtu.full = 0) (hb : b % mtu.full = 0) (hlt : a < b) :
      a + mtu.full ≤ b := by
    have hsub := Nat.dvd_sub (Nat.dvd_of_mod_eq_zero hb) (Nat.dvd_of_mod_eq_zero ha)
    have := Nat.le_of_dvd (by omega) hsub
    omega
  rcases Nat.lt_trichotomy x y with hlt | heq | hgt
  · exact absurd (hdvd hx hy hlt) (Nat.not_le.mpr hyx)
  · exact heq
  · exact absurd (hdvd hy hx hgt) (Nat.not_le.mpr hxy)

/-- Where a cut is not clean, there is a fragment that is marked as the last and is not. -/
theorem Mtu.early_of_not_clean (h : ¬mtu.Clean n) :
    ∃ z, z % mtu.full = 0 ∧ z + mtu.full < n ∧ n - z ≤ mtu.val.toNat - 20 := by
  rw [mtu.clean_iff] at h
  by_contra hno
  refine h fun z hz hlt hlast => ?_
  by_contra hmore
  exact hno ⟨z, hz, by omega, hlast⟩

/-- It is the only one. -/
theorem Mtu.early_unique (hz : z % mtu.full = 0) (hy : y % mtu.full = 0) (hzn : z + mtu.full < n)
    (hyn : y + mtu.full < n) (hzlast : n - z ≤ mtu.val.toNat - 20)
    (hylast : n - y ≤ mtu.val.toNat - 20) : y = z := by
  have hfull := mtu.full_eq
  have hle := mtu.le
  exact aligned_unique hy hz (by omega) (by omega)

/-- The last of the fragments up to `z`. -/
theorem last_fragment (hfits : ipHlen + data.length < 2 ^ 16)
    (hall : ∀ f ∈ fs, ∃ y, FragmentAt original mtu data y f)
    (hspans : Spans 0 z (fs.map fun f => (fragOf f.1 f.2).piece)) (hz : 0 < z) :
    ∃ init b y, fs = init ++ [b] ∧ FragmentAt original mtu data y b ∧
      Spans 0 y (init.map fun f => (fragOf f.1 f.2).piece) ∧
      y + fragSize mtu data.length y = z := by
  rcases List.eq_nil_or_concat fs with rfl | ⟨init, b, rfl⟩
  · exact absurd hspans (Nat.ne_of_lt hz)
  · obtain ⟨y, hb⟩ := hall b (by simp)
    rw [List.concat_eq_append] at hspans ⊢
    rw [List.map_append, Pieces.spans_append] at hspans
    obtain ⟨y', hinit, hstart, hstop⟩ := hspans
    obtain rfl : y = y' := (hb.start hfits).symm.trans hstart
    exact ⟨init, b, y, rfl, hb, hinit, (hb.stop hfits).symm.trans hstop⟩

end LastTwo

/-! ### A packet in fragments -/

/-- What `ip4_frag` returns for a packet, what it has sent, and the place to which it has come. -/
structure Fragmented (mtu : Mtu) (room : UInt16 → FragRoom) (p : List (List UInt8)) (h : IpHdr)
    (data : List UInt8) (hfits : ipHlen + data.length < 2 ^ 16) (out : Int8 × List (IpHdr × Chain))
    (stop : Nat) : Prop where
  spans : Spans 0 stop (out.2.map fun f => (fragOf f.1 f.2).piece)
  bytes : out.2.flatMap (·.2.bytes) = data.take stop
  fragments : ∀ f ∈ out.2, f.1.key = h.key ∧ ipHlen + f.2.bytes.length ≤ mtu.val.toNat ∧
    inetChksum f.1.bytes = 0
  ends : (out.1 = errOk ∧ stop = data.length) ∨ (out.1 = errMem ∧ stop < data.length)
  /-- Every fragment has to find memory. -/
  returns : out.1 = errOk ↔
    ∀ y, y % mtu.full = 0 → y < data.length → HasMemory mtu room p data.length y
  few : out.1 = errOk → ∀ y, y % mtu.full = 0 → y < data.length →
    pbufsIn p (ipHlen + y) (fragSize mtu data.length y) ≤ memNumFragPbuf
  genuine : out.1 = errOk →
    ((∀ f ∈ out.2, Genuine (sentIn mtu data h.proto hfits) f.1 f.2) ↔ mtu.Clean data.length)
  /-- Otherwise the last but one is marked as the last. -/
  early : out.1 = errOk → ¬mtu.Clean data.length → ∃ pre a b, out.2 = pre ++ [a, b] ∧
    a.1.moreFragments = false ∧ ∀ f ∈ pre ++ [b], Genuine (sentIn mtu data h.proto hfits) f.1 f.2

section Packet

variable {h : IpHdr} {fs : List (IpHdr × Chain)}

theorem of_cutAt (hfits : ipHlen + data.length < 2 ^ 16)
    (hall : ∀ f ∈ fs, ∃ y, FragmentAt h mtu data y f) :
    ∀ q ∈ fs.map fun f => (fragOf f.1 f.2).piece, q.Of (cutAt mtu data) := by
  intro q hq
  obtain ⟨f, hf, rfl⟩ := List.mem_map.mp hq
  obtain ⟨y, hy⟩ := hall f hf
  exact hy.of hfits

/-- A fragment begins wherever the one before is full. -/
theorem fragment_from (hfits : ipHlen + data.length < 2 ^ 16)
    (hall : ∀ f ∈ fs, ∃ y, FragmentAt h mtu data y f)
    (hspans : Spans 0 data.length (fs.map fun f => (fragOf f.1 f.2).piece)) (hy : y % mtu.full = 0)
    (hlt : y < data.length) : ∃ f ∈ fs, FragmentAt h mtu data y f := by
  obtain ⟨q, hq, hstart⟩ := hspans.covers (of_cutAt hfits hall)
    (show (cutAt mtu data).mark y from ⟨Nat.le_of_lt hlt, .inl hy⟩) (Nat.zero_le y) hlt
  obtain ⟨f, hf, rfl⟩ := List.mem_map.mp hq
  obtain ⟨z, hz⟩ := hall f hf
  obtain rfl : z = y := (hz.start hfits).symm.trans hstart
  exact ⟨f, hf, hz⟩

theorem genuine_iff_clean (hfits : ipHlen + data.length < 2 ^ 16) (hvHl : h.vHl = 0x45)
    (hall : ∀ f ∈ fs, ∃ y, FragmentAt h mtu data y f)
    (hspans : Spans 0 data.length (fs.map fun f => (fragOf f.1 f.2).piece)) :
    (∀ f ∈ fs, Genuine (sentIn mtu data h.proto hfits) f.1 f.2) ↔ mtu.Clean data.length := by
  rw [mtu.clean_iff]
  constructor
  · intro hgen y hy hlt
    obtain ⟨f, hf, hfy⟩ := fragment_from hfits hall hspans hy hlt
    exact (hfy.genuine_iff hfits hvHl).mp (hgen f hf)
  · intro hclean f hf
    obtain ⟨y, hy⟩ := hall f hf
    exact (hy.genuine_iff hfits hvHl).mpr (hclean y hy.aligned hy.lt)

/-- Where the cut is not clean, only the last but one is not what it is taken for. -/
theorem early_mark (hfits : ipHlen + data.length < 2 ^ 16) (hvHl : h.vHl = 0x45)
    (hall : ∀ f ∈ fs, ∃ y, FragmentAt h mtu data y f)
    (hspans : Spans 0 data.length (fs.map fun f => (fragOf f.1 f.2).piece))
    (hclean : ¬mtu.Clean data.length) :
    ∃ pre a b, fs = pre ++ [a, b] ∧ a.1.moreFragments = false ∧
      ∀ f ∈ pre ++ [b], Genuine (sentIn mtu data h.proto hfits) f.1 f.2 := by
  obtain ⟨z, hz, hzlt, hzlast⟩ := mtu.early_of_not_clean hclean
  have hfull := mtu.full_eq
  have hle := mtu.le
  -- the last begins behind `z`, and the one before it at `z`
  obtain ⟨init, b, y, rfl, hb, hinit, hy⟩ := last_fragment hfits hall hspans (by omega)
  have hylt := hb.lt
  have hysize : data.length - y ≤ mtu.full := by
    rw [fragSize] at hy
    omega
  have hyz : y = z + mtu.full := aligned_unique hb.aligned (by rw [Nat.add_mod_right]; exact hz)
    (by omega) (by omega)
  have hallInit : ∀ f ∈ init, ∃ y, FragmentAt h mtu data y f :=
    fun f hf => hall f (List.mem_append_left _ hf)
  obtain ⟨pre, a, w, rfl, ha, hpre, hw⟩ := last_fragment hfits hallInit hinit (by omega)
  have hwz : w = z := by
    rw [fragSize] at hw
    omega
  subst hwz
  refine ⟨pre, a, b, by rw [List.append_assoc]; rfl, ?_, fun f hf => ?_⟩
  · have hfits' : (UInt16.ofNat (w / 8)).toNat < 8192 := by
      rw [UInt16.toNat_ofNat']
      omega
    rw [ha.hdr, moreFragments_fragHdr hfits', decide_eq_true hzlast]
    rfl
  · rcases List.mem_append.mp hf with hf | hf
    · obtain ⟨v, hv⟩ := hallInit f (List.mem_append_left _ hf)
      refine (hv.genuine_iff hfits hvHl).mpr fun hlast => ?_
      by_contra hmore
      have hvw := Mtu.early_unique hz hv.aligned hzlt (by omega) hzlast hlast
      have hbefore := hpre.start_lt
        (of_cutAt hfits fun f hf => hallInit f (List.mem_append_left _ hf)) _
        (List.mem_map_of_mem hf)
      have hstart : (fragOf f.1 f.2).piece.start = v := hv.start hfits
      omega
    · obtain rfl := List.mem_singleton.mp hf
      exact (hb.genuine_iff hfits hvHl).mpr fun _ => hysize

end Packet

/-- The fragments are the packet from its beginning to where the memory ends, fit the link and pass
the check of the receiver. Of a whole packet he takes every one for what it is if and only if none
but the last is marked as the last. -/
theorem fragments_iff {p : List (List UInt8)} {h : IpHdr} (mtu : Mtu) (room : UInt16 → FragRoom)
    (hfits : ipHlen + data.length < 2 ^ 16) (hfirst : ipHlen ≤ (p.headD []).length)
    (hp : p.flatten = h.bytes ++ data) (hvHl : h.vHl = 0x45) (hoffset : h.offset = 0) :
    ∃ stop, Fragmented mtu room p h data hfits (ip4Frag mtu room p) stop := by
  obtain ⟨hall, stop, hspans, hends⟩ := ip4Frag_spec mtu room hfits hfirst hp hvHl hoffset
  have hat : ∀ f ∈ (ip4Frag mtu room p).2, ∃ y, FragmentAt h mtu data y f :=
    fun f hf => (hall f hf).imp fun _ hy => hy.1
  have hstop : (ip4Frag mtu room p).1 = errOk → stop = data.length := by
    intro hok
    rw [hok] at hends
    exact hends.of_ok
  have hmemory : (ip4Frag mtu room p).1 = errOk → ∀ y, y % mtu.full = 0 → y < data.length →
      HasMemory mtu room p data.length y := by
    intro hok y hy hlt
    obtain ⟨f, hf, hfy⟩ := fragment_from hfits hat (hstop hok ▸ hspans) hy hlt
    obtain ⟨z, hz, hroom⟩ := hall f hf
    obtain rfl : z = y := (hz.start hfits).symm.trans (hfy.start hfits)
    exact hroom
  refine ⟨stop, hspans, ?_, fun f hf => ?_, ?_, ⟨hmemory, fun hroom => ?_⟩,
    fun hok y hy hlt => (hmemory hok y hy hlt).le,
    fun hok => genuine_iff_clean hfits hvHl hat (hstop hok ▸ hspans),
    fun hok => early_mark hfits hvHl hat (hstop hok ▸ hspans)⟩
  · have hdata := (hspans.flatMap (of_cutAt hfits hat)).2
    rw [List.flatMap_map] at hdata
    exact hdata
  · obtain ⟨y, hy⟩ := hat f hf
    have hfull := mtu.full_le
    have hle := mtu.le
    have hsize : fragSize mtu data.length y ≤ mtu.full := Nat.min_le_right _ _
    refine ⟨?_, ?_, ?_⟩
    · rw [hy.hdr]
      rfl
    · rw [hy.length, ipHlen]
      omega
    · rw [hy.hdr]
      exact inetChksum_fragHdr _ _ _ _
  · exact hends.imp id fun hmem => ⟨hmem.1, hmem.2.1⟩
  · rcases hends with ⟨hok, -⟩ | ⟨-, hlt, haligned, hno⟩
    · exact hok
    · exact absurd (hroom stop haligned hlt) hno

/-- Nothing else is being sent in fragments. -/
def idleRoom : UInt16 → FragRoom := fun _ => ⟨true, memNumFragPbuf, Nat.le_refl _⟩

/-- A link on which a full fragment leaves three bytes unused. -/
def narrow : Mtu := ⟨31, by decide⟩

def eighteen : List UInt8 := (List.range 18).map UInt8.ofNat

def shortHdr : IpHdr :=
  sentIpHdr 1 38 (ip4Addr 192 168 0 112) (ip4Addr 192 168 0 10) 64 0 ipProtoUdp []

/-- Two bytes are left behind two full fragments, the second of which is marked as the last. -/
theorem eighteen_fragments : ¬narrow.Clean 18 ∧
    (ip4Frag narrow idleRoom [shortHdr.bytes ++ eighteen.take 3, eighteen.drop 3]).1 = errOk ∧
    ∃ stop, Fragmented narrow idleRoom [shortHdr.bytes ++ eighteen.take 3, eighteen.drop 3] shortHdr
      eighteen (by decide)
      (ip4Frag narrow idleRoom [shortHdr.bytes ++ eighteen.take 3, eighteen.drop 3]) stop :=
  ⟨by rw [Mtu.Clean]; decide, by decide +kernel,
    fragments_iff narrow idleRoom (by decide) (by decide) (by decide) (by decide) (by decide)⟩

/-- Sixteen pbufs are too many for one fragment. -/
example : (ip4Frag ⟨1500, by decide⟩ idleRoom (shortHdr.bytes :: List.replicate 16 [0])).1 =
    errMem := by
  decide +kernel

end Fragments

end PodFirmware
