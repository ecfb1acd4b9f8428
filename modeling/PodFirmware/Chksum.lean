import PodFirmware.Frame
import PodFirmware.Lib.OnesComplement

/-!
# PodFirmware.Chksum

`inet_chksum.c`: the checksums of IP and UDP, over a buffer or over the segments of a chain of
pbufs. A segment of odd length moves what follows it by one byte, so the accumulator's bytes are
exchanged after it, and once more in the end when there was an odd number of such segments.

* `lwipStandardChksum`, `inetChksum`, `inetChksumPseudo`: the functions.
* `toNat_lwipStandardChksum`: it is the ones' complement sum of the 16-bit words.
* `inetChksumPseudo_segments`: over a chain, the sum of its bytes however they lie in the segments.
-/

namespace PodFirmware

open Bytes (littleEndian ofLittleEndian)
open OnesComplement (rep)

/-- `FOLD_U32T`. -/
def foldU32t (u : UInt32) : UInt32 := (u >>> 16) + (u &&& 0xffff)

/-- `SWAP_BYTES_IN_WORD`. -/
def swapBytesInWord (w : UInt32) : UInt32 := (w &&& 0xff) <<< 8 ||| (w &&& 0xff00) >>> 8

/-- The loop of `lwip_standard_chksum`, and the octet that remains. -/
def accumulate (acc : UInt32) : List UInt8 → UInt32
  | [] => acc
  | [octet] => acc + (octet.toUInt16 <<< 8).toUInt32
  | octet :: next :: data =>
    accumulate (acc + (octet.toUInt16 <<< 8 ||| next.toUInt16).toUInt32) data

def lwipStandardChksum (data : List UInt8) : UInt16 :=
  let acc := accumulate 0 data
  let acc := (acc >>> 16) + (acc &&& 0x0000ffff)
  let acc := if acc &&& 0xffff0000 ≠ 0 then (acc >>> 16) + (acc &&& 0x0000ffff) else acc
  lwipHtons acc.toUInt16

def inetChksum (data : List UInt8) : UInt16 := ~~~lwipStandardChksum data

/-- The body of the loop over the chain, with `acc` and `swapped`. -/
def addSegment (s : UInt32 × Bool) (q : List UInt8) : UInt32 × Bool :=
  let acc := foldU32t (s.1 + (lwipStandardChksum q).toUInt32)
  if q.length % 2 ≠ 0 then (swapBytesInWord acc, !s.2) else (acc, s.2)

def addChain (acc : UInt32) (p : List (List UInt8)) : UInt32 :=
  let (acc, swapped) := p.foldl addSegment (acc, false)
  if swapped then swapBytesInWord acc else acc

def inetCksumPseudoBase (p : List (List UInt8)) (proto : UInt8) (protoLen : UInt16)
    (acc : UInt32) : UInt16 :=
  let acc := addChain acc p
  let acc := acc + (lwipHtons proto.toUInt16).toUInt32
  let acc := acc + (lwipHtons protoLen).toUInt32
  let acc := foldU32t (foldU32t acc)
  (~~~(acc &&& 0xffff)).toUInt16

/-- The addresses are in network order, as they lie in memory. -/
def inetChksumPseudo (p : List (List UInt8)) (proto : UInt8) (protoLen : UInt16)
    (src dest : UInt32) : UInt16 :=
  let acc := src &&& 0xffff
  let acc := acc + (src >>> 16 &&& 0xffff)
  let acc := acc + (dest &&& 0xffff)
  let acc := acc + (dest >>> 16 &&& 0xffff)
  let acc := foldU32t (foldU32t acc)
  inetCksumPseudoBase p proto protoLen acc

/-! ## Words -/

section Words

theorem toNat_and_ffff (u : UInt32) : (u &&& 0xffff).toNat = u.toNat % 65536 := by
  rw [UInt32.toNat_and]
  exact Nat.and_two_pow_sub_one_eq_mod u.toNat 16

theorem toNat_shiftRight_16 (u : UInt32) : (u >>> 16).toNat = u.toNat / 65536 := by
  rw [UInt32.toNat_shiftRight]
  exact Nat.shiftRight_eq_div_pow u.toNat 16

theorem toNat_foldU32t (u : UInt32) :
    (foldU32t u).toNat = u.toNat / 65536 + u.toNat % 65536 := by
  have := u.toNat_lt
  rw [foldU32t, UInt32.toNat_add, toNat_and_ffff, toNat_shiftRight_16]
  omega

theorem rep_foldU32t (u : UInt32) : rep 65535 (foldU32t u).toNat = rep 65535 u.toNat := by
  rw [toNat_foldU32t]
  exact OnesComplement.rep_fold 65535 u.toNat

/-- Two folds are always enough. -/
theorem toNat_foldU32t_twice (u : UInt32) :
    (foldU32t (foldU32t u)).toNat = rep 65535 u.toNat := by
  have hfirst := toNat_foldU32t u
  have := u.toNat_lt
  rw [← rep_foldU32t u, toNat_foldU32t (foldU32t u)]
  exact OnesComplement.fold_eq_rep (by omega)

theorem toNat_lt_of_and_eq_zero {u : UInt32} (h : u &&& 0xffff0000 = 0) : u.toNat < 65536 := by
  have hsplit : u &&& 0xffff0000 ||| u &&& 0xffff = u := by
    apply UInt32.toBitVec_inj.mp
    ext i hi
    interval_cases i <;> simp
  rw [h, UInt32.zero_or] at hsplit
  rw [← hsplit, toNat_and_ffff]
  omega

theorem toNat_lwipHtons (n : UInt16) :
    (lwipHtons n).toNat = 256 * (n.toNat % 256) + n.toNat / 256 := by
  have hnet : ofLittleEndian (Bytes.bigEndian 2 n.toNat) =
      256 * (n.toNat % 256) + n.toNat / 256 := by
    have := n.toNat_lt
    simp [Bytes.bigEndian, littleEndian, ofLittleEndian]
    omega
  have hval := congrArg ofLittleEndian (littleEndian_lwipHtons n)
  have := (lwipHtons n).toNat_lt
  rw [Bytes.ofLittleEndian_littleEndian, hnet] at hval
  omega

theorem lwipHtons_lwipHtons (n : UInt16) : lwipHtons (lwipHtons n) = n := by
  have := n.toNat_lt
  apply UInt16.toNat_inj.mp
  rw [toNat_lwipHtons, toNat_lwipHtons]
  omega

theorem toNat_shiftLeft_8 {x : UInt32} (h : x.toNat < 256) : (x <<< 8).toNat = 256 * x.toNat := by
  have height : UInt32.toNat 8 % 32 = 8 := rfl
  rw [UInt32.toNat_shiftLeft, Nat.shiftLeft_eq, height]
  omega

theorem shiftRight_and_ff00 (w : UInt32) : (w &&& 0xff00) >>> 8 = (w >>> 8) &&& 0xff := by
  apply UInt32.toBitVec_inj.mp
  ext i hi
  interval_cases i <;> simp

theorem toNat_swapBytesInWord_eq (w : UInt32) :
    (swapBytesInWord w).toNat = 256 * (w.toNat % 256) + w.toNat / 256 % 256 := by
  have hmask : ∀ x : UInt32, (x &&& 0xff).toNat = x.toNat % 256 := by
    intro x
    rw [UInt32.toNat_and]
    exact Nat.and_two_pow_sub_one_eq_mod x.toNat 8
  have hlow : (w &&& 0xff).toNat < 256 := by
    rw [hmask]
    omega
  have hhigh : (w >>> 8).toNat = w.toNat / 256 := by
    rw [UInt32.toNat_shiftRight]
    exact Nat.shiftRight_eq_div_pow w.toNat 8
  have hadd := Nat.two_pow_add_eq_or_of_lt (i := 8) (b := w.toNat / 256 % 256) (by omega)
    (w.toNat % 256)
  rw [swapBytesInWord, shiftRight_and_ff00, UInt32.toNat_or, toNat_shiftLeft_8 hlow, hmask, hmask,
    hhigh]
  exact hadd.symm

/-- Exchanging the bytes of a word moves it by one byte. -/
theorem toNat_lwipHtons_eq_rep (n : UInt16) : (lwipHtons n).toNat = rep 65535 (256 * n.toNat) := by
  have := n.toNat_lt
  rw [toNat_lwipHtons, OnesComplement.swap_eq_rep (by omega)]

theorem toNat_swapBytesInWord {w : UInt32} (h : w.toNat ≤ 65535) :
    (swapBytesInWord w).toNat = rep 65535 (256 * w.toNat) := by
  rw [toNat_swapBytesInWord_eq, ← OnesComplement.swap_eq_rep h]
  omega

theorem toNat_octet (octet : UInt8) : (octet.toUInt16 <<< 8).toNat = 256 * octet.toNat := by
  have height : UInt16.toNat 8 % 16 = 8 := rfl
  have := octet.toNat_lt
  rw [UInt16.toNat_shiftLeft, UInt8.toNat_toUInt16, Nat.shiftLeft_eq, height]
  omega

theorem toNat_word (octet next : UInt8) :
    (octet.toUInt16 <<< 8 ||| next.toUInt16).toNat = 256 * octet.toNat + next.toNat := by
  have hadd := Nat.two_pow_add_eq_or_of_lt (i := 8) next.toNat_lt octet.toNat
  rw [UInt16.toNat_or, toNat_octet, UInt8.toNat_toUInt16]
  exact hadd.symm

end Words

/-! ## Buffers -/

/-- What the words of a buffer add up to, first byte high. -/
def total : List UInt8 → Nat
  | [] => 0
  | [octet] => 256 * octet.toNat
  | octet :: next :: data => 256 * octet.toNat + next.toNat + total data

theorem total_le (data : List UInt8) : total data ≤ 65535 * data.length := by
  induction data using total.induct with
  | case1 => exact Nat.le_refl 0
  | case2 octet =>
    have := octet.toNat_lt
    rw [total, List.length_singleton]
    omega
  | case3 octet next data ih =>
    have := octet.toNat_lt
    have := next.toNat_lt
    rw [total, List.length_cons, List.length_cons]
    omega

theorem toNat_accumulate (acc : UInt32) (data : List UInt8)
    (h : acc.toNat + total data < 2 ^ 32) : (accumulate acc data).toNat = acc.toNat + total data := by
  induction acc, data using accumulate.induct with
  | case1 acc => rfl
  | case2 acc octet =>
    rw [total] at h ⊢
    rw [accumulate, UInt32.toNat_add, UInt16.toNat_toUInt32, toNat_octet, Nat.mod_eq_of_lt h]
  | case3 acc octet next data ih =>
    have hadd : (acc + (octet.toUInt16 <<< 8 ||| next.toUInt16).toUInt32).toNat =
        acc.toNat + (256 * octet.toNat + next.toNat) := by
      rw [total] at h
      rw [UInt32.toNat_add, UInt16.toNat_toUInt32, toNat_word]
      exact Nat.mod_eq_of_lt (by omega)
    rw [accumulate, ih (by rw [total] at h; omega), hadd, total]
    omega

theorem rep_total (data : List UInt8) :
    rep 65535 (256 * total data) = OnesComplement.sum data := by
  rw [OnesComplement.sum_eq]
  induction data using total.induct with
  | case1 => rfl
  | case2 octet =>
    refine OnesComplement.rep_eq_of_modEq ?_ ?_
    · rw [total, ofLittleEndian, ofLittleEndian]
      omega
    · rw [total, ofLittleEndian, ofLittleEndian, Nat.ModEq]
      omega
  | case3 octet next data ih =>
    have hword : rep 65535 (256 * (256 * octet.toNat + next.toNat)) =
        rep 65535 (octet.toNat + 256 * next.toNat) := by
      refine OnesComplement.rep_eq_of_modEq (by omega) ?_
      rw [Nat.ModEq]
      omega
    have hrest : rep 65535 (65536 * ofLittleEndian data) = rep 65535 (256 * total data) := by
      rw [ih]
      exact OnesComplement.rep_shift_even (n := 2) rfl _
    have hsum := OnesComplement.rep_add_congr hword hrest.symm
    rw [total, ofLittleEndian, ofLittleEndian]
    calc rep 65535 (256 * (256 * octet.toNat + next.toNat + total data))
        = rep 65535 (256 * (256 * octet.toNat + next.toNat) + 256 * total data) := by
          rw [Nat.mul_add]
      _ = rep 65535 (octet.toNat + 256 * next.toNat + 65536 * ofLittleEndian data) := hsum
      _ = _ := by
          congr 1
          omega

/-- The checksum of a buffer, before it is inverted, is the sum of its words. -/
theorem toNat_lwipStandardChksum {data : List UInt8} (h : data.length < 2 ^ 16) :
    (lwipStandardChksum data).toNat = OnesComplement.sum data := by
  have hle := total_le data
  have hacc : (accumulate 0 data).toNat = total data := by
    rw [toNat_accumulate 0 data (by rw [UInt32.toNat_zero]; omega), UInt32.toNat_zero, Nat.zero_add]
  have hfold : ∀ u : UInt32,
      (if foldU32t u &&& 0xffff0000 ≠ 0 then foldU32t (foldU32t u) else foldU32t u).toNat =
        rep 65535 u.toNat := by
    intro u
    split
    · exact toNat_foldU32t_twice u
    · next h =>
      have hlt := toNat_lt_of_and_eq_zero (not_not.mp h)
      rw [← rep_foldU32t, OnesComplement.rep_of_le (by omega)]
  have hrep := hfold (accumulate 0 data)
  have hle16 : rep 65535 (total data) ≤ 65535 := OnesComplement.rep_le (by decide)
  rw [hacc] at hrep
  have hsum : (lwipStandardChksum data).toNat = rep 65535 (256 * rep 65535 (total data)) := by
    refine (toNat_lwipHtons_eq_rep _).trans ?_
    rw [UInt32.toNat_toUInt16]
    refine congrArg (fun x => rep 65535 (256 * x)) ((Nat.mod_eq_of_lt ?_).trans hrep)
    exact Nat.lt_of_le_of_lt (Nat.le_of_eq hrep) (by omega)
  rw [hsum, OnesComplement.rep_mul_rep, rep_total]

/-! ## Chains -/

section Chains

variable {a : Nat} {bs q : List UInt8} {s : UInt32 × Bool}

/-- The bytes `bs` have been added to `a`. -/
structure Added (a : Nat) (bs : List UInt8) (s : UInt32 × Bool) : Prop where
  acc : s.1.toNat = rep 65535 (256 ^ bs.length * (a + ofLittleEndian bs))
  swapped : s.2 = true ↔ bs.length % 2 = 1

/-- Behind `n` bytes, a segment of `m` bytes. -/
theorem rep_segment (n m x y : Nat) : rep 65535 (256 ^ (n + m) * (x + 256 ^ n * y)) =
    rep 65535 (256 ^ (m % 2) * (256 ^ n * x + y)) := by
  have hback : rep 65535 (256 ^ (n + n) * y) = rep 65535 y :=
    OnesComplement.rep_shift_even (by omega) y
  calc rep 65535 (256 ^ (n + m) * (x + 256 ^ n * y))
      = rep 65535 (256 ^ m * (256 ^ n * x + 256 ^ (n + n) * y)) := by
        congr 1
        ring
    _ = rep 65535 (256 ^ m * (256 ^ n * x + y)) :=
        OnesComplement.rep_mul_congr _ (OnesComplement.rep_add_congr rfl hback)
    _ = _ := OnesComplement.rep_shift m _

theorem Added.addSegment (h : Added a bs s) (hq : q.length < 2 ^ 16) :
    Added a (bs ++ q) (addSegment s q) := by
  have hle : s.1.toNat ≤ 65535 := h.acc ▸ OnesComplement.rep_le (by decide)
  have hsum : (s.1 + (lwipStandardChksum q).toUInt32).toNat =
      s.1.toNat + (lwipStandardChksum q).toNat := by
    have := (lwipStandardChksum q).toNat_lt
    rw [UInt32.toNat_add, UInt16.toNat_toUInt32]
    omega
  have hfold : (foldU32t (s.1 + (lwipStandardChksum q).toUInt32)).toNat =
      rep 65535 (256 ^ bs.length * (a + ofLittleEndian bs) + ofLittleEndian q) := by
    have := (lwipStandardChksum q).toNat_lt
    rw [toNat_foldU32t, OnesComplement.fold_eq_rep (by omega), hsum, toNat_lwipStandardChksum hq,
      h.acc, OnesComplement.sum_eq, OnesComplement.rep_rep_add, OnesComplement.rep_add_rep]
  have hacc : rep 65535 (256 ^ (bs ++ q).length * (a + ofLittleEndian (bs ++ q))) =
      rep 65535 (256 ^ (q.length % 2) *
        (256 ^ bs.length * (a + ofLittleEndian bs) + ofLittleEndian q)) := by
    rw [List.length_append, OnesComplement.numeral_append, ← Nat.add_assoc, rep_segment]
  dsimp only [PodFirmware.addSegment]
  split
  · next hodd =>
    have hone : q.length % 2 = 1 := by omega
    refine ⟨?_, ?_⟩
    · rw [hacc, hone, pow_one, ← OnesComplement.rep_mul_rep, ← hfold]
      exact toNat_swapBytesInWord (hfold ▸ OnesComplement.rep_le (by decide))
    · have := h.swapped
      rw [List.length_append, Bool.not_eq_true', ← Bool.not_eq_true, this]
      omega
  · next heven =>
    have hzero : q.length % 2 = 0 := by omega
    refine ⟨?_, ?_⟩
    · rw [hacc, hzero, pow_zero, Nat.one_mul, ← hfold]
    · rw [List.length_append, h.swapped]
      omega

theorem Added.foldl {p : List (List UInt8)} (h : Added a bs s) (hp : ∀ q ∈ p, q.length < 2 ^ 16) :
    Added a (bs ++ p.flatten) (p.foldl PodFirmware.addSegment s) := by
  induction p generalizing bs s with
  | nil => rwa [List.flatten_nil, List.append_nil]
  | cons q p ih =>
    have hq := h.addSegment (hp q List.mem_cons_self)
    rw [List.flatten_cons, ← List.append_assoc, List.foldl_cons]
    exact ih hq fun q hq => hp q (List.mem_cons_of_mem _ hq)

/-- A chain counts as its bytes in one buffer. -/
theorem toNat_addChain {acc : UInt32} {p : List (List UInt8)} (hacc : acc.toNat ≤ 65535)
    (hp : ∀ q ∈ p, q.length < 2 ^ 16) :
    (addChain acc p).toNat = rep 65535 (acc.toNat + ofLittleEndian p.flatten) := by
  have hstart : Added acc.toNat [] (acc, false) := by
    refine ⟨?_, ?_⟩
    · simp [ofLittleEndian, OnesComplement.rep_of_le hacc]
    · simp
  have hend := hstart.foldl hp
  rw [List.nil_append] at hend
  rw [addChain]
  generalize p.foldl PodFirmware.addSegment (acc, false) = t at hend
  obtain ⟨acc', swapped⟩ := t
  obtain ⟨hacc', hswapped⟩ := hend
  dsimp only at hacc' hswapped ⊢
  split
  · next h =>
    have hodd := hswapped.mp h
    have hle : acc'.toNat ≤ 65535 := hacc' ▸ OnesComplement.rep_le (by decide)
    rw [toNat_swapBytesInWord hle, hacc', OnesComplement.rep_mul_rep, ← Nat.mul_assoc, ← pow_succ',
      OnesComplement.rep_shift_even (by omega)]
  · next h =>
    have heven : ¬p.flatten.length % 2 = 1 := fun hodd => h (hswapped.mpr hodd)
    rw [hacc', OnesComplement.rep_shift_even (by omega)]

/-- How a sum is stored. -/
theorem invert_eq {v : UInt32} {n : Nat} (h : v.toNat = rep 65535 n) :
    (~~~(v &&& 0xffff)).toUInt16 = ~~~UInt16.ofNat (rep 65535 n) := by
  have hlow : (v &&& 0xffff).toUInt16 = UInt16.ofNat (rep 65535 n) := by
    apply UInt16.toNat_inj.mp
    rw [UInt32.toNat_toUInt16, toNat_and_ffff, h, UInt16.toNat_ofNat']
    omega
  rw [UInt32.toUInt16_not, hlow]

/-- What is summed in front of a datagram. -/
def pseudoHeader (proto : UInt8) (protoLen : UInt16) (src dest : UInt32) : List UInt8 :=
  littleEndian 4 src.toNat ++ littleEndian 4 dest.toNat ++ [0, proto] ++
    Bytes.bigEndian 2 protoLen.toNat

theorem sum_pseudoHeader (proto : UInt8) (protoLen : UInt16) (src dest : UInt32) :
    (OnesComplement.words (pseudoHeader proto protoLen src dest)).sum =
      src.toNat % 65536 + src.toNat / 65536 + (dest.toNat % 65536 + dest.toNat / 65536) +
        (lwipHtons proto.toUInt16).toNat + (lwipHtons protoLen).toNat := by
  have := src.toNat_lt
  have := dest.toNat_lt
  have := proto.toNat_lt
  have := protoLen.toNat_lt
  rw [toNat_lwipHtons, toNat_lwipHtons, UInt8.toNat_toUInt16]
  simp [pseudoHeader, Bytes.bigEndian, littleEndian, OnesComplement.words]
  omega

theorem toNat_inetCksumPseudoBase {acc : UInt32} {p : List (List UInt8)} (hacc : acc.toNat ≤ 65535)
    (hp : ∀ q ∈ p, q.length < 2 ^ 16) (proto : UInt8) (protoLen : UInt16) :
    inetCksumPseudoBase p proto protoLen acc = ~~~UInt16.ofNat (rep 65535
      (acc.toNat + ofLittleEndian p.flatten + (lwipHtons proto.toUInt16).toNat +
        (lwipHtons protoLen).toNat)) := by
  have hchain := toNat_addChain hacc hp
  have hle : (addChain acc p).toNat ≤ 65535 := hchain ▸ OnesComplement.rep_le (by decide)
  have := (lwipHtons proto.toUInt16).toNat_lt
  have := (lwipHtons protoLen).toNat_lt
  have hadd : (addChain acc p + (lwipHtons proto.toUInt16).toUInt32 +
      (lwipHtons protoLen).toUInt32).toNat =
      (addChain acc p).toNat + (lwipHtons proto.toUInt16).toNat + (lwipHtons protoLen).toNat := by
    rw [UInt32.toNat_add, UInt32.toNat_add, UInt16.toNat_toUInt32, UInt16.toNat_toUInt32]
    omega
  refine invert_eq ?_
  rw [toNat_foldU32t_twice, hadd, hchain, Nat.add_assoc, OnesComplement.rep_rep_add,
    ← Nat.add_assoc]

/-- The checksum of a datagram that lies in a chain of pbufs is that of its bytes behind the pseudo
header, wherever one segment ends and the next one begins. -/
theorem inetChksumPseudo_eq {p : List (List UInt8)} (hp : ∀ q ∈ p, q.length < 2 ^ 16)
    (proto : UInt8) (protoLen : UInt16) (src dest : UInt32) :
    inetChksumPseudo p proto protoLen src dest =
      ~~~UInt16.ofNat
        (OnesComplement.sum (pseudoHeader proto protoLen src dest ++ p.flatten)) := by
  have hword : ∀ u : UInt32, u.toNat / 65536 % 65536 = u.toNat / 65536 := by
    intro u
    have := u.toNat_lt
    omega
  have haddr : ∃ acc : UInt32, acc = (src &&& 0xffff) + (src >>> (16 : UInt32) &&& 0xffff) +
      (dest &&& 0xffff) + (dest >>> (16 : UInt32) &&& 0xffff) ∧ acc.toNat =
      src.toNat % 65536 + src.toNat / 65536 + (dest.toNat % 65536 + dest.toNat / 65536) := by
    refine ⟨_, rfl, ?_⟩
    have := src.toNat_lt
    have := dest.toNat_lt
    simp only [UInt32.toNat_add, toNat_and_ffff, toNat_shiftRight_16, hword]
    omega
  obtain ⟨acc, hdef, haddr⟩ := haddr
  have hacc := toNat_foldU32t_twice acc
  have heven : (pseudoHeader proto protoLen src dest).length % 2 = 0 := by
    simp [pseudoHeader]
  rw [haddr] at hacc
  rw [inetChksumPseudo, ← hdef, toNat_inetCksumPseudoBase (hacc ▸ OnesComplement.rep_le (by decide)) hp, hacc,
    OnesComplement.sum_append heven, OnesComplement.sum_eq p.flatten, OnesComplement.rep_add_rep,
    OnesComplement.sum, OnesComplement.rep_rep_add, sum_pseudoHeader, Nat.add_assoc,
    Nat.add_assoc, OnesComplement.rep_rep_add]
  congr 3
  omega

/-- Two chains of the same bytes have the same checksum. -/
theorem inetChksumPseudo_segments {p q : List (List UInt8)} (hp : ∀ r ∈ p, r.length < 2 ^ 16)
    (hq : ∀ r ∈ q, r.length < 2 ^ 16) (h : p.flatten = q.flatten) (proto : UInt8)
    (protoLen : UInt16) (src dest : UInt32) :
    inetChksumPseudo p proto protoLen src dest = inetChksumPseudo q proto protoLen src dest ∧
      inetChksumPseudo p proto protoLen src dest =
        ~~~UInt16.ofNat
          (OnesComplement.sum (pseudoHeader proto protoLen src dest ++ p.flatten)) := by
  have hsum := inetChksumPseudo_eq hp proto protoLen src dest
  refine ⟨?_, hsum⟩
  rw [hsum, h, inetChksumPseudo_eq hq proto protoLen src dest]

theorem odd_segments :
    inetChksumPseudo [[1, 2, 3], [], [4]] 17 4 0x7000a8c0 0x0a00a8c0 =
      inetChksumPseudo [[1, 2], [3, 4]] 17 4 0x7000a8c0 0x0a00a8c0 ∧
    inetChksumPseudo [[1, 2, 3], [], [4]] 17 4 0x7000a8c0 0x0a00a8c0 =
      ~~~UInt16.ofNat (OnesComplement.sum
        (pseudoHeader 17 4 0x7000a8c0 0x0a00a8c0 ++ [[1, 2, 3], [], [4]].flatten)) :=
  inetChksumPseudo_segments (by decide) (by decide) rfl 17 4 0x7000a8c0 0x0a00a8c0

theorem inetChksum_eq {data : List UInt8} (h : data.length < 2 ^ 16) :
    inetChksum data = ~~~UInt16.ofNat (OnesComplement.sum data) := by
  rw [inetChksum, ← toNat_lwipStandardChksum h, UInt16.ofNat_toNat]

end Chains

end PodFirmware
