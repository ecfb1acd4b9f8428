import PodFirmware.Intact

/-!
# PodFirmware.Ip4

`ip4.c` on the way out: the header that `ip4_output_if_opt_src` puts before a packet. Its checksum
is summed up while the fields are written, word by word, and the header is not read again.

* `IpHdr`, `ipHdr`: the header, and how it is read.
* `ip4OutputIfOptSrc`: the packet.
* `inlineChksum_eq`: the sum is the one that `inet_chksum` takes of the header.
* `output_passes`: what is sent passes the check at the other end.
-/

namespace PodFirmware

open Bytes (littleEndian ofLittleEndian slice)
open OnesComplement (rep)

def ipHlen : Nat := 20
def ipOffmask : UInt16 := 0x1fff
def ipMf : UInt16 := 0x2000

/-- The fields as they lie in memory, in network order. -/
structure IpHdr where
  vHl : UInt8
  tos : UInt8
  len : UInt16
  id : UInt16
  offset : UInt16
  ttl : UInt8
  proto : UInt8
  chksum : UInt16
  src : UInt32
  dest : UInt32
  deriving DecidableEq, Repr

namespace IpHdr

def bytes (h : IpHdr) : List UInt8 :=
  [h.vHl, h.tos] ++ littleEndian 2 h.len.toNat ++ littleEndian 2 h.id.toNat ++
    littleEndian 2 h.offset.toNat ++ [h.ttl, h.proto] ++ littleEndian 2 h.chksum.toNat ++
    littleEndian 4 h.src.toNat ++ littleEndian 4 h.dest.toNat

/-- `IPH_V`. -/
def v (h : IpHdr) : UInt8 := h.vHl >>> 4

/-- `IPH_HL`. -/
def hl (h : IpHdr) : UInt8 := h.vHl &&& 0x0f

end IpHdr

def load8 (payload : List UInt8) (off : Nat) : UInt8 := payload.getD off 0

def load32 (payload : List UInt8) (off : Nat) : UInt32 :=
  UInt32.ofNat (ofLittleEndian (slice payload off 4))

def ipHdr (payload : List UInt8) : IpHdr where
  vHl := load8 payload 0
  tos := load8 payload 1
  len := load16 payload 2
  id := load16 payload 4
  offset := load16 payload 6
  ttl := load8 payload 8
  proto := load8 payload 9
  chksum := load16 payload 10
  src := load32 payload 12
  dest := load32 payload 16

/-- `LWIP_MAKE_U16`. -/
def lwipMakeU16 (a b : UInt8) : UInt32 := a.toUInt32 <<< 8 ||| b.toUInt32

/-- The loop over the options. -/
def addWords (chkSum : UInt32) : List UInt8 → UInt32
  | lo :: hi :: data => addWords (chkSum + lwipMakeU16 hi lo) data
  | _ => chkSum

/-- What is stored in `_chksum`; the offset is zero. -/
def inlineChksum (options : List UInt8) (h : IpHdr) : UInt16 :=
  let chkSum := addWords 0 options
  let chkSum := chkSum + lwipMakeU16 h.proto h.ttl
  let chkSum := chkSum + (h.dest &&& 0xffff)
  let chkSum := chkSum + h.dest >>> 16
  let chkSum := chkSum + lwipMakeU16 h.tos h.vHl
  let chkSum := chkSum + h.len.toUInt32
  let chkSum := chkSum + h.id.toUInt32
  let chkSum := chkSum + (h.src &&& 0xffff)
  let chkSum := chkSum + h.src >>> 16
  let chkSum := chkSum >>> 16 + (chkSum &&& 0xffff)
  let chkSum := chkSum >>> 16 + chkSum
  (~~~chkSum).toUInt16

/-- The options as they are sent, with zeros up to a multiple of four bytes. -/
def alignedOptions (ipOptions : List UInt8) : List UInt8 :=
  ipOptions ++ List.replicate ((ipOptions.length + 3) / 4 * 4 - ipOptions.length) 0

/-- The header before its checksum is stored, for a packet of `totLen` bytes. -/
def newIpHdr (ipId totLen : UInt16) (src dest : UInt32) (ttl tos proto : UInt8)
    (options : List UInt8) : IpHdr where
  vHl := UInt8.ofNat (4 <<< 4 ||| (ipHlen + options.length) / 4)
  tos := tos
  len := lwipHtons totLen
  id := lwipHtons ipId
  offset := 0
  ttl := ttl
  proto := proto
  chksum := 0
  src := src
  dest := dest

/-- The header as it is sent. -/
def sentIpHdr (ipId totLen : UInt16) (src dest : UInt32) (ttl tos proto : UInt8)
    (options : List UInt8) : IpHdr :=
  let iphdr := newIpHdr ipId totLen src dest ttl tos proto options
  { iphdr with chksum := inlineChksum options iphdr }

/-- The packet with its header and the next `ip_id`, or `ERR_BUF` if there is no room for the header
in the first segment. -/
def ip4OutputIfOptSrc (ipId : UInt16) (room : Bool) (p : List (List UInt8)) (src dest : UInt32)
    (ttl tos proto : UInt8) (ipOptions : List UInt8) : Option (List (List UInt8) × UInt16) :=
  if !room then none
  else
    let options := alignedOptions ipOptions
    let totLen := UInt16.ofNat (ipHlen + options.length + p.flatten.length)
    let iphdr := sentIpHdr ipId totLen src dest ttl tos proto options
    match p with
    | [] => none
    | first :: rest => some ((iphdr.bytes ++ options ++ first) :: rest, ipId + 1)

/-! ## Reading -/

section Reading

theorem IpHdr.length_bytes (h : IpHdr) : h.bytes.length = ipHlen := by
  simp [IpHdr.bytes, ipHlen]

theorem load32_of_slice {payload : List UInt8} {off : Nat} {n : UInt32}
    (h : slice payload off 4 = littleEndian 4 n.toNat) : load32 payload off = n := by
  have hmod : n.toNat % 256 ^ 4 = n.toNat := Nat.mod_eq_of_lt n.toNat_lt
  rw [load32, h, Bytes.ofLittleEndian_littleEndian, hmod, UInt32.ofNat_toNat]

/-- The header is read from where it was written. -/
theorem ipHdr_bytes (h : IpHdr) (rest : List UInt8) : ipHdr (h.bytes ++ rest) = h := by
  obtain ⟨vHl, tos, len, id, offset, ttl, proto, chksum, src, dest⟩ := h
  rw [ipHdr, IpHdr.mk.injEq]
  refine ⟨?_, ?_, load16_of_slice ?_, load16_of_slice ?_, load16_of_slice ?_, ?_, ?_,
    load16_of_slice ?_, load32_of_slice ?_, load32_of_slice ?_⟩ <;>
    simp [IpHdr.bytes, load8, slice, littleEndian]

/-- Only the first bytes are read. -/
theorem ipHdr_take (payload : List UInt8) : ipHdr (payload.take ipHlen) = ipHdr payload := by
  have hslice : ∀ off w, off + w ≤ ipHlen → slice (payload.take ipHlen) off w =
      slice payload off w := fun off w hoff => Bytes.slice_take hoff
  have hbyte : ∀ off, off < ipHlen → load8 (payload.take ipHlen) off = load8 payload off := by
    intro off hoff
    rw [load8, load8, List.getD_eq_getElem?_getD, List.getD_eq_getElem?_getD,
      List.getElem?_take_of_lt hoff]
  simp only [ipHdr, load16, load32]
  rw [hbyte 0 (by decide), hbyte 1 (by decide), hbyte 8 (by decide), hbyte 9 (by decide),
    hslice 2 2 (by decide), hslice 4 2 (by decide), hslice 6 2 (by decide),
    hslice 10 2 (by decide), hslice 12 4 (by decide), hslice 16 4 (by decide)]

end Reading

/-! ## The checksum -/

section Checksum

variable {options : List UInt8} {h : IpHdr}

theorem toNat_lwipMakeU16 (a b : UInt8) : (lwipMakeU16 a b).toNat = 256 * a.toNat + b.toNat := by
  have hadd := Nat.two_pow_add_eq_or_of_lt b.toNat_lt a.toNat
  have ha : a.toUInt32.toNat < 256 := a.toNat_lt
  rw [lwipMakeU16, UInt32.toNat_or, toNat_shiftLeft_8 ha, UInt8.toNat_toUInt32, UInt8.toNat_toUInt32]
  exact hadd.symm

theorem words_sum_le (data : List UInt8) :
    (OnesComplement.words data).sum ≤ 65535 * data.length := by
  induction data using OnesComplement.words.induct with
  | case1 => exact Nat.le_refl 0
  | case2 b =>
    have := b.toNat_lt
    simp [OnesComplement.words]
    omega
  | case3 b c data ih =>
    have := b.toNat_lt
    have := c.toNat_lt
    rw [OnesComplement.words, List.sum_cons, List.length_cons, List.length_cons]
    omega

theorem toNat_addWords {data : List UInt8} (heven : data.length % 2 = 0) (chkSum : UInt32)
    (h : chkSum.toNat + (OnesComplement.words data).sum < 2 ^ 32) :
    (addWords chkSum data).toNat = chkSum.toNat + (OnesComplement.words data).sum := by
  induction chkSum, data using addWords.induct with
  | case1 chkSum lo hi data ih =>
    rw [OnesComplement.words, List.sum_cons] at h ⊢
    have hword := toNat_lwipMakeU16 hi lo
    have hadd : (chkSum + lwipMakeU16 hi lo).toNat = chkSum.toNat + (lo.toNat + 256 * hi.toNat) := by
      rw [UInt32.toNat_add, hword]
      omega
    rw [addWords, ih (by rw [List.length_cons, List.length_cons] at heven; omega) (by omega), hadd]
    omega
  | case2 data chkSum hdata =>
    cases data with
    | nil => simp [addWords, OnesComplement.words]
    | cons b data =>
      cases data with
      | nil => simp at heven
      | cons c data => exact absurd rfl (hdata b c data)

theorem words_two (n : Nat) (data : List UInt8) :
    OnesComplement.words (littleEndian 2 n ++ data) = n % 65536 :: OnesComplement.words data := by
  have hval : n % 256 + 256 * (n / 256 % 256) = n % 65536 := by omega
  simp only [littleEndian, List.cons_append, List.nil_append, OnesComplement.words,
    UInt8.toNat_ofNat']
  rw [← hval]

theorem words_four (n : Nat) (data : List UInt8) :
    OnesComplement.words (littleEndian 4 n ++ data) =
      n % 65536 :: n / 65536 % 65536 :: OnesComplement.words data := by
  have hsplit : littleEndian 4 n = littleEndian 2 n ++ littleEndian 2 (n / 65536) := by
    have hdiv : n / 256 / 256 = n / 65536 := Nat.div_div_eq_div_mul n 256 256
    simp only [littleEndian, List.cons_append, List.nil_append, hdiv]
  rw [hsplit, List.append_assoc, words_two, words_two]

/-- The words of a header without offset and checksum. -/
theorem words_bytes (hoffset : h.offset = 0) (hchksum : h.chksum = 0) (data : List UInt8) :
    (OnesComplement.words (h.bytes ++ data)).sum =
      256 * h.proto.toNat + h.ttl.toNat + h.dest.toNat % 65536 + h.dest.toNat / 65536 +
        (256 * h.tos.toNat + h.vHl.toNat) + h.len.toNat + h.id.toNat + h.src.toNat % 65536 +
        h.src.toNat / 65536 + (OnesComplement.words data).sum := by
  have hlen : h.len.toNat % 65536 = h.len.toNat := Nat.mod_eq_of_lt h.len.toNat_lt
  have hid : h.id.toNat % 65536 = h.id.toNat := Nat.mod_eq_of_lt h.id.toNat_lt
  have hhigh : ∀ u : UInt32, u.toNat / 65536 % 65536 = u.toNat / 65536 := by
    intro u
    have := u.toNat_lt
    omega
  simp only [IpHdr.bytes, List.append_assoc, List.cons_append, List.nil_append, words_two,
    words_four, OnesComplement.words, List.sum_cons, hlen, hid, hhigh, hoffset, hchksum,
    UInt16.toNat_zero, Nat.zero_mod]
  ring

/-- Sums of words do not wrap. -/
theorem toNat_add_eq {a b : UInt32} {m n k : Nat} (ha : a.toNat = m) (hb : b.toNat = n)
    (hm : m ≤ 65535 * k) (hn : n ≤ 65535) (hk : k ≤ 60) :
    (a + b).toNat = m + n ∧ m + n ≤ 65535 * (k + 1) := by
  rw [UInt32.toNat_add, ha, hb]
  omega

theorem toNat_sum (hlen : options.length ≤ 40) (heven : options.length % 2 = 0)
    (hoffset : h.offset = 0) (hchksum : h.chksum = 0) :
    (addWords 0 options + lwipMakeU16 h.proto h.ttl + (h.dest &&& 0xffff) +
      h.dest >>> (16 : UInt32) + lwipMakeU16 h.tos h.vHl + h.len.toUInt32 + h.id.toUInt32 +
      (h.src &&& 0xffff) + h.src >>> (16 : UInt32)).toNat =
      (OnesComplement.words (h.bytes ++ options)).sum := by
  have hword : ∀ a b : UInt8, 256 * a.toNat + b.toNat ≤ 65535 := by
    intro a b
    have := a.toNat_lt
    have := b.toNat_lt
    omega
  have hlow : ∀ u : UInt32, u.toNat % 65536 ≤ 65535 := fun u => by omega
  have hhigh : ∀ u : UInt32, u.toNat / 65536 ≤ 65535 := by
    intro u
    have := u.toNat_lt
    omega
  have hhalf : ∀ n : UInt16, n.toNat ≤ 65535 := fun n => Nat.le_of_lt_succ n.toNat_lt
  have hle := Nat.le_trans (words_sum_le options) (Nat.mul_le_mul_left 65535 hlen)
  have h₀ : (addWords 0 options).toNat = (OnesComplement.words options).sum := by
    rw [toNat_addWords heven 0 (by rw [UInt32.toNat_zero]; omega), UInt32.toNat_zero, Nat.zero_add]
  obtain ⟨h₁, l₁⟩ := toNat_add_eq h₀ (toNat_lwipMakeU16 h.proto h.ttl) hle (hword _ _) (by decide)
  obtain ⟨h₂, l₂⟩ := toNat_add_eq h₁ (toNat_and_ffff h.dest) l₁ (hlow _) (by decide)
  obtain ⟨h₃, l₃⟩ := toNat_add_eq h₂ (toNat_shiftRight_16 h.dest) l₂ (hhigh _) (by decide)
  obtain ⟨h₄, l₄⟩ := toNat_add_eq h₃ (toNat_lwipMakeU16 h.tos h.vHl) l₃ (hword _ _) (by decide)
  obtain ⟨h₅, l₅⟩ := toNat_add_eq h₄ (UInt16.toNat_toUInt32 h.len) l₄ (hhalf _) (by decide)
  obtain ⟨h₆, l₆⟩ := toNat_add_eq h₅ (UInt16.toNat_toUInt32 h.id) l₅ (hhalf _) (by decide)
  obtain ⟨h₇, l₇⟩ := toNat_add_eq h₆ (toNat_and_ffff h.src) l₆ (hlow _) (by decide)
  obtain ⟨h₈, -⟩ := toNat_add_eq h₇ (toNat_shiftRight_16 h.src) l₇ (hhigh _) (by decide)
  rw [h₈, words_bytes hoffset hchksum]
  ring

/-- What is summed up while the fields are written is what `inet_chksum` would have found in the
header, options included. -/
theorem inlineChksum_eq (heven : options.length % 2 = 0) (hlen : options.length ≤ 40)
    (hoffset : h.offset = 0) (hchksum : h.chksum = 0) :
    inlineChksum options h = inetChksum (h.bytes ++ options) := by
  have hlength : (h.bytes ++ options).length < 2 ^ 16 := by
    rw [List.length_append, h.length_bytes, ipHlen]
    omega
  have hsum := toNat_sum hlen heven hoffset hchksum
  -- the second fold leaves a carry above the sixteen bits that are stored
  have hfold : ∀ chkSum : UInt32, (foldU32t chkSum >>> (16 : UInt32) + foldU32t chkSum).toUInt16 =
      UInt16.ofNat (rep 65535 chkSum.toNat) := by
    intro chkSum
    have htwice := toNat_foldU32t_twice chkSum
    rw [toNat_foldU32t] at htwice
    apply UInt16.toNat_inj.mp
    rw [UInt32.toNat_toUInt16, UInt32.toNat_add, toNat_shiftRight_16, UInt16.toNat_ofNat',
      ← htwice]
    omega
  rw [inetChksum_eq hlength, OnesComplement.sum, ← hsum, ← hfold, ← UInt32.toUInt16_not]
  rfl

theorem IpHdr.bytes_split (h : IpHdr) : ∃ xs ys : List UInt8, xs.length % 2 = 0 ∧
    ∀ c, { h with chksum := c }.bytes = xs ++ littleEndian 2 c.toNat ++ ys := by
  refine ⟨[h.vHl, h.tos] ++ littleEndian 2 h.len.toNat ++ littleEndian 2 h.id.toNat ++
    littleEndian 2 h.offset.toNat ++ [h.ttl, h.proto],
    littleEndian 4 h.src.toNat ++ littleEndian 4 h.dest.toNat, ?_, ?_⟩
  · simp
  · intro c
    simp only [IpHdr.bytes, List.append_assoc]

/-- Verifying a checksum is looking for all ones. -/
theorem inetChksum_eq_zero_iff {data : List UInt8} (hlen : data.length < 2 ^ 16) :
    inetChksum data = 0 ↔ OnesComplement.sum data = 65535 := by
  rw [inetChksum_eq hlen]
  exact complement_eq_zero_iff (OnesComplement.rep_le (by decide))

/-- A header in which the checksum of the rest is stored passes the check. -/
theorem inetChksum_stored {data : List UInt8} (hlen : data.length ≤ 40) (h : IpHdr) :
    inetChksum ({ h with chksum := inetChksum ({ h with chksum := 0 }.bytes ++ data) }.bytes ++
      data) = 0 := by
  obtain ⟨xs, ys, heven, hbytes⟩ := h.bytes_split
  have hlength : ∀ c, ({ h with chksum := c }.bytes ++ data).length < 2 ^ 16 := by
    intro c
    rw [List.length_append, IpHdr.length_bytes, ipHlen]
    omega
  have hle : OnesComplement.sum (xs ++ littleEndian 2 0 ++ (ys ++ data)) ≤ 65535 :=
    OnesComplement.rep_le (by decide)
  have hstored : (inetChksum ({ h with chksum := 0 }.bytes ++ data)).toNat =
      65535 - OnesComplement.sum (xs ++ littleEndian 2 0 ++ (ys ++ data)) := by
    have hsize : UInt16.size = 65536 := rfl
    rw [inetChksum_eq (hlength 0), hbytes, UInt16.toNat_not, UInt16.toNat_ofNat', UInt16.toNat_zero,
      List.append_assoc _ ys data]
    omega
  rw [inetChksum_eq_zero_iff (hlength _), hbytes, hstored, List.append_assoc _ ys data]
  exact OnesComplement.sum_put_complement heven

theorem length_alignedOptions (ipOptions : List UInt8) :
    (alignedOptions ipOptions).length = (ipOptions.length + 3) / 4 * 4 := by
  rw [alignedOptions, List.length_append, List.length_replicate]
  omega

/-- What is sent passes the check of `ip4_input`. -/
theorem inetChksum_sentIpHdr (hlen : options.length ≤ 40) (heven : options.length % 2 = 0)
    (ipId totLen : UInt16) (src dest : UInt32) (ttl tos proto : UInt8) :
    inetChksum ((sentIpHdr ipId totLen src dest ttl tos proto options).bytes ++ options) = 0 := by
  have hinline := inlineChksum_eq heven hlen
    (show (newIpHdr ipId totLen src dest ttl tos proto options).offset = 0 from rfl) rfl
  have hstored := inetChksum_stored hlen (newIpHdr ipId totLen src dest ttl tos proto options)
  rw [sentIpHdr, hinline]
  exact hstored

/-- `LWIP_IP_HDR_VHL` and back. -/
theorem vHl_spec : ∀ n < 16, (UInt8.ofNat (4 <<< 4 ||| n)) >>> 4 = 4 ∧
    ((UInt8.ofNat (4 <<< 4 ||| n)) &&& 0x0f).toNat = n := by
  decide

/-- A packet begins with a header that says where it goes and how long it is. The checksum in it,
which is summed up on the way, is the one that `inet_chksum` takes of the header without it, and the
header with it passes the check at the other end. -/
theorem output_passes {ipId ipId' : UInt16} {room : Bool} {p q : List (List UInt8)}
    {src dest : UInt32} {ttl tos proto : UInt8} {ipOptions : List UInt8}
    (hlen : ipOptions.length ≤ 40)
    (hfits : ipHlen + (alignedOptions ipOptions).length + p.flatten.length < 2 ^ 16)
    (h : ip4OutputIfOptSrc ipId room p src dest ttl tos proto ipOptions = some (q, ipId')) :
    ∃ hdr : IpHdr, q.flatten = hdr.bytes ++ alignedOptions ipOptions ++ p.flatten ∧
      ipHdr (q.headD []) = hdr ∧ hdr.v = 4 ∧
      hdr.hl.toNat * 4 = ipHlen + (alignedOptions ipOptions).length ∧
      (lwipHtons hdr.len).toNat = q.flatten.length ∧
      hdr.src = src ∧ hdr.dest = dest ∧ hdr.proto = proto ∧
      hdr.chksum = inetChksum ({ hdr with chksum := 0 }.bytes ++ alignedOptions ipOptions) ∧
      inetChksum (hdr.bytes ++ alignedOptions ipOptions) = 0 := by
  have hlength := length_alignedOptions ipOptions
  have heven : (alignedOptions ipOptions).length % 2 = 0 := by omega
  have hle : (alignedOptions ipOptions).length ≤ 40 := by omega
  unfold ip4OutputIfOptSrc at h
  split at h
  · cases h
  dsimp only at h
  cases p with
  | nil => cases h
  | cons first rest =>
    obtain ⟨hq, -⟩ := Prod.mk.inj (Option.some.inj h)
    subst hq
    have hvHl := vHl_spec ((ipHlen + (alignedOptions ipOptions).length) / 4)
      (by rw [ipHlen]; omega)
    refine ⟨sentIpHdr ipId (UInt16.ofNat (ipHlen + (alignedOptions ipOptions).length +
      (first :: rest).flatten.length)) src dest ttl tos proto (alignedOptions ipOptions),
      ?_, ?_, hvHl.1, ?_, ?_, rfl, rfl, rfl, inlineChksum_eq heven hle rfl rfl,
      inetChksum_sentIpHdr hle heven _ _ _ _ _ _ _⟩
    · simp only [List.flatten_cons, List.append_assoc]
    · rw [List.headD_cons, List.append_assoc]
      exact ipHdr_bytes _ _
    · have hhl : (sentIpHdr ipId (UInt16.ofNat (ipHlen + (alignedOptions ipOptions).length +
          (first :: rest).flatten.length)) src dest ttl tos proto
          (alignedOptions ipOptions)).hl.toNat =
            (ipHlen + (alignedOptions ipOptions).length) / 4 := hvHl.2
      rw [hhl, ipHlen]
      omega
    · have htotal : (lwipHtons (lwipHtons (UInt16.ofNat (ipHlen +
          (alignedOptions ipOptions).length + (first :: rest).flatten.length)))).toNat =
            ipHlen + (alignedOptions ipOptions).length + (first :: rest).flatten.length := by
        rw [lwipHtons_lwipHtons, UInt16.toNat_ofNat']
        exact Nat.mod_eq_of_lt hfits
      refine htotal.trans ?_
      rw [List.flatten_cons, List.flatten_cons, List.length_append, List.length_append,
        List.length_append, List.length_append, IpHdr.length_bytes]
      omega

/-- An IGMP report, with the option that asks routers to look at it. -/
theorem report_passes : ∃ q ipId', ip4OutputIfOptSrc 7 true [[22, 0, 9, 255, 224, 0, 0, 1]]
      (ip4Addr 192 168 0 112) (ip4Addr 224 0 0 22) 1 0 2 [0x94, 4] = some (q, ipId') ∧
    ∃ hdr : IpHdr, q.flatten = hdr.bytes ++ alignedOptions [0x94, 4] ++
        [[22, 0, 9, 255, 224, 0, 0, 1]].flatten ∧
      ipHdr (q.headD []) = hdr ∧ hdr.v = 4 ∧
      hdr.hl.toNat * 4 = ipHlen + (alignedOptions [0x94, 4]).length ∧
      (lwipHtons hdr.len).toNat = q.flatten.length ∧
      hdr.src = ip4Addr 192 168 0 112 ∧ hdr.dest = ip4Addr 224 0 0 22 ∧ hdr.proto = 2 ∧
      hdr.chksum = inetChksum ({ hdr with chksum := 0 }.bytes ++ alignedOptions [0x94, 4]) ∧
      inetChksum (hdr.bytes ++ alignedOptions [0x94, 4]) = 0 := by
  have h : ip4OutputIfOptSrc 7 true [[22, 0, 9, 255, 224, 0, 0, 1]] (ip4Addr 192 168 0 112)
      (ip4Addr 224 0 0 22) 1 0 2 [0x94, 4] = some (_, _) := rfl
  exact ⟨_, _, h, output_passes (by decide) (by decide) h⟩

end Checksum

end PodFirmware
