import Mathlib.Algebra.Order.BigOperators.Group.List
import Mathlib.Data.List.Nodup
import PodFirmware.Ip4
import PodFirmware.Lib.Machine

/-!
# PodFirmware.Reass

`ip4_reass`: the fragments of a packet are kept until all are there. For every packet under way there
is an `ip_reassdata` with its fragments in the order of their offsets. A fragment that does not fit
between those that are kept is thrown away, and so are the oldest packets where room is needed.

* `ipReassChainFrag`: the place of a new fragment, and whether the datagram is complete then.
* `ip4Reass`: what becomes of a fragment.
* `ipReassTmr`: once a second, the packets that have waited for too long are given up.
* `reass_inv_run`: the pbufs that are kept are counted, and there are never more than ten.
-/

namespace PodFirmware

/-- A chain of pbufs from `p->payload` on, the length of each counted in 16 bits. -/
structure Chain where
  segs : List (List UInt8)
  fits : ∀ q ∈ segs, q.length < 2 ^ 16
  deriving Repr

namespace Chain

def bytes (p : Chain) : List UInt8 := p.segs.flatten

/-- `pbuf_clen`. -/
def clen (p : Chain) : Nat := p.segs.length

def len (p : Chain) : UInt16 := UInt16.ofNat (p.segs.headD []).length

def totLen (p : Chain) : UInt16 := UInt16.ofNat p.bytes.length

/-- `pbuf_header` with `-n`, where the first segment has as many bytes. -/
def hide (p : Chain) (n : Nat) : Chain where
  segs := match p.segs with
    | [] => []
    | first :: rest => first.drop n :: rest
  fits := by
    have hfits := p.fits
    split
    · exact nofun
    · next first rest hsegs =>
      rw [hsegs] at hfits
      intro q hq
      rcases List.mem_cons.mp hq with rfl | hq
      · have hfirst := hfits first List.mem_cons_self
        rw [List.length_drop]
        omega
      · exact hfits q (List.mem_cons_of_mem _ hq)

end Chain

/-- A fragment that is kept: `struct ip_reass_helper`, and the chain without the header. -/
structure Frag where
  start : UInt16
  stop : UInt16
  p : Chain
  deriving Repr

structure ReassData where
  iphdr : IpHdr
  lastfrag : Bool
  datagramLen : UInt16
  timer : UInt8
  p : List Frag
  deriving Repr

def ReassData.clen (ipr : ReassData) : Nat := (ipr.p.map fun q => q.p.clen).sum

structure Reass where
  datagrams : List ReassData := []
  pbufcount : Nat := 0
  deriving Repr

def ipReassMaxPbufs : Nat := 10
def memNumReassdata : Nat := 5
def ipReassMaxage : UInt8 := 3

def ipAddressesAndIdMatch (a b : IpHdr) : Bool := a.src == b.src && a.dest == b.dest && a.id == b.id

/-! ## Packets are given up -/

/-- The number of pbufs that are freed, and the state. -/
def ipReassFreeCompleteDatagram (s : Reass) (i : Nat) : Nat × Reass :=
  match s.datagrams[i]? with
  | none => (0, s)
  | some ipr =>
    (ipr.clen,
      { datagrams := s.datagrams.eraseIdx i, pbufcount := s.pbufcount - ipr.clen })

/-- The loop of `ip_reass_tmr` over the rest of the list. -/
def tmrLoop : List ReassData → Nat → List ReassData × Nat
  | [], pbufcount => ([], pbufcount)
  | r :: rest, pbufcount =>
    if r.timer > 0 then
      let (rest, pbufcount) := tmrLoop rest pbufcount
      ({ r with timer := r.timer - 1 } :: rest, pbufcount)
    else tmrLoop rest (pbufcount - r.clen)

def ipReassTmr (s : Reass) : Reass :=
  let (datagrams, pbufcount) := tmrLoop s.datagrams s.pbufcount
  ⟨datagrams, pbufcount⟩

/-- The place and the timer of the oldest packet that is not that of `fraghdr`. -/
def findOldest (fraghdr : IpHdr) : List ReassData → Nat → Option (Nat × UInt8) →
    Option (Nat × UInt8)
  | [], _, oldest => oldest
  | r :: rest, i, oldest =>
    if ipAddressesAndIdMatch r.iphdr fraghdr then findOldest fraghdr rest (i + 1) oldest
    else
      match oldest with
      | none => findOldest fraghdr rest (i + 1) (some (i, r.timer))
      | some (j, timer) =>
        if r.timer ≤ timer then findOldest fraghdr rest (i + 1) (some (i, r.timer))
        else findOldest fraghdr rest (i + 1) (some (j, timer))

/-- The loop of `ip_reass_remove_oldest_datagram`; it frees a packet at every turn but perhaps the
last, so `turns` is at first the number of packets. -/
def removeOldestLoop (fraghdr : IpHdr) (pbufsNeeded : Nat) :
    Nat → Nat → Reass → Nat × Reass
  | 0, pbufsFreed, s => (pbufsFreed, s)
  | turns + 1, pbufsFreed, s =>
    let otherDatagrams := s.datagrams.countP fun r => !ipAddressesAndIdMatch r.iphdr fraghdr
    let (freed, s) := match findOldest fraghdr s.datagrams 0 none with
      | none => (0, s)
      | some (oldest, _) => ipReassFreeCompleteDatagram s oldest
    if pbufsFreed + freed < pbufsNeeded ∧ 1 < otherDatagrams then
      removeOldestLoop fraghdr pbufsNeeded turns (pbufsFreed + freed) s
    else (pbufsFreed + freed, s)

def ipReassRemoveOldestDatagram (s : Reass) (fraghdr : IpHdr) (pbufsNeeded : Nat) : Nat × Reass :=
  removeOldestLoop fraghdr pbufsNeeded s.datagrams.length 0 s

/-! ## Fragments -/

/-- Where the fragment has come to lie: all fragments, whether there were no holes on the way, and the
fragments from the new one on. -/
structure Placed where
  chain : List Frag
  valid : Bool
  behind : List Frag
  deriving Repr

/-- The loop of `ip_reass_chain_frag_into_datagram_and_validate`; none if the fragment is thrown
away. -/
def ipReassChainFrag (iprh : Frag) (iprhPrev : Option Frag) (valid : Bool) :
    List Frag → Option Placed
  | [] => some ⟨[iprh], valid && iprhPrev.all (·.stop == iprh.start), [iprh]⟩
  | q :: rest =>
    if iprh.start < q.start then
      if iprhPrev.any fun prev => iprh.start < prev.stop || iprh.stop > q.start then none
      else some ⟨iprh :: q :: rest, valid, iprh :: q :: rest⟩
    else if iprh.start = q.start then none
    else if iprh.start < q.stop then none
    else
      (ipReassChainFrag iprh (some q) (valid && iprhPrev.all (·.stop == q.start)) rest).map
        fun placed => { placed with chain := q :: placed.chain }

/-- Each ends where the next begins. -/
def contiguous : List Frag → Bool
  | q :: r :: rest => q.stop == r.start && contiguous (r :: rest)
  | _ => true

/-- The checks when the last fragment has been seen. -/
def Placed.complete (placed : Placed) : Bool :=
  placed.valid && placed.chain.head?.any (·.start == 0) && contiguous placed.behind

namespace IpHdr

def fragOffset (h : IpHdr) : UInt16 := (lwipHtons h.offset &&& ipOffmask) * 8

def dataLen (h : IpHdr) : UInt16 := lwipHtons h.len - h.hl.toUInt16 * 4

def moreFragments (h : IpHdr) : Bool := h.offset &&& lwipHtons ipMf != 0

end IpHdr

/-- The header of the packet that is put together. -/
def ReassData.header (ipr : ReassData) : IpHdr :=
  let fraghdr := { ipr.iphdr with
    len := lwipHtons (ipr.datagramLen + UInt16.ofNat ipHlen), offset := 0, chksum := 0 }
  { fraghdr with chksum := inetChksum fraghdr.bytes }

/-- Its chain, behind the header. -/
def ReassData.chain (ipr : ReassData) : Chain where
  segs := ipr.p.flatMap fun q => q.p.segs
  fits := by
    intro q hq
    obtain ⟨r, -, hr⟩ := List.mem_flatMap.mp hq
    exact r.p.fits q hr

/-- Room for the pbufs of a fragment is made, if it can be. -/
def makeRoom (s : Reass) (fraghdr : IpHdr) (clen : Nat) : Bool × Reass :=
  if s.pbufcount + clen > ipReassMaxPbufs then
    let (freed, s) := ipReassRemoveOldestDatagram s fraghdr clen
    (freed != 0 && s.pbufcount + clen ≤ ipReassMaxPbufs, s)
  else (true, s)

def ipReassEnqueueNewDatagram (s : Reass) (fraghdr : IpHdr) (clen : Nat) : Bool × Reass :=
  let (ok, s) :=
    if s.datagrams.length < memNumReassdata then (true, s)
    else
      let (freed, s) := ipReassRemoveOldestDatagram s fraghdr clen
      (clen ≤ freed && s.datagrams.length < memNumReassdata, s)
  if ok then (true, { s with datagrams := ⟨fraghdr, false, 0, ipReassMaxage, []⟩ :: s.datagrams })
  else (false, s)

/-- What `ip4_reass` does with the packet that the fragment belongs to, before it is placed. -/
def ReassData.meet (ipr : ReassData) (fraghdr : IpHdr) : ReassData :=
  let ipr := if fraghdr.fragOffset = 0 ∧ ipr.iphdr.fragOffset ≠ 0 then { ipr with iphdr := fraghdr }
    else ipr
  if fraghdr.moreFragments then ipr
  else { ipr with lastfrag := true, datagramLen := fraghdr.fragOffset + fraghdr.dataLen }

/-- The packet at `i` gets the fragment, whose pbufs are counted already. -/
def reassAt (s : Reass) (i : Nat) (fraghdr : IpHdr) (p : Chain) : Option (IpHdr × Chain) × Reass :=
  match s.datagrams[i]? with
  | none => (none, s)
  | some ipr =>
    let ipr := ipr.meet fraghdr
    let iprh : Frag := ⟨fraghdr.fragOffset, fraghdr.fragOffset + fraghdr.dataLen, p⟩
    match ipReassChainFrag iprh none true ipr.p with
    | none => (none, ⟨s.datagrams.set i ipr, s.pbufcount - p.clen⟩)
    | some placed =>
      let ipr := { ipr with p := placed.chain }
      if ipr.lastfrag && placed.complete then
        (some (ipr.header, ipr.chain), ⟨s.datagrams.eraseIdx i, s.pbufcount - ipr.chain.clen⟩)
      else (none, { s with datagrams := s.datagrams.set i ipr })

/-- The packet that is complete now, if one is. -/
def ip4Reass (s : Reass) (fraghdr : IpHdr) (p : Chain) : Option (IpHdr × Chain) × Reass :=
  if fraghdr.hl.toNat * 4 ≠ ipHlen then (none, s)
  else
    let (room, s) := makeRoom s fraghdr p.clen
    if !room then (none, s)
    else
      let (found, s) :=
        if s.datagrams.any fun ipr => ipAddressesAndIdMatch ipr.iphdr fraghdr then (true, s)
        else ipReassEnqueueNewDatagram s fraghdr p.clen
      if !found then (none, s)
      else
        reassAt { s with pbufcount := s.pbufcount + p.clen }
          (s.datagrams.findIdx fun ipr => ipAddressesAndIdMatch ipr.iphdr fraghdr) fraghdr p

inductive ReassInput where
  | fragment (fraghdr : IpHdr) (p : Chain)
  | tick

def reassStep (s : Reass) : ReassInput → Reass
  | .fragment fraghdr p => (ip4Reass s fraghdr p).2
  | .tick => ipReassTmr s

/-! ## The list of fragments -/

section Fragments

variable {iprh : Frag} {iprhPrev : Option Frag} {valid : Bool} {l : List Frag} {placed : Placed}

theorem contiguous_cons (q : Frag) (l : List Frag) :
    contiguous (q :: l) = (l.head?.all (q.stop == ·.start) && contiguous l) := by
  cases l with
  | nil => rfl
  | cons r rest => rfl

/-- The fragments that have been passed end where the new one begins or before, and it is put before
the first that begins later. -/
theorem ipReassChainFrag_some (h : ipReassChainFrag iprh iprhPrev valid l = some placed) :
    ∃ a b, l = a ++ b ∧ placed.chain = a ++ iprh :: b ∧ placed.behind = iprh :: b ∧
      (∀ q ∈ a, q.start < iprh.start ∧ q.stop ≤ iprh.start) ∧
      (∀ q ∈ b.head?, iprh.start < q.start) ∧
      placed.valid = (valid && contiguous (iprhPrev.toList ++ a) &&
        (!b.isEmpty || (iprhPrev.toList ++ a).getLast?.all (·.stop == iprh.start))) := by
  induction l generalizing iprhPrev valid placed with
  | nil =>
    rw [ipReassChainFrag] at h
    obtain rfl := Option.some.inj h
    refine ⟨[], [], rfl, rfl, rfl, nofun, nofun, ?_⟩
    cases iprhPrev with
    | none => simp [contiguous]
    | some prev => simp [contiguous]
  | cons q rest ih =>
    rw [ipReassChainFrag] at h
    split at h
    · next hlt =>
      split at h
      · cases h
      · obtain rfl := Option.some.inj h
        refine ⟨[], q :: rest, rfl, rfl, rfl, nofun, ?_, ?_⟩
        · rintro r hr
          obtain rfl := Option.mem_some.mp hr
          exact hlt
        · cases iprhPrev with
          | none => simp [contiguous]
          | some prev => simp [contiguous]
    · next hlt =>
      split at h
      · cases h
      · next hne =>
        split at h
        · cases h
        · next hstop =>
          obtain ⟨placed', hrest, rfl⟩ := Option.map_eq_some_iff.mp h
          obtain ⟨a, b, rfl, hchain, hbehind, ha, hb, hvalid⟩ := ih hrest
          have hstart : q.start < iprh.start :=
            UInt16.lt_of_le_of_ne (UInt16.not_lt.mp hlt) (Ne.symm hne)
          refine ⟨q :: a, b, rfl, congrArg (q :: ·) hchain, hbehind, ?_, hb, ?_⟩
          · intro r hr
            rcases List.mem_cons.mp hr with rfl | hr
            · exact ⟨hstart, UInt16.not_lt.mp hstop⟩
            · exact ha r hr
          · dsimp only
            rw [hvalid]
            cases iprhPrev with
            | none => simp
            | some prev =>
              simp only [Option.toList_some, List.singleton_append, contiguous_cons prev,
                List.head?_cons, Option.all_some, List.getLast?_cons_cons]
              simp only [Bool.and_assoc]

/-- The two begin at the same place, or one begins within the other. -/
def Frag.Overlaps (q r : Frag) : Prop :=
  q.start = r.start ∨ (q.start < r.start ∧ r.start < q.stop) ∨
    (r.start < q.start ∧ q.start < r.stop)

/-- A fragment is thrown away only for one that is kept already. -/
theorem ipReassChainFrag_none (hprev : ∀ prev ∈ iprhPrev, prev.start < iprh.start)
    (h : ipReassChainFrag iprh iprhPrev valid l = none) :
    ∃ q ∈ iprhPrev.toList ++ l, q.Overlaps iprh := by
  induction l generalizing iprhPrev valid with
  | nil => cases h
  | cons q rest ih =>
    rw [ipReassChainFrag] at h
    split at h
    · next hlt =>
      split at h
      · next hany =>
        cases iprhPrev with
        | none => cases hany
        | some prev =>
          rw [Option.any_some, Bool.or_eq_true, decide_eq_true_iff, decide_eq_true_iff] at hany
          rcases hany with hstop | hstop
          · exact ⟨prev, by simp, .inr (.inl ⟨hprev prev rfl, hstop⟩)⟩
          · exact ⟨q, by simp, .inr (.inr ⟨hlt, hstop⟩)⟩
      · cases h
    · next hlt =>
      split at h
      · next heq => exact ⟨q, by simp, .inl heq.symm⟩
      · next hne =>
        have hstart : q.start < iprh.start :=
          UInt16.lt_of_le_of_ne (UInt16.not_lt.mp hlt) (Ne.symm hne)
        split at h
        · next hstop => exact ⟨q, by simp, .inr (.inl ⟨hstart, hstop⟩)⟩
        · obtain ⟨r, hr, hover⟩ := ih (by simpa using hstart) (Option.map_eq_none_iff.mp h)
          exact ⟨r, List.mem_append_right _ hr, hover⟩

/-- The order of the fragments. -/
def ByOffset (l : List Frag) : Prop := l.Pairwise fun q r => q.start < r.start

theorem placed_split (hl : ByOffset l) (h : ipReassChainFrag iprh none valid l = some placed) :
    ∃ a b, l = a ++ b ∧ placed.chain = a ++ iprh :: b ∧ placed.behind = iprh :: b ∧
      (∀ q ∈ a, q.start < iprh.start ∧ q.stop ≤ iprh.start) ∧ (∀ q ∈ b, iprh.start < q.start) ∧
      placed.valid = (valid && contiguous a &&
        (!b.isEmpty || a.getLast?.all (·.stop == iprh.start))) := by
  obtain ⟨a, b, rfl, hchain, hbehind, ha, hb, hvalid⟩ := ipReassChainFrag_some h
  refine ⟨a, b, rfl, hchain, hbehind, ha, ?_, hvalid⟩
  have hinb := (List.pairwise_append.mp hl).2.1
  cases b with
  | nil => exact nofun
  | cons q b =>
    have hq := hb q rfl
    intro r hr
    rcases List.mem_cons.mp hr with rfl | hr
    · exact hq
    · exact UInt16.lt_trans hq (List.rel_of_pairwise_cons hinb hr)

theorem byOffset_placed (hl : ByOffset l) (h : ipReassChainFrag iprh none valid l = some placed) :
    ByOffset placed.chain := by
  obtain ⟨a, b, rfl, hchain, -, ha, hb, -⟩ := placed_split hl h
  obtain ⟨hina, hinb, hab⟩ := List.pairwise_append.mp hl
  rw [hchain, ByOffset, List.pairwise_append, List.pairwise_cons]
  refine ⟨hina, ⟨hb, hinb⟩, fun q hq r hr => ?_⟩
  rcases List.mem_cons.mp hr with rfl | hr
  · exact (ha q hq).1
  · exact hab q hq r hr

end Fragments

/-! ## What is kept -/

section Kept

variable {s : Reass} {fraghdr : IpHdr} {l : List ReassData} {n i : Nat}

def pbufsOf (l : List ReassData) : Nat := (l.map (·.clen)).sum

@[simp] theorem pbufsOf_nil : pbufsOf [] = 0 := rfl

@[simp] theorem pbufsOf_cons (r : ReassData) (l : List ReassData) :
    pbufsOf (r :: l) = r.clen + pbufsOf l := List.sum_cons

@[simp] theorem pbufsOf_append (a b : List ReassData) : pbufsOf (a ++ b) = pbufsOf a + pbufsOf b := by
  rw [pbufsOf, List.map_append, List.sum_append]
  rfl

theorem pbufsOf_le {a : List ReassData} (h : a.Sublist l) : pbufsOf a ≤ pbufsOf l :=
  (h.map _).sum_le_sum fun _ _ => Nat.zero_le _

/-- What tells one packet from another. -/
def IpHdr.key (h : IpHdr) : UInt32 × UInt32 × UInt16 := (h.src, h.dest, h.id)

theorem ipAddressesAndIdMatch_iff {a b : IpHdr} :
    ipAddressesAndIdMatch a b = true ↔ a.key = b.key := by
  simp only [ipAddressesAndIdMatch, IpHdr.key, Bool.and_eq_true, beq_iff_eq, Prod.mk.injEq,
    and_assoc]

def keys (l : List ReassData) : List (UInt32 × UInt32 × UInt16) := l.map (·.iphdr.key)

/-- The state between two calls. -/
structure Reass.Inv (s : Reass) : Prop where
  count : s.pbufcount = pbufsOf s.datagrams
  le : s.pbufcount ≤ ipReassMaxPbufs
  length : s.datagrams.length ≤ memNumReassdata
  distinct : (keys s.datagrams).Nodup
  byOffset : ∀ r ∈ s.datagrams, ByOffset r.p
  ne_nil : ∀ r ∈ s.datagrams, r.p ≠ []

theorem Reass.Inv.sublist (h : s.Inv) {s' : Reass} (hsub : s'.datagrams.Sublist s.datagrams)
    (hcount : s'.pbufcount = pbufsOf s'.datagrams) : s'.Inv where
  count := hcount
  le := by
    have hle := h.le
    have htotal := pbufsOf_le hsub
    rw [h.count] at hle
    omega
  length := Nat.le_trans hsub.length_le h.length
  distinct := h.distinct.sublist (hsub.map _)
  byOffset := fun r hr => h.byOffset r (hsub.subset hr)
  ne_nil := fun r hr => h.ne_nil r (hsub.subset hr)

theorem exists_split {r : ReassData} (h : l[i]? = some r) : ∃ a b, l = a ++ r :: b ∧
    a.length = i ∧ l.eraseIdx i = a ++ b ∧ ∀ r', l.set i r' = a ++ r' :: b := by
  obtain ⟨hi, hr⟩ := List.getElem?_eq_some_iff.mp h
  refine ⟨l.take i, l.drop (i + 1), ?_, ?_, List.eraseIdx_eq_take_drop_succ l i, fun r' => ?_⟩
  · rw [← hr, List.getElem_cons_drop, List.take_append_drop]
  · exact List.length_take_of_le (Nat.le_of_lt hi)
  · rw [List.set_eq_take_append_cons_drop, if_pos hi]

/-! ### Ticks -/

def ReassData.age (r : ReassData) : ReassData := { r with timer := r.timer - 1 }

theorem tmrLoop_fst (l : List ReassData) (n : Nat) :
    (tmrLoop l n).1 = (l.filter (·.timer > 0)).map ReassData.age := by
  induction l generalizing n with
  | nil => rfl
  | cons r rest ih =>
    rw [tmrLoop]
    split
    · next hpos =>
      rw [List.filter_cons_of_pos (by simpa using hpos), List.map_cons, ← ih n]
      rfl
    · next hzero =>
      rw [List.filter_cons_of_neg (by simpa using hzero)]
      exact ih _

theorem tmrLoop_snd (l : List ReassData) (k : Nat) :
    (tmrLoop l (k + pbufsOf l)).2 = k + pbufsOf (tmrLoop l (k + pbufsOf l)).1 := by
  induction l generalizing k with
  | nil => rfl
  | cons r rest ih =>
    rw [pbufsOf_cons, tmrLoop]
    split
    · have hrest := ih (k + r.clen)
      rw [Nat.add_assoc] at hrest
      dsimp only
      rw [hrest, pbufsOf_cons]
      exact Nat.add_assoc _ _ _
    · have hsub : k + (r.clen + pbufsOf rest) - r.clen = k + pbufsOf rest := by omega
      rw [hsub]
      exact ih k

theorem Reass.Inv.tick (h : s.Inv) : (ipReassTmr s).Inv := by
  have hcount := tmrLoop_snd s.datagrams 0
  rw [Nat.zero_add, ← h.count, Nat.zero_add] at hcount
  have hlist := tmrLoop_fst s.datagrams s.pbufcount
  have hsub : (s.datagrams.filter (·.timer > 0)).Sublist s.datagrams := List.filter_sublist
  have htotal : pbufsOf ((s.datagrams.filter (·.timer > 0)).map ReassData.age) =
      pbufsOf (s.datagrams.filter (·.timer > 0)) := by
    rw [pbufsOf, List.map_map]
    rfl
  have hmem : ∀ r ∈ (s.datagrams.filter (·.timer > 0)).map ReassData.age,
      ∃ r' ∈ s.datagrams, r.p = r'.p := by
    intro r hr
    obtain ⟨r', hr', rfl⟩ := List.mem_map.mp hr
    exact ⟨r', hsub.subset hr', rfl⟩
  have hle := pbufsOf_le hsub
  have hmax := h.le
  rw [h.count] at hmax
  unfold ipReassTmr
  refine ⟨hcount, ?_, ?_, ?_, ?_, ?_⟩
  · dsimp only
    rw [hcount, hlist, htotal]
    exact Nat.le_trans hle hmax
  · dsimp only
    rw [hlist, List.length_map]
    exact Nat.le_trans hsub.length_le h.length
  · dsimp only
    rw [hlist, keys, List.map_map]
    exact h.distinct.sublist (hsub.map _)
  · dsimp only
    rw [hlist]
    intro r hr
    obtain ⟨r', hr', hp⟩ := hmem r hr
    exact hp ▸ h.byOffset r' hr'
  · dsimp only
    rw [hlist]
    intro r hr
    obtain ⟨r', hr', hp⟩ := hmem r hr
    exact hp ▸ h.ne_nil r' hr'

/-! ### Room -/

theorem findOldest_spec {oldest : Option (Nat × UInt8)} {j : Nat} {timer : UInt8}
    (h : findOldest fraghdr l i oldest = some (j, timer)) :
    oldest = some (j, timer) ∨ ∃ k r, j = i + k ∧ l[k]? = some r ∧
      ipAddressesAndIdMatch r.iphdr fraghdr = false := by
  induction l generalizing i oldest with
  | nil => exact .inl h
  | cons r rest ih =>
    have hnext : ∀ {o}, findOldest fraghdr rest (i + 1) o = some (j, timer) →
        o = some (j, timer) ∨ ∃ k r', j = i + k ∧ (r :: rest)[k]? = some r' ∧
          ipAddressesAndIdMatch r'.iphdr fraghdr = false := by
      intro o ho
      refine (ih ho).imp_right ?_
      rintro ⟨k, r', rfl, hr', hother⟩
      exact ⟨k + 1, r', by omega, hr', hother⟩
    unfold findOldest at h
    split at h
    · exact hnext h
    · next hother =>
      have hother := Bool.eq_false_iff.mpr hother
      have hhere : some (i, r.timer) = some (j, timer) → ∃ k r', j = i + k ∧
          (r :: rest)[k]? = some r' ∧ ipAddressesAndIdMatch r'.iphdr fraghdr = false := by
        intro heq
        obtain ⟨rfl, -⟩ := Prod.mk.inj (Option.some.inj heq)
        exact ⟨0, r, rfl, rfl, hother⟩
      split at h
      · exact .inr ((hnext h).elim hhere id)
      · split at h
        · exact .inr ((hnext h).elim hhere id)
        · exact hnext h

/-- What is left when packets other than that of `fraghdr` have been given up. -/
structure Spared (fraghdr : IpHdr) (s s' : Reass) : Prop where
  sublist : s'.datagrams.Sublist s.datagrams
  count : s'.pbufcount = pbufsOf s'.datagrams
  own : ∀ r ∈ s.datagrams, ipAddressesAndIdMatch r.iphdr fraghdr = true → r ∈ s'.datagrams

theorem Spared.refl (h : s.pbufcount = pbufsOf s.datagrams) : Spared fraghdr s s :=
  ⟨.refl _, h, fun _ hr _ => hr⟩

theorem Spared.trans {s' s'' : Reass} (h : Spared fraghdr s s') (h' : Spared fraghdr s' s'') :
    Spared fraghdr s s'' :=
  ⟨h'.sublist.trans h.sublist, h'.count, fun r hr hm => h'.own r (h.own r hr hm) hm⟩

theorem spared_free (h : s.pbufcount = pbufsOf s.datagrams)
    (hi : ∀ r, s.datagrams[i]? = some r → ipAddressesAndIdMatch r.iphdr fraghdr = false) :
    Spared fraghdr s (ipReassFreeCompleteDatagram s i).2 := by
  rw [ipReassFreeCompleteDatagram]
  split
  · exact .refl h
  · next ipr hipr =>
    obtain ⟨a, b, hl, -, herase, -⟩ := exists_split hipr
    refine ⟨List.eraseIdx_sublist _ _, ?_, fun r hr hm => ?_⟩
    · dsimp only
      rw [h, herase, hl, pbufsOf_append, pbufsOf_cons, pbufsOf_append]
      omega
    · dsimp only
      rw [herase]
      rw [hl] at hr
      rcases List.mem_append.mp hr with hr | hr
      · exact List.mem_append_left _ hr
      · rcases List.mem_cons.mp hr with rfl | hr
        · rw [hi r hipr] at hm
          cases hm
        · exact List.mem_append_right _ hr

theorem spared_removeOldestLoop (h : s.pbufcount = pbufsOf s.datagrams) (pbufsNeeded turns : Nat)
    (pbufsFreed : Nat) :
    Spared fraghdr s (removeOldestLoop fraghdr pbufsNeeded turns pbufsFreed s).2 := by
  induction turns generalizing s pbufsFreed with
  | zero => exact .refl h
  | succ turns ih =>
    rw [removeOldestLoop]
    have hfree : Spared fraghdr s (match findOldest fraghdr s.datagrams 0 none with
        | none => (0, s)
        | some (oldest, _) => ipReassFreeCompleteDatagram s oldest).2 := by
      split
      · exact .refl h
      · next oldest timer hfind =>
        refine spared_free h fun r hr => ?_
        obtain ⟨k, r', hk, hr', hother⟩ := (findOldest_spec hfind).resolve_left nofun
        rw [Nat.zero_add] at hk
        rw [hk, hr'] at hr
        exact Option.some.inj hr ▸ hother
    generalize (match findOldest fraghdr s.datagrams 0 none with
        | none => (0, s)
        | some (oldest, _) => ipReassFreeCompleteDatagram s oldest) = t at hfree ⊢
    obtain ⟨freed, s'⟩ := t
    dsimp only
    split
    · exact hfree.trans (ih hfree.count _)
    · exact hfree

theorem spared_removeOldest (h : s.pbufcount = pbufsOf s.datagrams) (fraghdr : IpHdr)
    (pbufsNeeded : Nat) :
    Spared fraghdr s (ipReassRemoveOldestDatagram s fraghdr pbufsNeeded).2 :=
  spared_removeOldestLoop h _ _ _

theorem Reass.Inv.spared (h : s.Inv) {s' : Reass} (hs : Spared fraghdr s s') : s'.Inv :=
  h.sublist hs.sublist hs.count

theorem makeRoom_spec (h : s.pbufcount = pbufsOf s.datagrams) (fraghdr : IpHdr) (clen : Nat) :
    Spared fraghdr s (makeRoom s fraghdr clen).2 ∧ ((makeRoom s fraghdr clen).1 = true →
      (makeRoom s fraghdr clen).2.pbufcount + clen ≤ ipReassMaxPbufs) := by
  rw [makeRoom]
  split
  · refine ⟨spared_removeOldest h fraghdr clen, fun hroom => ?_⟩
    dsimp only at hroom
    rw [Bool.and_eq_true, decide_eq_true_iff] at hroom
    exact hroom.2
  · next hle => exact ⟨.refl h, fun _ => Nat.not_lt.mp hle⟩

theorem makeRoom_of_le {clen : Nat} (h : s.pbufcount + clen ≤ ipReassMaxPbufs) (fraghdr : IpHdr) :
    makeRoom s fraghdr clen = (true, s) := if_neg (Nat.not_lt.mpr h)

/-- The element that a packet gets with its first fragment. -/
def newDatagram (fraghdr : IpHdr) : ReassData := ⟨fraghdr, false, 0, ipReassMaxage, []⟩

theorem enqueue_spec (h : s.pbufcount = pbufsOf s.datagrams) (fraghdr : IpHdr) (clen : Nat) :
    ∃ s', Spared fraghdr s s' ∧ ((memNumReassdata ≤ s.datagrams.length ∧
        ipReassEnqueueNewDatagram s fraghdr clen = (false, s')) ∨
      (s'.datagrams.length < memNumReassdata ∧ ipReassEnqueueNewDatagram s fraghdr clen =
        (true, { s' with datagrams := newDatagram fraghdr :: s'.datagrams }))) := by
  unfold ipReassEnqueueNewDatagram
  by_cases hlt : s.datagrams.length < memNumReassdata
  · rw [if_pos hlt]
    exact ⟨s, .refl h, .inr ⟨hlt, rfl⟩⟩
  · rw [if_neg hlt]
    have hspared := spared_removeOldest h fraghdr clen
    generalize ipReassRemoveOldestDatagram s fraghdr clen = t at hspared ⊢
    obtain ⟨freed, s'⟩ := t
    refine ⟨s', hspared, ?_⟩
    dsimp only
    split
    · next hok =>
      rw [Bool.and_eq_true, decide_eq_true_iff, decide_eq_true_iff] at hok
      exact .inr ⟨hok.2, rfl⟩
    · exact .inl ⟨Nat.not_lt.mp hlt, rfl⟩

/-! ### A fragment -/

/-- The packet of the fragment is at `i`, and its pbufs are counted. -/
structure Reass.Open (s : Reass) (i : Nat) (fraghdr : IpHdr) (p : Chain) : Prop where
  count : s.pbufcount = pbufsOf s.datagrams + p.clen
  le : s.pbufcount ≤ ipReassMaxPbufs
  length : s.datagrams.length ≤ memNumReassdata
  distinct : (keys s.datagrams).Nodup
  byOffset : ∀ r ∈ s.datagrams, ByOffset r.p
  ne_nil : ∀ r ∈ s.datagrams, r.iphdr.key ≠ fraghdr.key → r.p ≠ []
  own : ∃ ipr, s.datagrams[i]? = some ipr ∧ ipr.iphdr.key = fraghdr.key

theorem meet_p (ipr : ReassData) (fraghdr : IpHdr) : (ipr.meet fraghdr).p = ipr.p := by
  rw [ReassData.meet]
  split <;> split <;> rfl

theorem meet_key {ipr : ReassData} (h : ipr.iphdr.key = fraghdr.key) :
    (ipr.meet fraghdr).iphdr.key = ipr.iphdr.key := by
  rw [ReassData.meet]
  split <;> split <;> first | exact h.symm | rfl

theorem clen_chain (ipr : ReassData) : ipr.chain.clen = ipr.clen := by
  rw [Chain.clen, ReassData.chain, List.length_flatMap]
  rfl

/-- The fragments with the new one have as many pbufs as there are now. -/
theorem clen_placed {ipr : ReassData} {iprh : Frag} {placed : Placed}
    (h : ipReassChainFrag iprh none true ipr.p = some placed) :
    { ipr with p := placed.chain }.clen = ipr.clen + iprh.p.clen := by
  obtain ⟨a, b, hp, hchain, -, -, -, -⟩ := ipReassChainFrag_some h
  simp only [ReassData.clen, hp, hchain, List.map_append, List.map_cons, List.sum_append,
    List.sum_cons]
  omega

theorem keys_split {l a b : List ReassData} {r : ReassData} (hl : l = a ++ r :: b)
    (h : (keys l).Nodup) : (r.iphdr.key :: keys (a ++ b)).Nodup := by
  rw [hl, keys, List.map_append, List.map_cons, List.nodup_middle] at h
  rwa [keys, List.map_append]

theorem Reass.Open.reassAt {p : Chain} (h : s.Open i fraghdr p) :
    (reassAt s i fraghdr p).2.Inv := by
  obtain ⟨ipr, hipr, hkey⟩ := h.own
  obtain ⟨a, b, hl, -, herase, hset⟩ := exists_split hipr
  have hcount := h.count
  have hlength := h.length
  rw [hl, pbufsOf_append, pbufsOf_cons] at hcount
  rw [hl, List.length_append, List.length_cons] at hlength
  have hkeys := keys_split hl h.distinct
  have hmem : ∀ r ∈ a ++ b, r ∈ s.datagrams := by
    intro r hr
    rw [← herase] at hr
    exact (List.eraseIdx_sublist s.datagrams i).subset hr
  have hother : ∀ r ∈ a ++ b, r.p ≠ [] := by
    intro r hr
    refine h.ne_nil r (hmem r hr) fun hsame => ?_
    have hnot := (List.nodup_cons.mp hkeys).1
    rw [hkey, ← hsame] at hnot
    exact hnot (List.mem_map.mpr ⟨r, hr, rfl⟩)
  -- the packet is replaced by one with the same key
  have hreplaced : ∀ (r' : ReassData) (n : Nat), r'.iphdr.key = ipr.iphdr.key → ByOffset r'.p →
      r'.p ≠ [] → n = pbufsOf (a ++ r' :: b) → n ≤ ipReassMaxPbufs →
      (Reass.mk (a ++ r' :: b) n).Inv := by
    intro r' n hsame horder hne hn hmax
    have hcases : ∀ r ∈ a ++ r' :: b, r = r' ∨ r ∈ a ++ b := by
      intro r hr
      rcases List.mem_append.mp hr with hr | hr
      · exact .inr (List.mem_append_left _ hr)
      · exact (List.mem_cons.mp hr).imp_right (List.mem_append_right _)
    refine ⟨hn, hmax, ?_, ?_, fun r hr => ?_, fun r hr => ?_⟩
    · dsimp only
      rw [List.length_append, List.length_cons]
      exact hlength
    · dsimp only
      rw [keys, List.map_append, List.map_cons, List.nodup_middle, hsame]
      rwa [keys, List.map_append] at hkeys
    · rcases hcases r hr with rfl | hr
      · exact horder
      · exact h.byOffset r (hmem r hr)
    · rcases hcases r hr with rfl | hr
      · exact hne
      · exact hother r hr
  have hle := h.le
  have horder : ByOffset (ipr.meet fraghdr).p := by
    rw [meet_p]
    exact h.byOffset ipr (List.mem_of_getElem? hipr)
  have hclen : (ipr.meet fraghdr).clen = ipr.clen := by
    rw [ReassData.clen, meet_p]
    rfl
  rw [PodFirmware.reassAt, hipr]
  dsimp only
  split
  · next hnone =>
    rw [hset]
    refine hreplaced _ _ (meet_key hkey) horder ?_ ?_ ?_
    · intro hnil
      rw [hnil] at hnone
      cases hnone
    · rw [pbufsOf_append, pbufsOf_cons, hclen]
      omega
    · omega
  · next placed hplaced =>
    have hplacedClen := clen_placed hplaced
    dsimp only at hplacedClen
    split
    · rw [herase]
      have hleft : s.pbufcount - { ipr.meet fraghdr with p := placed.chain }.chain.clen =
          pbufsOf (a ++ b) := by
        rw [clen_chain, hplacedClen, hclen, pbufsOf_append]
        omega
      refine ⟨hleft, ?_, ?_, ?_, fun r hr => h.byOffset r (hmem r hr), hother⟩
      · dsimp only
        omega
      · dsimp only
        rw [List.length_append]
        omega
      · exact (List.nodup_cons.mp hkeys).2
    · rw [hset]
      refine hreplaced _ _ (meet_key hkey) (byOffset_placed horder hplaced) ?_ ?_ hle
      · obtain ⟨c, d, -, hchain, -⟩ := ipReassChainFrag_some hplaced
        rw [hchain]
        simp
      · rw [pbufsOf_append, pbufsOf_cons, hplacedClen, hclen]
        omega

/-- Once there is room for its pbufs, the fragment meets its packet, which is new if there was none. -/
theorem Reass.Inv.open (h : s.Inv) {p : Chain} (hroom : s.pbufcount + p.clen ≤ ipReassMaxPbufs)
    (hfound : ∃ ipr ∈ s.datagrams, ipr.iphdr.key = fraghdr.key) :
    ({ s with pbufcount := s.pbufcount + p.clen } : Reass).Open
      (s.datagrams.findIdx fun ipr => ipAddressesAndIdMatch ipr.iphdr fraghdr) fraghdr p where
  count := congrArg (· + p.clen) h.count
  le := hroom
  length := h.length
  distinct := h.distinct
  byOffset := h.byOffset
  ne_nil := fun r hr _ => h.ne_nil r hr
  own := by
    obtain ⟨ipr, hmem, hkey⟩ := hfound
    have hlt : (s.datagrams.findIdx fun ipr => ipAddressesAndIdMatch ipr.iphdr fraghdr) <
        s.datagrams.length :=
      List.findIdx_lt_length_of_exists ⟨ipr, hmem, ipAddressesAndIdMatch_iff.mpr hkey⟩
    exact ⟨_, List.getElem?_eq_getElem hlt,
      ipAddressesAndIdMatch_iff.mp (List.findIdx_getElem (w := hlt))⟩

theorem Spared.le_of {s' : Reass} {n m : Nat} (h : Spared fraghdr s s')
    (hcount : s.pbufcount = pbufsOf s.datagrams) (hle : s.pbufcount + n ≤ m) :
    s'.pbufcount + n ≤ m := by
  have hsub := pbufsOf_le h.sublist
  rw [h.count]
  omega

theorem Reass.Inv.open_new (h : s.Inv) {p : Chain} (hlt : s.datagrams.length < memNumReassdata)
    (hroom : s.pbufcount + p.clen ≤ ipReassMaxPbufs)
    (hnew : ∀ r ∈ s.datagrams, r.iphdr.key ≠ fraghdr.key) :
    (Reass.mk (newDatagram fraghdr :: s.datagrams) (s.pbufcount + p.clen)).Open
      ((newDatagram fraghdr :: s.datagrams).findIdx fun ipr =>
        ipAddressesAndIdMatch ipr.iphdr fraghdr) fraghdr p where
  count := by
    have hclen : (newDatagram fraghdr).clen = 0 := rfl
    rw [pbufsOf_cons, hclen, Nat.zero_add, h.count]
  le := hroom
  length := hlt
  distinct := by
    refine List.nodup_cons.mpr ⟨fun hmem => ?_, h.distinct⟩
    obtain ⟨r, hr, hkey⟩ := List.mem_map.mp hmem
    exact hnew r hr hkey
  byOffset := by
    intro r hr
    rcases List.mem_cons.mp hr with rfl | hr
    · exact List.Pairwise.nil
    · exact h.byOffset r hr
  ne_nil := by
    intro r hr hne
    rcases List.mem_cons.mp hr with rfl | hr
    · exact absurd rfl hne
    · exact h.ne_nil r hr
  own := by
    have hself : ipAddressesAndIdMatch (newDatagram fraghdr).iphdr fraghdr = true :=
      ipAddressesAndIdMatch_iff.mpr rfl
    rw [List.findIdx_cons, hself]
    exact ⟨_, rfl, rfl⟩

/-- A fragment is dropped for want of room, or it meets its packet, which is new if there was
none. -/
theorem ip4Reass_cases (h : s.Inv) (fraghdr : IpHdr) (p : Chain) :
    ∃ s₁, Spared fraghdr s s₁ ∧
      ((ip4Reass s fraghdr p = (none, s₁) ∧
          (fraghdr.hl.toNat * 4 ≠ ipHlen ∨ ipReassMaxPbufs < s.pbufcount + p.clen ∨
            ((∀ r ∈ s.datagrams, r.iphdr.key ≠ fraghdr.key) ∧
              memNumReassdata ≤ s.datagrams.length))) ∨
        ∃ s₂ i, s₂.Open i fraghdr p ∧ ip4Reass s fraghdr p = reassAt s₂ i fraghdr p ∧
          (s₂.datagrams = s₁.datagrams ∨ ((∀ r ∈ s₁.datagrams, r.iphdr.key ≠ fraghdr.key) ∧
            s₂.datagrams = newDatagram fraghdr :: s₁.datagrams))) := by
  rw [ip4Reass]
  split
  · next hhl => exact ⟨s, .refl h.count, .inl ⟨rfl, .inl hhl⟩⟩
  obtain ⟨hspared, hroom⟩ := makeRoom_spec h.count fraghdr p.clen
  have hkept : s.pbufcount + p.clen ≤ ipReassMaxPbufs → makeRoom s fraghdr p.clen = (true, s) :=
    fun hle => makeRoom_of_le hle fraghdr
  generalize makeRoom s fraghdr p.clen = t at hspared hroom hkept ⊢
  obtain ⟨room, s₁⟩ := t
  have h₁ : s₁.Inv := h.spared hspared
  dsimp only at hroom hkept ⊢
  split
  · next hnot =>
    refine ⟨s₁, hspared, .inl ⟨rfl, .inr (.inl (Nat.lt_of_not_le fun hle => ?_))⟩⟩
    rw [Bool.not_eq_true', (Prod.mk.inj (hkept hle)).1] at hnot
    cases hnot
  next hnot =>
  have hroom₁ := hroom (by simpa using hnot)
  by_cases hany : (s₁.datagrams.any fun ipr => ipAddressesAndIdMatch ipr.iphdr fraghdr) = true
  · rw [if_pos hany]
    obtain ⟨ipr, hmem, hmatch⟩ := List.any_eq_true.mp hany
    exact ⟨s₁, hspared, .inr ⟨_, _,
      h₁.open hroom₁ ⟨ipr, hmem, ipAddressesAndIdMatch_iff.mp hmatch⟩, rfl, .inl rfl⟩⟩
  · have hnone : ∀ r ∈ s₁.datagrams, r.iphdr.key ≠ fraghdr.key := fun r hr hkey =>
      hany (List.any_eq_true.mpr ⟨r, hr, ipAddressesAndIdMatch_iff.mpr hkey⟩)
    rw [if_neg hany]
    obtain ⟨s₂, hspared₂, hor⟩ := enqueue_spec h₁.count fraghdr p.clen
    have h₂ : s₂.Inv := h₁.spared hspared₂
    rcases hor with ⟨hfull, heq⟩ | ⟨hlt, heq⟩
    · refine ⟨s₂, hspared.trans hspared₂, .inl ⟨by rw [heq]; rfl, .inr (.inr ⟨?_, ?_⟩)⟩⟩
      · intro r hr hkey
        exact hnone r (hspared.own r hr (ipAddressesAndIdMatch_iff.mpr hkey)) hkey
      · exact Nat.le_trans hfull hspared.sublist.length_le
    · have hnew : ∀ r ∈ s₂.datagrams, r.iphdr.key ≠ fraghdr.key :=
        fun r hr => hnone r (hspared₂.sublist.subset hr)
      refine ⟨s₂, hspared.trans hspared₂, .inr ⟨_, _,
        h₂.open_new hlt (hspared₂.le_of h₁.count hroom₁) hnew, ?_, .inr ⟨hnew, rfl⟩⟩⟩
      rw [heq]
      rfl

theorem inv_ip4Reass (h : s.Inv) (fraghdr : IpHdr) (p : Chain) : (ip4Reass s fraghdr p).2.Inv := by
  obtain ⟨s₁, hspared, ⟨heq, -⟩ | ⟨s₂, i, hopen, heq, -⟩⟩ := ip4Reass_cases h fraghdr p
  · rw [heq]
    exact h.spared hspared
  · rw [heq]
    exact hopen.reassAt

theorem reassAt_gone {p : Chain} (h : s.Open i fraghdr p)
    (hout : (reassAt s i fraghdr p).1.isSome = true) :
    ∀ r ∈ (reassAt s i fraghdr p).2.datagrams, r.iphdr.key ≠ fraghdr.key := by
  obtain ⟨ipr, hipr, hkey⟩ := h.own
  obtain ⟨a, b, hl, -, herase, -⟩ := exists_split hipr
  have hkeys := keys_split hl h.distinct
  revert hout
  rw [reassAt, hipr]
  dsimp only
  split
  · intro hout
    exact absurd hout Bool.false_ne_true
  · split
    · intro _ r hr hsame
      have hr : r ∈ a ++ b := herase ▸ hr
      have hnot := (List.nodup_cons.mp hkeys).1
      rw [hkey, ← hsame] at hnot
      exact hnot (List.mem_map.mpr ⟨r, hr, rfl⟩)
    · intro hout
      exact absurd hout Bool.false_ne_true

/-- Of a packet that has been handed up nothing is kept. -/
theorem ip4Reass_gone (h : s.Inv) {p : Chain} (hout : (ip4Reass s fraghdr p).1.isSome = true) :
    ∀ r ∈ (ip4Reass s fraghdr p).2.datagrams, r.iphdr.key ≠ fraghdr.key := by
  obtain ⟨s₁, -, ⟨heq, -⟩ | ⟨s₂, i, hopen, heq, -⟩⟩ := ip4Reass_cases h fraghdr p
  · rw [heq] at hout
    exact absurd hout Bool.false_ne_true
  · rw [heq] at hout ⊢
    exact reassAt_gone hopen hout

theorem Reass.inv_init : Reass.Inv {} :=
  ⟨rfl, Nat.zero_le _, Nat.zero_le _, List.nodup_nil, nofun, nofun⟩

theorem Reass.Inv.eq_init (h : s.Inv) (hnil : s.datagrams = []) : s = {} := by
  obtain ⟨datagrams, pbufcount⟩ := s
  obtain rfl : datagrams = [] := hnil
  have hcount : pbufcount = pbufsOf [] := h.count
  rw [hcount]
  rfl

/-- Whatever arrives, however malformed, and however seldom the timer runs: what is counted are the
pbufs that are kept, at most ten of at most five packets, and every packet under way has fragments,
in order, and addresses and a number of its own. -/
theorem reass_inv_run (is : List ReassInput) : (Machine.run reassStep {} is).Inv := by
  have hstep : ∀ s i, s.Inv → (reassStep s i).Inv := by
    intro s i h
    cases i with
    | fragment fraghdr p => exact inv_ip4Reass h fraghdr p
    | tick => exact h.tick
  exact Machine.run_inv_of_step hstep Reass.inv_init

end Kept

end PodFirmware
