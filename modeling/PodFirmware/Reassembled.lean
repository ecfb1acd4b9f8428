import PodFirmware.Lib.Pieces
import PodFirmware.Reass

/-!
# PodFirmware.Reassembled

What `ip4_reass` puts together. Packets have been sent in fragments, which arrive in any order, some
of them more than once and some never, those of one packet between those of others. A fragment that
is put before another is not compared with the end of the one before it: there may be a hole.

* `Genuine`: a fragment of what has been sent.
* `Kept`: what holds of a packet under way.
* `reassembled_iff`: a packet that comes out is the one that was sent unless the fragment that
  completed it was put behind a hole. Then the bytes of the hole are missing.
* `reassembled_of_covered`: with the last fragment that was missing the packet comes out.
-/

namespace PodFirmware

open Pieces

/-- A packet that has been sent: its data, where it was cut, and its protocol. -/
structure SentPacket where
  cut : Cut UInt8
  proto : UInt8
  fits : ipHlen + cut.whole.length < 2 ^ 16

abbrev IpKey := UInt32 × UInt32 × UInt16

namespace Frag

def piece (q : Frag) : Piece UInt8 := ⟨q.start.toNat, q.p.bytes⟩

structure Of (c : Cut UInt8) (q : Frag) : Prop where
  piece : q.piece.Of c
  stop : q.stop.toNat = q.piece.stop

end Frag

/-- The fragment that the header describes. -/
def fragOf (fraghdr : IpHdr) (p : Chain) : Frag :=
  ⟨fraghdr.fragOffset, fraghdr.fragOffset + fraghdr.dataLen, p⟩

/-- A fragment of the packet. -/
structure Genuine (d : SentPacket) (fraghdr : IpHdr) (p : Chain) : Prop where
  vHl : fraghdr.vHl = 0x45
  proto : fraghdr.proto = d.proto
  of : (fragOf fraghdr p).Of d.cut
  more : fraghdr.moreFragments = true ↔ (fragOf fraghdr p).stop.toNat ≠ d.cut.whole.length

/-- Some fragments of the packet are there. -/
structure Known (d : SentPacket) (r : ReassData) : Prop where
  vHl : r.iphdr.vHl = 0x45
  proto : r.iphdr.proto = d.proto
  of : ∀ q ∈ r.p, q.Of d.cut
  last : r.lastfrag = true ↔ ∃ q ∈ r.p, q.stop.toNat = d.cut.whole.length
  len : r.lastfrag = true → r.datagramLen.toNat = d.cut.whole.length

/-- The packet is under way. -/
structure Kept (d : SentPacket) (r : ReassData) : Prop extends Known d r where
  waits : ¬Spans 0 d.cut.whole.length (r.p.map Frag.piece)

/-- There are fragments before and behind the new one, and none ends where it begins. -/
def Hole (l : List Frag) (iprh : Frag) : Prop :=
  (∃ q ∈ l, q.start < iprh.start) ∧ (∃ q ∈ l, iprh.start < q.start) ∧
    ∀ q ∈ l, q.start < iprh.start → q.stop ≠ iprh.start

/-- The fragment, and what is kept already, begin at every mark. -/
def Covered (d : SentPacket) (l : List Frag) (iprh : Frag) : Prop :=
  ∀ m, d.cut.mark m → m < d.cut.whole.length →
    m = iprh.start.toNat ∨ ∃ q ∈ l, q.start.toNat = m

/-! ## Segments -/

/-- How the bytes lie in segments makes no difference. -/
theorem piece_fragOf {p p' : Chain} (hbytes : p'.bytes = p.bytes) (fraghdr : IpHdr) :
    (fragOf fraghdr p').piece = (fragOf fraghdr p).piece :=
  congrArg (Piece.mk fraghdr.fragOffset.toNat) hbytes

theorem Genuine.congr {d : SentPacket} {fraghdr : IpHdr} {p p' : Chain}
    (h : Genuine d fraghdr p) (hbytes : p'.bytes = p.bytes) : Genuine d fraghdr p' := by
  have hpiece := piece_fragOf hbytes fraghdr
  refine ⟨h.vHl, h.proto, ⟨?_, ?_⟩, h.more⟩
  · rw [hpiece]
    exact h.of.piece
  · rw [hpiece]
    exact h.of.stop

/-! ## The place of a fragment -/

section Place

variable {c : Cut UInt8} {l : List Frag} {iprh : Frag} {placed : Placed} {x y : Nat}

theorem Frag.Of.stop_le {q r : Frag} (hq : q.Of c) (hr : r.Of c) (h : q.start < r.start) :
    q.stop.toNat ≤ r.start.toNat := by
  rw [hq.stop]
  exact hq.piece.stop_le hr.piece (UInt16.lt_iff_toNat_lt.mp h)

theorem Frag.Of.lt {q : Frag} (hq : q.Of c) : q.start.toNat < q.stop.toNat := by
  rw [hq.stop]
  exact hq.piece.lt

/-- Of genuine fragments only a second copy is thrown away. -/
theorem chainFrag_none_iff (horder : ByOffset l) (hl : ∀ q ∈ l, q.Of c) (hnew : iprh.Of c) :
    ipReassChainFrag iprh none true l = none ↔ ∃ q ∈ l, q.start = iprh.start := by
  constructor
  · intro h
    have hnone : ∀ prev ∈ (none : Option Frag), prev.start < iprh.start :=
      fun _ h => absurd h (Option.not_mem_none _)
    obtain ⟨q, hq, hover⟩ := ipReassChainFrag_none hnone h
    rw [Option.toList_none, List.nil_append] at hq
    rcases hover with heq | ⟨hlt, hin⟩ | ⟨hlt, hin⟩
    · exact ⟨q, hq, heq⟩
    · have hle := (hl q hq).stop_le hnew hlt
      exact absurd (UInt16.lt_iff_toNat_lt.mp hin) (Nat.not_lt.mpr hle)
    · have hle := hnew.stop_le (hl q hq) hlt
      exact absurd (UInt16.lt_iff_toNat_lt.mp hin) (Nat.not_lt.mpr hle)
  · rintro ⟨q, hq, heq⟩
    cases hplaced : ipReassChainFrag iprh none true l with
    | none => rfl
    | some placed =>
      obtain ⟨a, b, rfl, -, -, ha, hb, -⟩ := placed_split horder hplaced
      rcases List.mem_append.mp hq with hq | hq
      · exact absurd heq (UInt16.ne_of_lt (ha q hq).1)
      · exact absurd heq.symm (UInt16.ne_of_lt (hb q hq))

/-- The fragments of one packet that are contiguous. -/
theorem contiguous_of_spans (hl : ∀ q ∈ l, q.Of c) (h : Spans x y (l.map Frag.piece)) :
    contiguous l = true := by
  induction l generalizing x with
  | nil => rfl
  | cons q l ih =>
    obtain ⟨-, hrest⟩ := h
    rw [contiguous_cons, ih (fun r hr => hl r (List.mem_cons_of_mem _ hr)) hrest, Bool.and_true]
    cases l with
    | nil => rfl
    | cons r l =>
      have hstop := (hl q List.mem_cons_self).stop
      have hstart : r.start.toNat = q.piece.stop := hrest.1
      rw [List.head?_cons, Option.all_some, beq_iff_eq]
      exact UInt16.toNat_inj.mp (hstop.trans hstart.symm)

theorem spans_of_contiguous {q r : Frag} (hl : ∀ q ∈ l, q.Of c) (h : contiguous l = true)
    (hq : l.head? = some q) (hr : l.getLast? = some r) :
    Spans q.start.toNat r.stop.toNat (l.map Frag.piece) := by
  induction l generalizing q with
  | nil => cases hq
  | cons q' l ih =>
    obtain rfl := Option.some.inj hq
    have hstop := (hl q' List.mem_cons_self).stop
    refine ⟨rfl, ?_⟩
    cases l with
    | nil =>
      obtain rfl := Option.some.inj hr
      exact hstop.symm
    | cons s l =>
      rw [contiguous_cons, Bool.and_eq_true, List.head?_cons, Option.all_some, beq_iff_eq] at h
      have hrest := ih (fun r hr => hl r (List.mem_cons_of_mem _ hr)) h.2 rfl
        (by rwa [List.getLast?_cons_cons] at hr)
      rw [← hstop, h.1]
      exact hrest

/-- The fragment that ends where the packet ends is the last one. -/
theorem getLast_of_stop (horder : ByOffset l) (hl : ∀ q ∈ l, q.Of c) {q : Frag} (hq : q ∈ l)
    (hstop : q.stop.toNat = c.whole.length) : l.getLast? = some q := by
  induction l with
  | nil => exact absurd hq List.not_mem_nil
  | cons r l ih =>
    obtain ⟨hbefore, horder'⟩ := List.pairwise_cons.mp horder
    have hl' : ∀ r ∈ l, r.Of c := fun r hr => hl r (List.mem_cons_of_mem _ hr)
    cases l with
    | nil =>
      obtain rfl := List.mem_singleton.mp hq
      rfl
    | cons s l =>
      rw [List.getLast?_cons_cons]
      rcases List.mem_cons.mp hq with rfl | hq
      · -- nothing begins behind the end
        have hs := hl' s List.mem_cons_self
        have hle := (hl q List.mem_cons_self).stop_le hs (hbefore s List.mem_cons_self)
        have hlt := hs.lt
        have hend := c.le _ (hs.stop ▸ hs.piece.stop)
        omega
      · exact ih horder' hl' hq

theorem stop_le_getLast (horder : ByOffset l) (hl : ∀ q ∈ l, q.Of c) {q r : Frag} (hq : q ∈ l)
    (hr : l.getLast? = some r) : q.stop.toNat ≤ r.stop.toNat := by
  induction l with
  | nil => exact absurd hq List.not_mem_nil
  | cons s l ih =>
    obtain ⟨hbefore, horder'⟩ := List.pairwise_cons.mp horder
    have hl' : ∀ r ∈ l, r.Of c := fun r hr => hl r (List.mem_cons_of_mem _ hr)
    cases l with
    | nil =>
      obtain rfl := List.mem_singleton.mp hq
      obtain rfl := Option.some.inj hr
      exact Nat.le_refl _
    | cons t l =>
      rw [List.getLast?_cons_cons] at hr
      rcases List.mem_cons.mp hq with rfl | hq
      · have hrl := List.mem_of_getLast? hr
        have hle := (hl q List.mem_cons_self).stop_le (hl' r hrl) (hbefore r hrl)
        exact Nat.le_trans hle (Nat.le_of_lt (hl' r hrl).lt)
      · exact ih horder' hl' hq hr

/-- Fragments that begin at every mark are the whole. -/
theorem spans_of_starts (horder : ByOffset l) (hl : ∀ q ∈ l, q.Of c)
    (h : ∀ m, c.mark m → m < c.whole.length → ∃ q ∈ l, q.start.toNat = m) :
    Spans 0 c.whole.length (l.map Frag.piece) := by
  refine spans_of_covered ?_ ?_ c.zero (fun _ _ => Nat.zero_le _) ?_
  · intro q hq
    obtain ⟨r, hr, rfl⟩ := List.mem_map.mp hq
    exact (hl r hr).piece
  · exact List.pairwise_map.mpr (horder.imp UInt16.lt_iff_toNat_lt.mp)
  · intro m hm _ hlt
    obtain ⟨q, hq, hstart⟩ := h m hm hlt
    exact ⟨q.piece, List.mem_map_of_mem hq, hstart⟩

/-- What the checks say when the last fragment is there. -/
theorem complete_iff (horder : ByOffset l) (hl : ∀ q ∈ l, q.Of c) (hnew : iprh.Of c)
    (h : ipReassChainFrag iprh none true l = some placed)
    (hlast : ∃ q ∈ placed.chain, q.stop.toNat = c.whole.length) :
    ∃ a b, placed.chain = a ++ iprh :: b ∧
      (Spans 0 c.whole.length ((a ++ iprh :: b).map Frag.piece) → ¬Hole l iprh) ∧
      (placed.complete = true ↔ Spans 0 c.whole.length ((a ++ iprh :: b).map Frag.piece) ∨
        (Hole l iprh ∧ ∃ z, z < iprh.start.toNat ∧ Spans 0 z (a.map Frag.piece) ∧
          Spans iprh.start.toNat c.whole.length ((iprh :: b).map Frag.piece))) := by
  have hplaced := byOffset_placed horder h
  obtain ⟨a, b, rfl, hchain, hbehind, ha, hb, hvalid⟩ := placed_split horder h
  have hla : ∀ q ∈ a, q.Of c := fun q hq => hl q (List.mem_append_left _ hq)
  have hlb : ∀ q ∈ iprh :: b, q.Of c := by
    intro q hq
    rcases List.mem_cons.mp hq with rfl | hq
    · exact hnew
    · exact hl q (List.mem_append_right _ hq)
  have hlchain : ∀ q ∈ placed.chain, q.Of c := by
    rw [hchain]
    intro q hq
    rcases List.mem_append.mp hq with hq | hq
    · exact hla q hq
    · exact hlb q hq
  obtain ⟨e, he, hend⟩ := hlast
  have hgetLast := getLast_of_stop hplaced hlchain he hend
  have hgetLast' : (iprh :: b).getLast? = some e := by
    rwa [hchain, List.getLast?_append_of_ne_nil _ (List.cons_ne_nil _ _)] at hgetLast
  refine ⟨a, b, hchain, ?_, ?_⟩
  · rintro hspan ⟨⟨q, hq, hbefore⟩, -, hapart⟩
    rw [List.map_append] at hspan
    obtain ⟨z, hspana, hspanb⟩ := spans_append.mp hspan
    have hqa : q ∈ a :=
      (List.mem_append.mp hq).resolve_right fun hq => UInt16.lt_asymm (hb q hq) hbefore
    obtain ⟨r, hr⟩ := Option.ne_none_iff_exists'.mp
      (fun h => List.ne_nil_of_mem hqa (List.getLast?_eq_none_iff.mp h))
    have hra := List.mem_of_getLast? hr
    have hstop := hspana.getLast (q := r.piece) (by rw [List.getLast?_map, hr]; rfl)
    refine hapart r (List.mem_append_left _ hra) (ha r hra).1 (UInt16.toNat_inj.mp ?_)
    exact (hla r hra).stop.trans (hstop.trans hspanb.1.symm)
  rw [Placed.complete, hvalid, hchain, hbehind, Bool.true_and, Bool.and_eq_true, Bool.and_eq_true,
    Bool.and_eq_true, Bool.or_eq_true, and_assoc, and_assoc]
  constructor
  · rintro ⟨hca, hjoin, hzero, hcb⟩
    have hspanb := spans_of_contiguous hlb hcb rfl hgetLast'
    rw [hend] at hspanb
    cases hlastA : a.getLast? with
    | none =>
      obtain rfl := List.getLast?_eq_none_iff.mp hlastA
      left
      rw [List.nil_append, List.head?_cons, Option.any_some, beq_iff_eq] at hzero
      rw [hzero] at hspanb
      exact hspanb
    | some q =>
      obtain ⟨p, hhead⟩ : ∃ p, a.head? = some p := by
        cases a with
        | nil => cases hlastA
        | cons p a' => exact ⟨p, rfl⟩
      have hp : p ∈ a := List.mem_of_head? hhead
      have hspana := spans_of_contiguous hla hca hhead hlastA
      rw [List.head?_append_of_ne_nil _ (List.ne_nil_of_mem hp), hhead, Option.any_some,
        beq_iff_eq] at hzero
      rw [hzero] at hspana
      have hq := ha q (List.mem_of_getLast? hlastA)
      by_cases hmeet : q.stop = iprh.start
      · left
        rw [List.map_append]
        exact spans_append.mpr ⟨_, hspana, hmeet ▸ hspanb⟩
      · right
        have hlt : q.stop < iprh.start := UInt16.lt_of_le_of_ne hq.2 hmeet
        refine ⟨⟨⟨p, List.mem_append_left _ hp, (ha p hp).1⟩, ?_, fun r hr hbefore => ?_⟩, _,
          UInt16.lt_iff_toNat_lt.mp hlt, hspana, hspanb⟩
        · rw [hlastA, Option.all_some, beq_iff_eq] at hjoin
          cases b with
          | nil => exact absurd hjoin (by simpa using hmeet)
          | cons r b => exact ⟨r, by simp, hb r List.mem_cons_self⟩
        · rcases List.mem_append.mp hr with hr | hr
          · have hle := stop_le_getLast (List.pairwise_append.mp horder).1 hla hr hlastA
            rw [UInt16.lt_iff_toNat_lt] at hlt
            intro heq
            rw [heq] at hle
            omega
          · exact absurd hbefore (UInt16.lt_asymm (hb r hr))
  · have hends : ∀ z, Spans 0 z (a.map Frag.piece) →
        Spans iprh.start.toNat c.whole.length ((iprh :: b).map Frag.piece) →
        (b ≠ [] ∨ z = iprh.start.toNat) → (a ≠ [] ∨ z = iprh.start.toNat) →
        contiguous a = true ∧ ((!b.isEmpty) = true ∨
          (a.getLast?.all fun x => x.stop == iprh.start) = true) ∧
          ((a ++ iprh :: b).head?.any fun x => x.start == 0) = true ∧
            contiguous (iprh :: b) = true := by
      intro z hspana hspanb hne hne'
      refine ⟨contiguous_of_spans hla hspana, ?_, ?_, contiguous_of_spans hlb hspanb⟩
      · rcases hne with hne | rfl
        · left
          simpa using hne
        · right
          cases hlastA : a.getLast? with
          | none => rfl
          | some q =>
            have hstop := hspana.getLast (q := q.piece) (by rw [List.getLast?_map, hlastA]; rfl)
            rw [Option.all_some, beq_iff_eq]
            exact UInt16.toNat_inj.mp ((hla q (List.mem_of_getLast? hlastA)).stop.trans hstop)
      · cases a with
        | nil =>
          obtain rfl : 0 = z := hspana
          have hzero := hne'.resolve_left fun h => h rfl
          rw [List.nil_append, List.head?_cons, Option.any_some, beq_iff_eq]
          exact UInt16.toNat_inj.mp hzero.symm
        | cons p a =>
          rw [List.cons_append, List.head?_cons, Option.any_some, beq_iff_eq]
          exact UInt16.toNat_inj.mp hspana.1
    rintro (hspan | ⟨⟨⟨q, hq, hbefore⟩, ⟨r, hr, hafter⟩, -⟩, z, -, hspana, hspanb⟩)
    · rw [List.map_append] at hspan
      obtain ⟨z, hspana, hspanb⟩ := spans_append.mp hspan
      have hz : z = iprh.start.toNat := hspanb.1.symm
      rw [hz] at hspanb
      exact hends z hspana hspanb (.inr hz) (.inr hz)
    · refine hends z hspana hspanb (.inl ?_) (.inl ?_)
      · rcases List.mem_append.mp hr with hr | hr
        · exact absurd hafter (UInt16.lt_asymm (ha r hr).1)
        · exact List.ne_nil_of_mem hr
      · rcases List.mem_append.mp hq with hq | hq
        · exact List.ne_nil_of_mem hq
        · exact absurd hbefore (UInt16.lt_asymm (hb q hq))

end Place

/-! ## A packet under way -/

section Packet

variable {d : SentPacket} {s : Reass} {fraghdr : IpHdr} {p : Chain} {i : Nat}

theorem Genuine.stop_le (h : Genuine d fraghdr p) : 0 < (fragOf fraghdr p).stop.toNat ∧
    (fragOf fraghdr p).stop.toNat ≤ d.cut.whole.length := by
  have hle := d.cut.le _ (h.of.stop ▸ h.of.piece.stop)
  exact ⟨Nat.lt_of_le_of_lt (Nat.zero_le _) h.of.lt, hle⟩

theorem Genuine.new (h : Genuine d fraghdr p) : Kept d (newDatagram fraghdr) := by
  obtain ⟨hpos, hle⟩ := h.stop_le
  refine ⟨⟨h.vHl, h.proto, nofun, ?_, nofun⟩, ?_⟩
  · refine iff_of_false nofun fun hlast => ?_
    obtain ⟨q, hq, -⟩ := hlast
    exact List.not_mem_nil hq
  · intro hspan
    have hzero : 0 = d.cut.whole.length := hspan
    omega

theorem meet_lastfrag (ipr : ReassData) (fraghdr : IpHdr) :
    (ipr.meet fraghdr).lastfrag = (ipr.lastfrag || !fraghdr.moreFragments) := by
  rw [ReassData.meet]
  split
  · next hmore =>
    rw [hmore, Bool.not_true, Bool.or_false]
    split <;> rfl
  · next hmore =>
    rw [Bool.eq_false_iff.mpr hmore, Bool.not_false, Bool.or_true]

theorem meet_datagramLen (ipr : ReassData) (fraghdr : IpHdr) (p : Chain) :
    (ipr.meet fraghdr).datagramLen =
      if fraghdr.moreFragments then ipr.datagramLen else (fragOf fraghdr p).stop := by
  rw [ReassData.meet]
  split
  · split <;> rfl
  · rfl

theorem meet_iphdr (ipr : ReassData) (fraghdr : IpHdr) :
    (ipr.meet fraghdr).iphdr = ipr.iphdr ∨ (ipr.meet fraghdr).iphdr = fraghdr := by
  rw [ReassData.meet]
  split
  · split
    · exact .inr rfl
    · exact .inl rfl
  · split
    · exact .inr rfl
    · exact .inl rfl

/-- The packet has met the fragment, and it has these fragments then. -/
theorem Known.meet {ipr : ReassData} {l : List Frag} (h : Known d ipr)
    (hgen : Genuine d fraghdr p) (hsub : ∀ q ∈ l, q ∈ ipr.p ∨ q = fragOf fraghdr p)
    (hsup : ∀ q ∈ ipr.p, q ∈ l) (hnew : ∃ q ∈ l, q.stop = (fragOf fraghdr p).stop) :
    Known d { ipr.meet fraghdr with p := l } := by
  have hmore := hgen.more
  constructor
  · dsimp only
    rcases meet_iphdr ipr fraghdr with hhdr | hhdr
    · rw [hhdr]
      exact h.vHl
    · rw [hhdr]
      exact hgen.vHl
  · dsimp only
    rcases meet_iphdr ipr fraghdr with hhdr | hhdr
    · rw [hhdr]
      exact h.proto
    · rw [hhdr]
      exact hgen.proto
  · intro q hq
    rcases hsub q hq with hq | rfl
    · exact h.of q hq
    · exact hgen.of
  · dsimp only
    rw [meet_lastfrag, Bool.or_eq_true, h.last, Bool.not_eq_true', ← Bool.not_eq_true, hmore,
      not_not]
    constructor
    · rintro (⟨q, hq, hstop⟩ | hstop)
      · exact ⟨q, hsup q hq, hstop⟩
      · obtain ⟨q, hq, hsame⟩ := hnew
        exact ⟨q, hq, hsame ▸ hstop⟩
    · rintro ⟨q, hq, hstop⟩
      rcases hsub q hq with hq | rfl
      · exact .inl ⟨q, hq, hstop⟩
      · exact .inr hstop
  · dsimp only
    rw [meet_lastfrag, meet_datagramLen ipr fraghdr p]
    intro hflag
    split
    · next hmoreTrue =>
      rw [hmoreTrue, Bool.not_true, Bool.or_false] at hflag
      exact h.len hflag
    · next hmoreFalse => exact not_not.mp fun hne => hmoreFalse (hmore.mpr hne)

/-- What is handed up: a packet of which one hole may be missing. -/
structure Handed (d : SentPacket) (fraghdr : IpHdr) (l : List Frag) (p : Chain)
    (hdr : IpHdr) (q : Chain) : Prop where
  key : hdr.key = fraghdr.key
  vHl : hdr.vHl = 0x45
  proto : hdr.proto = d.proto
  offset : hdr.offset = 0
  len : hdr.len = lwipHtons (UInt16.ofNat (ipHlen + d.cut.whole.length))
  chksum : inetChksum hdr.bytes = 0
  covered : ¬Hole l (fragOf fraghdr p) → Covered d l (fragOf fraghdr p)
  whole : q.bytes = d.cut.whole ↔ ¬Hole l (fragOf fraghdr p)
  hole : Hole l (fragOf fraghdr p) → ∃ x y, x < y ∧ y ≤ d.cut.whole.length ∧
    q.bytes = d.cut.whole.take x ++ d.cut.whole.drop y

theorem header_spec {ipr : ReassData} :
    ipr.header.key = ipr.iphdr.key ∧ ipr.header.vHl = ipr.iphdr.vHl ∧
      ipr.header.proto = ipr.iphdr.proto ∧ ipr.header.offset = 0 ∧
      ipr.header.len = lwipHtons (ipr.datagramLen + UInt16.ofNat ipHlen) ∧
      inetChksum ipr.header.bytes = 0 := by
  refine ⟨rfl, rfl, rfl, rfl, rfl, ?_⟩
  have hstored := @inetChksum_stored [] (Nat.zero_le _)
    { ipr.iphdr with
      len := lwipHtons (ipr.datagramLen + UInt16.ofNat ipHlen), offset := 0, chksum := 0 }
  rw [List.append_nil, List.append_nil] at hstored
  exact hstored

theorem bytes_chain (ipr : ReassData) :
    ipr.chain.bytes = (ipr.p.map Frag.piece).flatMap (·.data) := by
  have hsegs : ipr.chain.bytes = (ipr.p.flatMap fun q => q.p.segs).flatten := rfl
  rw [hsegs]
  induction ipr.p with
  | nil => rfl
  | cons q l ih =>
    rw [List.flatMap_cons, List.flatten_append, ih]
    rfl

theorem slice_take (D : List UInt8) (n : Nat) : Bytes.slice D 0 n = D.take n := rfl

theorem slice_drop (D : List UInt8) (n : Nat) : Bytes.slice D n (D.length - n) = D.drop n :=
  List.take_of_length_le (Nat.le_of_eq List.length_drop)

theorem handed_of_complete {r : ReassData} {l a b : List Frag} (h : Known d r)
    (hkey : r.iphdr.key = fraghdr.key)
    (hmem : ∀ q ∈ r.p, q ∈ l ∨ q = fragOf fraghdr p)
    (hflag : r.lastfrag = true) (hchain : r.p = a ++ fragOf fraghdr p :: b)
    (hwhole : Spans 0 d.cut.whole.length ((a ++ fragOf fraghdr p :: b).map Frag.piece) →
      ¬Hole l (fragOf fraghdr p))
    (hcomplete : Spans 0 d.cut.whole.length ((a ++ fragOf fraghdr p :: b).map Frag.piece) ∨
      (Hole l (fragOf fraghdr p) ∧ ∃ z, z < (fragOf fraghdr p).start.toNat ∧
        Spans 0 z (a.map Frag.piece) ∧
        Spans (fragOf fraghdr p).start.toNat d.cut.whole.length
          ((fragOf fraghdr p :: b).map Frag.piece))) :
    Handed d fraghdr l p r.header r.chain := by
  obtain ⟨hdrKey, hdrVHl, hdrProto, hdrOffset, hdrLen, hdrChksum⟩ := @header_spec r
  have hlen := h.len hflag
  have hfits := d.fits
  have hpieces : ∀ l' : List Frag, (∀ q ∈ l', q ∈ r.p) →
      ∀ q ∈ l'.map Frag.piece, q.Of d.cut := by
    intro l' hl' q hq
    obtain ⟨q', hq', rfl⟩ := List.mem_map.mp hq
    exact (h.of q' (hl' q' hq')).piece
  have hbytes := bytes_chain r
  rw [hchain] at hbytes
  have hmissing : Hole l (fragOf fraghdr p) → ∃ x y, x < y ∧ y ≤ d.cut.whole.length ∧
      r.chain.bytes = d.cut.whole.take x ++ d.cut.whole.drop y := by
    intro hhole
    obtain ⟨-, z, hz, hspana, hspanb⟩ := hcomplete.resolve_left fun h => hwhole h hhole
    have hb := hspanb.flatMap (hpieces _ fun q hq => hchain ▸ List.mem_append_right _ hq)
    have ha := hspana.flatMap (hpieces _ fun q hq => hchain ▸ List.mem_append_left _ hq)
    rw [Nat.sub_zero, slice_take] at ha
    rw [slice_drop] at hb
    refine ⟨z, _, hz, hb.1, ?_⟩
    rw [hbytes, List.map_append, List.flatMap_append, ha.2, hb.2]
  constructor
  · exact hdrKey.trans hkey
  · exact hdrVHl.trans h.vHl
  · exact hdrProto.trans h.proto
  · exact hdrOffset
  · rw [hdrLen]
    congr 1
    apply UInt16.toNat_inj.mp
    rw [UInt16.toNat_add, UInt16.toNat_ofNat', UInt16.toNat_ofNat', hlen]
    omega
  · exact hdrChksum
  · intro hno m hm hlt
    have hspan := hcomplete.resolve_right fun h => hno h.1
    obtain ⟨q, hq, hstart⟩ := hspan.covers (hpieces _ fun q hq => hchain ▸ hq) hm (Nat.zero_le m) hlt
    obtain ⟨q', hq', rfl⟩ := List.mem_map.mp hq
    rcases hmem q' (hchain ▸ hq') with hl | rfl
    · exact .inr ⟨q', hl, hstart⟩
    · exact .inl hstart.symm
  · constructor
    · intro hsame hhole
      obtain ⟨x, y, hxy, hy, hdata⟩ := hmissing hhole
      have hshort := congrArg List.length (hdata.symm.trans hsame)
      rw [List.length_append, List.length_take, List.length_drop] at hshort
      omega
    · intro hno
      have hspan := hcomplete.resolve_right fun h => hno h.1
      have hdata := (hspan.flatMap (hpieces _ fun q hq => hchain ▸ hq)).2
      rw [Nat.sub_zero, slice_take, List.take_length] at hdata
      rw [hbytes, hdata]
  · exact hmissing

/-- The fragments with the new one, unless one begins there already. -/
def Joined (l : List Frag) (iprh : Frag) (l' : List Frag) : Prop :=
  ∀ q, q ∈ l' ↔ q ∈ l ∨ (q = iprh ∧ ∀ r ∈ l, r.start ≠ iprh.start)

/-- What becomes of the fragments `l` of a packet when one more meets it. -/
structure Met (d : SentPacket) (fraghdr : IpHdr) (p : Chain) (l : List Frag)
    (out : Option (IpHdr × Chain)) (s : Reass) : Prop where
  kept : ∀ r ∈ s.datagrams, r.iphdr.key = fraghdr.key → Kept d r
  handed : ∀ hdr q, out = some (hdr, q) → Handed d fraghdr l p hdr q
  covered : Covered d l (fragOf fraghdr p) → out.isSome = true
  joined : out = none →
    ∃ r ∈ s.datagrams, r.iphdr.key = fraghdr.key ∧ Joined l (fragOf fraghdr p) r.p
  first : ∀ hdr q, out = some (hdr, q) → ¬Hole l (fragOf fraghdr p) →
    ∃ r, (r ∈ l ∨ r = fragOf fraghdr p) ∧ r.start.toNat = 0 ∧ ∃ rest, q.segs = r.p.segs ++ rest

/-- The chain begins with the pbufs of the first fragment. -/
theorem first_of_spans {r : ReassData} {l : List Frag} {iprh : Frag} {n : Nat} (hne : r.p ≠ [])
    (hmem : ∀ q ∈ r.p, q ∈ l ∨ q = iprh) (hspan : Spans 0 n (r.p.map Frag.piece)) :
    ∃ q, (q ∈ l ∨ q = iprh) ∧ q.start.toNat = 0 ∧ ∃ rest, r.chain.segs = q.p.segs ++ rest := by
  obtain ⟨iphdr, lastfrag, datagramLen, timer, ps⟩ := r
  cases ps with
  | nil => exact absurd rfl hne
  | cons q ps =>
    have hsegs : ((q :: ps).flatMap fun q => q.p.segs) = q.p.segs ++ ps.flatMap fun q => q.p.segs :=
      List.flatMap_cons
    exact ⟨q, hmem q List.mem_cons_self, hspan.1, _, hsegs⟩

theorem pbufcount_reassAt (s : Reass) (i : Nat) (fraghdr : IpHdr) (p : Chain) :
    (reassAt s i fraghdr p).2.pbufcount ≤ s.pbufcount := by
  rw [reassAt]
  split
  · exact Nat.le_refl _
  · dsimp only
    split
    · exact Nat.sub_le _ _
    · split
      · exact Nat.sub_le _ _
      · exact Nat.le_refl _

theorem mem_reassAt (h : s.Open i fraghdr p) {r : ReassData}
    (hr : r ∈ (reassAt s i fraghdr p).2.datagrams) :
    r.iphdr.key = fraghdr.key ∨ r ∈ s.datagrams := by
  obtain ⟨ipr, hipr, hkey⟩ := h.own
  have hset : ∀ r', r'.iphdr.key = fraghdr.key → r ∈ s.datagrams.set i r' →
      r.iphdr.key = fraghdr.key ∨ r ∈ s.datagrams := by
    intro r' hkey' hr
    rcases List.mem_or_eq_of_mem_set hr with hr | rfl
    · exact .inr hr
    · exact .inl hkey'
  rw [reassAt, hipr] at hr
  dsimp only at hr
  split at hr
  · exact hset _ ((meet_key hkey).trans hkey) hr
  · next placed hplaced =>
    split at hr
    · exact .inr ((List.eraseIdx_sublist _ _).subset hr)
    · exact hset { ipr.meet fraghdr with p := placed.chain } ((meet_key hkey).trans hkey) hr

/-- The fragment is a second copy, or the packet has one more. -/
theorem reassAt_met (h : s.Open i fraghdr p)
    (hkept : ∀ r ∈ s.datagrams, r.iphdr.key = fraghdr.key → Kept d r)
    (hgen : Genuine d fraghdr p) :
    ∃ ipr ∈ s.datagrams, ipr.iphdr.key = fraghdr.key ∧
      Met d fraghdr p ipr.p (reassAt s i fraghdr p).1 (reassAt s i fraghdr p).2 := by
  obtain ⟨ipr, hipr, hkey⟩ := h.own
  have hmem := List.mem_of_getElem? hipr
  have hk := hkept ipr hmem hkey
  have horder := h.byOffset ipr hmem
  obtain ⟨hi, -⟩ := List.getElem?_eq_some_iff.mp hipr
  have hreplaced : ∀ r', Kept d r' → ∀ r ∈ s.datagrams.set i r', r.iphdr.key = fraghdr.key →
      Kept d r := by
    intro r' hr' r hr hrkey
    rcases List.mem_or_eq_of_mem_set hr with hr | rfl
    · exact hkept r hr hrkey
    · exact hr'
  refine ⟨ipr, hmem, hkey, ?_⟩
  have hpiece : (⟨fraghdr.fragOffset, fraghdr.fragOffset + fraghdr.dataLen, p⟩ : Frag) =
      fragOf fraghdr p := rfl
  have hkey' : (ipr.meet fraghdr).iphdr.key = fraghdr.key := (meet_key hkey).trans hkey
  have hsame : ∀ l, l = ipr.p → { ipr.meet fraghdr with p := l } = ipr.meet fraghdr := by
    rintro l rfl
    rw [← meet_p ipr fraghdr]
  rw [reassAt, hipr]
  dsimp only
  rw [hpiece, meet_p]
  split
  · next hnone =>
    obtain ⟨q, hq, hstart⟩ := (chainFrag_none_iff horder hk.of hgen.of).mp hnone
    have hstop : q.stop = (fragOf fraghdr p).stop := by
      apply UInt16.toNat_inj.mp
      rw [(hk.of q hq).stop, hgen.of.stop]
      exact (hk.of q hq).piece.stop_eq hgen.of.piece (congrArg UInt16.toNat hstart)
    refine ⟨hreplaced _ ?_, ?_, fun hcovered => absurd ?_ hk.waits,
      fun _ => ⟨_, List.mem_set hi _, hkey', fun r => ?_⟩, ?_⟩
    · rw [← hsame _ rfl]
      exact ⟨hk.toKnown.meet hgen (fun _ h => .inl h) (fun _ h => h) ⟨q, hq, hstop⟩, hk.waits⟩
    · intro hdr q hout
      cases hout
    · refine spans_of_starts horder hk.of fun m hm hlt => ?_
      rcases hcovered m hm hlt with rfl | hheld
      · exact ⟨q, hq, congrArg UInt16.toNat hstart⟩
      · exact hheld
    · rw [meet_p]
      exact ⟨.inl, fun hr => hr.resolve_right fun hnew => hnew.2 q hq hstart⟩
    · intro hdr q hout
      cases hout
  · next placed hplaced =>
    have hmemChain : ∀ q, q ∈ placed.chain ↔ q ∈ ipr.p ∨ q = fragOf fraghdr p := by
      obtain ⟨c, e, hp, hchain, -⟩ := ipReassChainFrag_some hplaced
      intro q
      rw [hp, hchain, List.mem_append, List.mem_append, List.mem_cons]
      tauto
    have hnew : fragOf fraghdr p ∈ placed.chain := (hmemChain _).mpr (.inr rfl)
    have hknown := hk.toKnown.meet hgen (fun q => (hmemChain q).mp)
      (fun q hq => (hmemChain q).mpr (.inl hq)) ⟨_, hnew, rfl⟩
    have hlast := hknown.last
    dsimp only at hlast
    split
    · next hdone =>
      rw [Bool.and_eq_true] at hdone
      obtain ⟨a, b, hchain, hwhole, hiff⟩ :=
        complete_iff horder hk.of hgen.of hplaced (hlast.mp hdone.1)
      refine ⟨fun r hr => hkept r ((List.eraseIdx_sublist _ _).subset hr), ?_, fun _ => rfl, ?_, ?_⟩
      · intro hdr q hout
        obtain ⟨rfl, rfl⟩ := Prod.mk.inj (Option.some.inj hout)
        exact handed_of_complete hknown hkey' (fun q => (hmemChain q).mp) hdone.1 hchain hwhole
          (hiff.mp hdone.2)
      · intro hout
        cases hout
      · intro hdr q hout hno
        obtain ⟨rfl, rfl⟩ := Prod.mk.inj (Option.some.inj hout)
        have hspan := (hiff.mp hdone.2).resolve_right fun h => hno h.1
        rw [← hchain] at hspan
        exact first_of_spans (List.ne_nil_of_mem hnew) (fun q => (hmemChain q).mp) hspan
    · next hnot =>
      have hwaits' : ¬Spans 0 d.cut.whole.length (placed.chain.map Frag.piece) := by
        intro hspan
        obtain ⟨q, hgetLast⟩ := Option.ne_none_iff_exists'.mp
          (fun h => List.ne_nil_of_mem hnew (List.getLast?_eq_none_iff.mp h))
        have hq := List.mem_of_getLast? hgetLast
        have hend := hspan.getLast (q := q.piece) (by rw [List.getLast?_map, hgetLast]; rfl)
        have hlast' : ∃ q ∈ placed.chain, q.stop.toNat = d.cut.whole.length :=
          ⟨q, hq, (hknown.of q hq).stop.trans hend⟩
        obtain ⟨a, b, hchain, -, hiff⟩ := complete_iff horder hk.of hgen.of hplaced hlast'
        rw [hchain] at hspan
        exact hnot (Bool.and_eq_true_iff.mpr ⟨hlast.mpr hlast', hiff.mpr (.inl hspan)⟩)
      refine ⟨hreplaced _ ⟨hknown, hwaits'⟩, ?_, fun hcovered => absurd ?_ hwaits',
        fun _ => ⟨_, List.mem_set hi _, hkey', fun q => ?_⟩, ?_⟩
      · intro hdr q hout
        cases hout
      · refine spans_of_starts (byOffset_placed horder hplaced) hknown.of fun m hm hlt => ?_
        rcases hcovered m hm hlt with rfl | ⟨q, hq, hstart⟩
        · exact ⟨_, hnew, rfl⟩
        · exact ⟨q, (hmemChain q).mpr (.inl hq), hstart⟩
      · rw [hmemChain]
        refine or_congr_right ⟨fun hq => ⟨hq, fun r hr hstart => ?_⟩, And.left⟩
        rw [(chainFrag_none_iff horder hk.of hgen.of).mpr ⟨r, hr, hstart⟩] at hplaced
        cases hplaced
      · intro hdr q hout
        cases hout

/-- The fragments that are kept of a packet. -/
def held (s : Reass) (key : IpKey) : List Frag :=
  ((s.datagrams.find? fun r => r.iphdr.key = key).map (·.p)).getD []

theorem held_of_mem {r : ReassData} (h : (keys s.datagrams).Nodup) (hr : r ∈ s.datagrams) :
    held s r.iphdr.key = r.p := by
  have hfind : s.datagrams.find? (fun r' => r'.iphdr.key = r.iphdr.key) = some r := by
    cases hf : s.datagrams.find? fun r' => r'.iphdr.key = r.iphdr.key with
    | none =>
      exact absurd (decide_eq_true rfl) (List.find?_eq_none.mp hf r hr)
    | some r' =>
      have hkey : r'.iphdr.key = r.iphdr.key := by simpa using List.find?_some hf
      rw [List.inj_on_of_nodup_map h (List.mem_of_find?_eq_some hf) hr hkey]
  rw [held, hfind]
  rfl

theorem held_of_not_mem {key : IpKey} (h : ∀ r ∈ s.datagrams, r.iphdr.key ≠ key) :
    held s key = [] := by
  have hfind : s.datagrams.find? (fun r => r.iphdr.key = key) = none :=
    List.find?_eq_none.mpr fun r hr hkey => h r hr (of_decide_eq_true hkey)
  rw [held, hfind]
  rfl

theorem held_spared (h : s.Inv) {s' : Reass} (hs : Spared fraghdr s s') :
    held s' fraghdr.key = held s fraghdr.key := by
  by_cases hex : ∃ r ∈ s.datagrams, r.iphdr.key = fraghdr.key
  · obtain ⟨r, hr, hkey⟩ := hex
    have hr' := hs.own r hr (ipAddressesAndIdMatch_iff.mpr hkey)
    rw [← hkey, held_of_mem h.distinct hr, held_of_mem (h.spared hs).distinct hr']
  · have hno : ∀ r ∈ s.datagrams, r.iphdr.key ≠ fraghdr.key := fun r hr hkey => hex ⟨r, hr, hkey⟩
    rw [held_of_not_mem hno, held_of_not_mem fun r hr => hno r (hs.sublist.subset hr)]

/-- There is room for its pbufs and for its packet. -/
def HasRoom (s : Reass) (fraghdr : IpHdr) (p : Chain) : Prop :=
  s.pbufcount + p.clen ≤ ipReassMaxPbufs ∧
    (s.datagrams.length < memNumReassdata ∨ ∃ r ∈ s.datagrams, r.iphdr.key = fraghdr.key)

/-- The packet of a fragment, before and after it is there. -/
theorem ip4Reass_opened (h : s.Inv) (fraghdr : IpHdr) (p : Chain) :
    (∃ s₁, Spared fraghdr s s₁ ∧ ip4Reass s fraghdr p = (none, s₁) ∧
        (fraghdr.vHl = 0x45 → ¬HasRoom s fraghdr p)) ∨
      ∃ s₂ i, s₂.Open i fraghdr p ∧ ip4Reass s fraghdr p = reassAt s₂ i fraghdr p ∧
        s₂.pbufcount ≤ s.pbufcount + p.clen ∧
        held s₂ fraghdr.key = held s fraghdr.key ∧
        (∀ r ∈ s₂.datagrams, r ∈ s.datagrams ∨ r = newDatagram fraghdr) := by
  obtain ⟨s₁, hspared, hcases⟩ := ip4Reass_cases h fraghdr p
  rcases hcases with ⟨heq, hwhy⟩ | ⟨s₂, i, hopen, heq, hdatagrams⟩
  · refine .inl ⟨s₁, hspared, heq, fun hvHl hspace => ?_⟩
    obtain ⟨hroom, hplace⟩ := hspace
    rcases hwhy with hhl | hfull | ⟨hno, hfull⟩
    · rw [IpHdr.hl, hvHl] at hhl
      exact hhl rfl
    · exact absurd hroom (Nat.not_le.mpr hfull)
    · rcases hplace with hlt | ⟨r, hr, hkey⟩
      · exact absurd hlt (Nat.not_lt.mpr hfull)
      · exact absurd hkey (hno r hr)
  · have hcount := hopen.count
    have hle := pbufsOf_le hspared.sublist
    rw [← h.count] at hle
    refine .inr ⟨s₂, i, hopen, heq, ?_, ?_, ?_⟩
    · rcases hdatagrams with hsame | ⟨-, hnew⟩
      · rw [hsame] at hcount
        omega
      · have hclen : (newDatagram fraghdr).clen = 0 := rfl
        rw [hnew, pbufsOf_cons, hclen] at hcount
        omega
    · rw [← held_spared h hspared]
      rcases hdatagrams with hsame | ⟨hno, hnew⟩
      · rw [held, hsame]
        rfl
      · have hmem : newDatagram fraghdr ∈ s₂.datagrams := hnew ▸ List.mem_cons_self
        exact (held_of_mem hopen.distinct hmem).trans (held_of_not_mem hno).symm
    · intro r hr
      rcases hdatagrams with hsame | ⟨-, hnew⟩
      · exact .inl (hspared.sublist.subset (hsame ▸ hr))
      · rw [hnew] at hr
        exact (List.mem_cons.mp hr).symm.imp_left fun hr => hspared.sublist.subset hr

/-- Packets other than that of the fragment stay as they are, or are given up. -/
theorem mem_ip4Reass (h : s.Inv) {r : ReassData} (hr : r ∈ (ip4Reass s fraghdr p).2.datagrams) :
    r.iphdr.key = fraghdr.key ∨ r ∈ s.datagrams := by
  rcases ip4Reass_opened h fraghdr p with ⟨s₁, hspared, heq, -⟩ | ⟨s₂, i, hopen, heq, -, -, hfrom⟩
  · rw [heq] at hr
    exact .inr (hspared.sublist.subset hr)
  · rw [heq] at hr
    rcases mem_reassAt hopen hr with hkey | hr
    · exact .inl hkey
    · rcases hfrom r hr with hr | rfl
      · exact .inr hr
      · exact .inl rfl

/-- What a fragment does to the packet it belongs to. -/
structure Meets (d : SentPacket) (s : Reass) (fraghdr : IpHdr) (p : Chain) : Prop where
  kept : ∀ r ∈ (ip4Reass s fraghdr p).2.datagrams, r.iphdr.key = fraghdr.key → Kept d r
  handed : ∀ hdr q, (ip4Reass s fraghdr p).1 = some (hdr, q) →
    Handed d fraghdr (held s fraghdr.key) p hdr q
  covered : HasRoom s fraghdr p → Covered d (held s fraghdr.key) (fragOf fraghdr p) →
    (ip4Reass s fraghdr p).1.isSome = true
  joined : HasRoom s fraghdr p → (ip4Reass s fraghdr p).1 = none →
    (∃ r ∈ (ip4Reass s fraghdr p).2.datagrams, r.iphdr.key = fraghdr.key) ∧
      Joined (held s fraghdr.key) (fragOf fraghdr p)
        (held (ip4Reass s fraghdr p).2 fraghdr.key) ∧
      (ip4Reass s fraghdr p).2.pbufcount ≤ s.pbufcount + p.clen
  first : ∀ hdr q, (ip4Reass s fraghdr p).1 = some (hdr, q) →
    ¬Hole (held s fraghdr.key) (fragOf fraghdr p) →
    ∃ r, (r ∈ held s fraghdr.key ∨ r = fragOf fraghdr p) ∧ r.start.toNat = 0 ∧
      ∃ rest, q.segs = r.p.segs ++ rest

theorem ip4Reass_spec (h : s.Inv)
    (hkept : ∀ r ∈ s.datagrams, r.iphdr.key = fraghdr.key → Kept d r)
    (hgen : Genuine d fraghdr p) : Meets d s fraghdr p := by
  have hinv := inv_ip4Reass h fraghdr p
  rcases ip4Reass_opened h fraghdr p with
    ⟨s₁, hspared, heq, hno⟩ | ⟨s₂, i, hopen, heq, hcount, hheld, hfrom⟩
  · refine ⟨?_, ?_, fun hroom => absurd hroom (hno hgen.vHl),
      fun hroom => absurd hroom (hno hgen.vHl), ?_⟩
    · rw [heq]
      exact fun r hr => hkept r (hspared.sublist.subset hr)
    · rw [heq]
      exact nofun
    · rw [heq]
      exact nofun
  · have hkept₂ : ∀ r ∈ s₂.datagrams, r.iphdr.key = fraghdr.key → Kept d r := by
      intro r hr hkey
      rcases hfrom r hr with hr | rfl
      · exact hkept r hr hkey
      · exact hgen.new
    obtain ⟨ipr, hmem, hkey, hmet⟩ := reassAt_met hopen hkept₂ hgen
    have hp : ipr.p = held s fraghdr.key := by
      rw [← hheld, ← hkey, held_of_mem hopen.distinct hmem]
    rw [hp, ← heq] at hmet
    refine ⟨hmet.kept, hmet.handed, fun _ => hmet.covered, fun _ hout => ?_, hmet.first⟩
    obtain ⟨r, hr, hrkey, hjoined⟩ := hmet.joined hout
    refine ⟨⟨r, hr, hrkey⟩, ?_, ?_⟩
    · rw [← hrkey, held_of_mem hinv.distinct hr, hrkey]
      exact hjoined
    · have hle := pbufcount_reassAt s₂ i fraghdr p
      rw [← heq] at hle
      exact Nat.le_trans hle hcount

/-- If there is no hole, the fragment that was missing is the one with which the packet comes out. -/
theorem Meets.isSome_iff (h : Meets d s fraghdr p) (hroom : HasRoom s fraghdr p)
    (hno : ¬Hole (held s fraghdr.key) (fragOf fraghdr p)) :
    (ip4Reass s fraghdr p).1.isSome = true ↔
      Covered d (held s fraghdr.key) (fragOf fraghdr p) := by
  refine ⟨fun hsome => ?_, h.covered hroom⟩
  obtain ⟨⟨hdr, q⟩, hout⟩ := Option.isSome_iff_exists.mp hsome
  exact (h.handed hdr q hout).covered hno

end Packet

/-! ## Runs -/

section Runs

variable {sent : IpKey → Option SentPacket} {s : Reass}

/-- What arrives of the packets that are looked at are fragments of them; of others, anything. -/
def Sent (sent : IpKey → Option SentPacket) : ReassInput → Prop
  | .fragment fraghdr p => ∀ d, sent fraghdr.key = some d → Genuine d fraghdr p
  | .tick => True

structure Collects (sent : IpKey → Option SentPacket) (s : Reass) : Prop where
  inv : s.Inv
  kept : ∀ r ∈ s.datagrams, ∀ d, sent r.iphdr.key = some d → Kept d r

theorem kept_tick (h : ∀ r ∈ s.datagrams, ∀ d, sent r.iphdr.key = some d → Kept d r) :
    ∀ r ∈ (ipReassTmr s).datagrams, ∀ d, sent r.iphdr.key = some d → Kept d r := by
  have hlist := tmrLoop_fst s.datagrams s.pbufcount
  intro r hr d hd
  have hr : r ∈ (tmrLoop s.datagrams s.pbufcount).1 := hr
  rw [hlist] at hr
  obtain ⟨r', hr', rfl⟩ := List.mem_map.mp hr
  have hk := h r' (List.mem_filter.mp hr').1 d hd
  exact ⟨⟨hk.vHl, hk.proto, hk.of, hk.last, hk.len⟩, hk.waits⟩

theorem Collects.meets (h : Collects sent s) {fraghdr : IpHdr} {p : Chain}
    (hi : Sent sent (.fragment fraghdr p)) {d : SentPacket} (hd : sent fraghdr.key = some d) :
    Meets d s fraghdr p :=
  ip4Reass_spec h.inv (fun r hr hkey => h.kept r hr d (hkey ▸ hd)) (hi d hd)

theorem collects_step (s : Reass) (i : ReassInput) (h : Collects sent s) (hi : Sent sent i) :
    Collects sent (reassStep s i) := by
  cases i with
  | fragment fraghdr p =>
    refine ⟨inv_ip4Reass h.inv fraghdr p, fun r hr d hd => ?_⟩
    rcases mem_ip4Reass h.inv hr with hkey | hold
    · rw [hkey] at hd
      exact (h.meets hi hd).kept r hr hkey
    · exact h.kept r hold d hd
  | tick => exact ⟨h.inv.tick, kept_tick h.kept⟩

theorem collects_init (sent : IpKey → Option SentPacket) : Collects sent {} :=
  ⟨Reass.inv_init, nofun⟩

/-- Whatever comes out of a run is what was sent, if the fragment that completed it was not put
behind a hole, and lacks the bytes of the hole otherwise. -/
theorem reassembled_iff {is : List ReassInput} (his : ∀ i ∈ is, Sent sent i) :
    Machine.Always reassStep (fun s i => ∀ fraghdr p hdr q d, i = .fragment fraghdr p →
      sent fraghdr.key = some d → (ip4Reass s fraghdr p).1 = some (hdr, q) →
        Handed d fraghdr (held s fraghdr.key) p hdr q) {} is := by
  refine Machine.always_of_ok collects_step ?_ (collects_init sent)
    (Machine.always_inputs_iff.mpr his)
  rintro s - h hi fraghdr p hdr q d rfl hd hout
  exact (h.meets hi hd).handed hdr q hout

/-- Thirty-two bytes cut into four. -/
def fourEights : SentPacket where
  cut :=
    { whole := (List.range 32).map UInt8.ofNat
      mark := fun m => m % 8 = 0 ∧ m ≤ 32
      zero := by decide
      last := by decide
      le := fun _ h => h.2 }
  proto := ipProtoUdp
  fits := by decide

def eighth (i : Fin 4) : IpHdr × Chain :=
  (⟨0x45, 0, lwipHtons 28, 1, lwipHtons (UInt16.ofNat i ||| if i = 3 then 0 else ipMf), 64,
      ipProtoUdp, 0, ip4Addr 192 168 0 112, ip4Addr 192 168 0 10⟩,
    ⟨[(List.range 8).map fun k => UInt8.ofNat (8 * i + k)], by simp⟩)

theorem genuine_eighth (i : Fin 4) : Genuine fourEights (eighth i).1 (eighth i).2 := by
  have hstart : ∀ i, (fragOf (eighth i).1 (eighth i).2).start.toNat = 8 * i := by decide
  have hstop : ∀ i, (fragOf (eighth i).1 (eighth i).2).stop.toNat = 8 * i + 8 := by decide
  have hlen : ∀ i, (eighth i).2.bytes.length = 8 := by decide
  have hlt := i.isLt
  have hpstart : (fragOf (eighth i).1 (eighth i).2).piece.start = 8 * i := hstart i
  have hpstop : (fragOf (eighth i).1 (eighth i).2).piece.stop = 8 * i + 8 := by
    rw [Piece.stop, hpstart]
    exact congrArg (8 * i.val + ·) (hlen i)
  refine ⟨rfl, rfl, ⟨⟨?_, ?_, ?_, ?_, ?_⟩, ?_⟩, ?_⟩
  · revert i
    decide
  · rw [hpstart]
    show 8 * i.val % 8 = 0 ∧ 8 * i.val ≤ 32
    omega
  · rw [hpstop]
    show (8 * i.val + 8) % 8 = 0 ∧ 8 * i.val + 8 ≤ 32
    omega
  · omega
  · rintro m ⟨hmod, -⟩
    omega
  · rw [hstop, hpstop]
  · revert i
    decide

def onlyEighths (key : IpKey) : Option SentPacket :=
  if key = (eighth 0).1.key then some fourEights else none

/-- The `i`-th part, or something that is no fragment of anything. -/
def arrive : Option (Fin 4) → ReassInput
  | some i => .fragment (eighth i).1 (eighth i).2
  | none => .fragment { (eighth 3).1 with id := 2, len := 0 } (eighth 3).2

theorem sent_arrive (is : List (Option (Fin 4))) : ∀ i ∈ is.map arrive, Sent onlyEighths i := by
  intro i hi
  obtain ⟨k, -, rfl⟩ := List.mem_map.mp hi
  cases k with
  | some k =>
    intro d hd
    rw [onlyEighths] at hd
    split at hd
    · obtain rfl := Option.some.inj hd
      exact genuine_eighth k
    · cases hd
  | none =>
    intro d hd
    cases hd

/-- The third part is put behind a hole. -/
theorem eighths_handed : Machine.Always reassStep (fun s i => ∀ fraghdr p hdr q d,
    i = .fragment fraghdr p → onlyEighths fraghdr.key = some d →
      (ip4Reass s fraghdr p).1 = some (hdr, q) →
        Handed d fraghdr (held s fraghdr.key) p hdr q) {} ([some 0, none, some 3, some 2].map arrive) :=
  reassembled_iff (sent_arrive [some 0, none, some 3, some 2])

example : (ip4Reass (Machine.run reassStep {} ([some 0, none, some 3].map arrive)) (eighth 2).1
    (eighth 2).2).1.map (·.2.bytes.length) = some 24 := by decide +kernel

/-- If there is room and no hole, the packet comes out with the fragment that was missing, and not
before. -/
theorem reassembled_of_covered {is : List ReassInput} (his : ∀ i ∈ is, Sent sent i) :
    Machine.Always reassStep (fun s i => ∀ fraghdr p d, i = .fragment fraghdr p →
      sent fraghdr.key = some d → HasRoom s fraghdr p →
      ¬Hole (held s fraghdr.key) (fragOf fraghdr p) →
        ((ip4Reass s fraghdr p).1.isSome = true ↔
          Covered d (held s fraghdr.key) (fragOf fraghdr p))) {} is := by
  refine Machine.always_of_ok collects_step ?_ (collects_init sent)
    (Machine.always_inputs_iff.mpr his)
  rintro s - h hi fraghdr p d rfl hd hroom hno
  exact (h.meets hi hd).isSome_iff hroom hno

theorem eighths_covered : Machine.Always reassStep (fun s i => ∀ fraghdr p d,
    i = .fragment fraghdr p → onlyEighths fraghdr.key = some d → HasRoom s fraghdr p →
      ¬Hole (held s fraghdr.key) (fragOf fraghdr p) →
        ((ip4Reass s fraghdr p).1.isSome = true ↔
          Covered d (held s fraghdr.key) (fragOf fraghdr p))) {}
    ([some 1, some 0, none, some 1, some 2, some 3].map arrive) :=
  reassembled_of_covered (sent_arrive [some 1, some 0, none, some 1, some 2, some 3])

end Runs

end PodFirmware
