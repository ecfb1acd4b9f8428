import PodFirmware.Lib.Bytes
import PodFirmware.Pbuf

/-!
# PodFirmware.Message

The bytes of a console message. `send_message_to_Dashboard` asks for a buffer of any length and
copies the message behind the payload pointer, but a long buffer is a chain, and the payload pointer
is that of its first segment.

* `pbufAlloc`: the chain, as addresses and lengths of its segments.
* `Intact`: no message, or the whole of it, and nothing written beside the segments.
* `intact_iff`: a message is intact when it fits into the first segment.
-/

namespace PodFirmware
namespace Message

open Bytes Pbuf

/-! ## The code -/

/-- `SIZEOF_STRUCT_PBUF`. -/
def sizeofStructPbuf : Nat := 16

structure Segment where
  payload : Nat
  len : Nat
  deriving DecidableEq, Repr

def Segment.Holds (s : Segment) (a : Nat) : Prop := s.payload ≤ a ∧ a < s.payload + s.len

/-- `MEMP_SANITY_REGION_BEFORE_ALIGNED` and `MEMP_SANITY_REGION_AFTER_ALIGNED`: there are such
regions around every element, since `LWIP_DEBUG` turns on `MEMP_OVERFLOW_CHECK`. -/
def mempSanityRegion : Nat := 16

/-- `MEMP_SIZE`: a `struct memp`, with its file and line, and the region before the element. -/
def mempSize : Nat := 12 + mempSanityRegion

/-- `MEMP_ALIGN_SIZE`. -/
def mempAlignSize (x : Nat) : Nat := (x + 3) / 4 * 4 + mempSanityRegion

/-- `desc->size` of `PBUF_POOL`. Both of its parts bring a region of their own. -/
def poolSize : Nat := mempAlignSize sizeofStructPbuf + mempAlignSize poolBufsize

/-- The elements of the pool lie one behind the other, as `memp_init_pool` puts them; this is what
`memp_malloc` returns for one of them. -/
def element (base e : Nat) : Nat := base + e * (mempSize + poolSize + mempSanityRegion) + mempSize

/-- The loop of `pbuf_alloc`: `free` are the elements that `memp_malloc` has left. -/
def allocTail (base : Nat) : Nat → List Nat → Option (List Segment)
  | 0, _ => some []
  | _ + 1, [] => none
  | rem + 1, e :: free =>
    let len := min (rem + 1) poolBufsize
    (allocTail base (rem + 1 - len) free).map (⟨element base e + sizeofStructPbuf, len⟩ :: ·)

def pbufAlloc (base offset : Nat) (length : UInt16) : List Nat → Option (Segment × List Segment)
  | [] => none
  | e :: free =>
    let len := min length.toNat (poolBufsize - offset)
    (allocTail base (length.toNat - len) free).map
      (⟨element base e + (sizeofStructPbuf + offset), len⟩, ·)

/-- What is left of a call: what it returned, the chain that it wrote to, what it wrote where, and
the datagram that was sent. -/
structure Outcome where
  ret : Int32
  chain : List Segment
  writes : List (Nat × List UInt8)
  datagram : Option (List UInt8)

def content (m : Nat → UInt8) (chain : List Segment) : List UInt8 :=
  chain.flatMap fun s => load m s.payload s.len

/-- `err` is what `udp_send` returns, `m` the memory before the call. -/
def sendMessageToDashboard (base : Nat) (free : List Nat) (err : Int8) (buf : List UInt8)
    (m : Nat → UInt8) : Outcome :=
  match pbufAlloc base transport (UInt16.ofNat (buf.length + 5)) free with
  | none => { ret := -1, chain := [], writes := [], datagram := none }
  | some (first, rest) =>
    let writes := [(first.payload, CString.ascii "MSG: "), (first.payload + 5, buf)]
    let m := writes.foldl (fun m w => store m w.1 w.2) m
    { ret := if err ≠ 0 then -1 else 0
      chain := first :: rest
      writes := writes
      datagram := if err ≠ 0 then none else some (content m (first :: rest)) }

/-- Either nothing is sent, and the caller is told so, or the message with all of its bytes; and
every byte that is written is one of the payload. -/
structure Intact (buf : List UInt8) (o : Outcome) : Prop where
  sent : (o.ret = -1 ∧ o.datagram = none) ∨
    (o.ret = 0 ∧ o.datagram = some (CString.ascii "MSG: " ++ buf))
  inside : ∀ w ∈ o.writes, ∀ i < w.2.length, ∃ s ∈ o.chain, s.Holds (w.1 + i)

/-! ## The chain -/

section Chain

variable {base offset rem : Nat} {length : UInt16} {free : List Nat} {first s : Segment}
  {rest : List Segment}

theorem allocTail_zero : allocTail base 0 free = some [] := by
  cases free <;> rfl

theorem allocTail_eq_none : allocTail base rem free = none ↔ free.length * poolBufsize < rem := by
  induction free generalizing rem with
  | nil => cases rem <;> simp [allocTail]
  | cons e free ih =>
    cases rem with
    | zero => simp [allocTail]
    | succ rem =>
      rw [allocTail, Option.map_eq_none_iff, ih, List.length_cons, Nat.add_mul]
      omega

theorem allocTail_mem (h : allocTail base rem free = some rest) (hs : s ∈ rest) :
    ∃ e, s.payload = element base e + sizeofStructPbuf ∧ s.len ≤ poolBufsize := by
  induction free generalizing rem rest with
  | nil =>
    cases rem with
    | zero =>
      cases h
      cases hs
    | succ rem => cases h
  | cons e free ih =>
    cases rem with
    | zero =>
      cases h
      cases hs
    | succ rem =>
      obtain ⟨tail, htail, rfl⟩ := Option.map_eq_some_iff.mp h
      rcases List.mem_cons.mp hs with rfl | hs
      · exact ⟨e, rfl, Nat.min_le_right _ _⟩
      · exact ih htail hs

/-- The chain fails for want of elements only. -/
theorem pbufAlloc_eq_none :
    pbufAlloc base transport length free = none ↔ free.length < chainLength transport length := by
  unfold chainLength
  cases free with
  | nil => simp [pbufAlloc]
  | cons e free =>
    rw [pbufAlloc, Option.map_eq_none_iff, allocTail_eq_none, List.length_cons]
    simp only [poolBufsize, transport]
    omega

/-- The first segment takes what it can, and there are others only when it is full. -/
structure Chained (base offset : Nat) (length : UInt16) (first : Segment) (rest : List Segment) :
    Prop where
  payload : ∃ e, first.payload = element base e + (sizeofStructPbuf + offset)
  len : first.len = min length.toNat (poolBufsize - offset)
  single : length.toNat ≤ poolBufsize - offset → rest = []
  others : ∀ s ∈ rest, ∃ e, s.payload = element base e + sizeofStructPbuf ∧ s.len ≤ poolBufsize

theorem pbufAlloc_some (h : pbufAlloc base offset length free = some (first, rest)) :
    Chained base offset length first rest := by
  cases free with
  | nil => cases h
  | cons e free =>
    obtain ⟨tail, htail, heq⟩ := Option.map_eq_some_iff.mp h
    cases heq
    refine ⟨⟨e, rfl⟩, rfl, fun hfits => ?_, fun s hs => allocTail_mem htail hs⟩
    rw [Nat.min_eq_left hfits, Nat.sub_self, allocTail_zero] at htail
    cases htail
    rfl

theorem element_eq (base e : Nat) : element base e = base + e * 684 + 28 := rfl

/-- Behind a full first segment there are bytes that no segment of the chain holds. -/
theorem Chained.not_holds_end (h : Chained base offset length first rest)
    (hoffset : offset ≤ poolBufsize) :
    ∀ s ∈ first :: rest, ¬ s.Holds (first.payload + first.len) := by
  intro s hs hholds
  rcases List.mem_cons.mp hs with rfl | hs
  · exact Nat.lt_irrefl _ hholds.2
  · obtain ⟨e, he⟩ := h.payload
    obtain ⟨e', he', hlen⟩ := h.others s hs
    have hfull : first.len = poolBufsize - offset := by
      rw [h.len]
      by_contra hno
      rw [h.single (by omega)] at hs
      cases hs
    obtain ⟨hlo, hhi⟩ := hholds
    rw [he, hfull, he'] at hlo hhi
    simp only [element_eq, sizeofStructPbuf, poolBufsize] at hlo hhi hlen hoffset
    omega

end Chain

/-! ## The message -/

section Send

variable {base : Nat} {free : List Nat} {err : Int8} {buf : List UInt8} {m : Nat → UInt8}

theorem length_tag : (CString.ascii "MSG: ").length = 5 := rfl

/-- The two copies write as many bytes as the message has, from the payload pointer on. -/
theorem writes_cover (a : Nat) {k : Nat} (hk : k < buf.length + 5) :
    ∃ w ∈ [(a, CString.ascii "MSG: "), (a + 5, buf)], ∃ i < w.2.length, w.1 + i = a + k := by
  by_cases htag : k < 5
  · exact ⟨_, List.mem_cons_self, k, by rw [length_tag]; exact htag, rfl⟩
  · refine ⟨_, List.mem_cons_of_mem _ List.mem_cons_self, k - 5, ?_, ?_⟩
    · show k - 5 < buf.length
      omega
    · show a + 5 + (k - 5) = a + k
      omega

theorem intact_of_noBuffer
    (h : pbufAlloc base transport (UInt16.ofNat (buf.length + 5)) free = none) :
    Intact buf (sendMessageToDashboard base free err buf m) := by
  unfold sendMessageToDashboard
  rw [h]
  exact ⟨.inl ⟨rfl, rfl⟩, by simp⟩

/-- A message that fits into the first segment. -/
theorem intact_of_fits (h : buf.length + 5 ≤ poolBufsize - transport) :
    Intact buf (sendMessageToDashboard base free err buf m) := by
  cases ha : pbufAlloc base transport (UInt16.ofNat (buf.length + 5)) free with
  | none => exact intact_of_noBuffer ha
  | some chain =>
    obtain ⟨first, rest⟩ := chain
    have hchain := pbufAlloc_some ha
    have hlength : (UInt16.ofNat (buf.length + 5)).toNat = buf.length + 5 := by
      rw [UInt16.toNat_ofNat']
      simp only [poolBufsize, transport] at h
      exact Nat.mod_eq_of_lt (by omega)
    have hlen : first.len = (CString.ascii "MSG: " ++ buf).length := by
      rw [hchain.len, hlength, Nat.min_eq_left h, List.length_append, length_tag]
      omega
    have hrest := hchain.single (by rw [hlength]; exact h)
    have hcontent : content (store (store m first.payload (CString.ascii "MSG: "))
        (first.payload + 5) buf) (first :: rest) = CString.ascii "MSG: " ++ buf := by
      have htwo := store_append m first.payload (CString.ascii "MSG: ") buf
      rw [length_tag] at htwo
      rw [htwo, hrest, content, List.flatMap_cons, List.flatMap_nil, List.append_nil, hlen,
        load_store_self]
    unfold sendMessageToDashboard
    rw [ha]
    dsimp only [List.foldl_cons, List.foldl_nil]
    rw [hcontent]
    constructor
    · split
      · exact .inl ⟨rfl, rfl⟩
      · exact .inr ⟨rfl, rfl⟩
    · intro w hw i hi
      refine ⟨first, List.mem_cons_self, ?_⟩
      rw [List.length_append, length_tag] at hlen
      rcases List.mem_cons.mp hw with rfl | hw
      · rw [length_tag] at hi
        exact ⟨Nat.le_add_right _ _, by dsimp only; omega⟩
      · rw [List.mem_singleton.mp hw] at hi ⊢
        exact ⟨by dsimp only; omega, by dsimp only at hi ⊢; omega⟩

/-- A longer one is written beyond the first segment. -/
theorem not_intact_of_long (hlong : poolBufsize - transport < buf.length + 5)
    (ha : pbufAlloc base transport (UInt16.ofNat (buf.length + 5)) free ≠ none) :
    ¬ Intact buf (sendMessageToDashboard base free err buf m) := by
  obtain ⟨⟨first, rest⟩, hsome⟩ := Option.ne_none_iff_exists'.mp ha
  have hchain := pbufAlloc_some hsome
  intro h
  have hinside := h.inside
  unfold sendMessageToDashboard at hinside
  rw [hsome] at hinside
  have hlen : first.len < buf.length + 5 := by
    rw [hchain.len]
    exact Nat.lt_of_le_of_lt (Nat.min_le_right _ _) hlong
  obtain ⟨w, hw, i, hi, hend⟩ := writes_cover first.payload hlen
  obtain ⟨s, hs, hholds⟩ := hinside w hw i hi
  rw [hend] at hholds
  exact hchain.not_holds_end (by decide) s hs hholds

theorem intact_iff_alloc : Intact buf (sendMessageToDashboard base free err buf m) ↔
    free.length < chainLength transport (UInt16.ofNat (buf.length + 5)) ∨
      buf.length + 5 ≤ poolBufsize - transport := by
  rw [← @pbufAlloc_eq_none base]
  constructor
  · intro h
    by_contra hno
    rw [not_or, Nat.not_le] at hno
    exact not_intact_of_long hno.2 hno.1 h
  · rintro (ha | hfits)
    · exact intact_of_noBuffer ha
    · exact intact_of_fits hfits

/-- A message is intact exactly when there is no buffer for it, or it fits into the first segment
with its tag. -/
theorem intact_iff (base : Nat) (free : List Nat) (err : Int8) (buf : List UInt8)
    (m : Nat → UInt8) : Intact buf (sendMessageToDashboard base free err buf m) ↔
      free.length < chainLength transport (UInt16.ofNat (buf.length + 5)) ∨
        buf.length + 5 ≤ poolBufsize - transport :=
  intact_iff_alloc

/-- A message of 532 bytes is written one byte too far. -/
theorem long_message_overflows :
    let buf := List.replicate 532 65
    let o := sendMessageToDashboard 0 [0, 1, 2, 3, 4] 0 buf fun _ => 0
    o.ret = 0 ∧ ¬ Intact buf o ∧
      ¬ ∀ base free err buf m, buf.length + 5 ≤ 65535 →
        Intact buf (sendMessageToDashboard base free err buf m) := by
  have hlength : (List.replicate 532 (65 : UInt8)).length = 532 := List.length_replicate
  have hbroken : ¬ Intact (List.replicate 532 65)
      (sendMessageToDashboard 0 [0, 1, 2, 3, 4] 0 (List.replicate 532 65) fun _ => 0) := by
    refine not_intact_of_long ?_ ?_
    · rw [hlength]
      decide
    · rw [Ne, pbufAlloc_eq_none, hlength]
      decide
  refine ⟨by decide +kernel, hbroken, fun h => hbroken (h _ _ _ _ _ ?_)⟩
  rw [hlength]
  decide

end Send

end Message
end PodFirmware
