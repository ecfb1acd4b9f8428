import Mathlib.Data.List.Basic
import PodFirmware.Lib.Bytes
import PodFirmware.Lib.RingBuffer

/-!
# PodFirmware.Lib.SharedRing

A ring of `n` buffers that two parties hand to each other, one of them marking the buffers that it
hands over and the other taking the marks away in the same order. The marked buffers stand for a
queue. A longer text is spread over several buffers, each but the last of them full.

* `Holds`: the queue, from slot `h` on.
* `setUp`, `Wired`: a table is filled slot by slot, and the slots form a ring.
* `written`: what lies in the buffers from slot `k` on, up to an offset in the last.
-/

namespace SharedRing

open Bytes

/-- Slot `h` and those behind it are marked, as many as the queue has elements, and each of them
stands for its element. -/
structure Holds {α : Type*} (n : Nat) (marked : Nat → Bool) (slot : Nat → α → Prop) (h : Nat)
    (q : List α) : Prop where
  head_lt : h < n
  length_le : q.length ≤ n
  marked_iff : ∀ i < n, marked ((h + i) % n) = true ↔ i < q.length
  slot_get : ∀ i (hi : i < q.length), slot ((h + i) % n) q[i]

section Queue

variable {α : Type*} {n h : Nat} {marked marked' : Nat → Bool} {slot slot' : Nat → α → Prop} {x : α}
  {q : List α}

theorem holds_nil (h0 : h < n) (hfree : ∀ i < n, marked i = false) :
    Holds n marked slot h [] := by
  refine ⟨h0, Nat.zero_le n, fun i _ => ?_, fun i hi => absurd hi (Nat.not_lt_zero i)⟩
  simp [hfree _ (Nat.mod_lt _ (Nat.lt_of_le_of_lt (Nat.zero_le h) h0))]

theorem Holds.pos (hq : Holds n marked slot h q) : 0 < n :=
  Nat.lt_of_le_of_lt (Nat.zero_le h) hq.head_lt

/-- A slot behind the queue that is not marked: there is room up to that slot. -/
theorem Holds.room (hq : Holds n marked slot h q) {d : Nat} (hd : d < n)
    (hfree : marked ((h + q.length + d) % n) = false) : q.length + d < n := by
  by_contra hno
  have hlt : q.length + d - n < q.length := by omega
  have hmod : (h + q.length + d) % n = (h + (q.length + d - n)) % n := by
    rw [show h + q.length + d = h + (q.length + d - n) + n by omega, Nat.add_mod_right]
  have hle := hq.length_le
  rw [hmod, Bool.eq_false_iff, Ne, hq.marked_iff _ (by omega)] at hfree
  exact hfree hlt

theorem Holds.not_marked (hq : Holds n marked slot h q) {d : Nat} (hd : q.length + d < n) :
    marked ((h + q.length + d) % n) = false := by
  rw [Nat.add_assoc, Bool.eq_false_iff, Ne, hq.marked_iff _ hd]
  omega

/-- The marked slots are left alone. -/
theorem Holds.congr (hq : Holds n marked slot h q) (hmarked : ∀ i < n, marked' i = marked i)
    (hslot : ∀ i < n, marked i = true → ∀ x, slot i x → slot' i x) :
    Holds n marked' slot' h q := by
  refine ⟨hq.head_lt, hq.length_le, fun i hi => ?_, fun i hi => ?_⟩
  · rw [hmarked _ (Nat.mod_lt _ hq.pos)]
    exact hq.marked_iff i hi
  · have hlt : i < n := Nat.lt_of_lt_of_le hi hq.length_le
    exact hslot _ (Nat.mod_lt _ hq.pos) ((hq.marked_iff i hlt).mpr hi) _ (hq.slot_get i hi)

/-- The slot behind the queue is written and marked. -/
theorem Holds.push (hq : Holds n marked slot h q) (hroom : q.length < n)
    (hmarked : ∀ i < n, marked' i = if i = (h + q.length) % n then true else marked i)
    (hnew : slot' ((h + q.length) % n) x)
    (hslot : ∀ i < n, i ≠ (h + q.length) % n → ∀ y, slot i y → slot' i y) :
    Holds n marked' slot' h (q ++ [x]) := by
  refine ⟨hq.head_lt, by rw [List.length_append]; exact hroom, fun i hi => ?_, fun i hi => ?_⟩
  · rw [hmarked _ (Nat.mod_lt _ hq.pos), List.length_append, List.length_singleton]
    by_cases heq : i = q.length
    · subst heq
      simp
    · rw [if_neg, hq.marked_iff i hi]
      · omega
      · rcases Nat.lt_or_gt_of_ne heq with hlt | hgt
        · exact RingBuffer.slot_ne hlt (by omega)
        · exact (RingBuffer.slot_ne hgt (by omega)).symm
  · rw [List.length_append, List.length_singleton] at hi
    by_cases heq : i = q.length
    · subst heq
      rw [List.getElem_concat_length rfl]
      exact hnew
    · have hlt : i < q.length := by omega
      rw [List.getElem_append_left hlt]
      exact hslot _ (Nat.mod_lt _ hq.pos) (RingBuffer.slot_ne hlt (by omega)) _ (hq.slot_get i hlt)

/-- The mark of the first slot is taken away. -/
theorem Holds.pop (hq : Holds n marked slot h (x :: q))
    (hmarked : ∀ i < n, marked' i = if i = h then false else marked i)
    (hslot : ∀ i < n, i ≠ h → ∀ y, slot i y → slot' i y) :
    Holds n marked' slot' ((h + 1) % n) q := by
  have hle := hq.length_le
  rw [List.length_cons] at hle
  have hshift : ∀ i, ((h + 1) % n + i) % n = (h + (i + 1)) % n := by
    intro i
    rw [Nat.mod_add_mod, Nat.add_assoc, Nat.add_comm 1 i]
  have hhead : (h + 0) % n = h := Nat.mod_eq_of_lt hq.head_lt
  have hne : ∀ i, i + 1 < n → (h + (i + 1)) % n ≠ h := by
    intro i hi heq
    exact RingBuffer.slot_ne (c := h) (Nat.succ_pos i) (by omega) (hhead.trans heq.symm)
  refine ⟨Nat.mod_lt _ hq.pos, by omega, fun i hi => ?_, fun i hi => ?_⟩
  · rw [hshift, hmarked _ (Nat.mod_lt _ hq.pos)]
    by_cases hlast : i + 1 = n
    · rw [hlast, Nat.add_mod_right, Nat.mod_eq_of_lt hq.head_lt, if_pos rfl]
      simp
      omega
    · rw [if_neg (hne i (by omega)), hq.marked_iff (i + 1) (by omega), List.length_cons]
      omega
  · rw [hshift]
    have hget := hq.slot_get (i + 1) (by rw [List.length_cons]; omega)
    rw [List.getElem_cons_succ] at hget
    exact hslot _ (Nat.mod_lt _ hq.pos) (hne i (by omega)) _ hget

theorem Holds.marked_head (hq : Holds n marked slot h q) (hmark : marked h = true) :
    ∃ x q', q = x :: q' ∧ slot h x := by
  have hhead : (h + 0) % n = h := Nat.mod_eq_of_lt hq.head_lt
  cases q with
  | nil =>
    have := (hq.marked_iff 0 hq.pos).mp (by rwa [hhead])
    cases this
  | cons x q =>
    have hget := hq.slot_get 0 (Nat.succ_pos _)
    rw [hhead] at hget
    exact ⟨x, q, rfl, hget⟩

theorem Holds.eq_nil (hq : Holds n marked slot h q) (hmark : marked h = false) : q = [] := by
  cases q with
  | nil => rfl
  | cons x q =>
    have := (hq.marked_iff 0 hq.pos).mpr (Nat.succ_pos _)
    rw [Nat.add_zero, Nat.mod_eq_of_lt hq.head_lt, hmark] at this
    cases this

end Queue

/-! ## Tables -/

/-- The first `k` slots of a table are set one after the other. -/
def setUp {α : Type*} (f : Nat → α → α) (k : Nat) (tab : Nat → α) : Nat → α :=
  (List.range k).foldl (fun tab i => Function.update tab i (f i (tab i))) tab

/-- A ring of buffers of `size`: where the buffer of a slot lies, and which slot is the next. -/
structure Wired {β : Type*} (n size : Nat) (addr next : Nat → Nat) (buffer : Nat → List β) :
    Prop where
  addr_eq : ∀ i < n, addr i = i
  next_eq : ∀ i < n, next i = (i + 1) % n
  length_eq : ∀ i < n, (buffer i).length = size

theorem Wired.splice {β : Type*} {n size : Nat} {addr next : Nat → Nat} {buffer : Nat → List β}
    (h : Wired n size addr next buffer) {i off : Nat} {xs : List β} (hi : i < n)
    (hfits : off + xs.length ≤ size) :
    Wired n size addr next (Function.update buffer i (Bytes.splice (buffer i) off xs)) := by
  refine ⟨h.addr_eq, h.next_eq, fun j hj => ?_⟩
  by_cases heq : j = i
  · subst heq
    rw [Function.update_self, length_splice (by rw [h.length_eq _ hj]; exact hfits),
      h.length_eq _ hj]
  · rw [Function.update_of_ne heq, h.length_eq _ hj]

theorem setUp_of_lt {α : Type*} (f : Nat → α → α) {i k : Nat} (tab : Nat → α) (hi : i < k) :
    setUp f k tab i = f i (tab i) := by
  have hall : ∀ k, setUp f k tab i = if i < k then f i (tab i) else tab i := by
    intro k
    induction k with
    | zero => rfl
    | succ k ih =>
      rw [setUp, List.range_succ, List.foldl_concat]
      change Function.update (setUp f k tab) k (f k (setUp f k tab k)) i = _
      by_cases heq : i = k
      · subst heq
        rw [Function.update_self, ih, if_neg (Nat.lt_irrefl i), if_pos (Nat.lt_succ_self i)]
      · rw [Function.update_of_ne heq, ih]
        congr 1
        exact propext (by omega)
  rw [hall k, if_pos hi]

/-! ## Texts over several buffers -/

/-- `d` buffers from slot `k` on, and the next up to `off`. -/
def written {β : Type*} (n : Nat) (buffer : Nat → List β) (k d off : Nat) : List β :=
  (List.range d).flatMap (fun j => buffer ((k + j) % n)) ++ (buffer ((k + d) % n)).take off

section Written

variable {β : Type*} {n k d off size : Nat} {buffer : Nat → List β} {xs : List β}

@[simp] theorem written_zero : written n buffer k 0 0 = [] := by
  simp [written]

theorem length_written (hsize : ∀ j ≤ d, (buffer ((k + j) % n)).length = size) (hoff : off ≤ size) :
    (written n buffer k d off).length = d * size + off := by
  induction d generalizing off with
  | zero =>
    have h0 := hsize 0 (Nat.le_refl 0)
    rw [Nat.add_zero] at h0
    simp [written, h0, hoff]
  | succ d ih =>
    have hfull := ih (fun j hj => hsize j (by omega)) (Nat.le_refl size)
    rw [written, List.take_of_length_le (by rw [hsize d (by omega)]), List.length_append] at hfull
    rw [written, List.range_succ, List.flatMap_append, List.flatMap_singleton, List.length_append,
      List.length_append, hfull, List.length_take, hsize (d + 1) (Nat.le_refl _),
      Nat.min_eq_left hoff, Nat.add_mul, Nat.one_mul]

/-- The last buffer is full: the next one begins. -/
theorem written_next (hsize : (buffer ((k + d) % n)).length = size) :
    written n buffer k d size = written n buffer k (d + 1) 0 := by
  rw [written, written, List.range_succ, List.flatMap_append, List.flatMap_singleton,
    List.take_of_length_le (by rw [hsize]), List.take_zero, List.append_nil]

/-- The first buffer, and those behind it. -/
theorem written_succ (hk : k < n) :
    written n buffer k (d + 1) off = buffer k ++ written n buffer ((k + 1) % n) d off := by
  have hshift : ∀ j, ((k + 1) % n + j) % n = (k + (j + 1)) % n := by
    intro j
    rw [Nat.mod_add_mod, Nat.add_assoc, Nat.add_comm 1 j]
  rw [written, written, List.range_succ_eq_map, List.flatMap_cons, List.flatMap_map, Nat.add_zero,
    Nat.mod_eq_of_lt hk, List.append_assoc, hshift]
  simp only [hshift]

/-- What is written behind the offset. -/
theorem written_splice (hd : d < n) (hfits : off + xs.length ≤ (buffer ((k + d) % n)).length) :
    written n (Function.update buffer ((k + d) % n) (splice (buffer ((k + d) % n)) off xs)) k d
      (off + xs.length) = written n buffer k d off ++ xs := by
  have htake : (splice (buffer ((k + d) % n)) off xs).take (off + xs.length) =
      (buffer ((k + d) % n)).take off ++ xs := by
    have hlen : ((buffer ((k + d) % n)).take off ++ xs).length = off + xs.length := by
      rw [List.length_append, List.length_take]
      omega
    rw [splice, ← List.append_assoc, ← hlen, List.take_left]
  rw [written, written, Function.update_self, htake, List.append_assoc, List.append_left_inj]
  apply List.flatMap_congr
  intro j hj
  have hj := List.mem_range.mp hj
  exact Function.update_of_ne (RingBuffer.slot_ne hj (by omega)) ..

end Written

end SharedRing
