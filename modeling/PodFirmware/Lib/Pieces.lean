import Mathlib.Data.List.Basic
import PodFirmware.Lib.Bytes

/-!
# PodFirmware.Lib.Pieces

A list cut into pieces at some marks, and put together again.

* `Cut`: a list and the marks.
* `Piece.Of`: what lies between two neighbouring marks. Two such pieces do not overlap.
* `Spans`: pieces one behind the other, from one place to another. They make up what lies between.
* `spans_of_covered`: pieces in order that begin at every mark are the whole.
-/

namespace Pieces

open Bytes (slice)

structure Cut (α : Type*) where
  whole : List α
  mark : Nat → Prop
  zero : mark 0
  last : mark whole.length
  le : ∀ m, mark m → m ≤ whole.length

structure Piece (α : Type*) where
  start : Nat
  data : List α

variable {α : Type*} {c : Cut α} {q r : Piece α} {l : List (Piece α)} {x y m : Nat}

namespace Piece

def stop (q : Piece α) : Nat := q.start + q.data.length

structure Of (c : Cut α) (q : Piece α) : Prop where
  data : q.data = slice c.whole q.start q.data.length
  start : c.mark q.start
  stop : c.mark q.stop
  lt : q.start < q.stop
  next : ∀ m, c.mark m → m ≤ q.start ∨ q.stop ≤ m

theorem Of.stop_eq (hq : q.Of c) (hr : r.Of c) (h : q.start = r.start) : q.stop = r.stop := by
  have hqr := hq.next r.stop hr.stop
  have hrq := hr.next q.stop hq.stop
  have := hq.lt
  have := hr.lt
  omega

theorem Of.stop_le (hq : q.Of c) (hr : r.Of c) (h : q.start < r.start) : q.stop ≤ r.start :=
  (hq.next r.start hr.start).resolve_left (Nat.not_le.mpr h)

end Piece

/-! ## One behind the other -/

def Spans (x y : Nat) : List (Piece α) → Prop
  | [] => x = y
  | q :: l => q.start = x ∧ Spans q.stop y l

theorem spans_append {l' : List (Piece α)} :
    Spans x y (l ++ l') ↔ ∃ z, Spans x z l ∧ Spans z y l' := by
  induction l generalizing x with
  | nil =>
    constructor
    · intro h
      exact ⟨x, rfl, h⟩
    · rintro ⟨z, rfl, h⟩
      exact h
  | cons q l ih =>
    rw [List.cons_append, Spans, ih]
    constructor
    · rintro ⟨hq, z, hl, hl'⟩
      exact ⟨z, ⟨hq, hl⟩, hl'⟩
    · rintro ⟨z, ⟨hq, hl⟩, hl'⟩
      exact ⟨hq, z, hl, hl'⟩

theorem slice_append (D : List α) (a v w : Nat) :
    slice D a v ++ slice D (a + v) w = slice D a (v + w) := by
  rw [slice, slice, slice, ← List.drop_drop, List.take_add]

/-- Pieces from one place to another are what lies between. -/
theorem Spans.flatMap (h : Spans x y l) (hl : ∀ q ∈ l, q.Of c) :
    x ≤ y ∧ l.flatMap (·.data) = slice c.whole x (y - x) := by
  induction l generalizing x with
  | nil =>
    obtain rfl : x = y := h
    refine ⟨Nat.le_refl x, ?_⟩
    rw [Nat.sub_self, slice, List.take_zero]
    rfl
  | cons q l ih =>
    obtain ⟨rfl, hrest⟩ := h
    obtain ⟨hle, hdata⟩ := ih hrest fun q hq => hl q (List.mem_cons_of_mem _ hq)
    have hq := hl q List.mem_cons_self
    have hlt := hq.lt
    refine ⟨by omega, ?_⟩
    have hsplit : y - q.start = q.data.length + (y - q.stop) := by
      rw [Piece.stop] at hle ⊢
      omega
    rw [List.flatMap_cons, hdata, hsplit, ← slice_append, ← hq.data]
    rfl

theorem Spans.getLast (h : Spans x y l) (hq : l.getLast? = some q) : q.stop = y := by
  induction l generalizing x with
  | nil => cases hq
  | cons r l ih =>
    obtain ⟨-, hrest⟩ := h
    cases l with
    | nil =>
      obtain rfl := Option.some.inj hq
      exact hrest
    | cons s l => exact ih hrest (by rwa [List.getLast?_cons_cons] at hq)

theorem Spans.start_lt (h : Spans x y l) (hl : ∀ q ∈ l, q.Of c) : ∀ q ∈ l, q.start < y := by
  induction l generalizing x with
  | nil => exact fun q hq => absurd hq List.not_mem_nil
  | cons r l ih =>
    obtain ⟨-, hrest⟩ := h
    have hl' : ∀ q ∈ l, q.Of c := fun q hq => hl q (List.mem_cons_of_mem _ hq)
    intro q hq
    rcases List.mem_cons.mp hq with rfl | hq
    · exact Nat.lt_of_lt_of_le (hl q List.mem_cons_self).lt (hrest.flatMap hl').1
    · exact ih hrest hl' q hq

/-- Every mark between is the beginning of a piece. -/
theorem Spans.covers (h : Spans x y l) (hl : ∀ q ∈ l, q.Of c) (hm : c.mark m) (hx : x ≤ m)
    (hy : m < y) : ∃ q ∈ l, q.start = m := by
  induction l generalizing x with
  | nil =>
    obtain rfl : x = y := h
    omega
  | cons q l ih =>
    obtain ⟨rfl, hrest⟩ := h
    rcases (hl q List.mem_cons_self).next m hm with hle | hle
    · exact ⟨q, List.mem_cons_self, by omega⟩
    · obtain ⟨r, hr, hstart⟩ := ih hrest (fun q hq => hl q (List.mem_cons_of_mem _ hq)) hle
      exact ⟨r, List.mem_cons_of_mem _ hr, hstart⟩

/-- Pieces in order, one for every mark from a place on, go on to the end. -/
theorem spans_of_covered (hl : ∀ q ∈ l, q.Of c) (horder : l.Pairwise fun q r => q.start < r.start)
    (hx : c.mark x) (hfrom : ∀ q ∈ l, x ≤ q.start)
    (hcovered : ∀ m, c.mark m → x ≤ m → m < c.whole.length → ∃ q ∈ l, q.start = m) :
    Spans x c.whole.length l := by
  induction l generalizing x with
  | nil =>
    have hle := c.le x hx
    by_contra hne
    obtain ⟨q, hq, -⟩ := hcovered x hx (Nat.le_refl x) (Nat.lt_of_le_of_ne hle hne)
    exact absurd hq List.not_mem_nil
  | cons q l ih =>
    have hq := hl q List.mem_cons_self
    obtain ⟨hbefore, horder'⟩ := List.pairwise_cons.mp horder
    have hend := c.le q.stop hq.stop
    have hlt := hq.lt
    have hxq := hfrom q List.mem_cons_self
    have hstart : q.start = x := by
      obtain ⟨r, hr, hstart⟩ := hcovered x hx (Nat.le_refl x) (by omega)
      rcases List.mem_cons.mp hr with rfl | hr
      · exact hstart
      · have := hbefore r hr
        omega
    have hl' : ∀ r ∈ l, r.Of c := fun r hr => hl r (List.mem_cons_of_mem _ hr)
    refine ⟨hstart, ih hl' horder' hq.stop (fun r hr => hq.stop_le (hl' r hr) (hbefore r hr)) ?_⟩
    intro m hm hle hlast
    obtain ⟨r, hr, hrm⟩ := hcovered m hm (by omega) hlast
    rcases List.mem_cons.mp hr with rfl | hr
    · omega
    · exact ⟨r, hr, hrm⟩

end Pieces
