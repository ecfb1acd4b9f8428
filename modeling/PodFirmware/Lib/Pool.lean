import Mathlib.Algebra.Ring.Nat
import Mathlib.Data.List.Nodup
import Mathlib.Tactic.Common

/-!
# PodFirmware.Lib.Pool

A pool of elements from which buffers of several elements are taken and to which they are given
back. Buffers are numbered as they are taken, so that it can be told which of them have been freed
and how often.

* `alloc`, `release`: a buffer is taken, or there are too few elements; a buffer is given back.
* `Valid`: no element is lost, and no buffer is freed twice or while it is held.
* `release_alloc`: a buffer that is given back at once leaves the pool as it was.
-/

structure Pool where
  free : Nat
  held : List (Nat × Nat) := []
  freed : List Nat := []
  next : Nat := 0
  deriving DecidableEq, Repr

namespace Pool

def alloc (n : Nat) (p : Pool) : Option (Nat × Pool) :=
  if n ≤ p.free then
    some (p.next, { p with free := p.free - n, held := (p.next, n) :: p.held, next := p.next + 1 })
  else none

/-- A buffer that is not held brings nothing back. -/
def release (b : Nat) (p : Pool) : Pool :=
  { p with
    free := p.free + ((p.held.find? (·.1 = b)).map (·.2)).getD 0
    held := p.held.eraseP (·.1 = b)
    freed := b :: p.freed }

def buffers (p : Pool) : List Nat := p.held.map (·.1)

structure Valid (size : Nat) (p : Pool) : Prop where
  total : p.free + (p.held.map (·.2)).sum = size
  known : ∀ b ∈ p.buffers ++ p.freed, b < p.next
  once : (p.buffers ++ p.freed).Nodup

variable {size n b : Nat} {p q : Pool}

theorem alloc_eq_some (h : alloc n p = some (b, q)) :
    n ≤ p.free ∧ b = p.next ∧
      q = { p with free := p.free - n, held := (b, n) :: p.held, next := p.next + 1 } := by
  unfold alloc at h
  split at h
  · next hle =>
    cases h
    exact ⟨hle, rfl, rfl⟩
  · cases h

theorem release_of_held {rest : List (Nat × Nat)} (h : p.held = (b, n) :: rest) :
    release b p = { p with free := p.free + n, held := rest, freed := b :: p.freed } := by
  simp [release, h]

theorem Valid.alloc (h : Valid size p) (ha : alloc n p = some (b, q)) : Valid size q := by
  obtain ⟨hle, rfl, rfl⟩ := alloc_eq_some ha
  refine ⟨?_, ?_, ?_⟩
  · have := h.total
    simp only [List.map_cons, List.sum_cons]
    omega
  · intro b hb
    rcases List.mem_cons.mp hb with rfl | hb
    · exact Nat.lt_succ_self _
    · exact Nat.lt_succ_of_lt (h.known b hb)
  · exact List.nodup_cons.mpr ⟨fun hb => Nat.lt_irrefl _ (h.known _ hb), h.once⟩

theorem Valid.release {rest : List (Nat × Nat)} (h : Valid size p)
    (hp : p.held = (b, n) :: rest) : Valid size (release b p) := by
  obtain ⟨htotal, hknown, honce⟩ := h
  simp only [buffers, hp, List.map_cons, List.cons_append] at hknown honce
  rw [release_of_held hp]
  refine ⟨?_, ?_, ?_⟩
  · rw [hp, List.map_cons, List.sum_cons] at htotal
    simp only
    omega
  · intro c hc
    exact hknown c (List.perm_middle.mem_iff.mp hc)
  · exact List.perm_middle.nodup_iff.mpr honce

/-- The whole life of a buffer. -/
theorem release_alloc (ha : alloc n p = some (b, q)) :
    (release b q).free = p.free ∧ (release b q).held = p.held := by
  obtain ⟨hle, rfl, rfl⟩ := alloc_eq_some ha
  rw [release_of_held rfl]
  exact ⟨Nat.sub_add_cancel hle, rfl⟩

theorem Valid.count_of_freed (h : Valid size p) (hb : b ∈ p.freed) : p.freed.count b = 1 :=
  List.count_eq_one_of_mem (h.once.of_append_right) hb

theorem Valid.count_of_held (h : Valid size p) (hb : b ∈ p.buffers) : p.freed.count b = 0 :=
  List.count_eq_zero_of_not_mem fun hf => (List.disjoint_of_nodup_append h.once) hb hf

end Pool
