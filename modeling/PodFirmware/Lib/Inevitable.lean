import Mathlib.Data.Nat.Find
import PodFirmware.Lib.Machine

/-!
# PodFirmware.Lib.Inevitable

What a machine comes to, whatever it is fed, as long as every kind of input comes again and again.

* `after`: the state after some inputs of a stream.
* `Fair`: the streams of inputs of the given kinds in which each of the kinds recurs.
* `Inevitable`: on every fair stream a state with the property is reached.
-/

namespace Machine

variable {σ ι κ : Type*} (step : σ → ι → σ)

def after (s : σ) (ω : Nat → ι) (n : Nat) : σ := run step s ((List.range n).map ω)

/-- `kind` says of which kind an input is; inputs of no kind do not come. -/
structure Fair (kind : ι → Option κ) (ω : Nat → ι) : Prop where
  known : ∀ n, ∃ k, kind (ω n) = some k
  recurs : ∀ k n, ∃ m, n ≤ m ∧ kind (ω m) = some k

def Inevitable (kind : ι → Option κ) (s : σ) (Q : σ → Prop) : Prop :=
  ∀ ω, Fair kind ω → ∃ n, Q (after step s ω n)

section After

variable (s : σ) (ω : Nat → ι) (m n : Nat)

@[simp] theorem after_zero : after step s ω 0 = s := rfl

theorem after_succ : after step s ω (n + 1) = step (after step s ω n) (ω n) := by
  rw [after, List.range_succ, List.map_append, List.map_singleton, run_concat]
  rfl

theorem after_add :
    after step s ω (m + n) = after step (after step s ω m) (fun k => ω (m + k)) n := by
  induction n with
  | zero => rfl
  | succ n ih => rw [← Nat.add_assoc, after_succ, after_succ, ih]

end After

section Rules

variable {step} {kind : ι → Option κ} {s : σ} {Q R : σ → Prop}

theorem Fair.shift {ω : Nat → ι} (h : Fair kind ω) (m : Nat) : Fair kind fun k => ω (m + k) := by
  refine ⟨fun n => h.known (m + n), fun k n => ?_⟩
  obtain ⟨j, hj, hk⟩ := h.recurs k (m + n)
  exact ⟨j - m, by omega, by rwa [Nat.add_sub_cancel' (by omega)]⟩

theorem Inevitable.now (h : Q s) : Inevitable step kind s Q := fun _ _ => ⟨0, h⟩

theorem Inevitable.trans (h : Inevitable step kind s Q)
    (hR : ∀ t, Q t → Inevitable step kind t R) : Inevitable step kind s R := by
  intro ω hω
  obtain ⟨m, hm⟩ := h ω hω
  obtain ⟨n, hn⟩ := hR _ hm _ (hω.shift m)
  exact ⟨m + n, by rwa [after_add]⟩

theorem Inevitable.mono (h : Inevitable step kind s Q) (hR : ∀ t, Q t → R t) :
    Inevitable step kind s R :=
  h.trans fun t ht => .now (hR t ht)

/-- The next input of kind `k` does it, and what comes before keeps `P`. -/
theorem Inevitable.next {P : σ → Prop} (k : κ) (h : P s)
    (hkeep : ∀ t i j, P t → kind i = some j → j ≠ k → P (step t i))
    (hdo : ∀ t i, P t → kind i = some k → Inevitable step kind (step t i) Q) :
    Inevitable step kind s Q := by
  intro ω hω
  classical
  have hex : ∃ m, kind (ω m) = some k := by
    obtain ⟨m, -, hm⟩ := hω.recurs k 0
    exact ⟨m, hm⟩
  obtain ⟨m, hm, hbefore⟩ : ∃ m, kind (ω m) = some k ∧ ∀ n < m, kind (ω n) ≠ some k :=
    ⟨Nat.find hex, Nat.find_spec hex, fun n hn => Nat.find_min hex hn⟩
  have hP : ∀ n ≤ m, P (after step s ω n) := by
    intro n
    induction n with
    | zero => exact fun _ => h
    | succ n ih =>
      intro hn
      obtain ⟨j, hj⟩ := hω.known n
      rw [after_succ]
      refine hkeep _ _ j (ih (by omega)) hj ?_
      rintro rfl
      exact hbefore n hn hj
  obtain ⟨n, hn⟩ := hdo _ _ (hP m (Nat.le_refl m)) hm _ (hω.shift (m + 1))
  refine ⟨m + 1 + n, ?_⟩
  rw [after_add, after_succ]
  exact hn

end Rules

end Machine
