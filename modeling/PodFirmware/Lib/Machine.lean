import Mathlib.Order.Basic
import Mathlib.Tactic.Common

/-!
# PodFirmware.Lib.Machine

Runs of a deterministic machine given by a step function `step : σ → ι → σ`.

* `run step s is`: the state after the inputs `is`.
* `Always step Q s is`: every step taken along the run satisfies `Q` of the state it starts in and
  its input. Side conditions on inputs that depend on the state (such as a clock that does not run
  backwards) and properties of single steps are both stated this way.

The rules lift what one step preserves to a whole run. `Inv` is an invariant of states, `Ok` the
side condition under which one step is known to preserve it.
-/

namespace Machine

variable {σ ι : Type*} (step : σ → ι → σ)

def run (s : σ) (is : List ι) : σ := is.foldl step s

def Always (Q : σ → ι → Prop) : σ → List ι → Prop
  | _, [] => True
  | s, i :: is => Q s i ∧ Always Q (step s i) is

instance Always.decidable {Q : σ → ι → Prop} [∀ s i, Decidable (Q s i)] :
    ∀ s is, Decidable (Always step Q s is)
  | _, [] => inferInstanceAs (Decidable True)
  | s, i :: is => @instDecidableAnd _ _ _ (Always.decidable (step s i) is)

variable {step}

@[simp] theorem run_nil (s : σ) : run step s [] = s := rfl

@[simp] theorem run_cons (s : σ) (i : ι) (is : List ι) :
    run step s (i :: is) = run step (step s i) is := rfl

theorem run_append (s : σ) (is js : List ι) :
    run step s (is ++ js) = run step (run step s is) js := List.foldl_append

theorem run_concat (s : σ) (is : List ι) (i : ι) :
    run step s (is ++ [i]) = step (run step s is) i := by
  rw [run_append]; rfl

section Rules

variable {Inv : σ → Prop} {Ok Q R : σ → ι → Prop} {s : σ} {is : List ι}

theorem always_of_forall (h : ∀ s, ∀ i ∈ is, Q s i) : Always step Q s is := by
  induction is generalizing s with
  | nil => trivial
  | cons i is ih => exact ⟨h s i (by simp), ih fun t j hj => h t j (by simp [hj])⟩

theorem always_inputs_iff {Q : ι → Prop} : Always step (fun _ i => Q i) s is ↔ ∀ i ∈ is, Q i := by
  induction is generalizing s with
  | nil => simp [Always]
  | cons i is ih => simp only [Always, ih, List.forall_mem_cons]

theorem always_and : Always step (fun s i => Q s i ∧ R s i) s is ↔
    Always step Q s is ∧ Always step R s is := by
  induction is generalizing s with
  | nil => simp [Always]
  | cons i is ih => simp only [Always, ih]; tauto

/-- An invariant that every admissible step preserves holds at the end of the run. -/
theorem run_inv (hstep : ∀ s i, Inv s → Ok s i → Inv (step s i)) (h0 : Inv s)
    (hok : Always step Ok s is) : Inv (run step s is) := by
  induction is generalizing s with
  | nil => exact h0
  | cons i is ih => exact ih (hstep s i h0 hok.1) hok.2

theorem run_inv_of_step (hstep : ∀ s i, Inv s → Inv (step s i)) (h0 : Inv s) :
    Inv (run step s is) := by
  induction is generalizing s with
  | nil => exact h0
  | cons i is ih => exact ih (hstep s i h0)

/-- The same with a log: what the inputs have contributed so far, oldest first. -/
theorem run_inv_log {β : Type*} {Inv : List β → σ → Prop} (out : ι → List β)
    (hstep : ∀ log s i, Inv log s → Ok s i → Inv (log ++ out i) (step s i)) {log : List β}
    (h0 : Inv log s) (hok : Always step Ok s is) :
    Inv (log ++ is.flatMap out) (run step s is) := by
  induction is generalizing s log with
  | nil =>
    rw [List.flatMap_nil, List.append_nil]
    exact h0
  | cons i is ih =>
    rw [List.flatMap_cons, ← List.append_assoc]
    exact ih (hstep log s i h0 hok.1) hok.2

/-- Two step properties that agree under the invariant agree along the run. -/
theorem always_congr (hstep : ∀ s i, Inv s → Ok s i → Inv (step s i))
    (h : ∀ s i, Inv s → Ok s i → (Q s i ↔ R s i)) (h0 : Inv s) (hok : Always step Ok s is) :
    Always step Q s is ↔ Always step R s is := by
  induction is generalizing s with
  | nil => rfl
  | cons i is ih => exact and_congr (h s i h0 hok.1) (ih (hstep s i h0 hok.1) hok.2)

/-- If steps that satisfy `R` preserve the invariant, two properties that agree under it agree along
the run up to the first step that fails. -/
theorem always_iff_of_preserved (hstep : ∀ s i, Inv s → Ok s i → R s i → Inv (step s i))
    (h : ∀ s i, Inv s → Ok s i → (Q s i ↔ R s i)) (h0 : Inv s) (hok : Always step Ok s is) :
    Always step Q s is ↔ Always step R s is := by
  induction is generalizing s with
  | nil => rfl
  | cons i is ih =>
    rw [Always, Always, h s i h0 hok.1]
    exact and_congr_right fun hr => ih (hstep s i h0 hok.1 hr) hok.2

theorem always_iff_of_kept (hstep : ∀ s i, Inv s → R s i → Inv (step s i))
    (h : ∀ s i, Inv s → (Q s i ↔ R s i)) (h0 : Inv s) :
    Always step Q s is ↔ Always step R s is :=
  @always_iff_of_preserved _ _ step Inv (fun _ _ => True) Q R s is
    (fun s i hs _ => hstep s i hs) (fun s i hs _ => h s i hs) h0
    (always_of_forall fun _ _ _ => trivial)

/-- What an invariant and the side condition give of a step holds of every step. -/
theorem always_of_ok (hstep : ∀ s i, Inv s → Ok s i → Inv (step s i))
    (h : ∀ s i, Inv s → Ok s i → Q s i) (h0 : Inv s) (hok : Always step Ok s is) :
    Always step Q s is := by
  induction is generalizing s with
  | nil => trivial
  | cons i is ih => exact ⟨h s i h0 hok.1, ih (hstep s i h0 hok.1) hok.2⟩

theorem always_of_inv (hstep : ∀ s i, Inv s → Inv (step s i)) (h : ∀ s i, Inv s → Q s i)
    (h0 : Inv s) : Always step Q s is :=
  @always_of_ok _ _ step Inv (fun _ _ => True) Q s is (fun s i hs _ => hstep s i hs)
    (fun s i hs _ => h s i hs) h0 (always_of_forall fun _ _ _ => trivial)

theorem always_congr_of_forall (h : ∀ s i, Q s i ↔ R s i) :
    Always step Q s is ↔ Always step R s is := by
  induction is generalizing s with
  | nil => rfl
  | cons i is ih => exact and_congr (h s i) ih

/-- What a step keeps true exactly when it satisfies `Q` holds at the end of a run exactly when
every step does. -/
theorem run_iff_of_ok {P : σ → Prop} (hstep : ∀ s i, Inv s → Ok s i → Inv (step s i))
    (h : ∀ s i, Inv s → Ok s i → (P (step s i) ↔ Q s i ∧ P s)) (h0 : Inv s)
    (hok : Always step Ok s is) : P (run step s is) ↔ Always step Q s is ∧ P s := by
  induction is generalizing s with
  | nil => simp [Always]
  | cons i is ih =>
    rw [run_cons, ih (hstep s i h0 hok.1) hok.2, h s i h0 hok.1, Always]
    tauto

theorem run_iff {P : σ → Prop} (hstep : ∀ s i, Inv s → Inv (step s i))
    (h : ∀ s i, Inv s → (P (step s i) ↔ Q s i ∧ P s)) (h0 : Inv s) :
    P (run step s is) ↔ Always step Q s is ∧ P s := by
  have hok : Always step (fun _ _ => True) s is := always_of_forall fun _ _ _ => trivial
  exact run_iff_of_ok (fun s i hs _ => hstep s i hs) (fun s i hs _ => h s i hs) h0 hok

/-- A measure that no admissible step decreases does not decrease along the run. -/
theorem run_le {β : Type*} [Preorder β] (rank : σ → β)
    (hstep : ∀ s i, Inv s → Ok s i → Inv (step s i))
    (hle : ∀ s i, Inv s → Ok s i → rank s ≤ rank (step s i)) (h0 : Inv s)
    (hok : Always step Ok s is) : rank s ≤ rank (run step s is) := by
  induction is generalizing s with
  | nil => exact le_refl _
  | cons i is ih => exact le_trans (hle s i h0 hok.1) (ih (hstep s i h0 hok.1) hok.2)

/-- What an input sets or leaves alone is, at the end of a run, what was set last. -/
theorem run_last {α : Type*} (obs : σ → α) (sets : ι → Option α)
    (h : ∀ s i, obs (step s i) = (sets i).getD (obs s)) :
    obs (run step s is) = (is.filterMap sets).getLast?.getD (obs s) := by
  induction is generalizing s with
  | nil => rfl
  | cons i is ih =>
    rw [run_cons, ih, h]
    cases hi : sets i with
    | none => simp [hi]
    | some v => simp [hi, List.getLast?_cons]

/-- Two machines that read the same inputs stay related when their steps keep them so. -/
theorem run_related {τ : Type*} {step' : τ → ι → τ} {R : σ → τ → Prop} {t : τ}
    (hstep : ∀ s t i, R s t → R (step s i) (step' t i)) (h0 : R s t) :
    R (run step s is) (run step' t is) := by
  induction is generalizing s t with
  | nil => exact h0
  | cons i is ih => exact ih (hstep s t i h0)

/-- A machine `step'` that sees only some of the inputs, as `op` translates them, and only a part of
the state. -/
theorem always_project {τ κ : Type*} {step' : τ → κ → τ} {Q' : τ → κ → Prop} (proj : σ → τ)
    (op : ι → Option κ) (hnone : ∀ s i, op i = none → proj (step s i) = proj s)
    (hsome : ∀ s i o, op i = some o → proj (step s i) = step' (proj s) o) :
    Always step (fun s i => ∀ o, op i = some o → Q' (proj s) o) s is ↔
      Always step' Q' (proj s) (is.filterMap op) := by
  induction is generalizing s with
  | nil => rfl
  | cons i is ih =>
    rw [Always, ih]
    cases h : op i with
    | none => simp [h, hnone s i h]
    | some o => simp [h, hsome s i o h, Always]

end Rules

end Machine
