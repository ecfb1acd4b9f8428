import Mathlib.Tactic.Common

/-!
# PodFirmware.Lib.Trace

Append-only traces, newest event first.

* `since new old`: the events of `new` that came after `old`.
* `Lawful law tr`: every event of the trace stands in `law` to the events before it.
-/

namespace Trace

variable {ε : Type*}

def since (new old : List ε) : List ε := new.take (new.length - old.length)

@[simp] theorem since_append (evs old : List ε) : since (evs ++ old) old = evs := by
  simp [since]

@[simp] theorem since_self (old : List ε) : since old old = [] := by simp [since]

/-- `law older e`: event `e` was allowed after the trace `older`. -/
def Lawful (law : List ε → ε → Prop) : List ε → Prop
  | [] => True
  | e :: older => law older e ∧ Lawful law older

instance Lawful.decidable {law : List ε → ε → Prop} [∀ older e, Decidable (law older e)] :
    ∀ tr, Decidable (Lawful law tr)
  | [] => inferInstanceAs (Decidable True)
  | _ :: older => @instDecidableAnd _ _ _ (Lawful.decidable older)

variable {law : List ε → ε → Prop}

theorem lawful_append {evs old : List ε} :
    Lawful law (evs ++ old) ↔ Lawful (fun mid e => law (mid ++ old) e) evs ∧ Lawful law old := by
  induction evs with
  | nil => simp [Lawful]
  | cons e evs ih => simp only [List.cons_append, Lawful, ih, and_assoc]

theorem lawful_iff {tr : List ε} :
    Lawful law tr ↔ ∀ newer e older, tr = newer ++ e :: older → law older e := by
  constructor
  · rintro h newer e older rfl
    exact (lawful_append.mp h).2.1
  · intro h
    induction tr with
    | nil => trivial
    | cons e tr ih =>
      exact ⟨h [] e tr rfl, ih fun newer x older hx => h (e :: newer) x older (by rw [hx]; rfl)⟩

/-- The newest event that `f` recognises, read by `f`. -/
def latest {α : Type*} (f : ε → Option α) (tr : List ε) : Option α := tr.findSome? f

section Latest

variable {α : Type*} {f : ε → Option α}

@[simp] theorem latest_nil : latest f ([] : List ε) = none := rfl

theorem latest_cons (e : ε) (tr : List ε) : latest f (e :: tr) = (f e).or (latest f tr) := by
  simp only [latest, List.findSome?_cons]
  cases f e <;> rfl

@[simp] theorem latest_append (evs old : List ε) :
    latest f (evs ++ old) = (latest f evs).or (latest f old) := by
  simp [latest, List.findSome?_append]

theorem latest_eq_none {tr : List ε} : latest f tr = none ↔ ∀ e ∈ tr, f e = none := by
  simp [latest]

theorem exists_of_latest {tr : List ε} {a : α} (h : latest f tr = some a) :
    ∃ e ∈ tr, f e = some a :=
  List.exists_of_findSome?_eq_some h

/-- A law that looks at the past only for the newest event that `f` recognises treats alike all the
events that come before the next one. -/
theorem lawful_append_of_latest {P : Option α → ε → Prop} {evs old : List ε}
    (hlaw : ∀ older e, law older e ↔ P (latest f older) e) (hf : ∀ e ∈ evs, f e = none) :
    Lawful law (evs ++ old) ↔ (∀ e ∈ evs, P (latest f old) e) ∧ Lawful law old := by
  induction evs with
  | nil => simp
  | cons e evs ih =>
    have hnone : latest f (evs ++ old) = latest f old := by
      rw [latest_append, latest_eq_none.mpr fun x hx => hf x (by simp [hx]), Option.none_or]
    simp only [List.cons_append, Lawful, ih fun x hx => hf x (by simp [hx]), hlaw, hnone,
      List.forall_mem_cons, and_assoc]

end Latest

end Trace
