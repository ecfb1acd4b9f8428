import PodFirmware.Lib.Machine

/-!
# PodFirmware.Lib.WriteCache

An output that is driven through a cache. A command to drive it with a value `v` should leave it at
the level `level v`; the write is skipped when `v` is the value of the command before. Other code
writes the output directly.

* `through`: the machine that always writes; `skip`: the one that skips.
* `always_driven_iff`: with `skip` the output follows every command exactly when in the run of
  `through` no command repeats the value of the one before while the output is at the other level.
-/

namespace WriteCache

open Machine (Always)

structure Line (V : Type*) where
  cached : V
  output : Bool
  deriving DecidableEq, Repr

inductive Op (V : Type*) where
  | command (v : V)
  | write (b : Bool)

variable {V : Type*} [DecidableEq V] (level : V → Bool)

def through (s : Line V) : Op V → Line V
  | .command v => { cached := v, output := level v }
  | .write b => { s with output := b }

def skip (s : Line V) : Op V → Line V
  | .command v => { cached := v, output := if v ≠ s.cached then level v else s.output }
  | .write b => { s with output := b }

/-- A command leaves the output at its level. -/
def Driven (s : Line V) : Op V → Prop
  | .command v => (skip level s (.command v)).output = level v
  | .write _ => True

/-- A command brings a new value, or finds the output at its level. -/
def Fresh (s : Line V) : Op V → Prop
  | .command v => v = s.cached → s.output = level v
  | .write _ => True

instance (s : Line V) : DecidablePred (Fresh level s)
  | .command v => inferInstanceAs (Decidable (v = s.cached → s.output = level v))
  | .write _ => inferInstanceAs (Decidable True)

variable {level} {s : Line V} {op : Op V} {ops : List (Op V)}

theorem driven_iff : Driven level s op ↔ Fresh level s op := by
  cases op with
  | command v =>
    simp only [Driven, Fresh, skip]
    by_cases hv : v = s.cached <;> simp [hv]
  | write b => rfl

theorem skip_eq_through (h : Fresh level s op) : skip level s op = through level s op := by
  cases op with
  | command v =>
    simp only [skip, through]
    by_cases hv : v = s.cached
    · simp [hv, h hv]
    · simp [hv]
  | write b => rfl

theorem always_driven_iff :
    Always (skip level) (Driven level) s ops ↔ Always (through level) (Fresh level) s ops := by
  induction ops generalizing s with
  | nil => rfl
  | cons op ops ih =>
    rw [Always, Always, driven_iff]
    refine and_congr_right fun h => ?_
    rw [skip_eq_through h]
    exact ih

end WriteCache
