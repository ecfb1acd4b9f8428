import PodFirmware.CommandTable
import PodFirmware.Lib.WriteCache

/-!
# PodFirmware.Pins

The pins of the brakes. `primary_brakes` and `secondary_brakes` skip the write when the intensity
is that of the call before, and the `pin` command of the console writes the same pins.

* `doPin_act`: what the command does to the output latches.
* `reaches_iff`: when every brake command reaches its pin, whatever the console writes in between.
-/

namespace PodFirmware

open CString
open Machine (Always)
open WriteCache (Line Op Driven Fresh skip through)

/-! ## Output latches -/

def pinBit (pin : UInt8) : UInt32 := 0x1 <<< pin.toUInt32

/-- The level at which the pin is driven. -/
def Actuation.latch (a : Actuation) (pin : GpioPort × UInt8) : Bool :=
  hasFlag (a.odr pin.1) (pinBit pin.2)

theorem hasFlag_and_not {f bit other : UInt32} (h : other &&& bit = 0) :
    hasFlag (f &&& ~~~other) bit = hasFlag f bit := by
  have hnot : ~~~other &&& bit = bit := by
    have hd : (~~~other ||| other) &&& bit = bit := by
      rw [UInt32.not_or_self, UInt32.neg_one_and]
    rwa [or_and_right, h, UInt32.or_zero] at hd
  rw [hasFlag, UInt32.and_assoc, hnot, hasFlag]

section Latch

variable {a : Actuation} {pin other : GpioPort × UInt8}

theorem pinBit_ne_zero (h : pin.2 < 16) : pinBit pin.2 ≠ 0 := by
  have hall : ∀ k : Fin 16, pinBit (UInt8.ofNat k) ≠ 0 := by decide
  have := hall ⟨pin.2.toNat, UInt8.lt_iff_toNat_lt.mp h⟩
  simpa using this

theorem pinBit_disjoint (h : pin.2 < 16) (h' : other.2 < 16) (hne : other.2 ≠ pin.2) :
    pinBit other.2 &&& pinBit pin.2 = 0 := by
  have hall : ∀ j k : Fin 16, j ≠ k →
      pinBit (UInt8.ofNat j) &&& pinBit (UInt8.ofNat k) = 0 := by decide
  have := hall ⟨other.2.toNat, UInt8.lt_iff_toNat_lt.mp h'⟩
    ⟨pin.2.toNat, UInt8.lt_iff_toNat_lt.mp h⟩ (by simpa [UInt8.toNat_inj] using hne)
  simpa using this

/-- A write drives its own pin and no other. -/
theorem latch_gpioWritePin (a : Actuation) (pin other : GpioPort × UInt8) (h : pin.2 < 16)
    (h' : other.2 < 16) (state : Bool) :
    (gpioWritePin other.1 other.2.toUInt32 state a).latch pin =
      if other = pin then state else a.latch pin := by
  unfold Actuation.latch gpioWritePin
  dsimp only
  by_cases hport : pin.1 = other.1
  · rw [hport, Function.update_self]
    by_cases hpin : other.2 = pin.2
    · have he : other = pin := Prod.ext hport.symm hpin
      rw [if_pos he, he]
      cases state
      · exact hasFlag_clear _ _
      · exact hasFlag_set (pinBit_ne_zero h)
    · have he : other ≠ pin := fun he => hpin (congrArg Prod.snd he)
      have hdisj : pinBit other.2 &&& pinBit pin.2 = 0 := pinBit_disjoint h h' hpin
      rw [if_neg he]
      cases state
      · exact hasFlag_and_not hdisj
      · exact hasFlag_or hdisj
  · have he : other ≠ pin := fun he => hport (congrArg Prod.fst he.symm)
    rw [Function.update_of_ne hport, if_neg he]

end Latch

/-! ## The console command -/

/-- The write that `pin` makes. -/
def pinWrite (board : Board) (argv : List Word) : Option ((GpioPort × UInt8) × Bool) :=
  match argv with
  | _ :: w :: action :: _ =>
    if isGroup w || w = ascii "alias" then none
    else
      match pinOf w with
      | none => none
      | some pin =>
        if action = ascii "on" ∨ action = ascii "off" then
          match board.gpioMode pin.1 pin.2 with
          | .alt | .analog => none
          | _ => some (pin, action = ascii "on")
        else none
  | _ => none

section Console

variable {board : Board} {argv : List Word} {p : Pod}

theorem pinOf_lt {w : Word} {pin : GpioPort × UInt8} (h : pinOf w = some pin) : pin.2 < 16 := by
  have htable : ∀ g ∈ gpioTable, g.pin < 16 := by decide
  unfold pinOf at h
  split at h
  · rename_i g hg
    cases h
    exact htable g (List.mem_of_find?_eq_some hg)
  · split at h
    · cases h
    · split at h
      · split at h
        · cases h
        · rename_i hle
          cases h
          rw [gt_iff_lt, UInt8.not_lt] at hle
          exact UInt8.lt_of_le_of_lt hle (by decide)
      · cases h
        exact (by decide : (0 : UInt8) < 16)

theorem pinWrite_lt {pin : GpioPort × UInt8} {state : Bool}
    (h : pinWrite board argv = some (pin, state)) : pin.2 < 16 := by
  unfold pinWrite at h
  split at h
  · split at h
    · cases h
    · split at h
      · cases h
      · rename_i hpin
        split at h
        · split at h
          · cases h
          · cases h
          · cases h
            exact pinOf_lt hpin
        · cases h
  · cases h

/-- The command always returns, and all it does to the latches is this write. -/
theorem doPin_act : ∃ status q, doPin board argv p = .ok (status, q) ∧
    q.act = match pinWrite board argv with
      | none => p.act
      | some (pin, state) => gpioWritePin pin.1 pin.2.toUInt32 state p.act := by
  match argv with
  | [] => exact ⟨_, _, rfl, rfl⟩
  | [_] => exact ⟨_, _, rfl, rfl⟩
  | [name, w] =>
    have h : doPin board [name, w] p =
        if isGroup w || w = ascii "alias" then .ok (.success, p.puts board.io.stdout)
        else match pinOf w with
          | none => .ok (.usage, p)
          | some _ => .ok (.success, p.puts board.io.stdout) := rfl
    rw [h]
    split
    · exact ⟨_, _, rfl, rfl⟩
    · split <;> exact ⟨_, _, rfl, rfl⟩
  | name :: w :: action :: rest =>
    have h : doPin board (name :: w :: action :: rest) p =
        if isGroup w || w = ascii "alias" then .ok (.success, p.puts board.io.stdout)
        else match pinOf w with
          | none => .ok (.usage, p)
          | some pin =>
            if action = ascii "info" then .ok (.success, p.puts board.io.stdout)
            else if action = ascii "on" ∨ action = ascii "off" then
              match board.gpioMode pin.1 pin.2 with
              | .alt | .analog => .ok (.fail, p.puts board.io.stdout)
              | _ => .ok (.success, setOutput p pin (action = ascii "on"))
            else .ok (.usage, p) := rfl
    rw [h, pinWrite]
    split
    · exact ⟨_, _, rfl, rfl⟩
    · split
      · exact ⟨_, _, rfl, rfl⟩
      · rename_i pin _
        have hinfo : action = ascii "info" → ¬ (action = ascii "on" ∨ action = ascii "off") := by
          rintro rfl
          decide
        by_cases hi : action = ascii "info"
        · rw [if_pos hi, if_neg (hinfo hi)]
          exact ⟨_, _, rfl, rfl⟩
        · rw [if_neg hi]
          split
          · split <;> exact ⟨_, _, rfl, rfl⟩
          · exact ⟨_, _, rfl, rfl⟩

end Console

/-! ## Commands -/

inductive BrakeCommand where
  | primary (intensity : Int32)
  | secondary (intensity : Int32)
  | pin (board : Board) (argv : List Word)

namespace BrakeCommand

def run (p : Pod) : BrakeCommand → Pod
  | .primary i => p.primaryBrakes i
  | .secondary i => p.secondaryBrakes i
  | .pin board argv =>
    match doPin board argv p with
    | .ok (_, q) => q
    | .error _ => p

/-- The solenoid of the primary brakes is driven to release them. -/
def primaryPin : GpioPort × UInt8 := (.D, 6)
def secondaryPin : GpioPort × UInt8 := (.E, 14)

/-- The pin is at the level of the intensity when the function returns. -/
def Reaches (p : Pod) : BrakeCommand → Prop
  | .primary i => (p.primaryBrakes i).act.latch primaryPin = decide (i = 0)
  | .secondary i => (p.secondaryBrakes i).act.latch secondaryPin = decide (i ≠ 0)
  | .pin _ _ => True

/-! ## One pin of the two -/

def consoleOp (pin : GpioPort × UInt8) (board : Board) (argv : List Word) : Option (Op Int32) :=
  (pinWrite board argv).bind fun (other, state) => if other = pin then some (.write state) else none

def primaryOp : BrakeCommand → Option (Op Int32)
  | .primary i => some (.command i)
  | .secondary _ => none
  | .pin board argv => consoleOp primaryPin board argv

def secondaryOp : BrakeCommand → Option (Op Int32)
  | .primary _ => none
  | .secondary i => some (.command i)
  | .pin board argv => consoleOp secondaryPin board argv

def primaryLevel (i : Int32) : Bool := decide (i = 0)
def secondaryLevel (i : Int32) : Bool := decide (i ≠ 0)

def primaryLine (p : Pod) : Line Int32 where
  cached := p.act.primaryIntensity
  output := p.act.latch primaryPin

def secondaryLine (p : Pod) : Line Int32 where
  cached := p.act.secondaryIntensity
  output := p.act.latch secondaryPin

section Line

variable {p : Pod} {c : BrakeCommand} {op : Op Int32} {i : Int32}

theorem primaryLine_primaryBrakes :
    primaryLine (p.primaryBrakes i) = skip primaryLevel (primaryLine p) (.command i) := by
  have hpin := latch_gpioWritePin p.act primaryPin primaryPin (by decide) (by decide)
    (decide (i = 0))
  rw [if_pos rfl] at hpin
  unfold Pod.primaryBrakes primaryLine skip
  by_cases h : i = p.act.primaryIntensity
  · simp only [Pod.drive_act, h, ne_eq, not_true_eq_false, if_false]
  · simp only [Pod.drive_act, h, ne_eq, not_false_eq_true, if_true]
    exact congrArg (Line.mk i) hpin

theorem secondaryLine_secondaryBrakes :
    secondaryLine (p.secondaryBrakes i) = skip secondaryLevel (secondaryLine p) (.command i) := by
  have hpin := latch_gpioWritePin p.act secondaryPin secondaryPin (by decide) (by decide)
    (decide (i ≠ 0))
  rw [if_pos rfl] at hpin
  unfold Pod.secondaryBrakes secondaryLine skip
  by_cases h : i = p.act.secondaryIntensity
  · simp only [Pod.drive_act, h, ne_eq, not_true_eq_false, if_false]
  · simp only [Pod.drive_act, h, ne_eq, not_false_eq_true, if_true]
    exact congrArg (Line.mk i) hpin

/-- The other brake's pin is at another port. -/
theorem secondaryLine_primaryBrakes : secondaryLine (p.primaryBrakes i) = secondaryLine p := by
  have hpin := latch_gpioWritePin p.act secondaryPin primaryPin (by decide) (by decide)
    (decide (i = 0))
  rw [if_neg (by decide)] at hpin
  unfold Pod.primaryBrakes secondaryLine
  by_cases h : i = p.act.primaryIntensity
  · simp only [Pod.drive_act, h, ne_eq, not_true_eq_false, if_false]
  · simp only [Pod.drive_act, h, ne_eq, not_false_eq_true, if_true]
    exact congrArg (Line.mk p.act.secondaryIntensity) hpin

theorem primaryLine_secondaryBrakes : primaryLine (p.secondaryBrakes i) = primaryLine p := by
  have hpin := latch_gpioWritePin p.act primaryPin secondaryPin (by decide) (by decide)
    (decide (i ≠ 0))
  rw [if_neg (by decide)] at hpin
  unfold Pod.secondaryBrakes primaryLine
  by_cases h : i = p.act.secondaryIntensity
  · simp only [Pod.drive_act, h, ne_eq, not_true_eq_false, if_false]
  · simp only [Pod.drive_act, h, ne_eq, not_false_eq_true, if_true]
    exact congrArg (Line.mk p.act.primaryIntensity) hpin

/-- The command writes a pin, or leaves it alone; it never touches the cached intensities. -/
theorem run_pin (board : Board) (argv : List Word) {pin : GpioPort × UInt8} (h : pin.2 < 16) :
    (run p (.pin board argv)).act.primaryIntensity = p.act.primaryIntensity ∧
      (run p (.pin board argv)).act.secondaryIntensity = p.act.secondaryIntensity ∧
      (run p (.pin board argv)).act.latch pin =
        match consoleOp pin board argv with
        | some (.write state) => state
        | _ => p.act.latch pin := by
  obtain ⟨status, q, hdo, hact⟩ := @doPin_act board argv p
  have hrun : run p (.pin board argv) = q := by
    rw [run, hdo]
  rw [hrun, consoleOp, hact]
  cases hw : pinWrite board argv with
  | none => exact ⟨rfl, rfl, rfl⟩
  | some w =>
    obtain ⟨other, state⟩ := w
    refine ⟨rfl, rfl, ?_⟩
    dsimp only [Option.bind_some]
    rw [latch_gpioWritePin _ _ _ h (pinWrite_lt hw)]
    split <;> rfl

theorem consoleOp_cases (pin : GpioPort × UInt8) (board : Board) (argv : List Word) :
    consoleOp pin board argv = none ∨ ∃ state, consoleOp pin board argv = some (.write state) := by
  unfold consoleOp
  cases pinWrite board argv with
  | none => exact .inl rfl
  | some w =>
    rw [Option.bind_some]
    split
    · split
      · exact .inr ⟨_, rfl⟩
      · exact .inl rfl

/-- The primary brakes see their own commands and what the console writes to their pin. -/
theorem primaryLine_run : primaryLine (run p c) =
    match primaryOp c with
    | some o => skip primaryLevel (primaryLine p) o
    | none => primaryLine p := by
  cases c with
  | primary i => exact primaryLine_primaryBrakes
  | secondary i => exact primaryLine_secondaryBrakes
  | pin board argv =>
    obtain ⟨hcached, -, hlatch⟩ := @run_pin p board argv primaryPin (by decide)
    rw [primaryLine, hcached, hlatch, primaryOp]
    rcases consoleOp_cases primaryPin board argv with h | ⟨state, h⟩ <;> rw [h] <;> rfl

theorem secondaryLine_run : secondaryLine (run p c) =
    match secondaryOp c with
    | some o => skip secondaryLevel (secondaryLine p) o
    | none => secondaryLine p := by
  cases c with
  | primary i => exact secondaryLine_primaryBrakes
  | secondary i => exact secondaryLine_secondaryBrakes
  | pin board argv =>
    obtain ⟨-, hcached, hlatch⟩ := @run_pin p board argv secondaryPin (by decide)
    rw [secondaryLine, hcached, hlatch, secondaryOp]
    rcases consoleOp_cases secondaryPin board argv with h | ⟨state, h⟩ <;> rw [h] <;> rfl

theorem reaches_iff_driven : Reaches p c ↔
    (∀ o, primaryOp c = some o → Driven primaryLevel (primaryLine p) o) ∧
      ∀ o, secondaryOp c = some o → Driven secondaryLevel (secondaryLine p) o := by
  cases c with
  | primary i =>
    have hline := congrArg Line.output (primaryLine_primaryBrakes (p := p) (i := i))
    simp only [primaryOp, secondaryOp, Option.some.injEq, forall_eq', reduceCtorEq, false_implies,
      implies_true, and_true, Driven, ← hline]
    rfl
  | secondary i =>
    have hline := congrArg Line.output (secondaryLine_secondaryBrakes (p := p) (i := i))
    simp only [primaryOp, secondaryOp, Option.some.injEq, forall_eq', reduceCtorEq, false_implies,
      implies_true, true_and, Driven, ← hline]
    rfl
  | pin board argv =>
    have hwrite (pin : GpioPort × UInt8) (level : Int32 → Bool) (line : Line Int32) (o : Op Int32)
        (ho : consoleOp pin board argv = some o) : Driven level line o := by
      rcases consoleOp_cases pin board argv with h | ⟨state, h⟩
      · rw [h] at ho
        cases ho
      · rw [h] at ho
        cases ho
        trivial
    exact iff_of_true trivial ⟨hwrite _ _ _, hwrite _ _ _⟩

end Line

end BrakeCommand

open BrakeCommand in
/-- Every command reaches its pin if and only if none repeats the intensity of the one before while
the pin is at the other level, as the commands alone tell. -/
theorem reaches_iff (p : Pod) (cs : List BrakeCommand) :
    Always run Reaches p cs ↔
      Always (through primaryLevel) (Fresh primaryLevel) (primaryLine p) (cs.filterMap primaryOp) ∧
        Always (through secondaryLevel) (Fresh secondaryLevel) (secondaryLine p)
          (cs.filterMap secondaryOp) := by
  have hprimary (q : Pod) (c : BrakeCommand) (h : primaryOp c = none) :
      primaryLine (run q c) = primaryLine q := by
    rw [primaryLine_run, h]
  have hprimary' (q : Pod) (c : BrakeCommand) (o : Op Int32) (h : primaryOp c = some o) :
      primaryLine (run q c) = skip primaryLevel (primaryLine q) o := by
    rw [primaryLine_run, h]
  have hsecondary (q : Pod) (c : BrakeCommand) (h : secondaryOp c = none) :
      secondaryLine (run q c) = secondaryLine q := by
    rw [secondaryLine_run, h]
  have hsecondary' (q : Pod) (c : BrakeCommand) (o : Op Int32) (h : secondaryOp c = some o) :
      secondaryLine (run q c) = skip secondaryLevel (secondaryLine q) o := by
    rw [secondaryLine_run, h]
  rw [← WriteCache.always_driven_iff, ← WriteCache.always_driven_iff,
    ← Machine.always_project primaryLine primaryOp hprimary hprimary',
    ← Machine.always_project secondaryLine secondaryOp hsecondary hsecondary', ← Machine.always_and]
  exact Machine.always_congr_of_forall fun _ _ => reaches_iff_driven

/-- `pin D6 on` -/
def releaseByHand : BrakeCommand := .pin quietBoard [ascii "pin", ascii "D6", ascii "on"]

/-- The brakes are applied again, and stay released. -/
theorem brakes_stay_released :
    (Machine.run BrakeCommand.run boot [.primary 100, releaseByHand, .primary 100]).act.latch
        (.D, 6) = true ∧
      ¬ ∀ (p : Pod) (cs : List BrakeCommand),
        Always BrakeCommand.run BrakeCommand.Reaches p cs := by
  have hlatch : (Machine.run BrakeCommand.run boot
      [.primary 100, releaseByHand, .primary 100]).act.latch (.D, 6) = true := by decide +kernel
  refine ⟨hlatch, fun h => ?_⟩
  have hreach := (h boot [.primary 100, releaseByHand, .primary 100]).2.2.1
  exact absurd (hlatch.symm.trans hreach) (by decide)

end PodFirmware
