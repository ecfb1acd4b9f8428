import PodFirmware.CommandTable

/-!
# PodFirmware.Arguments

The handlers count their arguments themselves, not all of them before the first use. `do_i2c`
takes the address from `argv[2]` and the offset from `argv[3]` before it knows that they are there,
and `do_exti` indexes `interLine` with any number of eight bits.

* `Safe`: no access goes astray.
* `safe_handler_iff`: the handlers that never do, and when the other two do.
* `Strays`: the lines on which one of these does.
* `withinArguments_iff`: these are all.
-/

namespace PodFirmware

open CString

def Safe {α : Type} (r : Except Access α) : Prop := ∃ a, r = .ok a

section Rules

variable {α β : Type}

theorem ok_bind (a : α) (f : α → Except Access β) : (Except.ok a >>= f) = f a := rfl

@[simp] theorem safe_pure (a : α) : Safe (pure a : Except Access α) := ⟨a, rfl⟩

theorem safe_bind {r : Except Access α} {f : α → Except Access β} :
    Safe (r >>= f) ↔ ∃ a, r = .ok a ∧ Safe (f a) := by
  cases r with
  | error e =>
    constructor
    · rintro ⟨b, h⟩
      cases h
    · rintro ⟨a, h, -⟩
      cases h
  | ok a =>
    constructor
    · intro h
      exact ⟨a, rfl, h⟩
    · rintro ⟨a', h, hf⟩
      cases h
      exact hf

theorem arg_eq_ok_iff {argv : List Word} {k : Nat} {w : Word} :
    arg argv k = .ok w ↔ argv[k]? = some w := by
  rw [arg]
  split
  · next h => simp [h]
  · next h => simp [h]

/-- An element of `argv` may be used if it is one of the `argc` that are set. -/
@[simp] theorem safe_bind_arg {argv : List Word} {k : Nat} {f : Word → Except Access β} :
    Safe (arg argv k >>= f) ↔ ∃ w, argv[k]? = some w ∧ Safe (f w) := by
  simp only [safe_bind, arg_eq_ok_iff]

@[simp] theorem safe_bind_getTimeStamps {pin : UInt8} {f : Fin 16 → Except Access β} :
    Safe (getTimeStamps pin >>= f) ↔ ∃ h : pin.toNat < 16, Safe (f ⟨pin.toNat, h⟩) := by
  rw [safe_bind, getTimeStamps]
  split
  · next h => simp [h]
  · next h => simp [h]

@[simp] theorem safe_ite {c : Prop} [Decidable c] {r q : Except Access α} :
    Safe (if c then r else q) ↔ (c → Safe r) ∧ (¬c → Safe q) := by
  split <;> simp [*]

end Rules

section Handlers

variable {board : Board} {argv : List Word} {p : Pod}

theorem exists_arg (argv : List Word) {k : Nat} (h : k < argv.length) : ∃ w, argv[k]? = some w :=
  ⟨argv[k], List.getElem?_eq_getElem h⟩

theorem safe_doHelp (h : argv ≠ []) : Safe (doHelp board argv p) := by
  have := List.length_pos_iff.mpr h
  simp only [doHelp, safe_ite, safe_pure, safe_bind_arg, and_true]
  exact ⟨fun _ => trivial, fun hargc => exists_arg argv (by omega)⟩

theorem safe_doPin : Safe (doPin board argv p) := by
  simp only [doPin, safe_ite, safe_pure, safe_bind_arg]
  refine ⟨fun _ => trivial, fun hargc => ?_⟩
  obtain ⟨w, hw⟩ := exists_arg argv (k := 1) (by omega)
  refine ⟨w, hw, fun _ => trivial, fun _ => ?_⟩
  split
  · exact safe_pure _
  · simp only [safe_ite, safe_pure, safe_bind_arg]
    refine ⟨fun _ => trivial, fun hargc' => ?_⟩
    obtain ⟨action, haction⟩ := exists_arg argv (k := 2) (by omega)
    refine ⟨action, haction, fun _ => trivial, fun _ => ⟨fun _ => ?_, fun _ => trivial⟩⟩
    split <;> exact safe_pure _

theorem safe_doAr (h : argv ≠ []) : Safe (doAr board argv p) := by
  have := List.length_pos_iff.mpr h
  simp only [doAr, safe_ite, safe_pure, safe_bind_arg]
  refine ⟨fun _ => trivial, fun hargc => ?_⟩
  obtain ⟨w, hw⟩ := exists_arg argv (k := 1) (by omega)
  refine ⟨w, hw, fun _ => trivial, fun _ => ⟨fun _ => trivial, fun _ => ?_⟩⟩
  split
  · simp only [safe_ite, safe_pure, safe_bind_arg, and_true, implies_true]
    exact exists_arg argv
  · split
    · simp
    · exact safe_pure _

theorem safe_doFpcal : Safe (doFpcal board argv p) := by
  simp only [doFpcal, safe_ite, safe_pure, safe_bind_arg, implies_true, and_true, true_and]
  intro hargc
  obtain ⟨a, ha⟩ := exists_arg argv (k := 1) (by omega)
  obtain ⟨b, hb⟩ := exists_arg argv (k := 3) (by omega)
  exact ⟨a, ha, b, hb, fun _ => exists_arg argv (by omega)⟩

theorem safe_doEth : Safe (doEth board argv p) := by
  simp only [doEth, safe_ite, safe_pure, safe_bind_arg, implies_true, and_true, true_and]
  intro hargc
  obtain ⟨w, hw⟩ := exists_arg argv (k := 1) (by omega)
  exact ⟨w, hw, fun hphy => exists_arg argv (by omega)⟩

/-- Only the letter `m` has to do with a message. -/
theorem doLetter_of_ne {io : CommandIo} {word : Word} (h : portChar word ≠ 109)
    (message : Option Word) : p.doLetter io word message = p.doLetter io word none := by
  unfold Pod.doLetter
  split
  all_goals first | rfl | exact absurd rfl h

theorem doBadgerloopArgs_eq (h : argv ≠ []) :
    doBadgerloopArgs board argv p = .ok (doBadgerloop board.io argv p) := by
  match argv with
  | [] => exact absurd rfl h
  | [_] => rfl
  | [_, _, _] => rfl
  | [_, word] =>
    by_cases hm : portChar word = 109
    · cases word with
      | nil => cases hm
      | cons c rest =>
        have hc : c = 109 := hm
        subst hc
        rfl
    · simp [doBadgerloopArgs, doBadgerloop, arg, ok_bind, hm]
      rfl
  | _ :: word :: message :: _ :: rest =>
    by_cases hm : portChar word = 109
    · simp [doBadgerloopArgs, doBadgerloop, arg, ok_bind, hm]
    · simp [doBadgerloopArgs, doBadgerloop, arg, ok_bind, hm, doLetter_of_ne hm (some message)]
      rfl

/-- `do_exti` with a pin that `interLine` does not have. -/
def ExtiStrays (argv : List Word) : Prop :=
  ∃ w, argv[1]? = some w ∧ hasGpioAlias w = none ∧ 15 < (atoi w).toUInt32.toUInt8

theorem gpioTable_pin : ∀ g ∈ gpioTable, g.pin.toNat < 16 := by
  decide

theorem safe_doExti_iff : Safe (doExti board argv p) ↔ ¬ExtiStrays argv := by
  simp only [doExti, safe_ite, safe_pure, safe_bind_arg, safe_bind_getTimeStamps, true_and,
    implies_true, exists_prop, and_true]
  constructor
  · rintro hsafe ⟨w, hw, halias, hpin⟩
    have hargc : ¬argv.length < 2 := by
      have := (List.getElem?_eq_some_iff.mp hw).1
      omega
    obtain ⟨w', hw', hlt⟩ := hsafe hargc
    rw [hw] at hw'
    cases hw'
    simp only [halias] at hlt
    have : 15 < (atoi w).toUInt32.toUInt8.toNat := hpin
    omega
  · intro hstray hargc
    obtain ⟨w, hw⟩ := exists_arg argv (k := 1) (by omega)
    refine ⟨w, hw, ?_⟩
    cases halias : hasGpioAlias w with
    | some g => exact gpioTable_pin g (List.mem_of_find?_eq_some halias)
    | none =>
      by_contra hge
      simp only at hge
      refine hstray ⟨w, hw, halias, ?_⟩
      have : 15 < (atoi w).toUInt32.toUInt8.toNat := by omega
      exact this

/-- `do_i2c` without the address, or without the offset when a device answers. -/
def I2cStrays (board : Board) (argv : List Word) : Prop :=
  ∃ w, argv[1]? = some w ∧ w ≠ ascii "honeywell" ∧ w ≠ ascii "mpu" ∧
    (argv.length = 2 ∨
      argv.length = 3 ∧ (w = ascii "write" ∨ w = ascii "read") ∧
        ∃ digits, argv[2]? = some digits ∧ (strtoul 16 digits).toUInt16 ≤ 127 ∧
          board.isDeviceReady ((strtoul 16 digits).toUInt16 <<< 1) = .ok)

theorem safe_doI2cWrite_iff : Safe (doI2cWrite board argv p) ↔ 3 < argv.length := by
  simp only [doI2cWrite, safe_ite, safe_pure, safe_bind_arg, implies_true, true_and]
  constructor
  · rintro ⟨w, hw, -⟩
    exact (List.getElem?_eq_some_iff.mp hw).1
  · intro hargc
    obtain ⟨offset, hoffset⟩ := exists_arg argv hargc
    exact ⟨offset, hoffset, fun hfive _ => ⟨_, List.getElem?_eq_getElem (by omega), trivial⟩⟩

theorem safe_doI2cRead_iff (address size : UInt16) :
    Safe (doI2cRead board argv address size p) ↔ 3 < argv.length := by
  simp only [doI2cRead, safe_ite, safe_pure, safe_bind_arg, and_true]
  constructor
  · rintro ⟨hfour, hother⟩
    by_cases hargc : argv.length = 4
    · omega
    · obtain ⟨w, hw, -⟩ := hother hargc
      exact (List.getElem?_eq_some_iff.mp hw).1
  · intro hargc
    obtain ⟨w, hw⟩ := exists_arg argv hargc
    exact ⟨fun _ => ⟨w, hw⟩, fun hfour => ⟨w, hw, exists_arg argv (by omega)⟩⟩

theorem safe_doI2c_iff (h : argv ≠ []) : Safe (doI2c board argv p) ↔ ¬I2cStrays board argv := by
  have hpos := List.length_pos_iff.mpr h
  simp only [doI2c, safe_ite, safe_pure, safe_bind_arg, safe_doI2cWrite_iff, safe_doI2cRead_iff,
    implies_true, true_and]
  by_cases hone : argv.length = 1
  · simp [hone, I2cStrays]
  · obtain ⟨w, hw⟩ := exists_arg argv (k := 1) (by omega)
    simp only [hone, not_false_eq_true, true_implies, hw, Option.some.injEq, exists_eq_left',
      I2cStrays]
    by_cases hhoneywell : w = ascii "honeywell"
    · simp [hhoneywell]
    · by_cases hmpu : w = ascii "mpu"
      · have hletter : argv.length = 3 → ∃ letter, argv[2]? = some letter :=
          fun hargc => exists_arg argv (by omega)
        simpa [hmpu] using fun _ hargc => hletter hargc
      · simp only [hhoneywell, hmpu, ne_eq, not_false_eq_true, true_implies, false_implies,
          true_and]
        by_cases htwo : argv.length = 2
        · simp [htwo]
        · obtain ⟨digits, hdigits⟩ := exists_arg argv (k := 2) (by omega)
          have hthree : 3 < argv.length ↔ ¬argv.length = 3 := by omega
          simp only [hdigits, Option.some.injEq, exists_eq_left', htwo, false_or, hthree,
            gt_iff_lt, UInt16.not_lt, not_not, and_true]
          constructor
          · rintro hsafe ⟨hargc, hkeyword, haddress, hready⟩
            obtain ⟨hwrite, hread⟩ := hsafe haddress hready
            by_cases hw : w = ascii "write"
            · exact hwrite hw hargc
            · exact hread hw (hkeyword.resolve_left hw) hargc
          · intro hstray haddress hready
            exact ⟨fun hwrite hargc => hstray ⟨hargc, .inl hwrite, haddress, hready⟩,
              fun _ hread hargc => hstray ⟨hargc, .inr hread, haddress, hready⟩⟩

theorem safe_handler_iff (h : argv ≠ []) {entry : String × String × String × Handler}
    (hentry : entry ∈ handlers) :
    Safe (entry.2.2.2 board argv p) ↔
      ¬(entry.1 = "exti" ∧ ExtiStrays argv ∨ entry.1 = "i2c" ∧ I2cStrays board argv) := by
  simp only [handlers, List.mem_cons, List.not_mem_nil, or_false] at hentry
  rcases hentry with rfl | rfl | rfl | rfl | rfl | rfl | rfl | rfl | rfl | rfl | rfl
  · simpa using safe_doHelp h
  · exact iff_of_true (safe_pure _) (by simp)
  · exact iff_of_true (safe_pure _) (by simp)
  · simpa using safe_doPin
  · simpa using safe_doAr h
  · exact iff_of_true (safe_pure _) (by simp)
  · simpa using safe_doFpcal
  · simpa using safe_doEth
  · simpa using safe_doExti_iff
  · simpa using safe_doI2c_iff h
  · simpa using ⟨_, doBadgerloopArgs_eq h⟩

end Handlers

/-! ## Lines -/

/-- The entry of the table that a line runs. -/
def entryOf (argv : List Word) : Option (String × String × String × Handler) :=
  (getCommandIndex (handlers.map (·.1)) (argv.headD [])).bind (handlers[·]?)

def commandOf (argv : List Word) : Option String := (entryOf argv).map (·.1)

def Strays (board : Board) (argv : List Word) : Prop :=
  commandOf argv = some "exti" ∧ ExtiStrays argv ∨
    commandOf argv = some "i2c" ∧ I2cStrays board argv

theorem mem_of_entryOf {argv : List Word} {entry : String × String × String × Handler}
    (h : entryOf argv = some entry) : entry ∈ handlers := by
  obtain ⟨i, -, hget⟩ := Option.bind_eq_some_iff.mp h
  exact List.mem_of_getElem? hget

section Lines

variable {board : Board} {argv : List Word} {s : Shell}

theorem podCommands_find :
    (getCommandIndex ((podCommands board).map (·.name)) (argv.headD [])).bind
        ((podCommands board)[·]?) =
      (entryOf argv).map fun entry =>
        ⟨entry.1, entry.2.1, entry.2.2.1, entry.2.2.2.run board entry.1⟩ := by
  have hnames : (podCommands board).map (·.name) = handlers.map (·.1) := by
    simp [podCommands, Function.comp_def]
  rw [hnames, entryOf]
  cases getCommandIndex (handlers.map (·.1)) (argv.headD []) with
  | none => rfl
  | some i => simp [podCommands]

theorem run_access_eq_none_iff {h : Handler} {name : String} :
    (h.run board name argv s).2.access = none ↔ s.access = none ∧ Safe (h board argv s.pod) := by
  unfold Handler.run
  dsimp only
  split
  · next status p heq => simp [Safe, heq]
  · next a heq => simp [Safe, heq]

/-- What is printed about a command changes nothing about its accesses. -/
theorem dispatch_access :
    (dispatch (podCommands board) Shell.print argv s).access =
      match entryOf argv with
      | some entry => (entry.2.2.2.run board entry.1 argv s).2.access
      | none => s.access := by
  rw [dispatch, podCommands_find]
  cases entryOf argv with
  | none => rfl
  | some entry =>
    simp only [Option.map_some]
    generalize entry.2.2.2.run board entry.1 argv s = result
    obtain ⟨status, s'⟩ := result
    cases status <;> rfl

theorem dispatch_access_eq_none_iff (h : argv ≠ []) :
    (dispatch (podCommands board) Shell.print argv s).access = none ↔
      s.access = none ∧ ¬Strays board argv := by
  rw [dispatch_access]
  cases hentry : entryOf argv with
  | none => simp [Strays, commandOf, hentry]
  | some entry =>
    have hsafe := @safe_handler_iff board argv s.pod h entry (mem_of_entryOf hentry)
    simp only [run_access_eq_none_iff, hsafe, Strays, commandOf, hentry, Option.map_some,
      Option.some.injEq]

end Lines

/-- The handler of a line stays within its arguments and `interLine` unless the line is one of those
on which `do_exti` or `do_i2c` strays. -/
theorem withinArguments_iff (board : Board) (buffer : Memory) (p : Pod) :
    (processInput (podCommands board) Shell.print buffer { pod := p }).2.access = none ↔
      ¬Strays board (splitArgs (maxArgs - 1) (str buffer 0)) := by
  rw [processInput_eq_dispatch, dispatch_access_eq_none_iff (splitArgs_ne_nil _ _)]
  simp

/-- `i2c read` uses an argument that is not there, and `exti 16` an element behind the table. -/
theorem argument_not_set :
    let run := fun line =>
      (processInput (podCommands quietBoard) Shell.print (ascii line) { pod := boot }).2.access
    run "i2c read" = some (.argv 2) ∧ run "i2c write 1e" = some (.argv 3) ∧
      run "exti 16" = some (.interLine 16) ∧
      ¬∀ board buffer p,
        (processInput (podCommands board) Shell.print buffer { pod := p }).2.access = none := by
  refine ⟨by decide +kernel, by decide +kernel, by decide +kernel, fun h => ?_⟩
  have hread := h quietBoard (ascii "i2c read") boot
  revert hread
  decide +kernel

end PodFirmware
