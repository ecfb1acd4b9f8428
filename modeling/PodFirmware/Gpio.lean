import Mathlib.Logic.Function.Basic
import PodFirmware.Lib.BitField
import PodFirmware.Lib.Machine
import PodFirmware.Pod

/-!
# PodFirmware.Gpio

The configuration registers of the pins, as `stm32_gpio.c` packs them: sixteen fields of two bits in
`MODER`, `OSPEEDR` and `PUPDR`, and eight fields of four bits in each of the two words of `AFR`.
Every setter checks its arguments, clears the field and sets it.

* `setAttribute`, `getAttribute`: what the setters share, and the getters.
* `getAttribute_setAttribute_self`, `getAttribute_setAttribute_of_ne`: a setter writes one cell.
* `gpioCells`: over any calls, the registers behave as independent cells, one for each attribute of
  each pin.
-/

namespace PodFirmware

/-! ## Registers -/

/-- `GPIOA` to `GPIOK`. -/
def GpioPort.base : GpioPort → UInt32
  | .A => 0x40020000 | .B => 0x40020400 | .C => 0x40020800 | .D => 0x40020C00 | .E => 0x40021000
  | .F => 0x40021400 | .G => 0x40021800 | .H => 0x40021C00 | .I => 0x40022000 | .J => 0x40022400
  | .K => 0x40022800

def gpioPorts : List GpioPort := [.A, .B, .C, .D, .E, .F, .G, .H, .I, .J, .K]

def isGpioAllInstance (port : UInt32) : Bool := gpioPorts.any fun p => p.base = port

inductive Register where
  | moder | ospeedr | pupdr | afr (i : Nat)
  deriving DecidableEq, Repr

/-- The registers behind the base address of each port. -/
abbrev GpioRegisters := UInt32 → Register → BitVec 32

def GpioRegisters.modify (g : GpioRegisters) (port : UInt32) (r : Register)
    (f : BitVec 32 → BitVec 32) : GpioRegisters :=
  Function.update g port (Function.update (g port) r (f (g port r)))

/-! ## Checks -/

def verifyGpioMode (mode : UInt32) : Int32 := if mode > 3 then -1 else 0

def verifyGpioSpeed (speed : UInt32) : Int32 := if speed > 3 then -1 else 0

def verifyGpioPullup (state : UInt32) : Int32 := if state > 2 then -1 else 0

def verifyGpioPort (port : UInt32) : Int32 := if isGpioAllInstance port then 0 else -1

/-! ## Setters and getters -/

inductive Attribute where
  | mode | speed | pullup | alternateFunc
  deriving DecidableEq, Repr

namespace Attribute

def verify : Attribute → UInt32 → Int32
  | mode => verifyGpioMode
  | speed => verifyGpioSpeed
  | pullup => verifyGpioPullup
  | alternateFunc => fun val => if val > 15 then -1 else 0

def register (pin : UInt8) : Attribute → Register
  | mode => .moder
  | speed => .ospeedr
  | pullup => .pupdr
  | alternateFunc => .afr (pin.toNat / 8)

def mask : Attribute → BitVec 32
  | alternateFunc => 0xF
  | _ => 0x3

def shift (pin : UInt8) : Attribute → Nat
  | alternateFunc => pin.toNat % 8 * 4
  | _ => pin.toNat * 2

end Attribute

/-- What a setter returns, and the registers after it. -/
def setAttribute (a : Attribute) (port : UInt32) (pin : UInt8) (v : UInt32) (g : GpioRegisters) :
    Int32 × GpioRegisters :=
  if verifyGpioPort port ≠ 0 ∨ pin > 15 ∨ a.verify v ≠ 0 then (-1, g)
  else
    let g := g.modify port (a.register pin) fun r => r &&& ~~~(a.mask <<< a.shift pin)
    (0, g.modify port (a.register pin) fun r => r ||| v.toBitVec <<< a.shift pin)

/-- The getters do not check their arguments. -/
def getAttribute (a : Attribute) (port : UInt32) (pin : UInt8) (g : GpioRegisters) : UInt32 :=
  ⟨g port (a.register pin) >>> a.shift pin &&& a.mask⟩

def gpioSetMode := setAttribute .mode
def gpioSetSpeed := setAttribute .speed
def gpioSetPullupState := setAttribute .pullup
def gpioSetAlternateFunc (port : UInt32) (pin val : UInt8) :=
  setAttribute .alternateFunc port pin val.toUInt32

def gpioGetMode := getAttribute .mode
def gpioGetSpeed := getAttribute .speed
def gpioGetPullupState := getAttribute .pullup
def gpioGetAlternateFunc := getAttribute .alternateFunc

/-! ## Fields -/

namespace Attribute

/-- The values that an attribute can have. -/
def Fitting (v : UInt32) : Attribute → Prop
  | mode => v ≤ 3
  | speed => v ≤ 3
  | pullup => v ≤ 2
  | alternateFunc => v ≤ 15

instance (v : UInt32) : ∀ a, Decidable (Fitting v a)
  | mode => inferInstanceAs (Decidable (v ≤ 3))
  | speed => inferInstanceAs (Decidable (v ≤ 3))
  | pullup => inferInstanceAs (Decidable (v ≤ 2))
  | alternateFunc => inferInstanceAs (Decidable (v ≤ 15))

/-- The number of bits of a field. -/
def width : Attribute → Nat
  | alternateFunc => 4
  | _ => 2

theorem verify_eq_zero_iff (a : Attribute) (v : UInt32) : a.verify v = 0 ↔ Fitting v a := by
  cases a <;>
    simp only [verify, verifyGpioMode, verifyGpioSpeed, verifyGpioPullup, Fitting] <;>
    split <;> simp_all

theorem mask_eq (a : Attribute) : a.mask = BitField.mask 32 a.width := by
  cases a <;> rfl

theorem shift_le (a : Attribute) {pin : UInt8} (h : pin.toNat < 16) :
    a.shift pin + a.width ≤ 32 := by
  cases a <;> simp only [shift, width] <;> omega

theorem fits {a : Attribute} {v : UInt32} (h : Fitting v a) :
    BitField.Fits a.width v.toBitVec := by
  apply BitField.fits_of_lt
  rw [UInt32.toNat_toBitVec]
  cases a <;> simp only [Fitting, UInt32.le_iff_toNat_le] at h <;>
    simp only [width] <;> simp at h ⊢ <;> omega

/-- Two fields of one register lie apart. -/
theorem apart {a a' : Attribute} {pin pin' : UInt8} (hr : a.register pin = a'.register pin')
    (hne : ¬(a = a' ∧ pin = pin')) :
    BitField.Apart a.width (a.shift pin) a'.width (a'.shift pin') := by
  have hpin : a = a' → pin.toNat ≠ pin'.toNat := by
    intro ha hpin
    exact hne ⟨ha, UInt8.toNat_inj.mp hpin⟩
  cases a <;> cases a' <;> simp [register] at hr hpin <;>
    simp only [BitField.Apart, width, shift] <;> omega

end Attribute

/-! ## One setter -/

namespace GpioRegisters

variable (g : GpioRegisters) (port port' : UInt32) (r r' : Register) (f h : BitVec 32 → BitVec 32)

theorem modify_self : g.modify port r f port r = f (g port r) := by
  rw [modify, Function.update_self, Function.update_self]

theorem modify_of_ne (hne : ¬(port = port' ∧ r = r')) :
    g.modify port r f port' r' = g port' r' := by
  by_cases hport : port' = port
  · subst hport
    rw [modify, Function.update_self, Function.update_of_ne fun hr => hne ⟨rfl, hr.symm⟩]
  · rw [modify, Function.update_of_ne hport]

theorem modify_modify : (g.modify port r f).modify port r h = g.modify port r (h ∘ f) := by
  simp only [modify, Function.update_self, Function.update_idem, Function.comp_apply]

end GpioRegisters

theorem isGpioAllInstance_iff (port : UInt32) :
    isGpioAllInstance port = true ↔ ∃ p : GpioPort, port = p.base := by
  rw [isGpioAllInstance, List.any_eq_true]
  constructor
  · rintro ⟨p, -, hp⟩
    exact ⟨p, (of_decide_eq_true hp).symm⟩
  · rintro ⟨p, rfl⟩
    exact ⟨p, by cases p <;> simp [gpioPorts], decide_eq_true rfl⟩

theorem GpioPort.base_inj {p q : GpioPort} : p.base = q.base ↔ p = q := by
  cases p <;> cases q <;> decide

section Setter

variable {a : Attribute} {port : UInt32} {pin : UInt8} {v : UInt32}

/-- Port, pin and value are ones that the controller has. -/
def Accepted (a : Attribute) (port : UInt32) (pin : UInt8) (v : UInt32) : Prop :=
  (∃ p : GpioPort, port = p.base) ∧ pin.toNat < 16 ∧ a.Fitting v

theorem verifyGpioPort_eq_zero_iff (port : UInt32) :
    verifyGpioPort port = 0 ↔ ∃ p : GpioPort, port = p.base := by
  rw [verifyGpioPort, ← isGpioAllInstance_iff]
  split <;> simp_all

theorem setAttribute_rejected (g : GpioRegisters) (h : ¬Accepted a port pin v) :
    setAttribute a port pin v g = (-1, g) := by
  have hpin : pin > 15 ↔ ¬pin.toNat < 16 := by
    rw [gt_iff_lt, UInt8.lt_iff_toNat_lt, Nat.not_lt]
    exact Nat.succ_le_iff.symm
  rw [setAttribute, if_pos]
  rw [ne_eq, verifyGpioPort_eq_zero_iff, hpin, ne_eq, a.verify_eq_zero_iff]
  unfold Accepted at h
  tauto

theorem setAttribute_accepted (g : GpioRegisters) (h : Accepted a port pin v) :
    setAttribute a port pin v g =
      (0, g.modify port (a.register pin) (BitField.put a.width (a.shift pin) v.toBitVec)) := by
  obtain ⟨hport, hpin, hv⟩ := h
  have hle : ¬pin > 15 := by
    rw [gt_iff_lt, UInt8.lt_iff_toNat_lt]
    simpa using Nat.le_of_lt_succ hpin
  rw [setAttribute, if_neg]
  · simp only [GpioRegisters.modify_modify, a.mask_eq]
    rfl
  · simp [verifyGpioPort_eq_zero_iff, hport, hle, a.verify_eq_zero_iff, hv]

theorem setAttribute_snd (g : GpioRegisters) (h : Accepted a port pin v) :
    (setAttribute a port pin v g).2 =
      g.modify port (a.register pin) (BitField.put a.width (a.shift pin) v.toBitVec) := by
  rw [setAttribute_accepted g h]

theorem getAttribute_eq (a : Attribute) (port : UInt32) (pin : UInt8) (g : GpioRegisters) :
    getAttribute a port pin g =
      ⟨BitField.get a.width (a.shift pin) (g port (a.register pin))⟩ := by
  rw [getAttribute, a.mask_eq]
  rfl

/-- A setter that accepts its arguments writes the cell they name. -/
theorem getAttribute_setAttribute_self (g : GpioRegisters) (h : Accepted a port pin v) :
    getAttribute a port pin (setAttribute a port pin v g).2 = v := by
  rw [setAttribute_snd g h, getAttribute_eq, GpioRegisters.modify_self,
    BitField.get_put_self (a.shift_le h.2.1) (Attribute.fits h.2.2)]

/-- No setter writes another one. -/
theorem getAttribute_setAttribute_of_ne {b : Attribute} {q : UInt32} {i : UInt8} (g : GpioRegisters)
    (hne : ¬(a = b ∧ port = q ∧ pin = i)) :
    getAttribute b q i (setAttribute a port pin v g).2 = getAttribute b q i g := by
  by_cases hok : Accepted a port pin v
  · rw [setAttribute_snd g hok, getAttribute_eq, getAttribute_eq]
    by_cases hreg : port = q ∧ a.register pin = b.register i
    · obtain ⟨rfl, hreg⟩ := hreg
      have hcell : ¬(a = b ∧ pin = i) := fun h => hne ⟨h.1, rfl, h.2⟩
      rw [← hreg, GpioRegisters.modify_self,
        BitField.get_put_of_apart (Attribute.fits hok.2.2) (Attribute.apart hreg hcell)]
    · rw [GpioRegisters.modify_of_ne _ _ _ _ _ _ hreg]
  · rw [setAttribute_rejected g hok]

end Setter

/-! ## Calls -/

namespace GpioRegisters

inductive Call where
  | setMode (port : UInt32) (pin : UInt8) (mode : UInt32)
  | setSpeed (port : UInt32) (pin : UInt8) (speed : UInt32)
  | setPullupState (port : UInt32) (pin : UInt8) (state : UInt32)
  | setAlternateFunc (port : UInt32) (pin : UInt8) (val : UInt8)

/-- One attribute of one pin. -/
structure Cell where
  attr : Attribute
  port : GpioPort
  pin : Fin 16

/-- What the getter of the attribute returns. -/
def Cell.value (c : Cell) (g : GpioRegisters) : UInt32 :=
  match c.attr with
  | .mode => gpioGetMode c.port.base (UInt8.ofNat c.pin) g
  | .speed => gpioGetSpeed c.port.base (UInt8.ofNat c.pin) g
  | .pullup => gpioGetPullupState c.port.base (UInt8.ofNat c.pin) g
  | .alternateFunc => gpioGetAlternateFunc c.port.base (UInt8.ofNat c.pin) g

namespace Call

def run : Call → GpioRegisters → Int32 × GpioRegisters
  | setMode port pin mode => gpioSetMode port pin mode
  | setSpeed port pin speed => gpioSetSpeed port pin speed
  | setPullupState port pin state => gpioSetPullupState port pin state
  | setAlternateFunc port pin val => gpioSetAlternateFunc port pin val

def attr : Call → Attribute
  | setMode .. => .mode
  | setSpeed .. => .speed
  | setPullupState .. => .pullup
  | setAlternateFunc .. => .alternateFunc

def port : Call → UInt32
  | setMode p .. | setSpeed p .. | setPullupState p .. | setAlternateFunc p .. => p

def pin : Call → UInt8
  | setMode _ i _ | setSpeed _ i _ | setPullupState _ i _ | setAlternateFunc _ i _ => i

def arg : Call → UInt32
  | setMode _ _ v | setSpeed _ _ v | setPullupState _ _ v => v
  | setAlternateFunc _ _ v => v.toUInt32

def Valid (c : Call) : Prop := Accepted c.attr c.port c.pin c.arg

/-- What a valid call for the cell sets it to. -/
def sets (cell : Cell) (c : Call) : Option UInt32 :=
  if c.attr = cell.attr ∧ c.port = cell.port.base ∧ c.pin = UInt8.ofNat cell.pin ∧
    c.attr.Fitting c.arg then some c.arg else none

end Call

def step (g : GpioRegisters) (c : Call) : GpioRegisters := (c.run g).2

theorem run_eq (c : Call) (g : GpioRegisters) :
    c.run g = setAttribute c.attr c.port c.pin c.arg g := by
  cases c <;> rfl

theorem value_eq (c : Cell) (g : GpioRegisters) :
    c.value g = getAttribute c.attr c.port.base (UInt8.ofNat c.pin) g := by
  obtain ⟨a, p, i⟩ := c
  cases a <;> rfl

theorem value_step (cell : Cell) (g : GpioRegisters) (c : Call) :
    cell.value (step g c) = (c.sets cell).getD (cell.value g) := by
  rw [value_eq, value_eq, step, run_eq, Call.sets]
  have hpin : (UInt8.ofNat cell.pin).toNat < 16 := by
    rw [UInt8.toNat_ofNat']
    omega
  by_cases hcell : c.attr = cell.attr ∧ c.port = cell.port.base ∧ c.pin = UInt8.ofNat cell.pin
  · obtain ⟨ha, hport, hi⟩ := hcell
    rw [← ha, ← hport, ← hi]
    by_cases hv : c.attr.Fitting c.arg
    · rw [if_pos ⟨rfl, rfl, rfl, hv⟩, getAttribute_setAttribute_self g ⟨⟨_, hport⟩, hi ▸ hpin, hv⟩]
      rfl
    · rw [if_neg fun h => hv h.2.2.2, setAttribute_rejected g fun h => hv h.2.2]
      rfl
  · rw [if_neg fun h => hcell ⟨h.1, h.2.1, h.2.2.1⟩, getAttribute_setAttribute_of_ne g hcell]
    rfl

/-- Every call either is rejected and changes nothing, or returns 0; and every cell holds, after any
calls, what a valid call for it set last. -/
theorem gpioCells (g : GpioRegisters) (calls : List Call) :
    Machine.Always step
      (fun g c => (¬c.Valid → c.run g = (-1, g)) ∧ (c.Valid → (c.run g).1 = 0)) g calls ∧
    ∀ cell : Cell, cell.value (Machine.run step g calls) =
      (calls.filterMap (Call.sets cell)).getLast?.getD (cell.value g) := by
  constructor
  · apply Machine.always_of_forall
    intro g c _
    constructor
    · intro h
      rw [run_eq, setAttribute_rejected g h]
    · intro h
      rw [run_eq, setAttribute_accepted g h]
  · intro cell
    exact Machine.run_last cell.value (Call.sets cell) (value_step cell)

/-- Two alternate functions share a word. -/
example : gpioGetAlternateFunc GpioPort.B.base 13
    (Machine.run step (fun _ _ => 0xFFFFFFFF)
      [.setAlternateFunc GpioPort.B.base 13 11, .setAlternateFunc GpioPort.B.base 12 5,
        .setAlternateFunc GpioPort.B.base 13 16]) = 11 := by decide

end GpioRegisters

end PodFirmware
