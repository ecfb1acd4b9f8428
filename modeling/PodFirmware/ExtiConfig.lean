import PodFirmware.Exti
import PodFirmware.Gpio

/-!
# PodFirmware.ExtiConfig

`exti_config` on the registers that it shares between the lines. `EXTI->PR` is cleared by writing
ones.

* `extiConfig`: statement by statement, from any contents of the registers.
* `Configured`: the line is set up as requested, and nothing else has changed.
* `configured_iff`: what has to hold before the call.
* `middle_sets_C9`: the call for the middle strip sets the speed of a pin of `GPIOC`.
-/

namespace PodFirmware

/-- The port as its letter, and the letter as the number in the fields of `SYSCFG->EXTICR`. -/
def gpioGetGpioPortChar (port : UInt32) : UInt8 :=
  ((port - GpioPort.A.base) / 0x400).toUInt8 + 65

def extiGetIrqNum (pin : Exti.Line) : Exti.Irq :=
  match pin.val with
  | 0 => .exti0
  | 1 => .exti1
  | 2 => .exti2
  | 3 => .exti3
  | 4 => .exti4
  | n => if n ≤ 9 then .exti95 else .exti1510

/-- The interrupt of a line is one whose handler serves the line. -/
theorem mem_handler_extiGetIrqNum (pin : Exti.Line) : pin ∈ Exti.handler (extiGetIrqNum pin) := by
  revert pin
  decide

structure ExtiRegisters where
  gpio : GpioRegisters
  apb2enr : BitVec 32
  exticr : Nat → BitVec 32
  pr : BitVec 32
  imr : BitVec 32
  rtsr : BitVec 32
  ftsr : BitVec 32
  priority : Exti.Irq → UInt32
  enabled : Exti.Irq → Bool
  interLine : Exti.Line → TimeStamp

namespace ExtiRegisters

def lineBit (pin : Exti.Line) : BitVec 32 := 0x1 <<< pin.val

def selectTrigger (on : Bool) (pin : Exti.Line) (r : BitVec 32) : BitVec 32 :=
  if on then r ||| lineBit pin else r &&& ~~~lineBit pin

def forget (pin : Exti.Line) (s : ExtiRegisters) : ExtiRegisters :=
  { s with
    interLine := Function.update s.interLine pin
      { s.interLine pin with prev := 0, curr := 0, count := 0, filter := Vector.replicate 3 0 } }

def setPin (port : UInt32) (pin : Exti.Line) (s : ExtiRegisters) : ExtiRegisters :=
  let gpio := (gpioSetMode port (UInt8.ofNat pin) 0 s.gpio).2
  { s with
    gpio := gpio.modify GpioPort.C.base .ospeedr fun r => r ||| 0x03 <<< (2 * pin.val)
    apb2enr := s.apb2enr ||| 1 <<< 14 }

def selectPort (port : UInt32) (pin : Exti.Line) (s : ExtiRegisters) : ExtiRegisters :=
  let number := (gpioGetGpioPortChar port).toUInt32.toBitVec - 65
  { s with
    exticr := Function.update s.exticr (pin.val / 4)
      (s.exticr (pin.val / 4) ||| number <<< (pin.val % 4 * 4)) }

def setTrigger (pin : Exti.Line) (rtsr ftsr : Bool) (s : ExtiRegisters) : ExtiRegisters :=
  { s with
    pr := s.pr &&& ~~~0xffff
    imr := s.imr ||| lineBit pin
    rtsr := selectTrigger rtsr pin s.rtsr
    ftsr := selectTrigger ftsr pin s.ftsr }

def enableIrq (pin : Exti.Line) (s : ExtiRegisters) : ExtiRegisters :=
  { s with
    priority := Function.update s.priority (extiGetIrqNum pin) 4
    enabled := Function.update s.enabled (extiGetIrqNum pin) true }

def extiConfig (port : UInt32) (pin : Exti.Line) (rtsr ftsr ie : Bool) (s : ExtiRegisters) :
    ExtiRegisters :=
  let s := (((s.forget pin).setPin port pin).selectPort port pin).setTrigger pin rtsr ftsr
  if ie then s.enableIrq pin else s

/-! ## What a caller asks for -/

/-- The port that `SYSCFG->EXTICR` selects for a line, as a number. -/
def selected (s : ExtiRegisters) (l : Exti.Line) : BitVec 32 :=
  BitField.get 4 (l.val % 4 * 4) (s.exticr (l.val / 4))

def portNumber : GpioPort → BitVec 32
  | .A => 0 | .B => 1 | .C => 2 | .D => 3 | .E => 4 | .F => 5 | .G => 6 | .H => 7 | .I => 8
  | .J => 9 | .K => 10

/-- The bits of the registers of the pins that the mode and the speed of one pin occupy. -/
def Owned (port : GpioPort) (pin : Exti.Line) (q : UInt32) (r : Register) (i : Nat) : Prop :=
  q = port.base ∧ (r = .moder ∨ r = .ospeedr) ∧ i / 2 = pin

/-- The line is set up as requested in `t`, and the other lines and pins are as they were in `s`. -/
structure Configured (port : GpioPort) (pin : Exti.Line) (rtsr ftsr ie : Bool)
    (s t : ExtiRegisters) : Prop where
  selects : t.selected pin = portNumber port
  rising : t.rtsr.getLsbD pin = rtsr
  falling : t.ftsr.getLsbD pin = ftsr
  unmasked : t.imr.getLsbD pin = ie
  /-- The pin is an input. -/
  mode : BitField.get 2 (2 * pin.val) (t.gpio port.base .moder) = 0
  fast : BitField.get 2 (2 * pin.val) (t.gpio port.base .ospeedr) = 3
  pins : ∀ q r i, ¬Owned port pin q r i → (t.gpio q r).getLsbD i = (s.gpio q r).getLsbD i
  ports : ∀ l, l ≠ pin → t.selected l = s.selected l
  triggers : ∀ i, i ≠ pin.val → t.rtsr.getLsbD i = s.rtsr.getLsbD i ∧
    t.ftsr.getLsbD i = s.ftsr.getLsbD i
  masks : ∀ i, i ≠ pin.val → t.imr.getLsbD i = s.imr.getLsbD i
  pending : ∀ i, i ≠ pin.val → t.pr.getLsbD i = s.pr.getLsbD i
  stamps : ∀ l, l ≠ pin → t.interLine l = s.interLine l

/-- No bits of another port are left in the field, the interrupt is wanted, the port is `GPIOC` or the
pin's speed field is full already, there and at its own port, and no other line is pending. -/
structure Ready (port : GpioPort) (pin : Exti.Line) (ie : Bool) (s : ExtiRegisters) : Prop where
  field : s.selected pin ||| portNumber port = portNumber port
  wanted : ie = true
  speed : port = .C ∨ BitField.get 2 (2 * pin.val) (s.gpio GpioPort.C.base .ospeedr) = 3
  own : port = .C ∨ BitField.get 2 (2 * pin.val) (s.gpio port.base .ospeedr) = 3
  quiet : ∀ l : Exti.Line, l ≠ pin → s.pr.getLsbD l = false

/-! ## The registers after the call -/

section Registers

variable (port : GpioPort) (pin : Exti.Line) (rtsr ftsr ie : Bool) (s : ExtiRegisters)

theorem selectTrigger_eq (on : Bool) (pin : Exti.Line) (r : BitVec 32) :
    selectTrigger on pin r = BitField.assign pin on r := by
  cases on <;> rfl

theorem getLsbD_selectTrigger (on : Bool) (pin : Exti.Line) (r : BitVec 32) (i : Nat) :
    (selectTrigger on pin r).getLsbD i = if i = pin.val then on else r.getLsbD i := by
  rw [selectTrigger_eq, BitField.getLsbD_assign (by omega)]

theorem toBitVec_portChar :
    (gpioGetGpioPortChar port.base).toUInt32.toBitVec - 65 = portNumber port := by
  cases port <;> rfl

theorem extiConfig_rtsr : (s.extiConfig port.base pin rtsr ftsr ie).rtsr =
    selectTrigger rtsr pin s.rtsr := by
  cases ie <;> rfl

theorem extiConfig_ftsr : (s.extiConfig port.base pin rtsr ftsr ie).ftsr =
    selectTrigger ftsr pin s.ftsr := by
  cases ie <;> rfl

theorem extiConfig_imr : (s.extiConfig port.base pin rtsr ftsr ie).imr =
    selectTrigger true pin s.imr := by
  cases ie <;> rfl

theorem extiConfig_pr : (s.extiConfig port.base pin rtsr ftsr ie).pr =
    BitField.clear 16 0 s.pr := by
  cases ie <;> rfl

theorem extiConfig_interLine : (s.extiConfig port.base pin rtsr ftsr ie).interLine =
    Function.update s.interLine pin {} := by
  cases ie <;> rfl

theorem extiConfig_gpio : (s.extiConfig port.base pin rtsr ftsr ie).gpio =
    (gpioSetMode port.base (UInt8.ofNat pin) 0 s.gpio).2.modify GpioPort.C.base .ospeedr
      (BitField.join (2 * pin.val) 3) := by
  cases ie <;> rfl

theorem extiConfig_exticr : (s.extiConfig port.base pin rtsr ftsr ie).exticr =
    Function.update s.exticr (pin.val / 4)
      (BitField.join (pin.val % 4 * 4) (portNumber port) (s.exticr (pin.val / 4))) := by
  rw [← toBitVec_portChar]
  cases ie <;> rfl

theorem fits_portNumber : BitField.Fits 4 (portNumber port) := by
  apply BitField.fits_of_lt
  cases port <;> decide

theorem selected_self : (s.extiConfig port.base pin rtsr ftsr ie).selected pin =
    s.selected pin ||| portNumber port := by
  rw [selected, extiConfig_exticr, Function.update_self,
    BitField.get_join_self (by omega) (fits_portNumber port), selected]

theorem selected_of_ne {l : Exti.Line} (h : l ≠ pin) :
    (s.extiConfig port.base pin rtsr ftsr ie).selected l = s.selected l := by
  have hne : l.val ≠ pin.val := fun hl => h (Fin.ext hl)
  rw [selected, extiConfig_exticr, selected]
  by_cases hword : l.val / 4 = pin.val / 4
  · have hapart : BitField.Apart 4 (pin.val % 4 * 4) 4 (l.val % 4 * 4) := by
      unfold BitField.Apart
      omega
    rw [hword, Function.update_self, BitField.get_join_of_apart (fits_portNumber port) hapart]
  · rw [Function.update_of_ne hword]

/-- The mode is set at the port that was passed. -/
theorem setMode_snd : (gpioSetMode port.base (UInt8.ofNat pin) 0 s.gpio).2 =
    s.gpio.modify port.base .moder (BitField.put 2 (2 * pin.val) 0) := by
  have hpin : (UInt8.ofNat pin).toNat = pin.val := by
    rw [UInt8.toNat_ofNat', Nat.mod_eq_of_lt (by omega)]
  have hok : Accepted .mode port.base (UInt8.ofNat pin) 0 :=
    ⟨⟨port, rfl⟩, by omega, UInt32.zero_le⟩
  have hshift : Attribute.shift (UInt8.ofNat pin) .mode = 2 * pin.val := by
    simp only [Attribute.shift, hpin, Nat.mul_comm]
  have hset := setAttribute_snd s.gpio hok
  rw [hshift] at hset
  exact hset

/-- The speed is set at `GPIOC`. -/
theorem getLsbD_ospeedr (i : Nat) :
    ((s.extiConfig port.base pin rtsr ftsr ie).gpio GpioPort.C.base .ospeedr).getLsbD i =
      ((s.gpio GpioPort.C.base .ospeedr).getLsbD i || decide (i / 2 = pin.val)) := by
  rw [extiConfig_gpio, GpioRegisters.modify_self, setMode_snd,
    GpioRegisters.modify_of_ne _ _ _ _ _ _ (by simp)]
  rw [show (3 : BitVec 32) = BitField.mask 32 2 from rfl, BitField.getLsbD_join,
    BitField.getLsbD_mask]
  by_cases hi : i / 2 = pin.val
  · have hin : i < 32 ∧ 2 * pin.val ≤ i ∧ i - 2 * pin.val < 2 := by omega
    have hlt : i - 2 * pin.val < 32 := by omega
    simp [hi, hin.1, hin.2.2, hlt, Nat.not_lt.mpr hin.2.1]
  · have hout : i < 2 * pin.val ∨ ¬i - 2 * pin.val < 2 := by omega
    rw [decide_eq_false hi]
    rcases hout with hout | hout <;> simp [hout]

/-- The pin of `GPIOC` is fast in any case. -/
theorem get_ospeedr_C : BitField.get 2 (2 * pin.val)
    ((s.extiConfig port.base pin rtsr ftsr ie).gpio GpioPort.C.base .ospeedr) = 3 := by
  refine BitVec.eq_of_getLsbD_eq fun i hi => ?_
  rw [show (3 : BitVec 32) = BitField.mask 32 2 from rfl, BitField.getLsbD_get,
    BitField.getLsbD_mask, getLsbD_ospeedr, decide_eq_true hi, Bool.true_and]
  by_cases hlow : i < 2
  · have hfield : (2 * pin.val + i) / 2 = pin.val := by omega
    rw [decide_eq_true hlow, decide_eq_true hfield, Bool.or_true, Bool.and_self]
  · rw [decide_eq_false hlow, Bool.false_and]

/-- Another port keeps its speeds. -/
theorem gpio_ospeedr_of_ne {q : UInt32} (hq : q ≠ GpioPort.C.base) :
    (s.extiConfig port.base pin rtsr ftsr ie).gpio q .ospeedr = s.gpio q .ospeedr := by
  rw [extiConfig_gpio, GpioRegisters.modify_of_ne _ _ _ _ _ _ fun h => hq h.1.symm, setMode_snd,
    GpioRegisters.modify_of_ne _ _ _ _ _ _ (by simp)]

theorem get_moder : BitField.get 2 (2 * pin.val)
    ((s.extiConfig port.base pin rtsr ftsr ie).gpio port.base .moder) = 0 := by
  rw [extiConfig_gpio, GpioRegisters.modify_of_ne _ _ _ _ _ _ (by simp), setMode_snd,
    GpioRegisters.modify_self,
    BitField.get_put_self (by omega) (BitField.fits_of_lt (by decide))]

theorem getLsbD_gpio {q : UInt32} {r : Register} {i : Nat} (h : ¬Owned port pin q r i)
    (hc : ¬(q = GpioPort.C.base ∧ r = .ospeedr)) :
    ((s.extiConfig port.base pin rtsr ftsr ie).gpio q r).getLsbD i = (s.gpio q r).getLsbD i := by
  have hc' : ¬(GpioPort.C.base = q ∧ .ospeedr = r) := fun hq => hc ⟨hq.1.symm, hq.2.symm⟩
  rw [extiConfig_gpio, GpioRegisters.modify_of_ne _ _ _ _ _ _ hc', setMode_snd]
  by_cases hmode : port.base = q ∧ .moder = r
  · obtain ⟨rfl, rfl⟩ := hmode
    have hout : i < 2 * pin.val ∨ 2 * pin.val + 2 ≤ i := by
      have hi : ¬i / 2 = pin.val := fun hi => h ⟨rfl, .inl rfl, hi⟩
      omega
    rw [GpioRegisters.modify_self,
      BitField.getLsbD_put_of_outside (BitField.fits_of_lt (by decide)) hout]
  · rw [GpioRegisters.modify_of_ne _ _ _ _ _ _ hmode]

end Registers

/-! ## When a line is configured -/

section Configured

variable {port : GpioPort} {pin : Exti.Line} {rtsr ftsr ie : Bool} {s : ExtiRegisters}

theorem pins_iff :
    (∀ q r i, ¬Owned port pin q r i →
      ((s.extiConfig port.base pin rtsr ftsr ie).gpio q r).getLsbD i = (s.gpio q r).getLsbD i) ↔
    port = .C ∨ BitField.get 2 (2 * pin.val) (s.gpio GpioPort.C.base .ospeedr) = 3 := by
  constructor
  · intro h
    by_cases hport : port = .C
    · exact .inl hport
    · refine .inr (BitVec.eq_of_getLsbD_eq fun i _ => ?_)
      have hforeign : ¬Owned port pin GpioPort.C.base .ospeedr (2 * pin.val + i) :=
        fun ho => hport (GpioPort.base_inj.mp ho.1.symm)
      have hkept := h _ _ _ hforeign
      rw [getLsbD_ospeedr] at hkept
      rw [show (3 : BitVec 32) = BitField.mask 32 2 from rfl, BitField.getLsbD_get,
        BitField.getLsbD_mask]
      by_cases hi : i < 2
      · have hfield : (2 * pin.val + i) / 2 = pin.val := by omega
        have hlt : i < 32 := by omega
        rw [decide_eq_true hfield, Bool.or_true] at hkept
        rw [← hkept, decide_eq_true hi, decide_eq_true hlt]
      · simp [hi]
  · intro h q r i hforeign
    by_cases hc : q = GpioPort.C.base ∧ r = .ospeedr
    · obtain ⟨rfl, rfl⟩ := hc
      rw [getLsbD_ospeedr]
      by_cases hi : i / 2 = pin.val
      · rcases h with rfl | h
        · exact absurd ⟨rfl, .inr rfl, hi⟩ hforeign
        · have hbit := congrArg (BitVec.getLsbD · (i % 2)) h
          have hidx : 2 * pin.val + i % 2 = i := by omega
          have hlow : i % 2 < 2 ∧ i % 2 < 32 := by omega
          rw [show (3 : BitVec 32) = BitField.mask 32 2 from rfl] at hbit
          simp only [BitField.getLsbD_get, BitField.getLsbD_mask, hidx, hlow.1, hlow.2,
            decide_true, Bool.true_and] at hbit
          rw [hbit, Bool.true_or]
      · rw [decide_eq_false hi, Bool.or_false]
    · exact getLsbD_gpio port pin rtsr ftsr ie s hforeign hc

/-- The pin's own speed is set if it is one of `GPIOC`. -/
theorem fast_iff :
    BitField.get 2 (2 * pin.val)
        ((s.extiConfig port.base pin rtsr ftsr ie).gpio port.base .ospeedr) = 3 ↔
      port = .C ∨ BitField.get 2 (2 * pin.val) (s.gpio port.base .ospeedr) = 3 := by
  by_cases hport : port = .C
  · subst hport
    exact iff_of_true (get_ospeedr_C .C pin rtsr ftsr ie s) (.inl rfl)
  · have hq : port.base ≠ GpioPort.C.base := fun h => hport (GpioPort.base_inj.mp h)
    rw [gpio_ospeedr_of_ne port pin rtsr ftsr ie s hq, or_iff_right hport]

theorem pending_iff :
    (∀ i, i ≠ pin.val →
      (s.extiConfig port.base pin rtsr ftsr ie).pr.getLsbD i = s.pr.getLsbD i) ↔
    ∀ l : Exti.Line, l ≠ pin → s.pr.getLsbD l = false := by
  simp only [extiConfig_pr, BitField.getLsbD_clear]
  constructor
  · intro h l hl
    have hl' := h l fun hv => hl (Fin.ext hv)
    simpa [l.isLt] using hl'.symm
  · intro h i hi
    by_cases hlt : i < 16
    · have hclear := h ⟨i, hlt⟩ fun hl => hi (congrArg Fin.val hl)
      simp [hclear]
    · simp [hlt]

/-- Exactly from a state that is ready for it, a line is configured completely and alone. -/
theorem configured_iff (port : GpioPort) (pin : Exti.Line) (rtsr ftsr ie : Bool)
    (s : ExtiRegisters) :
    Configured port pin rtsr ftsr ie s (s.extiConfig port.base pin rtsr ftsr ie) ↔
      Ready port pin ie s := by
  constructor
  · intro h
    refine ⟨?_, ?_, pins_iff.mp h.pins, fast_iff.mp h.fast, pending_iff.mp h.pending⟩
    · rw [← selected_self port pin rtsr ftsr ie s]
      exact h.selects
    · have hmask := h.unmasked
      rw [extiConfig_imr, getLsbD_selectTrigger, if_pos rfl] at hmask
      exact hmask.symm
  · intro h
    refine ⟨?_, ?_, ?_, ?_, get_moder port pin rtsr ftsr ie s, fast_iff.mpr h.own,
      pins_iff.mpr h.speed, ?_, ?_, ?_, pending_iff.mpr h.quiet, ?_⟩
    · rw [selected_self, h.field]
    · rw [extiConfig_rtsr, getLsbD_selectTrigger, if_pos rfl]
    · rw [extiConfig_ftsr, getLsbD_selectTrigger, if_pos rfl]
    · rw [extiConfig_imr, getLsbD_selectTrigger, if_pos rfl, h.wanted]
    · intro l hl
      exact selected_of_ne port pin rtsr ftsr ie s hl
    · intro i hi
      rw [extiConfig_rtsr, extiConfig_ftsr, getLsbD_selectTrigger, getLsbD_selectTrigger,
        if_neg hi, if_neg hi]
      exact ⟨rfl, rfl⟩
    · intro i hi
      rw [extiConfig_imr, getLsbD_selectTrigger, if_neg hi]
    · intro l hl
      rw [extiConfig_interLine, Function.update_of_ne hl]

end Configured

/-- After a reset every register is zero. -/
def reset : ExtiRegisters where
  gpio := fun _ _ => 0
  apb2enr := 0
  exticr := fun _ => 0
  pr := 0
  imr := 0
  rtsr := 0
  ftsr := 0
  priority := fun _ => 0
  enabled := fun _ => false
  interLine := fun _ => {}

/-- The middle strip is set up first, at `E9`. The speed of `C9` changes, that of `E9` does not. -/
theorem middle_sets_C9 :
    let t := reset.extiConfig GpioPort.E.base 9 true false true
    ¬Configured .E 9 true false true reset t ∧
      BitField.get 2 18 (t.gpio GpioPort.C.base .ospeedr) = 3 ∧
      BitField.get 2 18 (t.gpio GpioPort.E.base .ospeedr) = 0 := by
  refine ⟨fun h => ?_, by decide +kernel, by decide +kernel⟩
  have hforeign : ¬Owned .E 9 GpioPort.C.base .ospeedr 18 := fun ho => by
    exact absurd ho.1 (by decide)
  have hkept := h.pins GpioPort.C.base .ospeedr 18 hforeign
  rw [getLsbD_ospeedr] at hkept
  simp [reset] at hkept

end ExtiRegisters

end PodFirmware
