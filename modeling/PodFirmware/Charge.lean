import PodFirmware.Held
import PodFirmware.Override

/-!
# PodFirmware.Charge

The state of charge. Once a second the energy drawn in that second is taken from `soc`, which is
unsigned and starts at `SOC_INITIAL`; nothing stops it at zero.

* `Ranged`: what the readings of a 10-bit converter can be.
* `accounting_shellStep`: what a step of the program does to the account.
* `inRange_iff`: the account stays in range up to the step in which more has been drawn in all than
  there was.
-/

namespace PodFirmware

/-! ## Readings -/

/-- The readings of battery voltage (mV) and current (mA) for a converter of 10 bits. -/
structure Ranged (t : Telemetry) : Prop where
  voltage : 0 ≤ t.vBatt.toInt ∧ t.vBatt.toInt ≤ 14073
  current : 0 ≤ t.iBatt.toInt ∧ t.iBatt.toInt ≤ 78081

/-- Every reading of the converter fits into 10 bits. -/
def TenBit (env : Env) : Prop := ∀ channel, env.analogRead channel ≤ 1023

section Readings

variable {env : Env} (p : Pod)

/-- A reading times 3.2, in 16 bits. -/
theorem toNat_scaled {x : UInt16} (h : x.toNat ≤ 1023) :
    (x * 3 + x / 5).toNat = x.toNat * 3 + x.toNat / 5 := by
  have h3 : (3 : UInt16).toNat = 3 := rfl
  have hmul : (x * 3).toNat = x.toNat * 3 := by
    rw [UInt16.toNat_mul, h3]
    exact Nat.mod_eq_of_lt (by omega)
  have hdiv : (x / 5).toNat = x.toNat / 5 := by
    rw [UInt16.toNat_div]
    rfl
  rw [UInt16.toNat_add, hmul, hdiv]
  exact Nat.mod_eq_of_lt (by omega)

theorem voltage_range (h : TenBit env) : 0 ≤ (Pod.batteryVoltage env p).telem.vBatt.toInt ∧
    (Pod.batteryVoltage env p).telem.vBatt.toInt ≤ 14073 := by
  have hr : (env.analogRead 13).toNat ≤ 1023 := UInt16.le_iff_toNat_le.mp (h 13)
  have ht := toNat_scaled hr
  have hv : (Pod.batteryVoltage env p).telem.vBatt = CInt.ofU16 (CInt.toU16
      (CInt.ofU16 (4 * (env.analogRead 13 * 3 + env.analogRead 13 / 5)) +
        3 * CInt.ofU16 (env.analogRead 13 * 3 + env.analogRead 13 / 5) / 10)) := rfl
  rw [hv]
  generalize env.analogRead 13 * 3 + env.analogRead 13 / 5 = t at ht
  have h3 : (3 : Int32).toInt = 3 := rfl
  have h4 : (4 : UInt16).toNat = 4 := rfl
  have h10 : (10 : Int32).toInt = 10 := rfl
  have hquad : (CInt.ofU16 (4 * t)).toInt = 4 * t.toNat := by
    rw [CInt.toInt_ofU16, UInt16.toNat_mul, h4]
    omega
  have hmul : (3 * CInt.ofU16 t).toInt = 3 * t.toNat := by
    rw [CInt.toInt_mul_of_bounds] <;> rw [h3, CInt.toInt_ofU16] <;> omega
  have hdiv : (3 * CInt.ofU16 t / 10).toInt = 3 * t.toNat / 10 := by
    rw [CInt.toInt_div_of_nonneg (by omega) (by decide), hmul, h10]
  have hsum : (CInt.ofU16 (4 * t) + 3 * CInt.ofU16 t / 10).toInt =
      4 * t.toNat + 3 * t.toNat / 10 := by
    rw [CInt.toInt_add_of_bounds] <;> rw [hquad, hdiv] <;> omega
  have hmod := Nat.mod_le (4 * t.toNat + 3 * t.toNat / 10 : Int).toNat (2 ^ 16)
  rw [CInt.toInt_ofU16, CInt.toNat_toU16 (by omega), hsum]
  omega

theorem current_range (h : TenBit env) : 0 ≤ (Pod.batteryCurrent env p).telem.iBatt.toInt ∧
    (Pod.batteryCurrent env p).telem.iBatt.toInt ≤ 78081 := by
  have hr : (env.analogRead 3).toNat ≤ 1023 := UInt16.le_iff_toNat_le.mp (h 3)
  let t := env.analogRead 3 - (if env.analogRead 3 > 120 then 120 else env.analogRead 3)
  have ht : t.toNat ≤ 903 := by
    have h120 : (120 : UInt16).toNat = 120 := rfl
    by_cases ho : env.analogRead 3 > 120
    · have hle : (120 : UInt16) ≤ env.analogRead 3 := UInt16.le_of_lt ho
      simp only [t, if_pos ho, UInt16.toNat_sub_of_le _ _ hle, h120]
      omega
    · simp [t, if_neg ho]
  have hu := toNat_scaled (x := t) (by omega)
  have hi : (Pod.batteryCurrent env p).telem.iBatt =
      CInt.ofU16 (t * 3 + t / 5) * 1000 / 37 := rfl
  have h1000 : (1000 : Int32).toInt = 1000 := rfl
  have h37 : (37 : Int32).toInt = 37 := rfl
  have hmul : (CInt.ofU16 (t * 3 + t / 5) * 1000).toInt = (t * 3 + t / 5).toNat * 1000 := by
    rw [CInt.toInt_mul_of_bounds] <;> rw [h1000, CInt.toInt_ofU16] <;> omega
  rw [hi, CInt.toInt_div_of_nonneg (by omega) (by decide), hmul, h37]
  omega

end Readings

/-! ## Data acquisition -/

/-- What the account is computed from, beside the readings. -/
def Pod.account (p : Pod) : UInt32 × Bool × UInt32 :=
  (p.daq.soc, p.daq.charging, p.telem.percentage)

theorem account_of_held {p q : Pod} (h : q.held = p.held) : q.account = p.account :=
  congrArg (fun x : Held => (x.statics.soc, x.statics.charging, x.telem.percentage)) h

theorem telem_of_held {p q : Pod} (h : q.held = p.held) : q.telem = p.telem :=
  congrArg Held.telem h

namespace Pod

variable {env : Env} (p : Pod)

theorem ranged_badgerloopForcedData (h : TenBit env) :
    Ranged (badgerloopForcedData env p).telem := by
  have hsensors (q : Pod) : Ranged (podSensors env q).telem :=
    ⟨voltage_range q h, current_range q h⟩
  unfold badgerloopForcedData
  dsimp only
  split <;> exact hsensors _

theorem ranged_badgerloopUpdateData (h : TenBit env) :
    Ranged (badgerloopUpdateData env p).telem :=
  ranged_badgerloopForcedData _ h

theorem account_badgerloopForcedData : (badgerloopForcedData env p).account = p.account := by
  have hstatics := congrArg (fun d : DaqState => (d.soc, d.charging))
    (statics_badgerloopForcedData env p)
  obtain ⟨hsoc, hcharging⟩ := Prod.mk.inj hstatics
  exact Prod.ext hsoc (Prod.ext hcharging (badgerloopForcedData_forced env p).percentage)

theorem beside_account : Beside account where
  readTicks _ _ _ := rfl
  imu _ _ _ _ _ _ := rfl
  rollAccel _ := rfl
  accelerated _ _ _ := rfl
  critical _ _ _ := rfl
  moved _ _ _ := rfl
  counted _ _ := rfl
  pressures _ _ := rfl

theorem account_badgerloopUpdateData : (badgerloopUpdateData env p).account = p.account := by
  obtain ⟨q, hq, hupdate⟩ := beside_account.badgerloopUpdateData env p
  rw [hupdate, account_badgerloopForcedData, hq]

theorem account_daqStep : (daqStep env p).account = p.account := by
  have hd := account_of_held (held_due env p .daqMod .daqCmp 10 p.daq.lastDaqTimestamp)
  rw [daqStep_eq]
  dsimp only
  split
  · exact (account_badgerloopUpdateData _).trans hd
  · split
    · exact (account_badgerloopForcedData _).trans hd
    · exact hd

theorem ranged_daqStep (h : TenBit env) (hp : Ranged p.telem) : Ranged (daqStep env p).telem := by
  rw [daqStep_eq]
  dsimp only
  split
  · exact ranged_badgerloopUpdateData _ h
  · split
    · exact ranged_badgerloopForcedData _ h
    · rw [telem_of_held (held_due env p .daqMod .daqCmp 10 p.daq.lastDaqTimestamp)]
      exact hp

end Pod

/-! ## Accounting -/

/-- `curr_draw`. -/
def currDraw (t : Telemetry) (charging : Bool) : UInt32 :=
  let draw := (t.vBatt * t.iBatt / 1000000).toUInt32
  let charge := (3000 * t.vBatt / 1000000).toUInt32
  if charging then (if draw < charge then 0 else draw - charge) else draw

/-- The energy of one second, in joules: what is drawn, less what the charger brings. -/
def energy (t : Telemetry) (charging : Bool) : Nat :=
  t.vBatt.toInt.toNat * t.iBatt.toInt.toNat / 1000000 -
    if charging then 3000 * t.vBatt.toInt.toNat / 1000000 else 0

/-- No product of the accounting overflows. -/
structure Exact (t : Telemetry) (soc : UInt32) : Prop where
  draw : (t.vBatt * t.iBatt).toInt = t.vBatt.toInt * t.iBatt.toInt
  charge : (3000 * t.vBatt).toInt = 3000 * t.vBatt.toInt
  percentage : (soc * 100).toNat = soc.toNat * 100

section Accounting

variable {t : Telemetry} {env : Env} {p : Pod}

theorem Ranged.draw_le (h : Ranged t) : 0 ≤ t.vBatt.toInt * t.iBatt.toInt ∧
    t.vBatt.toInt * t.iBatt.toInt ≤ 14073 * 78081 :=
  ⟨Int.mul_nonneg h.voltage.1 h.current.1,
    Int.mul_le_mul h.voltage.2 h.current.2 h.current.1 (by decide)⟩

theorem Ranged.exact (h : Ranged t) {soc : UInt32} (hs : soc.toNat ≤ 1013760) : Exact t soc := by
  have hdraw := h.draw_le
  have hv := h.voltage
  have h3000 : (3000 : Int32).toInt = 3000 := rfl
  have h100 : (100 : UInt32).toNat = 100 := rfl
  refine ⟨CInt.toInt_mul_of_bounds (by omega) (by omega), ?_, ?_⟩
  · rw [CInt.toInt_mul_of_bounds] <;> rw [h3000] <;> omega
  · rw [UInt32.toNat_mul, h100]
    omega

theorem toNat_quotient {x : Int32} (hx : 0 ≤ x.toInt) :
    (x / 1000000).toUInt32.toNat = x.toInt.toNat / 1000000 := by
  have hm : (1000000 : Int32).toInt = 1000000 := rfl
  have hb := CInt.toInt_bounds x
  have hquot := CInt.toNat_toUInt32 (x / 1000000)
  rw [CInt.toInt_div_of_nonneg hx (by decide), hm] at hquot
  omega

theorem toNat_currDraw (h : Ranged t) (charging : Bool) :
    (currDraw t charging).toNat = energy t charging := by
  have hexact : Exact t 0 := h.exact (by decide)
  have hdraw := toNat_quotient (x := t.vBatt * t.iBatt) (by rw [hexact.draw]; exact h.draw_le.1)
  have hcharge := toNat_quotient (x := 3000 * t.vBatt) (by
    rw [hexact.charge]
    have := h.voltage
    omega)
  rw [hexact.draw, Int.toNat_mul h.voltage.1 h.current.1] at hdraw
  rw [hexact.charge, Int.toNat_mul (by decide) h.voltage.1] at hcharge
  have h3000 : Int.toNat 3000 = 3000 := rfl
  rw [h3000] at hcharge
  unfold currDraw energy
  dsimp only
  rw [← hdraw, ← hcharge]
  cases charging with
  | false => simp
  | true =>
    rw [if_pos rfl, if_pos rfl]
    split
    · rename_i hlt
      have := UInt32.lt_iff_toNat_lt.mp hlt
      rw [UInt32.toNat_zero]
      omega
    · rename_i hge
      rw [UInt32.not_lt] at hge
      exact UInt32.toNat_sub_of_le _ _ hge

/-- The step that takes the draw from `soc` and publishes the percentage. -/
structure Charged (p q : Pod) : Prop where
  soc : q.daq.soc = p.daq.soc - currDraw q.telem p.daq.charging
  percentage : q.telem.percentage = q.daq.soc * 100 / 1013760

theorem battStep_cases (p : Pod) :
    ((p.battStep env).telem.vBatt = p.telem.vBatt ∧
      (p.battStep env).telem.iBatt = p.telem.iBatt ∧
      (p.battStep env).daq.charging = p.daq.charging) ∧
    if (p.due env .battMod .battCmp 1000 p.daq.lastBattTimestamp).1 then
      Charged p (p.battStep env)
    else (p.battStep env).daq.soc = p.daq.soc := by
  have hd := held_due env p .battMod .battCmp 1000 p.daq.lastBattTimestamp
  unfold Pod.battStep
  generalize p.due env .battMod .battCmp 1000 p.daq.lastBattTimestamp = r at hd ⊢
  obtain ⟨hit, q⟩ := r
  dsimp only at hd ⊢
  have hv : q.telem.vBatt = p.telem.vBatt := congrArg Telemetry.vBatt (telem_of_held hd)
  have hi : q.telem.iBatt = p.telem.iBatt := congrArg Telemetry.iBatt (telem_of_held hd)
  have hs : q.daq.soc = p.daq.soc := congrArg Prod.fst (account_of_held hd)
  have hc : q.daq.charging = p.daq.charging := congrArg (·.2.1) (account_of_held hd)
  cases hit with
  | false => exact ⟨⟨hv, hi, hc⟩, hs⟩
  | true =>
    refine ⟨⟨hv, hi, hc⟩, ?_, rfl⟩
    rw [← hs, ← hc]
    rfl

end Accounting

/-! ## One step of the program -/

/-- The account is drawn from in this step. -/
def accounts (p : Pod) (i : ShellInput) : Bool :=
  match i.env? with
  | some env => Activity.battery.runs env p
  | none => false

/-- The converter has 10 bits, and nobody sets `soc` or the readings of the battery by hand. -/
structure Fair (p : Pod) (i : ShellInput) : Prop where
  app : ∀ env, i.env? = some env → TenBit env
  command : ∀ io argv, i = .command io argv →
    TenBit io.env ∧ ∀ name value, argv ≠ [name, CString.ascii "soc", value]
  telemetry : ∀ t, i = .loop (.base (.telemetry t)) →
    t.vBatt = p.telem.vBatt ∧ t.iBatt = p.telem.iBatt

section Steps

variable {p q : Pod} {env : Env} {i : ShellInput}

theorem Ranged.congr {t t' : Telemetry} (h : Ranged t) (hv : t'.vBatt = t.vBatt)
    (hi : t'.iBatt = t.iBatt) : Ranged t' :=
  ⟨hv ▸ h.voltage, hi ▸ h.current⟩

/-- What a call does to the account. -/
structure Accounted (env : Env) (p q : Pod) : Prop where
  vBatt : q.telem.vBatt = (p.daqStep env).telem.vBatt
  iBatt : q.telem.iBatt = (p.daqStep env).telem.iBatt
  charging : q.daq.charging = p.daq.charging
  soc : if Activity.battery.runs env p then Charged p q else q.daq.soc = p.daq.soc

theorem accounted_applicationHandler : Accounted env p (p.applicationHandler env) := by
  let metered := (p.daqStep env).telemetryStep env
  have hmetered : metered.held = (p.daqStep env).held := held_telemetryStep env _
  have haccount : metered.account = p.account :=
    (account_of_held hmetered).trans (p.account_daqStep)
  have hsoc : metered.daq.soc = p.daq.soc := congrArg Prod.fst haccount
  have hcharging : metered.daq.charging = p.daq.charging := congrArg (·.2.1) haccount
  have hruns : Activity.battery.runs env p =
      (metered.due env .battMod .battCmp 1000 metered.daq.lastBattTimestamp).1 :=
    Bool.and_true _
  have hafter : (p.applicationHandler env).held = (metered.battStep env).held :=
    held_stateMachineHandler env _
  have htelem := telem_of_held hafter
  have hsoc' : (p.applicationHandler env).daq.soc = (metered.battStep env).daq.soc :=
    congrArg Prod.fst (account_of_held hafter)
  have hcharging' : (p.applicationHandler env).daq.charging = (metered.battStep env).daq.charging :=
    congrArg (·.2.1) (account_of_held hafter)
  obtain ⟨⟨hv, hi, hc⟩, hcases⟩ := @battStep_cases env metered
  constructor
  · rw [htelem, hv, telem_of_held hmetered]
  · rw [htelem, hi, telem_of_held hmetered]
  · rw [hcharging', hc, hcharging]
  · rw [hruns]
    split
    · rename_i hhit
      rw [if_pos hhit] at hcases
      constructor
      · rw [hsoc', hcases.soc, hsoc, hcharging, htelem]
      · rw [hsoc', htelem, hcases.percentage]
    · rename_i hhit
      rw [if_neg hhit] at hcases
      rw [hsoc', hcases, hsoc]

theorem ranged_applicationHandler (ht : TenBit env) (hr : Ranged p.telem) :
    Ranged (p.applicationHandler env).telem :=
  have h := @accounted_applicationHandler p env
  (p.ranged_daqStep ht hr).congr h.vBatt h.iBatt

theorem vBatt_set {f : Field} (hf : f ∈ telemetryCommands.map (·.2)) (t : Telemetry) (v : Int) :
    (t.set v f).vBatt = t.vBatt ∧ (t.set v f).iBatt = t.iBatt := by
  revert hf
  cases f <;> first | exact fun _ => ⟨rfl, rfl⟩ | exact fun hf => absurd hf (by decide)

theorem account_doBadgerloop {io : CommandIo} {argv : List CString.Word} (ht : TenBit io.env)
    (hargv : ∀ name value, argv ≠ [name, CString.ascii "soc", value]) (hr : Ranged p.telem) :
    Ranged (doBadgerloop io argv p).2.telem ∧
      (doBadgerloop io argv p).2.daq.soc = p.daq.soc := by
  have hchange := doBadgerloop_held io argv p
  generalize (doBadgerloop io argv p).2 = q at hchange ⊢
  have hr' : Ranged p.held.telem := hr
  suffices h : Ranged q.held.telem ∧ q.held.statics.soc = p.held.statics.soc from h
  generalize p.held = h₀ at hchange hr' ⊢
  generalize q.held = h₁ at hchange ⊢
  cases hchange with
  | same => exact ⟨hr', rfl⟩
  | telemetry v hf =>
    obtain ⟨hv, hi⟩ := vBatt_set hf h₀.telem v
    exact ⟨hr'.congr hv hi, rfl⟩
  | soc v h => exact absurd h (hargv _ _)
  | config c => exact ⟨hr', rfl⟩
  | override on => exact ⟨hr', rfl⟩
  | battery on => exact ⟨hr', rfl⟩
  | update q hq _ =>
    subst hq
    exact ⟨q.ranged_badgerloopUpdateData ht, congrArg Prod.fst (q.account_badgerloopUpdateData)⟩

theorem accounting_shellStep (hf : Fair p i) (hr : Ranged p.telem) :
    Ranged (shellStep p i).telem ∧
      if accounts p i then Charged p (shellStep p i) else (shellStep p i).daq.soc = p.daq.soc := by
  unfold accounts
  cases he : i.env? with
  | some env =>
    rw [shellStep_of_env? he]
    exact ⟨ranged_applicationHandler (hf.app env he) hr, accounted_applicationHandler.soc⟩
  | none =>
    suffices h : Ranged (shellStep p i).telem ∧ (shellStep p i).daq.soc = p.daq.soc from
      ⟨h.1, by simpa using h.2⟩
    cases i with
    | command io argv =>
      obtain ⟨ht, hargv⟩ := hf.command io argv rfl
      exact account_doBadgerloop ht hargv hr
    | loop j =>
      by_cases hb : j.Bystander
      · have hheld := held_loopStep p hb
        have htelem : (loopStep p j).telem = p.telem := telem_of_held hheld
        refine ⟨?_, congrArg Prod.fst (account_of_held hheld)⟩
        show Ranged (loopStep p j).telem
        rw [htelem]
        exact hr
      · cases j with
        | base k =>
          cases k with
          | app env => cases he
          | telemetry t =>
            obtain ⟨hv, hi⟩ := hf.telemetry t rfl
            exact ⟨hr.congr hv hi, rfl⟩
          | override on => exact ⟨hr, rfl⟩
          | link up => exact absurd trivial hb
          | state c => exact absurd trivial hb
        | output w => exact absurd trivial hb
        | message w => exact absurd trivial hb
        | frame w => exact absurd trivial hb
        | stdioTarget tar => exact absurd trivial hb

end Steps

/-! ## Runs -/

/-- The pod, the energy drawn in the run so far, and the percentage last published. -/
structure Ledger where
  pod : Pod
  drawn : Nat
  published : Option UInt32

namespace Ledger

def step (s : Ledger) (i : ShellInput) : Ledger :=
  let q := shellStep s.pod i
  if accounts s.pod i then
    { pod := q, drawn := s.drawn + energy q.telem s.pod.daq.charging,
      published := some q.telem.percentage }
  else { s with pod := q }

/-- Nothing drawn yet, nothing measured, and `soc` at `SOC_INITIAL`. -/
structure Starts (s : Ledger) : Prop where
  soc : s.pod.daq.soc = 1013760
  voltage : s.pod.telem.vBatt = 0
  current : s.pod.telem.iBatt = 0
  drawn : s.drawn = 0
  published : s.published = none

/-- The step keeps the account in range. -/
structure InRange (s s' : Ledger) : Prop where
  soc : s'.pod.daq.soc ≤ s.pod.daq.soc
  initial : s'.pod.daq.soc ≤ 1013760
  exact : Exact s'.pod.telem s'.pod.daq.soc
  percentage : ∀ x ∈ s'.published, x ≤ 100 ∧ ∀ y ∈ s.published, x ≤ y

/-- As long as the energy lasts, `soc` is what is left of it. -/
structure Balance (s : Ledger) : Prop where
  ranged : Ranged s.pod.telem
  soc : s.pod.daq.soc = 1013760 - UInt32.ofNat s.drawn
  published : ∀ x ∈ s.published, x = s.pod.daq.soc * 100 / 1013760

section Step

variable {s : Ledger} {i : ShellInput}

theorem Starts.balance (h : s.Starts) : s.Balance where
  ranged := by
    constructor
    · rw [h.voltage]
      decide
    · rw [h.current]
      decide
  soc := by
    rw [h.soc, h.drawn]
    decide
  published x hx := by
    rw [h.published] at hx
    cases hx

theorem Balance.step (h : s.Balance) (hf : Fair s.pod i) : (s.step i).Balance := by
  obtain ⟨hranged, hcases⟩ := accounting_shellStep hf h.ranged
  unfold Ledger.step
  dsimp only
  split
  · rename_i ha
    rw [if_pos ha] at hcases
    have hdraw : currDraw (shellStep s.pod i).telem s.pod.daq.charging =
        UInt32.ofNat (energy (shellStep s.pod i).telem s.pod.daq.charging) := by
      rw [← toNat_currDraw hranged, UInt32.ofNat_toNat]
    refine ⟨hranged, ?_, ?_⟩
    · rw [hcases.soc, h.soc, hdraw, UInt32.ofNat_add]
      grind
    · intro x hx
      cases hx
      exact hcases.percentage
  · rename_i ha
    rw [if_neg ha] at hcases
    refine ⟨hranged, ?_, ?_⟩
    · rw [hcases]
      exact h.soc
    · rw [hcases]
      exact h.published

theorem energy_le {t : Telemetry} (h : Ranged t) (charging : Bool) : energy t charging ≤ 1098 := by
  have hmul : t.vBatt.toInt.toNat * t.iBatt.toInt.toNat ≤ 14073 * 78081 :=
    Nat.mul_le_mul (Int.toNat_le.mpr h.voltage.2) (Int.toNat_le.mpr h.current.2)
  unfold energy
  omega

/-- The energy that a step adds to the total. -/
theorem drawn_step (h : s.Balance) (hf : Fair s.pod i) :
    s.drawn ≤ (s.step i).drawn ∧ (s.step i).drawn ≤ s.drawn + 1098 := by
  have hle := energy_le (accounting_shellStep hf h.ranged).1 s.pod.daq.charging
  unfold Ledger.step
  dsimp only
  split <;> dsimp only <;> omega

theorem Balance.toNat_soc (h : s.Balance) (hd : s.drawn ≤ 1013760) :
    s.pod.daq.soc.toNat = 1013760 - s.drawn := by
  have hinitial : (1013760 : UInt32).toNat = 1013760 := rfl
  have hmod : s.drawn % 2 ^ 32 = s.drawn := Nat.mod_eq_of_lt (by omega)
  rw [h.soc, UInt32.toNat_sub, UInt32.toNat_ofNat', hinitial, hmod]
  omega

/-- With the energy used up, `soc` has gone through zero. -/
theorem Balance.soc_wrapped (h : s.Balance) (hlo : 1013760 < s.drawn)
    (hhi : s.drawn ≤ 1013760 + 1098) : 1013760 < s.pod.daq.soc.toNat := by
  have hinitial : (1013760 : UInt32).toNat = 1013760 := rfl
  have hmod : s.drawn % 2 ^ 32 = s.drawn := Nat.mod_eq_of_lt (by omega)
  rw [h.soc, UInt32.toNat_sub, UInt32.toNat_ofNat', hinitial, hmod]
  omega

theorem Balance.published_toNat (h : s.Balance) (hd : s.drawn ≤ 1013760) :
    ∀ x ∈ s.published, x.toNat = (1013760 - s.drawn) * 100 / 1013760 := by
  intro x hx
  have hsoc : s.pod.daq.soc.toNat ≤ 1013760 := by
    rw [h.toNat_soc hd]
    omega
  have hexact := (h.ranged.exact hsoc).percentage
  have hinitial : (1013760 : UInt32).toNat = 1013760 := rfl
  rw [h.published x hx, UInt32.toNat_div, hexact, h.toNat_soc hd, hinitial]

theorem step_inRange_iff (h : s.Balance) (hf : Fair s.pod i) :
    (s.step i).drawn ≤ 1013760 ↔ InRange s (s.step i) ∧ s.drawn ≤ 1013760 := by
  obtain ⟨hmono, hbound⟩ := drawn_step h hf
  have h' := h.step hf
  constructor
  · intro hd'
    have hd : s.drawn ≤ 1013760 := by omega
    have hsoc := h.toNat_soc hd
    have hsoc' := h'.toNat_soc hd'
    have hinitial : (1013760 : UInt32).toNat = 1013760 := rfl
    refine ⟨⟨?_, ?_, h'.ranged.exact (by omega), fun x hx => ⟨?_, fun y hy => ?_⟩⟩, hd⟩
    · rw [UInt32.le_iff_toNat_le]
      omega
    · rw [UInt32.le_iff_toNat_le]
      omega
    · have hx := h'.published_toNat hd' x hx
      have h100 : (100 : UInt32).toNat = 100 := rfl
      rw [UInt32.le_iff_toNat_le]
      omega
    · have hx := h'.published_toNat hd' x hx
      have hy := h.published_toNat hd y hy
      rw [UInt32.le_iff_toNat_le, hx, hy]
      exact Nat.div_le_div_right (Nat.mul_le_mul_right 100 (by omega))
  · rintro ⟨hr, hd⟩
    by_contra hover
    have hwrapped := h'.soc_wrapped (by omega) (by omega)
    have hle := UInt32.le_iff_toNat_le.mp hr.initial
    have hinitial : (1013760 : UInt32).toNat = 1013760 := rfl
    omega

end Step

variable {s : Ledger} {is : List ShellInput}

theorem Balance.run_iff (h : s.Balance)
    (hf : Machine.Always Ledger.step (fun s i => Fair s.pod i) s is) :
    (Machine.run Ledger.step s is).drawn ≤ 1013760 ↔
      Machine.Always Ledger.step (fun s i => InRange s (s.step i)) s is ∧ s.drawn ≤ 1013760 :=
  Machine.run_iff_of_ok (P := fun s => s.drawn ≤ 1013760) (fun _ _ hb ho => Balance.step hb ho)
    (fun _ _ hb ho => step_inRange_iff hb ho) h hf

/-- Every step keeps the account in range exactly when, in all, no more has been drawn than there
was. -/
theorem inRange_iff (h : s.Starts)
    (hf : Machine.Always step (fun s i => Fair s.pod i) s is) :
    Machine.Always step (fun s i => InRange s (s.step i)) s is ↔
      (Machine.run step s is).drawn ≤ 1013760 := by
  have hdrawn : s.drawn ≤ 1013760 := by
    rw [h.drawn]
    decide
  rw [h.balance.run_iff hf]
  exact (and_iff_left hdrawn).symm

/-! ## At the end of the scale -/

def opened : Ledger := { pod := boot, drawn := 0, published := none }

theorem opened_starts : opened.Starts := ⟨rfl, rfl, rfl, rfl, rfl⟩

/-- Both channels of the battery are at the end of their scale. -/
def fullScale (t : Nat) : Env := { bench t with analogRead := fun _ => 1023 }

theorem ticks_fullScale (t : Nat) (r : TickRead) : (fullScale t).ticks r = Tick.reading t := rfl

/-- A call in each of `n` seconds, after `k` seconds. -/
def drain : Nat → Nat → List ShellInput
  | _, 0 => []
  | k, n + 1 => .loop (.base (.app (fullScale (1000 * (k + 1))))) :: drain (k + 1) n

theorem fair_fullScale (p : Pod) (t : Nat) : Fair p (.loop (.base (.app (fullScale t)))) where
  app env he := by
    cases he
    exact fun _ => UInt16.le_refl 1023
  command io argv h := by cases h
  telemetry t h := by cases h

theorem fair_drain (s : Ledger) (k n : Nat) :
    Machine.Always Ledger.step (fun s i => Fair s.pod i) s (drain k n) := by
  induction n generalizing s k with
  | zero => trivial
  | succ n ih => exact ⟨fair_fullScale _ _, ih _ _⟩

theorem batteries_fullScale (p : Pod) (t : Nat) :
    (Pod.badgerloopUpdateData (fullScale t) p).telem.vBatt = 14073 ∧
      (Pod.badgerloopUpdateData (fullScale t) p).telem.iBatt = 78081 := by
  have hsensors (q : Pod) : (Pod.podSensors (fullScale t) q).telem.vBatt = 14073 ∧
      (Pod.podSensors (fullScale t) q).telem.iBatt = 78081 := by
    have hi : (Pod.podSensors (fullScale t) q).telem.iBatt =
        CInt.ofU16 ((1023 - 120) * 3 + (1023 - 120) / 5) * 1000 / 37 := rfl
    have hv : (Pod.podSensors (fullScale t) q).telem.vBatt = CInt.ofU16 (CInt.toU16
        (CInt.ofU16 (4 * (1023 * 3 + 1023 / 5)) + 3 * CInt.ofU16 (1023 * 3 + 1023 / 5) / 10)) :=
      rfl
    exact ⟨hv.trans (by decide), hi.trans (by decide)⟩
  unfold Pod.badgerloopUpdateData Pod.badgerloopForcedData
  dsimp only
  split <;> exact hsensors _

/-- Where `n` seconds at the end of the scale lead. -/
structure Drained (n : Nat) (s : Ledger) : Prop where
  drawn : s.drawn = 1098 * n
  charging : s.pod.daq.charging = false
  manual : s.pod.daq.manualUpdate = false
  daq : s.pod.daq.lastDaqTimestamp.toNat ≤ 1000 * n
  batt : s.pod.daq.lastBattTimestamp.toNat ≤ 1000 * n

theorem opens_at {t : Nat} (ht : t < 2 ^ 32) (q : Pod) (rMod rCmp : TickRead)
    (interval last : UInt32) (hi : interval.toNat ∣ t) (hl : last.toNat < t) :
    (q.due (fullScale t) rMod rCmp interval last).1 = true := by
  have hnow : (Tick.reading t).toNat = t := by
    rw [Tick.toNat_reading]
    exact Nat.mod_eq_of_lt ht
  have hmod : Tick.reading t % interval = 0 := by
    rw [← UInt32.toNat_inj, UInt32.toNat_mod, hnow]
    exact Nat.mod_eq_zero_of_dvd hi
  have hne : Tick.reading t ≠ last := by
    intro h
    rw [← h, hnow] at hl
    omega
  rw [Pod.due_eq, ticks_fullScale, ticks_fullScale, if_pos hmod]
  exact bne_iff_ne.mpr hne

theorem stamp_fullScale (t : Nat) {a : Activity} {p : Pod}
    (h : (a.stamp p.stamps .idle).toNat < t) :
    (a.stamp (p.applicationHandler (fullScale t)).stamps .idle).toNat ≤ t := by
  rcases @Activity.stamp_app (fullScale t) p a .idle with e | e
  · rw [e]
    exact Nat.le_of_lt h
  · rw [e, ticks_fullScale, Tick.toNat_reading]
    exact Nat.mod_le _ _

theorem daq_runs_fullScale {t : Nat} (ht : t < 2 ^ 32) (hsecond : 1000 ∣ t) {p : Pod}
    (hm : p.daq.manualUpdate = false) (hd : p.daq.lastDaqTimestamp.toNat < t) :
    Activity.daq.runs (fullScale t) p = true := by
  have hdue := opens_at ht p .daqMod .daqCmp 10 p.daq.lastDaqTimestamp
    (Nat.dvd_trans (by decide) hsecond) hd
  show ((p.due (fullScale t) .daqMod .daqCmp 10 p.daq.lastDaqTimestamp).1 &&
    !p.daq.manualUpdate) = true
  rw [hdue, hm]
  rfl

theorem battery_runs_fullScale {t : Nat} (ht : t < 2 ^ 32) (hsecond : 1000 ∣ t) {p : Pod}
    (hb : p.daq.lastBattTimestamp.toNat < t) : Activity.battery.runs (fullScale t) p = true := by
  let metered := (p.daqStep (fullScale t)).telemetryStep (fullScale t)
  have hlast : metered.daq.lastBattTimestamp = p.daq.lastBattTimestamp :=
    (congrArg Stamps.lastBattTimestamp (stamps_telemetryStep (fullScale t) _)).trans
      (lastBatt_daqStep (fullScale t) p)
  have hdue := opens_at ht metered .battMod .battCmp 1000 metered.daq.lastBattTimestamp hsecond
    (by rwa [hlast])
  show ((metered.due (fullScale t) .battMod .battCmp 1000 metered.daq.lastBattTimestamp).1 &&
    true) = true
  rw [hdue]
  rfl

/-- The battery is charged 1098 J for a second at the end of the scale. -/
theorem drawn_fullScale {t : Nat} (ht : t < 2 ^ 32) (hsecond : 1000 ∣ t) {s : Ledger}
    (hc : s.pod.daq.charging = false) (hm : s.pod.daq.manualUpdate = false)
    (hd : s.pod.daq.lastDaqTimestamp.toNat < t) (hb : s.pod.daq.lastBattTimestamp.toNat < t) :
    (s.step (.loop (.base (.app (fullScale t))))).drawn = s.drawn + 1098 := by
  have hacc := @accounted_applicationHandler s.pod (fullScale t)
  have hread : (s.pod.daqStep (fullScale t)).telem.vBatt = 14073 ∧
      (s.pod.daqStep (fullScale t)).telem.iBatt = 78081 := by
    rw [daqStep_eq]
    dsimp only
    rw [if_pos (daq_runs_fullScale ht hsecond hm hd)]
    exact batteries_fullScale _ t
  have hstep : (s.step (.loop (.base (.app (fullScale t))))).drawn =
      s.drawn + energy (s.pod.applicationHandler (fullScale t)).telem s.pod.daq.charging := by
    have ha : accounts s.pod (.loop (.base (.app (fullScale t)))) = true :=
      battery_runs_fullScale ht hsecond hb
    unfold Ledger.step
    dsimp only
    rw [if_pos ha]
    rfl
  rw [hstep, energy, hacc.vBatt, hacc.iBatt, hread.1, hread.2, hc]
  exact congrArg (s.drawn + ·) (by decide)

theorem Drained.step {n t : Nat} {s : Ledger} (h : Drained n s) (hn : n < 924)
    (ht : t = 1000 * (n + 1)) : Drained (n + 1) (s.step (.loop (.base (.app (fullScale t))))) := by
  have hdaq : s.pod.daq.lastDaqTimestamp.toNat < t := by
    have := h.daq
    omega
  have hbatt : s.pod.daq.lastBattTimestamp.toNat < t := by
    have := h.batt
    omega
  have hdrawn := drawn_fullScale (by omega) ⟨n + 1, ht⟩ h.charging h.manual hdaq hbatt
  have hpod : (s.step (.loop (.base (.app (fullScale t))))).pod =
      s.pod.applicationHandler (fullScale t) := by
    unfold Ledger.step
    dsimp only
    split <;> rfl
  constructor
  · rw [hdrawn, h.drawn]
    omega
  · rw [hpod, (@accounted_applicationHandler s.pod (fullScale t)).charging]
    exact h.charging
  · rw [hpod, manualUpdate_applicationHandler]
    exact h.manual
  · rw [hpod, ← ht]
    exact stamp_fullScale t (a := .daq) hdaq
  · rw [hpod, ← ht]
    exact stamp_fullScale t (a := .battery) hbatt

theorem Drained.run {k n : Nat} {s : Ledger} (h : Drained k s) (hn : k + n ≤ 924) :
    Drained (k + n) (Machine.run Ledger.step s (drain k n)) := by
  induction n generalizing s k with
  | zero => exact h
  | succ n ih =>
    have hk : k + 1 + n = k + (n + 1) := by omega
    rw [drain, Machine.run_cons, ← hk]
    exact ih (h.step (by omega) rfl) (by omega)

theorem drained_opened {n : Nat} (hn : n ≤ 924) :
    Drained n (Machine.run Ledger.step opened (drain 0 n)) := by
  have h0 : Drained 0 opened := ⟨rfl, rfl, rfl, Nat.le_refl 0, Nat.le_refl 0⟩
  have hrun := h0.run (n := n) (by omega)
  rwa [Nat.zero_add] at hrun

/-- The account is in range for 923 seconds at the end of the scale. -/
theorem inRange_drain : opened.Starts ∧
    Machine.Always Ledger.step (fun s i => InRange s (s.step i)) opened (drain 0 923) := by
  refine ⟨opened_starts, (inRange_iff opened_starts (fair_drain opened 0 923)).mpr ?_⟩
  rw [(drained_opened (by omega)).drawn]
  omega

/-- In the next second `soc` passes zero. -/
theorem drain_wraps :
    opened.Starts ∧ Machine.Always Ledger.step (fun s i => Fair s.pod i) opened (drain 0 924) ∧
      (Machine.run Ledger.step opened (drain 0 924)).pod.daq.soc = 4294966504 ∧
      ¬ ∀ s is, Starts s → Machine.Always Ledger.step (fun s i => Fair s.pod i) s is →
        Machine.Always Ledger.step (fun s i => InRange s (s.step i)) s is := by
  have hfair := fair_drain opened 0 924
  have hdrawn := (drained_opened (Nat.le_refl 924)).drawn
  have hbalance : (Machine.run Ledger.step opened (drain 0 924)).Balance :=
    Machine.run_inv (fun _ _ hb ho => Balance.step hb ho) opened_starts.balance hfair
  refine ⟨opened_starts, hfair, ?_, fun h => ?_⟩
  · rw [hbalance.soc, hdrawn]
    decide
  · have hle := (opened_starts.balance.run_iff hfair).mpr
      ⟨h opened (drain 0 924) opened_starts hfair, Nat.zero_le _⟩
    rw [hdrawn] at hle
    omega

end Ledger

end PodFirmware
