import Mathlib.Data.List.FinRange
import Mathlib.Data.List.Nodup
import PodFirmware.Lib.Machine
import PodFirmware.Pod

/-!
# PodFirmware.Exti

The strip interrupts, statement by statement. An edge latches the bit of its line in `EXTI->PR`; the
handler of the line updates `interLine` and acknowledges. `EXTI->PR` is cleared by writing ones, so
`EXTI->PR |= EXTI_PR_PRx` writes back, and clears, every bit that was pending when it was read.

All EXTI interrupts have one priority, so a handler that has begun runs to its end; edges and
`SysTick` come in between any two of its statements.

* `Stage`: the statements of the block that every handler has for each of its lines.
* `lineLaw`: a bit is latched, counted once, and cleared, in this order.
* `eachCounted_iff`: the law holds exactly as long as no acknowledge writes back a foreign bit.
-/

namespace PodFirmware

/-! ## Time stamps -/

namespace TimeStamp

def savePrev (ts : TimeStamp) : TimeStamp := { ts with prev := ts.curr }

def stampCurr (ticks : UInt32) (ts : TimeStamp) : TimeStamp := { ts with curr := ticks }

def fillSlot (ts : TimeStamp) : TimeStamp :=
  { ts with filter := ts.filter.setIfInBounds (ts.count % 3).toNat (ts.curr - ts.prev) }

def countUp (ts : TimeStamp) : TimeStamp := { ts with count := ts.count + 1 }

/-- What one interrupt does to the record of its line. -/
def strip (ts : TimeStamp) (ticks : UInt32) : TimeStamp :=
  (ts.savePrev.stampCurr ticks).fillSlot.countUp

end TimeStamp

namespace Exti

/-! ## Handlers -/

abbrev Line := Fin 16

/-- The lines for which a handler has a block, in its order. -/
def exti0IrqHandler : List Line := [0]
def exti1IrqHandler : List Line := [1]
def exti2IrqHandler : List Line := [2]
def exti3IrqHandler : List Line := [3]
def exti4IrqHandler : List Line := [4]
def exti95IrqHandler : List Line := [5, 6, 7, 8, 9]
def exti1510IrqHandler : List Line := [10, 11, 12, 13, 14, 15]

inductive Irq where
  | exti0 | exti1 | exti2 | exti3 | exti4 | exti95 | exti1510
  deriving DecidableEq, Repr

def handler : Irq → List Line
  | .exti0 => exti0IrqHandler
  | .exti1 => exti1IrqHandler
  | .exti2 => exti2IrqHandler
  | .exti3 => exti3IrqHandler
  | .exti4 => exti4IrqHandler
  | .exti95 => exti95IrqHandler
  | .exti1510 => exti1510IrqHandler

/-- The statements of a block. The acknowledge is two: it reads `EXTI->PR` and then writes it. -/
inductive Stage where
  | test | savePrev | stampCurr | fillSlot | countUp | readPr
  | writePr (v : BitVec 32)
  deriving DecidableEq, Repr

inductive LineEvent where
  | latch (l : Line)
  | count (l : Line) (ticks : UInt32)
  | clear (l : Line)
  deriving DecidableEq, Repr

end Exti

/-- The interrupt controller, the records of the lines, and the handler that runs: the lines whose
blocks are still to come, the first of them at `stage`. -/
structure Exti where
  pr : BitVec 32
  interLine : Exti.Line → TimeStamp
  ticks : UInt32
  todo : List Exti.Line := []
  stage : Exti.Stage := .test
  log : List Exti.LineEvent := []

namespace Exti

/-- `EXTI_PR_PRx`. -/
def prBit (l : Line) : BitVec 32 := BitVec.twoPow 32 l

def pending (s : Exti) (l : Line) : Bool := s.pr.getLsbD l

def updateLine (s : Exti) (l : Line) (f : TimeStamp → TimeStamp) (stage : Stage) : Exti :=
  { s with interLine := Function.update s.interLine l (f (s.interLine l)), stage := stage }

/-- The lines whose bits are cleared when `v` is written to `EXTI->PR`. -/
def cleared (s : Exti) (v : BitVec 32) : List Line :=
  (List.finRange 16).filter fun l => s.pending l && v.getLsbD l

def writePr (s : Exti) (v : BitVec 32) : Exti :=
  { s with pr := s.pr &&& ~~~v, log := (s.cleared v).map .clear ++ s.log }

/-- The next statement of the block for the line `l`; the blocks of `rest` come after it. -/
def block (s : Exti) (l : Line) (rest : List Line) : Exti :=
  match s.stage with
  | .test =>
    if s.pending l then { s with stage := .savePrev } else { s with todo := rest, stage := .test }
  | .savePrev => s.updateLine l .savePrev .stampCurr
  | .stampCurr => s.updateLine l (.stampCurr s.ticks) .fillSlot
  | .fillSlot => s.updateLine l .fillSlot .countUp
  | .countUp =>
    { s.updateLine l .countUp .readPr with log := .count l (s.interLine l).curr :: s.log }
  | .readPr => { s with stage := .writePr s.pr }
  | .writePr v => { s.writePr (v ||| prBit l) with todo := rest, stage := .test }

/-- The next statement of the handler that runs. -/
def exec (s : Exti) : Exti :=
  match s.todo with
  | [] => s
  | l :: rest => s.block l rest

inductive Input where
  | edge (l : Line)
  | sysTick
  | enter (irq : Irq)
  | exec
  deriving DecidableEq, Repr

def step (s : Exti) : Input → Exti
  | .edge l =>
    if s.pending l then s else { s with pr := s.pr ||| prBit l, log := .latch l :: s.log }
  | .sysTick => { s with ticks := s.ticks + 1 }
  | .enter irq => if s.todo = [] then { s with todo := handler irq, stage := .test } else s
  | .exec => s.exec

/-- Nothing is pending, as `exti_config` leaves it. -/
def atRest (interLine : Line → TimeStamp) (ticks : UInt32) : Exti :=
  { pr := 0, interLine := interLine, ticks := ticks }

/-! ## The law -/

/-- How far the latest edge of a line that was latched has come. -/
inductive Progress where
  | latched | counted | cleared
  deriving DecidableEq, Repr

def progress? (l : Line) : LineEvent → Option Progress
  | .latch l' => if l' = l then some .latched else none
  | .count l' _ => if l' = l then some .counted else none
  | .clear l' => if l' = l then some .cleared else none

def progress (l : Line) (log : List LineEvent) : Progress :=
  (Trace.latest (progress? l) log).getD .cleared

/-- A bit is latched, counted once, and cleared, in this order. -/
def lineLaw (older : List LineEvent) : LineEvent → Prop
  | .latch l => progress l older = .cleared
  | .count l _ => progress l older = .latched
  | .clear l => progress l older = .counted

instance (older : List LineEvent) : ∀ e, Decidable (lineLaw older e)
  | .latch l => inferInstanceAs (Decidable (progress l older = .cleared))
  | .count l _ => inferInstanceAs (Decidable (progress l older = .latched))
  | .clear l => inferInstanceAs (Decidable (progress l older = .counted))

/-- The ticks at which the line was counted, oldest first. -/
def stamps (l : Line) : List LineEvent → List UInt32
  | [] => []
  | .count l' t :: older => if l' = l then stamps l older ++ [t] else stamps l older
  | _ :: older => stamps l older

/-- The acknowledge of a block writes back no bit but its own. -/
def AcksAlone (s : Exti) : Input → Prop
  | .exec => ∀ l rest v, s.todo = l :: rest → s.stage = .writePr v →
    ∀ other : Line, v.getLsbD other = true → other = l
  | _ => True

/-! ## Bits -/

theorem getLsbD_prBit (l l' : Line) : (prBit l).getLsbD l' = decide (l = l') := by
  have h := l.isLt
  rw [prBit, BitVec.getLsbD_twoPow]
  simp [Fin.ext_iff, show (l : Nat) < 32 by omega]

theorem pending_setBit (s : Exti) (l l' : Line) (log : List LineEvent) :
    ({ s with pr := s.pr ||| prBit l, log := log } : Exti).pending l' =
      (s.pending l' || decide (l = l')) := by
  rw [pending, pending, BitVec.getLsbD_or, getLsbD_prBit]

theorem pending_writePr (s : Exti) (v : BitVec 32) (l : Line) :
    (s.writePr v).pending l = (s.pending l && !v.getLsbD l) := by
  have h := l.isLt
  rw [pending, pending, writePr, BitVec.getLsbD_and, BitVec.getLsbD_not]
  simp [show (l : Nat) < 32 by omega]

theorem mem_cleared {s : Exti} {v : BitVec 32} {l : Line} :
    l ∈ s.cleared v ↔ s.pending l = true ∧ v.getLsbD l = true := by
  simp [cleared]

/-! ## Traces -/

theorem progress_cons (l : Line) (e : LineEvent) (log : List LineEvent) :
    progress l (e :: log) = (progress? l e).getD (progress l log) := by
  rw [progress, Trace.latest_cons, progress]
  cases progress? l e <;> rfl

theorem progress_clears (l : Line) (ls : List Line) (log : List LineEvent) :
    progress l (ls.map .clear ++ log) = if l ∈ ls then .cleared else progress l log := by
  induction ls with
  | nil => rfl
  | cons l' ls ih =>
    rw [List.map_cons, List.cons_append, progress_cons, ih]
    by_cases h : l' = l
    · simp [progress?, h]
    · simp [progress?, h, Ne.symm h]

theorem stamps_clears (l : Line) (ls : List Line) (log : List LineEvent) :
    stamps l (ls.map .clear ++ log) = stamps l log := by
  induction ls with
  | nil => rfl
  | cons l' ls ih => exact ih

theorem lawful_clears {ls : List Line} (hls : ls.Nodup) (log : List LineEvent) :
    Trace.Lawful lineLaw (ls.map .clear ++ log) ↔
      (∀ l ∈ ls, progress l log = .counted) ∧ Trace.Lawful lineLaw log := by
  induction ls with
  | nil => simp
  | cons l ls ih =>
    obtain ⟨hl, hls⟩ := List.nodup_cons.mp hls
    have hlaw : lineLaw (ls.map .clear ++ log) (.clear l) ↔ progress l log = .counted := by
      rw [lineLaw, progress_clears, if_neg hl]
    rw [List.map_cons, List.cons_append, Trace.Lawful, ih hls, hlaw, List.forall_mem_cons,
      and_assoc]

/-! ## The invariant -/

/-- The block has counted the edge and has not yet acknowledged it. -/
def Stage.acks : Stage → Bool
  | .readPr => true
  | .writePr _ => true
  | _ => false

/-- What the block has done to the record so far. -/
def Stage.partly (ticks : UInt32) (ts : TimeStamp) : Stage → TimeStamp
  | .stampCurr => ts.savePrev
  | .fillSlot => ts.savePrev.stampCurr ticks
  | .countUp => (ts.savePrev.stampCurr ticks).fillSlot
  | _ => ts

def stands (s : Exti) (l : Line) : Progress :=
  if s.pending l then
    if s.todo.head? = some l ∧ s.stage.acks = true then .counted else .latched
  else .cleared

/-- The record that the counted edges have left. -/
def recorded (init : Line → TimeStamp) (log : List LineEvent) (l : Line) : TimeStamp :=
  (stamps l log).foldl .strip (init l)

structure Inv (init : Line → TimeStamp) (s : Exti) : Prop where
  running : ∀ l rest, s.todo = l :: rest → s.stage ≠ .test → s.pending l = true
  idle : s.todo = [] → s.stage = .test
  readBack : ∀ v, s.stage = .writePr v → ∀ l : Line, v.getLsbD l = true → s.pending l = true
  progress : ∀ l, progress l s.log = s.stands l
  record : ∀ l, s.interLine l =
    if s.todo.head? = some l then
      s.stage.partly (s.interLine l).curr (recorded init s.log l)
    else recorded init s.log l

variable {init : Line → TimeStamp} {s : Exti}

theorem inv_atRest (init : Line → TimeStamp) (ticks : UInt32) : Inv init (atRest init ticks) where
  running := by simp [atRest]
  idle := fun _ => rfl
  readBack := by simp [atRest]
  progress := fun l => by simp [atRest, Exti.progress, stands, pending]
  record := fun l => rfl

theorem Inv.edge (h : Inv init s) (l : Line) : Inv init (step s (.edge l)) := by
  rw [step]
  cases hp : s.pending l with
  | true => exact h
  | false =>
    have hset (l' : Line) := pending_setBit s l l' (.latch l :: s.log)
    refine ⟨?_, h.idle, ?_, ?_, h.record⟩
    · intro l' rest ht hs
      rw [if_neg Bool.false_ne_true] at ht hs ⊢
      rw [hset, h.running l' rest ht hs, Bool.true_or]
    · intro v hv l' hl'
      rw [if_neg Bool.false_ne_true] at hv ⊢
      rw [hset, h.readBack v hv l' hl', Bool.true_or]
    · intro l'
      rw [if_neg Bool.false_ne_true, progress_cons, h.progress l']
      unfold stands
      rw [hset]
      by_cases he : l = l'
      · subst he
        have hidle : ¬ (s.todo.head? = some l ∧ s.stage.acks = true) := by
          rintro ⟨hhead, hacks⟩
          obtain ⟨rest, ht⟩ := List.head?_eq_some_iff.mp hhead
          have := h.running l rest ht (by rintro hst; simp [hst, Stage.acks] at hacks)
          rw [hp] at this
          cases this
        simp [progress?, hidle]
      · simp [progress?, he]

theorem Inv.enter (h : Inv init s) (irq : Irq) : Inv init (step s (.enter irq)) := by
  rw [step]
  split
  · rename_i ht
    have hst := h.idle ht
    refine ⟨fun _ _ _ hs => absurd rfl hs, fun _ => rfl, ?_, ?_, ?_⟩
    · intro _ hv
      cases hv
    · intro l
      rw [h.progress l]
      simp [stands, pending, ht, Stage.acks]
    · intro l
      have hr := h.record l
      simp only [ht, List.head?_nil, reduceCtorEq, if_false] at hr
      simp only [Stage.partly, ite_self]
      exact hr
  · exact h

section Block

variable {l : Line} {rest : List Line}

/-- A statement that works on the record of its line and logs nothing. -/
theorem Inv.updateLine (h : Inv init s) (ht : s.todo = l :: rest) {f : TimeStamp → TimeStamp}
    {next : Stage} (hs : s.stage ≠ .test) (hw : ∀ v, next ≠ .writePr v)
    (hacks : next.acks = s.stage.acks)
    (hf : f (s.interLine l) = next.partly (f (s.interLine l)).curr (recorded init s.log l)) :
    Inv init (s.updateLine l f next) where
  running := fun l' rest' ht' _ => h.running l' rest' ht' hs
  idle := fun h0 => by simp [Exti.updateLine, ht] at h0
  readBack := fun v hv => absurd hv (hw v)
  progress := fun l' => by
    show Exti.progress l' s.log = _
    rw [h.progress l']
    simp only [stands, Exti.updateLine, pending, hacks]
    rfl
  record := fun l' => by
    have hr := h.record l'
    simp only [Exti.updateLine, ht, List.head?_cons] at hr ⊢
    by_cases he : l = l'
    · subst he
      simpa using hf
    · have hne : ¬ some l = some l' := by simpa using he
      rw [Function.update_of_ne (Ne.symm he), if_neg hne]
      rwa [if_neg hne] at hr

theorem Inv.record_head (h : Inv init s) (ht : s.todo = l :: rest) :
    s.interLine l = s.stage.partly (s.interLine l).curr (recorded init s.log l) := by
  have hr := h.record l
  rwa [ht, List.head?_cons, if_pos rfl] at hr

theorem Inv.test (h : Inv init s) (ht : s.todo = l :: rest) (hs : s.stage = .test) :
    Inv init (if s.pending l then { s with stage := .savePrev }
      else { s with todo := rest, stage := .test }) := by
  cases hp : s.pending l with
  | true =>
    refine ⟨?_, ?_, ?_, ?_, ?_⟩
    · intro l' rest' ht' _
      rw [if_pos rfl] at ht' ⊢
      obtain ⟨rfl, -⟩ := List.cons.inj (ht.symm.trans ht')
      exact hp
    · intro h0
      simp [ht] at h0
    · intro v hv
      simp at hv
    · intro l'
      rw [if_pos rfl, h.progress l']
      simp [stands, pending, hs, Stage.acks]
    · intro l'
      have hr := h.record l'
      rw [hs] at hr
      exact hr
  | false =>
    refine ⟨fun l' rest' ht' hs' => absurd rfl hs', fun _ => rfl, ?_, ?_, ?_⟩
    · intro v hv
      cases hv
    · intro l'
      rw [if_neg Bool.false_ne_true, h.progress l']
      simp [stands, pending, hs, Stage.acks]
    · intro l'
      have hr := h.record l'
      simp only [hs, Stage.partly, ite_self] at hr
      simp only [Bool.false_eq_true, if_false, Stage.partly, ite_self]
      exact hr

theorem Inv.countUp (h : Inv init s) (ht : s.todo = l :: rest) (hs : s.stage = .countUp) :
    Inv init { s.updateLine l .countUp .readPr with
      log := .count l (s.interLine l).curr :: s.log } := by
  have hhead := h.record_head ht
  rw [hs] at hhead
  refine ⟨fun l' rest' ht' _ => h.running l' rest' ht' (by simp [hs]), ?_, ?_, ?_, ?_⟩
  · intro h0
    simp [Exti.updateLine, ht] at h0
  · intro v hv
    cases hv
  · intro l'
    have hp := h.running l rest ht (by simp [hs])
    have hst : s.stands l' = if s.pending l' then .latched else .cleared := by
      simp [stands, hs, Stage.acks]
    rw [progress_cons, h.progress l', hst]
    by_cases he : l = l'
    · subst he
      simp only [stands, Exti.updateLine, pending] at hp ⊢
      simp [progress?, hp, ht, Stage.acks]
    · simp [stands, Exti.updateLine, pending, progress?, ht, he]
      rfl
  · intro l'
    have hr := h.record l'
    simp only [Exti.updateLine, ht, List.head?_cons, Stage.partly, ite_self] at hr ⊢
    by_cases he : l = l'
    · subst he
      simp only [Function.update_self, recorded, stamps, if_true, List.foldl_append,
        List.foldl_cons, List.foldl_nil]
      show (s.interLine l).countUp = TimeStamp.strip (recorded init s.log l) (s.interLine l).curr
      conv_lhs => rw [hhead]
      rfl
    · have hne : ¬ some l = some l' := by simpa using he
      rw [if_neg hne] at hr
      rw [Function.update_of_ne (Ne.symm he), hr]
      simp [recorded, stamps, he]

theorem Inv.readPr (h : Inv init s) (ht : s.todo = l :: rest) (hs : s.stage = .readPr) :
    Inv init { s with stage := .writePr s.pr } := by
  refine ⟨fun l' rest' ht' _ => h.running l' rest' ht' (by simp [hs]), ?_, ?_, ?_, ?_⟩
  · intro h0
    simp [ht] at h0
  · intro v hv l' hl'
    cases hv
    exact hl'
  · intro l'
    show Exti.progress l' s.log = _
    rw [h.progress l']
    simp [stands, pending, hs, Stage.acks]
  · intro l'
    have hr := h.record l'
    rw [hs] at hr
    exact hr

theorem Inv.writePr (h : Inv init s) (ht : s.todo = l :: rest) {v : BitVec 32}
    (hs : s.stage = .writePr v) :
    Inv init { s.writePr (v ||| prBit l) with todo := rest, stage := .test } := by
  refine ⟨fun l' rest' ht' hs' => absurd rfl hs', fun _ => rfl, ?_, ?_, ?_⟩
  · intro v hv
    cases hv
  · intro l'
    have hlog : Exti.progress l' (s.writePr (v ||| prBit l)).log =
        if s.pending l' = true ∧ (v ||| prBit l).getLsbD l' = true then .cleared
        else s.stands l' := by
      simp only [Exti.writePr, progress_clears, mem_cleared, h.progress l']
    have hpend : stands { s.writePr (v ||| prBit l) with todo := rest, stage := .test } l' =
        if (s.writePr (v ||| prBit l)).pending l' then .latched else .cleared := by
      simp [stands, pending, Stage.acks]
      rfl
    show Exti.progress l' (s.writePr (v ||| prBit l)).log = _
    rw [hpend, hlog, pending_writePr]
    have hown : (v ||| prBit l).getLsbD l' = (v.getLsbD l' || decide (l = l')) := by
      rw [BitVec.getLsbD_or, getLsbD_prBit]
    cases hp : s.pending l' with
    | false => simp [stands, hp]
    | true =>
      rw [hown]
      by_cases he : l = l'
      · simp [he]
      · cases hv : v.getLsbD l' <;> simp [stands, hp, ht, he]
  · intro l'
    have hr := h.record l'
    simp only [hs, Stage.partly, ite_self] at hr
    simp only [Stage.partly, ite_self]
    show s.interLine l' = recorded init ((s.cleared (v ||| prBit l)).map .clear ++ s.log) l'
    rw [recorded, stamps_clears]
    exact hr

end Block

theorem Inv.exec (h : Inv init s) : Inv init s.exec := by
  unfold Exti.exec
  cases ht : s.todo with
  | nil => exact h
  | cons l rest =>
    have hhead := h.record_head ht
    dsimp only [block]
    cases hs : s.stage with
    | test => exact h.test ht hs
    | savePrev =>
      rw [hs] at hhead
      exact h.updateLine ht (by simp [hs]) (by simp) (by simp [hs, Stage.acks])
        (congrArg TimeStamp.savePrev hhead)
    | stampCurr =>
      rw [hs] at hhead
      exact h.updateLine ht (by simp [hs]) (by simp) (by simp [hs, Stage.acks])
        (congrArg (TimeStamp.stampCurr s.ticks) hhead)
    | fillSlot =>
      rw [hs] at hhead
      exact h.updateLine ht (by simp [hs]) (by simp) (by simp [hs, Stage.acks])
        (congrArg TimeStamp.fillSlot hhead)
    | countUp => exact h.countUp ht hs
    | readPr => exact h.readPr ht hs
    | writePr v => exact h.writePr ht hs

theorem Inv.step (h : Inv init s) (i : Input) : Inv init (step s i) := by
  cases i with
  | edge l => exact h.edge l
  | sysTick => exact ⟨h.running, h.idle, h.readBack, h.progress, h.record⟩
  | enter irq => exact h.enter irq
  | exec => exact h.exec

/-! ## Runs -/

theorem lawful_countUp (h : Inv init s) {l : Line} {rest : List Line} (ht : s.todo = l :: rest)
    (hs : s.stage = .countUp) (t : UInt32) :
    Trace.Lawful lineLaw (.count l t :: s.log) ↔ Trace.Lawful lineLaw s.log := by
  have hp := h.running l rest ht (by simp [hs])
  have hlaw : lineLaw s.log (.count l t) := by
    rw [lineLaw, h.progress l]
    simp [stands, hp, hs, Stage.acks]
  exact and_iff_right hlaw

theorem lawful_writePr (h : Inv init s) {l : Line} {rest : List Line} (ht : s.todo = l :: rest)
    {v : BitVec 32} (hs : s.stage = .writePr v) :
    Trace.Lawful lineLaw (s.writePr (v ||| prBit l)).log ↔
      (∀ other : Line, v.getLsbD other = true → other = l) ∧ Trace.Lawful lineLaw s.log := by
  have hnodup : (s.cleared (v ||| prBit l)).Nodup := (List.nodup_finRange 16).filter _
  rw [Exti.writePr, lawful_clears hnodup]
  refine and_congr_left fun _ => ?_
  constructor
  · intro hall other hv
    have hp := h.readBack v hs other hv
    have hmem : other ∈ s.cleared (v ||| prBit l) := by
      rw [mem_cleared, BitVec.getLsbD_or, hv, Bool.true_or]
      exact ⟨hp, rfl⟩
    have hc := hall other hmem
    rw [h.progress other] at hc
    by_contra hne
    simp [stands, hp, ht, Ne.symm hne] at hc
  · intro halone other hmem
    obtain ⟨hp, hv⟩ := mem_cleared.mp hmem
    obtain rfl : other = l := by
      rw [BitVec.getLsbD_or, getLsbD_prBit, Bool.or_eq_true, decide_eq_true_eq] at hv
      rcases hv with hv | hv
      · exact halone other hv
      · exact hv.symm
    rw [h.progress other]
    simp [stands, hp, ht, hs, Stage.acks]

theorem lawful_block (h : Inv init s) {l : Line} {rest : List Line} (ht : s.todo = l :: rest) :
    Trace.Lawful lineLaw (s.block l rest).log ↔
      (∀ v, s.stage = .writePr v → ∀ other : Line, v.getLsbD other = true → other = l) ∧
        Trace.Lawful lineLaw s.log := by
  unfold block
  cases hs : s.stage with
  | test =>
    dsimp only
    split <;> simp
  | savePrev => simp [updateLine]
  | stampCurr => simp [updateLine]
  | fillSlot => simp [updateLine]
  | countUp => simpa using lawful_countUp h ht hs _
  | readPr => simp
  | writePr v => simpa using lawful_writePr h ht hs

theorem lawful_step (h : Inv init s) (i : Input) :
    Trace.Lawful lineLaw (step s i).log ↔ AcksAlone s i ∧ Trace.Lawful lineLaw s.log := by
  cases i with
  | edge l =>
    rw [step]
    cases hp : s.pending l with
    | true => simp [AcksAlone]
    | false =>
      have hlaw : lineLaw s.log (.latch l) := by
        rw [lineLaw, h.progress l]
        simp [stands, hp]
      simp [AcksAlone, Trace.Lawful, hlaw]
  | sysTick => simp [AcksAlone, step]
  | enter irq =>
    rw [step]
    split <;> simp [AcksAlone]
  | exec =>
    rw [step, Exti.exec, AcksAlone]
    cases ht : s.todo with
    | nil => simp
    | cons l rest =>
      rw [lawful_block h ht]
      refine and_congr_left fun _ => ?_
      constructor
      · rintro hall l' rest' v he hs
        obtain ⟨rfl, -⟩ := List.cons.inj he
        exact hall v hs
      · exact fun hall v => hall l rest v rfl

/-- Every latched edge is counted before its bit is cleared, and the records say what was
counted. -/
def EachCounted (init : Line → TimeStamp) (s : Exti) : Prop :=
  Trace.Lawful lineLaw s.log ∧
    ∀ l, s.todo.head? ≠ some l → s.interLine l = recorded init s.log l

/-- In every run, each latched bit is counted exactly once before it is cleared if and only if every
acknowledge finds no other line pending. -/
theorem eachCounted_iff (init : Line → TimeStamp) (ticks : UInt32) (is : List Input) :
    EachCounted init (Machine.run step (atRest init ticks) is) ↔
      Machine.Always step AcksAlone (atRest init ticks) is := by
  have h0 := inv_atRest init ticks
  have hstep : ∀ s i, Inv init s → Inv init (step s i) := fun _ i h => h.step i
  have hinv : Inv init (Machine.run step (atRest init ticks) is) :=
    Machine.run_inv_of_step hstep h0
  have hlaw : Trace.Lawful lineLaw (Machine.run step (atRest init ticks) is).log ↔
      Machine.Always step AcksAlone (atRest init ticks) is ∧
        Trace.Lawful lineLaw (atRest init ticks).log :=
    Machine.run_iff (P := fun s : Exti => Trace.Lawful lineLaw s.log) hstep
      (fun _ i h => lawful_step h i) h0
  have hrecord : ∀ l, (Machine.run step (atRest init ticks) is).todo.head? ≠ some l →
      (Machine.run step (atRest init ticks) is).interLine l =
        recorded init (Machine.run step (atRest init ticks) is).log l := by
    intro l hl
    rw [hinv.record l, if_neg hl]
  rw [EachCounted, and_iff_left hrecord, hlaw]
  exact and_iff_left trivial

/-- The middle and the front strip sensor come within the same handler. -/
def middleAndFront : List Input :=
  [.edge 9, .edge 11, .enter .exti95] ++ List.replicate 11 .exec

/-- The acknowledge of line 9 clears line 11, which is never counted. -/
theorem strip_lost :
    ¬ EachCounted (fun _ => {}) (Machine.run step (atRest (fun _ => {}) 0) middleAndFront) ∧
      (Machine.run step (atRest (fun _ => {}) 0) middleAndFront).pending 11 = false ∧
      (Machine.run step (atRest (fun _ => {}) 0) middleAndFront).interLine 11 = {} := by
  refine ⟨fun h => absurd h.1 (by decide +kernel), by decide +kernel, by decide +kernel⟩

end Exti

end PodFirmware
