import PodFirmware.Lib.Machine
import PodFirmware.PcBuffer
import PodFirmware.Pod

/-!
# PodFirmware.Console

The serial console, statement by statement: `USART3_IRQHandler`, which fills `usart3_rx` and sends
`usart3_tx`, and the code of the main loop that works on the same rings, `_write`, `_read`,
`check_input` and `pc_buffer_getMessage`. The interrupt handler runs between any two statements of
the main loop; its two halves, a received character and a character ready to be sent, are separate
inputs.

* `Stmt`: the statements of the main loop that are left to do. Executing one may put others before
  the rest.
* `rxIrq`, `txIrq`: the halves of the interrupt handler.
* `exec`: the next statement of the main loop.
-/

namespace PodFirmware

/-- `NEWLINE_GUARD`. -/
def newlineGuard (prev curr : UInt8) : Bool :=
  (curr == 10 && prev != 13) || (curr == 13 && prev != 10)

/-- The part of `buffer` in front of the first NUL: at most `BUFSIZ` characters. -/
def cString (buffer : Nat → UInt8) : List UInt8 :=
  ((List.range 1024).map buffer).takeWhile (· != 0)

/-- How `process_input` splits its argument: from index `i` on, blanks become NULs until there are
`MAX_ARGS` arguments. -/
def tokenize (buffer : Nat → UInt8) (i argsIndex : Nat) : Nat → (Nat → UInt8)
  | 0 => buffer
  | left + 1 =>
    if buffer i = 32 then
      let buffer := Function.update buffer i 0
      if argsIndex + 1 ≥ 10 then buffer else tokenize buffer (i + 1) (argsIndex + 1) left
    else tokenize buffer (i + 1) argsIndex left

namespace Console

/-- The statements of the main loop, with the values of their local variables. -/
inductive Stmt where
  | write (bytes : List UInt8)
  | guardTx
  | awaitTx
  | addTx (c : UInt8)
  | enableTxe
  | drainTx
  | awaitRx
  | removeRx
  | checkInput
  | erase
  | clearDown
  | testUp
  | testMessage
  | recall
  | recallLoop (i : Nat)
  | recallAdd (i : Nat)
  | clearSwap
  | clearUp
  | print
  | getMessage
  | getLoop (index : Nat) (curr : UInt8)
  | getRemove (index : Nat) (prev : UInt8)
  | getStore (index : Nat) (prev curr : UInt8)
  | getGuard (index : Nat) (prev curr : UInt8)
  | process
  deriving DecidableEq, Repr

/-- What the C library and the commands do when output is printed: the chunks that are written, and
whether a message to the dashboard is sent. -/
structure Io where
  out : List (List UInt8)
  sent : Bool

inductive Call where
  | checkInput
  | write (bytes : List UInt8)
  | read (count : Nat)

inductive Input where
  | rx (c : UInt8)
  | txe
  | call (c : Call)
  | main (io : Io)
  | target (tar : StdioTarget)

end Console

structure Console where
  tx : PcBuffer
  rx : PcBuffer
  txeie : Bool := false
  tdr : UInt8 := 0
  prev2 : UInt8 := 0
  prev : UInt8 := 0
  curr : UInt8 := 0
  upArrowFlag : Bool := false
  downArrowFlag : Bool := false
  swapReady : Bool := false
  buffer : Nat → UInt8 := fun _ => 0
  tar : StdioTarget := .usbSerial
  todo : List Console.Stmt := []
  /-- The strings given to `process_input`, oldest first. -/
  commands : List (List UInt8) := []

namespace Console

/-! ## The interrupt handler -/

def echo (s : Console) (c : UInt8) : Console :=
  if s.tx.isFull then s else { s with tx := s.tx.add c }

def backspaceIrq (s : Console) (c : UInt8) : Console :=
  if s.rx.isEmpty then s
  else
    let s := ({ s with rx := s.rx.unproduce }.echo c).echo 32
    if s.tx.isFull then s else { s with tx := s.tx.add c, txeie := true }

def acceptIrq (s : Console) (prev c : UInt8) : Console :=
  let rx := if newlineGuard prev c then
    { s.rx with messageAvailable := s.rx.messageAvailable + 1 } else s.rx
  let s := { s with rx := if rx.isFull then rx else rx.add c }
  if s.tx.isFull then s
  else
    let tx := s.tx.add c
    { s with tx := if c = 13 then tx.add 10 else tx, txeie := true }

/-- The first half of `USART3_IRQHandler`: the character `c` has been received. -/
def rxIrq (s : Console) (c : UInt8) : Console :=
  let prev2 := s.prev
  let prev := s.curr
  let s := { s with prev2 := prev2, prev := prev, curr := c }
  if c = 0x08 ∨ c = 0x7F then s.backspaceIrq c
  else if prev2 = 0x1B ∧ prev = 0x5B ∧ c = 65 then { s with upArrowFlag := true }
  else if prev2 = 0x1B ∧ prev = 0x5B ∧ c = 66 then { s with downArrowFlag := true }
  else if (prev ≠ 0x5B ∧ prev2 ≠ 0x1B) ∧ c ≠ 0x1B ∧ c ≠ 0x5B then s.acceptIrq prev c
  else s

/-- The second half: the transmitter is ready. -/
def txIrq (s : Console) : Console :=
  if s.tx.isEmpty then { s with txeie := false }
  else { s with tdr := s.tx.remove.1, tx := s.tx.remove.2 }

/-! ## The main loop -/

/-- `stmts` are to be done before what is left. -/
def first (s : Console) (stmts : List Stmt) : Console := { s with todo := stmts ++ s.todo }

/-- The loop of `_write`, and what follows it. -/
def writeLoop (bytes : List UInt8) : List Stmt :=
  bytes.flatMap (fun c => [.guardTx, .addTx c]) ++ [.enableTxe, .drainTx]

def readLoop (count : Nat) : List Stmt := (List.replicate count [.awaitRx, .removeRx]).flatten

/-- How a backspace is printed. -/
def backspace : List UInt8 := [0x08, 32, 0x08]

def Stmt.run (io : Io) (s : Console) : Stmt → Console
  | .write bytes =>
    match s.tar with
    | .udp => if io.sent then s else { s with tar := .usbSerial }
    | .usbSerial => s.first (writeLoop bytes)
  | .guardTx => if s.tx.isFull then { s with txeie := true }.first [.awaitTx] else s
  | .awaitTx => if s.tx.isFull then s.first [.awaitTx] else s
  | .addTx c => { s with tx := s.tx.add c }
  | .enableTxe => { s with txeie := true }
  | .drainTx => if s.tx.isEmpty then s else s.first [.drainTx]
  | .awaitRx => if s.rx.isEmpty then s.first [.awaitRx] else s
  | .removeRx => { s with rx := s.rx.remove.2 }
  | .checkInput =>
    if s.upArrowFlag || s.downArrowFlag then s.first [.erase, .clearDown, .testUp]
    else s.first [.testUp]
  | .erase => if s.rx.isEmpty then s else s.first [.removeRx, .write backspace, .erase]
  | .clearDown => { s with downArrowFlag := false }
  | .testUp => if s.upArrowFlag then s.first [.recall] else s.first [.testMessage]
  | .testMessage =>
    if 0 < s.rx.messageAvailable then s.first [.getMessage, .process, .print] else s
  | .recall =>
    if s.swapReady then s.first [.recallLoop 0, .print, .clearSwap, .clearUp]
    else s.first [.clearUp]
  | .recallLoop i =>
    if i < (cString s.buffer).length then s.first [.recallAdd i, .recallLoop (i + 1)] else s
  | .recallAdd i => { s with rx := s.rx.add (s.buffer i) }
  | .clearSwap => { s with swapReady := false }
  | .clearUp => { s with upArrowFlag := false }
  | .print => s.first (io.out.map .write)
  | .getMessage => if s.rx.messageAvailable = 0 then s else s.first [.getLoop 0 0]
  | .getLoop index curr =>
    if index < usartBuf ∧ s.rx.isEmpty = false then s.first [.getRemove index curr] else s
  | .getRemove index prev =>
    { s with rx := s.rx.remove.2 }.first [.getStore index prev s.rx.remove.1]
  | .getStore index prev curr =>
    { s with buffer := Function.update s.buffer index (if newlineGuard prev curr then 0 else curr)
      }.first [.getGuard (index + 1) prev curr]
  | .getGuard index prev curr =>
    if newlineGuard prev curr then
      { s with rx := { s.rx with messageAvailable := s.rx.messageAvailable - 1 } }
    else s.first [.getLoop index curr]
  | .process =>
    if s.buffer 0 = 0 then s
    else
      { s with
        swapReady := true
        commands := s.commands ++ [cString s.buffer]
        buffer := tokenize s.buffer 0 1 (cString s.buffer).length }.first (io.out.map .write)

def exec (s : Console) (io : Io) : Console :=
  match s.todo with
  | [] => s
  | st :: rest => st.run io { s with todo := rest }

def Call.stmts : Call → List Stmt
  | .checkInput => [.checkInput]
  | .write bytes => [.write bytes]
  | .read count => readLoop count

def step (s : Console) : Input → Console
  | .rx c => s.rxIrq c
  | .txe => s.txIrq
  | .call c => if s.todo = [] then { s with todo := c.stmts } else s
  | .main io => s.exec io
  | .target tar => { s with tar := tar }

section Main

variable {s : Console} {st : Stmt} {rest : List Stmt} (io : Io)

theorem step_main_nil (h : s.todo = []) : step s (.main io) = s := by
  rw [step, exec, h]

theorem step_main_cons (h : s.todo = st :: rest) :
    step s (.main io) = st.run io { s with todo := rest } := by
  rw [step, exec, h]

end Main

/-- The console after `usart_config`. -/
def boot (tx rx : Nat → UInt8) : Console := { tx := .init tx, rx := .init rx }

end Console

end PodFirmware
