import PodFirmware.Cli

/-!
# PodFirmware.CommandTable

The commands that the build links into the table, in its order, and their handlers. `process_input`
sets as many elements of `args` as it finds words; a handler that looks at another one, or at an
element of `interLine` behind the last, ends with that access.

* `arg`, `getTimeStamps`: the checked accesses.
* `podCommands`: the table.
* `Shell`: the state that the commands change, with the calls, the prints and the bad access on
  record.
-/

namespace PodFirmware

open CString

/-- An access outside what is there. -/
inductive Access where
  | argv (k : Nat)
  | interLine (pin : Nat)
  deriving DecidableEq, Repr

inductive HalStatus where
  | ok | error | busy | timeout
  deriving DecidableEq, Repr

inductive GpioMode where
  | input | output | alt | analog
  deriving DecidableEq, Repr

/-- What the handlers find outside the program: answers of the HAL and of the C library, the modes
of the pins, and the output of the command. `stampOut` is the part of it that `printStamp` makes. -/
structure Board where
  io : CommandIo
  stampOut : List WriteCall
  isDeviceReady : UInt16 → HalStatus
  memRead : (address memAddr memAddSize : UInt16) → UInt8 → HalStatus
  masterReceive : UInt16 → UInt8 → HalStatus
  calloc : Nat → Bool
  ethInstance : Bool
  readPhyRegister : UInt16 → HalStatus
  gpioMode : GpioPort → UInt8 → GpioMode
  /-- `atof` of the word is `0.0`. -/
  atofZero : Word → Bool

abbrev Handler := Board → List Word → Pod → Except Access (CommandStatus × Pod)

def arg (argv : List Word) (k : Nat) : Except Access Word :=
  match argv[k]? with
  | some w => .ok w
  | none => .error (.argv k)

/-- `getTimeStamps`, and the accesses of `printStamp` to what it returns. -/
def getTimeStamps (pin : UInt8) : Except Access (Fin 16) :=
  if h : pin.toNat < 16 then .ok ⟨pin.toNat, h⟩ else .error (.interLine pin.toNat)

/-! ## Pins -/

structure Gpio where
  name : String
  port : GpioPort
  pin : UInt8

def gpioTable : List Gpio :=
  [⟨"JTDI", .A, 15⟩, ⟨"SWCLK", .A, 14⟩, ⟨"SWDAT", .A, 13⟩, ⟨"NJTRST", .B, 4⟩, ⟨"JTDO", .B, 3⟩,
    ⟨"OSC_IN", .H, 0⟩, ⟨"OSC_OUT", .H, 1⟩, ⟨"LSE_IN", .C, 14⟩, ⟨"LSE_OUT", .C, 15⟩,
    ⟨"REDLED", .B, 14⟩, ⟨"BLUELED", .B, 7⟩, ⟨"GREENLED", .B, 0⟩, ⟨"BUTTON", .C, 13⟩,
    ⟨"UART TX", .D, 8⟩, ⟨"UART RX", .D, 9⟩, ⟨"USB SOF", .A, 8⟩, ⟨"USB VBUS", .A, 9⟩,
    ⟨"USB ID", .A, 10⟩, ⟨"USB DM", .A, 11⟩, ⟨"USB DP", .A, 12⟩, ⟨"USB GPIO OUT", .G, 6⟩,
    ⟨"USB GPIO IN", .G, 7⟩, ⟨"RMII REFCLK", .A, 1⟩, ⟨"RMII MDIO", .A, 2⟩, ⟨"RMII MDC", .C, 1⟩,
    ⟨"RMII RX DV", .A, 7⟩, ⟨"RMII RXD0", .C, 4⟩, ⟨"RMII RXD1", .C, 5⟩, ⟨"RMII TX EN", .G, 11⟩,
    ⟨"RMII TXD0", .G, 13⟩, ⟨"RMII TXD1", .B, 13⟩, ⟨"LIM1", .G, 2⟩, ⟨"LIM2", .G, 3⟩,
    ⟨"PLIM1", .D, 0⟩, ⟨"PLIM2", .D, 1⟩, ⟨"DLIM", .D, 3⟩, ⟨"PT1", .D, 4⟩, ⟨"GPIO5", .D, 5⟩,
    ⟨"BPA1", .D, 6⟩, ⟨"PVL", .D, 7⟩, ⟨"BSA", .E, 14⟩, ⟨"PT2", .F, 12⟩, ⟨"GPIO10", .G, 0⟩,
    ⟨"GPIO11", .G, 1⟩, ⟨"GPIO12", .F, 13⟩, ⟨"GPIO13", .F, 14⟩, ⟨"BSV", .A, 0⟩, ⟨"PVS", .B, 10⟩,
    ⟨"BPV", .B, 11⟩, ⟨"IBATT", .A, 3⟩, ⟨"Analog2", .B, 1⟩, ⟨"Analog3", .C, 0⟩, ⟨"PRP2", .C, 2⟩,
    ⟨"VBATT", .C, 3⟩, ⟨"PRP1", .F, 3⟩, ⟨"BRP2", .F, 4⟩, ⟨"BRP1", .F, 5⟩, ⟨"BPR3", .F, 10⟩,
    ⟨"ACCEL", .F, 6⟩, ⟨"TH1", .F, 7⟩, ⟨"TH2", .F, 8⟩, ⟨"Analog13", .F, 9⟩, ⟨"TH3", .A, 4⟩,
    ⟨"TH4", .A, 5⟩, ⟨"MIDDLE", .E, 9⟩, ⟨"FRONT", .E, 11⟩, ⟨"REAR", .E, 13⟩, ⟨"SDA", .F, 0⟩,
    ⟨"SCL", .F, 1⟩, ⟨"SDMMC1 D0", .C, 8⟩, ⟨"SDMMC1 D1", .C, 9⟩, ⟨"SDMMC1 D2", .C, 10⟩,
    ⟨"SDMMC1 D3", .C, 11⟩, ⟨"SDMMC1 CK", .C, 12⟩, ⟨"SDMMC1 CMD", .D, 2⟩]

def groupNames : List String :=
  ["OTHER", "SENSOR", "SOLENOID", "RETRO", "LED", "I2C", "PRESSURE", "BRAKE", "PROP"]

/-- The pins in `ADC_LUT`. -/
def adcLut : List (GpioPort × UInt8) :=
  [(.A, 3), (.B, 1), (.C, 0), (.C, 2), (.C, 3), (.F, 3), (.F, 4), (.F, 5), (.F, 10), (.F, 6),
    (.F, 7), (.F, 8), (.F, 9), (.A, 4), (.A, 5)]

def hasGpioAlias (name : Word) : Option Gpio := gpioTable.find? fun g => ascii g.name = name

/-- `isGroup` finds one. -/
def isGroup (group : Word) : Bool := groupNames.any fun g => ascii g = group

/-- The port of a letter, where `IS_GPIO_ALL_INSTANCE` knows the address computed from it. -/
def gpioGetGpioPort (portChar : UInt8) : Option GpioPort :=
  [.A, .B, .C, .D, .E, .F, .G, .H, .I, .J, .K][(portChar - 65).toNat]?

/-- The letter and the number in `<port><pin>`. The character of an empty word is its NUL. -/
def portChar (w : Word) : UInt8 := w.headD 0

def pinNumber (w : Word) : UInt8 := (atoi w.tail).toUInt32.toUInt8

/-! ## Handlers -/

def doHelp : Handler := fun board argv p => do
  if argv.length = 1 then
    return (.success, p.puts board.io.stdout)
  else
    -- the word is looked up, and printed when it is not found
    let _ ← arg argv 1
    return (.success, p.puts board.io.stdout)

def doMemmap : Handler := fun board _ p => return (.success, p.puts board.io.stdout)

def doBoot : Handler := fun board _ p => return (.usage, p.puts board.io.stdout)

/-- The pin that the command works on, and whether a number or an alias chose it. -/
def pinOf (w : Word) : Option (GpioPort × UInt8) :=
  match hasGpioAlias w with
  | some g => some (g.port, g.pin)
  | none =>
    match gpioGetGpioPort (portChar w) with
    | none => none
    | some port =>
      if w.length > 1 then (if pinNumber w > 15 then none else some (port, pinNumber w))
      else some (port, 0)

def setOutput (p : Pod) (pin : GpioPort × UInt8) (state : Bool) : Pod :=
  { p with act := gpioWritePin pin.1 pin.2.toUInt32 state p.act }

def doPin : Handler := fun board argv p => do
  if argv.length < 2 then return (.usage, p)
  else
    let w ← arg argv 1
    if isGroup w || w = ascii "alias" then return (.success, p.puts board.io.stdout)
    else
      match pinOf w with
      | none => return (.usage, p)
      | some pin =>
        if argv.length = 2 then return (.success, p.puts board.io.stdout)
        else
          let action ← arg argv 2
          if action = ascii "info" then return (.success, p.puts board.io.stdout)
          else if action = ascii "on" ∨ action = ascii "off" then
            match board.gpioMode pin.1 pin.2 with
            | .alt | .analog => return (.fail, p.puts board.io.stdout)
            | _ => return (.success, setOutput p pin (action = ascii "on"))
          else return (.usage, p)

/-- `strcmp(argv[1], "perf")` never matches behind a port and a pin. -/
def doAr : Handler := fun board argv p => do
  if argv.length = 1 then return (.success, p.puts board.io.stdout)
  else
    let w ← arg argv 1
    if w = ascii "accel" then return (.success, p.puts board.io.stdout)
    else if isGroup w then return (.success, p.puts board.io.stdout)
    else
      match (hasGpioAlias w).filter fun g => adcLut.contains (g.port, g.pin) with
      | some _ =>
        if argv.length > 2 then
          let _ ← arg argv 2
          return (.success, p.puts board.io.stdout)
        else return (.success, p.puts board.io.stdout)
      | none =>
        match gpioGetGpioPort (portChar w) with
        | some port =>
          if adcLut.contains (port, pinNumber w) then return (.success, p.puts board.io.stdout)
          else return (.usage, p)
        | none => return (.usage, p)

def doReset : Handler := fun _ _ p => return (.success, p)

/-- The operators of `float`; `add` is looked for in the first argument. -/
def isOperator (first op : Word) : Bool :=
  first = ascii "add" || ["+", "-", "subtract", "*", "multiply", "/", "divide"].any fun s =>
    ascii s = op

def doFpcal : Handler := fun board argv p => do
  if argv.length < 4 then return (.usage, p)
  else
    let a ← arg argv 1
    let b ← arg argv 3
    if board.atofZero a || board.atofZero b then return (.usage, p.puts board.io.stdout)
    else
      let op ← arg argv 2
      if isOperator a op then return (.success, p.puts board.io.stdout)
      else return (.usage, p.puts board.io.stdout)

def doEth : Handler := fun board argv p => do
  if argv.length < 2 then return (.usage, p)
  else
    let w ← arg argv 1
    if w = ascii "phy" ∧ argv.length = 3 then
      let phyReg := (atoi (← arg argv 2)).toUInt32.toUInt16
      if !board.ethInstance then return (.fail, p.puts board.io.stdout)
      else if phyReg > 31 then return (.usage, p.puts board.io.stdout)
      else if board.readPhyRegister phyReg ≠ .ok then return (.fail, p.puts board.io.stdout)
      else return (.success, p.puts board.io.stdout)
    else if w = ascii "check" ∨ w = ascii "status" ∨ w = ascii "dhcp" then
      return (.success, p.puts board.io.stdout)
    else return (.usage, p)

def doExti : Handler := fun board argv p => do
  if argv.length < 2 then return (.usage, p)
  else
    let w ← arg argv 1
    let pin :=
      match hasGpioAlias w with
      | some g => g.pin
      | none => (atoi w).toUInt32.toUInt8
    let _ ← getTimeStamps pin
    let (_, p) := Pod.getVelocity board.io.env (p.puts board.stampOut)
    return (.success, p.puts board.io.stdout)

/-- `i2c mpu <letter>`. -/
def mpuLetter : Word → CommandStatus
  | 105 :: _ | 114 :: _ | 112 :: _ | 99 :: _ => .success
  | _ => .usage

def memAddSize (w : Word) : UInt16 := if w.length > 4 then 2 else 1

def halResult (p : Pod) (stat : HalStatus) : CommandStatus × Pod :=
  if stat = .ok then (.success, p) else (.fail, p)

/-- The status of the write itself is only printed. -/
def doI2cWrite (board : Board) (argv : List Word) (p : Pod) :
    Except Access (CommandStatus × Pod) := do
  -- the offset is converted before the arguments are counted
  let _ ← arg argv 3
  if argv.length ≠ 5 then return (.usage, p)
  else if !board.calloc (argv.length - 4) then return (.fail, p)
  else
    let _ ← arg argv 4
    return (.success, p.puts board.io.stdout)

def doI2cRead (board : Board) (argv : List Word) (address size : UInt16) (p : Pod) :
    Except Access (CommandStatus × Pod) := do
  if argv.length = 4 then
    let numBytes := (atoi (← arg argv 3)).toUInt32.toUInt8
    return halResult (p.puts board.io.stdout) (board.masterReceive (address <<< 1) numBytes)
  else
    let memAddr := (atoi (← arg argv 3)).toUInt32.toUInt16
    let numBytes := (atoi (← arg argv 4)).toUInt32.toUInt8
    return halResult (p.puts board.io.stdout) (board.memRead (address <<< 1) memAddr size numBytes)

def doI2c : Handler := fun board argv p => do
  if argv.length = 1 then return (.success, p.puts board.io.stdout)
  else
    let w ← arg argv 1
    if w = ascii "honeywell" then return (.success, p.puts board.io.stdout)
    else if w = ascii "mpu" then
      if argv.length ≠ 3 then return (.usage, p)
      else
        let letter ← arg argv 2
        return (mpuLetter letter, p.puts board.io.stdout)
    else
      let digits ← arg argv 2
      let address := (strtoul 16 digits).toUInt16
      if address > 127 then return (.usage, p.puts board.io.stdout)
      else if board.isDeviceReady (address <<< 1) ≠ .ok then
        return (.usage, p.puts board.io.stdout)
      else if w = ascii "write" then doI2cWrite board argv p
      else if w = ascii "read" then doI2cRead board argv address (memAddSize digits) p
      else return (.usage, p)

/-- `do_badgerloop`, argument by argument. -/
def doBadgerloopArgs : Handler := fun board argv p => do
  if argv.length = 1 then return (.usage, p)
  else if argv.length = 3 then
    let name ← arg argv 1
    let value ← arg argv 2
    return p.doKeyword board.io name value
  else
    let word ← arg argv 1
    if portChar word = 109 then
      if argv.length < 3 then return (.usage, p)
      else
        let message ← arg argv 2
        return p.doLetter board.io word (some message)
    else return p.doLetter board.io word none

/-! ## The table -/

/-- The controller, and what `process_input` has done: the commands that were called with their
arguments, what was printed about them, and the first bad access. -/
structure Shell where
  pod : Pod
  called : List (String × List Word) := []
  printed : List Word := []
  access : Option Access := none

def Shell.print (w : Word) (s : Shell) : Shell := { s with printed := s.printed ++ [w] }

/-- A handler as an entry of the table. Nothing is said about what follows a bad access. -/
def Handler.run (h : Handler) (board : Board) (name : String) (argv : List Word) (s : Shell) :
    CommandStatus × Shell :=
  let s := { s with called := s.called ++ [(name, argv)] }
  match h board argv s.pod with
  | .ok (status, p) => (status, { s with pod := p })
  | .error a => (.fail, { s with access := s.access <|> some a })

def handlers : List (String × String × String × Handler) :=
  [("help", "help [command_name]", "Display a command's help message.", doHelp),
    ("memmap", "memmap", "Display where different physical hardware peripherals", doMemmap),
    ("boot", "boot <routine>", "Run currently selected main routine.", doBoot),
    ("pin", "pin <port>[num] [info | on | off]", "Perform live manipulation of GPIO pins.", doPin),
    ("ar", "ar <port[pin] | info>", "Perform ADC conversions on available pins.", doAr),
    ("reset", "reset", "Software reset.", doReset),
    ("float", "float <arg1> [ add | subtract | multiply | divide | + | - | * | / ] <arg2>",
      "Float point calculation using FPU.", doFpcal),
    ("eth", "eth [phy <reg_num>]", "Debug Ethernet capabilities.", doEth),
    ("exti", "exti <pin>", "Prints current and previous time stamp of the External Interrpt. " ++
      "Only on interrupt per pin number", doExti),
    ("i2c", "i2c <read | write> <address HEX> <offset | num bytes> [value HEX]",
      "Perform live interaction with the i2c devices default list all devices", doI2c),
    ("badgerloop", "badgerloop\r\n\tDBTO  - Don't brake timeout\r\n\tMBTO  - Must brake timeout" ++
      "\r\n\tBCT   - Braking count threshold\r\n\tACCEL - Accelerometer impulse cap" ++
      "\r\n\tTEP   - Target end position\r\n\tCMPS  - Centimeters per strip" ++
      "\r\n\toverride [ on | off ] - stop DAQ and override sensor data" ++
      "\r\n\tfault - print current fault message", "Debug Badgerloop Networking etc.",
      doBadgerloopArgs)]

def podCommands (board : Board) : List (Command Shell) :=
  handlers.map fun (name, usage, help, h) => ⟨name, usage, help, h.run board name⟩

/-- Every device answers, and nothing is printed. -/
def quietBoard : Board where
  io := quietIo
  stampOut := []
  isDeviceReady := fun _ => .ok
  memRead := fun _ _ _ _ => .ok
  masterReceive := fun _ _ => .ok
  calloc := fun _ => true
  ethInstance := true
  readPhyRegister := fun _ => .ok
  gpioMode := fun _ _ => .output
  atofZero := fun _ => false

end PodFirmware
