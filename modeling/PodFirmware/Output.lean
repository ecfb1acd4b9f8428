import PodFirmware.Pod

/-!
# PodFirmware.Output

What the controller does to the outside: the actuation functions of `badgerloop.c`, the pin writes
they make, and `printf` as far as it touches the state of the controller. A message for the
dashboard that gets a buffer stamps `last_telem_timestamp`, and one that cannot be sent switches
standard output back to the serial console.
-/

namespace PodFirmware

/-! ## Pins -/

/-- `gpio_writePin`: a write to `BSRR` sets or resets one bit of the output latch. -/
def gpioWritePin (port : GpioPort) (pin : UInt32) (state : Bool) (a : Actuation) : Actuation :=
  let bit : UInt32 := 0x1 <<< pin
  let latch := if state then a.odr port ||| bit else a.odr port &&& ~~~bit
  { a with odr := Function.update a.odr port latch }

/-! ## Actuation functions -/

namespace Pod

def primaryBrakes (p : Pod) (intensity : Int32) : Pod :=
  p.drive (.primaryBrakes intensity) fun a =>
    let a := if intensity ≠ a.primaryIntensity then gpioWritePin .D 6 (intensity = 0) a else a
    { a with primaryIntensity := intensity }

def secondaryBrakes (p : Pod) (intensity : Int32) : Pod :=
  p.drive (.secondaryBrakes intensity) fun a =>
    let a := if intensity ≠ a.secondaryIntensity then gpioWritePin .E 14 (intensity ≠ 0) a else a
    { a with secondaryIntensity := intensity }

def ventPrimaryBrakes (p : Pod) (vent : Bool) : Pod :=
  p.drive (.ventPrimaryBrakes vent) (gpioWritePin .B 11 !vent)

def ventSecondaryBrakes (p : Pod) (vent : Bool) : Pod :=
  p.drive (.ventSecondaryBrakes vent) (gpioWritePin .A 0 !vent)

def thrusters (p : Pod) (on : Bool) : Pod :=
  p.drive (.thrusters on) fun a => gpioWritePin .F 12 on (gpioWritePin .D 4 on a)

def ventThrusters (p : Pod) (vent : Bool) : Pod :=
  p.drive (.ventThrusters vent) fun a => gpioWritePin .D 7 (!vent) (gpioWritePin .B 10 (!vent) a)

/-! ## Console output -/

/-- `send_message_to_Dashboard`, and what it returns. -/
def sendMessageToDashboard (w : WriteCall) (r : Reports) : Int32 × Reports :=
  match w.result with
  | .noBuffer => (-1, r)
  | .failed => (-1, { r with lastTelemTimestamp := Tick.reading w.tick })
  | .sent => (0, { r with lastTelemTimestamp := Tick.reading w.tick })

/-- `_write`, less the bytes themselves. -/
def write (r : Reports) (w : WriteCall) : Reports :=
  match r.tar with
  | .usbSerial => r
  | .udp =>
    let (ret, r) := sendMessageToDashboard w r
    if ret = -1 then { r with tar := .usbSerial } else r

/-- Some of the writes go to the serial console. The C library only writes when it has bytes, and
after each of them `_write` enables interrupts, whether or not they were enabled before. -/
def writesSerial : Reports → List WriteCall → Bool
  | _, [] => false
  | r, w :: ws => r.tar = .usbSerial || writesSerial (write r w) ws

/-- `printf`: the C library buffers, so one call makes any number of writes. -/
def printf (p : Pod) (env : Env) (site : Print) : Pod :=
  let ws := env.stdout site
  (p.setReports (ws.foldl write p.reports)).setDaq
    { p.daq with irqEnabled := p.daq.irqEnabled || writesSerial p.reports ws }

/-! ## Requests -/

def changeState (p : Pod) (s : StateName) : Pod :=
  p.setHandle { p.handle with nextState := s, changeState := true }

def clearFlag (p : Pod) (flags : UInt32) : Pod :=
  p.setHandle { p.handle with flags := p.handle.flags &&& ~~~flags }

def setFlag (p : Pod) (flags : UInt32) : Pod :=
  p.setHandle { p.handle with flags := p.handle.flags ||| flags }

def setFaultMessage (p : Pod) (message : String) : Pod :=
  p.setReports { p.reports with faultMessage := message }

def setBadValue (p : Pod) (v : Int32) : Pod :=
  p.setReports { p.reports with badValue := v }

def assertFault (p : Pod) (env : Env) (site : Print) (message : String) : Pod :=
  ((p.changeState .fault).printf env site).setFaultMessage message

end Pod

end PodFirmware
