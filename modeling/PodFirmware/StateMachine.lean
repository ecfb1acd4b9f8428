import PodFirmware.StateHandlers

/-!
# PodFirmware.StateMachine

`state_machine.c` with the handler tables of the pod: `check_interval`, which decides whether the
`in` handler runs, and `state_machine_handler`, which runs it and then carries out the transition
that is requested at that point, if any. After the `to` handler the machine takes up whatever state
`next_state` names by then.
-/

namespace PodFirmware
namespace Pod

/-- `!(ticks % interval) && ticks != last`: the gate in front of every periodic activity. -/
def due (p : Pod) (env : Env) (rMod rCmp : TickRead) (interval last : UInt32) : Bool × Pod :=
  let p := p.readTicks env rMod
  if p.ticks % interval = 0 then
    let p := p.readTicks env rCmp
    (p.ticks != last, p)
  else (false, p)

theorem due_eq (p : Pod) (env : Env) (rMod rCmp : TickRead) (interval last : UInt32) :
    p.due env rMod rCmp interval last =
      if env.ticks rMod % interval = 0 then (env.ticks rCmp != last, p.readTicks env rCmp)
      else (false, p.readTicks env rMod) := rfl

def checkInterval (env : Env) (state : StateName) (p : Pod) : Bool × Pod :=
  let (hit, p) :=
    p.due env .checkMod .checkCmp (stateIntervals state) (p.handle.timestamps state)
  if hit then
    let p := p.readTicks env .checkSet
    (true, p.setHandle { p.handle with
      timestamps := Function.update p.handle.timestamps state p.ticks })
  else (false, p)

/-- The first half of a call: the periodic handler of the current state. -/
def runIn (env : Env) (p : Pod) : Pod :=
  let state := p.handle.currState
  let (hit, p) := checkInterval env state p
  if hit then inHandlers env state p.handle.flags (p.emit (.inHandler state)) else p

def switchTo (env : Env) (target : StateName) (p : Pod) : Pod :=
  let source := p.handle.currState
  let p := fromHandlers source target (p.emit (.fromHandler source target))
  let p := toHandlers env target source (p.emit (.toHandler target source))
  let p := p.setHandle { p.handle with prevState := source, currState := p.handle.nextState }
  p.emit (.transition source p.handle.currState)

def stateMachineHandler (env : Env) (p : Pod) : Pod :=
  let p := runIn env p
  if p.handle.changeState then
    let p := p.setHandle { p.handle with changeState := false }
    if p.handle.currState = p.handle.nextState then p
    else switchTo env p.handle.nextState p
  else p

def initializeStateMachine (initial : StateName) (p : Pod) : Pod :=
  p.setHandle { p.handle with
    prevState := initial
    currState := initial
    nextState := initial
    changeState := false
    flags := powerOn }

end Pod
end PodFirmware
