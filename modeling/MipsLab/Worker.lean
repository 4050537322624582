import MipsLab.Machine.Run

/-!
# Workers

A worker runs a machine in the background for any number of controllers. Controllers send commands,
which wait in a queue until the worker looks at them, and they see the worker's status, which says
in what state the machine came to rest last and how many commands have been handled.

The worker moves by turns (`Worker.turn`): a turn takes up one command or attempts one instruction.
In a run it looks at all waiting commands before each instruction, so a machine that is paused is
always between two instructions. A worker and its surroundings move by actions (`Worker.after`),
which may follow each other in any order.
-/

namespace MipsLab

/-- What controllers can ask of a worker. -/
inductive Command
  /-- Start or go on with a run. -/
  | resume
  | pause
  /-- Execute one instruction. -/
  | step
  /-- End the execution for good. -/
  | stop
  /-- Wait some milliseconds before each instruction of a run from now on. -/
  | setDelay (delay : Option Nat)
  /-- Take no more commands. -/
  | shutdown
  deriving DecidableEq, Repr

/-- What controllers can see of a worker at any time. -/
structure Status where
  state : ExecState
  handled : Nat := 0
  deriving DecidableEq, Repr

/-- What a worker is doing. -/
inductive Phase
  /-- It waits for a command. -/
  | idle
  /-- It executes the instruction of a step command. -/
  | stepping
  /-- It is about to execute an instruction of a run, if no command prevents that. -/
  | between
  /-- It executes an instruction of a run. -/
  | executing
  | ended
  deriving DecidableEq, Repr

/-- A machine that runs in the background. -/
structure Worker where
  machine : Machine
  status : Status
  phase : Phase := .idle
  /-- The commands that have been sent and not been looked at, in order. -/
  queue : List Command := []
  /-- How many commands have been sent. -/
  sent : Nat := 0
  /-- Whether there is still a controller. -/
  isControlled : Bool := true
  /-- Whether the latest attempt at an instruction found no input, with no change since. -/
  isBlocked : Bool := false

namespace Worker

/-- The worker of a machine, which waits for its first command. -/
def ofMachine (machine : Machine) : Worker := { machine, status := { state := machine.state } }

/-! ## What controllers see -/

/-- The state that the machine came to rest in last, or that it runs. -/
def state (w : Worker) : ExecState := w.status.state

/-- Whether an instruction is being executed. A step command executes none if the machine has
ended. -/
def isInside (w : Worker) : Bool :=
  match w.phase with
  | .stepping => !w.machine.state.isTerminal
  | .executing => true
  | _ => false

/-- The address that is read from the running machine. While an instruction is being executed it is
that of the next one. -/
def pc (w : Worker) : Address := if w.isInside then w.machine.pc + 4 else w.machine.pc

/-- Whether a turn would change nothing. -/
def isResting (w : Worker) : Bool :=
  match w.phase with
  | .idle => w.queue.isEmpty && w.isControlled
  | .between => false
  | .stepping | .executing => w.isBlocked
  | .ended => true

/-! ## Turns -/

def count (w : Worker) : Worker :=
  { w with status := { w.status with handled := w.status.handled + 1 } }

/-- Shows the machine's state. -/
def publish (w : Worker) : Worker := { w with status := { w.status with state := w.machine.state } }

def endRun (w : Worker) (state : ExecState) (phase : Phase) : Worker :=
  { w with machine := w.machine.enter state, phase }.publish

/-- Starts a run, which shows at once. A machine that has ended stays as it is. -/
def startRun (w : Worker) : Worker :=
  if w.machine.state.isTerminal then w
  else { w with machine := { w.machine with state := .running }, phase := .between }

def setDelay (w : Worker) (delay : Option Nat) : Worker :=
  { w with machine := { w.machine with flags := { w.machine.flags with delay } } }

/-- Handles a command that finds the worker idle. A step is counted when its instruction is done. -/
def handle (w : Worker) : Command → Worker
  | .resume => w.startRun.count.publish
  | .step => { w with phase := .stepping }
  | .pause => w.count.publish
  | .stop => { w with machine := w.machine.stop }.count.publish
  | .setDelay delay => (w.setDelay delay).count.publish
  | .shutdown => { w with phase := .ended }.count.publish

/-- Handles a command that comes in during a run. -/
def interrupt (w : Worker) : Command → Worker
  | .resume | .step => w.count
  | .pause => w.count.endRun (.paused .requested) .idle
  | .stop => w.count.endRun (.halted .stopped) .idle
  | .setDelay delay => (w.setDelay delay).count
  | .shutdown => w.count.endRun (.paused .requested) .ended

/-- Takes a cancelled read to the observers. The run goes on, and the instruction will be tried
again unless a command prevents that. -/
def noteCancelledRead (m : Machine) : Machine :=
  { m.enter (.paused .readCancelled) with state := .running }

/-- One move of the worker. It makes none if it waits for a command or for input. -/
def turn : Worker → Worker
  | { machine, status, phase, queue, sent, isControlled, .. } =>
    let become (machine : Machine) (phase : Phase) : Worker :=
      { machine, status, phase, queue, sent, isControlled }
    let block (machine : Machine) : Worker := { become machine phase with isBlocked := true }
    let took (rest : List Command) : Worker :=
      { machine, status, phase, queue := rest, sent, isControlled }
    match phase, queue with
    | .idle, [] => become machine (if isControlled then .idle else .ended)
    | .idle, command :: rest => (took rest).handle command
    | .between, [] =>
      if isControlled then become machine .executing
      else (become machine phase).endRun (.paused .requested) .ended
    | .between, command :: rest => (took rest).interrupt command
    -- Commands that come in during an instruction are left for the next turn.
    | .stepping, _ =>
      match machine.stepIn with
      | (.waiting, machine) => block machine
      | (_, machine) => (become machine .idle).count.publish
    | .executing, _ =>
      match machine.attempt with
      | (.goesOn, machine) => become machine .between
      | (.waits, machine) => block machine
      | (.ends (.paused .readCancelled), machine) => become (noteCancelledRead machine) .between
      | (.ends state, machine) => (become machine phase).endRun state .idle
    | .ended, _ => become machine .ended

/-! ## Actions -/

/-- What can happen to a worker. -/
inductive Action
  /-- The worker moves. -/
  | turn
  | send (command : Command)
  /-- A controller cancels the read that waits for input. -/
  | cancelRead
  /-- Input arrives. -/
  | feed (bytes : List UInt8)
  /-- The input ends. -/
  | closeInput
  /-- The last controller leaves. -/
  | detach
  deriving DecidableEq, Repr

def send (w : Worker) (command : Command) : Worker :=
  { w with queue := w.queue ++ [command], sent := w.sent + 1 }

/-- Changes the console of the machine, which may let a read go on. -/
def onConsole (w : Worker) (change : Console → Console) : Worker :=
  { w with
    machine := { w.machine with console := change w.machine.console }
    isBlocked := false }

def after (w : Worker) : Action → Worker
  | .turn => w.turn
  | .send command => w.send command
  | .cancelRead => w.onConsole Console.cancelRead
  | .feed bytes => w.onConsole (Console.push · bytes)
  | .closeInput => w.onConsole Console.closeInput
  | .detach => { w with isControlled := false }

end Worker

end MipsLab
