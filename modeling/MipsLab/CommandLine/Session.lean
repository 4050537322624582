import MipsLab.CommandLine.Report
import MipsLab.Worker

/-!
# Sessions

A run from the command line. A session that traces or limits the run steps through the program
itself; any other session leaves it to a worker. Either way it shows the registers at every pause
and goes on, until the program ends or its instructions are used up.

A session moves by turns, and waits for input where its console does. What it has to say to the user
piles up in its notes.
-/

namespace MipsLab.CommandLine

/-! ## Exit codes -/

/-- The exit code if there is nothing to run. -/
def unusableCode : UInt8 := 1

def faultCode : UInt8 := 2

/-- The exit code if the instructions are used up. -/
def limitCode : UInt8 := 3

/-- The exit code of a state in which a session ends. What a program ends with counts modulo 256. -/
def exitCode : ExecState → UInt8
  | .halted (.exit code) => UInt8.ofNat (code % 0x100).toNat
  | .halted .stopped => 0
  | .paused .tripwire => limitCode
  | _ => faultCode

/-! ## Sessions -/

/-- How a session executes its program. -/
inductive Execution
  | direct (machine : Machine)
  | background (worker : Worker)

/-- A run from the command line. -/
structure Session where
  options : RunOptions
  program : Program
  execution : Execution
  /-- What the user has been told, line by line. -/
  notes : Array String := #[]

/-- What a session is up to. -/
inductive Activity
  | busy
  | waiting
  | ended (code : UInt8)
  deriving DecidableEq, Repr

namespace Session

def machine (s : Session) : Machine :=
  match s.execution with
  | .direct machine => machine
  | .background worker => worker.machine

/-- What the program has written so far. -/
def output (s : Session) : Output := s.machine.console.output

def onConsole (s : Session) (change : Console → Console) : Session :=
  match s with
  | { options, program, execution, notes } =>
    { options, program, notes
      execution :=
        match execution with
        | .direct machine => .direct { machine with console := change machine.console }
        | .background worker => .background (worker.onConsole change) }

def feed (s : Session) (bytes : List UInt8) : Session := s.onConsole (Console.push · bytes)

def closeInput (s : Session) : Session := s.onConsole Console.closeInput

/-- How many milliseconds to wait before the next turn. -/
def delay (s : Session) : Nat :=
  match s.execution with
  | .background worker =>
    if worker.phase = .between then worker.machine.flags.delay.getD 0 else 0
  | .direct _ => 0

/-! ## Turns -/

/-- The last lines about a run that ends in a state. -/
def closingLines (program : Program) (options : RunOptions) : ExecState → List String
  | .halted _ => []
  | .faulted fault => faultLines program fault
  | _ => [s!"stopped after {options.maxSteps.getD 0} instructions"]

def say (s : Session) (lines : List String) : Session :=
  match s with
  | { options, program, execution, notes } =>
    { options, program, execution, notes := notes ++ lines }

def finish (s : Session) (state : ExecState) : Activity × Session :=
  (.ended (exitCode state), s.say (closingLines s.program s.options state))

/-- What is left of the instructions that may be executed, if they are limited. -/
def remaining (options : RunOptions) (m : Machine) : Option Nat :=
  options.maxSteps.map (· - m.completed)

/-- Goes on with the program for one instruction. -/
def proceed (options : RunOptions) (m : Machine) : Progress × Machine :=
  if options.isTraced then m.stepIn
  else
    match remaining options m with
    | some limit => m.runLimited limit 1
    | none => m.run 1

/-- What follows from the state in which an instruction has left the machine: the end, a pause to
tell the user about, or the next instruction. -/
def settle (s : Session) (state : ExecState) (pc : Address) (regs : Registers) :
    Activity × Session :=
  match state with
  | .paused .step | .paused .tripwire | .loaded | .running => (.busy, s)
  | .paused reason => (.busy, s.say (pauseLines s.program reason pc regs))
  | state => s.finish state

/-- One turn of a session that steps through the program. -/
def turnDirect (options : RunOptions) (program : Program) (notes : Array String) (m : Machine) :
    Activity × Session :=
  if remaining options m = some 0 then
    finish { options, program, notes, execution := .direct m } (.paused .tripwire)
  else
    let trace := if options.isTraced then [traceLine program m.pc] else []
    match proceed options m with
    | (.waiting, m) => (.waiting, { options, program, notes, execution := .direct m })
    | (.unfinished, m) => (.busy, { options, program, notes, execution := .direct m })
    | (.ended _, m) =>
      let state := m.state
      let pc := m.pc
      let regs := m.registers
      let s : Session := { options, program, notes := notes ++ trace, execution := .direct m }
      s.settle state pc regs

/-- Whether a worker has handled all its commands and its machine has come to rest. -/
def hasSettled (w : Worker) : Bool := w.status.handled = w.sent && w.state ≠ .running

/-- One turn of a session that leaves the program to a worker. -/
def turnBackground (options : RunOptions) (program : Program) (notes : Array String) (w : Worker) :
    Activity × Session :=
  if hasSettled w then
    let state := w.state
    let pc := w.pc
    let regs := w.machine.registers
    let w := if state.isTerminal then w else w.send .resume
    let s : Session := { options, program, notes, execution := .background w }
    s.settle state pc regs
  else if w.isResting then
    (.waiting, { options, program, notes, execution := .background w })
  else (.busy, { options, program, notes, execution := .background w.turn })

def turn (s : Session) : Activity × Session :=
  match s with
  | { options, program, execution := .direct m, notes } => turnDirect options program notes m
  | { options, program, execution := .background w, notes } =>
    turnBackground options program notes w

/-- Turns of a session until it waits or ends, but at most `fuel`. -/
def advance : Nat → Session → Activity × Session
  | 0, s => (.busy, s)
  | fuel + 1, s =>
    match s.turn with
    | (.busy, s) => advance fuel s
    | (activity, s) => (activity, s)

end Session

end MipsLab.CommandLine
