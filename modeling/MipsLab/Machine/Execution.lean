import MipsLab.Machine

/-!
# Executing on the machine

An instruction works on the machine in place: it reads registers, memory and the console and writes
to them one after the other, and any of that may put an end to it. Whatever it has changed by then
stays changed.
-/

namespace MipsLab

/-- Why an instruction does not lead on to the next one. -/
inductive Stop
  | halt (reason : HaltReason)
  /-- A break instruction. -/
  | pause
  /-- The instruction was waiting for input, and has been cancelled. -/
  | cancelled
  | fault (error : ExecError)
  deriving DecidableEq, Repr

/-- How the attempt at an instruction ends. -/
inductive StepEnd
  | ran
  | stopped (stop : Stop)
  /-- The instruction waits for input; it is to be tried again. -/
  | waiting
  deriving DecidableEq, Repr

namespace Stop

/-- What a read that fails means for the instruction. -/
def ofReadError : ReadError → Stop
  | .cancelled => cancelled
  | .closed => fault .inputClosed
  | .malformed line => fault (.malformedInput line)

/-- Whether the instruction has been completed all the same. -/
def completes : Stop → Bool
  | halt _ | pause => true
  | cancelled | fault _ => false

end Stop

/-- Why the work of an instruction ends before its end. -/
inductive Interruption
  | stopped (stop : Stop)
  /-- There is no input yet. -/
  | waiting
  deriving DecidableEq, Repr

/-- Works on a machine, and hands it back also when it is interrupted. -/
abbrev Work := EStateM Interruption Machine

namespace Work

/-! ## Ending -/

def stop {α : Type} (s : Stop) : Work α := throw (.stopped s)

def fail {α : Type} (error : ExecError) : Work α := stop (.fault error)

/-- The value of a computation, or the fault of its error. -/
def orFail {α : Type} : Except ExecError α → Work α
  | .ok value => return value
  | .error e => fail e

/-- Whether sums and differences that are out of range are faults. -/
def trapsOverflow : Work Bool := return (← get).flags.trapOverflow

/-! ## Registers and calls -/

def register (r : Reg) : Work Word := return (← get).registers.get r

def setRegister (r : Reg) (value : Word) : Work Unit := modify (·.setRegister r value)

def hi : Work Word := return (← get).registers.hi

def lo : Work Word := return (← get).registers.lo

def setHi (value : Word) : Work Unit :=
  modify fun m => { m with registers := { m.registers with hi := value } }

def setLo (value : Word) : Work Unit :=
  modify fun m => { m with registers := { m.registers with lo := value } }

/-- Changes the address of the next instruction. -/
def jump (target : Address) : Work Unit := modify (·.setPc target)

/-- Opens a call that the instruction at `pc` makes, with the registers that there are by now. -/
def openCall (pc callee : Address) : Work Unit :=
  modify fun m => { m with calls := m.calls.push pc callee m.registers }

/-- Closes the latest call. -/
def closeCall : Work Unit := modify fun m => { m with calls := m.calls.pop }

/-! ## Memory -/

def onMemory {α : Type} (read : Memory → Except MemoryError α) : Work α := do
  orFail ((read (← get).memory).mapError .memory)

/-- Changes memory. What a change that fails has replaced by then stays so. -/
def change {α : Type} (c : Memory.Change α) : Work α := fun m =>
  match c.run m.memory with
  | .ok value memory => .ok value { m with memory }
  | .error e memory => .error (.stopped (.fault (.memory e))) { m with memory }

/-! ## Console and observers -/

def print (write : Console → Console) : Work Unit :=
  modify fun m => { m with console := write m.console }

/-- Reads from the console. What is read is used up. -/
def read {α : Type} (request : Console → ReadOutcome α × Console) : Work α := fun m =>
  let (outcome, console) := request m.console
  let m := { m with console }
  match outcome with
  | .done value => .ok value m
  | .failed e => .error (.stopped (Stop.ofReadError e)) m
  | .waiting => .error .waiting m

/-- Tells an event to the observers. -/
def emit (event : Event) : Work Unit :=
  modify fun m => { m with events := m.events.emit event }

end Work

end MipsLab
