import MipsLab.Instr.Text
import MipsLab.Memory.MemoryError
import MipsLab.Text.Quoted

/-!
# States of execution

Whether a machine is ready, running or done, and why it came to stop: faults with their causes,
reasons to pause and reasons to halt.
-/

namespace MipsLab

/-! ## Faults -/

/-- Why an instruction cannot be executed. -/
inductive ExecError
  | illegalInstruction (word : Word)
  | memory (cause : MemoryError)
  | integerOverflow
  | divideByZero
  | invalidSyscall (code : Word)
  /-- A line of input is no integer. -/
  | malformedInput (line : String)
  | inputClosed
  | pcOutsideText (pc : Address)
  deriving DecidableEq, Repr

namespace ExecError

def message : ExecError → String
  | illegalInstruction word => s!"illegal instruction {word.text}"
  | memory cause => cause.message
  | integerOverflow => "arithmetic overflow"
  | divideByZero => "division by zero"
  | invalidSyscall code => s!"invalid syscall code {code.toNat}"
  | malformedInput line => s!"could not read {Text.quoted line} as an integer"
  | inputClosed => "tried to read input, but input is closed"
  | pcOutsideText pc => s!"PC {pc.text} is outside of the program's instructions"

def help : ExecError → Option String
  | illegalInstruction _ => some "the program may have jumped somewhere that isn't code"
  | memory cause => some cause.help
  | integerOverflow => some "use addu, addiu, or subu for arithmetic which wraps"
  | divideByZero => none
  | invalidSyscall _ => some "the syscall code is read from $v0"
  | malformedInput _ => some "enter a decimal integer"
  | inputClosed => none
  | pcOutsideText _ =>
    some "use syscall 10 to exit the program instead of running past its end"

def causes : ExecError → List String
  | memory cause => cause.message :: cause.causes
  | _ => []

/-- The error as it is told to the user. -/
def diagnostic (e : ExecError) : Diagnostic :=
  { message := e.message, help := e.help, causes := e.causes }

end ExecError

/-- An instruction that could not be executed. -/
structure Fault where
  pc : Address
  /-- The line of the source text that the instruction comes from. -/
  line : Option Nat
  error : ExecError
  deriving DecidableEq, Repr

namespace Fault

def message (f : Fault) : String :=
  match f.line with
  | some line => s!"{f.error.message} (at {f.pc.text}, line {line})"
  | none => s!"{f.error.message} (at {f.pc.text})"

/-- The fault as it is told to the user. -/
def diagnostic (f : Fault) : Diagnostic :=
  { message := f.message
    help := f.error.help
    causes := f.error.message :: f.error.causes }

end Fault

/-! ## States -/

/-- Why execution has ended for good, other than by a fault. -/
inductive HaltReason
  /-- The program has ended itself. -/
  | exit (code : Int)
  /-- Execution was stopped from outside. -/
  | stopped
  deriving DecidableEq, Repr

def HaltReason.text : HaltReason → String
  | exit code => s!"exited with code {code}"
  | stopped => "stopped"

/-- Why execution has come to rest for now. -/
inductive PauseReason
  | breakpoint
  | breakInstruction
  | step
  /-- The condition of a limited run has ended. -/
  | tripwire
  | requested
  /-- A read was given up; the instruction will be tried again. -/
  | readCancelled
  deriving DecidableEq, Repr

namespace PauseReason

def text : PauseReason → String
  | breakpoint => "hit breakpoint"
  | breakInstruction => "executed break"
  | step => "stepped"
  | tripwire => "condition ended"
  | requested => "paused"
  | readCancelled => "read cancelled"

def name : PauseReason → String
  | breakpoint => "Breakpoint"
  | breakInstruction => "BreakInstruction"
  | step => "Step"
  | tripwire => "Tripwire"
  | requested => "Requested"
  | readCancelled => "ReadCancelled"

end PauseReason

/-- Where a machine is in its execution. -/
inductive ExecState
  | loaded
  | running
  | paused (reason : PauseReason)
  | halted (reason : HaltReason)
  | faulted (fault : Fault)
  deriving DecidableEq, Repr

namespace ExecState

/-- Whether nothing but loading or resetting leaves a state. -/
def isTerminal : ExecState → Bool
  | halted _ | faulted _ => true
  | _ => false

/-- A state in short form: one word, with the reason in brackets. -/
def summary : ExecState → String
  | loaded => "Loaded"
  | running => "Running"
  | paused reason => s!"Paused({reason.name})"
  | halted (.exit code) => s!"Halted(Exit {code})"
  | halted .stopped => "Halted(Stopped)"
  | faulted fault => s!"Faulted({fault.message})"

/-- What a run or step that ends in a state gives back. -/
def result : ExecState → Except Fault Unit
  | faulted fault => .error fault
  | _ => .ok ()

end ExecState

end MipsLab
