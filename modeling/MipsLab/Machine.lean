import MipsLab.Console
import MipsLab.Machine.Breakpoint
import MipsLab.Machine.CallStack
import MipsLab.Machine.Event
import MipsLab.Memory.Change
import MipsLab.Program

/-!
# The machine

A machine with its program, its console and its observers, and how it is set up: a new machine has
no program, loading a program resets the machine to the program's start.
-/

namespace MipsLab

/-- How a machine is set up and behaves. -/
structure Flags where
  /-- What registers, stack and heap hold at first. -/
  init : MachineInit := .known 0
  heapBudget : Nat := 0x400000
  stackBudget : Nat := 0x100000
  /-- Whether sums and differences that are out of range are faults. -/
  trapOverflow : Bool := true
  recordFrames : Bool := false
  /-- How many milliseconds to wait before each instruction, when running in the background. -/
  delay : Option Nat := none

/-- A machine. -/
structure Machine where
  registers : Registers
  /-- The address of the next instruction. -/
  pc : Address
  memory : Memory
  program : Option Program := none
  /-- How many instructions have been completed. -/
  completed : Nat := 0
  state : ExecState := .loaded
  calls : CallStack
  flags : Flags
  breakpoints : List Breakpoint := []
  console : Console := .closed
  events : EventBus := {}

namespace Machine

/-! ## Setting up -/

/-- The memory at the start of a program, or of none. -/
def initialMemory (flags : Flags) (program : Option Program) : Memory :=
  Memory.create ((program.map Program.words).getD []) ((program.map Program.data).getD .empty)
    flags.heapBudget flags.stackBudget flags.init

/-- Where a program starts, or the text segment if there is none. -/
def entry (program : Option Program) : Address :=
  (program.map Program.entry).getD (UInt32.ofNat Segment.text.start)

def create (flags : Flags) : Machine :=
  { registers := Registers.initial flags.init
    pc := entry none
    memory := initialMemory flags none
    calls := CallStack.empty flags.recordFrames
    flags }

/-- The machine at the start of its program, with the flags that it has by now. Breakpoints, console
and observers are kept. -/
def reset (m : Machine) : Machine :=
  { m with
    registers := m.registers.refill { stream := m.flags.init.registerWords }
    memory := initialMemory m.flags m.program
    pc := entry m.program
    completed := 0
    calls := CallStack.empty m.flags.recordFrames
    state := .loaded
    events := m.events.emit (.loaded (entry m.program)) }

/-- The machine at the start of a program. -/
def load (m : Machine) (p : Program) : Machine := { m with program := some p }.reset

/-! ## From outside -/

def setRegister (m : Machine) (r : Reg) (value : Word) : Machine :=
  { m with registers := m.registers.set r value }

/-- Changes the address of the next instruction. -/
def setPc (m : Machine) (pc : Address) : Machine := { m with pc }

/-- Replaces the word at an address, if it can be replaced. -/
def writeWord (m : Machine) (a : Address) (value : Word) : Except MemoryError Unit × Machine :=
  match (Memory.Change.writeWord a value).run m.memory with
  | .ok _ memory => (.ok (), { m with memory })
  | .error e memory => (.error e, { m with memory })

/-- Whether the machine has come to rest at a breakpoint, of either kind. -/
def hitBreakpoint (m : Machine) : Bool :=
  m.state = .paused .breakpoint || m.state = .paused .breakInstruction

/-- Whether execution has ended without a fault. -/
def hitHalt (m : Machine) : Bool :=
  match m.state with
  | .halted _ => true
  | _ => false

/-! ## Breakpoints -/

/-- Whether the condition of a breakpoint is met. -/
def meets (m : Machine) (b : Breakpoint) : Bool := b.holds m.pc m.registers m.memory

/-- Whether the condition of any breakpoint is met. -/
def atBreakpoint (m : Machine) : Bool := m.breakpoints.any m.meets

/-- Adds a breakpoint, and tells whether it is new. -/
def addBreakpoint (m : Machine) (b : Breakpoint) : Bool × Machine :=
  if m.breakpoints.contains b then (false, m)
  else (true, { m with breakpoints := b :: m.breakpoints })

/-- Takes a breakpoint away, and tells whether it was there. -/
def removeBreakpoint (m : Machine) (b : Breakpoint) : Bool × Machine :=
  (m.breakpoints.contains b, { m with breakpoints := m.breakpoints.filter (· ≠ b) })

/-! ## States -/

/-- Enters a state, and tells the observers. -/
def enter (m : Machine) (state : ExecState) : Machine :=
  { m with
    state
    events :=
      match Event.ofState? m.pc state with
      | some event => m.events.emit event
      | none => m.events }

/-- The fault of an error at the next instruction. -/
def faultOf (m : Machine) (error : ExecError) : Fault :=
  { pc := m.pc, line := m.program.bind (·.lineAt? m.pc), error }

end Machine

end MipsLab
