import MipsLab.Instr.Encoding
import MipsLab.Machine.Instruction

/-!
# Steps and runs

One instruction, and runs of instructions until something ends them: a goal that is reached, a
breakpoint, or an instruction that does not lead on. A run may need any number of instructions, so
its loop is given a number of attempts that it may make, and says when that is used up; it can then
be taken up again, like a run that waits for input.
-/

namespace MipsLab

namespace Machine

/-! ## One instruction -/

/-- Attempts the instruction at the current address. -/
def step (m : Machine) : StepEnd × Machine :=
  match m.memory.textWord? m.pc with
  | none => m.fail (.pcOutsideText m.pc)
  | some word =>
    match Instr.decode? word with
    | none => m.fail (.illegalInstruction word)
    | some i => m.execute i

/-- The state that a machine is in after an instruction that does not lead on. -/
def stateOf (m : Machine) : Stop → ExecState
  | .halt reason => .halted reason
  | .pause => .paused .breakInstruction
  | .cancelled => .paused .readCancelled
  | .fault error => .faulted (m.faultOf error)

end Machine

/-! ## Runs -/

/-- How the attempt at an instruction of a run ends. -/
inductive Attempt
  | goesOn
  /-- The run ends with it, in a state. -/
  | ends (state : ExecState)
  | waits
  deriving DecidableEq, Repr

/-- Attempts an instruction of a run. A breakpoint counts after one that would lead on. -/
def Machine.attempt (m : Machine) : Attempt × Machine :=
  match m.step with
  | (.ran, m) => (if m.atBreakpoint then .ends (.paused .breakpoint) else .goesOn, m)
  | (.stopped stop, m) => (.ends (m.stateOf stop), m)
  | (.waiting, m) => (.waits, m)

/-- How far a run or step has come. -/
inductive Progress
  /-- It has ended, with a fault or without. -/
  | ended (result : Except Fault Unit)
  /-- It waits for input. -/
  | waiting
  /-- It has made all the attempts that it was allowed. -/
  | unfinished
  deriving Repr

/-- What a run is for. -/
inductive Goal
  | unlimited
  /-- Until some instructions more have been completed than `start`. -/
  | count (start limit : Nat)
  /-- As long as a condition is true. -/
  | whileTrue (condition : Machine → Bool)
  /-- One instruction or more, until no more calls are open than now. -/
  | overCall (depth : Nat)
  /-- One instruction or more, until fewer calls are open than now. -/
  | outOfCall (depth : Nat)

/-- Why a run ends before the next instruction, if its goal is reached; `begun` tells whether it has
attempted one. -/
def Goal.reached? (g : Goal) (begun : Bool) (m : Machine) : Option PauseReason :=
  match g with
  | unlimited => none
  | count start limit => if m.completed - start < limit then none else some .tripwire
  | whileTrue condition => if condition m then none else some .tripwire
  | overCall depth => if !begun || depth < m.calls.depth then none else some .step
  | outOfCall depth => if !begun || depth ≤ m.calls.depth then none else some .step

namespace Machine

/-- Ends a run or step in a state. -/
def endIn (m : Machine) (state : ExecState) : Progress × Machine :=
  (.ended state.result, m.enter state)

/-- Goes on with a run, for at most `fuel` attempts. -/
def runFrom (goal : Goal) : Nat → Bool → Machine → Progress × Machine
  | 0, _, m => (.unfinished, m)
  | fuel + 1, begun, m =>
    match goal.reached? begun m with
    | some reason => m.endIn (.paused reason)
    | none =>
      match m.attempt with
      | (.goesOn, m) => runFrom goal fuel true m
      | (.ends state, m) => m.endIn state
      | (.waits, m) => (.waiting, m)

/-- Runs towards a goal. A machine that has ended stays as it is and gives back how it ended. -/
def runTo (m : Machine) (goal : Goal) (fuel : Nat) : Progress × Machine :=
  if m.state.isTerminal then (.ended m.state.result, m)
  else runFrom goal fuel false { m with state := .running }

def run (m : Machine) (fuel : Nat) : Progress × Machine := m.runTo .unlimited fuel

/-- Runs until some more instructions have been completed. -/
def runLimited (m : Machine) (limit fuel : Nat) : Progress × Machine :=
  m.runTo (.count m.completed limit) fuel

/-- Runs as long as a condition is true. -/
def runWhileTrue (m : Machine) (condition : Machine → Bool) (fuel : Nat) : Progress × Machine :=
  m.runTo (.whileTrue condition) fuel

/-- Runs as long as the condition of a breakpoint is met. -/
def runWhile (m : Machine) (condition : Breakpoint) (fuel : Nat) : Progress × Machine :=
  m.runWhileTrue (·.meets condition) fuel

/-- Executes an instruction, and all of the call that it makes. -/
def stepOver (m : Machine) (fuel : Nat) : Progress × Machine :=
  m.runTo (.overCall m.calls.depth) fuel

/-- Runs until the latest call has returned. Without an open call nothing happens. -/
def stepOut (m : Machine) (fuel : Nat) : Progress × Machine :=
  if m.calls.depth = 0 then (.ended (.ok ()), m) else m.runTo (.outOfCall m.calls.depth) fuel

def stepIn (m : Machine) : Progress × Machine :=
  if m.state.isTerminal then (.ended m.state.result, m)
  else
    match m.step with
    | (.ran, m) => m.endIn (.paused .step)
    | (.stopped stop, m) => m.endIn (m.stateOf stop)
    | (.waiting, m) => (.waiting, m)

/-- Stops execution for good, unless it has ended. -/
def stop (m : Machine) : Machine :=
  if m.state.isTerminal then m else m.enter (.halted .stopped)

end Machine

end MipsLab
