import MipsLab.Assembly
import MipsLab.CommandLine.Files
import MipsLab.CommandLine.Session
import MipsLab.Problem.Record

/-!
# The command line

From a request and the file that it names to an answer, or to a session that runs the file's
program.
-/

namespace MipsLab.CommandLine

/-- What the command line answers at once: an exit code, lines to print, and notes to the user. -/
structure Answer where
  code : UInt8
  printed : List String := []
  notes : List String := []
  deriving DecidableEq, Repr

/-- What becomes of a request. -/
inductive Response
  | answer (answer : Answer)
  | session (session : Session)

def Request.path : Request → String
  | check path _ => path
  | run options => options.path

/-- The source text in the bytes of a file. -/
def sourceOfBytes (bytes : List UInt8) : Except FileError Source :=
  match Text.decode? bytes with
  | some chars => .ok { chars }
  | none => .error .notText

/-! ## Checking -/

def check (path : String) (asJson : Bool) (source : Source) : Answer :=
  let problems := (assemble source).problems
  let code := if problems.isEmpty then 0 else unusableCode
  if asJson then { code, printed := [Problem.records problems] }
  else { code, notes := problemLines path problems }

/-! ## Running -/

/-- How the machine of a run is set up. -/
def flagsOf (o : RunOptions) : Flags :=
  let d : Flags := {}
  { d with
    heapBudget := o.heapSize.getD d.heapBudget
    stackBudget := o.stackSize.getD d.stackBudget
    init := (o.seed.map fun seed => MachineInit.seeded (UInt64.ofNat seed)).getD d.init
    trapOverflow := !o.wraps
    delay := o.delay }

/-- Whether a session steps through the program itself. -/
def isDirect (o : RunOptions) : Bool := o.isTraced || o.maxSteps.isSome

/-- The breakpoints at some labels, or the first label that there is not. -/
def breakpointsOf (program : Program) (labels : List String) : Except String (List Breakpoint) :=
  labels.mapM fun label =>
    match program.symbols.address? label with
    | some address => .ok (.pc address)
    | none => .error label

/-- Sets up a session for a program. -/
def startSession (o : RunOptions) (program : Program) (breakpoints : List Breakpoint) : Session :=
  let loaded := (Machine.create (flagsOf o)).load program
  let machine := breakpoints.foldl (fun m b => (m.addBreakpoint b).2) loaded
  let machine := { machine with console := .channel {} }
  { options := o, program
    execution :=
      if isDirect o then .direct machine
      else .background ((Worker.ofMachine machine).send .resume) }

def run (o : RunOptions) (source : Source) : Response :=
  match (assemble source).toExcept with
  | .error problems => .answer { code := unusableCode, notes := problemLines o.path problems }
  | .ok program =>
    match breakpointsOf program o.breaks with
    | .error label =>
      .answer { code := unusableCode, notes := ["error: no label named " ++ Text.quoted label] }
    | .ok breakpoints => .session (startSession o program breakpoints)

/-- Responds to a request, given what its file holds. -/
def respond (request : Request) (file : Except FileError (List UInt8)) : Response :=
  match file.bind sourceOfBytes, request with
  | .error e, _ =>
    .answer
      { code := unusableCode
        notes := ["error: cannot read " ++ request.path ++ ": " ++ e.message] }
  | .ok source, .check path asJson => .answer (check path asJson source)
  | .ok source, .run options => run options source

end MipsLab.CommandLine
