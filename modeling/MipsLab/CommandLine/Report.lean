import MipsLab.CommandLine.Request
import MipsLab.Machine.Run
import MipsLab.Problem

/-!
# Reports

The lines that tell the user about problems of a source text and about a run: the instructions that
are executed, the registers at a pause, and faults with the line of the source text that they come
from.
-/

namespace MipsLab.CommandLine

def helpLine (help : Option String) : List String := (help.map ("    help: " ++ ·)).toList

/-- The lines about the problems of a file. -/
def problemLines (path : String) (problems : List Problem) : List String :=
  problems.flatMap fun p => (path ++ ": " ++ p.text) :: helpLine p.help

/-- The text of a line of the source, counting from one. -/
def sourceLine? (program : Program) (line : Nat) : Option String :=
  if line = 0 then none else program.source.readLine? (line - 1)

/-- A text with blanks behind it, up to a width. -/
def padRight (width : Nat) (s : String) : String := String.ofList (s.toList.rightpad width ' ')

/-- A text with blanks before it, up to a width. -/
def padLeft (width : Nat) (s : String) : String := String.ofList (s.toList.leftpad width ' ')

/-- The line about the instruction at an address, with the line of the source that it comes from. -/
def traceLine (program : Program) (pc : Address) : String :=
  let instr := ((program.instrAt? pc).map Instr.text).getD ""
  let origin := (program.lineAt? pc).bind fun line =>
    (sourceLine? program line).map fun text => s!"{line}: {text}"
  match origin with
  | some origin => pc.text ++ "  " ++ padRight 24 instr ++ " # " ++ origin
  | none => pc.text ++ "  " ++ instr

def registerCell (name : String) (value : Word) : String := padLeft 5 name ++ " = " ++ value.text

/-- Cuts a list into rows of a length. -/
def rows {α : Type} (length : Nat) (items : List α) : List (List α) :=
  (List.range ((items.length + length - 1) / length)).map fun i =>
    (items.drop (i * length)).take length

/-- All registers, four to a line, and then `hi` and `lo`. -/
def registerLines (regs : Registers) : List String :=
  let cells := Reg.all.map fun r => registerCell r.name (regs.get r)
  (rows 4 cells).map (fun row => "  " ++ "  ".intercalate row)
    ++ ["  " ++ registerCell "hi" regs.hi ++ "  " ++ registerCell "lo" regs.lo]

/-- The lines about a pause: why and where it is, and the registers. -/
def pauseLines (program : Program) (reason : PauseReason) (pc : Address) (regs : Registers) :
    List String :=
  let label := ((program.symbols.nameAt? pc).map fun name => " (" ++ name ++ ")").getD ""
  (reason.text ++ " at " ++ pc.text ++ label) :: registerLines regs

def faultLines (program : Program) (fault : Fault) : List String :=
  ("fault: " ++ fault.message)
    :: ((fault.line.bind (sourceLine? program)).map ("    " ++ ·)).toList
    ++ helpLine fault.error.help

end MipsLab.CommandLine
