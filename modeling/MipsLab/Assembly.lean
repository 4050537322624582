import MipsLab.Problem
import MipsLab.Program.Emission
import MipsLab.Statement.Parser

/-!
# Assembly

From a source text to a program, with all problems of the text at once. The program is there even if
there are problems, and should then not be run.
-/

namespace MipsLab

/-- A program and the problems of its source text, from top to bottom. -/
structure Assembly where
  program : Program
  problems : List Problem

namespace Assembly

/-- The problem of a program that there is nothing wrong with, and nothing in. -/
def noInstructions : Problem :=
  { message := "program has no instructions"
    help := some "add instructions to the .text segment"
    location := .nowhere }

def isOk (a : Assembly) : Bool := a.problems.isEmpty

/-- The program, or the problems if there are any. -/
def toExcept (a : Assembly) : Except (List Problem) Program :=
  if a.isOk then .ok a.program else .error a.problems

end Assembly

def assemble (source : Source) : Assembly :=
  let (statements, parseErrors) := parse source.chars
  let (program, assemblyErrors) := Program.ofStatements statements source
  let found :=
    (parseErrors.map ParseError.diagnostic ++ assemblyErrors.map AssemblyError.diagnostic).map
      (Problem.ofDiagnostic · source)
  let problems :=
    if found.isEmpty && program.text.isEmpty then [Assembly.noInstructions] else found
  { program, problems := Problem.sort problems }

end MipsLab
