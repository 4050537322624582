import MipsLab.Problem
import MipsLab.Text.JsonString

/-!
# Problems as records

The list of problems as a JSON array for other programs to read: a record for each problem, with its
place as three numbers, and a field to a line.
-/

namespace MipsLab.Problem

/-- The fields of a problem, by name and value. Advice is left out if there is none. -/
def recordFields (p : Problem) : List (String × String) :=
  [("message", Text.jsonString p.message)]
    ++ (p.help.map fun help => ("help", Text.jsonString help)).toList
    ++ [("line", toString p.location.lineNumber),
      ("rangeStart", toString p.location.rangeStart),
      ("rangeEnd", toString p.location.rangeEnd)]

/-- A problem as a record, as it stands in an array. -/
def record (p : Problem) : String :=
  let field (entry : String × String) : String :=
    "    " ++ Text.jsonString entry.1 ++ ": " ++ entry.2
  "  \x7b\n" ++ ",\n".intercalate (p.recordFields.map field) ++ "\n  \x7d"

def records (problems : List Problem) : String :=
  if problems.isEmpty then "[]"
  else "[\n" ++ ",\n".intercalate (problems.map record) ++ "\n]"

end MipsLab.Problem
