import MipsLab.Span

/-!
# Diagnostics

What an error tells the user: one sentence, advice if there is any, the places in the source text
that it is about, and the errors that caused it.
-/

namespace MipsLab

/-- An error, as it is told to the user. -/
structure Diagnostic where
  message : String
  help : Option String := none
  /-- The places in the source text, for errors that have one. -/
  spans : Option Spans := none
  /-- The messages of the errors underneath, the immediate cause first. -/
  causes : List String := []
  deriving DecidableEq, Repr

end MipsLab
