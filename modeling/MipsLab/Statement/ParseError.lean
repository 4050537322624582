import MipsLab.Immediate
import MipsLab.Token

/-!
# Parse errors

Why a line of a source text is not a statement, and how that is told.
-/

namespace MipsLab

/-- What is wrong with a line. -/
inductive ParseCause
  /-- A stretch of the line is no token. -/
  | lexical (cause : LexError)
  /-- Something else is wanted here than the token found, or than the end of the line. -/
  | expected (wanted : String) (found : Option Token)
  | unknownInstruction (mnemonic : String)
  | unknownDirective (name : String)
  /-- A number does not fit its operand. -/
  | immediate (cause : ImmError)
  /-- A number is outside the range that a directive or pseudo-instruction admits. -/
  | outOfRange (low high : Int)
  deriving DecidableEq, Repr

/-- What is wrong with a line, and where. -/
structure ParseError where
  cause : ParseCause
  span : Span
  deriving DecidableEq, Repr

namespace ParseCause

def message : ParseCause → String
  | lexical cause => cause.message
  | expected wanted (some token) => s!"expected {wanted}, found {token.text}"
  | expected wanted none => s!"expected {wanted}, found end of line"
  | unknownInstruction mnemonic => s!"unknown instruction '{mnemonic}'"
  | unknownDirective name => s!"unknown directive '.{name}'"
  | immediate cause => cause.message
  | outOfRange low high => s!"value must be between {low} and {high}"

def help : ParseCause → Option String
  | lexical cause => cause.help
  | immediate cause => some cause.help
  | unknownInstruction _ => some "instructions are written in lowercase, such as 'add' or 'lw'"
  | unknownDirective _ =>
    some ("supported directives are .text, .data, .globl, .word, .half, .byte, .ascii, .asciiz, "
      ++ ".space, .align")
  | _ => none

def causes : ParseCause → List String
  | lexical cause => [cause.message]
  | immediate cause => [cause.message]
  | _ => []

end ParseCause

/-- The error as it is told to the user. -/
def ParseError.diagnostic (e : ParseError) : Diagnostic :=
  { message := e.cause.message
    help := e.cause.help
    spans := some (.one e.span)
    causes := e.cause.causes }

end MipsLab
