import MipsLab.Diagnostic
import MipsLab.Immediate
import MipsLab.Register
import MipsLab.Word

/-!
# Tokens

The units that a source text is made of, the ways in which a text fails to be one, and the wording
of both in messages.
-/

namespace MipsLab

/-- A unit of a source text. -/
inductive Token
  /-- A number without a sign, or the code point of a character literal. -/
  | unsigned (value : Word)
  /-- A number after a minus sign; it is at least `Word.minSigned`. -/
  | signed (value : Int)
  | register (reg : Reg)
  /-- The name of a label or of an instruction. -/
  | identifier (name : String)
  /-- The name of a directive in lower case, without its dot. -/
  | directive (name : String)
  /-- The characters that a string literal stands for. -/
  | string (value : String)
  | colon
  | comma
  | leftParen
  | rightParen
  | plus
  | comment
  | newline
  deriving DecidableEq, Repr

/-- A token in the words of a message. -/
def Token.text : Token → String
  | unsigned value => s!"integer {value.toNat}"
  | signed value => s!"integer {value}"
  | register reg => s!"register {reg.name}"
  | identifier name => s!"identifier {name}"
  | directive name => s!"directive .{name}"
  | string _ => "string literal"
  | colon => "':'"
  | comma => "','"
  | leftParen => "'('"
  | rightParen => "')'"
  | plus => "'+'"
  | comment => "comment"
  | newline => "end of line"

/-- Why a stretch of text is no token. -/
inductive LexError
  /-- A number is beyond the 32-bit numbers of its kind. -/
  | outOfRange (kind : Signedness)
  | badHexDigit
  | badDecimalDigit
  /-- Nothing follows the mark of a hexadecimal number. -/
  | noHexDigits
  | unreadableInteger
  | unclosedString
  | badCharacter
  | unknownRegister
  /-- A character that no token starts with, or not in this place. -/
  | strayCharacter
  deriving DecidableEq, Repr

namespace LexError

def message : LexError → String
  | outOfRange kind => s!"numeric token does not fit 32-bit {kind.name} integer"
  | badHexDigit => "invalid hex literal"
  | badDecimalDigit => "invalid decimal literal"
  | noHexDigits => "invalid hex literal"
  | unreadableInteger => "could not parse integer"
  | unclosedString => "unclosed string literal"
  | badCharacter => "invalid character literal"
  | unknownRegister => "invalid register"
  | strayCharacter => "unrecognized symbol"

def help : LexError → Option String
  | outOfRange kind =>
    some (s!"the range for a 32-bit {kind.name} integer is "
      ++ s!"[{kind.lowest 32}, {kind.highest 32}]")
  | badHexDigit => some "a hex literal starts with '0x' and consists of 0-9, A-F"
  | badDecimalDigit => some "a decimal literal only consists of digits 0-9"
  | noHexDigits => some "there should be hex digits (0-9, A-F) here"
  | unreadableInteger => none
  | unclosedString => some "add a quote to the end of the string literal"
  | badCharacter => some "a character literal holds exactly one character, such as 'a' or '\\n'"
  | unknownRegister => some "registers are $0-$31 or named, such as $t0, $sp, $ra"
  | strayCharacter => some "this char does not occur in any token in MIPS assembly"

/-- The error as it is told to the user. -/
def diagnostic (e : LexError) : Diagnostic := { message := e.message, help := e.help }

end LexError

/-- A stretch of the source text that was read as one token, or found not to be one. -/
structure Lexeme where
  result : Except LexError Token
  span : Span
  deriving Repr

end MipsLab
