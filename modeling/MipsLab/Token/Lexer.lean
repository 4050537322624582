import MipsLab.Text.Lowercase
import MipsLab.Text.Offset
import MipsLab.Text.WordCharacter
import MipsLab.Token

/-!
# Lexing

Cuts a source text into lexemes. Spaces, tabs and carriage returns separate lexemes and belong to
none. The first character of a lexeme decides its kind; names and numbers then go on for as long as
their characters do, so that `12ab` is one bad number and not a number before a name. A character
that starts nothing is a lexeme of its own, and lexing goes on after it.

`scan` reads one lexeme and tells how many characters it takes beyond the first; `lexFrom` cuts them
off one by one, and ends because each lexeme takes at least its first character.
-/

namespace MipsLab

namespace Token

/-! ## Numbers -/

/-- The greatest number that is read, before its sign is looked at. -/
def maxMagnitude : Nat := Word.maxUnsigned

/-- Reads a number without a sign: decimal, or hexadecimal after `0x` or `0X`. -/
def readMagnitude (kind : Signedness) (cs : List Char) : Except LexError Nat :=
  let (base, digits, whenBad, whenEmpty) :=
    match cs with
    | '0' :: 'x' :: digits | '0' :: 'X' :: digits =>
      (16, digits, LexError.badHexDigit, LexError.noHexDigits)
    | digits => (10, digits, LexError.badDecimalDigit, LexError.badDecimalDigit)
  match Numeral.read base maxMagnitude digits with
  | .ok n => .ok n
  | .error .empty => .error whenEmpty
  | .error .badDigit => .error whenBad
  | .error .tooLarge => .error (.outOfRange kind)

/-- Reads a number that has no sign. -/
def readUnsigned (cs : List Char) : Except LexError Token :=
  (readMagnitude .unsigned cs).map fun n => unsigned (UInt32.ofNat n)

/-- Reads the number after a minus sign. The least number has a magnitude above the greatest. -/
def readNegative (cs : List Char) : Except LexError Token := do
  let magnitude ← readMagnitude .signed cs
  if -(magnitude : Int) < Word.minSigned then throw (.outOfRange .signed)
  return signed (-magnitude)

/-! ## Literals -/

/-- The character that a backslash and a character stand for. -/
def unescape? : Char → Option Char
  | 'n' => some '\n'
  | 'r' => some '\r'
  | 't' => some '\t'
  | '0' => some '\x00'
  | '\\' => some '\\'
  | '"' => some '"'
  | '\x27' => some '\x27'
  | _ => none

/-- The value of a character literal after its opening quote, and how many characters it takes with
its closing quote. -/
def charLiteral? : List Char → Option (Char × Nat)
  | '\\' :: escaped :: '\x27' :: _ => (unescape? escaped).map (·, 3)
  | '\\' :: _ => none
  | c :: '\x27' :: _ => if c = '\n' ∨ c = '\x27' then none else some (c, 2)
  | _ => none

/-- The rest of a line, without the characters that end it. -/
def restOfLine : List Char → List Char
  | [] => []
  | '\n' :: _ => []
  | '\r' :: '\n' :: _ => []
  | c :: cs => c :: restOfLine cs

/-- The characters that an escaped character stands for in a string: without a meaning of its own
it keeps its backslash. -/
def unescapeInString (c : Char) : List Char :=
  match unescape? c with
  | some meant => [meant]
  | none => ['\\', c]

/-- The value of a string literal after its opening quote, and how many characters it takes with its
closing quote, if the line has one. -/
def stringLiteral? : List Char → Option (List Char × Nat)
  | [] => none
  | ['\\'] => none
  | '\\' :: escaped :: cs =>
    (stringLiteral? cs).map fun (value, taken) => (unescapeInString escaped ++ value, taken + 2)
  | '"' :: _ => some ([], 1)
  | c :: cs => (stringLiteral? cs).map fun (value, taken) => (c :: value, taken + 1)

/-! ## Lexemes -/

def isSeparator (c : Char) : Bool := c == ' ' || c == '\t' || c == '\r'

/-- Whether an identifier goes on with a character. -/
def continuesName (c : Char) : Bool := Text.isWord c || c == '.'

/-- Reads the lexeme that starts with `c`, of which `rest` is the text behind it: a token or an
error, and the number of characters of `rest` that belong to it. -/
def scan (c : Char) (rest : List Char) : Except LexError Token × Nat :=
  if c = ':' then (.ok colon, 0)
  else if c = ',' then (.ok comma, 0)
  else if c = '(' then (.ok leftParen, 0)
  else if c = ')' then (.ok rightParen, 0)
  else if c = '+' then (.ok plus, 0)
  else if c = '\n' then (.ok newline, 0)
  else if c = '#' then (.ok comment, (rest.takeWhile (· != '\n')).length)
  else if c = '"' then
    let line := restOfLine rest
    match stringLiteral? line with
    | some (value, taken) => (.ok (string (String.ofList value)), taken)
    | none => (.error .unclosedString, line.length)
  else if c = '\x27' then
    match charLiteral? rest with
    | some (value, taken) => (.ok (unsigned value.val), taken)
    | none => (.error .badCharacter, 0)
  else if c = '$' then
    let name := rest.takeWhile Text.isWord
    match Reg.ofName? (String.ofList (c :: name)) with
    | some reg => (.ok (register reg), name.length)
    | none => (.error .unknownRegister, name.length)
  else if c = '-' then
    let digits := rest.takeWhile Text.isWord
    if (digits.head?.map Text.isDigit).getD false then (readNegative digits, digits.length)
    else (.error .strayCharacter, 0)
  else if c = '.' then
    let name := rest.takeWhile Text.isWord
    if (name.head?.map Text.isNameStart).getD false then
      (.ok (directive (Text.lower (String.ofList name))), name.length)
    else (.error .strayCharacter, 0)
  else if Text.isDigit c then
    let digits := rest.takeWhile Text.isWord
    (readUnsigned (c :: digits), digits.length)
  else if Text.isNameStart c then
    let name := rest.takeWhile continuesName
    (.ok (identifier (String.ofList (c :: name))), name.length)
  else (.error .strayCharacter, 0)

/-- The lexemes of a text that starts at a byte offset. -/
def lexFrom (offset : Nat) : List Char → List Lexeme
  | [] => []
  | c :: rest =>
    if isSeparator c then lexFrom (offset + c.utf8Size) rest
    else
      let (result, taken) := scan c rest
      let stop := offset + c.utf8Size + Text.byteLength (rest.take taken)
      ⟨result, ⟨offset, stop⟩⟩ :: lexFrom stop (rest.drop taken)
termination_by cs => cs.length
decreasing_by all_goals (simp only [List.length_cons, List.length_drop]; omega)

def lex (chars : List Char) : List Lexeme := lexFrom 0 chars

end Token

end MipsLab
