/-!
# JSON strings

Texts as JSON writes them: between double quotes, with short escapes for the characters that have
one and numbers for all other control characters. Every other character stands for itself.
-/

namespace MipsLab.Text

/-- The digit of a number below 16, as a small letter from ten on. -/
def jsonDigit (d : Nat) : Char := Char.ofNat (if d < 10 then d + 48 else d + 87)

/-- A character between the quotes of a JSON string. -/
def jsonEscape (c : Char) : List Char :=
  match c with
  | '"' => ['\\', '"']
  | '\\' => ['\\', '\\']
  | '\n' => ['\\', 'n']
  | '\r' => ['\\', 'r']
  | '\t' => ['\\', 't']
  | '\x08' => ['\\', 'b']
  | '\x0C' => ['\\', 'f']
  | c =>
    if c.toNat < 0x20 then
      ['\\', 'u', '0', '0', jsonDigit (c.toNat / 16), jsonDigit (c.toNat % 16)]
    else [c]

def jsonString (s : String) : String :=
  String.ofList ('"' :: s.toList.flatMap jsonEscape ++ ['"'])

end MipsLab.Text
