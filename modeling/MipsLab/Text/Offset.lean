/-!
# Byte offsets in a text

Positions in a text count the bytes of its UTF-8 form, while the text itself is a list of
characters. This module measures and cuts lists of characters by bytes.
-/

namespace MipsLab.Text

/-- The number of bytes of a text in UTF-8. -/
def byteLength : List Char → Nat
  | [] => 0
  | c :: cs => c.utf8Size + byteLength cs

/-- The text without the characters that start before a byte offset. -/
def dropBytes : Nat → List Char → List Char
  | _, [] => []
  | 0, cs => cs
  | n, c :: cs => dropBytes (n - c.utf8Size) cs

/-- The characters of a text that start before a byte offset. -/
def takeBytes : Nat → List Char → List Char
  | _, [] => []
  | 0, _ => []
  | n, c :: cs => c :: takeBytes (n - c.utf8Size) cs

/-- The number of characters before a byte offset. Inside a character it is that character's index,
and beyond the end every further byte counts as one character more. -/
def charIndex : List Char → Nat → Nat
  | [], n => n
  | c :: cs, n => if n < c.utf8Size then 0 else charIndex cs (n - c.utf8Size) + 1

@[simp] theorem byteLength_append (before after : List Char) :
    byteLength (before ++ after) = byteLength before + byteLength after := by
  induction before with
  | nil => simp [byteLength]
  | cons c cs ih => simp [byteLength, ih, Nat.add_assoc]

end MipsLab.Text
