import MipsLab.Span
import MipsLab.Text.Blank
import MipsLab.Text.Offset

/-!
# Source texts

A source text with the places of its line breaks, for turning byte offsets into lines, columns and
character indices, and for reading back single lines. Lines count from zero here; a text has one
line more than it has newlines, so its last line may be empty.
-/

namespace MipsLab

namespace Source

/-- The offsets of the newlines of a text that starts at `offset`. -/
def newlines (offset : Nat) : List Char → List Nat
  | [] => []
  | c :: cs =>
    if c = '\n' then offset :: newlines (offset + 1) cs
    else newlines (offset + c.utf8Size) cs

end Source

/-- A source text. -/
structure Source where
  chars : List Char
  /-- Where each line ends: at its newline, and the last one at the end of the text. -/
  breaks : List Nat := Source.newlines 0 chars ++ [Text.byteLength chars]

namespace Source

/-- The source text of a string. -/
def ofString (s : String) : Source := { chars := s.toList }

def text (s : Source) : String := String.ofList s.chars

/-- The length of the text in bytes. -/
def length (s : Source) : Nat := Text.byteLength s.chars

def lineCount (s : Source) : Nat := s.breaks.length

/-- The characters of a span. -/
def slice (s : Source) (span : Span) : List Char :=
  Text.takeBytes (span.stop - span.start) (Text.dropBytes span.start s.chars)

/-- Where a line starts: after the newline of the line before. -/
def lineStart (s : Source) (line : Nat) : Nat :=
  match line with
  | 0 => 0
  | previous + 1 => (s.breaks[previous]?).elim 0 (· + 1)

/-- A line with its newline. -/
def rawLine? (s : Source) (line : Nat) : Option Span :=
  (s.breaks[line]?).map fun stop => ⟨s.lineStart line, min (stop + 1) s.length⟩

/-- A line without the white space around it. A line of nothing else is an empty span. -/
def line? (s : Source) (line : Nat) : Option Span :=
  (s.rawLine? line).map fun raw =>
    let text := s.slice raw
    let start := raw.start + (Text.byteLength text - Text.byteLength (Text.trimStart text))
    let stop := raw.stop - (Text.byteLength text - Text.byteLength (Text.trimEnd text))
    ⟨start, max stop start⟩

/-- The text of a line without the white space around it. -/
def readLine? (s : Source) (line : Nat) : Option String :=
  (s.line? line).map fun span => String.ofList (s.slice span)

/-- The line of an offset: the number of line breaks before it. Offsets beyond the end belong to the
last line. -/
def lineOf (s : Source) (offset : Nat) : Nat :=
  min (s.breaks.countP (· < offset)) (s.lineCount - 1)

/-- The line of an offset, and the number of bytes from the start of that line. -/
def position (s : Source) (offset : Nat) : Nat × Nat :=
  (s.lineOf offset, offset - s.lineStart (s.lineOf offset))

/-- The number of characters before an offset. -/
def charIndex (s : Source) (offset : Nat) : Nat := Text.charIndex s.chars offset

/-- A short description, which does not show the text. -/
def summary (s : Source) : String :=
  s!"SourceInfo \x7b lines: {s.lineCount}, .. \x7d"

end Source

end MipsLab
