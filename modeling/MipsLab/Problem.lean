import MipsLab.Diagnostic
import MipsLab.Source

/-!
# Problems

What the assembler reports about a source text: a message, advice, and a place as a line and a range
of character indices. Lines count from one, and both ends of the range are part of it. Where a place
is given in numbers, they are signed integers of 64 bits, so that one of them can stand for a place
that is missing.
-/

namespace MipsLab

/-- Where a problem is. -/
inductive Location
  | nowhere
  | line (number : Nat)
  | range (number start stop : Nat)
  deriving DecidableEq, Repr

namespace Location

/-- The number that stands for a missing line or character index. -/
def missing : Int := -1

/-- A range that does not end before it starts. -/
def mkRange (number start stop : Nat) : Location := .range number start (max stop start)

/-- The place of a span. The last character of a span is part of its range; an empty span gives the
index of the character at it. -/
def ofSpan (span : Span) (source : Source) : Location :=
  let start := source.charIndex span.start
  let stop := if span.isEmpty then start else source.charIndex span.stop - 1
  mkRange (source.lineOf span.start + 1) start stop

/-- A count as a signed integer of 64 bits: from `2 ^ 63` on, counts come out negative. -/
def ofCount (n : Nat) : Int := Int.bmod n 0x10000000000000000

/-- Counts that fit in 64 bits with a sign stay what they are. -/
theorem ofCount_of_lt {n : Nat} (h : n < 0x8000000000000000) : ofCount n = n :=
  Int.bmod_eq_of_le (by omega) (by omega)

def lineNumber : Location → Int
  | nowhere => missing
  | line number => ofCount number
  | range number _ _ => ofCount number

/-- The index of the first character. -/
def rangeStart : Location → Int
  | range _ start _ => ofCount start
  | _ => missing

/-- The index of the last character. -/
def rangeEnd : Location → Int
  | range _ _ stop => ofCount stop
  | _ => missing

def hasLine (l : Location) : Bool := l.lineNumber != missing

/-- What precedes a message about a place. -/
def heading : Location → String
  | nowhere => ""
  | line number => s!"line {number}: "
  | range number start stop => s!"line {number} [{start}..={stop}]: "

end Location

/-- A reported problem. -/
structure Problem where
  message : String
  help : Option String := none
  location : Location
  deriving DecidableEq, Repr

namespace Problem

def ofSpan (message : String) (span : Span) (source : Source) : Problem :=
  { message, location := Location.ofSpan span source }

/-- An error as a problem of a source text, at the error's primary place. -/
def ofDiagnostic (d : Diagnostic) (source : Source) : Problem :=
  { message := d.message
    help := d.help
    location := ((d.spans.bind Spans.first?).map (Location.ofSpan · source)).getD .nowhere }

def withHelp (p : Problem) (help : String) : Problem := { p with help := some help }

def text (p : Problem) : String := p.location.heading ++ p.message

/-- Problems are listed from the top of the text to its end, and the ones without a place last. -/
def inOrder (p q : Problem) : Bool :=
  let key (p : Problem) := (p.location.lineNumber, p.location.rangeStart)
  match p.location.hasLine, q.location.hasLine with
  | true, false => true
  | false, true => false
  | _, _ => (key p).1 < (key q).1 || (key p).1 == (key q).1 && (key p).2 ≤ (key q).2

/-- Problems in the order of their places; the order of those at one place is kept. -/
def sort (problems : List Problem) : List Problem := problems.mergeSort inOrder

end Problem

end MipsLab
