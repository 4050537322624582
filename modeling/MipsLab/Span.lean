/-!
# Spans

Stretches of a source text, as half open ranges of byte offsets, and the places that a message is
about.
-/

namespace MipsLab

/-- The bytes of a source text from `start` up to, but not including, `stop`. -/
structure Span where
  start : Nat
  stop : Nat
  deriving DecidableEq, Repr, Inhabited

def Span.isEmpty (s : Span) : Bool := s.stop ≤ s.start

/-- The places that a message is about, the primary one first. -/
inductive Spans
  | one (place : Span)
  | two (primary secondary : Span)
  | many (places : List Span)
  deriving DecidableEq, Repr

namespace Spans

def toList : Spans → List Span
  | one place => [place]
  | two primary secondary => [primary, secondary]
  | many places => places

/-- Places from a list: a single place and a pair have forms of their own. -/
def ofList : List Span → Spans
  | [place] => one place
  | [primary, secondary] => two primary secondary
  | places => many places

/-- The primary place, if there is any place at all. -/
def first? (s : Spans) : Option Span := s.toList.head?

end Spans

end MipsLab
