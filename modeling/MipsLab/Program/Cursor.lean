import MipsLab.Program.AssemblyError
import MipsLab.Statement

/-!
# Location counters

A program has two segments, each with a start of its own, and a statement goes to the next free
place of the current segment. `Cursor.place?` says where a statement goes, and `Cursor.advance?`
makes room for it; both passes of the assembler walk through the statements with these two steps.
-/

namespace MipsLab

/-- The segment of the instructions and the segment of the data. -/
inductive Segment
  | text
  | data
  deriving DecidableEq, Repr

/-- The address at which a segment starts. -/
def Segment.start : Segment → Nat
  | text => 0x00400000
  | data => 0x10010000

/-- The next free address of both segments, and the segment that statements go to. -/
structure Cursor where
  segment : Segment
  text : Nat
  data : Nat
  deriving DecidableEq, Repr

namespace Cursor

/-- Both segments are empty, and statements go to the text segment. -/
def initial : Cursor := { segment := .text, text := Segment.text.start, data := Segment.data.start }

/-- The next free address of the current segment. -/
def current (c : Cursor) : Nat :=
  match c.segment with
  | .text => c.text
  | .data => c.data

/-- Goes on at an address of the current segment. -/
def moveTo (c : Cursor) (address : Nat) : Cursor :=
  match c.segment with
  | .text => { c with text := address }
  | .data => { c with data := address }

/-- Goes to the place of a body: into its segment for a directive that switches segments, and to its
alignment for a data directive. Nothing if the body does not belong into the current segment. -/
def place? (c : Cursor) (body : Option Body) : Option Cursor :=
  match body with
  | some (.directive .text) => some { c with segment := .text }
  | some (.directive .data) => some { c with segment := .data }
  | some (.directive d) =>
    if d.isData then
      match c.segment with
      | .text => none
      | .data => some { c with data := roundUp c.data d.alignment }
    else some c
  | some (.instr _) =>
    match c.segment with
    | .text => some c
    | .data => none
  | none => some c

/-- Makes room for some bytes in the current segment, if it can hold them. -/
def advance? (c : Cursor) (size : Nat) : Option Cursor :=
  if c.current + size - c.segment.start ≤ segmentLimit then some (c.moveTo (c.current + size))
  else none

end Cursor

def Body.byteCount : Body → Nat
  | instr i => 4 * i.wordCount
  | directive d => d.byteCount

end MipsLab
