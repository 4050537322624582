import MipsLab.Instr.Encoding
import MipsLab.Program.SymbolTable
import MipsLab.Source

/-!
# Programs

An assembled program: the instructions of the text segment, the lines that they come from, the bytes
of the data segment, the labels, and the source text.
-/

namespace MipsLab

/-- An assembled program. -/
structure Program where
  /-- The instructions, from the start of the text segment. -/
  text : Array Instr
  /-- The line that each instruction comes from, counting from one. -/
  lines : Array Nat
  /-- The bytes, from the start of the data segment. -/
  data : ByteArray
  /-- Where execution starts. -/
  entry : Address
  symbols : SymbolTable
  source : Source

namespace Program

/-- The address of an instruction by its index. -/
def addressOf (index : Nat) : Address := UInt32.ofNat (Segment.text.start + 4 * index)

/-- The index of the instruction at an address. -/
def index? (p : Program) (a : Address) : Option Nat :=
  if Segment.text.start ≤ a.toNat ∧ a.isAligned 4 ∧ (a.toNat - Segment.text.start) / 4 < p.text.size
  then some ((a.toNat - Segment.text.start) / 4)
  else none

def instrAt? (p : Program) (a : Address) : Option Instr := (p.index? a).bind (p.text[·]?)

/-- The line of the instruction at an address. -/
def lineAt? (p : Program) (a : Address) : Option Nat := (p.index? a).bind (p.lines[·]?)

/-- The address of the first instruction of a line. -/
def addressOfLine? (p : Program) (line : Nat) : Option Address :=
  (p.lines.findIdx? (· = line)).map addressOf

/-- The instructions with their addresses and their lines. -/
def listing (p : Program) : List (Address × Instr × Nat) :=
  (p.text.toList.zip p.lines.toList).zipIdx.map fun (code, index) => (addressOf index, code)

def words (p : Program) : List Word := p.text.toList.map Instr.encode

end Program

end MipsLab
