import MipsLab.Instr
import MipsLab.Span
import MipsLab.Text.Offset

/-!
# Statements

What a source text says: a list of statements, each an instruction or a directive with the labels
that stand before it. Instructions may name labels where the machine wants numbers, and some of them
stand for several machine instructions; both are resolved when the place of the statement is known.
How much room a statement takes is known without its place.
-/

namespace MipsLab

/-! ## Operands -/

/-- A label where it is written. -/
structure Label where
  name : String
  /-- The byte offset of its first character. -/
  start : Nat
  deriving DecidableEq, Repr

/-- Where a label is written. -/
def Label.span (l : Label) : Span := ⟨l.start, l.start + Text.byteLength l.name.toList⟩

/-- An address, as it is written. -/
inductive AddressExpr
  /-- Some bytes beyond a label, or before it if `offset` is negative. -/
  | label (label : Label) (offset : Int)
  | value (address : Address)
  deriving DecidableEq, Repr

/-- An address expression in the notation of a source text. -/
def AddressExpr.text : AddressExpr → String
  | label l offset =>
    if offset = 0 then l.name
    else if 0 < offset then l.name ++ s!"+{offset}"
    else l.name ++ s!"{offset}"
  | value a => String.ofList ('0' :: 'x' :: Numeral.upperHex a.toNat)

/-- Where a branch goes. -/
inductive BranchTarget
  | label (label : Label)
  /-- A number of words, counted from the instruction after the branch. -/
  | offset (words : SImm16)
  deriving DecidableEq, Repr

/-- The memory operand of a load or store. -/
inductive MemOperand
  | based (offset : SImm16) (base : Reg)
  /-- An address of 32 bits, which takes an instruction more than the access itself. -/
  | direct (address : AddressExpr)
  deriving DecidableEq, Repr

/-- Signed comparisons of two registers that a branch can be made on. -/
inductive Comparison
  | lt | gt | le | ge
  deriving DecidableEq, Repr

namespace Comparison

def all : List Comparison := [lt, gt, le, ge]

/-- The name of the branch on a comparison. -/
def mnemonic : Comparison → String
  | lt => "blt" | gt => "bgt" | le => "ble" | ge => "bge"

/-- The comparison of the branch with a name. -/
def ofMnemonic? (m : String) : Option Comparison := all.find? (·.mnemonic = m)

end Comparison

/-! ## Instructions -/

/-- An instruction as it is written in a source text. -/
inductive SourceInstr
  | alu (op : AluOp) (rd rs rt : Reg)
  | shift (op : ShiftOp) (rd rt : Reg) (amount : Shamt)
  | jr (rs : Reg)
  | jalr (rd rs : Reg)
  | mulDiv (op : MulDivOp) (rs rt : Reg)
  | moveFrom (part : HiLo) (rd : Reg)
  | moveTo (part : HiLo) (rs : Reg)
  | syscall
  | brk
  | aluImm (op : ImmOp) (rt rs : Reg) (imm : UImm16)
  | lui (rt : Reg) (imm : UImm16)
  | branch (cond : BranchCond) (rs rt : Reg) (target : BranchTarget)
  | load (width : Width) (rt : Reg) (operand : MemOperand)
  | store (width : Width) (rt : Reg) (operand : MemOperand)
  | j (target : AddressExpr)
  | jal (target : AddressExpr)
  /-- Puts a number into a register. -/
  | li (rt : Reg) (value : Word)
  /-- Puts an address into a register. -/
  | la (rt : Reg) (address : AddressExpr)
  | move (rd rs : Reg)
  | nop
  /-- Branches always. -/
  | b (target : BranchTarget)
  | beqz (rs : Reg) (target : BranchTarget)
  | bnez (rs : Reg) (target : BranchTarget)
  | compare (cmp : Comparison) (rs rt : Reg) (target : BranchTarget)
  | neg (rd rs : Reg)
  | not (rd rs : Reg)
  deriving DecidableEq, Repr

namespace SourceInstr

/-- Whether a number fits the immediate of one instruction, extended with zeros or with its sign. -/
def fitsImmediate (value : Word) : Bool :=
  value.toNat ≤ 0xFFFF || Signedness.signed.wrap 16 (Word.signed value) == Word.signed value

/-- How many machine instructions an instruction stands for. -/
def wordCount : SourceInstr → Nat
  | li _ value => if fitsImmediate value then 1 else 2
  | la _ _ => 2
  | load _ _ (.direct _) => 2
  | store _ _ (.direct _) => 2
  | compare .. => 2
  | _ => 1

end SourceInstr

/-! ## Directives -/

/-- A directive. -/
inductive Directive
  /-- What follows belongs to the text segment. -/
  | text
  /-- What follows belongs to the data segment. -/
  | data
  /-- Makes a label known to other programs. -/
  | globl (label : Label)
  | word (values : List AddressExpr)
  | half (values : List UInt16)
  | byte (values : List UInt8)
  | ascii (value : String)
  /-- A string with a zero byte behind it. -/
  | asciiz (value : String)
  /-- A number of zero bytes. -/
  | space (size : Word)
  /-- Goes on at a multiple of a power of two. -/
  | align (exponent : Fin 17)
  deriving DecidableEq, Repr

namespace Directive

/-- How many bytes a directive puts into the data segment, beside the padding before them. -/
def byteCount : Directive → Nat
  | text | data | globl _ | align _ => 0
  | word values => 4 * values.length
  | half values => 2 * values.length
  | byte values => values.length
  | ascii value => Text.byteLength value.toList
  | asciiz value => Text.byteLength value.toList + 1
  | space size => size.toNat

/-- The place of a directive's bytes is a multiple of this. -/
def alignment : Directive → Nat
  | word _ => 4
  | half _ => 2
  | align exponent => 2 ^ exponent.val
  | _ => 1

/-- Whether a directive belongs into the data segment. -/
def isData : Directive → Bool
  | text | data | globl _ => false
  | _ => true

end Directive

/-! ## Statements -/

/-- An instruction or a directive. -/
inductive Body
  | instr (instr : SourceInstr)
  | directive (directive : Directive)
  deriving DecidableEq, Repr

/-- A statement. Labels on a line of their own belong to the next statement; behind the last one
they make a statement without a body. -/
structure Statement where
  labels : List Label
  body : Option Body
  /-- Where the body is written, or the last label if there is no body. -/
  span : Span
  deriving DecidableEq, Repr

end MipsLab
