import MipsLab.Immediate
import MipsLab.Register
import MipsLab.Word

/-!
# Machine instructions

The instructions that the machine executes, one per 32-bit word. Branch offsets count words from the
instruction after the branch; a jump holds the index of a word within the 256 MiB region of the
instruction after it.

`Instr.Normal` describes the instructions that have a word of their own: the others are encoded as
a normal instruction too, so that decoding does not give them back.
-/

namespace MipsLab

/-! ## Operations -/

/-- Operations on two registers (`op rd, rs, rt`). The variable shifts shift `rt` by `rs`, and are
written `op rd, rt, rs`. -/
inductive AluOp
  | add | addu | sub | subu | and | or | xor | nor | slt | sltu | sllv | srlv | srav | mul
  deriving DecidableEq, Repr

/-- Shifts by a constant amount (`op rd, rt, amount`). -/
inductive ShiftOp
  | sll | srl | sra
  deriving DecidableEq, Repr

/-- Operations whose result is the pair of `hi` and `lo` (`op rs, rt`). -/
inductive MulDivOp
  | mult | multu | div | divu
  deriving DecidableEq, Repr

/-- The two registers beside the general purpose ones. -/
inductive HiLo
  | hi | lo
  deriving DecidableEq, Repr

/-- Operations on a register and an immediate (`op rt, rs, imm`). -/
inductive ImmOp
  | addi | addiu | slti | sltiu | andi | ori | xori
  deriving DecidableEq, Repr

/-- Branch conditions: `beq` and `bne` compare two registers, the others one register with zero. -/
inductive BranchCond
  | beq | bne | blez | bgtz | bltz | bgez
  deriving DecidableEq, Repr

/-- How many bytes a load or store moves, and how a load extends them. -/
inductive Width
  | byte | byteu | half | halfu | word
  deriving DecidableEq, Repr

namespace AluOp

def all : List AluOp :=
  [add, addu, sub, subu, and, or, xor, nor, slt, sltu, sllv, srlv, srav, mul]

/-- The name of an operation in a source text. -/
def mnemonic : AluOp → String
  | add => "add" | addu => "addu" | sub => "sub" | subu => "subu" | and => "and" | or => "or"
  | xor => "xor" | nor => "nor" | slt => "slt" | sltu => "sltu" | sllv => "sllv" | srlv => "srlv"
  | srav => "srav" | mul => "mul"

/-- Whether the amount of a shift is taken from a register. -/
def isVariableShift : AluOp → Bool
  | sllv | srlv | srav => true
  | _ => false

def ofMnemonic? (m : String) : Option AluOp := all.find? (·.mnemonic = m)

end AluOp

namespace ShiftOp

def all : List ShiftOp := [sll, srl, sra]

/-- The name of an operation in a source text. -/
def mnemonic : ShiftOp → String
  | sll => "sll" | srl => "srl" | sra => "sra"

def ofMnemonic? (m : String) : Option ShiftOp := all.find? (·.mnemonic = m)

end ShiftOp

namespace MulDivOp

def all : List MulDivOp := [mult, multu, div, divu]

/-- The name of an operation in a source text. -/
def mnemonic : MulDivOp → String
  | mult => "mult" | multu => "multu" | div => "div" | divu => "divu"

def ofMnemonic? (m : String) : Option MulDivOp := all.find? (·.mnemonic = m)

end MulDivOp

namespace ImmOp

def all : List ImmOp := [addi, addiu, slti, sltiu, andi, ori, xori]

/-- The name of an operation in a source text. -/
def mnemonic : ImmOp → String
  | addi => "addi" | addiu => "addiu" | slti => "slti" | sltiu => "sltiu" | andi => "andi"
  | ori => "ori" | xori => "xori"

/-- Whether the immediate is extended with zeros; otherwise its sign is. -/
def zeroExtends : ImmOp → Bool
  | andi | ori | xori => true
  | _ => false

def ofMnemonic? (m : String) : Option ImmOp := all.find? (·.mnemonic = m)

end ImmOp

namespace BranchCond

def all : List BranchCond := [beq, bne, blez, bgtz, bltz, bgez]

/-- The name of a condition in a source text. -/
def mnemonic : BranchCond → String
  | beq => "beq" | bne => "bne" | blez => "blez" | bgtz => "bgtz" | bltz => "bltz" | bgez => "bgez"

def isBinary : BranchCond → Bool
  | beq | bne => true
  | _ => false

/-- Whether a condition holds of the two register values; the comparisons with zero are signed. -/
def holds (cond : BranchCond) (rs rt : Word) : Bool :=
  match cond with
  | beq => rs = rt
  | bne => rs ≠ rt
  | blez => Word.signed rs ≤ 0
  | bgtz => 0 < Word.signed rs
  | bltz => Word.signed rs < 0
  | bgez => 0 ≤ Word.signed rs

def ofMnemonic? (m : String) : Option BranchCond := all.find? (·.mnemonic = m)

end BranchCond

namespace Width

def all : List Width := [byte, byteu, half, halfu, word]

/-- The widths that a store is written with. -/
def allStores : List Width := [byte, half, word]

/-- The number of bytes that are moved. -/
def size : Width → Nat
  | byte | byteu => 1
  | half | halfu => 2
  | word => 4

/-- The name of a load in a source text. -/
def loadMnemonic : Width → String
  | byte => "lb" | byteu => "lbu" | half => "lh" | halfu => "lhu" | word => "lw"

/-- The name of a store in a source text; a store does not extend, so there are only three. -/
def storeMnemonic : Width → String
  | byte | byteu => "sb"
  | half | halfu => "sh"
  | word => "sw"

/-- The width of the load with a name. -/
def ofLoadMnemonic? (m : String) : Option Width := all.find? (·.loadMnemonic = m)

/-- The width of the store with a name. -/
def ofStoreMnemonic? (m : String) : Option Width := allStores.find? (·.storeMnemonic = m)

end Width

/-! ## Instructions -/

/-- A machine instruction. -/
inductive Instr
  | alu (op : AluOp) (rd rs rt : Reg)
  | shift (op : ShiftOp) (rd rt : Reg) (amount : Shamt)
  | jr (rs : Reg)
  | jalr (rd rs : Reg)
  | mulDiv (op : MulDivOp) (rs rt : Reg)
  | moveFrom (part : HiLo) (rd : Reg)
  | moveTo (part : HiLo) (rs : Reg)
  | syscall
  | brk
  /-- The immediate is kept as the raw 16 bits of its field. -/
  | aluImm (op : ImmOp) (rt rs : Reg) (imm : UImm16)
  | lui (rt : Reg) (imm : UImm16)
  /-- The conditions on one register have `$zero` in the place of `rt`. -/
  | branch (cond : BranchCond) (rs rt : Reg) (offset : SImm16)
  | load (width : Width) (rt base : Reg) (offset : SImm16)
  | store (width : Width) (rt base : Reg) (offset : SImm16)
  | j (index : Word)
  | jal (index : Word)
  deriving DecidableEq, Repr

namespace Instr

/-- The instruction that does nothing, which stands in for one that could not be made. -/
def nop : Instr := shift .sll Reg.zero Reg.zero (Imm.truncate 0)

/-- The value of an immediate operand, extended to a word as its operation wants it. -/
def extendedImm (op : ImmOp) (imm : UImm16) : Word :=
  if op.zeroExtends then Word.ofInt imm.value else Word.ofInt (Signedness.signed.wrap 16 imm.value)

/-- The instructions that are the decoding of their own word: one-register branches leave `rt`
unused, stores have no extension, and jump indices are within their 26 bits. -/
def Normal : Instr → Prop
  | branch cond _ rt _ => cond.isBinary = true ∨ rt = Reg.zero
  | store width _ _ _ => width ∈ Width.allStores
  | j index | jal index => index.toNat < 0x4000000
  | _ => True

instance : DecidablePred Normal := fun i => by
  cases i <;> unfold Normal <;> infer_instance

end Instr

end MipsLab
