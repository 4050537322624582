import MipsLab.Instr

/-!
# Machine code

The word of an instruction, and the instruction of a word. A word has its operation code in the top
six bits; below it stand either three registers, a shift amount and a function code, or two
registers and sixteen immediate bits, or the 26 bits of a jump index. Fields are put together and
taken apart by multiplying and dividing, so that what holds of them is plain arithmetic.

Decoding ignores the fields that an instruction does not use.
-/

namespace MipsLab

/-! ## Codes -/

namespace AluOp

def funct : AluOp → Nat
  | sllv => 0x04 | srlv => 0x06 | srav => 0x07 | add => 0x20 | addu => 0x21 | sub => 0x22
  | subu => 0x23 | and => 0x24 | or => 0x25 | xor => 0x26 | nor => 0x27 | slt => 0x2A
  | sltu => 0x2B | mul => 0x02

/-- The operation of a function code under the operation code zero. The product has an operation
code of its own. -/
def ofFunct? (code : Nat) : Option AluOp :=
  all.find? fun op => op ≠ mul ∧ op.funct = code

end AluOp

/-- The function code of a constant shift. -/
def ShiftOp.funct : ShiftOp → Nat
  | sll => 0x00 | srl => 0x02 | sra => 0x03

/-- The function code of a product or quotient. -/
def MulDivOp.funct : MulDivOp → Nat
  | mult => 0x18 | multu => 0x19 | div => 0x1A | divu => 0x1B

/-- The operation code of an operation with an immediate. -/
def ImmOp.opcode : ImmOp → Nat
  | addi => 0x08 | addiu => 0x09 | slti => 0x0A | sltiu => 0x0B | andi => 0x0C | ori => 0x0D
  | xori => 0x0E

namespace Width

def loadOpcode : Width → Nat
  | byte => 0x20 | half => 0x21 | word => 0x23 | byteu => 0x24 | halfu => 0x25

def storeOpcode : Width → Nat
  | byte | byteu => 0x28
  | half | halfu => 0x29
  | word => 0x2B

end Width

namespace Instr

/-! ## Encoding -/

/-- A word of three registers, a shift amount and a function code. -/
def registerFields (rs rt rd : Reg) (amount funct : Nat) : Nat :=
  rs.val * 0x200000 + rt.val * 0x10000 + rd.val * 0x800 + amount * 0x40 + funct

/-- A word of an operation code, two registers and sixteen immediate bits. -/
def immediateFields (opcode : Nat) (rs rt : Reg) (bits : Nat) : Nat :=
  opcode * 0x4000000 + rs.val * 0x200000 + rt.val * 0x10000 + bits

/-- A word of an operation code and a jump index, of which the low 26 bits count. -/
def jumpFields (opcode : Nat) (index : Word) : Nat :=
  opcode * 0x4000000 + index.toNat % 0x4000000

/-- The number whose 32 binary digits are the machine code of an instruction. -/
def code : Instr → Nat
  | alu .mul rd rs rt => 0x1C * 0x4000000 + registerFields rs rt rd 0 AluOp.mul.funct
  | alu op rd rs rt => registerFields rs rt rd 0 op.funct
  | shift op rd rt amount => registerFields 0 rt rd amount.field op.funct
  | jr rs => registerFields rs 0 0 0 0x08
  | jalr rd rs => registerFields rs 0 rd 0 0x09
  | mulDiv op rs rt => registerFields rs rt 0 0 op.funct
  | moveFrom .hi rd => registerFields 0 0 rd 0 0x10
  | moveFrom .lo rd => registerFields 0 0 rd 0 0x12
  | moveTo .hi rs => registerFields rs 0 0 0 0x11
  | moveTo .lo rs => registerFields rs 0 0 0 0x13
  | syscall => 0x0C
  | brk => 0x0D
  | aluImm op rt rs imm => immediateFields op.opcode rs rt imm.field
  | lui rt imm => immediateFields 0x0F 0 rt imm.field
  | branch .beq rs rt offset => immediateFields 0x04 rs rt offset.field
  | branch .bne rs rt offset => immediateFields 0x05 rs rt offset.field
  | branch .blez rs _ offset => immediateFields 0x06 rs 0 offset.field
  | branch .bgtz rs _ offset => immediateFields 0x07 rs 0 offset.field
  | branch .bltz rs _ offset => immediateFields 0x01 rs 0 offset.field
  | branch .bgez rs _ offset => immediateFields 0x01 rs 1 offset.field
  | load width rt base offset => immediateFields width.loadOpcode base rt offset.field
  | store width rt base offset => immediateFields width.storeOpcode base rt offset.field
  | j index => jumpFields 0x02 index
  | jal index => jumpFields 0x03 index

def encode (i : Instr) : Word := UInt32.ofNat i.code

/-! ## Decoding -/

/-- The register in the field whose unit is `unit`. -/
def registerAt (unit word : Nat) : Reg := Fin.ofNat 32 (word / unit)

/-- Decodes a word with the operation code zero. -/
def decodeSpecial? (word : Nat) : Option Instr :=
  let rs := registerAt 0x200000 word
  let rt := registerAt 0x10000 word
  let rd := registerAt 0x800 word
  let amount : Shamt := Imm.truncate (word / 0x40 : Nat)
  match word % 0x40 with
  | 0x00 => some (shift .sll rd rt amount)
  | 0x02 => some (shift .srl rd rt amount)
  | 0x03 => some (shift .sra rd rt amount)
  | 0x08 => some (jr rs)
  | 0x09 => some (jalr rd rs)
  | 0x0C => some syscall
  | 0x0D => some brk
  | 0x10 => some (moveFrom .hi rd)
  | 0x11 => some (moveTo .hi rs)
  | 0x12 => some (moveFrom .lo rd)
  | 0x13 => some (moveTo .lo rs)
  | 0x18 => some (mulDiv .mult rs rt)
  | 0x19 => some (mulDiv .multu rs rt)
  | 0x1A => some (mulDiv .div rs rt)
  | 0x1B => some (mulDiv .divu rs rt)
  | funct => (AluOp.ofFunct? funct).map (alu · rd rs rt)

/-- Decodes a word by its operation code. -/
def decodeFields? (opcode word : Nat) : Option Instr :=
  let rs := registerAt 0x200000 word
  let rt := registerAt 0x10000 word
  let rd := registerAt 0x800 word
  let bits : UImm16 := Imm.truncate (word : Int)
  let offset : SImm16 := Imm.truncate (word : Int)
  match opcode with
  | 0x00 => decodeSpecial? word
  | 0x01 =>
    if rt = 0 then some (branch .bltz rs 0 offset)
    else if rt = 1 then some (branch .bgez rs 0 offset)
    else none
  | 0x02 => some (j (UInt32.ofNat (word % 0x4000000)))
  | 0x03 => some (jal (UInt32.ofNat (word % 0x4000000)))
  | 0x04 => some (branch .beq rs rt offset)
  | 0x05 => some (branch .bne rs rt offset)
  | 0x06 => some (branch .blez rs 0 offset)
  | 0x07 => some (branch .bgtz rs 0 offset)
  | 0x08 => some (aluImm .addi rt rs bits)
  | 0x09 => some (aluImm .addiu rt rs bits)
  | 0x0A => some (aluImm .slti rt rs bits)
  | 0x0B => some (aluImm .sltiu rt rs bits)
  | 0x0C => some (aluImm .andi rt rs bits)
  | 0x0D => some (aluImm .ori rt rs bits)
  | 0x0E => some (aluImm .xori rt rs bits)
  | 0x0F => some (lui rt bits)
  | 0x1C => if word % 0x40 = 0x02 then some (alu .mul rd rs rt) else none
  | 0x20 => some (load .byte rt rs offset)
  | 0x21 => some (load .half rt rs offset)
  | 0x23 => some (load .word rt rs offset)
  | 0x24 => some (load .byteu rt rs offset)
  | 0x25 => some (load .halfu rt rs offset)
  | 0x28 => some (store .byte rt rs offset)
  | 0x29 => some (store .half rt rs offset)
  | 0x2B => some (store .word rt rs offset)
  | _ => none

/-- The instruction of a word, if the word is one. -/
def decode? (w : Word) : Option Instr := decodeFields? (w.toNat / 0x4000000) w.toNat

end Instr

end MipsLab
