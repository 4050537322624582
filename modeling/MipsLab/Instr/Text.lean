import MipsLab.Instr

/-!
# Disassembly

Machine instructions in the notation of the source texts: registers by name, immediates that are
extended with zeros in hexadecimal and all others in decimal, branch offsets as numbers of words,
and jumps with the address that their index stands for.
-/

namespace MipsLab.Instr

/-- A number in hexadecimal capitals after `0x`. -/
def hexText (n : Nat) : String := String.ofList ('0' :: 'x' :: Numeral.upperHex n)

def decimalText (n : Int) : String := String.ofList (Numeral.signedDecimal n)

def line (mnemonic : String) (operands : List String) : String :=
  mnemonic ++ " " ++ ", ".intercalate operands

/-- A memory operand: an offset and the register that it is added to. -/
def basedText (offset : SImm16) (base : Reg) : String :=
  decimalText offset.value ++ "(" ++ base.name ++ ")"

/-- The address that a jump index stands for, within the lowest region. -/
def jumpText (index : Word) : String := Word.text (UInt32.ofNat (index.toNat * 4))

/-- An immediate operand, in the notation of its operation. -/
def immText (op : ImmOp) (imm : UImm16) : String :=
  if op.zeroExtends then hexText imm.toNat else decimalText (Word.signed (extendedImm op imm))

/-- An instruction as it is written in a source text. -/
def text : Instr → String
  | alu op rd rs rt =>
    if op.isVariableShift then line op.mnemonic [rd.name, rt.name, rs.name]
    else line op.mnemonic [rd.name, rs.name, rt.name]
  | shift op rd rt amount => line op.mnemonic [rd.name, rt.name, decimalText amount.value]
  | jr rs => line "jr" [rs.name]
  | jalr rd rs => line "jalr" [rd.name, rs.name]
  | mulDiv op rs rt => line op.mnemonic [rs.name, rt.name]
  | moveFrom .hi rd => line "mfhi" [rd.name]
  | moveFrom .lo rd => line "mflo" [rd.name]
  | moveTo .hi rs => line "mthi" [rs.name]
  | moveTo .lo rs => line "mtlo" [rs.name]
  | syscall => "syscall"
  | brk => "break"
  | aluImm op rt rs imm => line op.mnemonic [rt.name, rs.name, immText op imm]
  | lui rt imm => line "lui" [rt.name, hexText imm.toNat]
  | branch cond rs rt offset =>
    if cond.isBinary then line cond.mnemonic [rs.name, rt.name, decimalText offset.value]
    else line cond.mnemonic [rs.name, decimalText offset.value]
  | load width rt base offset => line width.loadMnemonic [rt.name, basedText offset base]
  | store width rt base offset => line width.storeMnemonic [rt.name, basedText offset base]
  | j index => line "j" [jumpText index]
  | jal index => line "jal" [jumpText index]

end MipsLab.Instr
