import MipsLab.Statement.Operand
import MipsLab.Text.Lowercase

/-!
# Instructions and directives of a line

The operands of every instruction and directive. The name of an instruction counts in capitals and
small letters alike.
-/

namespace MipsLab

namespace LineReader

/-! ## Instructions -/

/-- The operands of an operation on registers. The variable shifts are written with the shifted
register first. -/
def aluOperands (op : AluOp) : LineReader SourceInstr := do
  let rd ← registerComma
  let first ← registerComma
  let second ← register
  return if op.isVariableShift then .alu op rd second first else .alu op rd first second

def shiftOperands (op : ShiftOp) : LineReader SourceInstr := do
  let rd ← registerComma
  let rt ← registerComma
  return .shift op rd rt (← immediate)

/-- The operands of a product or quotient. -/
def mulDivOperands (op : MulDivOp) : LineReader SourceInstr := do
  let rs ← registerComma
  return .mulDiv op rs (← register)

/-- The operands of an operation with an immediate. -/
def immOperands (op : ImmOp) : LineReader SourceInstr := do
  let rt ← registerComma
  let rs ← registerComma
  return .aluImm op rt rs (← operationImmediate op)

/-- The operands of a branch: two registers or one, and the target. -/
def branchOperands (cond : BranchCond) : LineReader SourceInstr := do
  let rs ← registerComma
  let rt ← if cond.isBinary then registerComma else pure Reg.zero
  return .branch cond rs rt (← branchTarget)

def loadOperands (width : Width) : LineReader SourceInstr := do
  let rt ← registerComma
  return .load width rt (← memOperand)

def storeOperands (width : Width) : LineReader SourceInstr := do
  let rt ← registerComma
  return .store width rt (← memOperand)

/-- The operands of a branch on a comparison. -/
def compareOperands (cmp : Comparison) : LineReader SourceInstr := do
  let rs ← registerComma
  let rt ← registerComma
  return .compare cmp rs rt (← branchTarget)

/-- The operands of a linking jump to a register. The return address goes to `$ra` unless another
register comes first. -/
def jalrOperands : LineReader SourceInstr := do
  let first ← register
  if ← skip? .comma then return .jalr first (← register)
  else return .jalr Reg.ra first

/-- A register and what belongs into it. -/
def withRegister {α : Type} (make : Reg → α → SourceInstr) (operand : LineReader α) :
    LineReader SourceInstr := do
  let reg ← registerComma
  return make reg (← operand)

/-- The operands of the instructions that are alone in their format. -/
def otherOperands? (mnemonic : String) : Option (LineReader SourceInstr) :=
  match mnemonic with
  | "jr" => some (SourceInstr.jr <$> register)
  | "jalr" => some jalrOperands
  | "mfhi" => some (SourceInstr.moveFrom .hi <$> register)
  | "mflo" => some (SourceInstr.moveFrom .lo <$> register)
  | "mthi" => some (SourceInstr.moveTo .hi <$> register)
  | "mtlo" => some (SourceInstr.moveTo .lo <$> register)
  | "syscall" => some (pure .syscall)
  | "break" => some (pure .brk)
  | "nop" => some (pure .nop)
  | "lui" => some (withRegister .lui immediate)
  | "j" => some (SourceInstr.j <$> addressExpr)
  | "jal" => some (SourceInstr.jal <$> addressExpr)
  | "li" =>
    some (withRegister (fun rt n => .li rt (Word.ofInt n))
      (integerIn Word.minSigned Word.maxUnsigned))
  | "la" => some (withRegister .la addressExpr)
  | "move" => some (withRegister .move register)
  | "b" => some (SourceInstr.b <$> branchTarget)
  | "beqz" => some (withRegister .beqz branchTarget)
  | "bnez" => some (withRegister .bnez branchTarget)
  | "neg" => some (withRegister .neg register)
  | "not" => some (withRegister .not register)
  | _ => none

/-- The operands of the instruction with a name, in small letters. -/
def instrOperands? (mnemonic : String) : Option (LineReader SourceInstr) :=
  (AluOp.ofMnemonic? mnemonic).map aluOperands
    <|> (ShiftOp.ofMnemonic? mnemonic).map shiftOperands
    <|> (MulDivOp.ofMnemonic? mnemonic).map mulDivOperands
    <|> (ImmOp.ofMnemonic? mnemonic).map immOperands
    <|> (BranchCond.ofMnemonic? mnemonic).map branchOperands
    <|> (Width.ofLoadMnemonic? mnemonic).map loadOperands
    <|> (Width.ofStoreMnemonic? mnemonic).map storeOperands
    <|> (Comparison.ofMnemonic? mnemonic).map compareOperands
    <|> otherOperands? mnemonic

/-- Reads the operands of the instruction that is named at a place. -/
def instr (mnemonic : String) (span : Span) : LineReader SourceInstr :=
  match instrOperands? (Text.asciiLowercase mnemonic) with
  | some operands => operands
  | none => failAt (.unknownInstruction mnemonic) span

/-! ## Directives -/

def label : LineReader Label := do
  match ← label? with
  | some label => return label
  | none => expected "label"

/-- The operands of the directive with a name. -/
def directiveOperands? (name : String) : Option (LineReader Directive) :=
  match name with
  | "text" => some (pure .text)
  | "data" => some (pure .data)
  | "globl" | "global" => some (Directive.globl <$> label)
  | "word" => some (Directive.word <$> items addressExpr)
  | "half" =>
    some (Directive.half <$> items do
      return UInt16.ofNat (Word.ofInt (← integerIn (-0x8000) 0xFFFF)).toNat)
  | "byte" =>
    some (Directive.byte <$> items do
      return UInt8.ofNat (Word.ofInt (← integerIn (-0x80) 0xFF)).toNat)
  | "ascii" => some (Directive.ascii <$> string)
  | "asciiz" => some (Directive.asciiz <$> string)
  | "space" => some do return .space (Word.ofInt (← integerIn 0 Word.maxUnsigned))
  | "align" => some do return .align (Fin.ofNat 17 (← integerIn 0 16).toNat)
  | _ => none

/-- Reads the operands of the directive that is named at a place. -/
def directive (name : String) (span : Span) : LineReader Directive :=
  match directiveOperands? name with
  | some operands => operands
  | none => failAt (.unknownDirective name) span

/-! ## The body of a line -/

def lineEnd : LineReader Unit := do
  if (← peek).isSome then expected "end of line"

/-- Reads an instruction or directive that fills the rest of the line. -/
def body : LineReader Body := do
  let found ←
    match ← get with
    | ⟨.directive name, span⟩ :: rest =>
      set rest
      Body.directive <$> directive name span
    | ⟨.identifier name, span⟩ :: rest =>
      set rest
      Body.instr <$> instr name span
    | _ => expected "instruction, directive, or label"
  lineEnd
  return found

end LineReader

end MipsLab
