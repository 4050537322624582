import MipsLab.Program.SymbolTable

/-!
# Expansion

The machine instructions that an instruction stands for at its place. Their number does not depend
on the place, and they are normal by construction: a branch on one register gets `$zero` as its
second, and a store gets a width without an extension.
-/

namespace MipsLab

/-! ## Targets -/

/-- The offset of a branch at `pc`, in words from the instruction after it. -/
def BranchTarget.resolve (target : BranchTarget) (pc : Address) (symbols : SymbolTable) :
    Except AssemblyError SImm16 :=
  match target with
  | offset words => .ok words
  | label l => do
    let address ← symbols.resolve l
    if !address.isAligned 4 then throw (.single .misalignedTarget l.span)
    match Imm.ofInt? (((address.toNat : Int) - pc.toNat - 4).tdiv 4) with
    | .ok words => return words
    | .error cause => throw (.single (.branchTooFar cause) l.span)

/-- The number of the 256 MiB region that an address is in. -/
def Address.region (a : Address) : Nat := a.toNat / 0x10000000

/-- The place that an error about a jump target blames: the label, or else the jump. -/
def AddressExpr.blame (target : AddressExpr) (span : Span) : Span :=
  match target with
  | label l _ => l.span
  | value _ => span

/-- The index of a jump at `pc`: the number of a word within the region of the next instruction. -/
def AddressExpr.jumpIndex (target : AddressExpr) (pc : Address) (span : Span)
    (symbols : SymbolTable) : Except AssemblyError Word := do
  let address ← symbols.resolveExpr target
  if !address.isAligned 4 then throw (.single .misalignedTarget (target.blame span))
  if address.region ≠ (pc + 4 : Address).region then
    throw (.single .jumpOutOfRegion (target.blame span))
  return UInt32.ofNat (address.toNat / 4 % 0x4000000)

/-! ## Parts of words -/

def Word.upperHalf (w : Word) : UImm16 := Imm.truncate (w.toNat / 0x10000 : Nat)

def Word.lowerHalf (w : Word) : UImm16 := Imm.truncate (w.toNat : Int)

/-- The lower half of a word as an offset with a sign. -/
def Word.lowerOffset (w : Word) : SImm16 := Imm.truncate (w.toNat : Int)

/-- What stands in the upper half of a base for which `lowerOffset` leads to a word. -/
def Word.upperBase (w : Word) : UImm16 := (w + 0x8000 : Word).upperHalf

/-! ## Instructions -/

/-- The width of the same size that a store can have. -/
def Width.unextended : Width → Width
  | byte | byteu => byte
  | half | halfu => half
  | word => word

namespace SourceInstr

/-- A branch on one register or two. -/
def makeBranch (cond : BranchCond) (rs rt : Reg) (offset : SImm16) : Instr :=
  .branch cond rs (if cond.isBinary then rt else Reg.zero) offset

/-- Puts a number into a register: with one instruction if an immediate can hold it. -/
def loadNumber (rt : Reg) (value : Word) : List Instr :=
  if value.toNat ≤ 0xFFFF then [.aluImm .ori rt Reg.zero value.lowerHalf]
  else if fitsImmediate value then [.aluImm .addiu rt Reg.zero value.lowerHalf]
  else [.lui rt value.upperHalf, .aluImm .ori rt rt value.lowerHalf]

def loadAddress (rt : Reg) (address : Address) : List Instr :=
  [.lui Reg.scratch (Word.upperHalf address), .aluImm .ori rt Reg.scratch (Word.lowerHalf address)]

/-- A branch on a comparison: the test goes to the scratch register, as whether the one register is
less than the other, and the branch is on that or on its contrary. -/
def compareAndBranch (cmp : Comparison) (rs rt : Reg) (offset : SImm16) : List Instr :=
  let (left, right, cond) : Reg × Reg × BranchCond :=
    match cmp with
    | .lt => (rs, rt, .bne)
    | .gt => (rt, rs, .bne)
    | .le => (rt, rs, .beq)
    | .ge => (rs, rt, .beq)
  [.alu .slt Reg.scratch left right, .branch cond Reg.scratch Reg.zero offset]

/-- The machine instructions of the instruction at `pc`; `span` is where it is written. -/
def expand (i : SourceInstr) (pc : Address) (span : Span) (symbols : SymbolTable) :
    Except AssemblyError (List Instr) :=
  match i with
  | alu op rd rs rt => .ok [.alu op rd rs rt]
  | shift op rd rt amount => .ok [.shift op rd rt amount]
  | jr rs => .ok [.jr rs]
  | jalr rd rs => .ok [.jalr rd rs]
  | mulDiv op rs rt => .ok [.mulDiv op rs rt]
  | moveFrom part rd => .ok [.moveFrom part rd]
  | moveTo part rs => .ok [.moveTo part rs]
  | syscall => .ok [.syscall]
  | brk => .ok [.brk]
  | aluImm op rt rs imm => .ok [.aluImm op rt rs imm]
  | lui rt imm => .ok [.lui rt imm]
  | branch cond rs rt target => do return [makeBranch cond rs rt (← target.resolve pc symbols)]
  | load width rt (.based offset base) => .ok [.load width rt base offset]
  | store width rt (.based offset base) => .ok [.store width.unextended rt base offset]
  | load width rt (.direct target) => do
    let address : Word ← symbols.resolveExpr target
    return [.lui Reg.scratch address.upperBase, .load width rt Reg.scratch address.lowerOffset]
  | store width rt (.direct target) => do
    let address : Word ← symbols.resolveExpr target
    return [.lui Reg.scratch address.upperBase,
      .store width.unextended rt Reg.scratch address.lowerOffset]
  | j target => do return [.j (← target.jumpIndex pc span symbols)]
  | jal target => do return [.jal (← target.jumpIndex pc span symbols)]
  | li rt value => .ok (loadNumber rt value)
  | la rt target => do return loadAddress rt (← symbols.resolveExpr target)
  | move rd rs => .ok [.alu .addu rd rs Reg.zero]
  | nop => .ok [Instr.nop]
  | b target => do return [.branch .beq Reg.zero Reg.zero (← target.resolve pc symbols)]
  | beqz rs target => do return [.branch .beq rs Reg.zero (← target.resolve pc symbols)]
  | bnez rs target => do return [.branch .bne rs Reg.zero (← target.resolve pc symbols)]
  | compare cmp rs rt target => do
    return compareAndBranch cmp rs rt (← target.resolve (pc + 4) symbols)
  | neg rd rs => .ok [.alu .sub rd Reg.zero rs]
  | not rd rs => .ok [.alu .nor rd rs Reg.zero]

end SourceInstr

end MipsLab
