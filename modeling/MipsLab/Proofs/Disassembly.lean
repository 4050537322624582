import MipsLab.Proofs.Expansion
import MipsLab.Proofs.Lexing
import MipsLab.Proofs.Operands

/-!
# Disassembled instructions

The text of a machine instruction, taken through the lexer, the readers and the expansion one by
one.

1. `Instr.lexesTo_text`: which tokens the text is read as.
2. `Instr.body_run`: the readers make one instruction of these tokens.
3. `Instr.expand_source`: that instruction stands for the machine instruction and no other.
-/

namespace MipsLab

/-! ## Immediates and words -/

theorem Imm.unsigned_range {bits : Nat} (i : Imm .unsigned bits) :
    0 ≤ i.value ∧ i.value < (2 ^ bits : Nat) := by
  have hpos : (0 : Int) < (2 ^ bits : Nat) := Int.natCast_pos.mpr (Nat.two_pow_pos bits)
  rw [← i.fits]
  exact ⟨Int.emod_nonneg _ (Int.ne_of_gt hpos), Int.emod_lt_of_pos _ hpos⟩

theorem Imm.signed_range (i : SImm16) : -0x8000 ≤ i.value ∧ i.value < 0x8000 := by
  have hwrap : i.value.bmod (2 ^ 16) = i.value := i.fits
  have hlow := Int.le_bmod (x := i.value) (m := 2 ^ 16) (by decide)
  have hhigh := Int.bmod_lt (x := i.value) (m := 2 ^ 16) (by decide)
  rw [hwrap] at hlow hhigh
  exact ⟨hlow, hhigh⟩

theorem Word.signed_ofInt {n : Int} (hlow : Word.minSigned ≤ n) (hhigh : n ≤ Word.maxSigned) :
    Word.signed (Word.ofInt n) = n := by
  unfold Word.minSigned at hlow
  unfold Word.maxSigned at hhigh
  have hnat : (Word.ofInt n).toNat = (n % 0x100000000).toNat := by
    have hlt : (n % 0x100000000).toNat < UInt32.size := by
      show (n % 0x100000000).toNat < 0x100000000
      omega
    exact UInt32.toNat_ofNat_of_lt' hlt
  unfold Word.signed
  rw [hnat]
  split <;> omega

theorem Word.ofInt_toNat (w : Word) : Word.ofInt w.toNat = w := by
  have hlt := w.toNat_lt
  have hmod : ((w.toNat : Int) % 0x100000000).toNat = w.toNat := by omega
  unfold Word.ofInt
  rw [hmod, UInt32.ofNat_toNat]

namespace Token

theorem integer?_ofInt {n : Int} (h : n ≤ Word.maxUnsigned) : (ofInt n).integer? = some n := by
  unfold ofInt
  split
  · rfl
  · next hn =>
    have hlt : n.toNat < UInt32.size := by
      unfold Word.maxUnsigned at h
      show n.toNat < 0x100000000
      omega
    show some ((UInt32.ofNat n.toNat).toNat : Int) = some n
    rw [UInt32.toNat_ofNat_of_lt' hlt, Int.toNat_of_nonneg (Int.not_lt.mp hn)]

theorem name?_ofInt (n : Int) : (ofInt n).name? = none := by
  unfold ofInt
  split <;> rfl

theorem isInner_ofInt (n : Int) : (ofInt n).isInner = true := by
  unfold ofInt
  split <;> rfl

end Token

/-! ## Operands -/

def HiLo.moveFromMnemonic : HiLo → String
  | hi => "mfhi"
  | lo => "mflo"

def HiLo.moveToMnemonic : HiLo → String
  | hi => "mthi"
  | lo => "mtlo"

namespace Instr

section Operands

open Token (Written LexesTo)

def registerOperand (r : Reg) : Written := ⟨r.name, [.register r]⟩

def decimalOperand (n : Int) : Written := ⟨decimalText n, [.ofInt n]⟩

def hexOperand (imm : UImm16) : Written :=
  ⟨hexText imm.toNat, [.unsigned (UInt32.ofNat imm.toNat)]⟩

def immOperand (op : ImmOp) (imm : UImm16) : Written :=
  if op.zeroExtends then hexOperand imm else decimalOperand (Word.signed (extendedImm op imm))

def basedOperand (offset : SImm16) (base : Reg) : Written :=
  ⟨basedText offset base, [.ofInt offset.value, .leftParen, .register base, .rightParen]⟩

def jumpOperand (index : Word) : Written :=
  ⟨jumpText index, [.unsigned (UInt32.ofNat (index.toNat * 4))]⟩

/-- The operands of an instruction. -/
def operands : Instr → List Written
  | alu op rd rs rt =>
    if op.isVariableShift then [registerOperand rd, registerOperand rt, registerOperand rs]
    else [registerOperand rd, registerOperand rs, registerOperand rt]
  | shift _ rd rt amount => [registerOperand rd, registerOperand rt, decimalOperand amount.value]
  | jr rs => [registerOperand rs]
  | jalr rd rs => [registerOperand rd, registerOperand rs]
  | mulDiv _ rs rt => [registerOperand rs, registerOperand rt]
  | moveFrom _ rd => [registerOperand rd]
  | moveTo _ rs => [registerOperand rs]
  | syscall | brk => []
  | aluImm op rt rs imm => [registerOperand rt, registerOperand rs, immOperand op imm]
  | lui rt imm => [registerOperand rt, hexOperand imm]
  | branch cond rs rt offset =>
    if cond.isBinary then [registerOperand rs, registerOperand rt, decimalOperand offset.value]
    else [registerOperand rs, decimalOperand offset.value]
  | load _ rt base offset | store _ rt base offset =>
    [registerOperand rt, basedOperand offset base]
  | j index | jal index => [jumpOperand index]

/-- The name of an instruction. -/
def mnemonic : Instr → String
  | alu op .. => op.mnemonic
  | shift op .. => op.mnemonic
  | jr _ => "jr"
  | jalr .. => "jalr"
  | mulDiv op .. => op.mnemonic
  | moveFrom part _ => part.moveFromMnemonic
  | moveTo part _ => part.moveToMnemonic
  | syscall => "syscall"
  | brk => "break"
  | aluImm op .. => op.mnemonic
  | lui .. => "lui"
  | branch cond .. => cond.mnemonic
  | load width .. => width.loadMnemonic
  | store width .. => width.storeMnemonic
  | j _ => "j"
  | jal _ => "jal"

/-- The tokens of an instruction. -/
def tokens (i : Instr) : List Token := .identifier i.mnemonic :: Token.commaed i.operands

theorem immOperand_text (op : ImmOp) (imm : UImm16) :
    (immOperand op imm).text = immText op imm := by
  unfold immOperand immText
  split <;> rfl

/-- The text of an instruction, put together from its operands. -/
theorem text_eq (i : Instr) :
    i.text = if i.operands = [] then i.mnemonic
      else line i.mnemonic (i.operands.map Written.text) := by
  cases i with
  | alu op rd rs rt =>
    cases hop : op.isVariableShift with
    | true =>
      simp only [text, operands, hop]
      rfl
    | false =>
      simp only [text, operands, hop]
      rfl
  | branch cond rs rt offset =>
    cases hcond : cond.isBinary with
    | true =>
      simp only [text, operands, hcond]
      rfl
    | false =>
      simp only [text, operands, hcond]
      rfl
  | aluImm op rt rs imm =>
    show line op.mnemonic [rt.name, rs.name, immText op imm] = _
    rw [← immOperand_text]
    rfl
  | moveFrom part => cases part <;> rfl
  | moveTo part => cases part <;> rfl
  | shift | jr | jalr | mulDiv | syscall | brk | lui | load | store | j | jal => rfl

theorem isName_mnemonic (i : Instr) : Token.isName i.mnemonic = true := by
  cases i with
  | alu op =>
    show Token.isName op.mnemonic = true
    cases op <;> decide +kernel
  | shift op =>
    show Token.isName op.mnemonic = true
    cases op <;> decide +kernel
  | mulDiv op =>
    show Token.isName op.mnemonic = true
    cases op <;> decide +kernel
  | moveFrom part =>
    show Token.isName part.moveFromMnemonic = true
    cases part <;> decide +kernel
  | moveTo part =>
    show Token.isName part.moveToMnemonic = true
    cases part <;> decide +kernel
  | aluImm op =>
    show Token.isName op.mnemonic = true
    cases op <;> decide +kernel
  | branch cond =>
    show Token.isName cond.mnemonic = true
    cases cond <;> decide +kernel
  | load width =>
    show Token.isName width.loadMnemonic = true
    cases width <;> decide +kernel
  | store width =>
    show Token.isName width.storeMnemonic = true
    cases width <;> decide +kernel
  | jr =>
    show Token.isName "jr" = true
    decide +kernel
  | jalr =>
    show Token.isName "jalr" = true
    decide +kernel
  | syscall => decide +kernel
  | brk => decide +kernel
  | lui =>
    show Token.isName "lui" = true
    decide +kernel
  | j =>
    show Token.isName "j" = true
    decide +kernel
  | jal =>
    show Token.isName "jal" = true
    decide +kernel

/-! ## Lexing -/

theorem registerOperand_sound (r : Reg) : (registerOperand r).Sound where
  lexes := Token.lexesTo_register r
  inner := by
    intro token h
    obtain rfl := List.mem_singleton.mp h
    rfl

theorem decimalOperand_sound {n : Int} (hlow : Word.minSigned ≤ n) (hhigh : n ≤ Word.maxUnsigned) :
    (decimalOperand n).Sound where
  lexes := by
    unfold decimalOperand decimalText
    rw [String.toList_ofList]
    exact Token.lexesTo_signedDecimal hlow hhigh
  inner := by
    intro token h
    obtain rfl := List.mem_singleton.mp h
    exact Token.isInner_ofInt n

theorem offset_sound (offset : SImm16) : (decimalOperand offset.value).Sound := by
  obtain ⟨hlow, hhigh⟩ := offset.signed_range
  refine decimalOperand_sound ?_ ?_
  · exact Int.le_trans (by decide) hlow
  · exact Int.le_trans (Int.le_of_lt hhigh) (by decide)

theorem amount_sound (amount : Shamt) : (decimalOperand amount.value).Sound := by
  obtain ⟨hlow, hhigh⟩ := amount.unsigned_range
  refine decimalOperand_sound ?_ ?_
  · exact Int.le_trans (by decide) hlow
  · exact Int.le_trans (Int.le_of_lt hhigh) (by decide)

theorem hexOperand_sound (imm : UImm16) : (hexOperand imm).Sound where
  lexes := by
    obtain ⟨hlow, hhigh⟩ := imm.unsigned_range
    unfold hexOperand hexText
    rw [String.toList_ofList]
    refine Token.lexesTo_upperHex ?_
    unfold Imm.toNat Word.maxUnsigned
    omega
  inner := by
    intro token h
    obtain rfl := List.mem_singleton.mp h
    rfl

/-- The value of an immediate that is extended with its sign. -/
theorem signed_extendedImm {op : ImmOp} (hop : op.zeroExtends = false) (imm : UImm16) :
    Word.signed (extendedImm op imm) = Signedness.signed.wrap 16 imm.value := by
  obtain ⟨hlow, hhigh⟩ := (Imm.truncate imm.value : SImm16).signed_range
  unfold extendedImm
  rw [if_neg (by rw [hop]; nofun)]
  exact Word.signed_ofInt (Int.le_trans (by decide) hlow)
    (Int.le_trans (Int.le_of_lt hhigh) (by decide))

theorem immOperand_sound (op : ImmOp) (imm : UImm16) : (immOperand op imm).Sound := by
  unfold immOperand
  cases hop : op.zeroExtends with
  | true => exact hexOperand_sound imm
  | false =>
    rw [signed_extendedImm hop]
    exact offset_sound (Imm.truncate imm.value)

theorem basedOperand_sound (offset : SImm16) (base : Reg) : (basedOperand offset base).Sound where
  lexes := by
    unfold basedOperand basedText
    rw [String.toList_append, String.toList_append, String.toList_append, List.append_assoc,
      List.append_assoc]
    exact (offset_sound offset).lexes.paren (Token.lexesTo_register base)
  inner := by
    unfold basedOperand
    simp only [List.forall_mem_cons]
    exact ⟨Token.isInner_ofInt offset.value, rfl, rfl, rfl, nofun⟩

theorem jumpOperand_sound (index : Word) : (jumpOperand index).Sound where
  lexes := Token.lexesTo_word _
  inner := by
    intro token h
    obtain rfl := List.mem_singleton.mp h
    rfl

theorem operand_sound (i : Instr) : ∀ w ∈ i.operands, w.Sound := by
  have hregister := registerOperand_sound
  cases i with
  | alu op rd rs rt =>
    cases hop : op.isVariableShift with
    | true =>
      simp only [operands, hop, if_true, List.forall_mem_cons]
      exact ⟨hregister rd, hregister rt, hregister rs, nofun⟩
    | false =>
      simp only [operands, hop, Bool.false_eq_true, if_false, List.forall_mem_cons]
      exact ⟨hregister rd, hregister rs, hregister rt, nofun⟩
  | branch cond rs rt offset =>
    cases hcond : cond.isBinary with
    | true =>
      simp only [operands, hcond, if_true, List.forall_mem_cons]
      exact ⟨hregister rs, hregister rt, offset_sound offset, nofun⟩
    | false =>
      simp only [operands, hcond, Bool.false_eq_true, if_false, List.forall_mem_cons]
      exact ⟨hregister rs, offset_sound offset, nofun⟩
  | shift op rd rt amount =>
    simp only [operands, List.forall_mem_cons]
    exact ⟨hregister rd, hregister rt, amount_sound amount, nofun⟩
  | jr r | moveFrom _ r | moveTo _ r =>
    simp only [operands, List.forall_mem_cons]
    exact ⟨hregister r, nofun⟩
  | jalr first second | mulDiv _ first second =>
    simp only [operands, List.forall_mem_cons]
    exact ⟨hregister first, hregister second, nofun⟩
  | syscall | brk => exact nofun
  | aluImm op rt rs imm =>
    simp only [operands, List.forall_mem_cons]
    exact ⟨hregister rt, hregister rs, immOperand_sound op imm, nofun⟩
  | lui rt imm =>
    simp only [operands, List.forall_mem_cons]
    exact ⟨hregister rt, hexOperand_sound imm, nofun⟩
  | load _ rt base offset | store _ rt base offset =>
    simp only [operands, List.forall_mem_cons]
    exact ⟨hregister rt, basedOperand_sound offset base, nofun⟩
  | j index | jal index =>
    simp only [operands, List.forall_mem_cons]
    exact ⟨jumpOperand_sound index, nofun⟩

theorem isInner_tokens (i : Instr) : ∀ token ∈ i.tokens, token.isInner = true := by
  unfold tokens
  rw [List.forall_mem_cons]
  exact ⟨rfl, Token.isInner_commaed i.operand_sound⟩

/-- The text of an instruction is read as its tokens. -/
theorem lexesTo_text (i : Instr) : LexesTo i.text.toList i.tokens := by
  rw [text_eq]
  unfold tokens
  split
  · next hnone =>
    rw [hnone]
    exact Token.lexesTo_identifier i.isName_mnemonic
  · exact Token.lexesTo_line i.isName_mnemonic i.operand_sound

end Operands

/-! ## Reading -/

section Reading

open LineReader

/-- The instruction that the text of a machine instruction is. -/
def source : Instr → SourceInstr
  | alu op rd rs rt => .alu op rd rs rt
  | shift op rd rt amount => .shift op rd rt amount
  | jr rs => .jr rs
  | jalr rd rs => .jalr rd rs
  | mulDiv op rs rt => .mulDiv op rs rt
  | moveFrom part rd => .moveFrom part rd
  | moveTo part rs => .moveTo part rs
  | syscall => .syscall
  | brk => .brk
  | aluImm op rt rs imm => .aluImm op rt rs imm
  | lui rt imm => .lui rt imm
  | branch cond rs rt offset => .branch cond rs rt (.offset offset)
  | load width rt base offset => .load width rt (.based offset base)
  | store width rt base offset => .store width rt (.based offset base)
  | j index => .j (.value (UInt32.ofNat (index.toNat * 4)))
  | jal index => .jal (.value (UInt32.ofNat (index.toNat * 4)))

theorem integer?_offset (offset : SImm16) :
    (Token.ofInt offset.value).integer? = some offset.value :=
  Token.integer?_ofInt (Int.le_trans (Int.le_of_lt offset.signed_range.2) (by decide))

theorem integer?_amount (amount : Shamt) :
    (Token.ofInt amount.value).integer? = some amount.value :=
  Token.integer?_ofInt (Int.le_trans (Int.le_of_lt amount.unsigned_range.2) (by decide))

theorem integer?_hex (imm : UImm16) :
    (Token.unsigned (UInt32.ofNat imm.toNat)).integer? = some imm.value := by
  obtain ⟨hlow, hhigh⟩ := imm.unsigned_range
  have hlt : imm.toNat < UInt32.size := by
    show imm.value.toNat < 0x100000000
    omega
  show some ((UInt32.ofNat imm.toNat).toNat : Int) = some imm.value
  rw [UInt32.toNat_ofNat_of_lt' hlt]
  exact congrArg some (Int.toNat_of_nonneg hlow)

/-- The token of an immediate operand. -/
theorem immOperand_tokens (op : ImmOp) (imm : UImm16) :
    ∃ token, (immOperand op imm).tokens = [token] ∧ token.integer? = some
      (if op.zeroExtends then imm.value else Signedness.signed.wrap 16 imm.value) := by
  unfold immOperand
  cases hop : op.zeroExtends with
  | true => exact ⟨_, rfl, integer?_hex imm⟩
  | false =>
    rw [signed_extendedImm hop]
    exact ⟨_, rfl, integer?_offset (Imm.truncate imm.value)⟩

/-! The readers of the instructions that share a format. -/

theorem instrOperands?_alu (op : AluOp) :
    instrOperands? (Text.asciiLowercase op.mnemonic) = some (aluOperands op) := by
  cases op <;> rfl

theorem instrOperands?_shift (op : ShiftOp) :
    instrOperands? (Text.asciiLowercase op.mnemonic) = some (shiftOperands op) := by
  cases op <;> rfl

theorem instrOperands?_mulDiv (op : MulDivOp) :
    instrOperands? (Text.asciiLowercase op.mnemonic) = some (mulDivOperands op) := by
  cases op <;> rfl

theorem instrOperands?_moveFrom (part : HiLo) :
    instrOperands? (Text.asciiLowercase part.moveFromMnemonic) =
      some (SourceInstr.moveFrom part <$> register) := by
  cases part <;> rfl

theorem instrOperands?_moveTo (part : HiLo) :
    instrOperands? (Text.asciiLowercase part.moveToMnemonic) =
      some (SourceInstr.moveTo part <$> register) := by
  cases part <;> rfl

theorem instrOperands?_imm (op : ImmOp) :
    instrOperands? (Text.asciiLowercase op.mnemonic) = some (immOperands op) := by
  cases op <;> rfl

theorem instrOperands?_branch (cond : BranchCond) :
    instrOperands? (Text.asciiLowercase cond.mnemonic) = some (branchOperands cond) := by
  cases cond <;> rfl

theorem instrOperands?_load (width : Width) :
    instrOperands? (Text.asciiLowercase width.loadMnemonic) = some (loadOperands width) := by
  cases width <;> rfl

theorem instrOperands?_store {width : Width} (h : width ∈ Width.allStores) :
    instrOperands? (Text.asciiLowercase width.storeMnemonic) = some (storeOperands width) := by
  cases width with
  | byte => rfl
  | half => rfl
  | word => rfl
  | byteu => exact absurd h (by decide)
  | halfu => exact absurd h (by decide)

/-- An address that a jump is written with. -/
theorem reads_jumpOperand (index : Word) :
    Reads addressExpr (Token.commaed [jumpOperand index])
      (.value (UInt32.ofNat (index.toNat * 4))) := by
  have hread : Reads addressExpr [.unsigned (UInt32.ofNat (index.toNat * 4))] _ :=
    reads_addressExpr rfl rfl
  rw [Word.ofInt_toNat] at hread
  exact hread

/-- The operands of an instruction are read as the instruction. -/
theorem reads_operands {i : Instr} (h : i.Normal) :
    ∃ reader, instrOperands? (Text.asciiLowercase i.mnemonic) = some reader ∧
      Reads reader (Token.commaed i.operands) i.source := by
  cases i with
  | alu op rd rs rt =>
    refine ⟨aluOperands op, instrOperands?_alu op, ?_⟩
    cases hop : op.isVariableShift with
    | true =>
      have hread := reads_aluOperands op rd rt rs
      simp only [hop, if_true] at hread
      simp only [operands, hop, if_true]
      exact hread
    | false =>
      have hread := reads_aluOperands op rd rs rt
      simp only [hop, Bool.false_eq_true, if_false] at hread
      simp only [operands, hop, Bool.false_eq_true, if_false]
      exact hread
  | shift op rd rt amount =>
    refine ⟨shiftOperands op, instrOperands?_shift op, ?_⟩
    exact reads_shiftOperands op rd rt (integer?_amount amount)
  | jr rs =>
    have hreader : instrOperands? (Text.asciiLowercase "jr") = some (SourceInstr.jr <$> register) :=
      rfl
    exact ⟨_, hreader, (reads_register rs).map SourceInstr.jr⟩
  | jalr rd rs =>
    have hreader : instrOperands? (Text.asciiLowercase "jalr") = some jalrOperands := rfl
    exact ⟨_, hreader, reads_jalrOperands rd rs⟩
  | mulDiv op rs rt =>
    exact ⟨mulDivOperands op, instrOperands?_mulDiv op, reads_mulDivOperands op rs rt⟩
  | moveFrom part rd =>
    exact ⟨SourceInstr.moveFrom part <$> register, instrOperands?_moveFrom part,
      (reads_register rd).map _⟩
  | moveTo part rs =>
    exact ⟨SourceInstr.moveTo part <$> register, instrOperands?_moveTo part,
      (reads_register rs).map _⟩
  | syscall => exact ⟨pure .syscall, rfl, reads_pure _⟩
  | brk => exact ⟨pure .brk, rfl, reads_pure _⟩
  | aluImm op rt rs imm =>
    obtain ⟨token, htokens, hinteger⟩ := immOperand_tokens op imm
    refine ⟨immOperands op, instrOperands?_imm op, ?_⟩
    have hread := reads_immOperands rt rs hinteger
    have hcommaed : Token.commaed (aluImm op rt rs imm).operands =
        [.register rt, .comma, .register rs, .comma, token] := by
      show [Token.comma].intercalate [[Token.register rt], [Token.register rs],
        (immOperand op imm).tokens] = _
      rw [htokens]
      rfl
    rw [hcommaed]
    exact hread
  | lui rt imm =>
    have hreader : instrOperands? (Text.asciiLowercase "lui") =
        some (withRegister .lui immediate) := rfl
    exact ⟨_, hreader, reads_withRegister SourceInstr.lui rt (reads_immediate (integer?_hex imm))⟩
  | branch cond rs rt offset =>
    refine ⟨branchOperands cond, instrOperands?_branch cond, ?_⟩
    have hname := Token.name?_ofInt offset.value
    have hinteger := integer?_offset offset
    cases hcond : cond.isBinary with
    | true =>
      simp only [operands, hcond, if_true]
      exact reads_branchOperands_two hcond rs rt hname hinteger
    | false =>
      obtain rfl : rt = Reg.zero := h.resolve_left (by rw [hcond]; nofun)
      simp only [operands, hcond, Bool.false_eq_true, if_false]
      exact reads_branchOperands_one hcond rs hname hinteger
  | load width rt base offset =>
    refine ⟨loadOperands width, instrOperands?_load width, ?_⟩
    exact reads_loadOperands width rt base (integer?_offset offset)
  | store width rt base offset =>
    refine ⟨storeOperands width, instrOperands?_store h, ?_⟩
    exact reads_storeOperands width rt base (integer?_offset offset)
  | j index =>
    have hreader : instrOperands? (Text.asciiLowercase "j") =
        some (SourceInstr.j <$> addressExpr) := rfl
    exact ⟨_, hreader, (reads_jumpOperand index).map SourceInstr.j⟩
  | jal index =>
    have hreader : instrOperands? (Text.asciiLowercase "jal") =
        some (SourceInstr.jal <$> addressExpr) := rfl
    exact ⟨_, hreader, (reads_jumpOperand index).map SourceInstr.jal⟩

/-- The body of a line that is the text of an instruction. -/
theorem body_run {i : Instr} (h : i.Normal) {line : List Located}
    (hline : line.map Located.token = i.tokens) (stop : Nat) :
    (body.run stop).run line = .ok (.instr i.source, []) := by
  obtain ⟨reader, hreader, hreads⟩ := reads_operands h
  obtain ⟨⟨written, span⟩, rest, rfl, rfl, hrest⟩ := List.map_eq_cons_iff.mp hline
  have hrun := hreads stop rest [] hrest
  rw [List.append_nil] at hrun
  refine body_run_instr ?_
  unfold instr
  rw [hreader]
  exact hrun

end Reading

/-! ## Expansion -/

section Expansion

variable {pc : Address} {span : Span} {symbols : SymbolTable}

/-- A jump in the lowest region is written with the address that it goes to. -/
theorem jumpIndex_source {index : Word} (hindex : index.toNat < 0x4000000)
    (hpc : Address.region (pc + 4) = 0) :
    (AddressExpr.value (UInt32.ofNat (index.toNat * 4))).jumpIndex pc span symbols =
      .ok index := by
  have hnat : (UInt32.ofNat (index.toNat * 4)).toNat = index.toNat * 4 :=
    UInt32.toNat_ofNat_of_lt' (show index.toNat * 4 < 0x100000000 by omega)
  refine AddressExpr.jumpIndex_eq_ok_iff.mpr ⟨_, rfl, ?_, ?_, ?_⟩
  · rw [Address.isAligned_iff, hnat, Nat.mul_mod_left]
  · rw [hpc]
    unfold Address.region
    rw [hnat]
    omega
  · rw [hnat, Nat.mul_div_cancel _ (by decide), Nat.mod_eq_of_lt hindex, UInt32.ofNat_toNat]

/-- The instruction that a text is stands for the machine instruction that was written. -/
theorem expand_source {i : Instr} (h : i.Normal) (hpc : Address.region (pc + 4) = 0) :
    i.source.expand pc span symbols = .ok [i] := by
  cases i with
  | branch cond rs rt offset =>
    have hrt : (if cond.isBinary then rt else Reg.zero) = rt := by
      split
      · rfl
      · next hcond => exact (h.resolve_left hcond).symm
    show Except.ok [Instr.branch cond rs (if cond.isBinary then rt else Reg.zero) offset] = _
    rw [hrt]
  | store width rt base offset =>
    have hstores : width ∈ Width.allStores := h
    have hwidth : width.unextended = width := by
      cases width with
      | byte | half | word => rfl
      | byteu => exact absurd hstores (by decide)
      | halfu => exact absurd hstores (by decide)
    show Except.ok [Instr.store width.unextended rt base offset] = _
    rw [hwidth]
  | j index =>
    show (AddressExpr.jumpIndex _ pc span symbols >>= fun index => .ok [Instr.j index]) = _
    rw [jumpIndex_source h hpc]
    rfl
  | jal index =>
    show (AddressExpr.jumpIndex _ pc span symbols >>= fun index => .ok [Instr.jal index]) = _
    rw [jumpIndex_source h hpc]
    rfl
  | alu | shift | jr | jalr | mulDiv | moveFrom | moveTo | syscall | brk | aluImm | lui
  | load => rfl

theorem source_wordCount (i : Instr) : i.source.wordCount = 1 := by
  cases i <;> rfl

end Expansion

end Instr

end MipsLab
