import MipsLab.Proofs.OperandGrammar
import MipsLab.Statement.Parser

/-!
# The grammar of lines

What a line of a source text may look like, told without a parser: labels with their colons, and
then an instruction or a directive with its operands, or nothing. The parser accepts exactly these
lines.

1. `SourceInstr.Takes`, `Directive.Takes`: the operands of every instruction and directive.
2. `WellFormedLine`: the form of a line.
3. `LineReader.instr_fills`, `LineReader.directive_fills`: the readers of instructions and
   directives take exactly the operands of these.
4. `parse_errors_eq_nil_iff`: the parser reports nothing exactly if all lines are well-formed.
-/

namespace MipsLab

/-! ## Grammar -/

/-- The operands that an instruction is written with, by its name in small letters. -/
inductive SourceInstr.Takes : String → List Operand → Prop
  | alu (op : AluOp) : Takes op.mnemonic [.register, .register, .register]
  | shift (op : ShiftOp) : Takes op.mnemonic [.register, .register, .number 0 31]
  | mulDiv (op : MulDivOp) : Takes op.mnemonic [.register, .register]
  | immUnsigned {op : ImmOp} (h : op.zeroExtends = true) :
      Takes op.mnemonic [.register, .register, .number 0 0xFFFF]
  | immSigned {op : ImmOp} (h : op.zeroExtends = false) :
      Takes op.mnemonic [.register, .register, .number (-0x8000) 0x7FFF]
  | branchOnTwo {cond : BranchCond} (h : cond.isBinary = true) :
      Takes cond.mnemonic [.register, .register, .target]
  | branchOnOne {cond : BranchCond} (h : cond.isBinary = false) :
      Takes cond.mnemonic [.register, .target]
  | load (width : Width) : Takes width.loadMnemonic [.register, .place]
  | store {width : Width} (h : width ∈ Width.allStores) :
      Takes width.storeMnemonic [.register, .place]
  | compare (cmp : Comparison) : Takes cmp.mnemonic [.register, .register, .target]
  | jr : Takes "jr" [.register]
  | jalr : Takes "jalr" [.register]
  | jalrLinking : Takes "jalr" [.register, .register]
  | mfhi : Takes "mfhi" [.register]
  | mflo : Takes "mflo" [.register]
  | mthi : Takes "mthi" [.register]
  | mtlo : Takes "mtlo" [.register]
  | syscall : Takes "syscall" []
  | brk : Takes "break" []
  | nop : Takes "nop" []
  | lui : Takes "lui" [.register, .number 0 0xFFFF]
  | j : Takes "j" [.address]
  | jal : Takes "jal" [.address]
  | li : Takes "li" [.register, .number Word.minSigned Word.maxUnsigned]
  | la : Takes "la" [.register, .address]
  | move : Takes "move" [.register, .register]
  | b : Takes "b" [.target]
  | beqz : Takes "beqz" [.register, .target]
  | bnez : Takes "bnez" [.register, .target]
  | neg : Takes "neg" [.register, .register]
  | not : Takes "not" [.register, .register]

/-- The operands that a directive is written with. -/
inductive Directive.Takes : String → List Operand → Prop
  | text : Takes "text" []
  | data : Takes "data" []
  | globl : Takes "globl" [.label]
  | global : Takes "global" [.label]
  | word (more : Nat) : Takes "word" (.address :: List.replicate more .address)
  | half (more : Nat) :
      Takes "half" (.number (-0x8000) 0xFFFF :: List.replicate more (.number (-0x8000) 0xFFFF))
  | byte (more : Nat) :
      Takes "byte" (.number (-0x80) 0xFF :: List.replicate more (.number (-0x80) 0xFF))
  | ascii : Takes "ascii" [.string]
  | asciiz : Takes "asciiz" [.string]
  | space : Takes "space" [.number 0 Word.maxUnsigned]
  | align : Takes "align" [.number 0 16]

/-- What an instruction or a directive is written with. -/
inductive Body.Admits : List Token → Prop
  | instr {mnemonic : String} {operands : List Operand} {tokens : List Token}
      (h : SourceInstr.Takes (Text.asciiLowercase mnemonic) operands)
      (htokens : Operand.Separated operands tokens) : Admits (.identifier mnemonic :: tokens)
  | directive {name : String} {operands : List Operand} {tokens : List Token}
      (h : Directive.Takes name operands) (htokens : Operand.Separated operands tokens) :
      Admits (.directive name :: tokens)

/-- What the rest of a line may be written with. -/
inductive LineForm : List Token → Prop
  | nothing : LineForm []
  | body {tokens : List Token} (h : Body.Admits tokens) : LineForm tokens
  | label (name : String) {tokens : List Token} (h : LineForm tokens) :
      LineForm (.identifier name :: .colon :: tokens)

/-- A line holds tokens only, and these have the form of a line if its comments are left out. -/
def WellFormedLine (line : List Lexeme) : Prop :=
  ∃ tokens : List Token, line.map Lexeme.result = tokens.map .ok ∧
    LineForm (tokens.filter (· ≠ .comment))

/-! ## Readers of lines -/

namespace LineReader

variable {α β : Type} {reader : LineReader α} {stop : Nat} {line rest : List Located} {a : α}
  {operand : Operand}

/-! ### Instructions -/

theorem fills_aluOperands (op : AluOp) :
    Fills (aluOperands op) (Operand.Separated [.register, .register, .register]) :=
  fills_registerComma fun rd => fills_registerComma fun first =>
    recognizes_register.fills.map fun second =>
      if op.isVariableShift then SourceInstr.alu op rd second first
      else SourceInstr.alu op rd first second

theorem fills_shiftOperands (op : ShiftOp) :
    Fills (shiftOperands op) (Operand.Separated [.register, .register, .number 0 31]) :=
  fills_registerComma fun _ => fills_registerComma fun _ =>
    (recognizes_immediate .unsigned 5 (by decide)).fills.map _

theorem fills_mulDivOperands (op : MulDivOp) :
    Fills (mulDivOperands op) (Operand.Separated [.register, .register]) :=
  fills_registerComma fun _ => recognizes_register.fills.map _

theorem fills_immOperands (op : ImmOp) :
    Fills (immOperands op) (Operand.Separated [.register, .register,
      if op.zeroExtends then .number 0 0xFFFF else .number (-0x8000) 0x7FFF]) :=
  fills_registerComma fun _ => fills_registerComma fun _ =>
    (recognizes_operationImmediate op).fills.map _

theorem fills_branchOperands (cond : BranchCond) :
    Fills (branchOperands cond) (Operand.Separated
      (if cond.isBinary then [.register, .register, .target] else [.register, .target])) := by
  unfold branchOperands
  cases cond.isBinary with
  | true =>
    exact fills_registerComma fun _ => fills_registerComma fun _ =>
      recognizes_branchTarget.fills.map _
  | false => exact fills_registerComma fun _ => recognizes_branchTarget.fills.map _

theorem fills_loadOperands (width : Width) :
    Fills (loadOperands width) (Operand.Separated [.register, .place]) :=
  fills_registerComma fun _ => recognizes_memOperand.fills.map _

theorem fills_storeOperands (width : Width) :
    Fills (storeOperands width) (Operand.Separated [.register, .place]) :=
  fills_registerComma fun _ => recognizes_memOperand.fills.map _

theorem fills_compareOperands (cmp : Comparison) :
    Fills (compareOperands cmp) (Operand.Separated [.register, .register, .target]) :=
  fills_registerComma fun _ => fills_registerComma fun _ => recognizes_branchTarget.fills.map _

/-- Whether a comma follows the first register tells whether there is a second one. -/
theorem fills_jalrOperands :
    Fills jalrOperands fun tokens => Operand.Separated [.register] tokens ∨
      Operand.Separated [.register, .register] tokens := by
  intro stop line
  constructor
  · rintro ⟨i, hi⟩
    obtain ⟨r, between, hr, hnext⟩ := Gives.bind_inv hi
    obtain ⟨span, rfl⟩ := hr.register_inv
    obtain ⟨comes, behind, hskip, hnext⟩ := hnext.bind_inv
    have hcomes := hskip.skip?_inv
    cases comes with
    | false =>
      obtain ⟨-, rfl⟩ := Gives.pure_inv hnext
      obtain ⟨rfl, -⟩ := hcomes
      exact .inl (.last (.register r))
    | true =>
      obtain ⟨place, rfl⟩ := hcomes
      obtain ⟨r', hr', -⟩ := Gives.map_inv hnext
      exact .inr (.cons (.register r) ((recognizes_register.fills stop behind).mp ⟨r', hr'⟩))
  · generalize htokens : line.map Located.token = tokens
    rintro (h | h)
    · cases separated_last.mp h with
      | register r =>
        obtain ⟨span, rfl⟩ := line_of_token htokens
        exact ⟨_, Gives.bind (reads_register r stop _ [] htokens) rfl⟩
    · cases h with
      | cons hfirst hsecond =>
        cases hfirst with
        | register rd =>
          cases separated_last.mp hsecond with
          | register rs =>
            have hreads := reads_jalrOperands rd rs stop line [] htokens
            rw [List.append_nil] at hreads
            exact ⟨_, hreads⟩

/-! ### Names -/

/-- All that a reader takes has one of the formats that are admitted. -/
def Follows (reader : LineReader α) (formats : List Operand → Prop) : Prop :=
  ∀ stop line, (∃ a, reader.Gives stop line a []) →
    ∃ operands, formats operands ∧ Operand.Separated operands (line.map Located.token)

/-- There is a reader that takes whatever has a certain format. -/
def Offers (reader? : Option (LineReader α)) (operands : List Operand) : Prop :=
  ∃ reader, reader? = some reader ∧ ∀ stop line,
    Operand.Separated operands (line.map Located.token) → ∃ a, reader.Gives stop line a []

section

variable {formats : List Operand → Prop} {operands : List Operand}

theorem Fills.follows (h : Fills reader (Operand.Separated operands)) (hformat : formats operands) :
    reader.Follows formats :=
  fun stop line hline => ⟨operands, hformat, (h stop line).mp hline⟩

theorem Fills.offers {reader? : Option (LineReader α)}
    (h : Fills reader (Operand.Separated operands)) (hreader : reader? = some reader) :
    Offers reader? operands :=
  ⟨reader, hreader, fun stop line => (h stop line).mpr⟩

/-- A name stands for a reader exactly if it has a format. -/
theorem fills_named {reader? : Option (LineReader α)} {cause : ParseCause} {span : Span}
    (hfollows : ∀ reader, reader? = some reader → reader.Follows formats)
    (hoffers : ∀ operands, formats operands → Offers reader? operands) :
    Fills (reader?.getD (failAt cause span)) fun tokens =>
      ∃ operands, formats operands ∧ Operand.Separated operands tokens := by
  intro stop line
  cases reader? with
  | none =>
    constructor
    · rintro ⟨a, ha⟩
      exact absurd ha not_gives_failAt
    · rintro ⟨operands, hformat, -⟩
      obtain ⟨reader, hreader, -⟩ := hoffers operands hformat
      exact nomatch hreader
  | some reader =>
    constructor
    · exact hfollows reader rfl stop line
    · rintro ⟨operands, hformat, hline⟩
      obtain ⟨found, hfound, htakes⟩ := hoffers operands hformat
      obtain rfl := Option.some.inj hfound
      exact htakes stop line hline

end

theorem follows_immOperands (op : ImmOp) :
    (immOperands op).Follows (SourceInstr.Takes op.mnemonic) := by
  have hfills := fills_immOperands op
  cases hop : op.zeroExtends with
  | true =>
    rw [hop] at hfills
    exact hfills.follows (.immUnsigned hop)
  | false =>
    rw [hop] at hfills
    exact hfills.follows (.immSigned hop)

theorem follows_branchOperands (cond : BranchCond) :
    (branchOperands cond).Follows (SourceInstr.Takes cond.mnemonic) := by
  have hfills := fills_branchOperands cond
  cases hcond : cond.isBinary with
  | true =>
    rw [hcond] at hfills
    exact hfills.follows (.branchOnTwo hcond)
  | false =>
    rw [hcond] at hfills
    exact hfills.follows (.branchOnOne hcond)

theorem follows_jalrOperands : jalrOperands.Follows (SourceInstr.Takes "jalr") := by
  intro stop line hline
  rcases (fills_jalrOperands stop line).mp hline with h | h
  · exact ⟨_, .jalr, h⟩
  · exact ⟨_, .jalrLinking, h⟩

theorem follows_otherOperands {mnemonic : String} {reader : LineReader SourceInstr}
    (h : otherOperands? mnemonic = some reader) :
    reader.Follows (SourceInstr.Takes mnemonic) := by
  unfold otherOperands? at h
  split at h <;> cases h
  · exact (recognizes_register.fills.map _).follows .jr
  · exact follows_jalrOperands
  · exact (recognizes_register.fills.map _).follows .mfhi
  · exact (recognizes_register.fills.map _).follows .mflo
  · exact (recognizes_register.fills.map _).follows .mthi
  · exact (recognizes_register.fills.map _).follows .mtlo
  · exact (fills_pure _).follows .syscall
  · exact (fills_pure _).follows .brk
  · exact (fills_pure _).follows .nop
  · exact (fills_withRegister _ (recognizes_immediate .unsigned 16 (by decide))).follows .lui
  · exact (recognizes_addressExpr.fills.map _).follows .j
  · exact (recognizes_addressExpr.fills.map _).follows .jal
  · exact (fills_withRegister _ (recognizes_integerIn _ _)).follows .li
  · exact (fills_withRegister _ recognizes_addressExpr).follows .la
  · exact (fills_withRegister _ recognizes_register).follows .move
  · exact (recognizes_branchTarget.fills.map _).follows .b
  · exact (fills_withRegister _ recognizes_branchTarget).follows .beqz
  · exact (fills_withRegister _ recognizes_branchTarget).follows .bnez
  · exact (fills_withRegister _ recognizes_register).follows .neg
  · exact (fills_withRegister _ recognizes_register).follows .not

theorem orElse_some_inv {first second : Option α} (h : (first <|> second) = some a) :
    first = some a ∨ second = some a := by
  cases first with
  | none => exact .inr h
  | some a' => exact .inl h

theorem map_find?_some_inv {all : List β} {name : β → String} {mnemonic : String}
    {operands : β → LineReader SourceInstr} {reader : LineReader SourceInstr}
    (h : (all.find? (name · = mnemonic)).map operands = some reader) :
    ∃ op ∈ all, name op = mnemonic ∧ operands op = reader := by
  obtain ⟨op, hop, rfl⟩ := Option.map_eq_some_iff.mp h
  have hname := List.find?_some (p := fun op => decide (name op = mnemonic)) hop
  exact ⟨op, List.mem_of_find?_eq_some hop, of_decide_eq_true hname, rfl⟩

/-- The names of the instructions that the parser knows, and the readers of their operands. -/
inductive ReadsInstr : String → LineReader SourceInstr → Prop
  | alu (op : AluOp) : ReadsInstr op.mnemonic (aluOperands op)
  | shift (op : ShiftOp) : ReadsInstr op.mnemonic (shiftOperands op)
  | mulDiv (op : MulDivOp) : ReadsInstr op.mnemonic (mulDivOperands op)
  | imm (op : ImmOp) : ReadsInstr op.mnemonic (immOperands op)
  | branch (cond : BranchCond) : ReadsInstr cond.mnemonic (branchOperands cond)
  | load (width : Width) : ReadsInstr width.loadMnemonic (loadOperands width)
  | store {width : Width} (h : width ∈ Width.allStores) :
    ReadsInstr width.storeMnemonic (storeOperands width)
  | compare (cmp : Comparison) : ReadsInstr cmp.mnemonic (compareOperands cmp)
  | other {mnemonic : String} {reader : LineReader SourceInstr}
    (h : otherOperands? mnemonic = some reader) : ReadsInstr mnemonic reader

theorem readsInstr_of_some {mnemonic : String} {reader : LineReader SourceInstr}
    (h : instrOperands? mnemonic = some reader) : ReadsInstr mnemonic reader := by
  rcases orElse_some_inv h with h | h
  · obtain ⟨op, -, rfl, rfl⟩ := map_find?_some_inv h
    exact .alu op
  rcases orElse_some_inv h with h | h
  · obtain ⟨op, -, rfl, rfl⟩ := map_find?_some_inv h
    exact .shift op
  rcases orElse_some_inv h with h | h
  · obtain ⟨op, -, rfl, rfl⟩ := map_find?_some_inv h
    exact .mulDiv op
  rcases orElse_some_inv h with h | h
  · obtain ⟨op, -, rfl, rfl⟩ := map_find?_some_inv h
    exact .imm op
  rcases orElse_some_inv h with h | h
  · obtain ⟨cond, -, rfl, rfl⟩ := map_find?_some_inv h
    exact .branch cond
  rcases orElse_some_inv h with h | h
  · obtain ⟨width, -, rfl, rfl⟩ := map_find?_some_inv h
    exact .load width
  rcases orElse_some_inv h with h | h
  · obtain ⟨width, hwidth, rfl, rfl⟩ := map_find?_some_inv h
    exact .store hwidth
  rcases orElse_some_inv h with h | h
  · obtain ⟨cmp, -, rfl, rfl⟩ := map_find?_some_inv h
    exact .compare cmp
  · exact .other h

/-- Every name that the parser knows is read in the formats that it has. -/
theorem follows_instrOperands {mnemonic : String} {reader : LineReader SourceInstr}
    (h : instrOperands? mnemonic = some reader) :
    reader.Follows (SourceInstr.Takes mnemonic) := by
  cases readsInstr_of_some h with
  | alu op => exact (fills_aluOperands op).follows (.alu op)
  | shift op => exact (fills_shiftOperands op).follows (.shift op)
  | mulDiv op => exact (fills_mulDivOperands op).follows (.mulDiv op)
  | imm op => exact follows_immOperands op
  | branch cond => exact follows_branchOperands cond
  | load width => exact (fills_loadOperands width).follows (.load width)
  | store hwidth => exact (fills_storeOperands _).follows (.store hwidth)
  | compare cmp => exact (fills_compareOperands cmp).follows (.compare cmp)
  | other h => exact follows_otherOperands h

/-- The parser knows every name that has a format. -/
theorem offers_of_takes {mnemonic : String} {operands : List Operand}
    (h : SourceInstr.Takes mnemonic operands) : Offers (instrOperands? mnemonic) operands := by
  cases h with
  | alu op => exact (fills_aluOperands op).offers (by cases op <;> rfl)
  | shift op => exact (fills_shiftOperands op).offers (by cases op <;> rfl)
  | mulDiv op => exact (fills_mulDivOperands op).offers (by cases op <;> rfl)
  | @immUnsigned op hop =>
    have hfills := fills_immOperands op
    rw [hop] at hfills
    exact hfills.offers (by cases op <;> rfl)
  | @immSigned op hop =>
    have hfills := fills_immOperands op
    rw [hop] at hfills
    exact hfills.offers (by cases op <;> rfl)
  | @branchOnTwo cond hcond =>
    have hfills := fills_branchOperands cond
    rw [hcond] at hfills
    exact hfills.offers (by cases cond <;> rfl)
  | @branchOnOne cond hcond =>
    have hfills := fills_branchOperands cond
    rw [hcond] at hfills
    exact hfills.offers (by cases cond <;> rfl)
  | load width => exact (fills_loadOperands width).offers (by cases width <;> rfl)
  | @store width hwidth =>
    refine (fills_storeOperands width).offers ?_
    simp only [Width.allStores, List.mem_cons, List.not_mem_nil, or_false] at hwidth
    rcases hwidth with rfl | rfl | rfl <;> rfl
  | compare cmp => exact (fills_compareOperands cmp).offers (by cases cmp <;> rfl)
  | jr => exact (recognizes_register.fills.map _).offers rfl
  | jalr =>
    exact ⟨jalrOperands, rfl, fun stop line h => (fills_jalrOperands stop line).mpr (.inl h)⟩
  | jalrLinking =>
    exact ⟨jalrOperands, rfl, fun stop line h => (fills_jalrOperands stop line).mpr (.inr h)⟩
  | mfhi | mflo | mthi | mtlo => exact (recognizes_register.fills.map _).offers rfl
  | syscall | brk | nop => exact (fills_pure _).offers rfl
  | lui =>
    exact (fills_withRegister _ (recognizes_immediate .unsigned 16 (by decide))).offers rfl
  | j | jal => exact (recognizes_addressExpr.fills.map _).offers rfl
  | li => exact (fills_withRegister _ (recognizes_integerIn _ _)).offers rfl
  | la => exact (fills_withRegister _ recognizes_addressExpr).offers rfl
  | move | neg | not => exact (fills_withRegister _ recognizes_register).offers rfl
  | b => exact (recognizes_branchTarget.fills.map _).offers rfl
  | beqz | bnez => exact (fills_withRegister _ recognizes_branchTarget).offers rfl

theorem instr_fills (mnemonic : String) (span : Span) :
    Fills (instr mnemonic span) fun tokens => ∃ operands,
      SourceInstr.Takes (Text.asciiLowercase mnemonic) operands ∧
        Operand.Separated operands tokens := by
  have hreader : instr mnemonic span = (instrOperands? (Text.asciiLowercase mnemonic)).getD
      (failAt (.unknownInstruction mnemonic) span) := by
    unfold instr
    cases instrOperands? (Text.asciiLowercase mnemonic) <;> rfl
  rw [hreader]
  exact fills_named (fun _ => follows_instrOperands) fun _ => offers_of_takes

/-! ### Directives -/

theorem follows_items {item : LineReader α} (h : Recognizes item operand) (make : List α → β)
    {formats : List Operand → Prop}
    (hformats : ∀ more, formats (operand :: List.replicate more operand)) :
    (make <$> items item).Follows formats := by
  intro stop line hline
  obtain ⟨more, hmore⟩ := ((fills_items h).map make stop line).mp hline
  exact ⟨_, hformats more, hmore⟩

theorem offers_items {item : LineReader α} (h : Recognizes item operand) (make : List α → β)
    (more : Nat) :
    Offers (some (make <$> items item)) (operand :: List.replicate more operand) :=
  ⟨_, rfl, fun stop line hline => ((fills_items h).map make stop line).mpr ⟨more, hline⟩⟩

theorem recognizes_halfItem :
    Recognizes (do return UInt16.ofNat (Word.ofInt (← integerIn (-0x8000) 0xFFFF)).toNat)
      (.number (-0x8000) 0xFFFF) :=
  (recognizes_integerIn _ _).map fun n => UInt16.ofNat (Word.ofInt n).toNat

theorem recognizes_byteItem :
    Recognizes (do return UInt8.ofNat (Word.ofInt (← integerIn (-0x80) 0xFF)).toNat)
      (.number (-0x80) 0xFF) :=
  (recognizes_integerIn _ _).map fun n => UInt8.ofNat (Word.ofInt n).toNat

theorem follows_directiveOperands {name : String} {reader : LineReader Directive}
    (h : directiveOperands? name = some reader) : reader.Follows (Directive.Takes name) := by
  unfold directiveOperands? at h
  split at h <;> cases h
  · exact (fills_pure _).follows .text
  · exact (fills_pure _).follows .data
  · exact (recognizes_label.fills.map _).follows .globl
  · exact (recognizes_label.fills.map _).follows .global
  · exact follows_items recognizes_addressExpr _ .word
  · exact follows_items recognizes_halfItem _ .half
  · exact follows_items recognizes_byteItem _ .byte
  · exact (recognizes_string.fills.map _).follows .ascii
  · exact (recognizes_string.fills.map _).follows .asciiz
  · exact ((recognizes_integerIn _ _).fills.map fun n =>
      Directive.space (Word.ofInt n)).follows .space
  · exact ((recognizes_integerIn _ _).fills.map fun n =>
      Directive.align (Fin.ofNat 17 n.toNat)).follows .align

theorem directive_offers {name : String} {operands : List Operand}
    (h : Directive.Takes name operands) : Offers (directiveOperands? name) operands := by
  cases h with
  | text | data => exact (fills_pure _).offers rfl
  | globl | global => exact (recognizes_label.fills.map _).offers rfl
  | word more => exact offers_items recognizes_addressExpr _ more
  | half more => exact offers_items recognizes_halfItem _ more
  | byte more => exact offers_items recognizes_byteItem _ more
  | ascii | asciiz => exact (recognizes_string.fills.map _).offers rfl
  | space =>
    exact ((recognizes_integerIn _ _).fills.map fun n => Directive.space (Word.ofInt n)).offers rfl
  | align =>
    exact ((recognizes_integerIn _ _).fills.map fun n =>
      Directive.align (Fin.ofNat 17 n.toNat)).offers rfl

theorem directive_fills (name : String) (span : Span) :
    Fills (directive name span) fun tokens => ∃ operands,
      Directive.Takes name operands ∧ Operand.Separated operands tokens := by
  have hreader : directive name span =
      (directiveOperands? name).getD (failAt (.unknownDirective name) span) := by
    unfold directive
    cases directiveOperands? name <;> rfl
  rw [hreader]
  exact fills_named (fun _ => follows_directiveOperands) fun _ => directive_offers

/-! ## Lines -/

theorem Gives.lineEnd_inv {u : Unit} (h : lineEnd.Gives stop line u rest) : line = [] := by
  obtain ⟨next, between, hpeek, hnext⟩ := Gives.bind_inv h
  obtain ⟨rfl, rfl⟩ := hpeek.peek_inv
  cases between with
  | nil => rfl
  | cons first line => exact absurd hnext not_gives_expected

/-- A reader that has to take all that is left of a line. -/
def toEnd (reader : LineReader α) : LineReader α := do
  let found ← reader
  lineEnd
  return found

theorem gives_toEnd_iff {form : List Token → Prop} (h : Fills reader form) (stop : Nat)
    (line : List Located) :
    (∃ a rest, (toEnd reader).Gives stop line a rest) ↔ form (line.map Located.token) := by
  rw [← h stop line]
  constructor
  · rintro ⟨a, rest, ha⟩
    obtain ⟨found, between, hfound, hnext⟩ := Gives.bind_inv ha
    obtain ⟨u, behind, hend, -⟩ := hnext.bind_inv
    obtain rfl := hend.lineEnd_inv
    exact ⟨found, hfound⟩
  · rintro ⟨a, ha⟩
    exact ⟨a, [], Gives.bind ha rfl⟩

/-- A reader that looks at the line first. -/
theorem get_bind_run {next : List Located → LineReader β} :
    (((get : LineReader (List Located)) >>= next).run stop).run line =
      ((next line).run stop).run line := rfl

/-- A reader that has taken its first token by itself. -/
theorem set_bind_run {next : Unit → LineReader β} :
    (((set rest : LineReader Unit) >>= next).run stop).run line =
      ((next ()).run stop).run rest := rfl

theorem body_run_identifier {name : String} {span : Span} :
    (body.run stop).run (⟨.identifier name, span⟩ :: line) =
      ((toEnd (Body.instr <$> instr name span)).run stop).run line := by
  unfold body toEnd
  rw [get_bind_run, set_bind_run]

theorem body_run_directive {name : String} {span : Span} :
    (body.run stop).run (⟨.directive name, span⟩ :: line) =
      ((toEnd (Body.directive <$> directive name span)).run stop).run line := by
  unfold body toEnd
  rw [get_bind_run, set_bind_run]

/-- The reader of an instruction or directive takes a line to its end. -/
theorem body_gives_iff (stop : Nat) (line : List Located) :
    (∃ found rest, body.Gives stop line found rest) ↔ Body.Admits (line.map Located.token) := by
  unfold Gives
  cases line with
  | nil => exact ⟨(fun ⟨_, _, h⟩ => nomatch h), nofun⟩
  | cons first line =>
    obtain ⟨token, span⟩ := first
    cases token with
    | identifier name =>
      simp only [body_run_identifier]
      refine (gives_toEnd_iff ((instr_fills name span).map Body.instr) stop line).trans ?_
      constructor
      · rintro ⟨operands, htakes, hoperands⟩
        exact .instr htakes hoperands
      · intro h
        cases h with
        | instr htakes hoperands => exact ⟨_, htakes, hoperands⟩
    | directive name =>
      simp only [body_run_directive]
      refine (gives_toEnd_iff ((directive_fills name span).map Body.directive) stop line).trans ?_
      constructor
      · rintro ⟨operands, htakes, hoperands⟩
        exact .directive htakes hoperands
      · intro h
        cases h with
        | directive htakes hoperands => exact ⟨_, htakes, hoperands⟩
    | _ => exact ⟨(fun ⟨_, _, h⟩ => nomatch h), nofun⟩

end LineReader

/-! ## Labels of a line -/

theorem integer_ne_colon {token : Token} {n : Int} (h : token.integer? = some n) :
    token ≠ .colon := by
  rintro rfl
  exact nomatch h

/-- No operand starts with a colon, so that a name before a colon is a label. -/
theorem Operand.Admits.head {operand : Operand} {tokens : List Token}
    (h : operand.Admits tokens) : ∃ first rest, tokens = first :: rest ∧ first ≠ .colon := by
  induction h with
  | number h | absolute h => exact ⟨_, [], rfl, integer_ne_colon h⟩
  | register r => exact ⟨_, [], rfl, nofun⟩
  | label | labelAddress | labelPlus | labelMinus | labelTarget => exact ⟨_, _, rfl, nofun⟩
  | base | string => exact ⟨_, _, rfl, nofun⟩
  | words _ ih | direct _ ih => exact ih
  | based _ r ih =>
    obtain ⟨first, rest, rfl, hfirst⟩ := ih
    exact ⟨first, _, rfl, hfirst⟩

theorem not_separated_colon {operands : List Operand} {tokens : List Token} :
    ¬Operand.Separated operands (.colon :: tokens) := by
  intro h
  generalize htokens : Token.colon :: tokens = all at h
  cases h with
  | nil => exact nomatch htokens
  | last h =>
    obtain ⟨first, rest, rfl, hfirst⟩ := h.head
    exact hfirst (List.cons.inj htokens).1.symm
  | cons h _ =>
    obtain ⟨first, rest, rfl, hfirst⟩ := h.head
    exact hfirst (List.cons.inj htokens).1.symm

theorem lineForm_label_iff {name : String} {tokens : List Token} :
    LineForm (.identifier name :: .colon :: tokens) ↔ LineForm tokens := by
  constructor
  · intro h
    cases h with
    | body h =>
      cases h with
      | instr _ hoperands => exact absurd hoperands not_separated_colon
    | label _ h => exact h
  · exact .label name

/-- Labels are taken off a line as long as there are any. -/
theorem lineForm_iff (line : List Located) :
    LineForm (line.map Located.token) ↔
      (takeLabels line).2 = [] ∨ Body.Admits ((takeLabels line).2.map Located.token) := by
  induction line using takeLabels.induct with
  | case1 name span place rest labels body hrest ih =>
    rw [takeLabels, hrest]
    rw [hrest] at ih
    exact lineForm_label_iff.trans ih
  | case2 line hnolabel =>
    rw [takeLabels]
    · constructor
      · intro h
        generalize htokens : line.map Located.token = tokens at h
        cases h with
        | nothing => exact .inl (List.map_eq_nil_iff.mp htokens)
        | body h => exact .inr (htokens ▸ h)
        | label name h =>
          obtain ⟨⟨first, span⟩, others, rfl, rfl, hothers⟩ := List.map_eq_cons_iff.mp htokens
          obtain ⟨⟨second, place⟩, rest, rfl, rfl, rfl⟩ := List.map_eq_cons_iff.mp hothers
          exact absurd rfl (hnolabel name span place rest)
      · rintro (h | h)
        · obtain rfl : line = [] := h
          exact .nothing
        · exact .body h
    · exact hnolabel

/-! ## Whole sources -/

/-- The tokens of a line without errors. -/
theorem tokensOfLine_eq {line : List Lexeme} {tokens : List Token}
    (h : line.map Lexeme.result = tokens.map .ok) :
    firstLexError? line = none ∧
      (tokensOfLine line).map Located.token = tokens.filter (· ≠ .comment) := by
  induction line generalizing tokens with
  | nil =>
    obtain rfl := List.map_eq_nil_iff.mp h.symm
    exact ⟨rfl, rfl⟩
  | cons lexeme line ih =>
    obtain ⟨token, others, rfl, htoken, hothers⟩ := List.map_eq_cons_iff.mp h.symm
    obtain ⟨result, span⟩ := lexeme
    obtain rfl : result = .ok token := htoken.symm
    obtain ⟨herror, htokens⟩ := ih hothers.symm
    refine ⟨herror, ?_⟩
    by_cases hcomment : token = .comment
    · rw [hcomment]
      exact htokens
    · rw [tokensOfLine, List.map_cons, htokens, List.filter_cons_of_pos (by simpa using hcomment)]
      exact hcomment

/-- A line in which nothing is wrong for the lexer holds tokens only. -/
theorem exists_tokens {line : List Lexeme} (h : firstLexError? line = none) :
    ∃ tokens : List Token, line.map Lexeme.result = tokens.map .ok := by
  induction line with
  | nil => exact ⟨[], rfl⟩
  | cons lexeme line ih =>
    obtain ⟨result, span⟩ := lexeme
    cases result with
    | error cause => exact nomatch h
    | ok token =>
      obtain ⟨tokens, htokens⟩ := ih h
      exact ⟨token :: tokens, congrArg (Except.ok token :: ·) htokens⟩

theorem takeLabels_suffix (line : List Located) : (takeLabels line).2 <:+ line := by
  induction line using takeLabels.induct with
  | case1 name span place rest labels body hrest ih =>
    rw [takeLabels, hrest]
    rw [hrest] at ih
    exact (ih.trans (List.suffix_cons _ _)).trans (List.suffix_cons _ _)
  | case2 line hnolabel =>
    have hnone : takeLabels line = ([], line) := by
      rw [takeLabels]
      exact hnolabel
    exact ⟨[], congrArg Prod.snd hnone⟩

theorem wellFormedLine_iff (line : List Lexeme) :
    WellFormedLine line ↔
      firstLexError? line = none ∧ LineForm ((tokensOfLine line).map Located.token) := by
  constructor
  · rintro ⟨tokens, htokens, hform⟩
    obtain ⟨herror, hline⟩ := tokensOfLine_eq htokens
    exact ⟨herror, hline ▸ hform⟩
  · rintro ⟨herror, hform⟩
    obtain ⟨tokens, htokens⟩ := exists_tokens herror
    exact ⟨tokens, htokens, (tokensOfLine_eq htokens).2 ▸ hform⟩

/-- A line is parsed without an error exactly if it is well-formed. -/
theorem ofLexemes_error_iff (line : List Lexeme) :
    (ParsedLine.ofLexemes line).error = none ↔ WellFormedLine line := by
  rw [wellFormedLine_iff, lineForm_iff]
  have hsuffix := takeLabels_suffix (tokensOfLine line)
  unfold ParsedLine.ofLexemes
  dsimp only
  cases herror : firstLexError? line with
  | some error => simp
  | none =>
    generalize takeLabels (tokensOfLine line) = found at hsuffix ⊢
    obtain ⟨labels, rest⟩ := found
    cases rest with
    | nil => simp
    | cons first rest =>
      cases hlast : (tokensOfLine line).getLast? with
      | none =>
        rw [List.getLast?_eq_none_iff.mp hlast] at hsuffix
        exact absurd (List.suffix_nil.mp hsuffix) nofun
      | some last =>
        rw [← LineReader.body_gives_iff last.span.stop]
        unfold LineReader.Gives
        simp only [List.head?_cons, reduceCtorEq, false_or, true_and]
        cases (LineReader.body.run last.span.stop).run (first :: rest) with
        | ok found => simpa using ⟨found.1, found.2, rfl⟩
        | error error => simp

/-- The parser reports nothing exactly if all lines are well-formed. -/
theorem parse_errors_eq_nil_iff (chars : List Char) :
    (parse chars).2 = [] ↔ ∀ line ∈ splitLines (Token.lex chars), WellFormedLine line := by
  unfold parse parseLines
  rw [List.filterMap_eq_nil_iff, List.forall_mem_map]
  exact forall₂_congr fun line _ => ofLexemes_error_iff line

end MipsLab
