import MipsLab.Proofs.LineGrammar
import MipsLab.Proofs.Reassembly

/-!
# Lines further down a text

A line means the same wherever it stands in a text. If its lexemes stand a number of bytes further
down, so does everything that it is parsed to: its labels, its instruction or directive with the
labels in it, and its error.

1. `Label.shiftBy`, `Body.shiftBy`, `ParseError.shiftBy`, `ParsedLine.shiftBy`, `Statement.shiftBy`:
   the same thing further down.
2. `LineReader.Moves`: a reader gives the same further down, or fails with the same further down.
3. `LineReader.moves_instr`, `LineReader.moves_directive`, `LineReader.moves_body`: all readers do.
4. `ParsedLine.ofLexemes_shiftBy`, `Statement.gather_shiftBy`: so do lines, and statements.
-/

namespace MipsLab

/-! ## The same thing further down -/

variable (bytes : Nat)

def Span.shiftBy (s : Span) : Span := ⟨s.start + bytes, s.stop + bytes⟩

def Lexeme.shiftBy (l : Lexeme) : Lexeme := { l with span := l.span.shiftBy bytes }

def Located.shiftBy (l : Located) : Located := { l with span := l.span.shiftBy bytes }

def ParseError.shiftBy (e : ParseError) : ParseError := { e with span := e.span.shiftBy bytes }

def Label.shiftBy (l : Label) : Label := { l with start := l.start + bytes }

def AddressExpr.shiftBy : AddressExpr → AddressExpr
  | label l offset => label (l.shiftBy bytes) offset
  | value a => value a

def BranchTarget.shiftBy : BranchTarget → BranchTarget
  | label l => label (l.shiftBy bytes)
  | offset words => offset words

def MemOperand.shiftBy : MemOperand → MemOperand
  | based offset base => based offset base
  | direct address => direct (address.shiftBy bytes)

/-- An instruction further down: the labels in its operands are. -/
def SourceInstr.shiftBy : SourceInstr → SourceInstr
  | branch cond rs rt target => branch cond rs rt (target.shiftBy bytes)
  | load width rt operand => load width rt (operand.shiftBy bytes)
  | store width rt operand => store width rt (operand.shiftBy bytes)
  | j target => j (target.shiftBy bytes)
  | jal target => jal (target.shiftBy bytes)
  | la rt address => la rt (address.shiftBy bytes)
  | b target => b (target.shiftBy bytes)
  | beqz rs target => beqz rs (target.shiftBy bytes)
  | bnez rs target => bnez rs (target.shiftBy bytes)
  | compare cmp rs rt target => compare cmp rs rt (target.shiftBy bytes)
  | i => i

def Directive.shiftBy : Directive → Directive
  | globl l => globl (l.shiftBy bytes)
  | word values => word (values.map (AddressExpr.shiftBy bytes))
  | d => d

def Body.shiftBy : Body → Body
  | instr i => instr (i.shiftBy bytes)
  | directive d => directive (d.shiftBy bytes)

/-- A line further down. -/
def ParsedLine.shiftBy (l : ParsedLine) : ParsedLine where
  labels := l.labels.map (Label.shiftBy bytes)
  body := l.body.map (Prod.map (Body.shiftBy bytes) (Span.shiftBy bytes))
  error := l.error.map (ParseError.shiftBy bytes)

def Statement.shiftBy (s : Statement) : Statement where
  labels := s.labels.map (Label.shiftBy bytes)
  body := s.body.map (Body.shiftBy bytes)
  span := s.span.shiftBy bytes

/-- A label further down is written further down. -/
theorem Label.span_shiftBy (l : Label) : (l.shiftBy bytes).span = l.span.shiftBy bytes := by
  unfold span shiftBy Span.shiftBy
  rw [Nat.add_right_comm]

/-! ## Readers -/

namespace LineReader

variable {bytes} {α β : Type} {move : α → α} {move' : β → β}

/-- What has been read further down, and what is left of the line then. -/
def shiftEnd (bytes : Nat) (move : α → α) :
    Except ParseError (α × List Located) → Except ParseError (α × List Located)
  | .ok (a, rest) => .ok (move a, rest.map (Located.shiftBy bytes))
  | .error e => .error (e.shiftBy bytes)

/-- On a line further down, the reader `moved` gives what `reader` gives on the line itself, moved
by `move`, or fails with the same error further down. -/
def Moves (bytes : Nat) (move : α → α) (moved reader : LineReader α) : Prop :=
  ∀ stop line, (moved.run (stop + bytes)).run (line.map (Located.shiftBy bytes)) =
    shiftEnd bytes move ((reader.run stop).run line)

theorem Moves.bind {moved reader : LineReader α} {moved' next : α → LineReader β}
    (h : Moves bytes move moved reader)
    (hnext : ∀ a, Moves bytes move' (moved' (move a)) (next a)) :
    Moves bytes move' (moved >>= moved') (reader >>= next) := by
  intro stop line
  have hbind {reader : LineReader α} {next : α → LineReader β} {stop : Nat} {line : List Located} :
      ((reader >>= next).run stop).run line =
        (reader.run stop).run line >>= fun found => ((next found.1).run stop).run found.2 := rfl
  rw [hbind, hbind, h stop line]
  cases (reader.run stop).run line with
  | error e => rfl
  | ok found => exact hnext found.1 stop found.2

theorem moves_pure (a : α) : Moves bytes move (pure (move a)) (pure a) := fun _ _ => rfl

/-- What mentions no place is the same further down. -/
theorem moves_fixed {a : α} (h : move a = a) : Moves bytes move (pure a) (pure a) := by
  have hpure : Moves bytes move (pure (move a)) (pure a) := moves_pure a
  rwa [h] at hpure

theorem Moves.map {moved reader : LineReader α} {make make' : α → β}
    (h : Moves bytes move moved reader) (hmake : ∀ a, make' (move a) = move' (make a)) :
    Moves bytes move' (make' <$> moved) (make <$> reader) := by
  have hbind : Moves bytes move' (moved >>= fun a => pure (make' a))
      (reader >>= fun a => pure (make a)) := by
    refine h.bind fun a => ?_
    rw [hmake]
    exact moves_pure (make a)
  exact hbind

theorem moves_failAt (cause : ParseCause) (span : Span) :
    Moves bytes move (failAt cause (span.shiftBy bytes)) (failAt cause span) := fun _ _ => rfl

theorem moves_expected (wanted : String) :
    Moves bytes move (expected wanted) (expected wanted) := by
  intro stop line
  cases line <;> rfl

theorem moves_peek : Moves bytes id peek peek := by
  intro stop line
  cases line <;> rfl

/-! ### Single tokens -/

/-- What a token holds and where it stands, further down. -/
def shiftFound (bytes : Nat) : α × Span → α × Span := Prod.map id (Span.shiftBy bytes)

theorem moves_accept? (kind : Token → Option α) :
    Moves bytes (Option.map (shiftFound bytes)) (accept? kind) (accept? kind) := by
  intro stop line
  cases line with
  | nil => rfl
  | cons next rest =>
    obtain ⟨token, span⟩ := next
    show ((accept? kind).run (stop + bytes)).run (⟨token, span.shiftBy bytes⟩ :: rest.map _) = _
    rw [accept?_run, accept?_run]
    cases kind token <;> rfl

theorem moves_require (wanted : String) (kind : Token → Option α) :
    Moves bytes (shiftFound bytes) (require wanted kind) (require wanted kind) := by
  refine .bind (moves_accept? kind) fun found => ?_
  cases found with
  | some found => exact moves_pure found
  | none => exact moves_expected wanted

theorem moves_skip? (token : Token) : Moves bytes id (skip? token) (skip? token) := by
  refine .bind (moves_accept? _) fun found => ?_
  cases found <;> exact moves_pure _

theorem moves_skip (wanted : String) (token : Token) :
    Moves bytes id (skip wanted token) (skip wanted token) := by
  refine .bind (moves_skip? token) fun found => ?_
  cases found with
  | true => exact moves_pure ()
  | false => exact moves_expected wanted

/-! ### Registers and numbers -/

theorem moves_register : Moves bytes id register register :=
  .bind (moves_require _ _) fun found => moves_pure found.1

theorem moves_registerComma : Moves bytes id registerComma registerComma :=
  .bind moves_register fun r => .bind (moves_skip _ _) fun _ => moves_pure r

theorem moves_integer : Moves bytes (shiftFound bytes) integer integer := moves_require _ _

theorem moves_integerIn (low high : Int) :
    Moves bytes id (integerIn low high) (integerIn low high) := by
  refine .bind moves_integer fun found => ?_
  obtain ⟨n, span⟩ := found
  show Moves bytes id
    (if low ≤ n ∧ n ≤ high then pure n else failAt _ (span.shiftBy bytes))
    (if low ≤ n ∧ n ≤ high then pure n else failAt _ span)
  split
  · exact moves_pure n
  · exact moves_failAt _ _

theorem moves_toImmediate {kind : Signedness} {bits : Nat} (n : Int) (span : Span) :
    Moves bytes id (toImmediate n (span.shiftBy bytes) : LineReader (Imm kind bits))
      (toImmediate n span) := by
  unfold toImmediate
  cases (Imm.ofInt? n : Except ImmError (Imm kind bits)) with
  | ok imm => exact moves_pure imm
  | error cause => exact moves_failAt _ _

theorem moves_immediate {kind : Signedness} {bits : Nat} :
    Moves bytes id (immediate : LineReader (Imm kind bits)) immediate :=
  .bind moves_integer fun found => moves_toImmediate found.1 found.2

theorem moves_operationImmediate (op : ImmOp) :
    Moves bytes id (operationImmediate op) (operationImmediate op) := by
  unfold operationImmediate
  split
  · exact moves_immediate
  · exact .bind moves_immediate fun imm => moves_pure (Imm.truncate imm.value)

/-! ### Labels and addresses -/

theorem moves_label? : Moves bytes (Option.map (Label.shiftBy bytes)) label? label? := by
  refine .bind (moves_accept? _) fun found => ?_
  cases found with
  | none => exact moves_pure none
  | some found => exact moves_pure (some (Label.mk found.1 found.2.start))

theorem moves_labelOffset : Moves bytes id labelOffset labelOffset := by
  refine .bind (moves_skip? _) fun found => ?_
  cases found with
  | true => exact moves_integerIn _ _
  | false =>
    refine .bind (moves_accept? _) fun found => ?_
    cases found <;> exact moves_pure _

theorem moves_addressExpr : Moves bytes (AddressExpr.shiftBy bytes) addressExpr addressExpr := by
  refine .bind moves_label? fun found => ?_
  cases found with
  | some label =>
    exact .bind moves_labelOffset fun offset => moves_pure (AddressExpr.label label offset)
  | none =>
    refine .bind (moves_accept? _) fun found => ?_
    cases found with
    | some found => exact moves_pure (AddressExpr.value (Word.ofInt found.1))
    | none => exact moves_expected _

theorem moves_branchTarget :
    Moves bytes (BranchTarget.shiftBy bytes) branchTarget branchTarget := by
  refine .bind moves_label? fun found => ?_
  cases found with
  | some label => exact moves_pure (BranchTarget.label label)
  | none =>
    refine .bind (moves_accept? _) fun found => ?_
    cases found with
    | some found =>
      exact .bind (moves_toImmediate found.1 found.2) fun words =>
        moves_pure (BranchTarget.offset words)
    | none => exact moves_expected _

theorem moves_base : Moves bytes id base base :=
  .bind (moves_skip _ _) fun _ => .bind moves_register fun r =>
    .bind (moves_skip _ _) fun _ => moves_pure r

/-- What follows the number of a memory operand is only looked at. -/
theorem moves_numberedPlace :
    Moves bytes (MemOperand.shiftBy bytes) numberedPlace numberedPlace := by
  refine .bind moves_integer fun found => .bind moves_peek fun next => ?_
  obtain ⟨n, span⟩ := found
  simp only [id]
  split
  · exact .bind (moves_toImmediate n span) fun offset =>
      .bind moves_base fun r => moves_pure (MemOperand.based offset r)
  · exact moves_pure (MemOperand.direct (.value (Word.ofInt n)))

theorem moves_memOperand : Moves bytes (MemOperand.shiftBy bytes) memOperand memOperand := by
  refine .bind moves_peek fun next => ?_
  cases next with
  | none => exact moves_expected _
  | some token =>
    cases token with
    | leftParen => exact .bind moves_base fun r => moves_pure (MemOperand.based (Imm.truncate 0) r)
    | identifier name =>
      exact .bind moves_addressExpr fun address => moves_pure (MemOperand.direct address)
    | unsigned | signed => exact moves_numberedPlace
    | _ => exact moves_expected _

/-! ### Lists and strings -/

theorem moves_furtherItems {item : LineReader α} (h : Moves bytes move item item) (fuel : Nat) :
    Moves bytes (List.map move) (furtherItems item fuel) (furtherItems item fuel) := by
  induction fuel with
  | zero => exact moves_pure []
  | succ fuel ih =>
    refine .bind (moves_skip? _) fun found => ?_
    cases found with
    | true => exact .bind h fun next => .bind ih fun rest => moves_pure (next :: rest)
    | false => exact moves_pure []

theorem moves_items {item : LineReader α} (h : Moves bytes move item item) :
    Moves bytes (List.map move) (items item) (items item) := by
  refine .bind h fun first => ?_
  have hget : Moves bytes (List.map (Located.shiftBy bytes)) get get := fun _ _ => rfl
  refine .bind hget fun line => ?_
  rw [List.length_map]
  exact .bind (moves_furtherItems h _) fun rest => moves_pure (first :: rest)

theorem moves_string : Moves bytes id string string :=
  .bind (moves_require _ _) fun found => moves_pure found.1

/-! ### Instructions -/

theorem moves_aluOperands (op : AluOp) :
    Moves bytes (SourceInstr.shiftBy bytes) (aluOperands op) (aluOperands op) := by
  refine .bind moves_registerComma fun rd => .bind moves_registerComma fun first =>
    .bind moves_register fun second => moves_fixed ?_
  cases op.isVariableShift <;> rfl

theorem moves_shiftOperands (op : ShiftOp) :
    Moves bytes (SourceInstr.shiftBy bytes) (shiftOperands op) (shiftOperands op) :=
  .bind moves_registerComma fun _ => .bind moves_registerComma fun _ =>
    .bind moves_immediate fun _ => moves_fixed rfl

theorem moves_mulDivOperands (op : MulDivOp) :
    Moves bytes (SourceInstr.shiftBy bytes) (mulDivOperands op) (mulDivOperands op) :=
  .bind moves_registerComma fun _ => .bind moves_register fun _ => moves_fixed rfl

theorem moves_immOperands (op : ImmOp) :
    Moves bytes (SourceInstr.shiftBy bytes) (immOperands op) (immOperands op) :=
  .bind moves_registerComma fun _ => .bind moves_registerComma fun _ =>
    .bind (moves_operationImmediate op) fun _ => moves_fixed rfl

theorem moves_branchOperands (cond : BranchCond) :
    Moves bytes (SourceInstr.shiftBy bytes) (branchOperands cond) (branchOperands cond) := by
  have htarget (rs rt : Reg) : Moves bytes (SourceInstr.shiftBy bytes)
      (branchTarget >>= fun target => pure (.branch cond rs rt target))
      (branchTarget >>= fun target => pure (.branch cond rs rt target)) :=
    .bind moves_branchTarget fun target => moves_pure (SourceInstr.branch cond rs rt target)
  unfold branchOperands
  refine .bind moves_registerComma fun rs => ?_
  cases cond.isBinary with
  | true => exact .bind moves_registerComma fun rt => htarget rs rt
  | false => exact htarget rs Reg.zero

theorem moves_loadOperands (width : Width) :
    Moves bytes (SourceInstr.shiftBy bytes) (loadOperands width) (loadOperands width) :=
  .bind moves_registerComma fun rt => .bind moves_memOperand fun operand =>
    moves_pure (SourceInstr.load width rt operand)

theorem moves_storeOperands (width : Width) :
    Moves bytes (SourceInstr.shiftBy bytes) (storeOperands width) (storeOperands width) :=
  .bind moves_registerComma fun rt => .bind moves_memOperand fun operand =>
    moves_pure (SourceInstr.store width rt operand)

theorem moves_compareOperands (cmp : Comparison) :
    Moves bytes (SourceInstr.shiftBy bytes) (compareOperands cmp) (compareOperands cmp) :=
  .bind moves_registerComma fun rs => .bind moves_registerComma fun rt =>
    .bind moves_branchTarget fun target => moves_pure (SourceInstr.compare cmp rs rt target)

theorem moves_jalrOperands :
    Moves bytes (SourceInstr.shiftBy bytes) jalrOperands jalrOperands := by
  refine .bind moves_register fun first => .bind (moves_skip? _) fun found => ?_
  cases found with
  | true => exact .bind moves_register fun _ => moves_fixed rfl
  | false => exact moves_fixed rfl

theorem moves_withRegister {make : Reg → α → SourceInstr} {operand : LineReader α}
    (h : Moves bytes move operand operand)
    (hmake : ∀ r a, make r (move a) = (make r a).shiftBy bytes) :
    Moves bytes (SourceInstr.shiftBy bytes) (withRegister make operand)
      (withRegister make operand) :=
  .bind moves_registerComma fun r => Moves.map h (hmake r)

theorem moves_otherOperands {mnemonic : String} {reader : LineReader SourceInstr}
    (h : otherOperands? mnemonic = some reader) :
    Moves bytes (SourceInstr.shiftBy bytes) reader reader := by
  unfold otherOperands? at h
  split at h <;> cases h
  case h_1 | h_3 | h_4 | h_5 | h_6 => exact moves_register.map fun _ => rfl
  case h_2 => exact moves_jalrOperands
  case h_7 | h_8 | h_9 => exact moves_fixed rfl
  case h_10 => exact moves_withRegister moves_immediate fun _ _ => rfl
  case h_11 | h_12 => exact moves_addressExpr.map fun _ => rfl
  case h_13 => exact moves_withRegister (moves_integerIn _ _) fun _ _ => rfl
  case h_14 => exact moves_withRegister moves_addressExpr fun _ _ => rfl
  case h_15 | h_19 | h_20 => exact moves_withRegister moves_register fun _ _ => rfl
  case h_16 => exact moves_branchTarget.map fun _ => rfl
  case h_17 | h_18 => exact moves_withRegister moves_branchTarget fun _ _ => rfl

/-- Every instruction that the parser knows is read the same further down. -/
theorem moves_instrOperands {mnemonic : String} {reader : LineReader SourceInstr}
    (h : instrOperands? mnemonic = some reader) :
    Moves bytes (SourceInstr.shiftBy bytes) reader reader := by
  cases readsInstr_of_some h with
  | alu op => exact moves_aluOperands op
  | shift op => exact moves_shiftOperands op
  | mulDiv op => exact moves_mulDivOperands op
  | imm op => exact moves_immOperands op
  | branch cond => exact moves_branchOperands cond
  | load width => exact moves_loadOperands width
  | store => exact moves_storeOperands _
  | compare cmp => exact moves_compareOperands cmp
  | other h => exact moves_otherOperands h

theorem moves_instr (mnemonic : String) (span : Span) :
    Moves bytes (SourceInstr.shiftBy bytes) (instr mnemonic (span.shiftBy bytes))
      (instr mnemonic span) := by
  unfold instr
  cases h : instrOperands? (Text.asciiLowercase mnemonic) with
  | some reader => exact moves_instrOperands h
  | none => exact moves_failAt _ _

/-! ### Directives -/

theorem moves_label : Moves bytes (Label.shiftBy bytes) label label := by
  refine .bind moves_label? fun found => ?_
  cases found with
  | some label => exact moves_pure label
  | none => exact moves_expected _

/-- An integer that is kept in another form. -/
theorem moves_integerAs (low high : Int) (make : Int → α) :
    Moves bytes id (integerIn low high >>= fun n => pure (make n))
      (integerIn low high >>= fun n => pure (make n)) :=
  .bind (moves_integerIn low high) fun _ => moves_fixed rfl

theorem moves_directiveOperands {name : String} {reader : LineReader Directive}
    (h : directiveOperands? name = some reader) :
    Moves bytes (Directive.shiftBy bytes) reader reader := by
  unfold directiveOperands? at h
  split at h <;> cases h
  case h_1 | h_2 => exact moves_fixed rfl
  case h_3 | h_4 => exact moves_label.map fun _ => rfl
  case h_5 => exact (moves_items moves_addressExpr).map fun _ => rfl
  case h_6 | h_7 =>
    refine (moves_items (moves_integerAs _ _ _)).map fun values => ?_
    rw [List.map_id]
    rfl
  case h_8 | h_9 => exact moves_string.map fun _ => rfl
  case h_10 | h_11 => exact .bind (moves_integerIn _ _) fun _ => moves_fixed rfl

theorem moves_directive (name : String) (span : Span) :
    Moves bytes (Directive.shiftBy bytes) (directive name (span.shiftBy bytes))
      (directive name span) := by
  unfold directive
  cases h : directiveOperands? name with
  | some reader => exact moves_directiveOperands h
  | none => exact moves_failAt _ _

/-! ### The body of a line -/

theorem moves_lineEnd : Moves bytes id lineEnd lineEnd := by
  refine .bind moves_peek fun next => ?_
  cases next with
  | some token => exact moves_expected _
  | none => exact moves_pure ()

theorem moves_body : Moves bytes (Body.shiftBy bytes) body body := by
  have hget : Moves bytes (List.map (Located.shiftBy bytes)) get get := fun _ _ => rfl
  have hset (rest : List Located) : Moves bytes id (set (rest.map (Located.shiftBy bytes)))
      (set rest : LineReader Unit) := fun _ _ => rfl
  have hend (found : Body) : Moves bytes (Body.shiftBy bytes)
      (lineEnd >>= fun _ => pure (found.shiftBy bytes)) (lineEnd >>= fun _ => pure found) :=
    .bind moves_lineEnd fun _ => moves_pure found
  refine .bind hget fun line => ?_
  cases line with
  | nil => exact .bind (moves_expected _) hend
  | cons next rest =>
    obtain ⟨token, span⟩ := next
    cases token with
    | directive name =>
      exact .bind (hset rest) fun _ => .bind ((moves_directive name span).map fun _ => rfl) hend
    | identifier name =>
      exact .bind (hset rest) fun _ => .bind ((moves_instr name span).map fun _ => rfl) hend
    | _ => exact .bind (moves_expected _) hend

end LineReader

/-! ## Lines -/

section Lines

variable {bytes}

theorem splitLines_ne_nil (lexemes : List Lexeme) : splitLines lexemes ≠ [] := by
  unfold splitLines
  split
  · exact List.cons_ne_nil _ _
  · split <;> exact List.cons_ne_nil _ _

theorem splitLines_shiftBy (lexemes : List Lexeme) :
    splitLines (lexemes.map (Lexeme.shiftBy bytes)) =
      (splitLines lexemes).map (List.map (Lexeme.shiftBy bytes)) := by
  induction lexemes with
  | nil => rfl
  | cons lexeme rest ih =>
    have hresult : (lexeme.shiftBy bytes).result = lexeme.result := rfl
    rw [List.map_cons]
    by_cases hnewline : lexeme.result = .ok .newline
    · rw [splitLines_newline hnewline, splitLines_newline (hresult.trans hnewline), ih,
        List.map_cons, List.map_nil]
    · obtain ⟨line, lines, hlines⟩ := List.exists_cons_of_ne_nil (splitLines_ne_nil rest)
      rw [hlines, List.map_cons] at ih
      rw [splitLines_cons hnewline hlines, splitLines_cons (hresult ▸ hnewline) ih, List.map_cons,
        List.map_cons]

theorem tokensOfLine_shiftBy (line : List Lexeme) :
    tokensOfLine (line.map (Lexeme.shiftBy bytes)) =
      (tokensOfLine line).map (Located.shiftBy bytes) := by
  induction line with
  | nil => rfl
  | cons lexeme line ih =>
    obtain ⟨result, span⟩ := lexeme
    cases result with
    | error cause => rfl
    | ok token =>
      cases token with
      | comment => exact ih
      | _ => exact congrArg (List.cons _) ih

theorem firstLexError?_shiftBy (line : List Lexeme) :
    firstLexError? (line.map (Lexeme.shiftBy bytes)) =
      (firstLexError? line).map (ParseError.shiftBy bytes) := by
  induction line with
  | nil => rfl
  | cons lexeme line ih =>
    obtain ⟨result, span⟩ := lexeme
    cases result with
    | error cause => rfl
    | ok token => exact ih

theorem takeLabels_none {line : List Located}
    (h : ∀ name span place rest,
      line ≠ ⟨.identifier name, span⟩ :: ⟨.colon, place⟩ :: rest) :
    takeLabels line = ([], line) := by
  unfold takeLabels
  split
  · exact absurd rfl (h _ _ _ _)
  · rfl

theorem takeLabels_shiftBy (line : List Located) :
    takeLabels (line.map (Located.shiftBy bytes)) =
      ((takeLabels line).1.map (Label.shiftBy bytes),
        (takeLabels line).2.map (Located.shiftBy bytes)) := by
  induction line using takeLabels.induct with
  | case1 name span colon rest labels body htake ih =>
    simp only [List.map_cons, Located.shiftBy, takeLabels, ih]
    rfl
  | case2 line hno =>
    rw [takeLabels_none fun name span place rest hline => hno name span place rest hline,
      takeLabels_none, List.map_nil]
    intro name span place rest hline
    obtain ⟨⟨_, first⟩, _, rfl, hfirst, hline⟩ := List.map_eq_cons_iff.mp hline
    obtain ⟨⟨_, second⟩, behind, rfl, hsecond, -⟩ := List.map_eq_cons_iff.mp hline
    obtain rfl : _ = Token.identifier name := congrArg Located.token hfirst
    obtain rfl : _ = Token.colon := congrArg Located.token hsecond
    exact hno name first second behind rfl

/-- A line further down is parsed to the same, further down. -/
theorem ParsedLine.ofLexemes_shiftBy (line : List Lexeme) :
    ofLexemes (line.map (Lexeme.shiftBy bytes)) = (ofLexemes line).shiftBy bytes := by
  unfold ofLexemes
  simp only [tokensOfLine_shiftBy, takeLabels_shiftBy, firstLexError?_shiftBy]
  obtain ⟨labels, rest⟩ := takeLabels (tokensOfLine line)
  cases firstLexError? line with
  | some error => rfl
  | none =>
    simp only [Option.map_none, List.head?_map, List.getLast?_map]
    cases rest.head? with
    | none => rfl
    | some first =>
      cases (tokensOfLine line).getLast? with
      | none => rfl
      | some last =>
        have hbody : (LineReader.body.run (last.span.stop + bytes)).run
            (rest.map (Located.shiftBy bytes)) = _ :=
          LineReader.moves_body last.span.stop rest
        have hstop : (last.shiftBy bytes).span.stop = last.span.stop + bytes := rfl
        simp only [Option.map_some, hstop, hbody]
        cases (LineReader.body.run last.span.stop).run rest <;> rfl

theorem Statement.ofTrailing_shiftBy (labels : List Label) :
    ofTrailing (labels.map (Label.shiftBy bytes)) =
      (ofTrailing labels).map (Statement.shiftBy bytes) := by
  unfold ofTrailing
  rw [List.getLast?_map]
  cases labels.getLast? with
  | none => rfl
  | some last =>
    simp only [Option.map_some, List.map_singleton, Label.span_shiftBy]
    rfl

/-- Lines further down make the same statements, further down. -/
theorem Statement.gather_shiftBy (pending : List Label) (lines : List ParsedLine) :
    gather (pending.map (Label.shiftBy bytes)) (lines.map (ParsedLine.shiftBy bytes)) =
      (gather pending lines).map (Statement.shiftBy bytes) := by
  induction lines generalizing pending with
  | nil => exact ofTrailing_shiftBy pending
  | cons line rest ih =>
    obtain ⟨labels, body, error⟩ := line
    have hpending : pending.map (Label.shiftBy bytes) ++ labels.map (Label.shiftBy bytes) =
        (pending ++ labels).map (Label.shiftBy bytes) :=
      List.map_append.symm
    cases body with
    | none =>
      rw [List.map_cons, gather, gather, ← ih, ← hpending]
      rfl
    | some found =>
      rw [List.map_cons, gather, gather, List.map_cons, ← ih []]
      exact congrArg (fun all => Statement.mk all _ _ :: _) hpending

end Lines

end MipsLab
