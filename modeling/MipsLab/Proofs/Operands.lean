import MipsLab.Statement.Grammar

/-!
# Reading operands

What a reader makes of the tokens that an operand is written with, wherever they stand.

1. `LineReader.Reads`: a reader takes certain tokens off a line, and gives a value.
2. `LineReader.Reads.bind`: readers one after the other.
3. `LineReader.reads_register`, `LineReader.reads_immediate`, `LineReader.reads_branchTarget`,
   `LineReader.reads_memOperand`: single operands.
4. `LineReader.body_run_instr`: a line of an instruction.
-/

namespace MipsLab.LineReader

/-- A reader takes some tokens off the front of a line, whatever stands behind them, and gives a
value. -/
def Reads {α : Type} (reader : LineReader α) (tokens : List Token) (value : α) : Prop :=
  ∀ stop line rest, line.map Located.token = tokens →
    (reader.run stop).run (line ++ rest) = .ok (value, rest)

variable {α β : Type} {reader : LineReader α} {ts us : List Token} {a : α} {b : β}

theorem bind_run {stop : Nat} {line line' : List Located} {next : α → LineReader β}
    (h : (reader.run stop).run line = .ok (a, line')) :
    ((reader >>= next).run stop).run line = ((next a).run stop).run line' := by
  have hbind : ((reader >>= next).run stop).run line =
      (reader.run stop).run line >>= fun found => ((next found.1).run stop).run found.2 := rfl
  rw [hbind, h]
  rfl

theorem map_run {stop : Nat} {line line' : List Located} (make : α → β)
    (h : (reader.run stop).run line = .ok (a, line')) :
    ((make <$> reader).run stop).run line = .ok (make a, line') := by
  have hmap : make <$> reader = reader >>= fun a => pure (make a) := rfl
  rw [hmap, bind_run h]
  rfl

theorem reads_pure (a : α) : Reads (pure a) [] a := by
  intro stop line rest h
  rw [List.map_eq_nil_iff.mp h]
  rfl

/-- Readers one after the other take their tokens one after the other. -/
theorem Reads.bind {next : α → LineReader β} (h : Reads reader ts a) (h' : Reads (next a) us b) :
    Reads (reader >>= next) (ts ++ us) b := by
  intro stop line rest hline
  obtain ⟨first, second, rfl, hfirst, hsecond⟩ := List.map_eq_append_iff.mp hline
  rw [List.append_assoc, bind_run (h stop first _ hfirst)]
  exact h' stop second rest hsecond

/-- A reader with a last step that takes nothing. -/
theorem Reads.bind_pure {next : α → LineReader β} (h : Reads reader ts a)
    (h' : Reads (next a) [] b) : Reads (reader >>= next) ts b := by
  have hbind := h.bind h'
  rw [List.append_nil] at hbind
  exact hbind

theorem Reads.map (h : Reads reader ts a) (make : α → β) : Reads (make <$> reader) ts (make a) := by
  intro stop line rest hline
  exact map_run make (h stop line rest hline)

/-! ## Single tokens -/

section Tokens

variable {token : Token} {kind : Token → Option α} {span : Span} {rest : List Located} {stop : Nat}

theorem accept?_run :
    ((accept? kind).run stop).run (⟨token, span⟩ :: rest) =
      match kind token with
      | some held => .ok (some (held, span), rest)
      | none => .ok (none, ⟨token, span⟩ :: rest) := by
  unfold accept?
  show (((match kind token with
    | some held => do
      set rest
      return some (held, span)
    | none => return none : LineReader (Option (α × Span))).run stop).run
      (⟨token, span⟩ :: rest)) = _
  cases kind token <;> rfl

theorem accept?_some (h : kind token = some a) :
    ((accept? kind).run stop).run (⟨token, span⟩ :: rest) = .ok (some (a, span), rest) := by
  rw [accept?_run, h]

theorem accept?_none (h : kind token = none) :
    ((accept? kind).run stop).run (⟨token, span⟩ :: rest) =
      .ok (none, ⟨token, span⟩ :: rest) := by
  rw [accept?_run, h]

/-- A token of the kind that is wanted. -/
theorem require_run (wanted : String) (h : kind token = some a) :
    ((require wanted kind).run stop).run (⟨token, span⟩ :: rest) = .ok ((a, span), rest) := by
  unfold require
  rw [bind_run (accept?_some h)]
  rfl

theorem label?_none (h : token.name? = none) :
    (label?.run stop).run (⟨token, span⟩ :: rest) = .ok (none, ⟨token, span⟩ :: rest) := by
  unfold label?
  rw [bind_run (accept?_none h)]
  rfl

end Tokens

/-- A line of one token. -/
theorem line_of_token {token : Token} {line : List Located}
    (h : line.map Located.token = [token]) : ∃ span, line = [⟨token, span⟩] := by
  obtain ⟨⟨written, span⟩, rfl, rfl⟩ := List.map_eq_singleton_iff.mp h
  exact ⟨span, rfl⟩

theorem reads_register (r : Reg) : Reads register [.register r] r := by
  intro stop line rest h
  obtain ⟨span, rfl⟩ := line_of_token h
  have hkind : Token.reg? (.register r) = some r := rfl
  unfold register
  rw [List.singleton_append, bind_run (require_run "register" hkind)]
  rfl

theorem reads_skip? (token : Token) : Reads (skip? token) [token] true := by
  intro stop line rest h
  obtain ⟨span, rfl⟩ := line_of_token h
  have hkind : (if token = token then some () else none) = some () := if_pos rfl
  unfold skip?
  rw [List.singleton_append, bind_run (accept?_some hkind)]
  rfl

theorem reads_skip (wanted : String) (token : Token) : Reads (skip wanted token) [token] () :=
  (reads_skip? token).bind_pure (reads_pure ())

theorem reads_registerComma (r : Reg) : Reads registerComma [.register r, .comma] r :=
  (reads_register r).bind ((reads_skip "','" .comma).bind_pure (reads_pure r))

theorem reads_base (r : Reg) : Reads base [.leftParen, .register r, .rightParen] r :=
  (reads_skip "'('" .leftParen).bind
    ((reads_register r).bind ((reads_skip "')'" .rightParen).bind_pure (reads_pure r)))

/-! ## Numbers -/

section Numbers

variable {kind : Signedness} {bits : Nat} {token : Token} {imm : Imm kind bits}

/-- A number that has been an immediate is one again. -/
theorem reads_toImmediate (imm : Imm kind bits) (span : Span) :
    Reads (toImmediate imm.value span) [] imm := by
  unfold toImmediate
  rw [Imm.ofInt?_eq_ok_iff.mpr rfl]
  exact reads_pure imm

theorem integer_run {span : Span} {rest : List Located} {stop : Nat} {n : Int}
    (h : token.integer? = some n) :
    (integer.run stop).run (⟨token, span⟩ :: rest) = .ok ((n, span), rest) :=
  require_run "integer" h

theorem reads_immediate (h : token.integer? = some imm.value) : Reads immediate [token] imm := by
  intro stop line rest hline
  obtain ⟨span, rfl⟩ := line_of_token hline
  unfold immediate
  rw [List.singleton_append, bind_run (integer_run h)]
  exact reads_toImmediate imm span stop [] rest rfl

/-! ## Targets and places in memory -/

theorem reads_branchTarget {words : SImm16} (hname : token.name? = none)
    (h : token.integer? = some words.value) :
    Reads branchTarget [token] (.offset words) := by
  intro stop line rest hline
  obtain ⟨span, rfl⟩ := line_of_token hline
  unfold branchTarget
  rw [List.singleton_append, bind_run (label?_none hname)]
  simp only
  rw [bind_run (accept?_some h)]
  exact ((reads_toImmediate words span).map BranchTarget.offset) stop [] rest rfl

theorem reads_addressExpr {n : Int} (hname : token.name? = none) (h : token.integer? = some n) :
    Reads addressExpr [token] (.value (Word.ofInt n)) := by
  intro stop line rest hline
  obtain ⟨span, rfl⟩ := line_of_token hline
  unfold addressExpr
  rw [List.singleton_append, bind_run (label?_none hname)]
  simp only
  rw [bind_run (accept?_some h)]
  rfl

theorem peek_run {line : List Located} {stop : Nat} :
    (peek.run stop).run line = .ok (line.head?.map Located.token, line) := rfl

/-- A number with a parenthesis behind it is an offset. -/
theorem based_run {offset : SImm16} {r : Reg} {span : Span} {stop : Nat}
    {line rest : List Located} (h : token.integer? = some offset.value)
    (hline : line.map Located.token = [.leftParen, .register r, .rightParen]) :
    (((do
      let (n, span) ← integer
      if (← peek) = some .leftParen then
        let offset ← toImmediate n span
        return .based offset (← base)
      else return .direct (.value (Word.ofInt n)) : LineReader MemOperand).run stop).run
        (⟨token, span⟩ :: (line ++ rest))) = .ok (.based offset r, rest) := by
  obtain ⟨⟨written, place⟩, others, rfl, rfl, hothers⟩ := List.map_eq_cons_iff.mp hline
  rw [bind_run (integer_run h)]
  simp only
  have hparen : (Located.mk .leftParen place :: others ++ rest).head?.map Located.token =
      some .leftParen := rfl
  rw [bind_run peek_run, if_pos hparen]
  have hbase := (reads_base r).map (MemOperand.based offset)
  exact ((reads_toImmediate offset span).bind hbase) stop _ rest hline

theorem reads_memOperand {offset : SImm16} {r : Reg} (h : token.integer? = some offset.value) :
    Reads memOperand [token, .leftParen, .register r, .rightParen] (.based offset r) := by
  intro stop line rest hline
  obtain ⟨⟨written, span⟩, others, rfl, rfl, hothers⟩ := List.map_eq_cons_iff.mp hline
  unfold memOperand
  rw [List.cons_append, bind_run peek_run]
  cases written with
  | unsigned value => exact based_run h hothers
  | signed value => exact based_run h hothers
  | _ => exact nomatch h

/-! ## Operands of instructions -/

/-- The variable shifts have their registers in another order. -/
theorem reads_aluOperands (op : AluOp) (rd first second : Reg) :
    Reads (aluOperands op) [.register rd, .comma, .register first, .comma, .register second]
      (if op.isVariableShift then .alu op rd second first else .alu op rd first second) :=
  (reads_registerComma rd).bind ((reads_registerComma first).bind
    ((reads_register second).bind_pure (reads_pure _)))

theorem reads_shiftOperands (op : ShiftOp) (rd rt : Reg) {amount : Shamt}
    (h : token.integer? = some amount.value) :
    Reads (shiftOperands op) [.register rd, .comma, .register rt, .comma, token]
      (.shift op rd rt amount) :=
  (reads_registerComma rd).bind ((reads_registerComma rt).bind
    ((reads_immediate h).bind_pure (reads_pure _)))

theorem reads_mulDivOperands (op : MulDivOp) (rs rt : Reg) :
    Reads (mulDivOperands op) [.register rs, .comma, .register rt] (.mulDiv op rs rt) :=
  (reads_registerComma rs).bind ((reads_register rt).bind_pure (reads_pure _))

theorem reads_operationImmediate {op : ImmOp} {value : UImm16}
    (h : token.integer? = some
      (if op.zeroExtends then value.value else Signedness.signed.wrap 16 value.value)) :
    Reads (operationImmediate op) [token] value := by
  unfold operationImmediate
  cases hop : op.zeroExtends with
  | true =>
    rw [hop, if_pos rfl] at h
    exact reads_immediate h
  | false =>
    rw [hop, if_neg nofun] at h
    -- The number is read with its sign, of which the bits are kept.
    have hsigned : Reads immediate [token] (Imm.truncate value.value : SImm16) :=
      reads_immediate h
    have hbits : Imm.truncate (Imm.truncate value.value : SImm16).value = value := by
      apply Imm.ext
      show value.value.bmod (2 ^ 16) % (2 ^ 16 : Nat) = value.value
      rw [Int.bmod_emod]
      exact value.fits
    refine hsigned.bind_pure ?_
    rw [hbits]
    exact reads_pure value

theorem reads_immOperands {op : ImmOp} (rt rs : Reg) {value : UImm16}
    (h : token.integer? = some
      (if op.zeroExtends then value.value else Signedness.signed.wrap 16 value.value)) :
    Reads (immOperands op) [.register rt, .comma, .register rs, .comma, token]
      (.aluImm op rt rs value) :=
  (reads_registerComma rt).bind ((reads_registerComma rs).bind
    ((reads_operationImmediate h).bind_pure (reads_pure _)))

theorem reads_branchOperands_two {cond : BranchCond} (hcond : cond.isBinary = true) (rs rt : Reg)
    {words : SImm16} (hname : token.name? = none) (h : token.integer? = some words.value) :
    Reads (branchOperands cond) [.register rs, .comma, .register rt, .comma, token]
      (.branch cond rs rt (.offset words)) := by
  refine (reads_registerComma rs).bind ?_
  rw [hcond, if_pos rfl]
  exact (reads_registerComma rt).bind ((reads_branchTarget hname h).bind_pure (reads_pure _))

theorem reads_branchOperands_one {cond : BranchCond} (hcond : cond.isBinary = false) (rs : Reg)
    {words : SImm16} (hname : token.name? = none) (h : token.integer? = some words.value) :
    Reads (branchOperands cond) [.register rs, .comma, token]
      (.branch cond rs Reg.zero (.offset words)) := by
  refine (reads_registerComma rs).bind ?_
  rw [hcond, if_neg nofun]
  exact (reads_pure Reg.zero).bind ((reads_branchTarget hname h).bind_pure (reads_pure _))

theorem reads_loadOperands (width : Width) (rt base : Reg) {offset : SImm16}
    (h : token.integer? = some offset.value) :
    Reads (loadOperands width)
      [.register rt, .comma, token, .leftParen, .register base, .rightParen]
      (.load width rt (.based offset base)) :=
  (reads_registerComma rt).bind ((reads_memOperand h).bind_pure (reads_pure _))

theorem reads_storeOperands (width : Width) (rt base : Reg) {offset : SImm16}
    (h : token.integer? = some offset.value) :
    Reads (storeOperands width)
      [.register rt, .comma, token, .leftParen, .register base, .rightParen]
      (.store width rt (.based offset base)) :=
  (reads_registerComma rt).bind ((reads_memOperand h).bind_pure (reads_pure _))

theorem reads_jalrOperands (rd rs : Reg) :
    Reads jalrOperands [.register rd, .comma, .register rs] (.jalr rd rs) := by
  refine (reads_register rd).bind ((reads_skip? .comma).bind ?_)
  rw [if_pos rfl]
  exact (reads_register rs).bind_pure (reads_pure _)

theorem reads_withRegister {operand : LineReader α} (make : Reg → α → SourceInstr) (r : Reg)
    (h : Reads operand ts a) :
    Reads (withRegister make operand) (.register r :: .comma :: ts) (make r a) :=
  (reads_registerComma r).bind (h.bind_pure (reads_pure _))

end Numbers

/-! ## Lines -/

/-- A line that starts with a mnemonic, and that its operands fill. -/
theorem body_run_instr {name : String} {span : Span} {rest : List Located} {stop : Nat}
    {s : SourceInstr} (h : ((instr name span).run stop).run rest = .ok (s, [])) :
    (body.run stop).run (⟨.identifier name, span⟩ :: rest) = .ok (.instr s, []) := by
  have hget : ((get : LineReader (List Located)).run stop).run (⟨.identifier name, span⟩ :: rest) =
      .ok (_, _) := rfl
  have hset : ((set rest : LineReader Unit).run stop).run (⟨.identifier name, span⟩ :: rest) =
      .ok ((), rest) := rfl
  unfold body
  rw [bind_run hget]
  simp only
  rw [bind_run hset, bind_run (map_run Body.instr h)]
  rfl

end MipsLab.LineReader
