import MipsLab.Proofs.ExactArithmetic
import MipsLab.Proofs.LineGrammar
import MipsLab.Proofs.ReaderPlaces

/-!
# The operands of loads and stores

What follows the register of a load or store is a place in memory: an address in a register, with an
offset or without, or an address as it is written. Each of them is written in one way only, and
everything else that may stand there is one error, of a token that stands there or of the end of the
line.

1. `MemOperand.Written`: what is written for an operand.
2. `LineReader.gives_memOperand_iff`: the reader of operands takes exactly that to the end of a
   line.
3. `AccessLine`, `LineReader.body_run_access`: lines of loads and stores.
4. `memory_operands_exact`: the operand or the error of such a line.
-/

namespace MipsLab

/-! ## Written operands -/

/-- What a memory operand is written with, and what it stands for. A label that it starts with
stands at the place where the operand starts. -/
inductive MemOperand.Written (start : Nat) : List Token → MemOperand → Prop
  | base {offset : SImm16} (r : Reg) (hoffset : offset.value = 0) :
    Written start [.leftParen, .register r, .rightParen] (.based offset r)
  | based {token : Token} {n : Int} {offset : SImm16} (r : Reg) (h : token.integer? = some n)
    (hlow : -32768 ≤ n) (hhigh : n ≤ 32767) (hoffset : offset.value = n) :
    Written start [token, .leftParen, .register r, .rightParen] (.based offset r)
  | number {token : Token} {n : Int} {address : Address} (h : token.integer? = some n)
    (haddress : (address.toNat : Int) = n % 0x100000000) :
    Written start [token] (.direct (.value address))
  | label (name : String) : Written start [.identifier name] (.direct (.label ⟨name, start⟩ 0))
  | labelPlus (name : String) {token : Token} {n : Int} (h : token.integer? = some n)
    (hlow : -0x80000000 ≤ n) (hhigh : n < 0x80000000) :
    Written start [.identifier name, .plus, token] (.direct (.label ⟨name, start⟩ n))
  | labelSigned (name : String) (n : Int) :
    Written start [.identifier name, .signed n] (.direct (.label ⟨name, start⟩ n))

/-- The instructions that access memory, by their names in small letters. -/
inductive SourceInstr.Accesses : String → (Reg → MemOperand → SourceInstr) → Prop
  | load (width : Width) : Accesses width.loadMnemonic (.load width)
  | store {width : Width} (h : width ∈ Width.allStores) :
    Accesses width.storeMnemonic (.store width)

/-! ## Reading operands -/

namespace LineReader

variable {stop start : Nat} {line rest : List Located} {operand : MemOperand}

theorem reads_integerIn {low high n : Int} {token : Token} (h : token.integer? = some n)
    (hlow : low ≤ n) (hhigh : n ≤ high) : Reads (integerIn low high) [token] n := by
  intro stop line rest hline
  obtain ⟨span, rfl⟩ := line_of_token hline
  unfold integerIn
  rw [List.singleton_append, bind_run (integer_run h)]
  simp only
  rw [if_pos ⟨hlow, hhigh⟩]
  rfl

/-- A label with its offset, up to the end of a line. -/
theorem gives_memOperand_label {name : String} {span : Span} {offset : Int}
    (h : labelOffset.Gives stop rest offset []) :
    memOperand.Gives stop (⟨.identifier name, span⟩ :: rest)
      (.direct (.label ⟨name, span.start⟩ offset)) [] := by
  have haddress : addressExpr.Gives stop (⟨.identifier name, span⟩ :: rest)
      (.label ⟨name, span.start⟩ offset) [] :=
    Gives.bind (gives_label? name span) (Gives.bind h (gives_pure _ _ _))
  exact memOperand_run_identifier.trans haddress.map

/-- Where the tokens of a line start. -/
def startOf (line : List Located) : Nat := (line.head?.map (·.span.start)).getD 0

/-- A written operand is read to the end of its line. -/
theorem gives_of_written
    (h : MemOperand.Written (startOf line) (line.map Located.token) operand) (stop : Nat) :
    memOperand.Gives stop line operand [] := by
  generalize hstart : startOf line = start at h
  generalize hline : line.map Located.token = tokens at h
  cases h with
  | @base offset r hoffset =>
    obtain ⟨⟨written, span⟩, others, rfl, rfl, -⟩ := List.map_eq_cons_iff.mp hline
    have hbase := (reads_base r).map (MemOperand.based (Imm.truncate 0)) stop _ [] hline
    rw [List.append_nil] at hbase
    have hzero : offset = Imm.truncate 0 := Imm.ext hoffset
    rw [hzero]
    exact memOperand_run_leftParen.trans hbase
  | based r h _ _ hoffset =>
    have hreads := reads_memOperand (h.trans (congrArg some hoffset.symm)) stop line [] hline
    rwa [List.append_nil] at hreads
  | @number token n address h haddress =>
    obtain ⟨span, rfl⟩ := line_of_token hline
    have hvalue : address = Word.ofInt n := by
      refine UInt32.toNat_inj.mp (Int.ofNat_inj.mp (haddress.trans ?_))
      exact (Word.toNat_ofInt n).symm
    rw [hvalue]
    exact (memOperand_run_integer h).trans (gives_numberedPlace h nofun)
  | label name =>
    obtain ⟨span, rfl⟩ := line_of_token hline
    obtain rfl : span.start = start := hstart
    exact gives_memOperand_label (gives_labelOffset_nothing stop nofun)
  | labelPlus name h hlow hhigh =>
    obtain ⟨⟨written, span⟩, others, rfl, rfl, hothers⟩ := List.map_eq_cons_iff.mp hline
    obtain ⟨⟨sign, place⟩, digits, rfl, rfl, hdigits⟩ := List.map_eq_cons_iff.mp hothers
    obtain rfl : span.start = start := hstart
    have hreads : Reads (integerIn Word.minSigned Word.maxSigned) [_] _ :=
      reads_integerIn h hlow (Int.le_of_lt_add_one hhigh)
    have hoffset := hreads stop digits [] hdigits
    rw [List.append_nil] at hoffset
    exact gives_memOperand_label
      (Gives.bind (reads_skip? .plus stop [⟨.plus, place⟩] digits rfl) hoffset)
  | labelSigned name n =>
    obtain ⟨⟨written, span⟩, others, rfl, rfl, hothers⟩ := List.map_eq_cons_iff.mp hline
    obtain ⟨place, rfl⟩ := line_of_token hothers
    obtain rfl : span.start = start := hstart
    exact gives_memOperand_label (Gives.bind (Gives.bind (accept?_none rfl) (gives_pure _ _ _))
      (Gives.bind (accept?_some (a := n) rfl) (gives_pure _ _ _)))

/-- Whatever is admitted as a place in memory stands for one. -/
theorem exists_written {tokens : List Token} (h : Operand.place.Admits tokens) (start : Nat) :
    ∃ operand, MemOperand.Written start tokens operand := by
  cases h with
  | base r => exact ⟨.based (Imm.truncate 0) r, .base r rfl⟩
  | based h r =>
    cases h with
    | number h hlow hhigh =>
      obtain ⟨offset, hoffset⟩ := (Imm.exists_value_iff .signed 16 (by decide)).mpr ⟨hlow, hhigh⟩
      exact ⟨_, .based r h hlow hhigh hoffset⟩
  | direct h =>
    cases h with
    | labelAddress name => exact ⟨_, .label name⟩
    | labelPlus name h =>
      cases h with
      | number h hlow hhigh => exact ⟨_, .labelPlus name h hlow (Int.lt_add_one_of_le hhigh)⟩
    | labelMinus name offset => exact ⟨_, .labelSigned name offset⟩
    | absolute h => exact ⟨_, .number h (Word.toNat_ofInt _)⟩

/-- The reader takes a line to its end exactly if an operand is written there, and gives this
operand. What it has taken can only be read in one way, so that its value need not be followed
through the reader. -/
theorem gives_memOperand_iff :
    memOperand.Gives stop line operand [] ↔
      MemOperand.Written (startOf line) (line.map Located.token) operand := by
  refine ⟨fun h => ?_, fun h => gives_of_written h stop⟩
  obtain ⟨front, hfront, hadmits⟩ := recognizes_memOperand.sound h
  rw [List.append_nil] at hfront
  subst hfront
  obtain ⟨written, hwritten⟩ := exists_written hadmits (startOf line)
  have hsame := Except.ok.inj (h.symm.trans (gives_of_written hwritten stop))
  obtain rfl : operand = written := congrArg Prod.fst hsame
  exact hwritten

/-! ## Lines of loads and stores -/

/-- The reader of a load or store: its register, and then the operand to the end of the line. -/
theorem toEnd_access (make : Reg → MemOperand → SourceInstr) :
    toEnd (Body.instr <$> (do
        let rt ← registerComma
        return make rt (← memOperand))) =
      (do
        let rt ← registerComma
        toEnd ((fun operand => Body.instr (make rt operand)) <$> memOperand)) := by
  unfold toEnd
  simp only [map_bind, map_pure, bind_assoc, bind_map_left, pure_bind]

theorem instr_access {name : String} {make : Reg → MemOperand → SourceInstr}
    (h : SourceInstr.Accesses (Text.asciiLowercase name) make) (span : Span) :
    instr name span = (do
      let rt ← registerComma
      return make rt (← memOperand)) := by
  unfold instr
  generalize Text.asciiLowercase name = mnemonic at h
  cases h with
  | load width =>
    have hreader : instrOperands? width.loadMnemonic = some (loadOperands width) := by
      cases width <;> rfl
    rw [hreader]
    rfl
  | @store width hwidth =>
    have hreader : instrOperands? width.storeMnemonic = some (storeOperands width) := by
      simp only [Width.allStores, List.mem_cons, List.not_mem_nil, or_false] at hwidth
      rcases hwidth with rfl | rfl | rfl <;> rfl
    rw [hreader]
    rfl

/-- A line of a load or store whose register has been read is left with the operand. -/
theorem body_run_access {name : String} {make : Reg → MemOperand → SourceInstr}
    (h : SourceInstr.Accesses (Text.asciiLowercase name) make) (rt : Reg)
    (first second comma : Span) (rest : List Located) (stop : Nat) :
    (body.run stop).run
        (⟨.identifier name, first⟩ :: ⟨.register rt, second⟩ :: ⟨.comma, comma⟩ :: rest) =
      ((toEnd ((fun operand => Body.instr (make rt operand)) <$> memOperand)).run stop).run
        rest := by
  have hregister : registerComma.Gives stop
      (⟨.register rt, second⟩ :: ⟨.comma, comma⟩ :: rest) rt rest :=
    reads_registerComma rt stop [⟨.register rt, second⟩, ⟨.comma, comma⟩] rest rfl
  rw [body_run_identifier, instr_access h, toEnd_access, bind_run hregister]

/-- A written operand is all of the line, and anything else is an error of one of its tokens or of
the end of the line. -/
theorem toEnd_memOperand_run {α : Type} (make : MemOperand → α) (stop : Nat)
    (line : List Located) :
    (∀ operand, MemOperand.Written (startOf line) (line.map Located.token) operand →
      ((toEnd (make <$> memOperand)).run stop).run line = .ok (make operand, [])) ∧
    ((¬∃ operand, MemOperand.Written (startOf line) (line.map Located.token) operand) →
      ∃ e, ((toEnd (make <$> memOperand)).run stop).run line = .error e ∧
        (e.span.IsOn line ∨ e.span = ⟨stop, stop⟩)) := by
  constructor
  · intro operand hwritten
    exact Gives.bind (gives_memOperand_iff.mpr hwritten).map (Gives.bind rfl (gives_pure _ _ _))
  · intro hnone
    have hread : Sees line (fun _ => True) (make <$> memOperand) :=
      sees_memOperand.map fun _ _ => trivial
    have hsees : Sees line (fun _ => True) (toEnd (make <$> memOperand)) :=
      hread.bind fun _ _ => .bind sees_lineEnd fun _ _ => sees_pure trivial
    have hline := hsees stop line (List.Subset.refl line)
    cases hrun : ((toEnd (make <$> memOperand)).run stop).run line with
    | error e =>
      rw [hrun] at hline
      exact ⟨e, rfl, hline⟩
    | ok found =>
      obtain ⟨a, between, hread, hend⟩ := Gives.bind_inv hrun
      obtain ⟨u, behind, hnothing, -⟩ := hend.bind_inv
      obtain rfl := hnothing.lineEnd_inv
      obtain ⟨operand, hoperand, -⟩ := hread.map_inv
      exact absurd ⟨operand, gives_memOperand_iff.mp hoperand⟩ hnone

end LineReader

/-- Labels, each with its colon. -/
inductive LabelTokens : List Label → List Located → Prop
  | nil : LabelTokens [] []
  | cons (name : String) (span colon : Span) {labels : List Label} {tokens : List Located}
    (h : LabelTokens labels tokens) :
    LabelTokens (⟨name, span.start⟩ :: labels)
      (⟨.identifier name, span⟩ :: ⟨.colon, colon⟩ :: tokens)

/-- A line of a load or store: labels or none, the name of the instruction in capitals or small
letters, its register, a comma, and the other tokens. The instruction starts at some place, and its
comma ends at another one. -/
inductive AccessLine : List Lexeme → List Label → (MemOperand → SourceInstr) → Nat → Nat →
    List Located → Prop
  | access {line : List Lexeme} {labels : List Label} {front rest : List Located} {name : String}
    {make : Reg → MemOperand → SourceInstr} {rt : Reg} {first second comma : Span}
    (hlex : firstLexError? line = none) (hlabels : LabelTokens labels front)
    (hname : SourceInstr.Accesses (Text.asciiLowercase name) make)
    (htokens : tokensOfLine line =
      front ++ ⟨.identifier name, first⟩ :: ⟨.register rt, second⟩ :: ⟨.comma, comma⟩ :: rest) :
    AccessLine line labels (make rt) first.start comma.stop rest

theorem LabelTokens.takeLabels {labels : List Label} {front : List Located}
    (h : LabelTokens labels front) (name : String) (span place : Span) (rt : Reg)
    (rest : List Located) :
    MipsLab.takeLabels (front ++ ⟨.identifier name, span⟩ :: ⟨.register rt, place⟩ :: rest) =
      (labels, ⟨.identifier name, span⟩ :: ⟨.register rt, place⟩ :: rest) := by
  induction h with
  | nil => rfl
  | cons name span colon h ih =>
    rw [List.cons_append, List.cons_append, MipsLab.takeLabels, ih]

/-- The place where the tokens behind a comma end. -/
def endOf (comma : Nat) (rest : List Located) : Nat :=
  (rest.getLast?.map (·.span.stop)).getD comma

section

variable {line : List Lexeme} {labels : List Label} {make : MemOperand → SourceInstr}
  {start comma : Nat} {rest : List Located}

/-- What is made of such a line is what is made of its operand. -/
theorem AccessLine.ofLexemes_eq (h : AccessLine line labels make start comma rest) :
    ParsedLine.ofLexemes line =
      match ((LineReader.toEnd ((fun operand => Body.instr (make operand)) <$>
          LineReader.memOperand)).run (endOf comma rest)).run rest with
      | .ok (body, _) => { labels, body := some (body, ⟨start, endOf comma rest⟩) }
      | .error e => { labels, error := some e } := by
  cases h with
  | @access front _ name make rt first second comma hlex hlabels hname htokens =>
    have hlast : (tokensOfLine line).getLast? = some (rest.getLast?.getD ⟨.comma, comma⟩) := by
      rw [htokens]
      simp [List.getLast?_append, List.getLast?_cons]
    have hstop : (rest.getLast?.getD ⟨.comma, comma⟩).span.stop = endOf comma.stop rest := by
      unfold endOf
      cases rest.getLast? <;> rfl
    unfold ParsedLine.ofLexemes
    dsimp only
    rw [hlex, hlast, htokens, hlabels.takeLabels]
    simp only [List.head?_cons]
    cases hrun : ((LineReader.toEnd ((fun operand => Body.instr (make rt operand)) <$>
        LineReader.memOperand)).run (endOf comma.stop rest)).run rest <;>
      rw [hstop, LineReader.body_run_access hname, hrun]

/-- A load or store is parsed exactly if its register and comma are followed by a written operand up
to the end of the line, and then has this operand. Otherwise there is one error, which is that of a
token behind the comma or stands where the line ends. -/
theorem memory_operands_exact (h : AccessLine line labels make start comma rest) :
    let Written := MemOperand.Written (LineReader.startOf rest) (rest.map Located.token)
    let stop := endOf comma rest
    ((ParsedLine.ofLexemes line).error = none ↔ ∃ operand, Written operand) ∧
    (∀ operand, Written operand → ParsedLine.ofLexemes line =
      { labels, body := some (.instr (make operand), ⟨start, stop⟩) }) ∧
    ((¬∃ operand, Written operand) → ∃ e, ParsedLine.ofLexemes line = { labels, error := some e } ∧
      ((∃ t ∈ rest, t.span = e.span) ∨ e.span = ⟨stop, stop⟩)) := by
  intro Written stop
  obtain ⟨hwritten, hother⟩ :=
    LineReader.toEnd_memOperand_run (fun operand => Body.instr (make operand)) stop rest
  have hparsed : ∀ operand, Written operand → ParsedLine.ofLexemes line =
      { labels, body := some (.instr (make operand), ⟨start, stop⟩) } := by
    intro operand hoperand
    rw [h.ofLexemes_eq, hwritten operand hoperand]
  have hfailed : (¬∃ operand, Written operand) →
      ∃ e, ParsedLine.ofLexemes line = { labels, error := some e } ∧
        ((∃ t ∈ rest, t.span = e.span) ∨ e.span = ⟨stop, stop⟩) := by
    intro hnone
    obtain ⟨e, hrun, hplace⟩ := hother hnone
    refine ⟨e, ?_, hplace⟩
    rw [h.ofLexemes_eq, hrun]
  refine ⟨⟨fun herror => ?_, ?_⟩, hparsed, hfailed⟩
  · by_contra hnone
    obtain ⟨e, hline, -⟩ := hfailed hnone
    rw [hline] at herror
    exact nomatch herror
  · rintro ⟨operand, hoperand⟩
    rw [hparsed operand hoperand]

end

/-- A label with a negative offset, and an offset that is too large for a register. -/
theorem memory_operands_exact_offsets :
    let line := Token.lex "x: LW $8, lab-4".toList
    let tooLarge := Token.lex "sw $8, 40000($29)".toList
    let address : List Located :=
      [⟨.identifier "lab", ⟨10, 13⟩⟩, ⟨.signed (-4), ⟨13, 15⟩⟩]
    let place : List Located :=
      [⟨.unsigned 40000, ⟨7, 12⟩⟩, ⟨.leftParen, ⟨12, 13⟩⟩, ⟨.register 29, ⟨13, 16⟩⟩,
        ⟨.rightParen, ⟨16, 17⟩⟩]
    AccessLine line [⟨"x", 0⟩] (.load .word 8) 3 9 address ∧
      AccessLine tooLarge [] (.store .word 8) 0 6 place ∧
      ParsedLine.ofLexemes line =
        { labels := [⟨"x", 0⟩]
          body := some (.instr (.load .word 8 (.direct (.label ⟨"lab", 10⟩ (-4)))), ⟨3, 15⟩) } ∧
      ∃ e, ParsedLine.ofLexemes tooLarge = { labels := [], error := some e } := by
  intro line tooLarge address place
  have hload : SourceInstr.Accesses (Text.asciiLowercase "LW") (.load .word) := .load .word
  have hstore : SourceInstr.Accesses (Text.asciiLowercase "sw") (.store .word) :=
    .store (by decide : Width.word ∈ Width.allStores)
  have hline : AccessLine line [⟨"x", 0⟩] (.load .word 8) 3 9 address :=
    .access (by decide +kernel) (.cons "x" ⟨0, 1⟩ ⟨1, 2⟩ .nil) hload
      (by decide +kernel : tokensOfLine line =
        [⟨.identifier "x", ⟨0, 1⟩⟩, ⟨.colon, ⟨1, 2⟩⟩] ++ ⟨.identifier "LW", ⟨3, 5⟩⟩ ::
          ⟨.register 8, ⟨6, 8⟩⟩ :: ⟨.comma, ⟨8, 9⟩⟩ :: address)
  have htooLarge : AccessLine tooLarge [] (.store .word 8) 0 6 place :=
    .access (by decide +kernel) .nil hstore
      (by decide +kernel : tokensOfLine tooLarge =
        [] ++ ⟨.identifier "sw", ⟨0, 2⟩⟩ :: ⟨.register 8, ⟨3, 5⟩⟩ :: ⟨.comma, ⟨5, 6⟩⟩ :: place)
  obtain ⟨-, hwritten, -⟩ := memory_operands_exact hline
  obtain ⟨-, -, hother⟩ := memory_operands_exact htooLarge
  obtain ⟨e, he, -⟩ := hother (by
    rintro ⟨operand, h⟩
    cases h with
    | based r h hlow hhigh hoffset =>
      obtain rfl := Option.some.inj h
      exact absurd hhigh (by decide))
  exact ⟨hline, htooLarge, hwritten _ (.labelSigned "lab" (-4)), e, he⟩

end MipsLab
