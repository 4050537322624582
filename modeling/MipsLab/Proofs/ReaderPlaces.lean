import MipsLab.Proofs.References
import MipsLab.Proofs.Shifting

/-!
# What readers tell of a line

A reader of a line blames a token of the line or the end of the line, and the labels that it gives
are names that stand on the line.

1. `LineReader.Sees`: a reader tells of nothing that is not on the line.
2. `LineReader.sees_instr`, `LineReader.sees_directive`, `LineReader.sees_body`: no reader does.
-/

namespace MipsLab

/-- The labels that an instruction or directive names. -/
def Body.uses : Body → List Label
  | instr i => (i.reference?.bind Reference.label?).toList
  | directive d => d.uses

theorem Statement.uses_eq (s : Statement) : s.uses = (s.body.map Body.uses).getD [] := by
  unfold uses
  cases s.body with
  | none => rfl
  | some body => cases body <;> rfl

/-- A label is a name on a line. -/
def Label.IsOn (l : Label) (line : List Located) : Prop :=
  ∃ span, ⟨.identifier l.name, span⟩ ∈ line ∧ span.start = l.start

/-- A span is that of a token on a line. -/
def Span.IsOn (s : Span) (line : List Located) : Prop := ∃ t ∈ line, t.span = s

namespace LineReader

variable {line : List Located} {α β : Type} {good : α → Prop} {good' : β → Prop}

/-- From any tokens of a line, a reader gives only what is good, and leaves only tokens of the line;
or it fails, and then blames a token of the line or the end of the line. -/
def Sees (line : List Located) (good : α → Prop) (reader : LineReader α) : Prop :=
  ∀ stop rest, rest ⊆ line →
    match (reader.run stop).run rest with
    | .ok (a, behind) => good a ∧ behind ⊆ line
    | .error e => e.span.IsOn line ∨ e.span = ⟨stop, stop⟩

theorem Sees.bind {reader : LineReader α} {next : α → LineReader β} (h : Sees line good reader)
    (hnext : ∀ a, good a → Sees line good' (next a)) : Sees line good' (reader >>= next) := by
  intro stop rest hrest
  have hbind : ((reader >>= next).run stop).run rest =
      (reader.run stop).run rest >>= fun found => ((next found.1).run stop).run found.2 := rfl
  have hreader := h stop rest hrest
  rw [hbind]
  cases hrun : (reader.run stop).run rest with
  | error e =>
    rw [hrun] at hreader
    exact hreader
  | ok found =>
    rw [hrun] at hreader
    exact hnext found.1 hreader.1 stop found.2 hreader.2

theorem sees_pure {a : α} (h : good a) : Sees line good (pure a) := fun _ _ hrest => ⟨h, hrest⟩

theorem Sees.map {reader : LineReader α} {make : α → β} (h : Sees line good reader)
    (hmake : ∀ a, good a → good' (make a)) : Sees line good' (make <$> reader) := by
  have hbind : Sees line good' (reader >>= fun a => pure (make a)) :=
    h.bind fun a ha => sees_pure (hmake a ha)
  exact hbind

theorem Sees.mono {reader : LineReader α} {good' : α → Prop} (h : Sees line good reader)
    (hgood : ∀ a, good a → good' a) : Sees line good' reader := by
  intro stop rest hrest
  have hreader := h stop rest hrest
  cases hrun : (reader.run stop).run rest with
  | error e =>
    rw [hrun] at hreader
    exact hreader
  | ok found =>
    rw [hrun] at hreader
    exact ⟨hgood _ hreader.1, hreader.2⟩

theorem sees_failAt (cause : ParseCause) {span : Span} (h : span.IsOn line) :
    Sees line good (failAt cause span) := fun _ _ _ => .inl h

theorem sees_expected (wanted : String) : Sees line good (expected wanted) := by
  intro stop rest hrest
  cases rest with
  | nil => exact .inr rfl
  | cons next rest => exact .inl ⟨next, hrest List.mem_cons_self, rfl⟩

theorem sees_peek : Sees line (fun _ => True) peek := by
  intro stop rest hrest
  cases rest <;> exact ⟨trivial, hrest⟩

/-! ### Single tokens -/

/-- A token of a kind that holds something stands at a place on a line. -/
def Holds (line : List Located) (kind : Token → Option α) (found : α × Span) : Prop :=
  ∃ t ∈ line, kind t.token = some found.1 ∧ t.span = found.2

theorem Holds.isOn {kind : Token → Option α} {found : α × Span} (h : Holds line kind found) :
    found.2.IsOn line := by
  obtain ⟨t, ht, -, hspan⟩ := h
  exact ⟨t, ht, hspan⟩

theorem sees_accept? (kind : Token → Option α) :
    Sees line (fun found => ∀ f ∈ found, Holds line kind f) (accept? kind) := by
  intro stop rest hrest
  cases rest with
  | nil => exact ⟨nofun, hrest⟩
  | cons next rest =>
    obtain ⟨token, span⟩ := next
    obtain ⟨hnext, hbehind⟩ := List.cons_subset.mp hrest
    rw [accept?_run]
    cases hkind : kind token with
    | none => exact ⟨nofun, hrest⟩
    | some held =>
      refine ⟨fun f hf => ?_, hbehind⟩
      obtain rfl := Option.some.inj hf
      exact ⟨_, hnext, hkind, rfl⟩

theorem sees_require (wanted : String) (kind : Token → Option α) :
    Sees line (Holds line kind) (require wanted kind) := by
  refine .bind (sees_accept? kind) fun found hfound => ?_
  cases found with
  | some found => exact sees_pure (hfound found rfl)
  | none => exact sees_expected wanted

theorem sees_skip? (token : Token) : Sees line (fun _ => True) (skip? token) :=
  .bind (sees_accept? _) fun _ _ => sees_pure trivial

theorem sees_skip (wanted : String) (token : Token) :
    Sees line (fun _ => True) (skip wanted token) := by
  refine .bind (sees_skip? token) fun found _ => ?_
  cases found with
  | true => exact sees_pure trivial
  | false => exact sees_expected wanted

/-! ### Registers and numbers -/

theorem sees_register : Sees line (fun _ => True) register :=
  .bind (sees_require _ _) fun _ _ => sees_pure trivial

theorem sees_registerComma : Sees line (fun _ => True) registerComma :=
  .bind sees_register fun _ _ => .bind (sees_skip _ _) fun _ _ => sees_pure trivial

theorem sees_integer : Sees line (fun found => found.2.IsOn line) integer :=
  (sees_require _ _).mono fun _ hfound => hfound.isOn

theorem sees_integerIn (low high : Int) : Sees line (fun _ => True) (integerIn low high) := by
  refine .bind sees_integer fun found hfound => ?_
  show Sees line _ (if low ≤ found.1 ∧ found.1 ≤ high then pure found.1 else failAt _ found.2)
  split
  · exact sees_pure trivial
  · exact sees_failAt _ hfound

theorem sees_toImmediate {kind : Signedness} {bits : Nat} (n : Int) {span : Span}
    (h : span.IsOn line) :
    Sees line (fun _ => True) (toImmediate n span : LineReader (Imm kind bits)) := by
  unfold toImmediate
  cases (Imm.ofInt? n : Except ImmError (Imm kind bits)) with
  | ok imm => exact sees_pure trivial
  | error cause => exact sees_failAt _ h

theorem sees_immediate {kind : Signedness} {bits : Nat} :
    Sees line (fun _ => True) (immediate : LineReader (Imm kind bits)) :=
  .bind sees_integer fun found hfound => sees_toImmediate found.1 hfound

theorem sees_operationImmediate (op : ImmOp) :
    Sees line (fun _ => True) (operationImmediate op) := by
  unfold operationImmediate
  split
  · exact sees_immediate
  · exact .bind sees_immediate fun _ _ => sees_pure trivial

/-! ### Labels and addresses -/

theorem sees_label? : Sees line (fun found => ∀ l ∈ found, l.IsOn line) label? := by
  refine .bind (sees_accept? _) fun found hfound => sees_pure ?_
  cases found with
  | none => exact nofun
  | some found =>
    intro l hl
    obtain rfl := Option.some.inj hl
    obtain ⟨⟨token, span⟩, ht, hname, rfl⟩ := hfound found rfl
    cases token with
    | identifier name =>
      obtain rfl : name = found.1 := Option.some.inj hname
      exact ⟨found.2, ht, rfl⟩
    | _ => exact nomatch hname

theorem sees_labelOffset : Sees line (fun _ => True) labelOffset := by
  refine .bind (sees_skip? _) fun found _ => ?_
  cases found with
  | true => exact sees_integerIn _ _
  | false => exact .bind (sees_accept? _) fun _ _ => sees_pure trivial

theorem sees_addressExpr :
    Sees line (fun expr => ∀ l ∈ expr.label?, l.IsOn line) addressExpr := by
  refine .bind sees_label? fun found hfound => ?_
  cases found with
  | some label => exact .bind sees_labelOffset fun _ _ => sees_pure hfound
  | none =>
    refine .bind (sees_accept? _) fun found _ => ?_
    cases found with
    | some found => exact sees_pure nofun
    | none => exact sees_expected _

theorem sees_branchTarget :
    Sees line (fun target => ∀ l ∈ (Reference.branch target).label?, l.IsOn line)
      branchTarget := by
  refine .bind sees_label? fun found hfound => ?_
  cases found with
  | some label => exact sees_pure hfound
  | none =>
    refine .bind (sees_accept? _) fun found hfound => ?_
    cases found with
    | some found =>
      exact .bind (sees_toImmediate found.1 (hfound found rfl).isOn) fun _ _ => sees_pure nofun
    | none => exact sees_expected _

theorem sees_base : Sees line (fun _ => True) base :=
  .bind (sees_skip _ _) fun _ _ => .bind sees_register fun _ _ =>
    .bind (sees_skip _ _) fun _ _ => sees_pure trivial

/-- The labels of a memory operand are those of its address, if it is one. -/
def PlaceOn (line : List Located) (operand : MemOperand) : Prop :=
  ∀ expr, operand = .direct expr → ∀ l ∈ expr.label?, l.IsOn line

theorem sees_numberedPlace : Sees line (PlaceOn line) numberedPlace := by
  refine .bind sees_integer fun found hfound => .bind sees_peek fun next _ => ?_
  split
  · exact .bind (sees_toImmediate found.1 hfound) fun _ _ =>
      .bind sees_base fun _ _ => sees_pure nofun
  · refine sees_pure fun expr hexpr => ?_
    obtain rfl := MemOperand.direct.inj hexpr
    exact nofun

theorem sees_memOperand : Sees line (PlaceOn line) memOperand := by
  refine .bind sees_peek fun next _ => ?_
  cases next with
  | none => exact sees_expected _
  | some token =>
    cases token with
    | leftParen => exact .bind sees_base fun _ _ => sees_pure nofun
    | identifier name =>
      refine .bind sees_addressExpr fun address haddress => sees_pure fun expr hexpr => ?_
      obtain rfl := MemOperand.direct.inj hexpr
      exact haddress
    | unsigned | signed => exact sees_numberedPlace
    | _ => exact sees_expected _

/-! ### Lists and strings -/

theorem sees_furtherItems {item : LineReader α} (h : Sees line good item) (fuel : Nat) :
    Sees line (fun items => ∀ a ∈ items, good a) (furtherItems item fuel) := by
  induction fuel with
  | zero => exact sees_pure (List.forall_mem_nil _)
  | succ fuel ih =>
    refine .bind (sees_skip? _) fun found _ => ?_
    cases found with
    | true =>
      exact .bind h fun _ hnext => .bind ih fun _ hrest =>
        sees_pure (List.forall_mem_cons.mpr ⟨hnext, hrest⟩)
    | false => exact sees_pure (List.forall_mem_nil _)

theorem sees_items {item : LineReader α} (h : Sees line good item) :
    Sees line (fun items => ∀ a ∈ items, good a) (items item) := by
  refine .bind h fun first hfirst => ?_
  have hget : Sees line (fun _ => True) get := fun _ _ hrest => ⟨trivial, hrest⟩
  exact .bind hget fun _ _ => .bind (sees_furtherItems h _) fun _ hrest =>
    sees_pure (List.forall_mem_cons.mpr ⟨hfirst, hrest⟩)

theorem sees_string : Sees line (fun _ => True) string :=
  .bind (sees_require _ _) fun _ _ => sees_pure trivial

/-! ### Instructions -/

/-- The label that an instruction names is a name on a line. -/
def InstrOn (line : List Located) (i : SourceInstr) : Prop :=
  ∀ l ∈ i.reference?.bind Reference.label?, l.IsOn line

theorem sees_aluOperands (op : AluOp) : Sees line (InstrOn line) (aluOperands op) := by
  refine .bind sees_registerComma fun rd _ => .bind sees_registerComma fun first _ =>
    .bind sees_register fun second _ => sees_pure ?_
  cases op.isVariableShift <;> exact nofun

theorem sees_shiftOperands (op : ShiftOp) : Sees line (InstrOn line) (shiftOperands op) :=
  .bind sees_registerComma fun _ _ => .bind sees_registerComma fun _ _ =>
    .bind sees_immediate fun _ _ => sees_pure nofun

theorem sees_mulDivOperands (op : MulDivOp) : Sees line (InstrOn line) (mulDivOperands op) :=
  .bind sees_registerComma fun _ _ => .bind sees_register fun _ _ => sees_pure nofun

theorem sees_immOperands (op : ImmOp) : Sees line (InstrOn line) (immOperands op) :=
  .bind sees_registerComma fun _ _ => .bind sees_registerComma fun _ _ =>
    .bind (sees_operationImmediate op) fun _ _ => sees_pure nofun

theorem sees_branchOperands (cond : BranchCond) :
    Sees line (InstrOn line) (branchOperands cond) := by
  have htarget (rs rt : Reg) : Sees line (InstrOn line)
      (branchTarget >>= fun target => pure (.branch cond rs rt target)) :=
    .bind sees_branchTarget fun _ h => sees_pure h
  unfold branchOperands
  refine .bind sees_registerComma fun rs _ => ?_
  cases cond.isBinary with
  | true => exact .bind sees_registerComma fun rt _ => htarget rs rt
  | false => exact htarget rs Reg.zero

/-- A load or store refers to the address that its operand may be. -/
theorem instrOn_of_place {operand : MemOperand} (h : PlaceOn line operand) (width : Width)
    (rt : Reg) :
    InstrOn line (.load width rt operand) ∧ InstrOn line (.store width rt operand) := by
  cases operand with
  | based => exact ⟨nofun, nofun⟩
  | direct expr => exact ⟨h expr rfl, h expr rfl⟩

theorem sees_loadOperands (width : Width) : Sees line (InstrOn line) (loadOperands width) :=
  .bind sees_registerComma fun rt _ => .bind sees_memOperand fun _ h =>
    sees_pure (instrOn_of_place h width rt).1

theorem sees_storeOperands (width : Width) : Sees line (InstrOn line) (storeOperands width) :=
  .bind sees_registerComma fun rt _ => .bind sees_memOperand fun _ h =>
    sees_pure (instrOn_of_place h width rt).2

theorem sees_compareOperands (cmp : Comparison) : Sees line (InstrOn line) (compareOperands cmp) :=
  .bind sees_registerComma fun _ _ => .bind sees_registerComma fun _ _ =>
    .bind sees_branchTarget fun _ h => sees_pure h

theorem sees_jalrOperands : Sees line (InstrOn line) jalrOperands := by
  refine .bind sees_register fun first _ => .bind (sees_skip? _) fun found _ => ?_
  cases found with
  | true => exact .bind sees_register fun _ _ => sees_pure nofun
  | false => exact sees_pure nofun

theorem sees_withRegister {make : Reg → α → SourceInstr} {operand : LineReader α}
    (h : Sees line good operand) (hmake : ∀ r a, good a → InstrOn line (make r a)) :
    Sees line (InstrOn line) (withRegister make operand) :=
  .bind sees_registerComma fun r _ => h.map (hmake r)

theorem sees_otherOperands {mnemonic : String} {reader : LineReader SourceInstr}
    (h : otherOperands? mnemonic = some reader) : Sees line (InstrOn line) reader := by
  unfold otherOperands? at h
  split at h <;> cases h
  case h_1 | h_3 | h_4 | h_5 | h_6 => exact sees_register.map fun _ _ => nofun
  case h_2 => exact sees_jalrOperands
  case h_7 | h_8 | h_9 => exact sees_pure nofun
  case h_10 => exact sees_withRegister sees_immediate fun _ _ _ => nofun
  case h_11 | h_12 => exact sees_addressExpr.map fun _ h => h
  case h_13 => exact sees_withRegister (sees_integerIn _ _) fun _ _ _ => nofun
  case h_14 => exact sees_withRegister sees_addressExpr fun _ _ h => h
  case h_15 | h_19 | h_20 => exact sees_withRegister sees_register fun _ _ _ => nofun
  case h_16 => exact sees_branchTarget.map fun _ h => h
  case h_17 | h_18 => exact sees_withRegister sees_branchTarget fun _ _ h => h

theorem sees_instrOperands {mnemonic : String} {reader : LineReader SourceInstr}
    (h : instrOperands? mnemonic = some reader) : Sees line (InstrOn line) reader := by
  cases readsInstr_of_some h with
  | alu op => exact sees_aluOperands op
  | shift op => exact sees_shiftOperands op
  | mulDiv op => exact sees_mulDivOperands op
  | imm op => exact sees_immOperands op
  | branch cond => exact sees_branchOperands cond
  | load width => exact sees_loadOperands width
  | store => exact sees_storeOperands _
  | compare cmp => exact sees_compareOperands cmp
  | other h => exact sees_otherOperands h

theorem sees_instr (mnemonic : String) {span : Span} (hspan : span.IsOn line) :
    Sees line (InstrOn line) (instr mnemonic span) := by
  unfold instr
  cases h : instrOperands? (Text.asciiLowercase mnemonic) with
  | some reader => exact sees_instrOperands h
  | none => exact sees_failAt _ hspan

/-! ### Directives -/

/-- The labels that a directive names are names on a line. -/
def DirectiveOn (line : List Located) (d : Directive) : Prop := ∀ l ∈ d.uses, l.IsOn line

theorem sees_label : Sees line (fun l => l.IsOn line) label := by
  refine .bind sees_label? fun found hfound => ?_
  cases found with
  | some label => exact sees_pure (hfound label rfl)
  | none => exact sees_expected _

/-- An integer that is kept in another form. -/
theorem sees_integerAs (low high : Int) (make : Int → α) :
    Sees line (fun _ => True) (integerIn low high >>= fun n => pure (make n)) :=
  .bind (sees_integerIn low high) fun _ _ => sees_pure trivial

theorem sees_directiveOperands {name : String} {reader : LineReader Directive}
    (h : directiveOperands? name = some reader) : Sees line (DirectiveOn line) reader := by
  unfold directiveOperands? at h
  split at h <;> cases h
  case h_1 | h_2 => exact sees_pure nofun
  case h_3 | h_4 =>
    refine sees_label.map fun l hl l' hl' => ?_
    rwa [List.mem_singleton.mp hl']
  case h_5 =>
    refine (sees_items sees_addressExpr).map fun values hvalues l hl => ?_
    obtain ⟨expr, hexpr, hlabel⟩ := List.mem_filterMap.mp hl
    exact hvalues expr hexpr l hlabel
  case h_6 | h_7 => exact (sees_items (sees_integerAs _ _ _)).map fun _ _ => nofun
  case h_8 | h_9 => exact sees_string.map fun _ _ => nofun
  case h_10 | h_11 => exact .bind (sees_integerIn _ _) fun _ _ => sees_pure nofun

theorem sees_directive (name : String) {span : Span} (hspan : span.IsOn line) :
    Sees line (DirectiveOn line) (directive name span) := by
  unfold directive
  cases h : directiveOperands? name with
  | some reader => exact sees_directiveOperands h
  | none => exact sees_failAt _ hspan

/-! ### The body of a line -/

theorem sees_lineEnd : Sees line (fun _ => True) lineEnd := by
  refine .bind sees_peek fun next _ => ?_
  cases next with
  | some token => exact sees_expected _
  | none => exact sees_pure trivial

/-- The reader of an instruction or directive gives only names on the line as labels, and blames
only a token of the line or the end of the line. -/
theorem sees_body : Sees line (fun body => ∀ l ∈ body.uses, l.IsOn line) body := by
  have hget : Sees line (fun tokens => tokens ⊆ line) get := fun _ _ hrest => ⟨hrest, hrest⟩
  have hset (rest : List Located) (h : rest ⊆ line) :
      Sees line (fun _ => True) (set rest : LineReader Unit) := fun _ _ _ => ⟨trivial, h⟩
  have hend (found : Body) (h : ∀ l ∈ found.uses, l.IsOn line) :
      Sees line (fun body => ∀ l ∈ body.uses, l.IsOn line) (lineEnd >>= fun _ => pure found) :=
    .bind sees_lineEnd fun _ _ => sees_pure h
  refine .bind hget fun tokens htokens => ?_
  cases tokens with
  | nil => exact .bind (sees_expected _) hend
  | cons next rest =>
    obtain ⟨token, span⟩ := next
    obtain ⟨hnext, hrest⟩ := List.cons_subset.mp htokens
    have hspan : span.IsOn line := ⟨_, hnext, rfl⟩
    cases token with
    | directive name =>
      exact .bind (hset rest hrest) fun _ _ =>
        .bind ((sees_directive name hspan).map fun _ h => h) hend
    | identifier name =>
      refine .bind (hset rest hrest) fun _ _ => .bind ((sees_instr name hspan).map ?_) hend
      exact fun i hi l hl => hi l (Option.mem_toList.mp hl)
    | _ => exact .bind (sees_expected _) hend

end LineReader

end MipsLab
