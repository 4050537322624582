import MipsLab.Proofs.LabelPlaces
import MipsLab.Proofs.References

/-!
# Accepted sources

Which source texts have no problems, told from their lines and from the layout of their statements
alone, without the passes of the assembler.

1. `LabelAt`, `Statement.Linked`, `Accepted`: what is asked of a source text.
2. `Fitting.address?_eq_some_iff`: the first pass gives labels the addresses of the layout.
3. `Fitting.resolves_iff`: what the second pass can resolve.
4. `Fitting.instrAt_iff`: the addresses of instructions.
5. `assemble_accepts_iff`: the accepted sources are those without problems.
-/

namespace MipsLab

/-! ## Conditions -/

/-- A label of a name stands before a statement that the layout puts at an address. -/
def LabelAt (statements : List Statement) (name : String) (address : Nat) : Prop :=
  ∃ before s, before ++ [s] <+: statements ∧ name ∈ s.labels.map Label.name ∧
    s.place before = address

/-- An address expression stands for an address. Offsets from labels wrap. -/
def AddressExpr.Denotes (statements : List Statement) (address : Nat) : AddressExpr → Prop
  | label l offset => ∃ place, LabelAt statements l.name place ∧
      ((place : Int) + offset) % 0x100000000 = address
  | value a => a.toNat = address

/-- The labels that a statement uses are defined, and it reaches where it branches or jumps to. The
distance is taken from the instruction behind it. -/
structure Statement.Linked (statements before : List Statement) (s : Statement) : Prop where
  defined : ∀ l ∈ s.uses, l.name ∈ labelNames statements
  branch : ∀ i l target, s.body = some (.instr i) → i.reference? = some (.branch (.label l)) →
    LabelAt statements l.name target → BranchReaches (s.place before + s.byteCount) target
  jump : ∀ i expr target, s.body = some (.instr i) → i.reference? = some (.jump expr) →
    expr.Denotes statements target → JumpReaches (s.place before + s.byteCount) target

/-- An instruction is put at an address. -/
def InstrAt (statements : List Statement) (address : Nat) : Prop :=
  ∃ before s i, before ++ [s] <+: statements ∧ s.body = some (.instr i) ∧ s.place before = address

/-- What is asked of a source text for it to have no problems. -/
structure Accepted (source : Source) : Prop where
  lines : ∀ line ∈ splitLines (Token.lex source.chars), WellFormedLine line
  /-- No label is defined twice. -/
  labels : (labelNames (parse source.chars).1).Nodup
  /-- Every instruction is in the text segment, and every data directive in the data segment. -/
  inPlace : InPlace (parse source.chars).1
  /-- No segment is too large. -/
  room : ∀ segment : Segment,
    segment.stop (parse source.chars).1 ≤ segment.start + segmentLimit
  linked : ∀ before s, before ++ [s] <+: (parse source.chars).1 →
    s.Linked (parse source.chars).1 before
  /-- The entry label, if there is one, is that of an instruction. -/
  entry : ∀ address, LabelAt (parse source.chars).1 entryLabel address →
    InstrAt (parse source.chars).1 address
  /-- There is an instruction. -/
  instrs : ∃ address, InstrAt (parse source.chars).1 address

/-- What is no instruction reaches nowhere. -/
theorem Statement.linked_iff_of_not_instr {statements before : List Statement} {s : Statement}
    (h : ∀ i, s.body ≠ some (.instr i)) :
    s.Linked statements before ↔ ∀ l ∈ s.uses, l.name ∈ labelNames statements := by
  constructor
  · exact Linked.defined
  · intro hdefined
    exact ⟨hdefined, fun i _ _ hbody => absurd hbody (h i), fun i _ _ hbody => absurd hbody (h i)⟩

/-! ## Addresses of labels -/

theorem mem_labelNames_iff {statements : List Statement} {name : String} :
    name ∈ labelNames statements ↔ ∃ address, LabelAt statements name address := by
  unfold labelNames
  rw [List.mem_flatMap]
  constructor
  · rintro ⟨s, hs, hname⟩
    obtain ⟨before, behind, rfl⟩ := List.append_of_mem hs
    exact ⟨s.place before, before, s, ⟨behind, by simp⟩, hname, rfl⟩
  · rintro ⟨_, before, s, hstands, hname, -⟩
    exact ⟨s, hstands.subset (List.mem_append_right _ (List.mem_singleton_self s)), hname⟩

theorem AddressExpr.exists_toNat_eq {statements : List Statement} {expr : AddressExpr}
    {address : Nat} (h : expr.Denotes statements address) : ∃ a : Address, a.toNat = address := by
  cases expr with
  | value a => exact ⟨a, h⟩
  | label l offset =>
    obtain ⟨place, -, ha⟩ := h
    have hlt : address < 0x100000000 := by omega
    exact ⟨UInt32.ofNat address, UInt32.toNat_ofNat_of_lt' hlt⟩

namespace Fitting

variable {statements before : List Statement} {s : Statement}

/-- The addresses of a layout that fits are addresses of the machine. -/
theorem place_lt (h : Fitting statements) (hstands : before ++ [s] <+: statements) :
    s.place before + s.byteCount < 0x100000000 :=
  (h.emits (.ofString "") hstands).fits

theorem exists_toNat_eq (h : Fitting statements) {name : String} {place : Nat}
    (hplace : LabelAt statements name place) : ∃ a : Address, a.toNat = place := by
  obtain ⟨before, s, hstands, -, rfl⟩ := hplace
  have hlt := h.place_lt hstands
  exact ⟨UInt32.ofNat (s.place before),
    UInt32.toNat_ofNat_of_lt' (Nat.lt_of_le_of_lt (Nat.le_add_right _ _) hlt)⟩

section

variable (h : Fitting statements) (hnodup : (labelNames statements).Nodup)

include h hnodup

theorem address?_of_labelAt {name : String} {a : Address}
    (hplace : LabelAt statements name a.toNat) :
    (Definitions.ofStatements statements).table.address? name = some a := by
  obtain ⟨before, s, ⟨behind, hstatements⟩, hname, hplace⟩ := hplace
  obtain ⟨l, hl, rfl⟩ := List.mem_map.mp hname
  rw [List.append_assoc, List.singleton_append] at hstatements
  rw [h.address? hnodup hstatements.symm hl, hplace, UInt32.ofNat_toNat]

/-- The first pass gives a label the address that it has in the layout. -/
theorem address?_eq_some_iff {name : String} {a : Address} :
    (Definitions.ofStatements statements).table.address? name = some a ↔
      LabelAt statements name a.toNat := by
  refine ⟨fun haddress => ?_, h.address?_of_labelAt hnodup⟩
  by_cases hname : name ∈ labelNames statements
  · obtain ⟨place, hplace⟩ := mem_labelNames_iff.mp hname
    obtain ⟨b, rfl⟩ := h.exists_toNat_eq hplace
    rw [h.address?_of_labelAt hnodup hplace] at haddress
    rw [← Option.some.inj haddress]
    exact hplace
  · have hnone : (Definitions.ofStatements statements).table.address? name = none := by
      refine Definitions.foldl_add_address?_none rfl fun s hs => ?_
      rw [← Bool.not_eq_true]
      intro hdefines
      obtain ⟨l, hl, hl'⟩ := List.any_eq_true.mp hdefines
      exact hname (List.mem_flatMap.mpr ⟨s, hs, List.mem_map.mpr ⟨l, hl, of_decide_eq_true hl'⟩⟩)
    exact nomatch haddress.symm.trans hnone

theorem exists_address?_iff {name : String} :
    (∃ a, (Definitions.ofStatements statements).table.address? name = some a) ↔
      name ∈ labelNames statements := by
  simp only [h.address?_eq_some_iff hnodup]
  rw [mem_labelNames_iff]
  constructor
  · rintro ⟨a, ha⟩
    exact ⟨a.toNat, ha⟩
  · rintro ⟨place, hplace⟩
    obtain ⟨a, rfl⟩ := h.exists_toNat_eq hplace
    exact ⟨a, hplace⟩

/-- An expression is resolved to the address that it stands for. -/
theorem resolveExpr_eq_ok_iff {expr : AddressExpr} {a : Address} :
    (Definitions.ofStatements statements).table.resolveExpr expr = .ok a ↔
      expr.Denotes statements a.toNat := by
  cases expr with
  | value b =>
    exact ⟨fun heq => congrArg UInt32.toNat (Except.ok.inj heq),
      fun heq => congrArg Except.ok (UInt32.toNat_inj.mp heq)⟩
  | label l offset =>
    constructor
    · intro hresolve
      obtain ⟨b, hb, rfl⟩ := map_ok_inv hresolve
      rw [SymbolTable.resolve_eq_ok_iff, h.address?_eq_some_iff hnodup] at hb
      exact ⟨b.toNat, hb, (b.toNat_displace offset).symm⟩
    · rintro ⟨place, hplace, ha⟩
      obtain ⟨b, rfl⟩ := h.exists_toNat_eq hplace
      have hb := SymbolTable.resolve_eq_ok_iff.mpr (h.address?_of_labelAt hnodup hplace)
      rw [SymbolTable.resolveExpr, hb, ← Address.displace_eq ha]
      rfl

theorem exists_resolveExpr_iff {expr : AddressExpr} :
    (∃ a, (Definitions.ofStatements statements).table.resolveExpr expr = .ok a) ↔
      ∀ l ∈ expr.label?, l.name ∈ labelNames statements := by
  cases expr with
  | value b => simp [SymbolTable.resolveExpr, AddressExpr.label?]
  | label l offset =>
    simp only [AddressExpr.label?, Option.mem_some_iff, forall_eq']
    rw [← h.exists_address?_iff hnodup]
    constructor
    · rintro ⟨a, hresolve⟩
      obtain ⟨b, hb, -⟩ := map_ok_inv hresolve
      exact ⟨b, SymbolTable.resolve_eq_ok_iff.mp hb⟩
    · rintro ⟨b, hb⟩
      refine ⟨b.displace offset, ?_⟩
      rw [SymbolTable.resolveExpr, SymbolTable.resolve_eq_ok_iff.mpr hb]
      rfl

/-- A branch to a label is resolved exactly if the label is defined, and the branch reaches it. -/
theorem resolves_branch_iff {l : Label} {next : Nat} :
    (Reference.branch (.label l)).Resolves (Definitions.ofStatements statements).table next ↔
      l.name ∈ labelNames statements ∧
        ∀ target, LabelAt statements l.name target → BranchReaches next target := by
  rw [← h.exists_address?_iff hnodup]
  constructor
  · rintro ⟨a, ha, hreaches⟩
    refine ⟨⟨a, ha⟩, fun target htarget => ?_⟩
    obtain ⟨b, rfl⟩ := h.exists_toNat_eq htarget
    rw [h.address?_of_labelAt hnodup htarget] at ha
    rwa [Option.some.inj ha]
  · rintro ⟨⟨a, ha⟩, hreaches⟩
    exact ⟨a, ha, hreaches a.toNat ((h.address?_eq_some_iff hnodup).mp ha)⟩

/-- A jump is resolved exactly if the label that it names is defined, and the jump reaches its
target. -/
theorem resolves_jump_iff {expr : AddressExpr} {next : Nat} :
    (Reference.jump expr).Resolves (Definitions.ofStatements statements).table next ↔
      (∀ l ∈ expr.label?, l.name ∈ labelNames statements) ∧
        ∀ target, expr.Denotes statements target → JumpReaches next target := by
  rw [← h.exists_resolveExpr_iff hnodup]
  constructor
  · rintro ⟨a, ha, hreaches⟩
    refine ⟨⟨a, ha⟩, fun target htarget => ?_⟩
    obtain ⟨b, rfl⟩ := AddressExpr.exists_toNat_eq htarget
    rw [(h.resolveExpr_eq_ok_iff hnodup).mpr htarget] at ha
    rwa [Except.ok.inj ha]
  · rintro ⟨⟨a, ha⟩, hreaches⟩
    exact ⟨a, ha, hreaches a.toNat ((h.resolveExpr_eq_ok_iff hnodup).mp ha)⟩

/-- What an instruction refers to can be resolved exactly if the label that it names is defined, and
the instruction reaches it. -/
theorem resolves_iff {reference : Reference} {next : Nat} :
    reference.Resolves (Definitions.ofStatements statements).table next ↔
      (∀ l ∈ reference.label?, l.name ∈ labelNames statements) ∧
      (∀ l target, reference = .branch (.label l) → LabelAt statements l.name target →
        BranchReaches next target) ∧
      (∀ expr target, reference = .jump expr → expr.Denotes statements target →
        JumpReaches next target) := by
  cases reference with
  | branch target =>
    cases target with
    | label l =>
      rw [h.resolves_branch_iff hnodup]
      constructor
      · rintro ⟨hdefined, hreaches⟩
        refine ⟨by simpa [Reference.label?] using hdefined, ?_, nofun⟩
        rintro l' target ⟨⟩
        exact hreaches target
      · rintro ⟨hdefined, hreaches, -⟩
        exact ⟨hdefined l rfl, fun target => hreaches l target rfl⟩
    | offset words => simp [Reference.label?, Reference.Resolves]
  | jump expr =>
    rw [h.resolves_jump_iff hnodup]
    constructor
    · rintro ⟨hdefined, hreaches⟩
      refine ⟨hdefined, nofun, ?_⟩
      rintro expr' target ⟨⟩
      exact hreaches target
    · rintro ⟨hdefined, -, hreaches⟩
      exact ⟨hdefined, fun target => hreaches expr target rfl⟩
  | address expr =>
    refine (h.exists_resolveExpr_iff hnodup).trans ?_
    simp [Reference.label?]

/-! ## Statements -/

theorem resolves_instr_iff (hstands : before ++ [s] <+: statements) {i : SourceInstr}
    (hbody : s.body = some (.instr i)) :
    s.Resolves (Definitions.ofStatements statements).table (s.place before) ↔
      s.Linked statements before := by
  have hemits := h.emits (.ofString "") hstands
  have haligned := hemits.aligned hbody
  have hlt := h.place_lt hstands
  have hbytes : s.byteCount = 4 * i.wordCount := by
    unfold Statement.byteCount
    rw [hbody]
    rfl
  have hnat : (UInt32.ofNat (s.place before)).toNat = s.place before :=
    UInt32.toNat_ofNat_of_lt' (Nat.lt_of_le_of_lt (Nat.le_add_right _ _) hlt)
  unfold Statement.Resolves
  rw [hbody]
  simp only
  rw [SourceInstr.expand_isOk_iff (by rw [hnat]; exact haligned) (by rw [hnat]; omega), hnat,
    ← hbytes]
  simp only [h.resolves_iff hnodup]
  constructor
  · intro hresolves
    refine ⟨fun l hl => ?_, fun i' l target hbody' hreference htarget => ?_,
      fun i' expr target hbody' hreference htarget => ?_⟩
    · obtain ⟨reference, hreference, hl⟩ := (Statement.mem_uses_instr hbody).mp hl
      exact (hresolves reference hreference).1 l hl
    · cases hbody.symm.trans hbody'
      exact (hresolves _ hreference).2.1 l target rfl htarget
    · cases hbody.symm.trans hbody'
      exact (hresolves _ hreference).2.2 expr target rfl htarget
  · rintro hlinked reference hreference
    refine ⟨fun l hl => hlinked.defined l ?_, ?_, ?_⟩
    · exact (Statement.mem_uses_instr hbody).mpr ⟨reference, hreference, hl⟩
    · rintro l target rfl
      exact hlinked.branch i l target hbody hreference
    · rintro expr target rfl
      exact hlinked.jump i expr target hbody hreference

theorem resolves_directive_iff {d : Directive} (hbody : s.body = some (.directive d)) :
    (s.Resolves (Definitions.ofStatements statements).table (s.place before) ∧
      ∀ l, d = .globl l → l.name ∈ labelNames statements) ↔ s.Linked statements before := by
  have hnot : ∀ i, s.body ≠ some (.instr i) := fun i hi => nomatch hbody.symm.trans hi
  rw [Statement.linked_iff_of_not_instr hnot, Statement.uses_directive hbody]
  unfold Statement.Resolves
  rw [hbody]
  simp only
  rw [Directive.bytes_isOk_iff]
  simp only [h.exists_resolveExpr_iff hnodup, Directive.mem_uses]

  constructor
  · rintro ⟨hvalues, hglobal⟩ l (⟨expr, hexpr, hl⟩ | hl)
    · exact hvalues expr hexpr l hl
    · exact hglobal l hl
  · intro huses
    exact ⟨fun expr hexpr l hl => huses l (.inl ⟨expr, hexpr, hl⟩),
      fun l hl => huses l (.inr hl)⟩

/-- A statement is linked exactly if it can be resolved, and the label that it makes known, if it
does so, is defined. -/
theorem resolves_statement_iff (hstands : before ++ [s] <+: statements) :
    (s.Resolves (Definitions.ofStatements statements).table (s.place before) ∧
      ∀ l, s.body = some (.directive (.globl l)) → l.name ∈ labelNames statements) ↔
      s.Linked statements before := by
  cases hbody : s.body with
  | none =>
    rw [Statement.linked_iff_of_not_instr fun i hi => nomatch hbody.symm.trans hi]
    unfold Statement.Resolves Statement.uses
    rw [hbody]
    simp
  | some body =>
    cases body with
    | instr i =>
      rw [← h.resolves_instr_iff hnodup hstands hbody]
      exact and_iff_left nofun
    | directive d =>
      rw [← h.resolves_directive_iff hnodup hbody]
      simp

end

end Fitting

/-! ## Instructions -/

section

variable {statements before : List Statement} {s : Statement} {address : Nat}

theorem Statement.home?_eq_text_iff : s.home? = some .text ↔ ∃ i, s.body = some (.instr i) := by
  unfold home?
  cases hbody : s.body with
  | none => simp
  | some body =>
    cases body with
    | instr i => simp [Body.home?]
    | directive d => cases hd : d.isData <;> simp [Body.home?, hd]

/-- Instructions are put one behind the other. -/
theorem Statement.place_of_text (h : s.home? = some .text) :
    s.place before = Segment.text.stop before := by
  rw [place_of_home h, alignment_of_text h, roundUp_one]

theorem nextPlace_text (before rest : List Statement) :
    Segment.text.nextPlace before rest = Segment.text.stop before := by
  rcases first_or_none .text rest with ⟨between, t, behind, rfl, hbetween, ht⟩ | hnone
  · rw [nextPlace_of_first hbetween ht, Statement.place_of_text ht,
      Segment.stop_of_elsewhere before hbetween]
  · rw [nextPlace_of_none hnone, Segment.stop_of_elsewhere before hnone]

theorem SourceInstr.wordCount_pos (i : SourceInstr) : 0 < i.wordCount := by
  unfold wordCount
  split
  · split <;> decide
  all_goals decide

/-- An instruction is within the text segment, since it takes room there. -/
theorem InstrAt.range (h : InstrAt statements address) :
    Segment.text.start ≤ address ∧ address < Segment.text.stop statements := by
  obtain ⟨before, s, i, hstands, hbody, rfl⟩ := h
  have hhome := Statement.home?_eq_text_iff.mpr ⟨i, hbody⟩
  have hstop := Segment.text.stop_mono hstands
  have hcount : 0 < s.byteCount := by
    unfold Statement.byteCount
    rw [hbody]
    exact Nat.mul_pos (by decide : 0 < 4) i.wordCount_pos
  rw [Segment.stop_of_home hhome] at hstop
  rw [Statement.place_of_text hhome] at hstop ⊢
  exact ⟨Segment.text.start_le_stop before, by omega⟩

/-- Where the text segment goes on there is an instruction. -/
theorem instrAt_of_lt (before : List Statement) {rest : List Statement}
    (h : Segment.text.stop before < Segment.text.stop (before ++ rest)) :
    InstrAt (before ++ rest) (Segment.text.stop before) := by
  rcases first_or_none .text rest with ⟨between, t, behind, rfl, hbetween, ht⟩ | hnone
  · obtain ⟨i, hbody⟩ := Statement.home?_eq_text_iff.mp ht
    refine ⟨before ++ between, t, i, ⟨behind, by simp⟩, hbody, ?_⟩
    rw [Statement.place_of_text ht, Segment.stop_of_elsewhere before hbetween]
  · rw [Segment.stop_of_elsewhere before hnone] at h
    exact absurd h (Nat.lt_irrefl _)

/-- There is an instruction exactly if the text segment is not empty. -/
theorem exists_instrAt_iff :
    (∃ address, InstrAt statements address) ↔
      Segment.text.start < Segment.text.stop statements := by
  constructor
  · rintro ⟨address, h⟩
    exact Nat.lt_of_le_of_lt h.range.1 h.range.2
  · intro h
    exact ⟨_, instrAt_of_lt [] h⟩

/-- What is put within the text segment is put where an instruction is. -/
theorem Fitting.instrAt_iff (h : Fitting statements) (hstands : before ++ [s] <+: statements) :
    InstrAt statements (s.place before) ↔
      Segment.text.start ≤ s.place before ∧ s.place before < Segment.text.stop statements := by
  refine ⟨InstrAt.range, fun ⟨_, hlt⟩ => ?_⟩
  have hroom := h.room .text
  obtain ⟨behind, rfl⟩ := hstands
  rw [List.append_assoc, List.singleton_append] at h hlt hroom ⊢
  have hplace := place_eq h
  cases hsegment : currentSegment (before ++ [s]) with
  | text =>
    have hstop : s.place before = Segment.text.stop before := by
      rw [hplace, hsegment, nextPlace_text, ite_self]
    rw [hstop] at hlt ⊢
    exact instrAt_of_lt before hlt
  | data =>
    -- The data segment is behind the text segment.
    have hdata : Segment.data.start ≤ s.place before := by
      rw [hplace, hsegment]
      have hstop := Segment.data.start_le_stop before
      split
      · exact Nat.le_trans hstop (stop_le_nextPlace .data before (s :: behind))
      · exact hstop
    have hapart : Segment.text.start + segmentLimit < Segment.data.start := by decide
    omega

end

/-! ## Labels made known -/

/-- The label that a statement makes known to others. -/
def Statement.global? (s : Statement) : Option Label :=
  match s.body with
  | some (.directive (.globl l)) => some l
  | _ => none

theorem Statement.global?_eq_some_iff {s : Statement} {l : Label} :
    s.global? = some l ↔ s.body = some (.directive (.globl l)) := by
  unfold global?
  split
  · next l' hbody => rw [hbody]; simp
  · next hother => exact ⟨nofun, fun hbody => absurd hbody (hother l)⟩

namespace Definitions

theorem define_globals (address : Address) (d : Definitions) (label : Label) :
    (define address d label).table.globals = d.table.globals := by
  unfold define
  split <;> rfl

theorem foldl_define_globals (address : Address) (d : Definitions) (labels : List Label) :
    (labels.foldl (define address) d).table.globals = d.table.globals :=
  foldl_define_kept (·.table.globals) (define_globals address) d labels

theorem declareGlobal_globals (d : Definitions) (s : Statement) :
    (d.declareGlobal s).table.globals.toList =
      d.table.globals.toList ++ s.global?.toList := by
  unfold declareGlobal
  split
  · next l hbody =>
    rw [Statement.global?_eq_some_iff.mpr hbody]
    exact Array.toList_push
  · next hother =>
    have hglobal : s.global? = none :=
      Option.eq_none_iff_forall_ne_some.mpr fun l hl =>
        hother l (Statement.global?_eq_some_iff.mp hl)
    rw [hglobal]
    exact (List.append_nil _).symm

/-- A directive that makes a label known can stand anywhere. -/
theorem add_globals (d : Definitions) (s : Statement) :
    (d.add s).table.globals.toList = d.table.globals.toList ++ s.global?.toList := by
  unfold add
  cases hplace : d.cursor.place? s.body with
  | some placed =>
    simp only
    rw [advance_table, declareGlobal_globals, foldl_define_globals]
  | none =>
    have hglobal : s.global? = none := by
      cases hglobal : s.global? with
      | none => rfl
      | some l =>
        rw [Statement.global?_eq_some_iff.mp hglobal] at hplace
        exact nomatch hplace
    simp only
    rw [foldl_define_globals, hglobal]
    exact (List.append_nil _).symm

theorem ofStatements_globals (statements : List Statement) :
    (ofStatements statements).table.globals.toList = statements.filterMap Statement.global? := by
  induction statements using List.reverseRecOn with
  | nil => rfl
  | append_singleton before s ih =>
    rw [ofStatements_append, add_globals, ih, List.filterMap_append]
    cases hglobal : s.global? with
    | none => simp [hglobal]
    | some l => simp [hglobal]

end Definitions

theorem Program.undefinedGlobals_eq_nil_iff {symbols : SymbolTable} :
    undefinedGlobals symbols = [] ↔
      ∀ l ∈ symbols.globals.toList, ∃ a, symbols.address? l.name = some a := by
  unfold undefinedGlobals
  rw [List.filterMap_eq_nil_iff]
  refine forall₂_congr fun l _ => ?_
  simp only [← SymbolTable.resolve_eq_ok_iff]
  cases symbols.resolve l with
  | ok a => simp
  | error e => simp

/-! ## Where execution starts -/

section

variable {symbols : SymbolTable} {textEnd : Nat}

/-- Without an entry label, execution starts where the text segment does. -/
theorem Program.resolveEntry_of_none (h : symbols.address? entryLabel = none) :
    resolveEntry symbols textEnd = (UInt32.ofNat Segment.text.start, []) := by
  unfold resolveEntry
  rw [Option.map_eq_none_iff.mp h]

/-- Execution starts at the entry label if that is within the text segment, and it is reported if it
is not. -/
theorem Program.resolveEntry_of_some {a : Address} (h : symbols.address? entryLabel = some a) :
    (Segment.text.start ≤ a.toNat ∧ a.toNat < textEnd →
      resolveEntry symbols textEnd = (a, [])) ∧
    (¬(Segment.text.start ≤ a.toNat ∧ a.toNat < textEnd) →
      (resolveEntry symbols textEnd).2 ≠ []) := by
  obtain ⟨symbol, hfind, rfl⟩ := Option.map_eq_some_iff.mp h
  unfold resolveEntry
  rw [hfind]
  constructor
  · intro hin
    exact if_pos hin
  · intro hout
    simp [hout]

/-- The entry is not reported exactly if its label, if there is one, is within the text segment. -/
theorem Program.resolveEntry_eq_nil_iff :
    (resolveEntry symbols textEnd).2 = [] ↔
      ∀ a, symbols.address? entryLabel = some a →
        Segment.text.start ≤ a.toNat ∧ a.toNat < textEnd := by
  constructor
  · intro h a ha
    by_contra hout
    exact (resolveEntry_of_some ha).2 hout h
  · intro h
    cases ha : symbols.address? entryLabel with
    | none => rw [resolveEntry_of_none ha]
    | some a => rw [(resolveEntry_of_some ha).1 (h a ha)]

end

/-! ## Acceptance -/

section

variable {statements : List Statement} {source : Source}

/-- No label that is made known is reported exactly if all of them are defined. -/
theorem Fitting.undefinedGlobals_eq_nil_iff (h : Fitting statements)
    (hnodup : (labelNames statements).Nodup) :
    Program.undefinedGlobals (Definitions.ofStatements statements).table = [] ↔
      ∀ s ∈ statements, ∀ l, s.body = some (.directive (.globl l)) →
        l.name ∈ labelNames statements := by
  rw [Program.undefinedGlobals_eq_nil_iff, Definitions.ofStatements_globals]
  simp only [h.exists_address?_iff hnodup, List.mem_filterMap, Statement.global?_eq_some_iff]
  constructor
  · intro hall s hs l hbody
    exact hall l ⟨s, hs, hbody⟩
  · rintro hall l ⟨s, hs, hbody⟩
    exact hall s hs l hbody

/-- Nothing is left unresolved exactly if all statements are linked. -/
theorem Fitting.linked_iff (h : Fitting statements) (hnodup : (labelNames statements).Nodup)
    (source : Source) :
    ((Emission.ofStatements (Definitions.ofStatements statements).table source
        statements).errors = #[] ∧
      Program.undefinedGlobals (Definitions.ofStatements statements).table = []) ↔
      ∀ before s, before ++ [s] <+: statements → s.Linked statements before := by
  rw [Emission.errors_eq_nil_iff h, h.undefinedGlobals_eq_nil_iff hnodup]
  constructor
  · rintro ⟨hresolves, hglobals⟩ before s hstands
    have hs : s ∈ statements :=
      hstands.subset (List.mem_append_right _ (List.mem_singleton_self s))
    exact (h.resolves_statement_iff hnodup hstands).mp
      ⟨hresolves before s hstands, hglobals s hs⟩
  · intro hlinked
    refine ⟨fun before s hstands => ?_, fun s hs => ?_⟩
    · exact ((h.resolves_statement_iff hnodup hstands).mpr (hlinked before s hstands)).1
    · obtain ⟨before, behind, rfl⟩ := List.append_of_mem hs
      have hstands : before ++ [s] <+: before ++ s :: behind := ⟨behind, by simp⟩
      exact ((h.resolves_statement_iff hnodup hstands).mpr (hlinked before s hstands)).2

/-- The entry is not reported exactly if its label, if there is one, is that of an instruction. -/
theorem Fitting.resolveEntry_eq_nil_iff (h : Fitting statements)
    (hnodup : (labelNames statements).Nodup) :
    (Program.resolveEntry (Definitions.ofStatements statements).table
        (Segment.text.stop statements)).2 = [] ↔
      ∀ address, LabelAt statements entryLabel address → InstrAt statements address := by
  rw [Program.resolveEntry_eq_nil_iff]
  simp only [h.address?_eq_some_iff hnodup]
  constructor
  · intro hall address hlabel
    obtain ⟨a, rfl⟩ := h.exists_toNat_eq hlabel
    have hrange := hall a hlabel
    obtain ⟨before, s, hstands, -, hplace⟩ := hlabel
    rw [← hplace] at hrange ⊢
    exact (h.instrAt_iff hstands).mpr hrange
  · intro hall a hlabel
    exact (hall a.toNat hlabel).range

theorem Fitting.emission_text (h : Fitting statements) (symbols : SymbolTable) (source : Source) :
    (Emission.ofStatements symbols source statements).cursor.text =
      Segment.text.stop statements :=
  congrArg Cursor.text ((Emission.ofStatements_walk symbols source statements).trans h.walk_eq)

/-- The assembler finds nothing to report about statements exactly if they fit, no label is defined
twice, all statements are linked, and execution starts at an instruction. -/
theorem Program.errors_eq_nil_iff :
    (ofStatements statements source).2 = [] ↔
      Fitting statements ∧ (labelNames statements).Nodup ∧
      (∀ before s, before ++ [s] <+: statements → s.Linked statements before) ∧
      ∀ address, LabelAt statements entryLabel address → InstrAt statements address := by
  unfold ofStatements
  simp only [List.append_eq_nil_iff, Array.toList_eq_nil_iff, Definitions.errors_eq_nil_iff]
  constructor
  · rintro ⟨⟨⟨⟨hfits, hnodup⟩, hemission⟩, hentry⟩, hglobals⟩
    rw [hfits.emission_text, hfits.resolveEntry_eq_nil_iff hnodup] at hentry
    exact ⟨hfits, hnodup, (hfits.linked_iff hnodup source).mp ⟨hemission, hglobals⟩, hentry⟩
  · rintro ⟨hfits, hnodup, hlinked, hentry⟩
    obtain ⟨hemission, hglobals⟩ := (hfits.linked_iff hnodup source).mpr hlinked
    rw [← hfits.resolveEntry_eq_nil_iff hnodup,
      ← hfits.emission_text (Definitions.ofStatements statements).table source] at hentry
    exact ⟨⟨⟨⟨hfits, hnodup⟩, hemission⟩, hentry⟩, hglobals⟩

theorem Fitting.text_size (h : Fitting statements) (source : Source) :
    Segment.text.start + 4 * (Program.ofStatements statements source).1.text.size =
      Segment.text.stop statements :=
  h.stop_eq source .text

/-- What is put within the text segment has an index there. -/
theorem InstrAt.exists_index (h : Fitting statements) (source : Source) {address : Nat}
    (haddress : InstrAt statements address) :
    ∃ k < (Program.ofStatements statements source).1.text.size,
      address = Segment.text.start + 4 * k := by
  have hsize := h.text_size source
  have hlt := haddress.range.2
  obtain ⟨before, s, i, hstands, hbody, rfl⟩ := haddress
  have hbefore := h.of_prefix ((List.prefix_append before [s]).trans hstands)
  have hplace : s.place before = Segment.text.stop before :=
    Statement.place_of_text (Statement.home?_eq_text_iff.mpr ⟨i, hbody⟩)
  have hindex := hbefore.text_size source
  exact ⟨(Program.ofStatements before source).1.text.size, by omega, by omega⟩

/-- Execution starts at an instruction if there is any, and the entry label is that of one. -/
theorem Fitting.instrAt_entry (h : Fitting statements) (hnodup : (labelNames statements).Nodup)
    (hentry : ∀ address, LabelAt statements entryLabel address → InstrAt statements address)
    (hinstrs : ∃ address, InstrAt statements address) (source : Source) :
    InstrAt statements (Program.ofStatements statements source).1.entry.toNat := by
  have hprogram : (Program.ofStatements statements source).1.entry =
      (Program.resolveEntry (Definitions.ofStatements statements).table
        (Segment.text.stop statements)).1 := by
    rw [← h.emission_text (Definitions.ofStatements statements).table source]
    rfl
  rw [hprogram]
  cases hlabel : (Definitions.ofStatements statements).table.address? entryLabel with
  | none =>
    rw [Program.resolveEntry_of_none hlabel]
    exact instrAt_of_lt [] (exists_instrAt_iff.mp hinstrs)
  | some a =>
    have hat := hentry a.toNat ((h.address?_eq_some_iff hnodup).mp hlabel)
    rw [(Program.resolveEntry_of_some hlabel).1 hat.range]
    exact hat

/-- A program has instructions exactly if one of its statements is one. -/
theorem Fitting.code_ne_empty_iff (h : Fitting statements) (source : Source) :
    (Program.ofStatements statements source).1.text ≠ #[] ↔
      ∃ address, InstrAt statements address := by
  have hstop := h.text_size source
  rw [exists_instrAt_iff, ← hstop, ne_eq, ← Array.size_eq_zero_iff]
  omega

end

/-- The accepted sources are those without problems. -/
theorem isOk_iff_accepted (source : Source) :
    (assemble source).isOk = true ↔ Accepted source := by
  rw [assemble_isOk_iff, parse_errors_eq_nil_iff, Program.errors_eq_nil_iff]
  constructor
  · rintro ⟨hlines, ⟨hfits, hnodup, hlinked, hentry⟩, hcode⟩
    exact ⟨hlines, hnodup, hfits.inPlace, hfits.room, hlinked, hentry,
      (hfits.code_ne_empty_iff source).mp hcode⟩
  · intro h
    have hfits : Fitting (parse source.chars).1 := ⟨h.inPlace, h.room⟩
    exact ⟨h.lines, ⟨hfits, h.labels, h.linked, h.entry⟩,
      (hfits.code_ne_empty_iff source).mpr h.instrs⟩

/-- A source text is assembled without problems exactly if it is accepted. The entry of its program
is then the address of one of its instructions. -/
theorem assemble_accepts_iff (source : Source) :
    ((∃ p, (assemble source).toExcept = .ok p) ↔ Accepted source) ∧
      ∀ p, (assemble source).toExcept = .ok p →
        ∃ k < p.text.size, p.entry.toNat = Segment.text.start + 4 * k := by
  unfold Assembly.toExcept
  constructor
  · rw [← isOk_iff_accepted]
    constructor
    · rintro ⟨p, h⟩
      by_contra hnot
      rw [if_neg hnot] at h
      exact nomatch h
    · intro hok
      exact ⟨_, if_pos hok⟩
  · intro p h
    split at h
    · next hok =>
      obtain rfl := Except.ok.inj h
      have haccepted := (isOk_iff_accepted source).mp hok
      have hfits : Fitting (parse source.chars).1 := ⟨haccepted.inPlace, haccepted.room⟩
      exact (hfits.instrAt_entry haccepted.labels haccepted.entry haccepted.instrs
        source).exists_index hfits source
    · exact nomatch h

/-- A source text that is accepted, where execution does not start at the first instruction, and one
that is not accepted, since it would start in the data segment. -/
theorem assemble_accepts_later_main :
    let later : Source := .ofString "loop: j loop\n.globl main\nmain: bne $t0, $t1, loop"
    let data : Source := .ofString "nop\n.data\nmain: .word 1"
    (∃ p, (assemble later).toExcept = .ok p ∧ Accepted later ∧
      ∃ k < p.text.size, p.entry.toNat = Segment.text.start + 4 * k) ∧ ¬Accepted data := by
  intro later data
  have hok : (assemble later).isOk = true := by decide +kernel
  have hproblems : (assemble data).isOk = false := by decide +kernel
  refine ⟨⟨(assemble later).program, if_pos hok, ?_, ?_⟩, ?_⟩
  · exact (assemble_accepts_iff later).1.mp ⟨_, if_pos hok⟩
  · exact (assemble_accepts_iff later).2 _ (if_pos hok)
  · intro haccepted
    obtain ⟨p, hp⟩ := (assemble_accepts_iff data).1.mpr haccepted
    unfold Assembly.toExcept at hp
    rw [hproblems] at hp
    exact nomatch hp

end MipsLab
