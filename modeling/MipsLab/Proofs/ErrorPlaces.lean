import MipsLab.Proofs.AcceptedSources

/-!
# What assembly errors are about

Every error of the assembler is about a label that stands before a statement, about a statement as a
whole, or about a label that a statement uses. A label is reported as missing only where it is used,
and only if it has no address.

1. `Unresolved`, `Emission.ofStatements_error`: what can be wrong with what statements refer to.
2. `Misfit`, `Definitions.ofStatements_error`: what can be wrong with them otherwise.
3. `Program.undefined_error`: which labels are reported as missing.
4. `Program.error_place`: the primary places of all errors.
-/

namespace MipsLab

/-- An error that is there after some steps was there at first, or comes from one of the steps. -/
theorem exists_of_foldl {β γ : Type} (errors : β → Array AssemblyError) {error : AssemblyError}
    {step : β → γ → β} {origin : γ → Prop}
    (hstep : ∀ b x, error ∈ (errors (step b x)).toList → error ∈ (errors b).toList ∨ origin x)
    {b : β} {xs : List γ} (h : error ∈ (errors (xs.foldl step b)).toList) :
    error ∈ (errors b).toList ∨ ∃ x ∈ xs, origin x := by
  induction xs generalizing b with
  | nil => exact .inl h
  | cons x xs ih =>
    rcases ih h with h | ⟨y, hy, horigin⟩
    · exact (hstep b x h).imp_right fun horigin => ⟨x, List.mem_cons_self, horigin⟩
    · exact .inr ⟨y, List.mem_cons_of_mem x hy, horigin⟩

/-! ## References -/

/-- The causes of errors at a target that has an address. -/
def AssemblyCause.isOfTarget : AssemblyCause → Bool
  | branchTooFar _ | misalignedTarget | jumpOutOfRegion => true
  | _ => false

/-- An error of a statement that is written at a place and uses some labels: one of them has no
address, or the address that is referred to is of no use, which is blamed on the label if there is
one and else on the statement. -/
inductive Unresolved (symbols : SymbolTable) (used : List Label) (span : Span) :
    AssemblyError → Prop
  | undefined {l : Label} (hl : l ∈ used) (hnone : symbols.address? l.name = none) :
    Unresolved symbols used span (.single .undefinedLabel l.span)
  | label {l : Label} {cause : AssemblyCause} (hl : l ∈ used) (hcause : cause.isOfTarget = true) :
    Unresolved symbols used span (.single cause l.span)
  | place {cause : AssemblyCause} (hcause : cause.isOfTarget = true) :
    Unresolved symbols used span (.single cause span)

section

variable {symbols : SymbolTable} {used : List Label} {span : Span} {pc : Address}
  {e : AssemblyError}

theorem SymbolTable.resolve_error {l : Label} (h : symbols.resolve l = .error e) (hl : l ∈ used) :
    Unresolved symbols used span e := by
  unfold resolve at h
  split at h
  · exact nomatch h
  · next hnone =>
    obtain rfl := Except.error.inj h
    exact .undefined hl hnone

theorem SymbolTable.resolveExpr_error {expr : AddressExpr} (h : symbols.resolveExpr expr = .error e)
    (hl : ∀ l ∈ expr.label?, l ∈ used) : Unresolved symbols used span e := by
  cases expr with
  | label l offset => exact resolve_error (map_error_inv h) (hl l rfl)
  | value a => exact nomatch h

theorem BranchTarget.resolve_error {target : BranchTarget}
    (h : target.resolve pc symbols = .error e)
    (hl : ∀ l ∈ (Reference.branch target).label?, l ∈ used) : Unresolved symbols used span e := by
  cases target with
  | offset words => exact nomatch h
  | label l =>
    have hused := hl l rfl
    rcases bind_error_inv h with hresolve | ⟨a, -, h⟩
    · exact SymbolTable.resolve_error hresolve hused
    · rcases check_error_inv h with rfl | h
      · exact .label hused rfl
      · split at h
        · exact nomatch h
        · obtain rfl := Except.error.inj h
          exact .label hused rfl

theorem AddressExpr.blame_unresolved {target : AddressExpr} {cause : AssemblyCause}
    (hcause : cause.isOfTarget = true) (hl : ∀ l ∈ target.label?, l ∈ used) :
    Unresolved symbols used span (.single cause (target.blame span)) := by
  cases target with
  | label l offset => exact .label (hl l rfl) hcause
  | value a => exact .place hcause

theorem AddressExpr.jumpIndex_error {target : AddressExpr}
    (h : target.jumpIndex pc span symbols = .error e) (hl : ∀ l ∈ target.label?, l ∈ used) :
    Unresolved symbols used span e := by
  rcases bind_error_inv h with hresolve | ⟨a, -, h⟩
  · exact SymbolTable.resolveExpr_error hresolve hl
  · rcases check_error_inv h with rfl | h
    · exact blame_unresolved rfl hl
    rcases check_error_inv h with rfl | h
    · exact blame_unresolved rfl hl
    · exact nomatch h

/-- The errors of an instruction are about what it refers to. -/
theorem SourceInstr.expand_error {i : SourceInstr} (h : i.expand pc span symbols = .error e)
    (hl : ∀ l ∈ i.reference?.bind Reference.label?, l ∈ used) : Unresolved symbols used span e := by
  cases i with
  | branch cond rs rt target | b target | beqz rs target | bnez rs target =>
    exact BranchTarget.resolve_error (bind_pure_error_inv h) hl
  | compare cmp rs rt target => exact BranchTarget.resolve_error (bind_pure_error_inv h) hl
  | j target | jal target => exact AddressExpr.jumpIndex_error (bind_pure_error_inv h) hl
  | load width rt operand | store width rt operand =>
    cases operand with
    | based => exact nomatch h
    | direct target => exact SymbolTable.resolveExpr_error (bind_pure_error_inv h) hl
  | la rt target => exact SymbolTable.resolveExpr_error (bind_pure_error_inv h) hl
  | _ => exact nomatch h

theorem Directive.bytes_error {d : Directive} (h : d.bytes symbols = .error e)
    (hl : ∀ l ∈ d.uses, l ∈ used) : Unresolved symbols used span e := by
  cases d with
  | word values =>
    obtain ⟨expr, hexpr, herror⟩ := mapM_error_inv (bind_pure_error_inv h)
    refine SymbolTable.resolveExpr_error herror fun l hlabel => hl l ?_
    exact List.mem_filterMap.mpr ⟨expr, hexpr, hlabel⟩
  | _ => exact nomatch h

end

/-! ## The second pass -/

namespace Emission

variable {symbols : SymbolTable} {source : Source} {e : Emission} {s : Statement}
  {error : AssemblyError}

theorem addInstr_error {line : Nat} {i : SourceInstr} (hbody : s.body = some (.instr i))
    (h : error ∈ (e.addInstr symbols line s.span i).errors.toList) :
    error ∈ e.errors.toList ∨ Unresolved symbols s.uses s.span error := by
  have hl : ∀ l ∈ i.reference?.bind Reference.label?, l ∈ s.uses := by
    intro l hl
    unfold Statement.uses
    rw [hbody]
    exact Option.mem_toList.mpr hl
  unfold addInstr at h
  cases hexpand : i.expand (UInt32.ofNat e.cursor.current) s.span symbols with
  | ok instrs =>
    simp only [hexpand] at h
    split at h <;> exact .inl h
  | error found =>
    simp only [hexpand] at h
    have hmem : error ∈ e.errors.toList ++ [found] := by
      rw [← Array.toList_push]
      split at h <;> exact h
    rcases List.mem_append.mp hmem with hmem | hmem
    · exact .inl hmem
    · obtain rfl := List.mem_singleton.mp hmem
      exact .inr (SourceInstr.expand_error hexpand hl)

theorem addData_error {d : Directive} (hbody : s.body = some (.directive d))
    (h : error ∈ (e.addData symbols d).errors.toList) :
    error ∈ e.errors.toList ∨ Unresolved symbols s.uses s.span error := by
  unfold addData at h
  cases hadvance : e.cursor.advance? d.byteCount with
  | none =>
    rw [hadvance] at h
    exact .inl h
  | some cursor =>
    rw [hadvance] at h
    cases hbytes : d.bytes symbols with
    | ok bytes =>
      simp only [hbytes] at h
      exact .inl h
    | error found =>
      simp only [hbytes, Array.toList_push] at h
      rcases List.mem_append.mp h with hmem | hmem
      · exact .inl hmem
      · obtain rfl := List.mem_singleton.mp hmem
        refine .inr (Directive.bytes_error hbytes fun l hl => ?_)
        rwa [Statement.uses_directive hbody]

/-- What is reported of a statement is about what it refers to. -/
theorem add_error (h : error ∈ (e.add symbols source s).errors.toList) :
    error ∈ e.errors.toList ∨ Unresolved symbols s.uses s.span error := by
  unfold add at h
  cases hplace : e.cursor.place? s.body with
  | none =>
    rw [hplace] at h
    exact .inl h
  | some placed =>
    rw [hplace] at h
    cases hbody : s.body with
    | none =>
      rw [hbody] at h
      exact .inl h
    | some body =>
      rw [hbody] at h
      cases body with
      | instr i => exact addInstr_error (e := { e with cursor := placed }) hbody h
      | directive d =>
        simp only at h
        split at h
        · exact addData_error (e := { e with cursor := placed }) hbody h
        · exact .inl h

theorem ofStatements_error {statements : List Statement}
    (h : error ∈ (ofStatements symbols source statements).errors.toList) :
    ∃ s ∈ statements, Unresolved symbols s.uses s.span error := by
  have hstep (e : Emission) (s : Statement)
      (h : error ∈ (e.add symbols source s).errors.toList) :
      error ∈ e.errors.toList ∨ Unresolved symbols s.uses s.span error := add_error h
  exact (exists_of_foldl errors hstep h).resolve_left List.not_mem_nil

end Emission

/-! ## The first pass -/

/-- The causes of errors at a statement that has no place. -/
def AssemblyCause.isOfPlace : AssemblyCause → Bool
  | misplacedDirective | misplacedInstr | segmentTooLarge => true
  | _ => false

/-- An error of a statement that does not fit to those before it: it defines a label again, or it
has no place. -/
inductive Misfit (s : Statement) : AssemblyError → Prop
  | redefined {l first : Label} (hl : l ∈ s.labels) :
    Misfit s ⟨.duplicateLabel, .two l.span first.span⟩
  | place {cause : AssemblyCause} (hcause : cause.isOfPlace = true) :
    Misfit s (.single cause s.span)

namespace Definitions

variable {d : Definitions} {s : Statement} {error : AssemblyError}

theorem report_error {e : AssemblyError} (h : error ∈ (d.report e).errors.toList) :
    error ∈ d.errors.toList ∨ error = e := by
  unfold report at h
  rw [Array.toList_push] at h
  exact (List.mem_append.mp h).imp_right List.mem_singleton.mp

theorem misplaced_isOfPlace (body : Option Body) : (misplaced body).isOfPlace = true := by
  unfold misplaced
  split <;> rfl

theorem define_error {address : Address} {l : Label}
    (h : error ∈ (define address d l).errors.toList) :
    error ∈ d.errors.toList ∨
      ∃ first : Label, error = ⟨.duplicateLabel, .two l.span first.span⟩ := by
  unfold define at h
  split at h
  · next first _ => exact (report_error h).imp_right fun herror => ⟨first.label, herror⟩
  · exact .inl h

theorem foldl_define_error {address : Address}
    (h : error ∈ (s.labels.foldl (define address) d).errors.toList) :
    error ∈ d.errors.toList ∨ Misfit s error := by
  have hstep (d : Definitions) (l : Label) (h : error ∈ (define address d l).errors.toList) :
      error ∈ d.errors.toList ∨ ∃ first : Label,
        error = ⟨.duplicateLabel, .two l.span first.span⟩ := define_error h
  rcases exists_of_foldl errors hstep h with h | ⟨l, hl, first, rfl⟩
  · exact .inl h
  · exact .inr (.redefined hl)

theorem advance_error (h : error ∈ (d.advance s).errors.toList) :
    error ∈ d.errors.toList ∨ Misfit s error := by
  unfold advance at h
  split at h
  · exact .inl h
  · split at h
    · exact .inl h
    · rcases report_error h with h | rfl
      · exact .inl h
      · exact .inr (.place rfl)

/-- What is reported of a statement is about its labels or about the statement as a whole. -/
theorem add_error (h : error ∈ (d.add s).errors.toList) :
    error ∈ d.errors.toList ∨ Misfit s error := by
  unfold add at h
  cases hplace : d.cursor.place? s.body with
  | some placed =>
    rw [hplace] at h
    rcases advance_error h with h | h
    · rw [declareGlobal_errors] at h
      exact foldl_define_error (d := { d with cursor := placed }) h
    · exact .inr h
  | none =>
    rw [hplace] at h
    rcases foldl_define_error h with h | h
    · rcases report_error h with h | rfl
      · exact .inl h
      · exact .inr (.place (misplaced_isOfPlace s.body))
    · exact .inr h

theorem ofStatements_error {statements : List Statement}
    (h : error ∈ (ofStatements statements).errors.toList) : ∃ s ∈ statements, Misfit s error := by
  have hstep (d : Definitions) (s : Statement) (h : error ∈ (d.add s).errors.toList) :
      error ∈ d.errors.toList ∨ Misfit s error := add_error h
  exact (exists_of_foldl errors hstep h).resolve_left List.not_mem_nil

end Definitions

/-! ## Programs -/

/-- A label that is made known is used by the statement that does so. -/
theorem Statement.mem_uses_of_global {s : Statement} {l : Label} (h : s.global? = some l) :
    l ∈ s.uses := by
  have hbody := global?_eq_some_iff.mp h
  rw [uses_directive hbody]
  exact List.mem_singleton_self l

namespace Program

variable {statements : List Statement} {source : Source} {error : AssemblyError}

/-- What is reported beside the errors of the first pass. -/
def laterErrors (statements : List Statement) (source : Source) : List AssemblyError :=
  let symbols := (Definitions.ofStatements statements).table
  let emission := Emission.ofStatements symbols source statements
  emission.errors.toList ++ (resolveEntry symbols emission.cursor.text).2 ++
    undefinedGlobals symbols

theorem errors_eq (statements : List Statement) (source : Source) :
    (ofStatements statements source).2 =
      (Definitions.ofStatements statements).errors.toList ++ laterErrors statements source := by
  unfold laterErrors
  rw [← List.append_assoc, ← List.append_assoc]
  rfl

theorem laterErrors_reported (h : error ∈ laterErrors statements source) :
    (∃ s ∈ statements,
      Unresolved (Definitions.ofStatements statements).table s.uses s.span error) ∨
    ∃ symbol, (Definitions.ofStatements statements).table.find? entryLabel = some symbol ∧
      error = .single .entryNotInText symbol.label.span := by
  rcases List.mem_append.mp h with h | h
  · rcases List.mem_append.mp h with h | h
    · exact .inl (Emission.ofStatements_error h)
    · unfold resolveEntry at h
      cases hfind : (Definitions.ofStatements statements).table.find? entryLabel with
      | none =>
        rw [hfind] at h
        exact nomatch h
      | some symbol =>
        rw [hfind] at h
        simp only at h
        split at h
        · exact nomatch h
        · exact .inr ⟨symbol, rfl, List.mem_singleton.mp h⟩
  · obtain ⟨l, hl, herror⟩ := List.mem_filterMap.mp h
    rw [Definitions.ofStatements_globals] at hl
    obtain ⟨s, hs, hglobal⟩ := List.mem_filterMap.mp hl
    refine .inl ⟨s, hs, ?_⟩
    cases hresolve : (Definitions.ofStatements statements).table.resolve l with
    | ok a =>
      rw [hresolve] at herror
      exact nomatch herror
    | error found =>
      rw [hresolve] at herror
      obtain rfl := Option.some.inj herror
      exact SymbolTable.resolve_error hresolve (Statement.mem_uses_of_global hglobal)

/-- Only the first pass reports labels that are defined again and statements that have no place. -/
theorem laterErrors_cause (h : error ∈ laterErrors statements source) :
    error.cause ≠ .duplicateLabel ∧ error.cause.isOfPlace = false := by
  rcases laterErrors_reported h with ⟨s, -, herror⟩ | ⟨symbol, -, rfl⟩
  · cases herror with
    | undefined => exact ⟨nofun, rfl⟩
    | @label _ cause _ hcause | @place cause hcause =>
      cases cause with
      | branchTooFar | misalignedTarget | jumpOutOfRegion => exact ⟨nofun, rfl⟩
      | _ => exact nomatch hcause
  · exact ⟨nofun, rfl⟩

/-- A label is reported as missing where a statement uses it, and only if it has no address. -/
theorem undefined_error (h : error ∈ (ofStatements statements source).2)
    (hcause : error.cause = .undefinedLabel) :
    ∃ s ∈ statements, ∃ l ∈ s.uses, error = .single .undefinedLabel l.span ∧
      (ofStatements statements source).1.symbols.address? l.name = none := by
  rw [errors_eq] at h
  rcases List.mem_append.mp h with h | h
  · obtain ⟨s, -, herror⟩ := Definitions.ofStatements_error h
    cases herror with
    | redefined => exact nomatch hcause
    | place hplace =>
      subst hcause
      exact nomatch hplace
  · rcases laterErrors_reported h with ⟨s, hs, herror⟩ | ⟨symbol, -, rfl⟩
    · cases herror with
      | undefined hl hnone => exact ⟨s, hs, _, hl, rfl, hnone⟩
      | label _ htarget | place htarget =>
        subst hcause
        exact nomatch htarget
    · exact nomatch hcause

/-- The primary place of an error is a label before a statement, a statement or a label that a
statement uses, or else the entry label. -/
theorem error_place (h : error ∈ (ofStatements statements source).2) :
    ∃ place, error.spans.first? = some place ∧
      ((∃ s ∈ statements, place = s.span ∨ ∃ l, (l ∈ s.labels ∨ l ∈ s.uses) ∧ place = l.span) ∨
      ∃ symbol, (ofStatements statements source).1.symbols.find? entryLabel = some symbol ∧
        place = symbol.label.span) := by
  rw [errors_eq] at h
  rcases List.mem_append.mp h with h | h
  · obtain ⟨s, hs, herror⟩ := Definitions.ofStatements_error h
    cases herror with
    | redefined hl => exact ⟨_, rfl, .inl ⟨s, hs, .inr ⟨_, .inl hl, rfl⟩⟩⟩
    | place => exact ⟨_, rfl, .inl ⟨s, hs, .inl rfl⟩⟩
  · rcases laterErrors_reported h with ⟨s, hs, herror⟩ | ⟨symbol, hfind, rfl⟩
    · cases herror with
      | undefined hl | label hl => exact ⟨_, rfl, .inl ⟨s, hs, .inr ⟨_, .inr hl, rfl⟩⟩⟩
      | place => exact ⟨_, rfl, .inl ⟨s, hs, .inl rfl⟩⟩
    · exact ⟨_, rfl, .inr ⟨symbol, hfind, rfl⟩⟩

end Program

end MipsLab
