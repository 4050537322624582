import MipsLab.Proofs.ErrorPlaces
import MipsLab.Proofs.LineRecovery

/-!
# The table of labels

Every label that is written before anything is found wrong with its line is defined, whatever is
wrong with the line otherwise. Of several labels with one name the first counts, and each of the
others is an error. So a label is reported as missing only if it is written nowhere.

1. `LeadingLabels`: the labels that a line starts with.
2. `redefinitions`: labels that are not the first of their names.
3. `Definitions.Records`: what the first pass knows after some labels.
4. `LabelTable`, `labels_tabulated`: the labels of a source text.
-/

namespace MipsLab

/-! ## Written labels -/

/-- Whether a lexeme is a comment. -/
def Lexeme.isComment (l : Lexeme) : Bool :=
  match l.result with
  | .ok .comment => true
  | _ => false

/-- The labels at the start of a line: each is a name with a colon behind it, and what follows the
last one is not another. -/
inductive LeadingLabels : List Lexeme → List Label → Prop
  | label {name : String} {span colon : Span} {rest : List Lexeme} {labels : List Label}
    (h : LeadingLabels rest labels) :
    LeadingLabels (⟨.ok (.identifier name), span⟩ :: ⟨.ok .colon, colon⟩ :: rest)
      (⟨name, span.start⟩ :: labels)
  | other {line : List Lexeme}
    (h : ∀ name span colon rest,
      line ≠ ⟨.ok (.identifier name), span⟩ :: ⟨.ok .colon, colon⟩ :: rest) :
    LeadingLabels line []

theorem tokensOfLine_cons {token : Token} {span : Span} (h : token ≠ .comment)
    (rest : List Lexeme) :
    tokensOfLine (⟨.ok token, span⟩ :: rest) = ⟨token, span⟩ :: tokensOfLine rest := by
  cases token with
  | comment => exact absurd rfl h
  | _ => rfl

theorem tokensOfLine_filter (line : List Lexeme) :
    tokensOfLine (line.filter (!·.isComment)) = tokensOfLine line := by
  induction line with
  | nil => rfl
  | cons lexeme rest ih =>
    obtain ⟨result, span⟩ := lexeme
    cases result with
    | error cause => rfl
    | ok token =>
      by_cases hcomment : token = .comment
      · subst hcomment
        exact ih
      · have hkept : Lexeme.isComment ⟨.ok token, span⟩ = false := by
          cases token with
          | comment => exact absurd rfl hcomment
          | _ => rfl
        rw [List.filter_cons_of_pos (by rw [hkept]; rfl), tokensOfLine_cons hcomment,
          tokensOfLine_cons hcomment, ih]

theorem tokensOfLine_eq_cons {line : List Lexeme} (h : ∀ l ∈ line, l.isComment = false)
    {token : Token} {span : Span} {tail : List Located}
    (hline : tokensOfLine line = ⟨token, span⟩ :: tail) :
    ∃ rest, line = ⟨.ok token, span⟩ :: rest := by
  cases line with
  | nil => exact nomatch hline
  | cons lexeme rest =>
    obtain ⟨result, place⟩ := lexeme
    cases result with
    | error cause => exact nomatch hline
    | ok found =>
      have hcomment : found ≠ .comment := by
        rintro rfl
        exact nomatch h _ List.mem_cons_self
      rw [tokensOfLine_cons hcomment] at hline
      obtain ⟨rfl, rfl⟩ := Located.mk.inj (List.cons.inj hline).1
      exact ⟨rest, rfl⟩

/-- The induction is on the line, of which each label takes off two lexemes. -/
theorem leadingLabels_takeLabels {line : List Lexeme} (h : ∀ l ∈ line, l.isComment = false) :
    LeadingLabels line (takeLabels (tokensOfLine line)).1 := by
  generalize htokens : tokensOfLine line = tokens
  induction tokens using takeLabels.induct generalizing line with
  | case1 name span colon rest labels body htake ih =>
    obtain ⟨tail, rfl⟩ := tokensOfLine_eq_cons h htokens
    obtain ⟨-, htail⟩ := List.forall_mem_cons.mp h
    have hcolon : tokensOfLine tail = ⟨.colon, colon⟩ :: rest := (List.cons.inj htokens).2
    obtain ⟨behind, rfl⟩ := tokensOfLine_eq_cons htail hcolon
    have hrest : tokensOfLine behind = rest := (List.cons.inj hcolon).2
    rw [takeLabels]
    exact .label (ih (List.forall_mem_cons.mp htail).2 hrest)
  | case2 tokens hno =>
    rw [takeLabels_none fun name span place rest => hno name span place rest]
    refine .other fun name span colon rest hline => ?_
    subst hline
    exact hno name span colon (tokensOfLine rest) htokens.symm

theorem ParsedLine.ofLexemes_labels (line : List Lexeme) :
    (ofLexemes line).labels = (takeLabels (tokensOfLine line)).1 := by
  unfold ofLexemes
  simp only
  split
  · rfl
  · split
    · split <;> rfl
    · rfl

/-- A line is parsed to the labels that it starts with, comments apart. -/
theorem ParsedLine.leadingLabels (line : List Lexeme) :
    LeadingLabels (line.filter (!·.isComment)) (ofLexemes line).labels := by
  rw [ofLexemes_labels, ← tokensOfLine_filter]
  exact leadingLabels_takeLabels (by simp)

/-! ## Redefinitions -/

/-- Labels whose names others have before them, each with the first of those. -/
def redefinitionsFrom (before : List Label) : List Label → List (Label × Label)
  | [] => []
  | l :: rest =>
    ((before.find? (·.name = l.name)).map (l, ·)).toList ++ redefinitionsFrom (before ++ [l]) rest

/-- The labels of a list that are not the first of their names, each with the first one. -/
def redefinitions (labels : List Label) : List (Label × Label) := redefinitionsFrom [] labels

theorem redefinitionsFrom_append (before first rest : List Label) :
    redefinitionsFrom before (first ++ rest) =
      redefinitionsFrom before first ++ redefinitionsFrom (before ++ first) rest := by
  induction first generalizing before with
  | nil => rw [List.append_nil]; rfl
  | cons l first ih =>
    rw [List.cons_append, redefinitionsFrom, redefinitionsFrom, ih, List.append_assoc,
      List.append_assoc, List.singleton_append]

theorem redefinitions_concat (labels : List Label) (l : Label) :
    redefinitions (labels ++ [l]) = redefinitions labels ++
      ((labels.find? (·.name = l.name)).map (l, ·)).toList := by
  unfold redefinitions
  rw [redefinitionsFrom_append, List.nil_append, redefinitionsFrom, redefinitionsFrom,
    List.append_nil]

theorem find?_append_of_some {before : List Label} {p : Label → Bool} {l : Label}
    (h : before.find? p = some l) (rest : List Label) : (before ++ rest).find? p = some l := by
  rw [List.find?_append, h, Option.some_or]

/-- A redefinition is told together with the first definition. -/
theorem redefinitions_first {labels : List Label} {r : Label × Label}
    (h : r ∈ redefinitions labels) : labels.find? (·.name = r.1.name) = some r.2 := by
  induction labels using List.reverseRecOn with
  | nil => exact nomatch h
  | append_singleton labels l ih =>
    rw [redefinitions_concat] at h
    rcases List.mem_append.mp h with h | h
    · exact find?_append_of_some (ih h) [l]
    · obtain ⟨first, hfirst, rfl⟩ := Option.map_eq_some_iff.mp (Option.mem_toList.mp h)
      exact find?_append_of_some hfirst [l]

/-- A name that is written several times is redefined one time less. -/
theorem redefinitions_count (labels : List Label) (name : String) :
    (redefinitions labels).countP (·.1.name = name) = labels.countP (·.name = name) - 1 := by
  induction labels using List.reverseRecOn with
  | nil => rfl
  | append_singleton labels l ih =>
    rw [redefinitions_concat, List.countP_append, List.countP_append, ih]
    by_cases hname : l.name = name
    · cases hfind : labels.find? (·.name = l.name) with
      | none =>
        have hzero : labels.countP (·.name = name) = 0 := by
          rw [List.countP_eq_zero, ← hname]
          exact List.find?_eq_none.mp hfind
        simp [hzero, hname]
      | some first =>
        have hpos : 0 < labels.countP (·.name = name) := by
          rw [List.countP_pos_iff, ← hname]
          have hfirst := List.find?_some hfind
          exact ⟨first, List.mem_of_find?_eq_some hfind, hfirst⟩
        simp [hname]
        omega
    · cases labels.find? (·.name = l.name) <;> simp [hname]

/-! ## The first pass -/

/-- The error of a redefinition: it blames the label, and tells where the first one is. -/
def AssemblyError.ofRedefinition (r : Label × Label) : AssemblyError :=
  ⟨.duplicateLabel, .two r.1.span r.2.span⟩

def AssemblyError.isDuplicate (e : AssemblyError) : Bool := e.cause = .duplicateLabel

/-- The first labels of all names have been defined, and the others have been reported. -/
structure Definitions.Records (d : Definitions) (labels : List Label) : Prop where
  nodup : d.names.Nodup
  first : ∀ name, (d.table.find? name).map Symbol.label = labels.find? (·.name = name)
  duplicates : d.errors.toList.filter AssemblyError.isDuplicate =
    (redefinitions labels).map AssemblyError.ofRedefinition

namespace Definitions

variable {d : Definitions} {labels : List Label}

theorem records_initial : Records {} [] := ⟨List.nodup_nil, fun _ => rfl, rfl⟩

/-- The names in the table are those of the labels. -/
theorem Records.mem_names (h : d.Records labels) {name : String} :
    name ∈ d.names ↔ name ∈ labels.map Label.name := by
  have hnone : d.table.find? name = none ↔ labels.find? (·.name = name) = none := by
    rw [← h.first name, Option.map_eq_none_iff]
  rw [SymbolTable.find?_eq_none_iff, List.find?_eq_none] at hnone
  rw [← not_iff_not]
  refine hnone.trans ?_
  simp

theorem Records.report (h : d.Records labels) {e : AssemblyError} (he : e.isDuplicate = false) :
    (d.report e).Records labels := by
  refine ⟨h.nodup, h.first, ?_⟩
  show (d.errors.push e).toList.filter AssemblyError.isDuplicate = _
  rw [Array.toList_push, List.filter_append, h.duplicates, List.filter_singleton, he]
  exact List.append_nil _

/-- A label is put into the table, or reported if there is one of its name. -/
theorem Records.define (h : d.Records labels) (address : Address) (l : Label) :
    (define address d l).Records (labels ++ [l]) := by
  have hfirst := h.first l.name
  unfold Definitions.define
  cases hfind : d.table.find? l.name with
  | some symbol =>
    rw [hfind] at hfirst
    refine ⟨h.nodup, fun name => ?_, ?_⟩
    · show (d.table.find? name).map Symbol.label = _
      by_cases hname : l.name = name
      · rw [← hname, hfind, find?_append_of_some hfirst.symm]
        rfl
      · rw [h.first name, List.find?_append]
        simp [hname]
    · show (d.errors.push _).toList.filter AssemblyError.isDuplicate = _
      rw [Array.toList_push, List.filter_append, h.duplicates, redefinitions_concat, ← hfirst,
        List.map_append]
      rfl
  | none =>
    rw [hfind] at hfirst
    have hnew : l.name ∉ d.names := SymbolTable.find?_eq_none_iff.mp hfind
    refine ⟨?_, fun name => ?_, ?_⟩
    · show ((d.table.symbols.push ⟨l, address⟩).toList.map (·.label.name)).Nodup
      rw [Array.toList_push, List.map_append]
      refine List.nodup_append.mpr ⟨h.nodup, List.pairwise_singleton _ _, ?_⟩
      intro name hname other hother
      rw [List.mem_singleton.mp hother]
      exact ne_of_mem_of_not_mem hname hnew
    · have hpush : (SymbolTable.find? { d.table with symbols := d.table.symbols.push ⟨l, address⟩ }
          name).map Symbol.label = ((d.table.find? name).map Symbol.label).or
            (if l.name = name then some l else none) := by
        unfold SymbolTable.find?
        rw [Array.find?_push]
        cases d.table.symbols.find? (·.label.name = name) with
        | some symbol => rfl
        | none => by_cases hname : l.name = name <;> simp [hname]
      rw [hpush, h.first name, List.find?_append]
      by_cases hname : l.name = name <;> simp [hname]
    · show d.errors.toList.filter AssemblyError.isDuplicate = _
      rw [h.duplicates, redefinitions_concat, ← hfirst]
      exact congrArg _ (List.append_nil _).symm

theorem Records.foldl_define (h : d.Records labels) (address : Address) (others : List Label) :
    (others.foldl (Definitions.define address) d).Records (labels ++ others) := by
  induction others generalizing d labels with
  | nil => rwa [List.append_nil]
  | cons l others ih =>
    rw [List.append_cons]
    exact ih (h.define address l)

theorem Records.declareGlobal (h : d.Records labels) (s : Statement) :
    (d.declareGlobal s).Records labels := by
  unfold Definitions.declareGlobal
  split <;> exact ⟨h.nodup, h.first, h.duplicates⟩

theorem Records.advance (h : d.Records labels) (s : Statement) : (d.advance s).Records labels := by
  unfold Definitions.advance
  split
  · exact ⟨h.nodup, h.first, h.duplicates⟩
  · split
    · exact h
    · have hreport := h.report (e := .single .segmentTooLarge s.span) rfl
      exact ⟨hreport.nodup, hreport.first, hreport.duplicates⟩

/-- The labels of a statement are recorded even if it does not belong where it stands. -/
theorem Records.add (h : d.Records labels) (s : Statement) :
    (d.add s).Records (labels ++ s.labels) := by
  unfold Definitions.add
  cases d.cursor.place? s.body with
  | some placed =>
    have hplaced : { d with cursor := placed }.Records labels := ⟨h.nodup, h.first, h.duplicates⟩
    exact ((hplaced.foldl_define _ s.labels).declareGlobal s).advance s
  | none =>
    have hcause : AssemblyError.isDuplicate (.single (misplaced s.body) s.span) = false := by
      unfold misplaced
      split <;> rfl
    exact (h.report hcause).foldl_define _ s.labels

theorem records_ofStatements (statements : List Statement) :
    (ofStatements statements).Records (statements.flatMap Statement.labels) := by
  induction statements using List.reverseRecOn with
  | nil => exact records_initial
  | append_singleton before s ih =>
    rw [ofStatements_append, List.flatMap_append, List.flatMap_singleton]
    exact ih.add s

end Definitions

/-! ## Source texts -/

/-- What the assembler finds wrong with the statements of a source text. -/
def Source.assemblyErrors (source : Source) : List AssemblyError :=
  (Program.ofStatements (parse source.chars).1 source).2

/-- Where a statement is put behind others, or would be if it belonged there. -/
def Definitions.current (before : List Statement) (s : Statement) : Nat :=
  (((ofStatements before).cursor.place? s.body).getD (ofStatements before).cursor).current

/-- What the assembler makes of the labels that are written in a source text. -/
structure LabelTable (source : Source) (labels : List Label) : Prop where
  /-- The statements have these labels, in the same order. -/
  statements : (parse source.chars).1.flatMap Statement.labels = labels
  /-- The table has the names of the labels, each of them once. -/
  names : ∀ name, name ∈ (assemble source).program.symbols.symbols.toList.map (·.label.name) ↔
    name ∈ labels.map Label.name
  nodup : ((assemble source).program.symbols.symbols.toList.map (·.label.name)).Nodup
  /-- A name stands for the first label that has it. -/
  first : ∀ name, ((assemble source).program.symbols.find? name).map Symbol.label =
    labels.find? (·.name = name)
  /-- Its address is the place of that label's statement, whatever follows. -/
  address : ∀ {before behind : List Statement} {s : Statement} {name : String},
    (parse source.chars).1 = before ++ s :: behind → (∀ t ∈ before, t.defines name = false) →
    s.defines name = true → (assemble source).program.symbols.address? name =
      some (UInt32.ofNat (Definitions.current before s))
  /-- Each of the other labels is reported, together with the first one. -/
  duplicates : source.assemblyErrors.filter AssemblyError.isDuplicate =
    (redefinitions labels).map AssemblyError.ofRedefinition
  redefined : ∀ r ∈ redefinitions labels, labels.find? (·.name = r.1.name) = some r.2
  /-- A name that is written several times is reported one time less. -/
  count : ∀ name, (redefinitions labels).countP (·.1.name = name) =
    labels.countP (·.name = name) - 1
  /-- What is reported as missing is used, and no label has its name. -/
  undefined : ∀ e ∈ source.assemblyErrors, e.cause = .undefinedLabel →
    ∃ s ∈ (parse source.chars).1, ∃ l ∈ s.uses,
      e = .single .undefinedLabel l.span ∧ l.name ∉ labels.map Label.name

/-- The labels of a source text are those that its lines start with, as far as they go before
anything is found wrong with the line, and all of them are in the table, the first ones with their
addresses. Whether a label can be used never depends on what is wrong with its line. -/
theorem labels_tabulated (source : Source) :
    ∃ written, List.Forall₂ LeadingLabels
        ((splitLines (Token.lex source.chars)).map (List.filter (!·.isComment))) written ∧
      LabelTable source written.flatten := by
  let statements := (parse source.chars).1
  have hlabels : statements.flatMap Statement.labels =
      ((parseLines source.chars).map ParsedLine.labels).flatten := by
    rw [← List.flatMap_def]
    exact Statement.labels_gather [] (parseLines source.chars)
  have hrecords := Definitions.records_ofStatements statements
  rw [hlabels] at hrecords
  refine ⟨(parseLines source.chars).map ParsedLine.labels, ?_, ?_⟩
  · rw [parseLines, List.map_map, List.forall₂_map_left_iff, List.forall₂_map_right_iff,
      List.forall₂_same]
    exact fun line _ => ParsedLine.leadingLabels line
  · refine
      { statements := hlabels
        names := fun name => hrecords.mem_names
        nodup := hrecords.nodup
        first := hrecords.first
        address := ?_
        duplicates := ?_
        redefined := fun r => redefinitions_first
        count := redefinitions_count _
        undefined := ?_ }
    · intro before behind s name hstatements hbefore hs
      have haddress := Definitions.address?_first behind hbefore hs
      rw [← hstatements] at haddress
      exact haddress
    · have hlater : (Program.laterErrors statements source).filter AssemblyError.isDuplicate = [] :=
        List.filter_eq_nil_iff.mpr fun e he hduplicate =>
          (Program.laterErrors_cause he).1 (of_decide_eq_true hduplicate)
      rw [Source.assemblyErrors, Program.errors_eq, List.filter_append, hrecords.duplicates, hlater,
        List.append_nil]
    · intro e he hcause
      obtain ⟨s, hs, l, hl, herror, hnone⟩ := Program.undefined_error he hcause
      refine ⟨s, hs, l, hl, herror, ?_⟩
      rw [← hrecords.mem_names]
      exact SymbolTable.find?_eq_none_iff.mp (Option.map_eq_none_iff.mp hnone)

end MipsLab
