import MipsLab.Assembly
import MipsLab.Proofs.Sections

/-!
# When nothing is reported

The assembler goes on behind an error, and reports what else it finds. It reports nothing exactly if
the statements fit, no label is defined twice, and every statement can be resolved at its place.

1. `assemble_isOk_iff`: a source has no problems if neither the parser nor the assembler has found
   any, and there is something to execute.
2. `Definitions.errors_eq_nil_iff`: when the first pass reports nothing.
3. `Emission.errors_eq_nil_iff`: when the second pass reports nothing.
4. `emits_of_isOk`: in a source without problems, every instruction is put somewhere.
-/

namespace MipsLab

/-! ## Problems -/

theorem Problem.sort_eq_nil {problems : List Problem} : sort problems = [] ↔ problems = [] := by
  unfold sort
  rw [← List.length_eq_zero_iff, List.length_mergeSort, List.length_eq_zero_iff]

/-- A source has no problems if there are no errors, and there are instructions. -/
theorem assemble_isOk_iff (source : Source) :
    (assemble source).isOk = true ↔ (parse source.chars).2 = [] ∧
      (Program.ofStatements (parse source.chars).1 source).2 = [] ∧
      (assemble source).program.text ≠ #[] := by
  obtain ⟨statements, parseErrors, hparse⟩ : ∃ statements errors,
      parse source.chars = (statements, errors) := ⟨_, _, rfl⟩
  obtain ⟨program, errors, hprogram⟩ : ∃ program errors,
      Program.ofStatements statements source = (program, errors) := ⟨_, _, rfl⟩
  unfold Assembly.isOk assemble
  simp only [hparse, hprogram, List.isEmpty_iff, Problem.sort_eq_nil]
  by_cases hparseErrors : parseErrors = []
  · by_cases herrors : errors = []
    · subst hparseErrors herrors
      by_cases hcode : program.text = #[]
      · simp [hcode]
      · simp [hcode]
    · simp [herrors]
  · simp [hparseErrors]

/-! ## The first pass -/

/-- The names that some statements give to addresses, as often as they do. -/
def labelNames (statements : List Statement) : List String :=
  statements.flatMap fun s => s.labels.map Label.name

theorem labelNames_append (before : List Statement) (s : Statement) :
    labelNames (before ++ [s]) = labelNames before ++ s.labels.map Label.name := by
  unfold labelNames
  rw [List.flatMap_append, List.flatMap_singleton]

theorem SymbolTable.find?_eq_none_iff {t : SymbolTable} {name : String} :
    t.find? name = none ↔ name ∉ t.symbols.toList.map (·.label.name) := by
  rw [find?, Array.find?_eq_none]
  simp

namespace Definitions

variable {d : Definitions} {s : Statement} {address : Address}

/-- The names that have an address, in the order of their definitions. -/
def names (d : Definitions) : List String := d.table.symbols.toList.map (·.label.name)

/-- Whether the first pass has found nothing to report. -/
structure Clean (d : Definitions) : Prop where
  errors : d.errors = #[]
  overflowed : d.overflowed = false
  nodup : d.names.Nodup

/-! ### Labels -/

theorem define_errors {label : Label} (h : (define address d label).errors = #[]) :
    d.errors = #[] ∧ label.name ∉ d.names := by
  unfold define at h
  cases hfind : d.table.find? label.name with
  | some first =>
    rw [hfind] at h
    exact absurd h Array.push_ne_empty
  | none =>
    rw [hfind] at h
    exact ⟨h, SymbolTable.find?_eq_none_iff.mp hfind⟩

theorem define_clean (address : Address) {label : Label} (hd : d.Clean) (h : label.name ∉ d.names) :
    (define address d label).Clean ∧
      (define address d label).names = d.names ++ [label.name] := by
  have hnames : (define address d label).names = d.names ++ [label.name] := by
    unfold define
    rw [SymbolTable.find?_eq_none_iff.mpr h]
    simp [names]
  refine ⟨⟨?_, ?_, ?_⟩, hnames⟩
  · unfold define
    rw [SymbolTable.find?_eq_none_iff.mpr h]
    exact hd.errors
  · unfold define
    rw [SymbolTable.find?_eq_none_iff.mpr h]
    exact hd.overflowed
  · rw [hnames]
    refine List.nodup_append.mpr ⟨hd.nodup, List.pairwise_singleton _ _, ?_⟩
    intro name hname other hother
    rw [List.mem_singleton.mp hother]
    exact ne_of_mem_of_not_mem hname h

theorem foldl_define_errors {labels : List Label}
    (h : (labels.foldl (define address) d).errors = #[]) : d.errors = #[] := by
  induction labels generalizing d with
  | nil => exact h
  | cons label labels ih => exact (define_errors (ih h)).1

/-- Labels are defined without an error exactly if all of them are new. -/
theorem foldl_define_clean (address : Address) (labels : List Label) (hd : d.Clean) :
    ((labels.foldl (define address) d).errors = #[] ↔
      (d.names ++ labels.map Label.name).Nodup) ∧
    ((d.names ++ labels.map Label.name).Nodup →
      (labels.foldl (define address) d).Clean ∧
        (labels.foldl (define address) d).names = d.names ++ labels.map Label.name) := by
  induction labels generalizing d with
  | nil =>
    rw [List.map_nil, List.append_nil]
    exact ⟨⟨fun _ => hd.nodup, fun _ => hd.errors⟩, fun _ => ⟨hd, rfl⟩⟩
  | cons label labels ih =>
    rw [List.foldl_cons, List.map_cons, List.append_cons]
    by_cases hnew : label.name ∉ d.names
    · obtain ⟨hclean, hnames⟩ := define_clean address hd hnew
      rw [← hnames]
      exact ih hclean
    · have hnot : ¬(d.names ++ [label.name] ++ labels.map Label.name).Nodup := by
        intro hnodup
        obtain ⟨-, -, happart⟩ := List.nodup_append.mp (List.nodup_append.mp hnodup).1
        exact hnew fun hmem => happart _ hmem _ (List.mem_singleton_self _) rfl
      refine ⟨⟨fun h => ?_, fun h => absurd h hnot⟩, fun h => absurd h hnot⟩
      exact absurd (define_errors (foldl_define_errors h)).2 hnew

theorem declareGlobal_errors (d : Definitions) (s : Statement) :
    (d.declareGlobal s).errors = d.errors := by
  unfold declareGlobal
  split <;> rfl

theorem declareGlobal_clean (hd : d.Clean) (s : Statement) :
    (d.declareGlobal s).Clean ∧ (d.declareGlobal s).names = d.names := by
  unfold declareGlobal
  split
  · exact ⟨⟨hd.errors, hd.overflowed, hd.nodup⟩, rfl⟩
  · exact ⟨hd, rfl⟩

/-! ### Statements -/

theorem advance_errors (h : (d.advance s).errors = #[]) : d.errors = #[] := by
  unfold advance at h
  split at h
  · exact h
  · split at h
    · exact h
    · exact absurd h Array.push_ne_empty

/-- Only the first statement without room is reported, so nothing may have overflowed before. -/
theorem advance_clean (hd : d.Clean) :
    ((d.advance s).errors = #[] ↔ (d.cursor.advance? s.byteCount).isSome) ∧
      ((d.cursor.advance? s.byteCount).isSome →
        (d.advance s).Clean ∧ (d.advance s).names = d.names) := by
  unfold advance Statement.byteCount
  cases hadvance : d.cursor.advance? ((s.body.map Body.byteCount).getD 0) with
  | some cursor =>
    exact ⟨⟨fun _ => rfl, fun _ => hd.errors⟩,
      fun _ => ⟨⟨hd.errors, hd.overflowed, hd.nodup⟩, rfl⟩⟩
  | none =>
    simp only [hd.overflowed]
    exact ⟨⟨fun h => absurd h Array.push_ne_empty, nofun⟩, nofun⟩

theorem add_errors (h : (d.add s).errors = #[]) : d.errors = #[] := by
  unfold add at h
  split at h
  · next placed _ =>
    have hdefined := advance_errors h
    rw [declareGlobal_errors] at hdefined
    have hplaced : ({ d with cursor := placed } : Definitions).errors = #[] :=
      foldl_define_errors hdefined
    exact hplaced
  · exact absurd (foldl_define_errors h) Array.push_ne_empty

/-- A statement has nothing reported about it exactly if it has a place and its labels are new. -/
theorem add_clean (hd : d.Clean) :
    ((d.add s).errors = #[] ↔
      (d.cursor.placed? s).isSome ∧ (d.names ++ s.labels.map Label.name).Nodup) ∧
    ((d.cursor.placed? s).isSome → (d.names ++ s.labels.map Label.name).Nodup →
      (d.add s).Clean ∧ (d.add s).names = d.names ++ s.labels.map Label.name) := by
  unfold add Cursor.placed?
  cases hplace : d.cursor.place? s.body with
  | none =>
    refine ⟨⟨fun h => ?_, fun h => nomatch h.1⟩, nofun⟩
    exact absurd (foldl_define_errors h) Array.push_ne_empty
  | some placed =>
    rw [Option.bind_some, Option.isSome_map]
    have hplaced : Clean { d with cursor := placed } := ⟨hd.errors, hd.overflowed, hd.nodup⟩
    obtain ⟨hdefine, hdefined⟩ :=
      foldl_define_clean (UInt32.ofNat placed.current) s.labels hplaced
    simp only
    generalize hfold : s.labels.foldl (define _) { d with cursor := placed } = defined
      at hdefine hdefined ⊢
    have hcursor : (defined.declareGlobal s).cursor = placed := by
      rw [declareGlobal_cursor, ← hfold, foldl_define_cursor]
    by_cases hnodup : (d.names ++ s.labels.map Label.name).Nodup
    · obtain ⟨hclean, hnames⟩ := hdefined hnodup
      obtain ⟨hglobal, hglobalNames⟩ := declareGlobal_clean hclean s
      obtain ⟨hadvance, hadvanced⟩ := advance_clean (s := s) hglobal
      rw [hcursor] at hadvance hadvanced
      refine ⟨⟨fun h => ⟨hadvance.mp h, hnodup⟩, fun h => hadvance.mpr h.1⟩, fun hroom _ => ?_⟩
      obtain ⟨hall, hallNames⟩ := hadvanced hroom
      exact ⟨hall, hallNames.trans (hglobalNames.trans hnames)⟩
    · refine ⟨⟨fun h => ?_, fun h => absurd h.2 hnodup⟩, fun _ h => absurd h hnodup⟩
      have herrors := advance_errors h
      rw [declareGlobal_errors] at herrors
      exact absurd (hdefine.mp herrors) hnodup

theorem ofStatements_append (before : List Statement) (s : Statement) :
    ofStatements (before ++ [s]) = (ofStatements before).add s :=
  List.foldl_append

/-- The first pass reports nothing exactly if the statements fit and no label is defined twice. -/
theorem ofStatements_clean (statements : List Statement) :
    ((ofStatements statements).errors = #[] ↔
      Fitting statements ∧ (labelNames statements).Nodup) ∧
    ((ofStatements statements).errors = #[] →
      (ofStatements statements).Clean ∧
        (ofStatements statements).names = labelNames statements) := by
  induction statements using List.reverseRecOn with
  | nil =>
    exact ⟨⟨fun _ => ⟨.nil, .nil⟩, fun _ => rfl⟩, fun _ => ⟨⟨rfl, rfl, .nil⟩, rfl⟩⟩
  | append_singleton before s ih =>
    rw [ofStatements_append, labelNames_append]
    by_cases herrors : (ofStatements before).errors = #[]
    · obtain ⟨hclean, hnames⟩ := ih.2 herrors
      obtain ⟨hfitting, hnodup⟩ := ih.1.mp herrors
      obtain ⟨hiff, hlast⟩ := add_clean (s := s) hclean
      have hcursor : (ofStatements before).cursor = Cursor.laidOut before := by
        rw [ofStatements_walk, hfitting.walk_eq]
      rw [hcursor, hnames] at hiff hlast
      constructor
      · rw [hiff]
        exact and_congr_left fun _ => hfitting.append_iff.symm
      · intro h
        obtain ⟨hplaced, hnew⟩ := hiff.mp h
        exact hlast hplaced hnew
    · have hnot : ¬((ofStatements before).add s).errors = #[] := fun h => herrors (add_errors h)
      refine ⟨⟨fun h => absurd h hnot, fun ⟨hfits, hnodup⟩ => ?_⟩, fun h => absurd h hnot⟩
      refine absurd (ih.1.mpr ⟨hfits.of_prefix (List.prefix_append before [s]), ?_⟩) herrors
      exact (List.nodup_append.mp hnodup).1

theorem errors_eq_nil_iff (statements : List Statement) :
    (ofStatements statements).errors = #[] ↔
      Fitting statements ∧ (labelNames statements).Nodup :=
  (ofStatements_clean statements).1

end Definitions

/-! ## The second pass -/

/-- A statement that is put at an address can be resolved there. -/
def Statement.Resolves (s : Statement) (symbols : SymbolTable) (address : Nat) : Prop :=
  match s.body with
  | some (.instr i) => ∃ instrs, i.expand (UInt32.ofNat address) s.span symbols = .ok instrs
  | some (.directive d) => ∃ bytes, d.bytes symbols = .ok bytes
  | none => True

namespace Emission

variable {symbols : SymbolTable} {source : Source} {e : Emission} {s : Statement}

theorem addInstr_errors_iff {line : Nat} {span : Span} {i : SourceInstr} :
    (e.addInstr symbols line span i).errors = #[] ↔ e.errors = #[] ∧
      ∃ instrs, i.expand (UInt32.ofNat e.cursor.current) span symbols = .ok instrs := by
  unfold addInstr
  cases hexpand : i.expand (UInt32.ofNat e.cursor.current) span symbols with
  | ok instrs =>
    simp only
    split
    · exact ⟨fun h => ⟨h, instrs, rfl⟩, fun h => h.1⟩
    · exact ⟨fun h => ⟨h, instrs, rfl⟩, fun h => h.1⟩
  | error error =>
    simp only
    split
    · exact ⟨fun h => absurd h Array.push_ne_empty, fun ⟨_, _, h⟩ => nomatch h⟩
    · exact ⟨fun h => absurd h Array.push_ne_empty, fun ⟨_, _, h⟩ => nomatch h⟩

theorem addData_errors_iff {d : Directive} (hroom : (e.cursor.advance? d.byteCount).isSome) :
    (e.addData symbols d).errors = #[] ↔
      e.errors = #[] ∧ ∃ bytes, d.bytes symbols = .ok bytes := by
  obtain ⟨cursor, hadvance⟩ := Option.isSome_iff_exists.mp hroom
  unfold addData
  rw [hadvance]
  cases hbytes : d.bytes symbols with
  | ok bytes => exact ⟨fun h => ⟨h, bytes, rfl⟩, fun h => h.1⟩
  | error error => exact ⟨fun h => absurd h Array.push_ne_empty, fun ⟨_, _, h⟩ => nomatch h⟩

/-- The directives that put nothing down cannot fail. -/
theorem bytes_of_not_data {d : Directive} (h : d.isData = false) : d.bytes symbols = .ok [] := by
  cases d with
  | text | data | globl => rfl
  | _ => exact nomatch h

/-- A statement that has a place has nothing reported about it exactly if it can be resolved
there. -/
theorem add_errors_iff {placed : Cursor} (h : e.cursor.placed? s = some placed) :
    (e.add symbols source s).errors = #[] ↔
      e.errors = #[] ∧ s.Resolves symbols placed.current := by
  obtain ⟨hplace, hadvance⟩ := Cursor.placed?_inv h
  unfold Statement.byteCount at hadvance
  unfold add Statement.Resolves
  rw [hplace]
  cases hbody : s.body with
  | none => exact (and_iff_left trivial).symm
  | some body =>
    cases body with
    | instr i => exact addInstr_errors_iff
    | directive d =>
      rw [hbody] at hadvance
      cases hd : d.isData with
      | true =>
        simp only [hd, if_true]
        exact addData_errors_iff (Option.isSome_of_mem hadvance)
      | false =>
        simp only [hd]
        exact (and_iff_left ⟨[], bytes_of_not_data hd⟩).symm

theorem ofStatements_append (symbols : SymbolTable) (source : Source) (before : List Statement)
    (s : Statement) : ofStatements symbols source (before ++ [s]) =
      (ofStatements symbols source before).add symbols source s :=
  List.foldl_append

/-- The second pass reports nothing exactly if every statement can be resolved at its place. -/
theorem errors_eq_nil_iff {statements : List Statement} (hfits : Fitting statements) :
    (ofStatements symbols source statements).errors = #[] ↔
      ∀ before s, before ++ [s] <+: statements → s.Resolves symbols (s.place before) := by
  induction statements using List.reverseRecOn with
  | nil =>
    exact ⟨fun _ before s hstands => absurd hstands not_prefix_nil, fun _ => rfl⟩
  | append_singleton before s ih =>
    have hprefix := List.prefix_append before [s]
    have hplaced := hfits.placed?_eq List.prefix_rfl
    rw [← ofStatements_walk symbols source, Option.map_eq_some_iff] at hplaced
    obtain ⟨placed, hplaced, hcurrent⟩ := hplaced
    rw [ofStatements_append, add_errors_iff hplaced, ih (hfits.of_prefix hprefix), hcurrent]
    constructor
    · rintro ⟨hbefore, hs⟩ before' s' hstands
      rcases prefix_append_cases hstands with ⟨rfl, rfl⟩ | hshorter
      · exact hs
      · exact hbefore before' s' hshorter
    · intro h
      exact ⟨fun before' s' hstands => h before' s' (hstands.trans hprefix),
        h before s List.prefix_rfl⟩

end Emission

/-! ## Both passes -/

section

variable {source : Source} {before : List Statement} {s : Statement}

/-- What the two passes have found out about a source without problems. -/
theorem fitting_of_isOk (hok : (assemble source).isOk = true) :
    Fitting (parse source.chars).1 ∧ (labelNames (parse source.chars).1).Nodup ∧
      ∀ before s, before ++ [s] <+: (parse source.chars).1 →
        s.Resolves (assemble source).program.symbols (s.place before) := by
  obtain ⟨-, herrors, -⟩ := (assemble_isOk_iff source).mp hok
  obtain ⟨hpasses, -⟩ := List.append_eq_nil_iff.mp herrors
  obtain ⟨hpasses, -⟩ := List.append_eq_nil_iff.mp hpasses
  obtain ⟨hfirst, hsecond⟩ := List.append_eq_nil_iff.mp hpasses
  obtain ⟨hfits, hnodup⟩ :=
    (Definitions.errors_eq_nil_iff _).mp (Array.toList_eq_nil_iff.mp hfirst)
  exact ⟨hfits, hnodup,
    (Emission.errors_eq_nil_iff hfits).mp (Array.toList_eq_nil_iff.mp hsecond)⟩

/-- In statements that fit, every one is put at its place in the layout. -/
theorem Fitting.emits {statements : List Statement} (h : Fitting statements) (source : Source)
    (hstands : before ++ [s] <+: statements) :
    Emits statements source before s (s.place before) where
  stands := hstands
  placed := by
    rw [Emission.ofStatements_walk]
    exact h.placed?_eq hstands

/-- A label has the address of its statement, unless there are others of its name. -/
theorem Fitting.address? {statements behind : List Statement} (h : Fitting statements)
    (hnodup : (labelNames statements).Nodup) (hstatements : statements = before ++ s :: behind)
    {l : Label} (hl : l ∈ s.labels) :
    (Definitions.ofStatements statements).table.address? l.name =
      some (UInt32.ofNat (s.place before)) := by
  have hstands : before ++ [s] <+: statements :=
    ⟨behind, by rw [hstatements, List.append_assoc]; rfl⟩
  have hs : s.defines l.name = true := List.any_eq_true.mpr ⟨l, hl, decide_eq_true rfl⟩
  have hbefore : ∀ t ∈ before, t.defines l.name = false := by
    intro t ht
    rw [← Bool.not_eq_true]
    intro hdefines
    obtain ⟨l', hl', hname⟩ := List.any_eq_true.mp hdefines
    rw [hstatements, labelNames, List.flatMap_append, List.flatMap_cons] at hnodup
    obtain ⟨-, -, happart⟩ := List.nodup_append.mp hnodup
    refine happart l.name ?_ l.name ?_ rfl
    · exact List.mem_flatMap.mpr ⟨t, ht, List.mem_map.mpr ⟨l', hl', of_decide_eq_true hname⟩⟩
    · exact List.mem_append_left _ (List.mem_map_of_mem hl)
  have hplaced := h.placed?_eq hstands
  rw [← Emission.ofStatements_walk (Definitions.ofStatements statements).table
    (Source.ofString ""), Option.map_eq_some_iff] at hplaced
  obtain ⟨placed, hplaced, hcurrent⟩ := hplaced
  rw [address?_of_place? hstands (Cursor.placed?_inv hplaced).1 hs hbefore, hcurrent]

/-- In a source without problems every instruction is put somewhere, and is resolved there. -/
theorem emits_of_isOk (hok : (assemble source).isOk = true)
    (hstands : before ++ [s] <+: (parse source.chars).1) {i : SourceInstr}
    (hbody : s.body = some (.instr i)) :
    ∃ address, Emits (parse source.chars).1 source before s address ∧
      ∃ instrs, i.expand (UInt32.ofNat address) s.span (assemble source).program.symbols =
        .ok instrs := by
  obtain ⟨hfits, -, hresolves⟩ := fitting_of_isOk hok
  have hs := hresolves before s hstands
  unfold Statement.Resolves at hs
  rw [hbody] at hs
  exact ⟨s.place before, hfits.emits source hstands, hs⟩

end

end MipsLab
