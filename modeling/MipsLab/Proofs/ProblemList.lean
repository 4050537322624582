import Mathlib.Data.Prod.Lex
import MipsLab.Proofs.LinePlaces

/-!
# The list of problems

The assembler reports every error of the parser and every one of its own, from the top of the text
to its end, and each where it is: on its line, and at its characters.

1. `Problem.key`, `Problem.inOrder_iff`: the order of problems.
2. `Problem.sort_stable`: problems at one place stay in the order in which they are found.
3. `Reports`, `problems_reported`: the problems of a source text.
-/

namespace MipsLab

/-! ## Order -/

namespace Problem

/-- What problems are sorted by: whether they have no line, the line and the first character. -/
def key (p : Problem) : Bool ×ₗ Int ×ₗ Int :=
  toLex (!p.location.hasLine, toLex (p.location.lineNumber, p.location.rangeStart))

theorem inOrder_iff (p q : Problem) : inOrder p q = true ↔ p.key ≤ q.key := by
  unfold inOrder key
  rw [Prod.Lex.toLex_le_toLex, Prod.Lex.toLex_le_toLex]
  cases p.location.hasLine <;> cases q.location.hasLine <;> simp

variable {problems : List Problem}

theorem sort_perm (problems : List Problem) : (sort problems).Perm problems :=
  List.mergeSort_perm problems inOrder

theorem inOrder_trans (p q r : Problem) (h : inOrder p q = true) (h' : inOrder q r = true) :
    inOrder p r = true := by
  rw [inOrder_iff] at h h' ⊢
  exact h.trans h'

theorem inOrder_total (p q : Problem) : (inOrder p q || inOrder q p) = true := by
  rw [Bool.or_eq_true_iff, inOrder_iff, inOrder_iff]
  exact le_total p.key q.key

theorem sort_pairwise (problems : List Problem) :
    (sort problems).Pairwise fun p q => inOrder p q = true :=
  List.pairwise_mergeSort inOrder_trans inOrder_total problems

/-- Problems on lines are in the order of their lines, and on one line of their first characters. -/
theorem inOrder_of_hasLine {p q : Problem} (hp : p.location.hasLine = true)
    (hq : q.location.hasLine = true) (h : inOrder p q = true) :
    p.location.lineNumber < q.location.lineNumber ∨
      p.location.lineNumber = q.location.lineNumber ∧
        p.location.rangeStart ≤ q.location.rangeStart := by
  unfold inOrder at h
  rw [hp, hq] at h
  simpa using h

/-- A problem is at some line and first character. -/
def isAt (p : Problem) (line start : Int) : Bool :=
  p.location.lineNumber = line && p.location.rangeStart = start

/-- The problems at one place are sorted in whatever order they are. -/
theorem pairwise_isAt {line start : Int} (h : ∀ p ∈ problems, p.isAt line start = true) :
    problems.Pairwise fun p q => inOrder p q = true := by
  refine List.pairwise_of_forall_mem_list fun p hp q hq => ?_
  have hkey (p : Problem) (hp : p.isAt line start = true) :
      p.key = toLex (!(line != Location.missing), toLex (line, start)) := by
    obtain ⟨rfl, rfl⟩ : p.location.lineNumber = line ∧ p.location.rangeStart = start := by
      simpa [isAt] using hp
    rfl
  rw [inOrder_iff, hkey p (h p hp), hkey q (h q hq)]

/-- The order of problems at one place is kept. -/
theorem sort_stable (problems : List Problem) (line start : Int) :
    (sort problems).filter (·.isAt line start) = problems.filter (·.isAt line start) := by
  have hkept : (problems.filter (·.isAt line start)).Sublist (sort problems) :=
    List.sublist_mergeSort inOrder_trans inOrder_total
      (pairwise_isAt fun p hp => (List.mem_filter.mp hp).2) List.filter_sublist
  have hfilter := hkept.filter (·.isAt line start)
  rw [List.filter_filter] at hfilter
  simp only [Bool.and_self] at hfilter
  exact (hfilter.eq_of_length ((sort_perm problems).filter _).length_eq.symm).symm

end Problem

/-! ## Source texts -/

/-- What is wrong with a source text, in the order in which it is found: first what is wrong with
its lines, and then what is wrong with its statements. -/
def Source.detected (source : Source) : List Diagnostic :=
  (parse source.chars).2.map ParseError.diagnostic ++
    source.assemblyErrors.map AssemblyError.diagnostic

/-- A problem for each error, or the only problem without an error. -/
def Source.reported (source : Source) : List Problem :=
  if source.detected = [] ∧ (assemble source).program.text = #[] then [Assembly.noInstructions]
  else source.detected.map (Problem.ofDiagnostic · source)

theorem assemble_problems (source : Source) :
    (assemble source).problems = Problem.sort source.reported := by
  have hcondition : ((source.detected.map (Problem.ofDiagnostic · source)).isEmpty &&
      (assemble source).program.text.isEmpty) = true ↔
      source.detected = [] ∧ (assemble source).program.text = #[] := by
    rw [Bool.and_eq_true_iff, List.isEmpty_map, List.isEmpty_iff, Array.isEmpty_iff]
  exact congrArg Problem.sort (if_congr hcondition rfl rfl)

/-- The location of a span on a line tells where it is. -/
theorem Span.OnLine.marks {text : String} {s : Span} (h : s.OnLine text.toList) :
    Location.Marks (Source.ofString text) (Location.ofSpan s (Source.ofString text)) s := by
  obtain ⟨before, line, behind, inside, hchars, -, hline, hcovers⟩ := h
  have hall : s.Covers 0 text.toList inside := by
    rw [← Nat.zero_add (Text.byteLength before)] at hcovers
    rw [hchars]
    exact hcovers.append_left.append_right behind
  exact Location.marks_ofSpan hall (hcovers.notMem hline)

theorem Span.OnLine.exists_char {chars : List Char} {s : Span} (h : s.OnLine chars) :
    ∃ c ∈ chars, c ≠ '\n' := by
  obtain ⟨before, line, behind, -, rfl, hne, hline, -⟩ := h
  obtain ⟨c, cs, rfl⟩ := List.exists_cons_of_ne_nil hne
  exact ⟨c, by simp, (List.ne_of_not_mem_cons hline).symm⟩

/-- Whatever is detected is blamed on a place on a line, and its problem is located there. -/
theorem Source.detected_onLine {source : Source} {d : Diagnostic} (h : d ∈ source.detected) :
    ∃ s, d.spans.bind Spans.first? = some s ∧ s.OnLine source.chars ∧
      (Problem.ofDiagnostic d source).location = Location.ofSpan s source := by
  obtain ⟨s, hs, hline⟩ : ∃ s, d.spans.bind Spans.first? = some s ∧ s.OnLine source.chars := by
    rcases List.mem_append.mp h with h | h
    · obtain ⟨e, he, rfl⟩ := List.mem_map.mp h
      exact ⟨e.span, rfl, parseError_onLine he⟩
    · obtain ⟨e, he, rfl⟩ := List.mem_map.mp h
      exact assemblyError_onLine he
  refine ⟨s, hs, hline, ?_⟩
  unfold Problem.ofDiagnostic
  rw [hs]
  rfl

theorem Source.reported_eq_or (source : Source) :
    source.reported = [Assembly.noInstructions] ∨
      source.reported = source.detected.map (Problem.ofDiagnostic · source) := by
  unfold reported
  split
  · exact .inl rfl
  · exact .inr rfl

/-- What is reported about a source text. -/
structure Reports (source : Source) (problems : List Problem) : Prop where
  /-- There is a problem for each error, and nothing else. -/
  complete : problems.Perm source.reported
  /-- The problems are sorted by the program's own order. -/
  ordered : problems.Pairwise fun p q => p.inOrder q = true
  /-- Problems at one place are in the order in which they are found. -/
  stable : ∀ line start,
    problems.filter (·.isAt line start) = source.reported.filter (·.isAt line start)
  /-- The problem of an error tells where the primary place of the error is. -/
  located : ∀ d ∈ source.detected, ∃ s, d.spans.bind Spans.first? = some s ∧
    Location.Marks source (Problem.ofDiagnostic d source).location s
  /-- Only one problem is about no place. -/
  nowhere : ∀ p ∈ problems, p.location = .nowhere ↔ p = Assembly.noInstructions
  /-- The numbers that are shown are those of the location. -/
  numbers : source.length < 0x8000000000000000 → ∀ d ∈ source.detected,
    (Problem.ofDiagnostic d source).location.Counted
  /-- So the problems are sorted by their lines, and those of one line by their first characters. -/
  sorted : source.length < 0x8000000000000000 → problems.Pairwise fun p q =>
    p.location.lineNumber < q.location.lineNumber ∨
      p.location.lineNumber = q.location.lineNumber ∧
        p.location.rangeStart ≤ q.location.rangeStart

/-- The problems of a source text are the errors that are found in it, in the order of the text, and
each at its own characters. If there is no error and no instruction, there is one problem, and it is
about no place. -/
theorem problems_reported (text : String) :
    Reports (Source.ofString text) (assemble (Source.ofString text)).problems := by
  let source := Source.ofString text
  have hcomplete : (assemble source).problems.Perm source.reported := by
    rw [assemble_problems]
    exact Problem.sort_perm source.reported
  have hordered : (assemble source).problems.Pairwise fun p q => p.inOrder q = true := by
    rw [assemble_problems]
    exact Problem.sort_pairwise source.reported
  have hlocated : ∀ d ∈ source.detected, ∃ s, d.spans.bind Spans.first? = some s ∧
      Location.Marks source (Problem.ofDiagnostic d source).location s := by
    intro d hd
    obtain ⟨s, hs, hline, hlocation⟩ := Source.detected_onLine hd
    exact ⟨s, hs, hlocation ▸ hline.marks⟩
  have hnumbers (hlength : source.length < 0x8000000000000000) : ∀ d ∈ source.detected,
      (Problem.ofDiagnostic d source).location.Counted := by
    intro d hd
    obtain ⟨s, -, hline, hlocation⟩ := Source.detected_onLine hd
    rw [hlocation]
    exact hline.marks.counted hline.exists_char hlength
  refine
    { complete := hcomplete
      ordered := hordered
      stable := fun line start => ?_
      located := hlocated
      nowhere := fun p hp => ⟨fun hnowhere => ?_, fun hp => hp ▸ rfl⟩
      numbers := hnumbers
      sorted := fun hlength => ?_ }
  · rw [assemble_problems]
    exact Problem.sort_stable source.reported line start
  · have hmem := hcomplete.subset hp
    rcases source.reported_eq_or with hnone | hall
    · rw [hnone] at hmem
      exact List.mem_singleton.mp hmem
    · rw [hall] at hmem
      obtain ⟨d, hd, rfl⟩ := List.mem_map.mp hmem
      obtain ⟨s, -, hmarks⟩ := hlocated d hd
      rw [hnowhere] at hmarks
      exact nomatch hmarks
  · rcases source.reported_eq_or with hnone | hall
    · rw [hnone] at hcomplete
      rw [List.perm_singleton.mp hcomplete]
      exact List.pairwise_singleton _ _
    · have hlines : ∀ p ∈ (assemble source).problems, p.location.hasLine = true := by
        intro p hp
        have hmem := hcomplete.subset hp
        rw [hall] at hmem
        obtain ⟨d, hd, rfl⟩ := List.mem_map.mp hmem
        exact (hnumbers hlength d hd).hasLine
      refine hordered.imp_of_mem fun hp hq h => ?_
      exact Problem.inOrder_of_hasLine (hlines _ hp) (hlines _ hq) h

end MipsLab
