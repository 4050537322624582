import Mathlib.Data.List.SplitBy
import MipsLab.Proofs.LexedLines

/-!
# Recovering at the end of a line

A text is parsed to what its lines are parsed to, each of them alone. Whatever is wrong with a line,
an unclosed string or an operand that is missing at its end, the lines behind it are read as if it
were not there, and all that goes on from one line to the next are labels.

1. `Text.lines`, `PlacedLine`: the lines of a text and what each of them is parsed to alone.
2. `parseLinesFrom_placed`: the lines of a text, parsed, are its lines, each of them parsed alone.
3. `Statement.drop_gather`, `Statement.gather_between`: which labels a statement gets.
4. `parse_by_line`: all of it together.
-/

namespace MipsLab

/-! ## The lines of a text -/

namespace Text

/-- The lines of a text, each with the newline that ends it. A text is cut behind every newline, so
the last line may be without one but is not empty. -/
def lines (chars : List Char) : List (List Char) := chars.splitBy fun c _ => c != '\n'

variable {text : List Char}

theorem isChain_line (h : '\n' ∉ text) : text.IsChain fun c _ => (c != '\n') = true := by
  refine (List.pairwise_of_forall_mem_list fun c hc _ _ => ?_).isChain
  exact bne_iff_ne.mpr (ne_of_mem_of_not_mem hc h)

theorem lines_newline (h : '\n' ∉ text) (rest : List Char) :
    lines (text ++ '\n' :: rest) = (text ++ ['\n']) :: lines rest := by
  have hline : lines (text ++ ['\n']) = [text ++ ['\n']] := by
    refine List.splitBy_of_isChain (List.append_ne_nil_of_right_ne_nil _ (List.cons_ne_nil _ _))
      ((isChain_line h).append (List.isChain_singleton _) fun c hc _ _ => ?_)
    exact bne_iff_ne.mpr (ne_of_mem_of_not_mem (List.mem_of_getLast? hc) h)
  rw [List.append_cons]
  refine (List.splitBy_append fun c hc _ _ => ?_).trans (congrArg (· ++ _) hline)
  rw [List.getLast?_concat] at hc
  obtain rfl := Option.some.inj hc
  rfl

theorem lines_last (h : '\n' ∉ text) (hne : text ≠ []) : lines text = [text] :=
  List.splitBy_of_isChain hne (isChain_line h)

theorem lines_line {chars line : List Char} (h : line ∈ lines chars) : lines line = [line] :=
  List.splitBy_of_isChain (List.ne_nil_of_mem_splitBy h) (List.isChain_of_mem_splitBy h)

/-- A text has no newline, or a first line with a newline and a text behind it. -/
@[elab_as_elim]
theorem lines_induction {motive : List Char → Prop} (last : ∀ text, '\n' ∉ text → motive text)
    (line : ∀ text rest, '\n' ∉ text → motive rest → motive (text ++ '\n' :: rest))
    (chars : List Char) : motive chars := by
  induction hlength : chars.length using Nat.strong_induction_on generalizing chars with
  | _ length ih =>
    by_cases hnewline : '\n' ∈ chars
    · obtain ⟨text, rest, rfl, htext⟩ := List.eq_append_cons_of_mem hnewline
      refine line text rest htext (ih rest.length ?_ rest rfl)
      rw [← hlength, List.length_append, List.length_cons]
      omega
    · exact last chars hnewline

/-- A newline stands at the end of a line only, and only the last line may be without one. -/
theorem lines_ending {chars line : List Char} {before behind : List (List Char)}
    (h : lines chars = before ++ line :: behind) :
    ∃ text, '\n' ∉ text ∧ (line = text ++ ['\n'] ∨ line = text ∧ behind = []) := by
  induction chars using lines_induction generalizing before with
  | last text htext =>
    by_cases hnil : text = []
    · subst hnil
      exact absurd h.symm (List.append_ne_nil_of_right_ne_nil _ (List.cons_ne_nil _ _))
    · rw [lines_last htext hnil] at h
      obtain ⟨-, hrest⟩ | ⟨-, hnone⟩ := List.singleton_eq_append_iff.mp h
      · obtain ⟨rfl, rfl⟩ := List.cons.inj hrest
        exact ⟨line, htext, .inr ⟨rfl, rfl⟩⟩
      · exact absurd hnone (List.cons_ne_nil _ _)
  | line text rest htext ih =>
    rw [lines_newline htext] at h
    cases before with
    | nil =>
      obtain ⟨rfl, -⟩ := List.cons.inj h
      exact ⟨text, htext, .inl rfl⟩
    | cons first before => exact ih (List.cons.inj h).2

end Text

/-- A line of a text and where it starts. -/
structure PlacedLine where
  /-- The number of bytes before it. -/
  offset : Nat
  chars : List Char

/-- Lines that follow each other from a byte offset on. -/
def placeLines (offset : Nat) : List (List Char) → List PlacedLine
  | [] => []
  | line :: rest => ⟨offset, line⟩ :: placeLines (offset + Text.byteLength line) rest

/-- The lines of a text. -/
def placedLines (chars : List Char) : List PlacedLine := placeLines 0 (Text.lines chars)

theorem chars_placeLines (offset : Nat) (lines : List (List Char)) :
    (placeLines offset lines).map PlacedLine.chars = lines := by
  induction lines generalizing offset with
  | nil => rfl
  | cons line lines ih => exact congrArg (List.cons line) (ih _)

theorem offset_placeLines {offset : Nat} {lines : List (List Char)}
    {before behind : List PlacedLine} {l : PlacedLine}
    (h : placeLines offset lines = before ++ l :: behind) :
    l.offset = offset + Text.byteLength (before.flatMap PlacedLine.chars) := by
  induction lines generalizing offset before with
  | nil => exact absurd h.symm (List.append_ne_nil_of_right_ne_nil _ (List.cons_ne_nil _ _))
  | cons line lines ih =>
    cases before with
    | nil =>
      obtain ⟨rfl, -⟩ := List.cons.inj h
      rfl
    | cons first before =>
      obtain ⟨rfl, hrest⟩ := List.cons.inj h
      rw [ih hrest, List.flatMap_cons, Text.byteLength_append, Nat.add_assoc]

/-! ## What a line is parsed to alone -/

/-- The body of a statement and where it is written. -/
def Statement.bodyAt? (s : Statement) : Option (Body × Span) := s.body.map (·, s.span)

namespace PlacedLine

/-- The statements of the line alone, with the places that they have in the text. -/
def statements (l : PlacedLine) : List Statement :=
  (parse l.chars).1.map (Statement.shiftBy l.offset)

/-- The errors of the line alone, with the places that they have in the text. -/
def errors (l : PlacedLine) : List ParseError :=
  (parse l.chars).2.map (ParseError.shiftBy l.offset)

/-- The labels of the line alone. -/
def labels (l : PlacedLine) : List Label := l.statements.flatMap Statement.labels

/-- The instructions and directives of the line alone. -/
def bodies (l : PlacedLine) : List (Body × Span) := l.statements.filterMap Statement.bodyAt?

end PlacedLine

/-- A line with nothing on it. -/
def ParsedLine.blank : ParsedLine := { labels := [] }

/-- The lines of a text that starts at a byte offset, parsed. -/
def parseLinesFrom (offset : Nat) (chars : List Char) : List ParsedLine :=
  (splitLines (Token.lexFrom offset chars)).map ParsedLine.ofLexemes

theorem parseLinesFrom_eq (offset : Nat) (chars : List Char) :
    parseLinesFrom offset chars = (parseLines chars).map (ParsedLine.shiftBy offset) := by
  have hlex : Token.lexFrom offset chars =
      (Token.lex chars).map (Lexeme.shiftBy offset) := by
    have hshift := Token.lexFrom_shiftBy offset 0 chars
    rwa [Nat.zero_add] at hshift
  unfold parseLinesFrom parseLines
  rw [hlex, splitLines_shiftBy, List.map_map, List.map_map]
  exact List.map_congr_left fun line _ => ParsedLine.ofLexemes_shiftBy line

/-- The line, parsed where it stands. -/
def PlacedLine.parsed (l : PlacedLine) : ParsedLine :=
  (parseLinesFrom l.offset l.chars).headD .blank

/-- The lexemes of a line are found once; what follows the line has no part in them. -/
theorem parseLinesFrom_lexemes {text : List Char} (h : '\n' ∉ text) (offset : Nat) :
    ∃ lexemes, Token.LexedIn offset text lexemes ∧ ∀ rest,
      parseLinesFrom offset (text ++ '\n' :: rest) =
        .ofLexemes lexemes ::
          parseLinesFrom (offset + Text.byteLength (text ++ ['\n'])) rest := by
  obtain ⟨lexemes, hinner, hlexed, hlex⟩ := Token.lexFrom_line offset h
  refine ⟨lexemes, hlexed, fun rest => ?_⟩
  obtain ⟨place, hrest⟩ := hlex rest
  unfold parseLinesFrom
  rw [hrest, splitLines_append hinner (splitLines_newline rfl _), List.append_nil, List.map_cons,
    Text.byteLength_append]
  rfl

/-- A line is parsed to the same whatever follows it, and so is what follows it. -/
theorem parseLinesFrom_newline {text : List Char} (h : '\n' ∉ text) (offset : Nat)
    (rest : List Char) :
    parseLinesFrom offset (text ++ '\n' :: rest) =
      PlacedLine.parsed ⟨offset, text ++ ['\n']⟩ ::
        parseLinesFrom (offset + Text.byteLength (text ++ ['\n'])) rest := by
  obtain ⟨lexemes, -, hparse⟩ := parseLinesFrom_lexemes h offset
  have hparsed : PlacedLine.parsed ⟨offset, text ++ ['\n']⟩ = .ofLexemes lexemes :=
    congrArg (·.headD .blank) (hparse [])
  rw [hparsed, hparse rest]

theorem parseLinesFrom_lastLine {text : List Char} (h : '\n' ∉ text) (offset : Nat) :
    parseLinesFrom offset text = [.ofLexemes (Token.lexFrom offset text)] := by
  unfold parseLinesFrom
  have hsplit := splitLines_append (Token.lexFrom_lastLine offset h) (rfl : splitLines [] = [[]])
  rw [List.append_nil] at hsplit
  rw [hsplit, List.map_singleton]

/-- What a text is parsed to comes from lexemes that stand in one of its lines. -/
theorem lexedIn_of_mem_parseLinesFrom {offset : Nat} {chars : List Char} {line : ParsedLine}
    (h : line ∈ parseLinesFrom offset chars) :
    ∃ before text behind lexemes, chars = before ++ text ++ behind ∧ '\n' ∉ text ∧
      Token.LexedIn (offset + Text.byteLength before) text lexemes ∧ line = .ofLexemes lexemes := by
  induction chars using Text.lines_induction generalizing offset with
  | last text htext =>
    rw [parseLinesFrom_lastLine htext] at h
    exact ⟨[], text, [], _, (List.append_nil text).symm, htext,
      Token.lexFrom_lexedIn offset text, List.mem_singleton.mp h⟩
  | line text rest htext ih =>
    obtain ⟨lexemes, hlexed, hparse⟩ := parseLinesFrom_lexemes htext offset
    rw [hparse] at h
    rcases List.mem_cons.mp h with h | h
    · exact ⟨[], text, '\n' :: rest, lexemes, rfl, htext, hlexed, h⟩
    · obtain ⟨before, inner, behind, lexemes, rfl, hinner, hlexed, hline⟩ := ih h
      refine ⟨text ++ ['\n'] ++ before, inner, behind, lexemes, by simp, hinner, ?_, hline⟩
      rw [Text.byteLength_append, ← Nat.add_assoc]
      exact hlexed

/-- The lines of a text, parsed, are its lines, each of them parsed alone, and maybe a blank line
behind the last newline. -/
theorem parseLinesFrom_placed (offset : Nat) (chars : List Char) :
    ∃ n, parseLinesFrom offset chars =
      (placeLines offset (Text.lines chars)).map PlacedLine.parsed ++ List.replicate n .blank := by
  induction chars using Text.lines_induction generalizing offset with
  | last text h =>
    have hparse := parseLinesFrom_lastLine h offset
    cases text with
    | nil => exact ⟨1, by rw [hparse, Token.lexFrom]; rfl⟩
    | cons c cs =>
      have hparsed : PlacedLine.parsed ⟨offset, c :: cs⟩ = .ofLexemes (Token.lexFrom offset _) :=
        congrArg (·.headD .blank) hparse
      refine ⟨0, ?_⟩
      rw [Text.lines_last h (List.cons_ne_nil c cs), hparse, ← hparsed]
      rfl
  | line text rest h ih =>
    obtain ⟨n, hrest⟩ := ih (offset + Text.byteLength (text ++ ['\n']))
    refine ⟨n, ?_⟩
    rw [parseLinesFrom_newline h, hrest, Text.lines_newline h]
    rfl

/-! ## Statements of lines -/

namespace Statement

variable {pending : List Label} {before between lines : List ParsedLine}

theorem labels_ofTrailing (labels : List Label) :
    (ofTrailing labels).flatMap Statement.labels = labels := by
  unfold ofTrailing
  cases hlast : labels.getLast? with
  | none => exact (List.getLast?_eq_none_iff.mp hlast).symm
  | some last => exact List.append_nil labels

theorem bodies_ofTrailing (labels : List Label) :
    (ofTrailing labels).filterMap bodyAt? = [] := by
  unfold ofTrailing
  cases labels.getLast? <;> rfl

/-- Blank lines behind the others add nothing. -/
theorem gather_blank (pending : List Label) (lines : List ParsedLine) (n : Nat) :
    gather pending (lines ++ List.replicate n .blank) = gather pending lines := by
  induction lines generalizing pending with
  | nil =>
    induction n with
    | zero => rfl
    | succ n ih =>
      rw [List.nil_append] at ih ⊢
      rw [List.replicate_succ, gather]
      exact (congrArg (gather · _) (List.append_nil pending)).trans ih
  | cons line lines ih =>
    rw [List.cons_append, gather, gather]
    cases line.body with
    | none => exact ih _
    | some found => exact congrArg (List.cons _) (ih [])

/-- Every label of the lines is a label of a statement, in the same order. -/
theorem labels_gather (pending : List Label) (lines : List ParsedLine) :
    (gather pending lines).flatMap Statement.labels =
      pending ++ lines.flatMap ParsedLine.labels := by
  induction lines generalizing pending with
  | nil => rw [gather, labels_ofTrailing, List.flatMap_nil, List.append_nil]
  | cons line lines ih =>
    rw [gather, List.flatMap_cons, ← List.append_assoc]
    cases line.body with
    | none => exact ih _
    | some found => exact congrArg _ (ih [])

/-- Every body of the lines is the body of a statement, in the same order. -/
theorem bodies_gather (pending : List Label) (lines : List ParsedLine) :
    (gather pending lines).filterMap bodyAt? = lines.filterMap ParsedLine.body := by
  induction lines generalizing pending with
  | nil => exact bodies_ofTrailing pending
  | cons line lines ih =>
    rw [gather, List.filterMap_cons]
    cases line.body with
    | none => exact ih _
    | some found => exact congrArg (List.cons found) (ih [])

/-- Labels wait for a line that has a body. -/
theorem gather_between (h : ∀ line ∈ between, line.body = none) :
    gather pending (between ++ lines) =
      gather (pending ++ between.flatMap ParsedLine.labels) lines := by
  induction between generalizing pending with
  | nil => rw [List.nil_append, List.flatMap_nil, List.append_nil]
  | cons line between ih =>
    obtain ⟨hline, hothers⟩ := List.forall_mem_cons.mp h
    rw [List.cons_append, gather, List.flatMap_cons, ← List.append_assoc, ← ih hothers]
    simp only [hline]

/-- Behind a line that has a body no labels wait. The induction is on the lines up to it; labels
wait at their start only if there are any. -/
theorem drop_gather (hlast : ∀ line ∈ before.getLast?, line.body ≠ none)
    (hpending : before = [] → pending = []) :
    (gather pending (before ++ lines)).drop (before.filterMap ParsedLine.body).length =
      gather [] lines := by
  induction before generalizing pending with
  | nil =>
    rw [hpending rfl]
    rfl
  | cons line before ih =>
    have hothers : ∀ last ∈ before.getLast?, last.body ≠ none := by
      intro last hmem
      refine hlast last ?_
      rw [List.getLast?_cons, hmem]
      rfl
    rw [List.cons_append, gather, List.filterMap_cons]
    cases hbody : line.body with
    | some found => exact ih hothers fun _ => rfl
    | none =>
      refine ih hothers fun hnil => ?_
      subst hnil
      exact absurd hbody (hlast line rfl)

end Statement

/-! ## A text and its lines -/

namespace PlacedLine

/-- A text of one line. -/
def IsLine (l : PlacedLine) : Prop := Text.lines l.chars = [l.chars]

theorem isLine_of_mem {l : PlacedLine} {chars : List Char} (h : l ∈ placedLines chars) :
    l.IsLine := by
  have hline : l.chars ∈ Text.lines chars := by
    rw [← chars_placeLines 0 (Text.lines chars)]
    exact List.mem_map_of_mem h
  exact Text.lines_line hline

variable {l : PlacedLine} {ls : List PlacedLine}

theorem IsLine.parseLines (h : l.IsLine) :
    ∃ n, (parseLines l.chars).map (ParsedLine.shiftBy l.offset) =
      l.parsed :: List.replicate n .blank := by
  obtain ⟨n, hparse⟩ := parseLinesFrom_placed l.offset l.chars
  rw [parseLinesFrom_eq, h] at hparse
  exact ⟨n, hparse⟩

/-- The errors of a line alone are the error of the line. -/
theorem IsLine.errors (h : l.IsLine) : l.errors = l.parsed.error.toList := by
  obtain ⟨n, hparse⟩ := h.parseLines
  have herrors : l.errors =
      ((MipsLab.parseLines l.chars).map (ParsedLine.shiftBy l.offset)).filterMap
        ParsedLine.error := by
    rw [List.filterMap_map]
    exact List.map_filterMap
  rw [herrors, hparse, List.filterMap_cons, List.filterMap_replicate_of_none rfl]
  cases l.parsed.error <;> rfl

/-- The statements of a line alone are those that the line makes. -/
theorem IsLine.statements (h : l.IsLine) : l.statements = Statement.gather [] [l.parsed] := by
  obtain ⟨n, hparse⟩ := h.parseLines
  have hshift : Statement.gather [] ((MipsLab.parseLines l.chars).map (.shiftBy l.offset)) =
      l.statements :=
    Statement.gather_shiftBy [] (MipsLab.parseLines l.chars)
  rw [hparse] at hshift
  exact hshift.symm.trans (Statement.gather_blank [] [l.parsed] n)

theorem IsLine.labels (h : l.IsLine) : l.labels = l.parsed.labels := by
  unfold PlacedLine.labels
  rw [h.statements, Statement.gather]
  cases l.parsed.body with
  | none => exact Statement.labels_ofTrailing _
  | some found => exact List.append_nil _

theorem IsLine.bodies (h : l.IsLine) : l.bodies = l.parsed.body.toList := by
  unfold PlacedLine.bodies
  rw [h.statements, Statement.bodies_gather, List.filterMap_cons]
  cases l.parsed.body <;> rfl

theorem IsLine.body_eq_none (h : l.IsLine) : l.parsed.body = none ↔ l.bodies = [] := by
  rw [h.bodies, Option.toList_eq_nil_iff]

theorem filterMap_error (h : ∀ l ∈ ls, l.IsLine) :
    (ls.map parsed).filterMap ParsedLine.error = ls.flatMap PlacedLine.errors := by
  rw [List.filterMap_map, List.filterMap_eq_flatMap_toList]
  exact List.flatMap_congr fun l hl => (h l hl).errors.symm

theorem filterMap_body (h : ∀ l ∈ ls, l.IsLine) :
    (ls.map parsed).filterMap ParsedLine.body = ls.flatMap PlacedLine.bodies := by
  rw [List.filterMap_map, List.filterMap_eq_flatMap_toList]
  exact List.flatMap_congr fun l hl => (h l hl).bodies.symm

theorem flatMap_labels (h : ∀ l ∈ ls, l.IsLine) :
    (ls.map parsed).flatMap ParsedLine.labels = ls.flatMap PlacedLine.labels := by
  rw [List.flatMap_map]
  exact List.flatMap_congr fun l hl => (h l hl).labels.symm

end PlacedLine

/-- What a text is parsed to comes from its lines, each of them parsed where it stands. -/
theorem parse_placed (chars : List Char) :
    parse chars = (Statement.gather [] ((placedLines chars).map PlacedLine.parsed),
      (placedLines chars).flatMap PlacedLine.errors) := by
  obtain ⟨n, hparse⟩ : ∃ n, parseLines chars =
      (placedLines chars).map PlacedLine.parsed ++ List.replicate n ParsedLine.blank :=
    parseLinesFrom_placed 0 chars
  unfold parse
  simp only [hparse]
  rw [Statement.gather_blank, List.filterMap_append, List.filterMap_replicate_of_none rfl,
    List.append_nil, PlacedLine.filterMap_error fun l => PlacedLine.isLine_of_mem]

/-- The statements behind those of some lines, of which the last one has a body, start with the
labels of the lines that follow, up to the next one that has a body. -/
theorem drop_statements {chars : List Char} {before between rest : List PlacedLine}
    (h : placedLines chars = before ++ (between ++ rest))
    (hlast : ∀ line ∈ before.getLast?, line.bodies ≠ [])
    (hbetween : ∀ line ∈ between, line.bodies = []) :
    (parse chars).1.drop (before.flatMap PlacedLine.bodies).length =
      Statement.gather (between.flatMap PlacedLine.labels) (rest.map PlacedLine.parsed) := by
  obtain ⟨hbeforeLines, hothers⟩ : (∀ l ∈ before, l.IsLine) ∧ ∀ l ∈ between ++ rest, l.IsLine := by
    rw [← List.forall_mem_append, ← h]
    exact fun l => PlacedLine.isLine_of_mem
  have hbetweenLines := (List.forall_mem_append.mp hothers).1
  have hbodied : ∀ line ∈ (before.map PlacedLine.parsed).getLast?, line.body ≠ none := by
    intro line hline hnone
    rw [List.getLast?_map] at hline
    obtain ⟨last, hmem, rfl⟩ := Option.map_eq_some_iff.mp hline
    have hisLine := hbeforeLines last (List.mem_of_getLast? hmem)
    exact hlast last hmem (hisLine.body_eq_none.mp hnone)
  have hwaiting : ∀ line ∈ between.map PlacedLine.parsed, line.body = none := by
    intro line hline
    obtain ⟨l, hl, rfl⟩ := List.mem_map.mp hline
    exact (hbetweenLines l hl).body_eq_none.mpr (hbetween l hl)
  rw [parse_placed, h, List.map_append, ← PlacedLine.filterMap_body hbeforeLines,
    Statement.drop_gather hbodied fun _ => rfl, List.map_append, Statement.gather_between hwaiting,
    PlacedLine.flatMap_labels hbetweenLines, List.nil_append]

/-- A text is parsed line by line. -/
structure ReadByLine (chars : List Char) : Prop where
  /-- The lines make up the text. -/
  whole : (placedLines chars).flatMap PlacedLine.chars = chars
  /-- A newline stands at the end of a line only, and only the last line may be without one. -/
  ending : ∀ {before behind : List PlacedLine} {line : PlacedLine},
    placedLines chars = before ++ line :: behind →
    ∃ text, '\n' ∉ text ∧ (line.chars = text ++ ['\n'] ∨ line.chars = text ∧ behind = [])
  /-- A line starts behind the bytes of the lines before it. -/
  offset : ∀ {before behind : List PlacedLine} {line : PlacedLine},
    placedLines chars = before ++ line :: behind →
    line.offset = Text.byteLength (before.flatMap PlacedLine.chars)
  /-- The errors of a text are those of its lines, in their order. -/
  errors : (parse chars).2 = (placedLines chars).flatMap PlacedLine.errors
  /-- A line has one error at most. -/
  one_error : ∀ line ∈ placedLines chars, line.errors.length ≤ 1
  /-- The instructions and directives of a text are those of its lines, in their order. -/
  bodies : (parse chars).1.filterMap Statement.bodyAt? =
    (placedLines chars).flatMap PlacedLine.bodies
  /-- A line has one instruction or directive at most. -/
  one_body : ∀ line ∈ placedLines chars, line.bodies.length ≤ 1
  /-- The labels of a statement are those of the lines behind the line of the statement before, and
  of its own. -/
  labels : ∀ {before between behind : List PlacedLine} {own : PlacedLine} {body : Body}
      {span : Span},
    placedLines chars = before ++ (between ++ own :: behind) →
    (∀ line ∈ before.getLast?, line.bodies ≠ []) → (∀ line ∈ between, line.bodies = []) →
    own.bodies = [(body, span)] →
    (parse chars).1[(before.flatMap PlacedLine.bodies).length]? =
      some { labels := between.flatMap PlacedLine.labels ++ own.labels, body := some body, span }
  /-- The labels behind the line of the last statement make a statement without a body, if there are
  any. -/
  trailing : ∀ {before between : List PlacedLine},
    placedLines chars = before ++ between →
    (∀ line ∈ before.getLast?, line.bodies ≠ []) → (∀ line ∈ between, line.bodies = []) →
    (parse chars).1.drop (before.flatMap PlacedLine.bodies).length =
      Statement.ofTrailing (between.flatMap PlacedLine.labels)

/-- Every text is parsed line by line, whatever is wrong with some of its lines. -/
theorem parse_by_line (chars : List Char) : ReadByLine chars where
  whole := by
    rw [List.flatMap_def, placedLines, chars_placeLines]
    exact List.flatten_splitBy _ chars
  ending {before behind line} h := by
    have hlines : Text.lines chars = before.map PlacedLine.chars ++
        line.chars :: behind.map PlacedLine.chars := by
      rw [← chars_placeLines 0 (Text.lines chars), ← List.map_cons, ← List.map_append, ← h]
      rfl
    obtain ⟨text, htext, hline⟩ := Text.lines_ending hlines
    rw [List.map_eq_nil_iff] at hline
    exact ⟨text, htext, hline⟩
  offset h := (offset_placeLines h).trans (Nat.zero_add _)
  errors := congrArg Prod.snd (parse_placed chars)
  one_error line hline := by
    rw [(PlacedLine.isLine_of_mem hline).errors]
    exact Option.length_toList_le
  bodies := by
    rw [parse_placed, Statement.bodies_gather,
      PlacedLine.filterMap_body fun l => PlacedLine.isLine_of_mem]
  one_body line hline := by
    rw [(PlacedLine.isLine_of_mem hline).bodies]
    exact Option.length_toList_le
  labels {before between behind own body span} h hlast hbetween hown := by
    have hdrop := drop_statements h hlast hbetween
    have hmem : own ∈ placedLines chars :=
      h ▸ List.mem_append_right _ (List.mem_append_right _ List.mem_cons_self)
    have hisLine := PlacedLine.isLine_of_mem hmem
    have hbody : own.parsed.body = some (body, span) := by
      rw [hisLine.bodies] at hown
      exact Option.toList_eq_singleton_iff.mp hown
    rw [← Nat.add_zero (before.flatMap PlacedLine.bodies).length, ← List.getElem?_drop, hdrop,
      List.map_cons, Statement.gather]
    simp only [hbody, hisLine.labels]
    rfl
  trailing {before between} h hlast hbetween := by
    have hall : placedLines chars = before ++ (between ++ []) := by rw [h, List.append_nil]
    exact drop_statements hall hlast hbetween

end MipsLab
