import MipsLab.Proofs.LabelTable
import MipsLab.Proofs.Offsets
import MipsLab.Proofs.ReaderPlaces

/-!
# Places on lines

Wherever a statement or an error of a source text is said to be, and wherever a label is said to be
written, there is a stretch of whole characters that does not go on beyond its line. The places at
the end of a line, where something is missing, are empty such stretches.

1. `Token.LexedIn.covers`, `Token.LexedIn.pairwise`: where the lexemes of a text are.
2. `ParsedLine.ofLexemes_placed`: where the parts of a line are.
3. `Statement.gather_placed`: where statements are.
4. `parseError_onLine`, `assemblyError_onLine`: where errors are.
-/

namespace MipsLab

/-! ## Lexemes and tokens -/

namespace Token.LexedIn

variable {offset : Nat} {text : List Char} {lexemes : List Lexeme}

/-- A lexeme covers some characters, and a name those that it consists of. -/
theorem covers (h : LexedIn offset text lexemes) :
    ∀ l ∈ lexemes, ∃ piece, l.span.Covers offset text piece ∧ piece ≠ [] ∧
      ∀ name, l.result = .ok (identifier name) → name.toList = piece := by
  induction h with
  | nil => exact List.forall_mem_nil _
  | skip c h ih =>
    intro l hl
    obtain ⟨piece, hcovers, hrest⟩ := ih l hl
    have hfront : l.span.Covers _ ([c] ++ _) piece := hcovers.append_left
    exact ⟨piece, hfront, hrest⟩
  | @lexeme offset piece rest lexemes result hpiece hname h ih =>
    refine List.forall_mem_cons.mpr ⟨⟨piece, ⟨[], rest, rfl, rfl⟩, hpiece, hname⟩, fun l hl => ?_⟩
    obtain ⟨piece, hcovers, hrest⟩ := ih l hl
    exact ⟨piece, hcovers.append_left, hrest⟩

/-- Lexemes stand one behind the other. -/
theorem pairwise (h : LexedIn offset text lexemes) :
    lexemes.Pairwise fun l l' => l.span.stop ≤ l'.span.start := by
  induction h with
  | nil => exact .nil
  | skip c h ih => exact ih
  | lexeme hpiece hname h ih =>
    refine .cons (fun l hl => ?_) ih
    obtain ⟨piece, hcovers, -⟩ := h.covers l hl
    exact hcovers.start_le.1

end Token.LexedIn

/-- The lexemes that a line has its tokens from. -/
theorem tokensOfLine_sublist (line : List Lexeme) :
    ((tokensOfLine line).map fun t => (⟨.ok t.token, t.span⟩ : Lexeme)).Sublist line := by
  induction line with
  | nil => exact List.nil_sublist []
  | cons lexeme line ih =>
    obtain ⟨result, span⟩ := lexeme
    cases result with
    | error cause => exact List.nil_sublist _
    | ok token =>
      by_cases hcomment : token = .comment
      · subst hcomment
        exact ih.cons _
      · rw [tokensOfLine_cons hcomment]
        exact ih.cons_cons _

theorem firstLexError?_mem {line : List Lexeme} {e : ParseError}
    (h : firstLexError? line = some e) : ∃ l ∈ line, e.span = l.span := by
  induction line with
  | nil => exact nomatch h
  | cons lexeme line ih =>
    obtain ⟨result, span⟩ := lexeme
    cases result with
    | error cause =>
      obtain rfl := Option.some.inj h
      exact ⟨_, List.mem_cons_self, rfl⟩
    | ok token =>
      obtain ⟨l, hl, hspan⟩ := ih h
      exact ⟨l, List.mem_cons_of_mem _ hl, hspan⟩

theorem takeLabels_isOn (line : List Located) : ∀ l ∈ (takeLabels line).1, l.IsOn line := by
  induction line using takeLabels.induct with
  | case1 name span colon rest labels body htake ih =>
    rw [htake] at ih
    rw [takeLabels, htake]
    refine List.forall_mem_cons.mpr ⟨⟨span, List.mem_cons_self, rfl⟩, fun l hl => ?_⟩
    obtain ⟨place, hmem, hstart⟩ := ih l hl
    exact ⟨place, List.mem_cons_of_mem _ (List.mem_cons_of_mem _ hmem), hstart⟩
  | case2 line hno =>
    rw [takeLabels_none fun name span place rest => hno name span place rest]
    exact List.forall_mem_nil _

/-! ## Parsed lines -/

/-- All places of a parsed line are of some kind. -/
structure ParsedLine.Placed (place : Span → Prop) (line : ParsedLine) : Prop where
  labels : ∀ l ∈ line.labels, place l.span
  body : ∀ found ∈ line.body, place found.2 ∧ ∀ l ∈ found.1.uses, place l.span
  error : ∀ e ∈ line.error, place e.span

theorem ParsedLine.Placed.mono {place place' : Span → Prop} {line : ParsedLine}
    (h : line.Placed place) (hplace : ∀ s, place s → place' s) : line.Placed place' where
  labels l hl := hplace _ (h.labels l hl)
  body found hfound :=
    ⟨hplace _ (h.body found hfound).1, fun l hl => hplace _ ((h.body found hfound).2 l hl)⟩
  error e he := hplace _ (h.error e he)

section

variable {place : Span → Prop} {labels : List Label}

theorem ParsedLine.placed_labels (h : ∀ l ∈ labels, place l.span) :
    Placed place { labels } :=
  ⟨h, fun found hfound => absurd hfound (Option.not_mem_none found),
    fun e he => absurd he (Option.not_mem_none e)⟩

theorem ParsedLine.placed_error (h : ∀ l ∈ labels, place l.span) {e : ParseError}
    (he : place e.span) : Placed place { labels, error := some e } :=
  ⟨h, fun found hfound => absurd hfound (Option.not_mem_none found),
    fun _ hmem => Option.some.inj hmem ▸ he⟩

theorem ParsedLine.placed_body (h : ∀ l ∈ labels, place l.span) {body : Body} {span : Span}
    (hspan : place span) (huses : ∀ l ∈ body.uses, place l.span) :
    Placed place { labels, body := some (body, span) } :=
  ⟨h, fun _ hmem => Option.some.inj hmem ▸ ⟨hspan, huses⟩,
    fun e he => absurd he (Option.not_mem_none e)⟩

end

section

variable {offset : Nat} {text : List Char} {line : List Lexeme}

/-- The tokens of a line are where its lexemes are. -/
theorem Span.IsOn.covers {s : Span} (h : s.IsOn (tokensOfLine line))
    (hlexed : Token.LexedIn offset text line) : ∃ inside, s.Covers offset text inside := by
  obtain ⟨t, ht, rfl⟩ := h
  have hmem := (tokensOfLine_sublist line).subset (List.mem_map_of_mem ht)
  obtain ⟨piece, hcovers, -⟩ := hlexed.covers _ hmem
  exact ⟨piece, hcovers⟩

/-- A label is as long as its name, and so is the token that it is. -/
theorem Label.IsOn.covers {l : Label} (h : l.IsOn (tokensOfLine line))
    (hlexed : Token.LexedIn offset text line) : l.span.Covers offset text l.name.toList := by
  obtain ⟨span, ht, hstart⟩ := h
  have hmem := (tokensOfLine_sublist line).subset (List.mem_map_of_mem ht)
  obtain ⟨piece, hcovers, -, hname⟩ := hlexed.covers _ hmem
  have hpiece : l.name.toList = piece := hname l.name rfl
  have hspan : l.span = span := by
    obtain ⟨before, behind, -, hspan⟩ := hcovers
    simp only at hspan
    unfold Label.span
    rw [← hstart, hspan, hpiece, Text.byteLength_append, Nat.add_assoc]
  rw [hspan, hpiece]
  exact hcovers

/-- No token of a line ends behind the last one. -/
theorem stop_le_getLast (h : Token.LexedIn offset text line) {last : Located}
    (hlast : (tokensOfLine line).getLast? = some last) :
    ∀ t ∈ tokensOfLine line, t.span.stop ≤ last.span.stop := by
  obtain ⟨before, hbefore⟩ := List.getLast?_eq_some_iff.mp hlast
  have hpairwise := List.pairwise_map.mp (h.pairwise.sublist (tokensOfLine_sublist line))
  rw [hbefore] at hpairwise ⊢
  intro t ht
  rcases List.mem_append.mp ht with ht | ht
  · have hle : t.span.stop ≤ last.span.start :=
      (List.pairwise_append.mp hpairwise).2.2 t ht last (List.mem_singleton_self last)
    have hmem : last.span.IsOn (tokensOfLine line) :=
      ⟨last, List.mem_of_getLast? hlast, rfl⟩
    obtain ⟨inside, hcovers⟩ := hmem.covers h
    exact Nat.le_trans hle hcovers.start_le.2
  · rw [List.mem_singleton.mp ht]

/-- The parts of a line are in the text that it is read from. What is missing is missing at the end
of its last token. -/
theorem ParsedLine.ofLexemes_placed (h : Token.LexedIn offset text line) :
    (ofLexemes line).Placed fun s => ∃ inside, s.Covers offset text inside := by
  have hlabels : ∀ l ∈ (takeLabels (tokensOfLine line)).1,
      ∃ inside, l.span.Covers offset text inside :=
    fun l hl => ⟨_, (takeLabels_isOn _ l hl).covers h⟩
  have hrest := (takeLabels_suffix (tokensOfLine line)).subset
  unfold ofLexemes
  dsimp only
  generalize takeLabels (tokensOfLine line) = found at hlabels hrest ⊢
  obtain ⟨labels, rest⟩ := found
  cases herror : firstLexError? line with
  | some error =>
    obtain ⟨l, hl, hspan⟩ := firstLexError?_mem herror
    obtain ⟨piece, hcovers, -⟩ := h.covers l hl
    exact placed_error hlabels ⟨piece, hspan ▸ hcovers⟩
  | none =>
    cases rest with
    | nil => exact placed_labels hlabels
    | cons first rest =>
      rw [List.head?_cons]
      cases hlast : (tokensOfLine line).getLast? with
      | none => exact placed_labels hlabels
      | some last =>
        have hfirst := hrest List.mem_cons_self
        obtain ⟨start, hstart⟩ := Span.IsOn.covers ⟨first, hfirst, rfl⟩ h
        obtain ⟨stop, hstop⟩ := Span.IsOn.covers ⟨last, List.mem_of_getLast? hlast, rfl⟩ h
        have hsees := LineReader.sees_body last.span.stop (first :: rest) hrest
        simp only
        cases hrun : (LineReader.body.run last.span.stop).run (first :: rest) with
        | ok found =>
          rw [hrun] at hsees
          refine placed_body hlabels (hstart.join hstop ?_) fun l hl =>
            ⟨_, (hsees.1 l hl).covers h⟩
          exact Nat.le_trans hstart.start_le.2 (stop_le_getLast h hlast first hfirst)
        | error error =>
          rw [hrun] at hsees
          refine placed_error hlabels ?_
          rcases hsees with hspan | hspan
          · exact hspan.covers h
          · exact ⟨[], hspan ▸ hstop.behind⟩

end

/-! ## Statements -/

/-- All places of a statement are of some kind. -/
structure Statement.Placed (place : Span → Prop) (s : Statement) : Prop where
  span : place s.span
  labels : ∀ l ∈ s.labels, place l.span
  uses : ∀ l ∈ s.uses, place l.span

/-- Statements are where the lines are that they are gathered from. The induction is on the lines,
of which each one keeps the labels that wait. -/
theorem Statement.gather_placed {place : Span → Prop} {pending : List Label}
    {lines : List ParsedLine} (hpending : ∀ l ∈ pending, place l.span)
    (h : ∀ line ∈ lines, line.Placed place) :
    ∀ s ∈ gather pending lines, s.Placed place := by
  induction lines generalizing pending with
  | nil =>
    unfold gather ofTrailing
    cases hlast : pending.getLast? with
    | none => exact List.forall_mem_nil _
    | some last =>
      refine List.forall_mem_singleton.mpr ⟨?_, hpending, List.forall_mem_nil _⟩
      exact hpending last (List.mem_of_getLast? hlast)
  | cons line lines ih =>
    obtain ⟨hline, hlines⟩ := List.forall_mem_cons.mp h
    have hlabels : ∀ l ∈ pending ++ line.labels, place l.span :=
      List.forall_mem_append.mpr ⟨hpending, hline.labels⟩
    rw [gather]
    cases hbody : line.body with
    | none => exact ih hlabels hlines
    | some found =>
      obtain ⟨hspan, huses⟩ := hline.body found hbody
      refine List.forall_mem_cons.mpr ⟨⟨hspan, hlabels, ?_⟩, ih (List.forall_mem_nil _) hlines⟩
      rw [uses_eq]
      exact huses

/-! ## Errors -/

/-- A span covers whole characters on a line of a text. The line is not empty, but the span may
be. -/
def Span.OnLine (chars : List Char) (s : Span) : Prop :=
  ∃ before text behind inside, chars = before ++ text ++ behind ∧ text ≠ [] ∧ '\n' ∉ text ∧
    s.Covers (Text.byteLength before) text inside

theorem parseLines_placed (chars : List Char) :
    ∀ line ∈ parseLines chars, line.Placed (Span.OnLine chars) := by
  intro line hline
  have hmem : line ∈ parseLinesFrom 0 chars := hline
  obtain ⟨before, text, behind, lexemes, hchars, htext, hlexed, rfl⟩ :=
    lexedIn_of_mem_parseLinesFrom hmem
  rw [Nat.zero_add] at hlexed
  by_cases hnil : text = []
  · -- There are no lexemes, as none of them would be empty.
    subst hnil
    have hnone : lexemes = [] := by
      refine List.eq_nil_iff_forall_not_mem.mpr fun l hl => ?_
      obtain ⟨piece, ⟨front, rest, hpiece, -⟩, hne, -⟩ := hlexed.covers l hl
      exact hne (List.append_eq_nil_iff.mp (List.append_eq_nil_iff.mp hpiece.symm).1).2
    subst hnone
    exact ParsedLine.placed_labels (List.forall_mem_nil _)
  · refine (ParsedLine.ofLexemes_placed hlexed).mono ?_
    rintro s ⟨inside, hcovers⟩
    exact ⟨before, text, behind, inside, hchars, hnil, htext, hcovers⟩

theorem parseError_onLine {chars : List Char} {e : ParseError} (h : e ∈ (parse chars).2) :
    e.span.OnLine chars := by
  obtain ⟨line, hline, herror⟩ := List.mem_filterMap.mp h
  exact (parseLines_placed chars line hline).error e herror

theorem statements_onLine (chars : List Char) :
    ∀ s ∈ (parse chars).1, s.Placed (Span.OnLine chars) :=
  Statement.gather_placed (List.forall_mem_nil _) (parseLines_placed chars)

/-- The labels in the table are those of statements. -/
theorem Definitions.label_mem {statements : List Statement} {name : String} {symbol : Symbol}
    (h : (ofStatements statements).table.find? name = some symbol) :
    ∃ s ∈ statements, symbol.label ∈ s.labels := by
  have hfirst := (records_ofStatements statements).first name
  rw [h] at hfirst
  exact List.mem_flatMap.mp (List.mem_of_find?_eq_some hfirst.symm)

/-- What is wrong with statements is blamed on a place on a line. -/
theorem assemblyError_onLine {source : Source} {e : AssemblyError} (h : e ∈ source.assemblyErrors) :
    ∃ place, e.spans.first? = some place ∧ place.OnLine source.chars := by
  have hstatements := statements_onLine source.chars
  obtain ⟨place, hfirst, hplace⟩ := Program.error_place h
  refine ⟨place, hfirst, ?_⟩
  rcases hplace with ⟨s, hs, rfl | ⟨l, hl | hl, rfl⟩⟩ | ⟨symbol, hfind, rfl⟩
  · exact (hstatements s hs).span
  · exact (hstatements s hs).labels l hl
  · exact (hstatements s hs).uses l hl
  · obtain ⟨s, hs, hl⟩ := Definitions.label_mem hfind
    exact (hstatements s hs).labels _ hl

end MipsLab
