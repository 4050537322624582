import MipsLab.Proofs.LinePlaces

/-!
# Tiles of a text

The lexemes of a text, errors among them, lie in it like tiles: each of them covers some whole
characters, none of them overlaps another, and between them there is nothing but white space. A
newline is always a tile of its own, whatever goes wrong around it, so lexemes fall into as many
lines as the text has, and the lines of the parser are those that places in the text are counted
by. A literal is as long as the bytes make it that are moved on by behind its quote. Any other tile
is as long as a pattern makes it, and a character that no pattern starts with is a tile of its own,
so that it hides nothing of what is behind it.

1. `Token.Tiles`: lexemes that cover a text, with separators between them.
2. `Token.tiles_lexFrom`: the lexemes of a text do.
3. `Token.Tiles.splitLines_eq`: how such lexemes fall into lines.
4. `lexemes_tile`: all of it, for every source text.
-/

namespace MipsLab

theorem Source.newlines_of_not_mem {offset : Nat} {chars : List Char} (h : '\n' ∉ chars) :
    newlines offset chars = [] := by
  rw [← List.length_eq_zero_iff, length_newlines, List.count_eq_zero]
  exact h

/-- A lexeme covers a piece of a text that starts at a byte offset. -/
structure Lexeme.Covers (l : Lexeme) (offset : Nat) (before piece behind : List Char) : Prop where
  span : l.span = ⟨offset + Text.byteLength before, offset + Text.byteLength (before ++ piece)⟩
  ne_nil : piece ≠ []
  /-- A newline is covered by a lexeme of its own. -/
  line : l.result = .ok .newline ∧ piece = ['\n'] ∨ l.result ≠ .ok .newline ∧ '\n' ∉ piece
  longest : Token.LongestMatch l.result piece behind

namespace Lexeme.Covers

variable {l : Lexeme} {offset : Nat} {before piece behind : List Char}

theorem span_covers (h : l.Covers offset before piece behind) :
    l.span.Covers offset (before ++ piece ++ behind) piece :=
  ⟨before, behind, rfl, h.span⟩

/-- With more text in front. -/
theorem append_left (front : List Char)
    (h : l.Covers (offset + Text.byteLength front) before piece behind) :
    l.Covers offset (front ++ before) piece behind where
  span := by
    rw [h.span, List.append_assoc, Text.byteLength_append front, Text.byteLength_append front,
      Nat.add_assoc, Nat.add_assoc]
  ne_nil := h.ne_nil
  line := h.line
  longest := h.longest

theorem start_lt (h : l.Covers offset before piece behind) : l.span.start < l.span.stop := by
  have hpos : 0 < Text.byteLength piece :=
    Nat.pos_of_ne_zero fun hzero => h.ne_nil (Text.byteLength_eq_zero hzero)
  rw [h.span, Text.byteLength_append]
  simp only
  omega

end Lexeme.Covers

namespace Token

/-! ## Tiles -/

/-- Some lexemes and the separators between them make up a text that starts at a byte offset. The
newlines are lexemes of their own. -/
inductive Tiles : Nat → List Char → List Lexeme → Prop
  | nil (offset : Nat) : Tiles offset [] []
  | separator {offset : Nat} {c : Char} {rest : List Char} {lexemes : List Lexeme}
    (hc : c = ' ' ∨ c = '\t' ∨ c = '\r') (h : Tiles (offset + c.utf8Size) rest lexemes) :
    Tiles offset (c :: rest) lexemes
  | newline {offset : Nat} {rest : List Char} {lexemes : List Lexeme}
    (h : Tiles (offset + 1) rest lexemes) :
    Tiles offset ('\n' :: rest) (⟨.ok newline, offset, offset + 1⟩ :: lexemes)
  | piece {offset : Nat} {piece rest : List Char} {lexemes : List Lexeme}
    {result : Except LexError Token} (hpiece : piece ≠ []) (hline : '\n' ∉ piece)
    (hresult : result ≠ .ok newline) (hlongest : LongestMatch result piece rest)
    (h : Tiles (offset + Text.byteLength piece) rest lexemes) :
    Tiles offset (piece ++ rest) (⟨result, offset, offset + Text.byteLength piece⟩ :: lexemes)

theorem isSeparator_iff {c : Char} : isSeparator c = true ↔ c = ' ' ∨ c = '\t' ∨ c = '\r' := by
  unfold isSeparator
  rw [Bool.or_eq_true, Bool.or_eq_true, beq_iff_eq, beq_iff_eq, beq_iff_eq, or_assoc]

/-- No lexeme goes on beyond its line. -/
theorem not_mem_take_scan (c : Char) (rest : List Char) : '\n' ∉ rest.take (scan c rest).2 := by
  by_cases hnewline : '\n' ∈ rest
  · obtain ⟨text, behind, rfl, htext⟩ := List.eq_append_cons_of_mem hnewline
    obtain ⟨hscan, htaken⟩ := scan_line c text behind
    rw [hscan, List.take_append_of_le_length htaken]
    exact fun hmem => htext (List.mem_of_mem_take hmem)
  · exact fun hmem => hnewline (List.mem_of_mem_take hmem)

theorem tiles_lexFrom (offset : Nat) (chars : List Char) :
    Tiles offset chars (lexFrom offset chars) := by
  induction offset, chars using lexFrom.induct with
  | case1 offset =>
    rw [lexFrom]
    exact .nil offset
  | case2 offset c rest hseparator ih =>
    rw [lexFrom_separator hseparator]
    exact .separator (isSeparator_iff.mp hseparator) ih
  | case3 offset c rest hseparator result taken hscan stop ih =>
    rw [lexFrom_lexeme (eq_false_of_ne_true hseparator), hscan]
    by_cases hc : c = '\n'
    · subst hc
      obtain ⟨rfl, rfl⟩ := Prod.mk.inj hscan
      exact .newline ih
    · have htake := not_mem_take_scan c rest
      have hresult : result ≠ .ok newline := by
        rintro rfl
        exact hc (scan_newline (by rw [hscan]))
      rw [hscan] at htake
      have hline : '\n' ∉ c :: rest.take taken :=
        List.not_mem_cons_of_ne_of_not_mem (Ne.symm hc) htake
      have hlongest := longestMatch_scan c rest
      rw [hscan] at hlongest
      have hstop : stop = offset + Text.byteLength (c :: rest.take taken) := Nat.add_assoc ..
      rw [hstop] at ih
      have htiles := Tiles.piece (List.cons_ne_nil _ _) hline hresult hlongest ih
      rw [List.cons_append, List.take_append_drop, ← hstop] at htiles
      exact htiles

theorem tiles_lex (chars : List Char) : Tiles 0 chars (lex chars) := tiles_lexFrom 0 chars

namespace Tiles

variable {offset : Nat} {chars : List Char} {lexemes : List Lexeme}

theorem covers (h : Tiles offset chars lexemes) :
    ∀ l ∈ lexemes, ∃ before piece behind, chars = before ++ piece ++ behind ∧
      l.Covers offset before piece behind := by
  induction h with
  | nil => exact List.forall_mem_nil _
  | @separator _ c _ _ _ _ ih =>
    intro l hl
    obtain ⟨before, piece, behind, rfl, hl⟩ := ih l hl
    exact ⟨c :: before, piece, behind, rfl, hl.append_left [c]⟩
  | @newline offset rest _ _ ih =>
    refine List.forall_mem_cons.mpr ⟨?_, fun l hl => ?_⟩
    · exact ⟨[], ['\n'], rest, rfl, rfl, List.cons_ne_nil _ _, .inl ⟨rfl, rfl⟩,
        longestMatch_punctuation nofun rfl⟩
    · obtain ⟨before, piece, behind, rfl, hl⟩ := ih l hl
      exact ⟨'\n' :: before, piece, behind, rfl, hl.append_left ['\n']⟩
  | @piece offset piece rest _ _ hpiece hline hresult hlongest _ ih =>
    refine List.forall_mem_cons.mpr ⟨?_, fun l hl => ?_⟩
    · exact ⟨[], piece, rest, rfl, rfl, hpiece, .inr ⟨hresult, hline⟩, hlongest⟩
    · obtain ⟨before, piece', behind, rfl, hl⟩ := ih l hl
      refine ⟨piece ++ before, piece', behind, ?_, hl.append_left piece⟩
      simp only [List.append_assoc]

theorem le_start (h : Tiles offset chars lexemes) : ∀ l ∈ lexemes, offset ≤ l.span.start := by
  intro l hl
  obtain ⟨before, piece, behind, rfl, hcovers⟩ := h.covers l hl
  exact hcovers.span_covers.start_le.1

/-- Lexemes stand one behind the other. -/
theorem pairwise (h : Tiles offset chars lexemes) :
    lexemes.Pairwise fun l l' => l.span.stop ≤ l'.span.start := by
  induction h with
  | nil => exact .nil
  | separator _ _ ih => exact ih
  | newline h ih => exact .cons h.le_start ih
  | piece _ _ _ _ h ih => exact .cons h.le_start ih

/-- A character that belongs to no lexeme is a separator. -/
theorem between (h : Tiles offset chars lexemes) {before behind : List Char} {c : Char}
    (hchars : chars = before ++ c :: behind)
    (hout : ∀ l ∈ lexemes, offset + Text.byteLength before < l.span.start ∨
      l.span.stop ≤ offset + Text.byteLength before) : c = ' ' ∨ c = '\t' ∨ c = '\r' := by
  induction h generalizing before with
  | nil => exact absurd hchars.symm (List.append_ne_nil_of_right_ne_nil _ (List.cons_ne_nil _ _))
  | separator hc _ ih =>
    cases before with
    | nil =>
      obtain ⟨rfl, -⟩ := List.cons.inj hchars
      exact hc
    | cons first before =>
      obtain ⟨rfl, hrest⟩ := List.cons.inj hchars
      refine ih hrest fun l hl => ?_
      rw [Nat.add_assoc]
      exact hout l hl
  | newline _ ih =>
    obtain ⟨hfirst, hothers⟩ := List.forall_mem_cons.mp hout
    cases before with
    | nil =>
      simp only [Text.byteLength] at hfirst
      omega
    | cons first before =>
      obtain ⟨rfl, hrest⟩ := List.cons.inj hchars
      refine ih hrest fun l hl => ?_
      rw [Nat.add_assoc]
      exact hothers l hl
  | @piece offset piece rest _ _ _ _ _ _ _ ih =>
    obtain ⟨hfirst, hothers⟩ := List.forall_mem_cons.mp hout
    -- The character is behind the piece, as the piece would cover it otherwise.
    obtain ⟨more, rfl, hrest⟩ : ∃ more, before = piece ++ more ∧ rest = more ++ c :: behind := by
      rcases List.append_eq_append_iff.mp hchars with hbehind | ⟨more, rfl, hrest⟩
      · exact hbehind
      · cases more with
        | nil => exact ⟨[], by simp, hrest.symm⟩
        | cons first more =>
          have hpos := first.utf8Size_pos
          simp only [Text.byteLength_append, Text.byteLength] at hfirst
          omega
    refine ih hrest fun l hl => ?_
    rw [Nat.add_assoc, ← Text.byteLength_append]
    exact hothers l hl

/-! ## Lines -/

/-- The newlines of a text are where the lexemes of newlines are. -/
theorem newlines_eq (h : Tiles offset chars lexemes) :
    (lexemes.filter (·.result = .ok .newline)).map (·.span.start) =
      Source.newlines offset chars := by
  induction h with
  | nil => rfl
  | separator hc _ ih =>
    rw [ih, Source.newlines, if_neg]
    rintro rfl
    exact absurd hc (by decide)
  | newline _ ih =>
    rw [List.filter_cons_of_pos (by simp), List.map_cons, ih, Source.newlines, if_pos rfl]
  | piece _ hline hresult _ _ ih =>
    rw [List.filter_cons_of_neg (by simpa using hresult), ih, Source.newlines_append,
      Source.newlines_of_not_mem hline, List.nil_append]

/-- The lexemes with so many newlines before them, the newlines themselves apart. -/
def behind (newlines : List Nat) (lexemes : List Lexeme) (count : Nat) : List Lexeme :=
  lexemes.filter fun l => l.result ≠ .ok .newline ∧ newlines.countP (· < l.span.start) = count

/-- Lexemes behind a newline have one newline more before them. -/
theorem behind_newline {newlines : List Nat} {span : Span}
    (h : ∀ l ∈ lexemes, offset < l.span.start) (count : Nat) :
    behind (offset :: newlines) (⟨.ok .newline, span⟩ :: lexemes) (count + 1) =
      behind newlines lexemes count := by
  unfold behind
  rw [List.filter_cons_of_neg (by simp)]
  refine List.filter_congr fun l hl => ?_
  rw [List.countP_cons_of_pos (by simpa using h l hl)]
  exact decide_eq_decide.mpr (and_congr_right fun _ => Nat.add_right_cancel_iff)

theorem behind_newline_zero {newlines : List Nat} {span : Span}
    (h : ∀ l ∈ lexemes, offset < l.span.start) :
    behind (offset :: newlines) (⟨.ok .newline, span⟩ :: lexemes) 0 = [] := by
  unfold behind
  rw [List.filter_cons_of_neg (by simp), List.filter_eq_nil_iff]
  intro l hl
  rw [List.countP_cons_of_pos (by simpa using h l hl)]
  simp

/-- The first lexeme of a line belongs to it. -/
theorem behind_first {newlines : List Nat} {l : Lexeme} (lexemes : List Lexeme)
    (hresult : l.result ≠ .ok .newline) (h : ∀ n ∈ newlines, l.span.start ≤ n) :
    behind newlines (l :: lexemes) 0 = l :: behind newlines lexemes 0 ∧
      ∀ count,
        behind newlines (l :: lexemes) (count + 1) = behind newlines lexemes (count + 1) := by
  have hnone : newlines.countP (· < l.span.start) = 0 :=
    List.countP_eq_zero.mpr fun n hn => by simpa using h n hn
  unfold behind
  refine ⟨List.filter_cons_of_pos ?_, fun count => List.filter_cons_of_neg ?_⟩
  · rw [hnone]
    simpa using hresult
  · rw [hnone]
    simp

/-- Lexemes fall into lines by the number of newlines before them. -/
theorem splitLines_eq (h : Tiles offset chars lexemes) :
    splitLines lexemes = (List.range ((Source.newlines offset chars).length + 1)).map
      (behind (Source.newlines offset chars) lexemes) := by
  induction h with
  | nil => rfl
  | separator hc _ ih =>
    rw [ih, Source.newlines, if_neg]
    rintro rfl
    exact absurd hc (by decide)
  | @newline offset rest lexemes h ih =>
    have hstart : ∀ l ∈ lexemes, offset < l.span.start := h.le_start
    rw [splitLines_newline rfl, ih, Source.newlines, if_pos rfl, List.length_cons,
      List.range_succ_eq_map (n := _ + 1), List.map_cons, List.map_map, behind_newline_zero hstart]
    exact congrArg _ (List.map_congr_left fun count _ => (behind_newline hstart count).symm)
  | @piece offset piece rest lexemes result hpiece hline hresult hstray h ih =>
    have hnewlines : Source.newlines offset (piece ++ rest) =
        Source.newlines (offset + Text.byteLength piece) rest := by
      rw [Source.newlines_append, Source.newlines_of_not_mem hline, List.nil_append]
    have hstart : ∀ n ∈ Source.newlines (offset + Text.byteLength piece) rest, offset ≤ n :=
      fun n hn => Nat.le_trans (Nat.le_add_right _ _) (Source.le_of_mem_newlines hn).1
    let l : Lexeme := ⟨result, offset, offset + Text.byteLength piece⟩
    obtain ⟨hfirst, hothers⟩ :=
      behind_first lexemes (show l.result ≠ .ok .newline from hresult) hstart
    rw [List.range_succ_eq_map, List.map_cons, List.map_map] at ih
    rw [splitLines_cons hresult ih, hnewlines, List.range_succ_eq_map, List.map_cons, List.map_map,
      hfirst]
    exact congrArg _ (List.map_congr_left fun count _ => (hothers count).symm)

end Tiles

end Token

theorem Span.Covers.start_le_length {s : Span} {text inside : List Char}
    (h : s.Covers 0 text inside) : s.start ≤ Text.byteLength text := by
  obtain ⟨before, behind, rfl, rfl⟩ := h
  simp only [Text.byteLength_append]
  omega

/-! ## Source texts -/

namespace Source

variable {source : Source} {text : String}

/-- The line of a place in a text counts the newlines before it. -/
theorem lineOf_eq {offset : Nat} (h : offset ≤ Text.byteLength text.toList) :
    (ofString text).lineOf offset = (newlines 0 text.toList).countP (· < offset) := by
  have hbreaks : (ofString text).breaks =
      newlines 0 text.toList ++ [Text.byteLength text.toList] := rfl
  have hlast : [Text.byteLength text.toList].countP (· < offset) = 0 := by
    rw [List.countP_singleton, if_neg (by simpa using h)]
  unfold lineOf lineCount
  rw [hbreaks, List.countP_append, hlast, Nat.add_zero, List.length_append, List.length_singleton,
    Nat.add_sub_cancel]
  exact Nat.min_eq_left List.countP_le_length

section

variable {before rest : List Char}

/-- A line starts behind the last newline before a place on it. -/
theorem lineStart_le (h : text.toList = before ++ rest) :
    (ofString text).lineStart (before.count '\n') ≤ Text.byteLength before := by
  rw [← length_newlines 0 before]
  unfold lineStart
  split
  · exact Nat.zero_le _
  · next previous hlength =>
    have hlt : previous < (newlines 0 before).length := hlength ▸ Nat.lt_succ_self previous
    have hmem := (le_of_mem_newlines (List.getElem_mem hlt)).2
    rw [breaks_eq h, List.getElem?_append_left hlt, List.getElem?_eq_getElem hlt]
    show (newlines 0 before)[previous] + 1 ≤ _
    omega

/-- A piece of a line, with the newline at its end or without, is within what is read back as the
line. -/
theorem rawLine?_of_covers {s : Span} {piece : List Char}
    (h : s.Covers 0 (ofString text).chars piece) (hline : piece = ['\n'] ∨ '\n' ∉ piece) :
    ∃ raw, (ofString text).rawLine? ((ofString text).lineOf s.start) = some raw ∧
      raw.start ≤ s.start ∧ s.stop ≤ raw.stop := by
  obtain ⟨before, behind, hchars, rfl⟩ := h
  have htext : text.toList = before ++ (piece ++ behind) := by
    rw [← List.append_assoc]
    exact hchars
  have hlength : (ofString text).length = Text.byteLength (before ++ (piece ++ behind)) :=
    congrArg Text.byteLength htext
  -- The line ends at the first newline that is not before the piece, or with the text.
  obtain ⟨stop, hstop, hle⟩ : ∃ stop, (ofString text).breaks[before.count '\n']? = some stop ∧
      Text.byteLength (before ++ piece) ≤ stop + 1 := by
    rw [breaks_eq htext, ← length_newlines 0 before, List.getElem?_append_right (Nat.le_refl _),
      Nat.sub_self, Text.byteLength_append before piece]
    rcases hline with rfl | hline
    · exact ⟨Text.byteLength before, rfl, Nat.le_refl _⟩
    · rw [newlines_append, newlines_of_not_mem hline, List.nil_append]
      cases hbehind : newlines (Text.byteLength before + Text.byteLength piece) behind with
      | nil =>
        refine ⟨_, rfl, ?_⟩
        rw [Text.byteLength_append, Text.byteLength_append]
        omega
      | cons first others =>
        have hmem := (le_of_mem_newlines (hbehind ▸ List.mem_cons_self)).1
        exact ⟨first, rfl, Nat.le_succ_of_le hmem⟩
  simp only [Nat.zero_add]
  rw [lineOf_byteLength htext]
  unfold rawLine?
  rw [hstop]
  refine ⟨_, rfl, lineStart_le htext, Nat.le_min.mpr ⟨hle, ?_⟩⟩
  rw [hlength, ← List.append_assoc, Text.byteLength_append (before ++ piece)]
  exact Nat.le_add_right _ _

end

/-- The lexemes on a line, without the newline at its end. -/
def lexemesOn (s : Source) (line : Nat) : List Lexeme :=
  (Token.lex s.chars).filter fun l => l.result ≠ .ok .newline ∧ s.lineOf l.span.start = line

/-- The lexemes of a source text tile it. -/
structure TiledBy (s : Source) (lexemes : List Lexeme) : Prop where
  /-- Each lexeme covers whole characters, and at least one. -/
  covers : ∀ l ∈ lexemes, l.span.start < l.span.stop ∧ ∃ before piece behind,
    s.chars = before ++ piece ++ behind ∧ l.Covers 0 before piece behind
  ordered : lexemes.Pairwise fun l l' => l.span.stop ≤ l'.span.start
  between (before behind : List Char) (c : Char) : s.chars = before ++ c :: behind →
    (∀ l ∈ lexemes,
      Text.byteLength before < l.span.start ∨ l.span.stop ≤ Text.byteLength before) →
    c = ' ' ∨ c = '\t' ∨ c = '\r'
  newlines : (lexemes.filter (·.result = .ok .newline)).map (·.span.start) =
    Source.newlines 0 s.chars
  newlineCount : (lexemes.filter (·.result = .ok .newline)).length = s.chars.count '\n'
  /-- A lexeme is within the line that its place is counted to. -/
  onLine : ∀ l ∈ lexemes, ∃ raw, s.rawLine? (s.lineOf l.span.start) = some raw ∧
    raw.start ≤ l.span.start ∧ l.span.stop ≤ raw.stop

theorem tiledBy_lex (text : String) :
    (ofString text).TiledBy (Token.lex (ofString text).chars) := by
  have htiles := Token.tiles_lex (ofString text).chars
  exact
    { covers := fun l hl => by
        obtain ⟨before, piece, behind, hchars, hcovers⟩ := htiles.covers l hl
        exact ⟨hcovers.start_lt, before, piece, behind, hchars, hcovers⟩
      ordered := htiles.pairwise
      between := fun before behind c hchars hout =>
        htiles.between hchars (by simpa only [Nat.zero_add] using hout)
      newlines := htiles.newlines_eq
      newlineCount := by
        rw [← length_newlines 0, ← htiles.newlines_eq, List.length_map]
      onLine := fun l hl => by
        obtain ⟨before, piece, behind, hchars, hcovers⟩ := htiles.covers l hl
        refine rawLine?_of_covers ?_ (hcovers.line.imp And.right And.right)
        rw [hchars]
        exact hcovers.span_covers }

/-- The lines of the lexer are the lines that places are counted to. -/
theorem splitLines_lex (text : String) :
    splitLines (Token.lex (ofString text).chars) =
      (List.range (ofString text).lineCount).map (ofString text).lexemesOn := by
  have hcount : (ofString text).lineCount = (newlines 0 (ofString text).chars).length + 1 :=
    List.length_append
  unfold lexemesOn
  rw [(Token.tiles_lex _).splitLines_eq, hcount]
  refine List.map_congr_left fun line _ => List.filter_congr fun l hl => ?_
  obtain ⟨before, piece, behind, hchars, hcovers⟩ := (Token.tiles_lex _).covers l hl
  have hlength := hcovers.span_covers.start_le_length
  rw [← hchars] at hlength
  have hline : (ofString text).lineOf l.span.start = _ := lineOf_eq hlength
  rw [hline]
  rfl

end Source

/-- The lexemes of every source text tile it, and they fall into the lines of the text, each of
which is parsed on its own. -/
theorem lexemes_tile (text : String) :
    let source := Source.ofString text
    source.TiledBy (Token.lex source.chars) ∧
      splitLines (Token.lex source.chars) = (List.range source.lineCount).map source.lexemesOn ∧
      parseLines source.chars =
        (List.range source.lineCount).map fun line => .ofLexemes (source.lexemesOn line) := by
  intro source
  refine ⟨Source.tiledBy_lex text, Source.splitLines_lex text, ?_⟩
  unfold parseLines
  rw [Source.splitLines_lex text, List.map_map]
  rfl

end MipsLab
