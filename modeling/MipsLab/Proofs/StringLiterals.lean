import Mathlib.Data.List.DropRight
import MipsLab.Proofs.LineGrammar
import MipsLab.Proofs.Placement
import MipsLab.Proofs.LexedLines

/-!
# String literals

A string that is written as a literal is read back as it is, whatever follows its closing quote, and
a directive puts its bytes into the data segment. A literal is closed by the first quote on its line
that no backslash escapes; without one, the rest of the line is one error, and the end of the line
is read as if nothing had happened.

1. `Token.quoted`: how a string is written, and `Token.stringLiteral?_escaped`: how it is read back.
2. `Token.Closed`: the lines that close a literal, and `Token.stringLiteral?_eq_none_iff`: no other
   literal is read.
3. `Token.StartsLine`: the line that a text starts with, as `Token.restOfLine` finds it.
4. `string_literals_round_trip`: the lexemes of literals, and the bytes that stand for them.
-/

namespace MipsLab

namespace Token

variable {line ending : List Char}

/-! ## Writing strings -/

/-- How a character is written in a literal. -/
def escapeChar (c : Char) : List Char :=
  if c = '\n' then ['\\', 'n']
  else if c = '\r' then ['\\', 'r']
  else if c = '\t' then ['\\', 't']
  else if c = '\x00' then ['\\', '0']
  else if c = '\\' then ['\\', '\\']
  else if c = '"' then ['\\', '"']
  else [c]

def escaped (value : List Char) : List Char := value.flatMap escapeChar

/-- A string as a literal. -/
def quoted (s : String) : List Char := '"' :: (escaped s.toList ++ ['"'])

/-- The ways in which a character is written: behind a backslash, or as it is. Neither of them ends
a line. -/
inductive EscapedAs (c : Char) : List Char → Prop
  | escape {e : Char} (hmeant : unescape? e = some c) (hline : e ≠ '\n') : EscapedAs c ['\\', e]
  | plain (hbackslash : c ≠ '\\') (hquote : c ≠ '"') (hline : c ≠ '\n') : EscapedAs c [c]

theorem escapedAs_escapeChar (c : Char) : EscapedAs c (escapeChar c) := by
  unfold escapeChar
  split
  · next h => exact .escape (h ▸ rfl) (by decide)
  next hline =>
  split
  · next h => exact .escape (h ▸ rfl) (by decide)
  split
  · next h => exact .escape (h ▸ rfl) (by decide)
  split
  · next h => exact .escape (h ▸ rfl) (by decide)
  split
  · next h => exact .escape (by rw [h]; rfl) (by decide)
  next hbackslash =>
  split
  · next h => exact .escape (by rw [h]; rfl) (by decide)
  next hquote => exact .plain hbackslash hquote hline

theorem newline_not_mem_escaped (value : List Char) : '\n' ∉ escaped value := by
  intro h
  obtain ⟨c, -, hc⟩ := List.mem_flatMap.mp h
  have hescaped := escapedAs_escapeChar c
  generalize escapeChar c = cs at hc hescaped
  cases hescaped with
  | escape _ hline => simp [Ne.symm hline] at hc
  | plain _ _ hline => simp [Ne.symm hline] at hc

/-! ## Reading strings -/

theorem stringLiteral?_escape (e : Char) (cs : List Char) :
    stringLiteral? ('\\' :: e :: cs) = (stringLiteral? cs).map fun (value, taken) =>
      (unescapeInString e ++ value, taken + 2) := by
  rw [stringLiteral?]

theorem stringLiteral?_plain {c : Char} (hbackslash : c ≠ '\\') (hquote : c ≠ '"')
    (cs : List Char) :
    stringLiteral? (c :: cs) = (stringLiteral? cs).map fun (value, taken) =>
      (c :: value, taken + 1) := by
  rw [stringLiteral?] <;> simp [hbackslash, hquote]

/-- A string is read back with its closing quote, and nothing behind that is looked at. -/
theorem stringLiteral?_escaped (value rest : List Char) :
    stringLiteral? (escaped value ++ '"' :: rest) = some (value, (escaped value).length + 1) := by
  induction value with
  | nil => rfl
  | cons c value ih =>
    have hcons : escaped (c :: value) = escapeChar c ++ escaped value := List.flatMap_cons
    rw [hcons, List.append_assoc]
    have hwritten := escapedAs_escapeChar c
    generalize escapeChar c = cs at hwritten ⊢
    cases hwritten with
    | escape hmeant _ =>
      rw [List.cons_append, List.cons_append, List.nil_append, stringLiteral?_escape, ih]
      simp [unescapeInString, hmeant]
    | plain hbackslash hquote _ =>
      rw [List.cons_append, List.nil_append, stringLiteral?_plain hbackslash hquote, ih]
      simp

/-! ## Quotes that close a literal -/

/-- The backslashes that stand right before what follows a text. -/
def backslashes (before : List Char) : Nat := (before.rtakeWhile (· == '\\')).length

/-- What follows a text is escaped if an odd number of backslashes stand right before it. -/
def Escapes (before : List Char) : Prop := backslashes before % 2 = 1

instance (before : List Char) : Decidable (Escapes before) :=
  inferInstanceAs (Decidable (_ = _))

/-- A line closes a literal if one of its quotes is not escaped. The line starts behind the opening
quote. -/
def Closed (line : List Char) : Prop :=
  ∃ before behind, line = before ++ '"' :: behind ∧ ¬Escapes before

theorem backslashes_cons (c : Char) (before : List Char) :
    backslashes (c :: before) =
      if backslashes before = before.length ∧ c = '\\' then before.length + 1
      else backslashes before := by
  unfold backslashes List.rtakeWhile
  rw [List.reverse_cons, List.takeWhile_append, List.length_reverse, List.length_reverse,
    List.length_reverse]
  by_cases hall : (before.reverse.takeWhile (· == '\\')).length = before.length
  · rw [if_pos hall]
    by_cases hc : c = '\\'
    · rw [if_pos ⟨hall, hc⟩, hc]
      simp
    · rw [if_neg fun h => hc h.2, hall]
      simp [hc]
  · rw [if_neg hall, if_neg fun h => hall h.1]

theorem escapes_plain {c : Char} (hc : c ≠ '\\') (before : List Char) :
    Escapes (c :: before) ↔ Escapes before := by
  unfold Escapes
  rw [backslashes_cons, if_neg fun h => hc h.2]

theorem backslashes_le (before : List Char) : backslashes before ≤ before.length :=
  (List.rtakeWhile_suffix _ _).length_le

/-- A backslash and the character that it escapes do not matter for what is behind them. -/
theorem escapes_escape (e : Char) (before : List Char) :
    Escapes ('\\' :: e :: before) ↔ Escapes before := by
  have hle := backslashes_le before
  unfold Escapes
  rw [backslashes_cons, backslashes_cons, List.length_cons]
  by_cases hrun : backslashes before = before.length ∧ e = '\\'
  · rw [if_pos hrun, if_pos ⟨rfl, rfl⟩, hrun.1]
    omega
  · rw [if_neg hrun, if_neg fun h => by omega]

theorem not_closed_nil : ¬Closed [] := by
  rintro ⟨before, behind, h, -⟩
  simp at h

theorem not_closed_backslash : ¬Closed ['\\'] := by
  rintro ⟨before, behind, h, -⟩
  rcases List.cons_eq_append_iff.mp h with ⟨rfl, h⟩ | ⟨before', rfl, h⟩
  · simp at h
  · simp at h

theorem closed_quote (behind : List Char) : Closed ('"' :: behind) :=
  ⟨[], behind, rfl, by decide⟩

theorem closed_plain {c : Char} (hbackslash : c ≠ '\\') (hquote : c ≠ '"') :
    Closed (c :: line) ↔ Closed line := by
  constructor
  · rintro ⟨before, behind, h, hescapes⟩
    rcases List.cons_eq_append_iff.mp h with ⟨rfl, hfirst⟩ | ⟨before, rfl, rfl⟩
    · exact absurd (List.cons.inj hfirst).1.symm hquote
    · exact ⟨before, behind, rfl, fun h => hescapes ((escapes_plain hbackslash before).mpr h)⟩
  · rintro ⟨before, behind, rfl, hescapes⟩
    exact ⟨c :: before, behind, rfl, fun h => hescapes ((escapes_plain hbackslash before).mp h)⟩

/-- A quote behind a backslash closes nothing. -/
theorem closed_escape (e : Char) : Closed ('\\' :: e :: line) ↔ Closed line := by
  constructor
  · rintro ⟨before, behind, h, hescapes⟩
    rcases List.cons_eq_append_iff.mp h with ⟨rfl, hfirst⟩ | ⟨before, rfl, htail⟩
    · exact absurd (List.cons.inj hfirst).1 (by decide)
    rcases List.cons_eq_append_iff.mp htail with ⟨rfl, -⟩ | ⟨before, rfl, rfl⟩
    · exact absurd (by decide) hescapes
    · exact ⟨before, behind, rfl, fun h => hescapes ((escapes_escape e before).mpr h)⟩
  · rintro ⟨before, behind, rfl, hescapes⟩
    exact ⟨'\\' :: e :: before, behind, rfl, fun h => hescapes ((escapes_escape e before).mp h)⟩

/-- The reader of literals finds no closing quote exactly if there is none. -/
theorem stringLiteral?_eq_none_iff (line : List Char) :
    stringLiteral? line = none ↔ ¬Closed line := by
  fun_induction stringLiteral? line with
  | case1 => simp [not_closed_nil]
  | case2 => simp [not_closed_backslash]
  | case3 e cs ih => rw [Option.map_eq_none_iff, ih, closed_escape]
  | case4 cs => simp [closed_quote]
  | case5 c cs hlast hescape hquote ih =>
    have hbackslash : c ≠ '\\' := by
      rintro rfl
      cases cs with
      | nil => exact hlast rfl rfl
      | cons e cs => exact hescape e cs rfl rfl
    rw [Option.map_eq_none_iff, ih, closed_plain hbackslash hquote]

instance (line : List Char) : Decidable (Closed line) :=
  decidable_of_iff ((stringLiteral? line).isSome = true) (by
    rw [Option.isSome_iff_ne_none, ne_eq, stringLiteral?_eq_none_iff, not_not])

/-! ## The line of a literal -/

/-- A text starts with a line, and the ending behind the line is all of the rest: nothing, or a
newline with a carriage return before it if there is one, and what follows them. -/
inductive StartsLine : List Char → List Char → List Char → Prop
  | last {line : List Char} (hline : '\n' ∉ line) : StartsLine line line []
  | newline {line : List Char} (hline : '\n' ∉ line) (hreturn : line.getLast? ≠ some '\r')
    (rest : List Char) : StartsLine (line ++ '\n' :: rest) line ('\n' :: rest)
  | returnNewline {line : List Char} (hline : '\n' ∉ line) (rest : List Char) :
    StartsLine (line ++ '\r' :: '\n' :: rest) line ('\r' :: '\n' :: rest)

/-- Characters that do not end a line belong to it. -/
theorem restOfLine_append (ending : List Char) (hline : '\n' ∉ line)
    (hreturn : line.getLast? = some '\r' → ending.head? ≠ some '\n') :
    restOfLine (line ++ ending) = line ++ restOfLine ending := by
  induction line with
  | nil => rfl
  | cons c line ih =>
    have hnot : ¬(c = '\n' ∨ c = '\r' ∧ (line ++ ending).head? = some '\n') := by
      rintro (rfl | ⟨rfl, hhead⟩)
      · exact hline List.mem_cons_self
      · cases line with
        | nil => exact hreturn rfl hhead
        | cons d line =>
          obtain rfl := Option.some.inj hhead
          exact hline (List.mem_cons_of_mem _ List.mem_cons_self)
    rw [List.cons_append, restOfLine_cons, if_neg hnot, List.cons_append,
      ih (List.not_mem_of_not_mem_cons hline) fun hlast => hreturn ?_]
    rw [List.getLast?_cons, hlast, Option.getD_some]

theorem StartsLine.restOfLine_eq {text : List Char} (h : StartsLine text line ending) :
    restOfLine text = line ∧ text = line ++ ending := by
  cases h with
  | last hline =>
    have h := restOfLine_append [] hline fun _ => nofun
    simp only [List.append_nil, restOfLine] at h
    exact ⟨h, (List.append_nil _).symm⟩
  | newline hline hreturn rest =>
    have h := restOfLine_append ('\n' :: rest) hline fun hlast => absurd hlast hreturn
    exact ⟨h.trans (List.append_nil line), rfl⟩
  | returnNewline hline rest =>
    have h := restOfLine_append ('\r' :: '\n' :: rest) hline fun _ => by simp
    exact ⟨h.trans (List.append_nil line), rfl⟩

theorem exists_startsLine (text : List Char) : ∃ line ending, StartsLine text line ending := by
  by_cases hnewline : '\n' ∈ text
  · obtain ⟨line, rest, rfl, hline⟩ := List.eq_append_cons_of_mem hnewline
    by_cases hreturn : line.getLast? = some '\r'
    · obtain ⟨before, rfl⟩ := List.getLast?_eq_some_iff.mp hreturn
      refine ⟨before, '\r' :: '\n' :: rest, ?_⟩
      rw [List.append_assoc]
      exact .returnNewline (fun h => hline (List.mem_append_left _ h)) rest
    · exact ⟨line, '\n' :: rest, .newline hline hreturn rest⟩
  · exact ⟨text, [], .last hnewline⟩

/-! ## Lexemes of literals -/

/-- A written string is one lexeme, wherever it is found. -/
theorem lexFrom_quoted (s : String) (offset : Nat) (rest : List Char) :
    lexFrom offset (quoted s ++ rest) =
      ⟨.ok (string s), offset, offset + Text.byteLength (quoted s)⟩ ::
        lexFrom (offset + Text.byteLength (quoted s)) rest := by
  have hcons : quoted s ++ rest = '"' :: (escaped s.toList ++ ['"'] ++ rest) := rfl
  have hline : '\n' ∉ escaped s.toList ++ ['"'] := by
    simp [newline_not_mem_escaped]
  have hrest := restOfLine_append rest hline fun hlast => by simp at hlast
  have hscan : scan '"' (escaped s.toList ++ ['"'] ++ rest) =
      (.ok (string s), (escaped s.toList ++ ['"']).length) := by
    rw [scan_quote, hrest, List.append_assoc, List.singleton_append, stringLiteral?_escaped]
    simp [String.ofList_toList]
  rw [hcons, lexFrom_lexeme (by decide), hscan, List.take_left, List.drop_left, Nat.add_assoc]
  rfl

/-- A literal that its line does not close is an error up to the end of the line. -/
theorem lexFrom_unclosed {text : List Char} (hline : StartsLine text line ending)
    (hclosed : ¬Closed line) (offset : Nat) :
    lexFrom offset ('"' :: text) =
      ⟨.error .unclosedString, offset, offset + Text.byteLength ('"' :: line)⟩ ::
        lexFrom (offset + Text.byteLength ('"' :: line)) ending := by
  obtain ⟨hrest, rfl⟩ := hline.restOfLine_eq
  have hscan : scan '"' (line ++ ending) = (.error .unclosedString, line.length) := by
    rw [scan_quote, hrest, (stringLiteral?_eq_none_iff line).mpr hclosed]
  rw [lexFrom_lexeme (by decide), hscan, List.take_left, List.drop_left, Nat.add_assoc]
  rfl

/-- The name of a directive in front of a literal. -/
theorem lexFrom_asciiz (offset : Nat) (rest : List Char) :
    lexFrom offset (".asciiz ".toList ++ rest) =
      ⟨.ok (directive "asciiz"), offset, offset + 7⟩ :: lexFrom (offset + 8) rest := by
  have hcons : ".asciiz ".toList ++ rest = '.' :: ("asciiz".toList ++ ' ' :: rest) := rfl
  have hname : ("asciiz".toList ++ ' ' :: rest).takeWhile Text.isWord = "asciiz".toList :=
    takeWhile_of_head (List.all_eq_true.mp (by decide)) (by simp; decide)
  have hscan : scan '.' ("asciiz".toList ++ ' ' :: rest) = (.ok (directive "asciiz"), 6) := by
    unfold scan
    rw [hname]
    rfl
  rw [hcons, lexFrom_lexeme (by decide), hscan]
  exact congrArg _ (lexFrom_separator (by decide) _ rest)

end Token

/-! ## What a literal stands for -/

/-- A string is the same as a literal of a source text and as bytes of the data segment. -/
structure StringLiteral (s : String) : Prop where
  /-- The literal is one lexeme wherever it is found, and what follows it is read on its own. -/
  lexeme : ∀ offset rest, Token.lexFrom offset (Token.quoted s ++ rest) =
    ⟨.ok (.string s), offset, offset + Text.byteLength (Token.quoted s)⟩ ::
      Token.lexFrom (offset + Text.byteLength (Token.quoted s)) rest
  /-- A line that consists of the directive and the literal. -/
  line : ∀ offset, ParsedLine.ofLexemes
      (Token.lexFrom offset (".asciiz ".toList ++ Token.quoted s)) =
    { labels := []
      body := some (.directive (.asciiz s),
        ⟨offset, offset + Text.byteLength (".asciiz ".toList ++ Token.quoted s)⟩) }
  /-- The directive can always be resolved, to the bytes of the string and a zero. -/
  bytes : ∀ symbols, (Directive.asciiz s).bytes symbols = .ok (Bytes.utf8 s ++ [0])
  /-- It takes as much room as it has bytes. -/
  count : (Directive.asciiz s).byteCount = (Bytes.utf8 s ++ [0]).length ∧
    (Directive.asciiz s).byteCount = Text.byteLength s.toList + 1
  /-- These bytes are what a program has where the directive is put. -/
  data : ∀ statements source before t address, Emits statements source before t address →
    t.body = some (.directive (.asciiz s)) →
    let p := (Program.ofStatements statements source).1
    Segment.data.start ≤ address ∧
      Bytes.slice p.data (address - Segment.data.start) (Directive.asciiz s).byteCount =
        Bytes.utf8 s ++ [0]

theorem stringLiteral (s : String) : StringLiteral s where
  lexeme := Token.lexFrom_quoted s
  line offset := by
    have hquoted := Token.lexFrom_quoted s (offset + 8) []
    rw [List.append_nil, Token.lexFrom] at hquoted
    rw [Token.lexFrom_asciiz, hquoted, Text.byteLength_append, ← Nat.add_assoc]
    rfl
  bytes _ := rfl
  count := by
    refine ⟨?_, rfl⟩
    rw [List.length_append, Bytes.utf8_length]
    rfl
  data statements source before t address hemits hbody := by
    obtain ⟨hstart, -, hslice⟩ := hemits.data hbody rfl
    exact ⟨hstart, hslice⟩

/-- Every string is read back from its literal, whatever follows it, and a directive puts its bytes
into the data segment. A literal that its line does not close is one error, which ends where the
line ends. -/
theorem string_literals_round_trip :
    (∀ s, StringLiteral s) ∧
      (∀ text, ∃ line ending, Token.StartsLine text line ending) ∧
      ∀ offset text line ending, Token.StartsLine text line ending → ¬Token.Closed line →
        Token.lexFrom offset ('"' :: text) =
          ⟨.error .unclosedString, offset, offset + Text.byteLength ('"' :: line)⟩ ::
            Token.lexFrom (offset + Text.byteLength ('"' :: line)) ending :=
  ⟨stringLiteral, Token.exists_startsLine,
    fun offset _ _ _ hline hclosed => Token.lexFrom_unclosed hline hclosed offset⟩

/-- A string of two characters and a byte that ends it, and a literal that ends with an escaped
quote, in front of a carriage return and a newline. -/
theorem string_literals_round_trip_escapes :
    let source : Source := .ofString ".data\n.asciiz \"é\\n\""
    let start : Statement := ⟨[], some (.directive .data), ⟨0, 5⟩⟩
    let line := "ab\\\"".toList
    let ending := "\r\nnop".toList
    Emits (parse source.chars).1 source [start]
        ⟨[], some (.directive (.asciiz "é\n")), ⟨6, 20⟩⟩ 0x10010000 ∧
      Bytes.slice (Program.ofStatements (parse source.chars).1 source).1.data 0 4 =
        [0xC3, 0xA9, 0x0A, 0] ∧
      Token.StartsLine (line ++ ending) line ending ∧ ¬Token.Closed line ∧
      Token.lexFrom 3 ('"' :: (line ++ ending)) =
        ⟨.error .unclosedString, 3, 8⟩ :: Token.lexFrom 8 ending := by
  intro source start line ending
  obtain ⟨hliteral, -, hunclosed⟩ := string_literals_round_trip
  have hemits : Emits (parse source.chars).1 source [start]
      ⟨[], some (.directive (.asciiz "é\n")), ⟨6, 20⟩⟩ 0x10010000 :=
    ⟨by decide +kernel, by decide +kernel⟩
  obtain ⟨-, hslice⟩ := (hliteral "é\n").data _ _ _ _ _ hemits rfl
  have hline : Token.StartsLine (line ++ ending) line ending :=
    .returnNewline (by decide) "nop".toList
  have hclosed : ¬Token.Closed line := by decide
  exact ⟨hemits, hslice.trans (by decide), hline, hclosed, hunclosed 3 _ _ _ hline hclosed⟩

end MipsLab
