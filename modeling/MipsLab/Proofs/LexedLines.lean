import MipsLab.Proofs.Shifting
import MipsLab.Proofs.TokenPatterns

/-!
# Lexing line by line

No lexeme goes on beyond its line, and how a line is lexed does not depend on what follows it,
although the literals look ahead. So the lexemes of a text are those of its lines, further down by
the bytes of the lines before.

1. `Token.scanned_scan`, `Token.scan_line`: one lexeme, in whatever text its line stands.
   `Token.longestMatch_scan`: it is the longest one there.
2. `Token.LexedIn`: lexemes that stand in a text.
3. `Token.lexFrom_line`: a line and what follows it. `Token.mem_lexFrom`: where a lexeme is found.
4. `Token.lexFrom_shiftBy`: a text further down.
-/

namespace MipsLab

namespace Token

variable {text : List Char}

/-! ## Looking ahead -/

/-- A name or number ends with its line at the latest. -/
theorem takeWhile_line {p : Char → Bool} (hp : p '\n' = false) (text rest : List Char) :
    (text ++ '\n' :: rest).takeWhile p = text.takeWhile p := by
  induction text with
  | nil => simp [hp]
  | cons c text ih =>
    rw [List.cons_append, List.takeWhile_cons, List.takeWhile_cons, ih]

theorem restOfLine_cons (c : Char) (cs : List Char) :
    restOfLine (c :: cs) =
      if c = '\n' ∨ c = '\r' ∧ cs.head? = some '\n' then [] else c :: restOfLine cs := by
  rw [restOfLine.eq_def]
  split
  · next h => exact nomatch h
  · next h =>
    obtain ⟨rfl, -⟩ := List.cons.inj h
    simp
  · next h =>
    obtain ⟨rfl, rfl⟩ := List.cons.inj h
    simp
  · next c' cs' hnewline hreturn h =>
    obtain ⟨rfl, rfl⟩ := List.cons.inj h
    rw [if_neg]
    rintro (rfl | ⟨rfl, hhead⟩)
    · exact hnewline rfl
    · obtain ⟨behind, rfl⟩ := List.head?_eq_some_iff.mp hhead
      exact hreturn behind rfl rfl

theorem restOfLine_line (text rest : List Char) :
    restOfLine (text ++ '\n' :: rest) = restOfLine (text ++ ['\n']) := by
  induction text with
  | nil => rfl
  | cons c text ih =>
    rw [List.cons_append, List.cons_append, restOfLine_cons, restOfLine_cons, ih, List.head?_append,
      List.head?_append]
    rfl

theorem length_restOfLine_line (text : List Char) :
    (restOfLine (text ++ ['\n'])).length ≤ text.length := by
  induction text with
  | nil => exact Nat.le_refl _
  | cons c text ih =>
    rw [List.cons_append, restOfLine_cons]
    split
    · exact Nat.zero_le _
    · exact Nat.succ_le_succ ih

/-- The end of a line is no part of a character literal, not even behind a backslash. -/
theorem charLiteral?_line (text rest : List Char) :
    charLiteral? (text ++ '\n' :: rest) = charLiteral? (text ++ ['\n']) := by
  match text with
  | [] =>
    cases rest with
    | nil => rfl
    | cons b rest =>
      rw [List.nil_append, charLiteral?_cons]
      simp [charLiteral?]
  | [a] =>
    have hnone (rest : List Char) : charLiteral? (a :: '\n' :: rest) = none := by
      rw [charLiteral?_cons]
      simp [unescape?]
    exact (hnone rest).trans (hnone []).symm
  | a :: b :: text =>
    simp only [List.cons_append, charLiteral?_cons, List.head?_append]
    rfl

/-- A character literal ends with a quote. -/
theorem charLiteral?_quote {cs : List Char} {c : Char} {taken : Nat}
    (h : charLiteral? cs = some (c, taken)) :
    ∃ before, taken = before + 1 ∧ cs[before]? = some '\x27' := by
  match cs with
  | [] => exact nomatch h
  | [a] => exact nomatch (charLiteral?_singleton a).symm.trans h
  | a :: b :: cs =>
    rw [charLiteral?_cons] at h
    split at h
    · split at h
      · next hquote =>
        obtain ⟨meant, -, heq⟩ := Option.map_eq_some_iff.mp h
        obtain ⟨-, rfl⟩ := Prod.mk.inj heq
        exact ⟨2, rfl, by rwa [List.head?_eq_getElem?] at hquote⟩
      · exact nomatch h
    · split at h
      · next hquote =>
        split at h
        · exact nomatch h
        · obtain ⟨-, rfl⟩ := Prod.mk.inj (Option.some.inj h)
          exact ⟨1, rfl, congrArg some hquote⟩
      · exact nomatch h

theorem charLiteral?_taken_line {c : Char} {taken : Nat}
    (h : charLiteral? (text ++ ['\n']) = some (c, taken)) : taken ≤ text.length := by
  obtain ⟨before, rfl, hquote⟩ := charLiteral?_quote h
  by_contra hnot
  have hend : (text ++ ['\n'])[before]? = ['\n'][before - text.length]? :=
    List.getElem?_append_right (by omega)
  rw [hend] at hquote
  obtain hmem := List.mem_of_getElem? hquote
  exact absurd (List.mem_singleton.mp hmem) (by decide)

/-! ## One lexeme -/

/-- A result that does not end a line, is not a name and is not a character without a meaning. -/
structure Plain (result : Except LexError Token) : Prop where
  ne_newline : result ≠ .ok newline
  ne_identifier : ∀ name, result ≠ .ok (identifier name)
  ne_stray : result ≠ .error .strayCharacter

theorem readMagnitude_ne_stray (kind : Signedness) (cs : List Char) :
    readMagnitude kind cs ≠ .error .strayCharacter := by
  unfold readMagnitude
  split
  next base digits whenBad whenEmpty hkind =>
    have herrors : whenBad ≠ .strayCharacter ∧ whenEmpty ≠ .strayCharacter := by
      split at hkind <;> cases hkind <;> exact ⟨nofun, nofun⟩
    split
    · exact nofun
    · exact fun h => herrors.2 (Except.error.inj h)
    · exact fun h => herrors.1 (Except.error.inj h)
    · exact nofun

theorem plain_readUnsigned (cs : List Char) : Plain (readUnsigned cs) := by
  have hstray := readMagnitude_ne_stray .unsigned cs
  unfold readUnsigned
  cases hread : readMagnitude .unsigned cs with
  | error e => exact ⟨nofun, nofun, fun h => hstray (hread.trans (congrArg _ (Except.error.inj h)))⟩
  | ok n => exact ⟨nofun, nofun, nofun⟩

theorem plain_readNegative (cs : List Char) : Plain (readNegative cs) := by
  have hstray := readMagnitude_ne_stray .signed cs
  unfold readNegative
  cases hread : readMagnitude .signed cs with
  | error e => exact ⟨nofun, nofun, fun h => hstray (hread.trans (congrArg _ (Except.error.inj h)))⟩
  | ok n =>
    exact iteInduction (fun _ => ⟨nofun, nofun, nofun⟩) fun _ => ⟨nofun, nofun, nofun⟩

/-- What may be found at a character, with the number of characters behind it that belong to it. -/
inductive Scanned (c : Char) (rest : List Char) : Except LexError Token × Nat → Prop
  | newline (hc : c = '\n') : Scanned c rest (.ok newline, 0)
  | punctuation {result : Except LexError Token} (hstarts : Pattern.punctuation.starts c = true)
    (h : Plain result) : Scanned c rest (result, 0)
  | word {result : Except LexError Token} {p : Pattern} (hstarts : p.starts c = true)
    (hneeds : p.needs (rest.takeWhile p.goesOn) = true) (h : Plain result) :
    Scanned c rest (result, (rest.takeWhile p.goesOn).length)
  | string {result : Except LexError Token} {taken : Nat} (hc : c = '"')
    (htaken : taken ≤ (restOfLine rest).length) (h : Plain result) : Scanned c rest (result, taken)
  | character {result : Except LexError Token} {value : Char} {taken : Nat} (hc : c = '\x27')
    (hliteral : charLiteral? rest = some (value, taken)) (h : Plain result) :
    Scanned c rest (result, taken)
  | badCharacter (hc : c = '\x27') : Scanned c rest (.error .badCharacter, 0)
  | name (hstarts : Text.isNameStart c = true) :
    Scanned c rest (.ok (identifier (String.ofList (c :: rest.takeWhile continuesName))),
      (rest.takeWhile continuesName).length)
  | stray (h : ∀ p : Pattern, p.starts c = true → p.needs (rest.takeWhile p.goesOn) = false) :
    Scanned c rest (.error .strayCharacter, 0)

/-- A mark that has to be followed by a character of some kind. -/
theorem scanned_needed {c : Char} {rest : List Char} {p : Pattern} (kind : Char → Bool)
    {result : Except LexError Token} (hstarts : p.starts c = true)
    (hneeds : ∀ text, p.needs text = text.head?.any kind) (h : Plain result) :
    Scanned c rest
      (if ((rest.takeWhile p.goesOn).head?.map kind).getD false then
        (result, (rest.takeWhile p.goesOn).length)
      else (.error .strayCharacter, 0)) := by
  have hany : ((rest.takeWhile p.goesOn).head?.map kind).getD false =
      p.needs (rest.takeWhile p.goesOn) := by
    rw [hneeds]
    cases (rest.takeWhile p.goesOn).head? <;> rfl
  rw [hany]
  split
  · next htrue => exact .word hstarts htrue h
  · next hfalse =>
    refine .stray fun q hq => ?_
    obtain rfl := Pattern.starts_inj hstarts hq
    exact eq_false_of_ne_true hfalse

theorem scanned_scan (c : Char) (rest : List Char) : Scanned c rest (scan c rest) := by
  simp only [scan]
  -- The kinds of lexemes, in the order in which the first character is looked at.
  refine iteInduction (fun hc => .punctuation (hc ▸ rfl) ⟨nofun, nofun, nofun⟩) fun hcolon => ?_
  refine iteInduction (fun hc => .punctuation (hc ▸ rfl) ⟨nofun, nofun, nofun⟩) fun hcomma => ?_
  refine iteInduction (fun hc => .punctuation (hc ▸ rfl) ⟨nofun, nofun, nofun⟩) fun hleft => ?_
  refine iteInduction (fun hc => .punctuation (hc ▸ rfl) ⟨nofun, nofun, nofun⟩) fun hright => ?_
  refine iteInduction (fun hc => .punctuation (hc ▸ rfl) ⟨nofun, nofun, nofun⟩) fun hplus => ?_
  refine iteInduction (fun hc => .newline hc) fun hnewline => ?_
  refine iteInduction (fun hc => ?_) fun hhash => ?_
  · exact .word (p := .comment) (hc ▸ rfl) rfl ⟨nofun, nofun, nofun⟩
  refine iteInduction (fun hc => ?_) fun _ => ?_
  · split
    · next value taken hliteral =>
      exact .string hc (stringLiteral?_taken hliteral) ⟨nofun, nofun, nofun⟩
    · exact .string hc (Nat.le_refl _) ⟨nofun, nofun, nofun⟩
  refine iteInduction (fun hc => ?_) fun _ => ?_
  · split
    · next value taken hliteral => exact .character hc hliteral ⟨nofun, nofun, nofun⟩
    · exact .badCharacter hc
  refine iteInduction (fun hc => ?_) fun hdollar => ?_
  · have hstarts : Pattern.register.starts c = true := hc ▸ rfl
    split <;> exact .word (p := .register) hstarts rfl ⟨nofun, nofun, nofun⟩
  refine iteInduction (fun hc => ?_) fun hminus => ?_
  · exact scanned_needed (p := .negative) Text.isDigit (hc ▸ rfl) (fun _ => rfl)
      (plain_readNegative _)
  refine iteInduction (fun hc => ?_) fun hdot => ?_
  · exact scanned_needed (p := .directive) Text.isNameStart (hc ▸ rfl) (fun _ => rfl)
      ⟨nofun, nofun, nofun⟩
  refine iteInduction (fun hc => ?_) fun hdigit => ?_
  · exact .word (p := .unsigned) hc rfl (plain_readUnsigned _)
  refine iteInduction (fun hc => .name hc) fun hname => .stray fun p hp => ?_
  have hnone : Pattern.ofStart? c = none := by
    simp [Pattern.ofStart?, hcolon, hcomma, hleft, hright, hplus, hnewline, hhash, hdollar, hminus,
      hdot, hdigit, hname]
  exact nomatch hnone.symm.trans (Pattern.ofStart?_of_starts hp)

/-- What is looked at to find a lexeme bounds it. -/
theorem Scanned.taken_le {c : Char} {rest : List Char} {found : Except LexError Token × Nat}
    (h : Scanned c rest found) {length : Nat}
    (hword : ∀ p : Pattern, (rest.takeWhile p.goesOn).length ≤ length)
    (hline : (restOfLine rest).length ≤ length)
    (hchar : ∀ value taken, charLiteral? rest = some (value, taken) → taken ≤ length) :
    found.2 ≤ length := by
  cases h with
  | newline | punctuation | badCharacter | stray => exact Nat.zero_le _
  | word => exact hword _
  | string _ htaken => exact Nat.le_trans htaken hline
  | character _ hliteral => exact hchar _ _ hliteral
  | name => exact hword .name

/-- What is found is the longest that may be found there, or what is read behind a quote. -/
theorem longestMatch_scan (c : Char) (rest : List Char) :
    LongestMatch (scan c rest).1 (c :: rest.take (scan c rest).2)
      (rest.drop (scan c rest).2) := by
  have hscanned := scanned_scan c rest
  have hmove (hc : c = '"' ∨ c = '\x27') := literalMove?_eq hc rest
  generalize scan c rest = found at hscanned hmove ⊢
  cases hscanned with
  | newline hc => exact longestMatch_punctuation nofun (by rw [hc]; rfl)
  | punctuation hstarts hplain => exact longestMatch_punctuation hplain.ne_stray hstarts
  | word hstarts hneeds hplain => exact longestMatch_of_starts hplain.ne_stray hstarts hneeds
  | string hc => exact longestMatch_quoted (.inl hc) (hmove (.inl hc))
  | character hc | badCharacter hc => exact longestMatch_quoted (.inr hc) (hmove (.inr hc))
  | name hstarts => exact longestMatch_of_starts (p := .name) nofun hstarts rfl
  | stray h => exact longestMatch_stray h

/-- Only the end of a line is read as one. -/
theorem scan_newline {c : Char} {rest : List Char} (h : (scan c rest).1 = .ok newline) :
    c = '\n' := by
  have hscanned := scanned_scan c rest
  generalize scan c rest = found at h hscanned
  cases hscanned with
  | newline hc => exact hc
  | punctuation _ hplain | word _ _ hplain | string _ _ hplain | character _ _ hplain =>
    exact absurd h hplain.ne_newline
  | badCharacter | name | stray => exact nomatch h

/-- A lexeme is found within its line, whatever follows the line. -/
theorem scan_line (c : Char) (text rest : List Char) :
    scan c (text ++ '\n' :: rest) = scan c (text ++ ['\n']) ∧
      (scan c (text ++ ['\n'])).2 ≤ text.length := by
  have hword : Text.isWord '\n' = false := by decide
  have hname : continuesName '\n' = false := by decide
  constructor
  · simp only [scan, takeWhile_line hword, takeWhile_line hname,
      takeWhile_line (p := (· != '\n')) rfl, charLiteral?_line text rest, restOfLine_line text rest]
  · refine (scanned_scan c _).taken_le (fun p => ?_) (length_restOfLine_line text)
      fun value taken => charLiteral?_taken_line
    rw [takeWhile_line p.goesOn_newline]
    exact (List.takeWhile_sublist _).length_le

/-- A name that is found is all of its lexeme. -/
theorem scan_name (c : Char) (rest : List Char) (name : String)
    (h : (scan c rest).1 = .ok (identifier name)) :
    name.toList = c :: rest.take (scan c rest).2 := by
  have hscanned := scanned_scan c rest
  generalize scan c rest = found at h hscanned ⊢
  cases hscanned with
  | newline | badCharacter | stray => exact nomatch h
  | punctuation _ hplain | word _ _ hplain | string _ _ hplain | character _ _ hplain =>
    exact absurd h (hplain.ne_identifier name)
  | name =>
    obtain rfl := identifier.inj (Except.ok.inj h)
    rw [String.toList_ofList, ← List.prefix_iff_eq_take.mp (List.takeWhile_prefix continuesName)]

/-! ## Where lexemes stand -/

/-- Some lexemes stand in a text that starts at a byte offset, one behind the other. None of them is
empty, and a name is all that its lexeme covers. -/
inductive LexedIn : Nat → List Char → List Lexeme → Prop
  | nil (offset : Nat) (text : List Char) : LexedIn offset text []
  | skip {offset : Nat} (c : Char) {rest : List Char} {lexemes : List Lexeme}
    (h : LexedIn (offset + c.utf8Size) rest lexemes) : LexedIn offset (c :: rest) lexemes
  | lexeme {offset : Nat} {piece rest : List Char} {lexemes : List Lexeme}
    {result : Except LexError Token} (hpiece : piece ≠ [])
    (hname : ∀ name, result = .ok (identifier name) → name.toList = piece)
    (h : LexedIn (offset + Text.byteLength piece) rest lexemes) :
    LexedIn offset (piece ++ rest)
      (⟨result, offset, offset + Text.byteLength piece⟩ :: lexemes)

/-- The lexeme at the start of a text, and the others. -/
theorem lexedIn_scan {offset taken : Nat} {c : Char} {cs : List Char}
    {result : Except LexError Token} {lexemes : List Lexeme}
    (hname : ∀ name, result = .ok (identifier name) → name.toList = c :: cs.take taken)
    (h : LexedIn (offset + c.utf8Size + Text.byteLength (cs.take taken)) (cs.drop taken) lexemes) :
    LexedIn offset (c :: cs)
      (⟨result, offset, offset + c.utf8Size + Text.byteLength (cs.take taken)⟩ :: lexemes) := by
  rw [Nat.add_assoc] at h ⊢
  have hpiece : c :: cs.take taken ≠ [] := List.cons_ne_nil _ _
  have hall := LexedIn.lexeme hpiece hname h
  rwa [List.cons_append, List.take_append_drop] at hall

theorem lexFrom_lexedIn (offset : Nat) (cs : List Char) :
    LexedIn offset cs (lexFrom offset cs) := by
  induction offset, cs using lexFrom.induct with
  | case1 offset =>
    rw [lexFrom]
    exact .nil offset []
  | case2 offset c rest hseparator ih =>
    rw [lexFrom_separator hseparator]
    exact .skip c ih
  | case3 offset c rest hseparator result taken hscan stop ih =>
    rw [lexFrom_lexeme (eq_false_of_ne_true hseparator)]
    have hname := scan_name c rest
    rw [hscan] at hname ⊢
    exact lexedIn_scan hname ih

/-- A lexeme of a text is what is found at its place. -/
theorem mem_lexFrom {l : Lexeme} (offset : Nat) (chars : List Char) (h : l ∈ lexFrom offset chars) :
    ∃ before c rest, chars = before ++ c :: rest ∧ l.result = (scan c rest).1 ∧
      l.span = ⟨offset + Text.byteLength before,
        offset + Text.byteLength (before ++ c :: rest.take (scan c rest).2)⟩ := by
  induction offset, chars using lexFrom.induct with
  | case1 offset =>
    rw [lexFrom] at h
    exact absurd h List.not_mem_nil
  | case2 offset c rest hseparator ih =>
    rw [lexFrom_separator hseparator] at h
    obtain ⟨before, d, behind, rfl, hresult, hspan⟩ := ih h
    refine ⟨c :: before, d, behind, rfl, hresult, ?_⟩
    rw [hspan, List.cons_append, Text.byteLength, Text.byteLength, Nat.add_assoc, Nat.add_assoc]
  | case3 offset c rest hseparator result taken hscan stop ih =>
    rw [lexFrom_lexeme (eq_false_of_ne_true hseparator), hscan] at h
    rcases List.mem_cons.mp h with rfl | h
    · refine ⟨[], c, rest, rfl, by rw [hscan], ?_⟩
      rw [hscan, List.nil_append, Text.byteLength, Nat.add_assoc]
      rfl
    · obtain ⟨before, d, behind, hrest, hresult, hspan⟩ := ih h
      refine ⟨c :: rest.take taken ++ before, d, behind, ?_, hresult, ?_⟩
      · rw [List.append_assoc, ← hrest, List.cons_append, List.take_append_drop]
      · have hstop : stop = offset + Text.byteLength (c :: rest.take taken) := Nat.add_assoc ..
        rw [hspan, hstop, List.append_assoc, Text.byteLength_append (c :: rest.take taken),
          Text.byteLength_append (c :: rest.take taken), Nat.add_assoc, Nat.add_assoc]

/-! ## A line and the others -/

/-- The end of a line is a lexeme. -/
theorem lexFrom_newline (offset : Nat) (rest : List Char) :
    lexFrom offset ('\n' :: rest) =
      ⟨.ok newline, offset, offset + 1⟩ :: lexFrom (offset + 1) rest :=
  lexFrom_lexeme (by decide) offset rest

/-- What is cut off at the start of a line is the same whatever follows the line: a separator, or a
lexeme that does not end the line. -/
theorem lexFrom_cut (offset : Nat) {c : Char} (hc : c ≠ '\n') (cs : List Char) :
    ∃ (front : List Lexeme) (taken : Nat), (∀ lexeme ∈ front, lexeme.result ≠ .ok newline) ∧
      (∀ lexemes, LexedIn (offset + Text.byteLength (c :: cs.take taken)) (cs.drop taken) lexemes →
        LexedIn offset (c :: cs) (front ++ lexemes)) ∧
      ∀ rest, lexFrom offset (c :: cs ++ '\n' :: rest) =
        front ++ lexFrom (offset + Text.byteLength (c :: cs.take taken))
          (cs.drop taken ++ '\n' :: rest) := by
  cases hseparator : isSeparator c with
  | true =>
    exact ⟨[], 0, List.forall_mem_nil _, fun lexemes h => .skip c h,
      fun rest => lexFrom_separator hseparator offset _⟩
  | false =>
    have hresult : (scan c (cs ++ ['\n'])).1 ≠ .ok newline :=
      fun hnewline => hc (scan_newline hnewline)
    have htaken := (scan_line c cs []).2
    have hnames := scan_name c (cs ++ ['\n'])
    have hscan (rest : List Char) := (scan_line c cs rest).1
    generalize scan c (cs ++ ['\n']) = found at hresult htaken hnames hscan
    obtain ⟨result, taken⟩ := found
    refine ⟨[⟨result, offset, offset + c.utf8Size + Text.byteLength (cs.take taken)⟩], taken,
      List.forall_mem_singleton.mpr hresult, fun lexemes h => ?_, fun rest => ?_⟩
    · rw [Text.byteLength, ← Nat.add_assoc] at h
      refine lexedIn_scan (fun name hname => ?_) h
      rw [hnames name hname, List.take_append_of_le_length htaken]
    rw [List.cons_append, lexFrom_lexeme hseparator, hscan,
      List.take_append_of_le_length htaken, List.drop_append_of_le_length htaken, Text.byteLength,
      ← Nat.add_assoc]
    rfl

/-- A line is lexed to the same lexemes whatever follows it. They stand in the line, and none of
them is read as the end of a line. The induction is on the length of the line, of which each cut
takes off a part. -/
theorem lexFrom_line (offset : Nat) {text : List Char} (htext : '\n' ∉ text) :
    ∃ lexemes : List Lexeme, (∀ lexeme ∈ lexemes, lexeme.result ≠ .ok newline) ∧
      LexedIn offset text lexemes ∧ ∀ rest, ∃ place, lexFrom offset (text ++ '\n' :: rest) =
        lexemes ++ ⟨.ok newline, place⟩ :: lexFrom (offset + (Text.byteLength text + 1)) rest := by
  induction hlength : text.length using Nat.strong_induction_on generalizing offset text with
  | _ length ih =>
    subst hlength
    match text with
    | [] =>
      exact ⟨[], List.forall_mem_nil _, .nil offset [],
        fun rest => ⟨_, lexFrom_newline offset rest⟩⟩
    | c :: cs =>
      have hc : c ≠ '\n' := (List.ne_of_not_mem_cons htext).symm
      have hcs : '\n' ∉ cs := List.not_mem_of_not_mem_cons htext
      obtain ⟨front, taken, hfront, hstands, hcut⟩ := lexFrom_cut offset hc cs
      have hshorter : (cs.drop taken).length < (c :: cs).length := by
        rw [List.length_drop, List.length_cons]
        omega
      obtain ⟨lexemes, hinner, hlexed, hthen⟩ :=
        ih _ hshorter (offset + Text.byteLength (c :: cs.take taken))
          (fun hmem => hcs (List.mem_of_mem_drop hmem)) rfl
      have hbytes : Text.byteLength (c :: cs) =
          Text.byteLength (c :: cs.take taken) + Text.byteLength (cs.drop taken) := by
        rw [← Text.byteLength_append, List.cons_append, List.take_append_drop]
      refine ⟨front ++ lexemes, List.forall_mem_append.mpr ⟨hfront, hinner⟩,
        hstands lexemes hlexed, fun rest => ?_⟩
      obtain ⟨place, hrest⟩ := hthen rest
      refine ⟨place, ?_⟩
      rw [hcut, hrest, hbytes, List.append_assoc, Nat.add_assoc, Nat.add_assoc]

/-- Without an end of line there is none among the lexemes. -/
theorem lexFrom_lastLine (offset : Nat) {text : List Char} (htext : '\n' ∉ text) :
    ∀ lexeme ∈ lexFrom offset text, lexeme.result ≠ .ok newline := by
  induction offset, text using lexFrom.induct with
  | case1 offset =>
    rw [lexFrom]
    exact List.forall_mem_nil _
  | case2 offset c rest hseparator ih =>
    rw [lexFrom_separator hseparator]
    exact ih fun hmem => htext (List.mem_cons_of_mem c hmem)
  | case3 offset c rest hseparator result taken hscan stop ih =>
    rw [lexFrom_lexeme (eq_false_of_ne_true hseparator), hscan]
    refine List.forall_mem_cons.mpr ⟨fun hnewline => ?_, ih fun hmem => ?_⟩
    · have hc : c = '\n' := scan_newline (by rw [hscan]; exact hnewline)
      exact htext (hc ▸ List.mem_cons_self)
    · exact htext (List.mem_cons_of_mem c (List.mem_of_mem_drop hmem))

/-- A text further down is lexed to the same lexemes, further down. -/
theorem lexFrom_shiftBy (bytes offset : Nat) (cs : List Char) :
    lexFrom (offset + bytes) cs = (lexFrom offset cs).map (Lexeme.shiftBy bytes) := by
  induction offset, cs using lexFrom.induct with
  | case1 offset => rw [lexFrom, lexFrom, List.map_nil]
  | case2 offset c rest hseparator ih =>
    rw [lexFrom_separator hseparator, lexFrom_separator hseparator, Nat.add_right_comm, ih]
  | case3 offset c rest hseparator result taken hscan stop ih =>
    rw [lexFrom_lexeme (eq_false_of_ne_true hseparator),
      lexFrom_lexeme (eq_false_of_ne_true hseparator), hscan, List.map_cons, ← ih,
      Nat.add_right_comm offset, Nat.add_right_comm (offset + _)]
    rfl

end Token

end MipsLab
