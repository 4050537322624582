import MipsLab.Instr.Text
import MipsLab.Proofs.Numerals
import MipsLab.Token.Lexer

/-!
# Lexing written texts

Which tokens a text is read as, regardless of where it stands. Longer texts are put together from
pieces of which it is known how they are read if nothing follows that would make the last name or
number longer.

1. `Token.results`: the tokens of a text without their places.
2. `Token.LexesTo`: a piece of text is read as some tokens.
3. `Token.lexesTo_name`, `Token.lexesTo_register`, `Token.lexesTo_signedDecimal`,
   `Token.lexesTo_upperHex`: single tokens.
4. `Token.lexesTo_line`: a mnemonic and its operands.
-/

namespace MipsLab

/-! ## Characters -/

namespace Text

variable {c : Char}

theorem nat_le_of_char_le {a b : Char} (h : a ≤ b) : a.toNat ≤ b.toNat := h

theorem isAsciiLetter_iff : isAsciiLetter c = true ↔ 'a' ≤ c ∧ c ≤ 'z' ∨ 'A' ≤ c ∧ c ≤ 'Z' := by
  unfold isAsciiLetter
  rw [Bool.or_eq_true, Bool.and_eq_true, Bool.and_eq_true]
  simp only [decide_eq_true_eq]

/-- The ASCII characters behind the digits are none. -/
theorem isDigit_of_gt (hlow : '9'.toNat < c.toNat) (hhigh : c.toNat < 128) : isDigit c = false := by
  have hnot : ¬ c ≤ '9' := fun h => absurd (nat_le_of_char_le h) (Nat.not_le_of_lt hlow)
  unfold isDigit isAsciiDigit
  rw [if_pos hhigh, Bool.and_eq_false_iff, decide_eq_false_iff_not, decide_eq_false_iff_not]
  exact .inr hnot

/-- No name starts with a digit. -/
theorem isDigit_of_isNameStart (h : isNameStart c = true) : isDigit c = false := by
  unfold isNameStart at h
  rcases Bool.or_eq_true_iff.mp h with hletter | hunderscore
  · rcases isAsciiLetter_iff.mp hletter with ⟨hlow, hhigh⟩ | ⟨hlow, hhigh⟩
    · exact isDigit_of_gt (Nat.lt_of_lt_of_le (by decide) (nat_le_of_char_le hlow))
        (Nat.lt_of_le_of_lt (nat_le_of_char_le hhigh) (by decide))
    · exact isDigit_of_gt (Nat.lt_of_lt_of_le (by decide) (nat_le_of_char_le hlow))
        (Nat.lt_of_le_of_lt (nat_le_of_char_le hhigh) (by decide))
  · obtain rfl := beq_iff_eq.mp hunderscore
    exact isDigit_of_gt (by decide) (by decide)

end Text

namespace Token

/-! ## Cutting off lexemes -/

theorem lexFrom_separator {c : Char} (h : isSeparator c = true) (offset : Nat) (cs : List Char) :
    lexFrom offset (c :: cs) = lexFrom (offset + c.utf8Size) cs := by
  rw [lexFrom, if_pos h]

/-- A lexeme stands from its first character up to where the rest of the text is lexed from. -/
theorem lexFrom_lexeme {c : Char} (h : isSeparator c = false) (offset : Nat) (cs : List Char) :
    lexFrom offset (c :: cs) =
      ⟨(scan c cs).1, offset, offset + c.utf8Size + Text.byteLength (cs.take (scan c cs).2)⟩ ::
        lexFrom (offset + c.utf8Size + Text.byteLength (cs.take (scan c cs).2))
          (cs.drop (scan c cs).2) := by
  rw [lexFrom, if_neg (ne_true_of_eq_false h)]

/-! ## Results -/

/-- What the lexemes of a text were read as. -/
def results (chars : List Char) : List (Except LexError Token) := (lex chars).map Lexeme.result

theorem lexFrom_result (offset offset' : Nat) (cs : List Char) :
    (lexFrom offset cs).map Lexeme.result = (lexFrom offset' cs).map Lexeme.result := by
  induction offset, cs using lexFrom.induct generalizing offset' with
  | case1 offset => rw [lexFrom, lexFrom]
  | case2 offset c rest hseparator ih =>
    rw [lexFrom_separator hseparator, lexFrom_separator hseparator]
    exact ih _
  | case3 offset c rest hseparator result taken hscan stop ih =>
    rw [lexFrom_lexeme (eq_false_of_ne_true hseparator),
      lexFrom_lexeme (eq_false_of_ne_true hseparator), hscan, List.map_cons, List.map_cons, ih]

@[simp] theorem results_nil : results [] = [] := by
  unfold results lex
  rw [lexFrom, List.map_nil]

theorem results_separator {c : Char} (h : isSeparator c = true) (rest : List Char) :
    results (c :: rest) = results rest := by
  unfold results lex
  rw [lexFrom_separator h, lexFrom_result]

theorem results_scan {c : Char} {rest : List Char} {token : Token} {taken : Nat}
    (h : isSeparator c = false) (hscan : scan c rest = (.ok token, taken)) :
    results (c :: rest) = .ok token :: results (rest.drop taken) := by
  unfold results lex
  rw [lexFrom_lexeme h, hscan, List.map_cons, lexFrom_result]

/-! ## Pieces of text -/

/-- No name or number goes on with a text. -/
def Breaks (rest : List Char) : Prop := ∀ c ∈ rest.head?, continuesName c = false

/-- A piece of text is read as some tokens, whatever follows it, unless that would make the last one
longer. -/
def LexesTo (cs : List Char) (tokens : List Token) : Prop :=
  ∀ rest, Breaks rest → results (cs ++ rest) = tokens.map .ok ++ results rest

variable {c : Char} {cs ds rest : List Char} {ts us : List Token}

theorem breaks_cons (h : continuesName c = false) (rest : List Char) : Breaks (c :: rest) := by
  intro d hd
  obtain rfl := Option.some.inj hd
  exact h

theorem breaks_nil : Breaks [] := nofun

theorem isWord_of_breaks (h : Breaks rest) : ∀ c ∈ rest.head?, Text.isWord c = false := by
  intro c hc
  exact (Bool.or_eq_false_iff.mp (h c hc)).1

/-- What a scan takes of a word that ends where the text breaks. -/
theorem takeWhile_of_head {p : Char → Bool} (hall : ∀ c ∈ cs, p c = true)
    (hrest : ∀ c ∈ rest.head?, p c = false) : (cs ++ rest).takeWhile p = cs := by
  rw [List.takeWhile_append_of_pos hall]
  cases rest with
  | nil => exact List.append_nil cs
  | cons c rest =>
    have hc : ¬ p c = true := by
      rw [hrest c rfl]
      nofun
    rw [List.takeWhile_cons_of_neg hc, List.append_nil]

/-- A piece that one scan reads. -/
theorem lexesTo_scan {token : Token} (h : isSeparator c = false)
    (hscan : ∀ rest, Breaks rest → scan c (cs ++ rest) = (.ok token, cs.length)) :
    LexesTo (c :: cs) [token] := by
  intro rest hrest
  rw [List.cons_append, results_scan h (hscan rest hrest), List.drop_left]
  rfl

/-! ## Names and registers -/

/-- What starts with a digit is scanned as a number, and what starts as a name as a name. -/
theorem scan_word (hc : Text.isDigit c = true ∨ Text.isNameStart c = true) :
    isSeparator c = false ∧ ∀ rest, scan c rest =
      if Text.isDigit c then
        (readUnsigned (c :: rest.takeWhile Text.isWord), (rest.takeWhile Text.isWord).length)
      else
        (.ok (identifier (String.ofList (c :: rest.takeWhile continuesName))),
          (rest.takeWhile continuesName).length) := by
  have hne (d : Char) (hd : (Text.isDigit d || Text.isNameStart d) = false) : c ≠ d := by
    rintro rfl
    exact Bool.noConfusion (hd.symm.trans (Bool.or_eq_true_iff.mpr hc))
  refine ⟨?_, fun rest => ?_⟩
  · unfold isSeparator
    rw [beq_false_of_ne (hne ' ' (by decide)), beq_false_of_ne (hne '\t' (by decide)),
      beq_false_of_ne (hne '\r' (by decide))]
    rfl
  · unfold scan
    rw [if_neg (hne ':' (by decide)), if_neg (hne ',' (by decide)), if_neg (hne '(' (by decide)),
      if_neg (hne ')' (by decide)), if_neg (hne '+' (by decide)), if_neg (hne '\n' (by decide)),
      if_neg (hne '#' (by decide)), if_neg (hne '"' (by decide)), if_neg (hne '\x27' (by decide)),
      if_neg (hne '$' (by decide)), if_neg (hne '-' (by decide)), if_neg (hne '.' (by decide))]
    split
    · rfl
    · next hdigit => exact if_pos (hc.resolve_left hdigit)

/-- Names are read as identifiers. -/
theorem lexesTo_name (hc : Text.isNameStart c = true) (hcs : ∀ d ∈ cs, continuesName d = true) :
    LexesTo (c :: cs) [.identifier (String.ofList (c :: cs))] := by
  obtain ⟨hseparator, hscan⟩ := scan_word (.inr hc)
  have hdigit : ¬ Text.isDigit c = true := by
    rw [Text.isDigit_of_isNameStart hc]
    nofun
  refine lexesTo_scan hseparator fun rest hrest => ?_
  rw [hscan, if_neg hdigit, takeWhile_of_head hcs hrest]

/-- A string that is a name. -/
def isName (name : String) : Bool :=
  match name.toList with
  | [] => false
  | c :: cs => Text.isNameStart c && cs.all continuesName

theorem lexesTo_identifier {name : String} (h : isName name = true) :
    LexesTo name.toList [.identifier name] := by
  unfold isName at h
  cases hcs : name.toList with
  | nil =>
    rw [hcs] at h
    exact nomatch h
  | cons c cs =>
    rw [hcs] at h
    obtain ⟨hc, hall⟩ := Bool.and_eq_true_iff.mp h
    have hlex := lexesTo_name hc (List.all_eq_true.mp hall)
    rw [← hcs, String.ofList_toList] at hlex
    rw [← hcs]
    exact hlex

theorem lexesTo_register (r : Reg) : LexesTo r.name.toList [.register r] := by
  have hname : ∀ r : Reg, r.name.toList = '$' :: r.name.toList.tail ∧
      r.name.toList.tail.all Text.isWord = true ∧
      Reg.ofName? (String.ofList ('$' :: r.name.toList.tail)) = some r := by decide +kernel
  obtain ⟨hcons, hword, hread⟩ := hname r
  rw [hcons]
  refine lexesTo_scan (by decide) fun rest hrest => ?_
  unfold scan
  simp only [takeWhile_of_head (List.all_eq_true.mp hword) (isWord_of_breaks hrest), hread]
  rfl

/-! ## Numbers -/

/-- Decimal digits are no mark of a hexadecimal number. -/
theorem readMagnitude_decimal (kind : Signedness) {n : Nat} (hn : n ≤ maxMagnitude) :
    readMagnitude kind (Numeral.decimal n) = .ok n := by
  have hread : Numeral.read 10 maxMagnitude (Numeral.decimal n) = .ok n :=
    Numeral.read_digits (by decide) (by decide) hn
  have hdigit (c : Char) (hc : c ∈ Numeral.decimal n) : c ≠ 'x' ∧ c ≠ 'X' := by
    obtain ⟨d, hd, rfl⟩ := Numeral.mem_digits (by decide) hc
    have hall : ∀ d, d < 10 → Numeral.digitChar d ≠ 'x' ∧ Numeral.digitChar d ≠ 'X' := by
      decide +kernel
    exact hall d hd
  unfold readMagnitude
  split
  rename_i base digits whenBad whenEmpty hmatch
  split at hmatch
  · next hx => exact absurd rfl (hdigit 'x' (by rw [hx]; simp)).1
  · next hx => exact absurd rfl (hdigit 'X' (by rw [hx]; simp)).2
  · cases hmatch
    rw [hread]

theorem readMagnitude_hex (kind : Signedness) {digits : List Char} {n : Nat}
    (h : Numeral.read 16 maxMagnitude digits = .ok n) :
    readMagnitude kind ('0' :: 'x' :: digits) = .ok n := by
  unfold readMagnitude
  simp only [h]

/-- A decimal number starts with a digit and goes on with digits. -/
theorem decimal_cons (n : Nat) : ∃ c cs, Numeral.decimal n = c :: cs ∧ Text.isDigit c = true ∧
    ∀ d ∈ c :: cs, Text.isWord d = true := by
  have hall : ∀ c ∈ Numeral.decimal n, Text.isDigit c = true ∧ Text.isWord c = true := by
    intro c hc
    obtain ⟨d, hd, rfl⟩ := Numeral.mem_digits (by decide) hc
    exact ⟨Numeral.isDigit_digitChar hd, Numeral.isWord_digitChar (Nat.lt_trans hd (by decide))⟩
  obtain ⟨c, cs, hcons⟩ := List.exists_cons_of_ne_nil (Numeral.digits_ne_nil 10 n)
  have hdecimal : Numeral.decimal n = c :: cs := hcons
  rw [hdecimal] at hall
  exact ⟨c, cs, hdecimal, (hall c List.mem_cons_self).1, fun d hd => (hall d hd).2⟩

/-- Digits, or the mark of a hexadecimal number and digits, are read as a number without a sign. -/
theorem lexesTo_unsigned {n : Nat} (hdigit : Text.isDigit c = true)
    (hword : ∀ d ∈ cs, Text.isWord d = true) (hread : readMagnitude .unsigned (c :: cs) = .ok n) :
    LexesTo (c :: cs) [.unsigned (UInt32.ofNat n)] := by
  obtain ⟨hseparator, hscan⟩ := scan_word (.inl hdigit)
  refine lexesTo_scan hseparator fun rest hrest => ?_
  rw [hscan, if_pos hdigit, takeWhile_of_head hword (isWord_of_breaks hrest)]
  unfold readUnsigned
  simp only [hread]
  rfl

theorem lexesTo_decimal {n : Nat} (hn : n ≤ Word.maxUnsigned) :
    LexesTo (Numeral.decimal n) [.unsigned (UInt32.ofNat n)] := by
  have hread := readMagnitude_decimal .unsigned hn
  obtain ⟨c, cs, hcons, hdigit, hword⟩ := decimal_cons n
  rw [hcons] at hread ⊢
  exact lexesTo_unsigned hdigit (fun d hd => hword d (List.mem_cons_of_mem c hd)) hread

/-- Digits after the mark of a hexadecimal number. -/
theorem lexesTo_hex {n : Nat} (hword : ∀ d ∈ cs, Text.isWord d = true)
    (hread : Numeral.read 16 maxMagnitude cs = .ok n) :
    LexesTo ('0' :: 'x' :: cs) [.unsigned (UInt32.ofNat n)] := by
  refine lexesTo_unsigned (by decide) ?_ (readMagnitude_hex .unsigned hread)
  intro d hd
  rcases List.mem_cons.mp hd with rfl | hd
  · decide
  · exact hword d hd

theorem lexesTo_upperHex {n : Nat} (hn : n ≤ Word.maxUnsigned) :
    LexesTo ('0' :: 'x' :: Numeral.upperHex n) [.unsigned (UInt32.ofNat n)] := by
  refine lexesTo_hex (fun d hd => ?_) (Numeral.read_digits (by decide) (by decide) hn)
  obtain ⟨v, hv, rfl⟩ := Numeral.mem_digits (by decide) hd
  exact Numeral.isWord_digitChar hv

theorem lexesTo_word (w : Word) : LexesTo (Word.text w).toList [.unsigned w] := by
  have hw : w.toNat ≤ Word.maxUnsigned := Nat.le_of_lt_succ w.toNat_lt
  have hlex : LexesTo ('0' :: 'x' :: Numeral.paddedHex w.toNat)
      [.unsigned (UInt32.ofNat w.toNat)] := by
    refine lexesTo_hex (fun d hd => ?_) (Numeral.read_paddedHex hw)
    obtain ⟨v, hv, rfl⟩ := Numeral.mem_paddedHex hd
    exact Numeral.isWord_digitChar hv
  rw [UInt32.ofNat_toNat] at hlex
  unfold Word.text
  rw [String.toList_ofList]
  exact hlex

/-- A number with a minus sign. -/
theorem lexesTo_negative {n : Nat} (hn : -(n : Int) ≥ Word.minSigned) :
    LexesTo ('-' :: Numeral.decimal n) [.signed (-n)] := by
  have hmagnitude : n ≤ maxMagnitude := by
    unfold Word.minSigned at hn
    unfold maxMagnitude Word.maxUnsigned
    omega
  have hread : readNegative (Numeral.decimal n) = .ok (.signed (-n)) := by
    unfold readNegative
    rw [readMagnitude_decimal .signed hmagnitude]
    show (if -(n : Int) < Word.minSigned then _ else _) = _
    rw [if_neg (Int.not_lt.mpr hn)]
    rfl
  obtain ⟨c, cs, hcons, hdigit, hword⟩ := decimal_cons n
  rw [hcons] at hread ⊢
  refine lexesTo_scan (by decide) fun rest hrest => ?_
  unfold scan
  simp only [takeWhile_of_head hword (isWord_of_breaks hrest), List.head?_cons, Option.map_some,
    hdigit, hread]
  rfl

/-- The token that a number is read as. -/
def ofInt (n : Int) : Token := if n < 0 then .signed n else .unsigned (UInt32.ofNat n.toNat)

theorem lexesTo_signedDecimal {n : Int} (hlow : Word.minSigned ≤ n) (hhigh : n ≤ Word.maxUnsigned) :
    LexesTo (Numeral.signedDecimal n) [ofInt n] := by
  unfold Numeral.signedDecimal ofInt
  split
  · next hn =>
    have habs : -(n.natAbs : Int) = n := by omega
    have hlex := lexesTo_negative (n := n.natAbs) (habs.symm ▸ hlow)
    rw [habs] at hlex
    exact hlex
  · next hn =>
    have habs : n.natAbs = n.toNat := by omega
    rw [habs]
    exact lexesTo_decimal (by omega)

/-! ## Longer pieces -/

theorem results_token {token : Token} (hseparator : isSeparator c = false)
    (hscan : ∀ rest, scan c rest = (.ok token, 0)) (rest : List Char) :
    results (c :: rest) = .ok token :: results rest := by
  rw [results_scan hseparator (hscan rest), List.drop_zero]

theorem results_comma (rest : List Char) : results (',' :: rest) = .ok .comma :: results rest :=
  results_token (by decide) (fun _ => rfl) rest

theorem results_leftParen (rest : List Char) :
    results ('(' :: rest) = .ok .leftParen :: results rest :=
  results_token (by decide) (fun _ => rfl) rest

theorem results_rightParen (rest : List Char) :
    results (')' :: rest) = .ok .rightParen :: results rest :=
  results_token (by decide) (fun _ => rfl) rest

theorem results_newline (rest : List Char) :
    results ('\n' :: rest) = .ok .newline :: results rest :=
  results_token (by decide) (fun _ => rfl) rest

theorem lexesTo_nil : LexesTo [] [] := fun _ _ => rfl

/-- Two pieces with a space between them. -/
theorem LexesTo.space (h : LexesTo cs ts) (h' : LexesTo ds us) :
    LexesTo (cs ++ ' ' :: ds) (ts ++ us) := by
  intro rest hrest
  rw [List.append_assoc, List.cons_append, h _ (breaks_cons (by decide) _),
    results_separator (by decide), h' rest hrest, List.map_append, List.append_assoc]

/-- Two pieces with a comma and a space between them. -/
theorem LexesTo.comma (h : LexesTo cs ts) (h' : LexesTo ds us) :
    LexesTo (cs ++ ',' :: ' ' :: ds) (ts ++ .comma :: us) := by
  intro rest hrest
  rw [List.append_assoc, List.cons_append, List.cons_append, h _ (breaks_cons (by decide) _),
    results_comma, results_separator (by decide), h' rest hrest, List.map_append, List.map_cons,
    List.append_assoc]
  rfl

/-- A piece with another one in parentheses behind it. -/
theorem LexesTo.paren (h : LexesTo cs ts) (h' : LexesTo ds us) :
    LexesTo (cs ++ '(' :: (ds ++ [')'])) (ts ++ .leftParen :: (us ++ [.rightParen])) := by
  intro rest hrest
  rw [List.append_assoc, List.cons_append, h _ (breaks_cons (by decide) _), results_leftParen,
    List.append_assoc, List.singleton_append, h' _ (breaks_cons (by decide) _), results_rightParen]
  simp only [List.map_append, List.map_cons, List.map_nil, List.append_assoc, List.cons_append,
    List.nil_append]

/-- A line of a text. -/
theorem LexesTo.line (h : LexesTo cs ts) (rest : List Char) :
    results (cs ++ '\n' :: rest) = ts.map .ok ++ .ok .newline :: results rest := by
  rw [h _ (breaks_cons (by decide) _), results_newline]

/-- The last line of a text. -/
theorem LexesTo.lastLine (h : LexesTo cs ts) : results cs = ts.map .ok := by
  have hlast := h [] breaks_nil
  rw [List.append_nil, results_nil, List.append_nil] at hlast
  exact hlast

/-! ## Operands -/

/-- A part of a line: the text that it is written as, and the tokens that it is read as. -/
structure Written where
  text : String
  tokens : List Token

/-- Tokens that neither end a line nor stand before or behind an instruction. -/
def isInner : Token → Bool
  | colon | comment | newline => false
  | _ => true

/-- The text is read as the tokens, which stand within a line. -/
structure Written.Sound (w : Written) : Prop where
  lexes : LexesTo w.text.toList w.tokens
  inner : ∀ token ∈ w.tokens, token.isInner = true

/-- The tokens of operands, with commas between them. -/
def commaed (operands : List Written) : List Token :=
  [Token.comma].intercalate (operands.map Written.tokens)

theorem isInner_commaed {operands : List Written} (h : ∀ w ∈ operands, w.Sound) :
    ∀ token ∈ commaed operands, token.isInner = true := by
  induction operands with
  | nil => exact nofun
  | cons first operands ih =>
    have hfirst := (h first List.mem_cons_self).inner
    cases operands with
    | nil =>
      unfold commaed
      rw [List.map_singleton, List.intercalate_singleton]
      exact hfirst
    | cons second operands =>
      have hothers := ih fun w hw => h w (List.mem_cons_of_mem first hw)
      unfold commaed at hothers ⊢
      rw [List.map_cons] at hothers
      rw [List.map_cons, List.map_cons, List.intercalate_cons_cons]
      intro token hmem
      rcases List.mem_append.mp hmem with hmem | hmem
      · rcases List.mem_append.mp hmem with hmem | hmem
        · exact hfirst token hmem
        · obtain rfl := List.mem_singleton.mp hmem
          rfl
      · exact hothers token hmem

/-- The operands of an instruction. The induction is on their list. -/
theorem lexesTo_operands {operands : List Written} (h : ∀ w ∈ operands, w.Sound) :
    LexesTo (", ".intercalate (operands.map Written.text)).toList (commaed operands) := by
  induction operands with
  | nil => exact lexesTo_nil
  | cons first operands ih =>
    have hfirst := (h first List.mem_cons_self).lexes
    cases operands with
    | nil =>
      unfold commaed
      rw [List.map_singleton, List.map_singleton, String.intercalate_singleton,
        List.intercalate_singleton]
      exact hfirst
    | cons second operands =>
      have hothers := ih fun w hw => h w (List.mem_cons_of_mem first hw)
      unfold commaed at hothers ⊢
      rw [List.map_cons, List.map_cons] at hothers ⊢
      rw [List.map_cons, List.map_cons, String.intercalate_cons_cons, List.intercalate_cons_cons,
        String.toList_append, String.toList_append, List.append_assoc, List.append_assoc]
      exact hfirst.comma hothers

/-- A mnemonic and its operands. -/
theorem lexesTo_line {mnemonic : String} {operands : List Written}
    (hmnemonic : isName mnemonic = true) (h : ∀ w ∈ operands, w.Sound) :
    LexesTo (Instr.line mnemonic (operands.map Written.text)).toList
      (.identifier mnemonic :: commaed operands) := by
  unfold Instr.line
  rw [String.toList_append, String.toList_append, List.append_assoc]
  exact (lexesTo_identifier hmnemonic).space (lexesTo_operands h)

end Token

end MipsLab
