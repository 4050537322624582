import Mathlib.Algebra.BigOperators.Ring.List
import Mathlib.Algebra.Order.BigOperators.Group.List
import Mathlib.Algebra.Order.Ring.Nat
import MipsLab.Proofs.LineGrammar
import MipsLab.Proofs.LinePlaces

/-!
# How much room a text can ask for

A statement takes at most twice as many bytes as its source text has, unless it is told the number
of its bytes, which is a word. So no statement of a text of less than half of all addresses takes
more bytes than a word can count.

1. `Token.room`: how many bytes a token accounts for.
2. `Token.room_le`: it is at most twice the bytes of the token.
3. `LineReader.Gives.directive_byteCount`: the tokens of a directive account for its bytes.
4. `Statement.byteCount_le`: every statement of a text.
-/

namespace MipsLab

/-! ## Tokens -/

/-- How many bytes a token can account for in a directive: the characters of a string, or half of a
word, as a comma comes with each item of a list. -/
def Token.room : Token → Nat
  | string value => Text.byteLength value.toList
  | _ => 2

/-- How many bytes a lexeme accounts for, if it is a token. -/
def Lexeme.room (l : Lexeme) : Nat :=
  match l.result with
  | .ok token => token.room
  | .error _ => 0

namespace Token

theorem unescapeInString_byteLength (c : Char) :
    Text.byteLength (unescapeInString c) ≤ Text.byteLength ['\\', c] := by
  have hone : ∀ meant, unescape? c = some meant → meant.utf8Size = 1 := by
    intro meant h
    unfold unescape? at h
    split at h <;> cases h <;> rfl
  unfold unescapeInString
  split
  · next meant h =>
    have hsize := hone meant h
    simp only [Text.byteLength, hsize]
    exact Nat.le_add_right 1 _
  · exact Nat.le_refl _

/-- A string stands for no more bytes than it is written with. -/
theorem stringLiteral?_byteLength {cs value : List Char} {taken : Nat}
    (h : stringLiteral? cs = some (value, taken)) :
    Text.byteLength value ≤ Text.byteLength (cs.take taken) := by
  fun_induction stringLiteral? cs generalizing value taken with
  | case1 | case2 => cases h
  | case3 escaped cs ih =>
    obtain ⟨⟨value', taken'⟩, hrest, heq⟩ := Option.map_eq_some_iff.mp h
    obtain ⟨rfl, rfl⟩ := Prod.mk.inj heq
    have hfront := unescapeInString_byteLength escaped
    have hbehind := ih hrest
    simp only [List.take_succ_cons, Text.byteLength, Text.byteLength_append] at hfront ⊢
    omega
  | case4 cs =>
    obtain ⟨rfl, -⟩ := Prod.mk.inj (Option.some.inj h)
    exact Nat.zero_le _
  | case5 c cs _ _ _ ih =>
    obtain ⟨⟨value', taken'⟩, hrest, heq⟩ := Option.map_eq_some_iff.mp h
    obtain ⟨rfl, rfl⟩ := Prod.mk.inj heq
    exact Nat.add_le_add_left (ih hrest) _

theorem readUnsigned_ne_string (cs : List Char) (value : String) :
    readUnsigned cs ≠ .ok (string value) := by
  unfold readUnsigned
  cases readMagnitude .unsigned cs <;> nofun

theorem readNegative_ne_string (cs : List Char) (value : String) :
    readNegative cs ≠ .ok (string value) := by
  unfold readNegative
  cases readMagnitude .signed cs with
  | error e => nofun
  | ok n =>
    exact iteInduction (motive := fun found : Except LexError Token => found ≠ .ok (string value))
      (fun _ => nofun) fun _ => nofun

/-- A string that is found is no longer than what it is found in. -/
def HoldsString (rest : List Char) (found : Except LexError Token × Nat) : Prop :=
  ∀ value, found.1 = .ok (string value) →
    Text.byteLength value.toList ≤ Text.byteLength (rest.take found.2)

theorem HoldsString.other {rest : List Char} {token : Token} {length : Nat}
    (h : token.string? = none) : HoldsString rest (.ok token, length) := by
  intro value hvalue
  obtain rfl : token = string value := Except.ok.inj hvalue
  cases h

theorem HoldsString.error {rest : List Char} {e : LexError} {length : Nat} :
    HoldsString rest (.error e, length) := by
  intro value hvalue
  cases hvalue

/-- Only what starts with a quote is read as a string. -/
theorem scan_string (c : Char) (rest : List Char) : HoldsString rest (scan c rest) := by
  simp only [scan]
  -- The kinds of lexemes, in the order in which the first character is looked at.
  iterate 7 refine iteInduction (fun _ => .other rfl) fun _ => ?_
  refine iteInduction (fun _ => ?_) fun _ => ?_
  · split
    · next found taken hliteral =>
      intro value h
      obtain rfl := string.inj (Except.ok.inj h)
      obtain ⟨behind, hrest⟩ := restOfLine_prefix rest
      have htaken := stringLiteral?_taken hliteral
      rw [String.toList_ofList, ← hrest, List.take_append_of_le_length htaken]
      exact stringLiteral?_byteLength hliteral
    · exact .error
  refine iteInduction (fun _ => ?_) fun _ => ?_
  · split
    · exact .other rfl
    · exact .error
  refine iteInduction (fun _ => ?_) fun _ => ?_
  · split
    · exact .other rfl
    · exact .error
  refine iteInduction (fun _ => ?_) fun _ => ?_
  · exact iteInduction (fun _ value h => absurd h (readNegative_ne_string _ value)) fun _ => .error
  refine iteInduction (fun _ => ?_) fun _ => ?_
  · exact iteInduction (fun _ => .other rfl) fun _ => .error
  refine iteInduction (fun _ value h => absurd h (readUnsigned_ne_string _ value)) fun _ => ?_
  exact iteInduction (fun _ => .other rfl) fun _ => .error

theorem room_le_of_string {token : Token} {length : Nat} (hpos : 0 < length)
    (h : ∀ value, token = string value → Text.byteLength value.toList ≤ length) :
    token.room ≤ 2 * length := by
  cases token with
  | string value => exact Nat.le_trans (h value rfl) (Nat.le_mul_of_pos_left length Nat.two_pos)
  | _ => exact Nat.le_mul_of_pos_right 2 hpos

/-- A lexeme accounts for at most twice its own bytes. -/
theorem room_le {chars : List Char} {l : Lexeme} (hl : l ∈ lex chars) :
    l.room ≤ 2 * (l.span.stop - l.span.start) := by
  obtain ⟨before, c, rest, -, hresult, hspan⟩ := mem_lexFrom 0 chars hl
  have hlength : l.span.stop - l.span.start =
      c.utf8Size + Text.byteLength (rest.take (scan c rest).2) := by
    rw [hspan, Text.byteLength_append, Text.byteLength, ← Nat.add_assoc,
      Nat.add_sub_cancel_left]
  have hpos := c.utf8Size_pos
  rw [hlength]
  unfold Lexeme.room
  rw [hresult]
  split
  · next token htoken =>
    refine room_le_of_string (Nat.add_pos_left hpos _) fun value hvalue => ?_
    have hstring := scan_string c rest value (htoken.trans (congrArg _ hvalue))
    exact Nat.le_trans hstring (Nat.le_add_left _ _)
  · exact Nat.zero_le _

/-- The lexemes of a text have no more bytes together than the text. -/
theorem LexedIn.sum_le {offset : Nat} {text : List Char} {lexemes : List Lexeme}
    (h : LexedIn offset text lexemes) :
    (lexemes.map fun l => l.span.stop - l.span.start).sum ≤ Text.byteLength text := by
  induction h with
  | nil => exact Nat.zero_le _
  | skip c _ ih => exact Nat.le_trans ih (Nat.le_add_left _ _)
  | lexeme _ _ _ ih =>
    rw [List.map_cons, List.sum_cons, Text.byteLength_append, Nat.add_sub_cancel_left]
    exact Nat.add_le_add_left ih _

end Token

/-- How many bytes some tokens account for. -/
def roomOf (tokens : List Located) : Nat := (tokens.map (·.token.room)).sum

/-- The lexemes of a line are among those of the text. -/
theorem sublist_of_mem_splitLines {lexemes line : List Lexeme} (h : line ∈ splitLines lexemes) :
    line.Sublist lexemes := by
  induction lexemes generalizing line with
  | nil =>
    obtain rfl := List.mem_singleton.mp h
    exact List.Sublist.refl []
  | cons lexeme lexemes ih =>
    by_cases hnewline : lexeme.result = .ok .newline
    · rw [splitLines_newline hnewline] at h
      rcases List.mem_cons.mp h with rfl | h
      · exact List.nil_sublist _
      · exact (ih h).cons lexeme
    · obtain ⟨first, others, hlines⟩ := List.exists_cons_of_ne_nil (splitLines_ne_nil lexemes)
      rw [hlines] at ih
      rw [splitLines_cons hnewline hlines] at h
      rcases List.mem_cons.mp h with rfl | h
      · exact (ih List.mem_cons_self).cons_cons lexeme
      · exact (ih (List.mem_cons_of_mem first h)).cons lexeme

theorem roomOf_sublist {tokens tokens' : List Located} (h : tokens.Sublist tokens') :
    roomOf tokens ≤ roomOf tokens' :=
  (h.map _).sum_le_sum fun _ _ => Nat.zero_le _

/-- The tokens of a line account for at most twice the bytes of the text. -/
theorem roomOf_tokensOfLine_le {chars : List Char} {line : List Lexeme}
    (h : line ∈ splitLines (Token.lex chars)) :
    roomOf (tokensOfLine line) ≤ 2 * Text.byteLength chars := by
  have hlexemes := (tokensOfLine_sublist line).trans (sublist_of_mem_splitLines h)
  have hroom : roomOf (tokensOfLine line) =
      (((tokensOfLine line).map fun t => ⟨.ok t.token, t.span⟩).map Lexeme.room).sum := by
    rw [roomOf, List.map_map]
    rfl
  calc roomOf (tokensOfLine line)
    _ ≤ ((Token.lex chars).map Lexeme.room).sum := by
      rw [hroom]
      exact (hlexemes.map _).sum_le_sum fun _ _ => Nat.zero_le _
    _ ≤ ((Token.lex chars).map fun l => 2 * (l.span.stop - l.span.start)).sum :=
      List.sum_le_sum fun l hl => Token.room_le hl
    _ = 2 * ((Token.lex chars).map fun l => l.span.stop - l.span.start).sum :=
      List.sum_map_mul_left ..
    _ ≤ 2 * Text.byteLength chars :=
      Nat.mul_le_mul_left 2 (Token.lexFrom_lexedIn 0 chars).sum_le

/-! ## Directives -/

/-- An operand that is no string is written with a token at least that is none. -/
theorem Operand.Admits.two_le_room {operand : Operand} {tokens : List Token}
    (h : operand.Admits tokens) (hoperand : operand ≠ .string) :
    2 ≤ (tokens.map Token.room).sum := by
  have hinteger {token : Token} {n : Int} (h : token.integer? = some n) : token.room = 2 := by
    cases token with
    | string => exact nomatch h
    | _ => rfl
  induction h with
  | number h | absolute h => rw [List.map_singleton, List.sum_singleton, hinteger h]
  | register | label | labelAddress | labelPlus | labelMinus | labelTarget | base =>
    rw [List.map_cons, List.sum_cons]
    exact Nat.le_add_right 2 _
  | words _ ih | direct _ ih => exact ih nofun
  | based _ r ih =>
    rw [List.map_append, List.sum_append]
    exact Nat.le_trans (ih nofun) (Nat.le_add_right _ _)
  | string => exact absurd rfl hoperand

theorem SourceInstr.wordCount_le (i : SourceInstr) : i.wordCount ≤ 2 := by
  unfold wordCount
  repeat' split
  all_goals decide

namespace LineReader

variable {α β : Type} {item : LineReader α} {operand : Operand} {stop : Nat}
  {line rest : List Located}

theorem roomOf_cons (first : Located) (line : List Located) :
    roomOf (first :: line) = first.token.room + roomOf line := List.sum_cons

theorem roomOf_append (front rest : List Located) :
    roomOf (front ++ rest) = roomOf front + roomOf rest := by
  rw [roomOf, List.map_append, List.sum_append]
  rfl

theorem Recognizes.two_le_room (h : Recognizes item operand) (hoperand : operand ≠ .string) {a : α}
    (ha : item.Gives stop line a rest) : 2 + roomOf rest ≤ roomOf line := by
  obtain ⟨front, rfl, hadmits⟩ := h.sound ha
  have hfront := hadmits.two_le_room hoperand
  rw [List.map_map] at hfront
  rw [roomOf_append]
  exact Nat.add_le_add_right hfront _

/-- Each further item comes with a comma. -/
theorem Gives.furtherItems_room (h : Recognizes item operand) (hoperand : operand ≠ .string)
    {fuel : Nat} {found : List α} (hfound : (furtherItems item fuel).Gives stop line found rest) :
    4 * found.length + roomOf rest ≤ roomOf line := by
  induction fuel generalizing line found with
  | zero =>
    obtain ⟨rfl, rfl⟩ := Gives.pure_inv hfound
    exact Nat.le_of_eq (Nat.zero_add _)
  | succ fuel ih =>
    obtain ⟨comes, between, hskip, hnext⟩ := Gives.bind_inv hfound
    have hcomes := hskip.skip?_inv
    cases comes with
    | false =>
      obtain ⟨rfl, rfl⟩ := Gives.pure_inv hnext
      obtain ⟨rfl, -⟩ := hcomes
      exact Nat.le_of_eq (Nat.zero_add _)
    | true =>
      obtain ⟨span, rfl⟩ := hcomes
      obtain ⟨a, behind, ha, hmore⟩ := Gives.bind_inv hnext
      obtain ⟨others, hothers, rfl⟩ := Gives.map_inv hmore
      have hitem := h.two_le_room hoperand ha
      have hrest := ih hothers
      have hcomma : Token.room .comma = 2 := rfl
      rw [roomOf_cons, List.length_cons, hcomma]
      omega

theorem Gives.items_room (h : Recognizes item operand) (hoperand : operand ≠ .string)
    {found : List α} (hfound : (items item).Gives stop line found rest) :
    4 * found.length + roomOf rest ≤ 2 + roomOf line := by
  obtain ⟨a, between, ha, hmore⟩ := Gives.bind_inv hfound
  obtain ⟨left, behind, hleft, hmore⟩ := hmore.bind_inv
  obtain ⟨further, hfurther, rfl⟩ := Gives.map_inv hmore
  cases hleft
  have hitem := h.two_le_room hoperand ha
  have hrest := hfurther.furtherItems_room h hoperand
  rw [List.length_cons]
  omega

theorem Gives.string_room {value : String} (h : string.Gives stop line value rest) :
    Text.byteLength value.toList + roomOf rest = roomOf line := by
  obtain ⟨⟨held, span⟩, between, hrequire, hpure⟩ := Gives.bind_inv h
  obtain ⟨rfl, rfl⟩ := hpure.pure_inv
  obtain ⟨token, rfl, hkind⟩ := hrequire.require_inv
  obtain rfl := Token.string?_eq_some hkind
  rw [roomOf_cons]
  rfl

/-- The name and the operands of a directive account for its bytes, unless their number is an
operand itself. -/
theorem Gives.directiveOperands_byteCount {name : String} {reader : LineReader Directive}
    {d : Directive} (hreader : directiveOperands? name = some reader)
    (h : reader.Gives stop line d rest) :
    d.byteCount ≤ max Word.maxUnsigned (2 + roomOf line) := by
  have hroom {size : Nat} (hsize : size ≤ 2 + roomOf line) :
      size ≤ max Word.maxUnsigned (2 + roomOf line) := Nat.le_trans hsize (Nat.le_max_right _ _)
  unfold directiveOperands? at hreader
  split at hreader <;> cases hreader
  · obtain ⟨rfl, -⟩ := Gives.pure_inv h
    exact Nat.zero_le _
  · obtain ⟨rfl, -⟩ := Gives.pure_inv h
    exact Nat.zero_le _
  · obtain ⟨l, -, rfl⟩ := Gives.map_inv h
    exact Nat.zero_le _
  · obtain ⟨l, -, rfl⟩ := Gives.map_inv h
    exact Nat.zero_le _
  · obtain ⟨values, hvalues, rfl⟩ := Gives.map_inv h
    have hitems := hvalues.items_room recognizes_addressExpr nofun
    exact hroom (Nat.le_trans (Nat.le_add_right _ _) hitems)
  · obtain ⟨values, hvalues, rfl⟩ := Gives.map_inv h
    have hitems := hvalues.items_room recognizes_halfItem nofun
    refine hroom (Nat.le_trans ?_ (Nat.le_trans (Nat.le_add_right _ _) hitems))
    exact Nat.mul_le_mul_right _ (by decide)
  · obtain ⟨values, hvalues, rfl⟩ := Gives.map_inv h
    have hitems := hvalues.items_room recognizes_byteItem nofun
    refine hroom (Nat.le_trans ?_ (Nat.le_trans (Nat.le_add_right _ _) hitems))
    exact Nat.le_mul_of_pos_left _ (by decide)
  · obtain ⟨value, hvalue, rfl⟩ := Gives.map_inv h
    have hstring := hvalue.string_room
    refine hroom ?_
    rw [Directive.byteCount, ← hstring]
    omega
  · obtain ⟨value, hvalue, rfl⟩ := Gives.map_inv h
    have hstring := hvalue.string_room
    refine hroom ?_
    rw [Directive.byteCount, ← hstring]
    omega
  · obtain ⟨n, between, -, hpure⟩ := Gives.bind_inv h
    obtain ⟨rfl, -⟩ := hpure.pure_inv
    exact Nat.le_trans (Nat.le_of_lt_succ (Word.ofInt n).toNat_lt) (Nat.le_max_left _ _)
  · obtain ⟨n, between, -, hpure⟩ := Gives.bind_inv h
    obtain ⟨rfl, -⟩ := hpure.pure_inv
    exact Nat.zero_le _

theorem Gives.directive_byteCount {name : String} {span : Span} {d : Directive}
    (h : (directive name span).Gives stop line d rest) :
    d.byteCount ≤ max Word.maxUnsigned (2 + roomOf line) := by
  unfold directive at h
  split at h
  · next reader hreader => exact h.directiveOperands_byteCount hreader
  · exact absurd h not_gives_failAt

/-- A body that is a directive starts with its name. -/
theorem Gives.body_directive {d : Directive} (h : body.Gives stop line (.directive d) rest) :
    ∃ name span operands behind, line = ⟨.directive name, span⟩ :: operands ∧
      (directive name span).Gives stop operands d behind := by
  cases line with
  | nil => exact nomatch h
  | cons first line =>
    obtain ⟨token, span⟩ := first
    cases token with
    | directive name =>
      have hbody : (toEnd (Body.directive <$> directive name span)).Gives stop line
          (.directive d) rest := body_run_directive.symm.trans h
      obtain ⟨found, behind, hfound, hnext⟩ := Gives.bind_inv hbody
      obtain ⟨u, last, -, hpure⟩ := hnext.bind_inv
      obtain ⟨rfl, -⟩ := hpure.pure_inv
      obtain ⟨d', hd', hd⟩ := Gives.map_inv hfound
      obtain rfl := Body.directive.inj hd
      exact ⟨name, span, line, behind, rfl, hd'⟩
    | identifier name =>
      have hbody : (toEnd (Body.instr <$> instr name span)).Gives stop line
          (.directive d) rest := body_run_identifier.symm.trans h
      obtain ⟨found, behind, hfound, hnext⟩ := Gives.bind_inv hbody
      obtain ⟨u, last, -, hpure⟩ := hnext.bind_inv
      obtain ⟨rfl, -⟩ := hpure.pure_inv
      obtain ⟨i, -, hi⟩ := Gives.map_inv hfound
      exact nomatch hi
    | _ => exact nomatch h

/-- The tokens of a body account for its bytes. -/
theorem Gives.body_byteCount {found : Body} (h : body.Gives stop line found rest) :
    found.byteCount ≤ max Word.maxUnsigned (roomOf line) := by
  cases found with
  | instr i =>
    have hmax : 4 * 2 ≤ Word.maxUnsigned := by decide
    exact Nat.le_trans (Nat.mul_le_mul_left 4 i.wordCount_le)
      (Nat.le_trans hmax (Nat.le_max_left _ _))
  | directive d =>
    obtain ⟨name, span, operands, behind, rfl, hd⟩ := h.body_directive
    rw [roomOf_cons]
    exact hd.directive_byteCount

end LineReader

/-! ## Statements -/

theorem ParsedLine.byteCount_le {line : List Lexeme} {found : Body} {span : Span}
    (h : (ofLexemes line).body = some (found, span)) :
    found.byteCount ≤ max Word.maxUnsigned (roomOf (tokensOfLine line)) := by
  have hsuffix := (takeLabels_suffix (tokensOfLine line)).sublist
  unfold ofLexemes at h
  dsimp only at h
  split at h
  · exact nomatch h
  · split at h
    · split at h
      · next hrun =>
        obtain ⟨rfl, -⟩ := Prod.mk.inj (Option.some.inj h)
        have hbody := LineReader.Gives.body_byteCount hrun
        have hroom := roomOf_sublist hsuffix
        omega
      · exact nomatch h
    · exact nomatch h

/-- A statement takes at most twice as many bytes as its text has, or as many as a word can tell. -/
theorem Statement.byteCount_le {chars : List Char} {s : Statement} (hs : s ∈ (parse chars).1) :
    s.byteCount ≤ max Word.maxUnsigned (2 * Text.byteLength chars) := by
  cases hbody : s.body with
  | none =>
    rw [Statement.byteCount, hbody]
    exact Nat.zero_le _
  | some found =>
    have hfound : (found, s.span) ∈ (parse chars).1.filterMap Statement.bodyAt? := by
      refine List.mem_filterMap.mpr ⟨s, hs, ?_⟩
      rw [Statement.bodyAt?, hbody]
      rfl
    have hlines : (parse chars).1.filterMap Statement.bodyAt? =
        (parseLines chars).filterMap ParsedLine.body :=
      Statement.bodies_gather [] (parseLines chars)
    rw [hlines] at hfound
    obtain ⟨parsed, hparsed, hline⟩ := List.mem_filterMap.mp hfound
    obtain ⟨line, hmem, rfl⟩ := List.mem_map.mp hparsed
    have hroom := roomOf_tokensOfLine_le hmem
    have hle := ParsedLine.byteCount_le hline
    rw [Statement.byteCount, hbody]
    exact Nat.le_trans hle (by omega)

end MipsLab
