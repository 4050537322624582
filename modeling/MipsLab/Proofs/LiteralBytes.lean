import MipsLab.Proofs.Lexing
import MipsLab.Proofs.Offsets

/-!
# Literals by bytes

A literal in quotes is not cut off by a pattern. Behind its opening quote it is read character by
character, and the bytes of what has been read are added up on the way: the lexer moves on by their
number, and cuts the text there. Such a cut must not go through a character, nor go beyond the text.

1. `Text.sliceFrom?`: a text from a byte offset on, if it can be cut there.
2. `Token.literalMove?`: what is read behind a quote, and the bytes that the lexer moves on by.
3. `Token.literalMove?_eq`: they are the bytes of the characters that `Token.scan` takes, so the
   lexer always stops at a character of the text or at its end.
-/

namespace MipsLab

namespace Text

/-- A text from a byte offset on, if a character or nothing starts there. -/
def sliceFrom? : Nat → List Char → Option (List Char)
  | 0, cs => some cs
  | _ + 1, [] => none
  | n + 1, c :: cs => if c.utf8Size ≤ n + 1 then sliceFrom? (n + 1 - c.utf8Size) cs else none

theorem sliceFrom?_byteLength (before rest : List Char) :
    sliceFrom? (byteLength before) (before ++ rest) = some rest := by
  induction before with
  | nil => cases rest <;> rfl
  | cons c cs ih =>
    obtain ⟨n, hn⟩ := Nat.exists_eq_add_one.mpr (Nat.add_pos_left c.utf8Size_pos (byteLength cs))
    rw [List.cons_append, byteLength, hn, sliceFrom?, ← hn, if_pos (Nat.le_add_right _ _),
      Nat.add_sub_cancel_left, ih]

end Text

namespace Token

variable {c : Char} {rest : List Char}

/-! ## Reading by bytes -/

/-- The character at the start of a text, written out or escaped, and the bytes that it takes. -/
def charValue? : List Char → Option (Char × Nat)
  | [] => none
  | ['\\'] => none
  | '\\' :: escaped :: _ => (unescape? escaped).map (·, 1 + escaped.utf8Size)
  | c :: _ => if c = '\n' ∨ c = '\x27' then none else some (c, c.utf8Size)

/-- Reads a character literal behind its opening quote: what it is, and the bytes that the lexer
moves on by. There is none if the closing quote is looked for within a character. -/
def charLiteralMove? (rest : List Char) : Option (Except LexError Token × Nat) :=
  match charValue? rest with
  | none => some (.error .badCharacter, 0)
  | some (value, consumed) =>
    (Text.sliceFrom? consumed rest).map fun behind =>
      if behind.head? = some '\x27' then (.ok (unsigned value.val), consumed + 1)
      else (.error .badCharacter, 0)

/-- The offset of the quote that closes a string literal, which is looked for from an offset on, and
the characters before it. -/
def closingQuote? (offset : Nat) (value : List Char) : List Char → Option (List Char × Nat)
  | [] => none
  | ['\\'] => none
  | '\\' :: escaped :: cs =>
    closingQuote? (offset + 1 + escaped.utf8Size) (value ++ unescapeInString escaped) cs
  | '"' :: _ => some (value, offset)
  | c :: cs => closingQuote? (offset + c.utf8Size) (value ++ [c]) cs

/-- Reads a string literal behind its opening quote: what it is, and the bytes that the lexer moves
on by. -/
def stringLiteralMove (rest : List Char) : Except LexError Token × Nat :=
  let line := restOfLine rest
  match closingQuote? 0 [] line with
  | some (value, offset) => (.ok (string (String.ofList value)), offset + 1)
  | none => (.error .unclosedString, Text.byteLength line)

/-- Reads what is behind a quote. -/
def literalMove? (quote : Char) (rest : List Char) : Option (Except LexError Token × Nat) :=
  if quote = '"' then some (stringLiteralMove rest)
  else if quote = '\x27' then charLiteralMove? rest
  else none

/-! ## Character literals -/

theorem charLiteral?_singleton (c : Char) : charLiteral? [c] = none := by
  by_cases hc : c = '\\'
  · subst hc
    rfl
  · simp [charLiteral?, hc]

theorem charLiteral?_cons (a b : Char) (cs : List Char) :
    charLiteral? (a :: b :: cs) =
      if a = '\\' then if cs.head? = some '\x27' then (unescape? b).map (·, 3) else none
      else if b = '\x27' then if a = '\n' ∨ a = '\x27' then none else some (a, 2)
      else none := by
  by_cases ha : a = '\\'
  · subst ha
    rw [if_pos rfl]
    cases cs with
    | nil => rfl
    | cons c cs =>
      by_cases hc : c = '\x27'
      · subst hc
        rfl
      · simp [charLiteral?, hc]
  · rw [if_neg ha]
    by_cases hb : b = '\x27'
    · subst hb
      simp [charLiteral?, ha]
    · simp [charLiteral?, ha, hb]

theorem charValue?_cons (hc : c ≠ '\\') :
    charValue? (c :: rest) = if c = '\n' ∨ c = '\x27' then none else some (c, c.utf8Size) := by
  cases rest <;> simp [charValue?, hc]

/-- Either nothing is read, or a character is read from the start of the text, and then the closing
quote is looked for behind it. -/
theorem charValue?_cases (rest : List Char) :
    (charValue? rest = none ∧ charLiteral? rest = none) ∨
      ∃ value before behind, rest = before ++ behind ∧
        charValue? rest = some (value, Text.byteLength before) ∧
        charLiteral? rest =
          if behind.head? = some '\x27' then some (value, before.length + 1) else none := by
  match rest with
  | [] => exact .inl ⟨rfl, rfl⟩
  | c :: cs =>
    by_cases hc : c = '\\'
    · subst hc
      match cs with
      | [] => exact .inl ⟨rfl, rfl⟩
      | escaped :: cs =>
        rw [charValue?, charLiteral?_cons, if_pos rfl]
        cases unescape? escaped with
        | none => exact .inl ⟨rfl, ite_self none⟩
        | some meant => exact .inr ⟨meant, ['\\', escaped], cs, rfl, rfl, rfl⟩
    · rw [charValue?_cons hc]
      by_cases hends : c = '\n' ∨ c = '\x27'
      · refine .inl ⟨if_pos hends, ?_⟩
        cases cs with
        | nil => exact charLiteral?_singleton c
        | cons b cs => rw [charLiteral?_cons, if_neg hc, if_pos hends, ite_self]
      · refine .inr ⟨c, [c], cs, rfl, if_neg hends, ?_⟩
        cases cs with
        | nil => exact charLiteral?_singleton c
        | cons b cs =>
          rw [charLiteral?_cons, if_neg hc, if_neg hends]
          simp

theorem scan_apostrophe (rest : List Char) :
    scan '\x27' rest =
      match charLiteral? rest with
      | some (value, taken) => (.ok (unsigned value.val), taken)
      | none => (.error .badCharacter, 0) := rfl

/-- What is read of a character literal and cut off by bytes is what is cut off by characters. -/
theorem charLiteralMove?_eq (rest : List Char) :
    charLiteralMove? rest =
      some ((scan '\x27' rest).1, Text.byteLength (rest.take (scan '\x27' rest).2)) := by
  rw [scan_apostrophe]
  unfold charLiteralMove?
  obtain ⟨hvalue, hliteral⟩ | ⟨value, before, behind, rfl, hvalue, hliteral⟩ :=
    charValue?_cases rest
  · rw [hvalue, hliteral]
    rfl
  · rw [hvalue, hliteral]
    simp only [Text.sliceFrom?_byteLength, Option.map_some]
    split
    · next hquote =>
      obtain ⟨more, rfl⟩ := List.head?_eq_some_iff.mp hquote
      have htake : (before ++ '\x27' :: more).take (before.length + 1) = before ++ ['\x27'] := by
        rw [List.take_length_add_append]
        rfl
      simp only [htake, Text.byteLength_append]
      rfl
    · rfl

/-! ## String literals -/

theorem scan_quote (rest : List Char) :
    scan '"' rest =
      match stringLiteral? (restOfLine rest) with
      | some (value, taken) => (.ok (string (String.ofList value)), taken)
      | none => (.error .unclosedString, (restOfLine rest).length) := rfl

theorem restOfLine_prefix (cs : List Char) : restOfLine cs <+: cs := by
  fun_induction restOfLine cs with
  | case1 => exact List.prefix_refl []
  | case2 | case3 => exact List.nil_prefix
  | case4 c cs _ _ ih => exact List.cons_prefix_cons.mpr ⟨rfl, ih⟩

/-- A string literal is no longer than what it is read from. -/
theorem stringLiteral?_taken {cs value : List Char} {taken : Nat}
    (h : stringLiteral? cs = some (value, taken)) : taken ≤ cs.length := by
  fun_induction stringLiteral? cs generalizing value taken with
  | case1 | case2 => exact nomatch h
  | case3 escaped cs ih =>
    obtain ⟨⟨value', taken'⟩, hrest, heq⟩ := Option.map_eq_some_iff.mp h
    obtain ⟨-, rfl⟩ := Prod.mk.inj heq
    exact Nat.add_le_add_right (ih hrest) 2
  | case4 cs =>
    obtain ⟨-, rfl⟩ := Prod.mk.inj (Option.some.inj h)
    exact Nat.succ_le_succ (Nat.zero_le _)
  | case5 c cs _ _ _ ih =>
    obtain ⟨⟨value', taken'⟩, hrest, heq⟩ := Option.map_eq_some_iff.mp h
    obtain ⟨-, rfl⟩ := Prod.mk.inj heq
    exact Nat.succ_le_succ (ih hrest)

/-- The closing quote is found at the offset of the characters before it. -/
theorem closingQuote?_eq (offset : Nat) (front cs : List Char) :
    (closingQuote? offset front cs).map (fun (value, quote) => (value, quote + 1)) =
      (stringLiteral? cs).map fun (value, taken) =>
        (front ++ value, offset + Text.byteLength (cs.take taken)) := by
  fun_induction stringLiteral? cs generalizing offset front with
  | case1 => rfl
  | case2 => rfl
  | case3 escaped cs ih =>
    rw [closingQuote?, ih, Option.map_map]
    refine congrArg (Option.map · _) (funext fun (value, taken) => ?_)
    simp only [Function.comp, List.append_assoc, List.take_succ_cons, Text.byteLength,
      Nat.add_assoc]
    rfl
  | case4 cs =>
    rw [closingQuote?]
    simp [Text.byteLength]
    rfl
  | case5 c cs hlast hescape hquote ih =>
    rw [closingQuote?, ih, Option.map_map]
    · refine congrArg (Option.map · _) (funext fun (value, taken) => ?_)
      simp only [Function.comp, List.append_assoc, List.take_succ_cons, Text.byteLength,
        Nat.add_assoc]
      rfl
    · exact hlast
    · exact hescape
    · exact hquote

theorem stringLiteralMove_eq (rest : List Char) :
    stringLiteralMove rest =
      ((scan '"' rest).1, Text.byteLength (rest.take (scan '"' rest).2)) := by
  obtain ⟨behind, hrest⟩ := restOfLine_prefix rest
  have hquote := closingQuote?_eq 0 [] (restOfLine rest)
  rw [scan_quote]
  unfold stringLiteralMove
  generalize restOfLine rest = line at hrest hquote
  subst hrest
  dsimp only
  cases hliteral : stringLiteral? line with
  | none =>
    rw [hliteral, Option.map_none, Option.map_eq_none_iff] at hquote
    rw [hquote]
    simp only [List.take_left]
  | some found =>
    obtain ⟨value, taken⟩ := found
    rw [hliteral, Option.map_some, Option.map_eq_some_iff] at hquote
    obtain ⟨⟨value', offset⟩, hfound, heq⟩ := hquote
    obtain ⟨rfl, hoffset⟩ := Prod.mk.inj heq
    rw [hfound]
    simp only [hoffset, List.take_append_of_le_length (stringLiteral?_taken hliteral),
      Nat.zero_add]

/-- What is read behind a quote is what `scan` finds there. The bytes that the lexer moves on by are
those of the characters that belong to the literal, so they end at a character or with the text. -/
theorem literalMove?_eq (hc : c = '"' ∨ c = '\x27') (rest : List Char) :
    literalMove? c rest =
      some ((scan c rest).1, Text.byteLength (rest.take (scan c rest).2)) := by
  rcases hc with rfl | rfl
  · exact congrArg some (stringLiteralMove_eq rest)
  · exact charLiteralMove?_eq rest

end Token

end MipsLab
