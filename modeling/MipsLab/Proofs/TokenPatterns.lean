import Mathlib.Data.List.TakeWhile
import MipsLab.Proofs.LiteralBytes

/-!
# Patterns of tokens

What a lexeme may look like, apart from the order in which the lexer tries things: a first
character, what has to follow it at once, and what the lexeme goes on with. No two patterns start
with the same character, so the longest piece of a text that any pattern matches is what the pattern
of the first character takes. Literals in quotes are no patterns; they are read by bytes.

1. `Token.Pattern.Matches`: the patterns.
2. `Token.Pattern.starts_inj`: the first character tells the pattern.
3. `Token.LongestMatch`: what is found at a place in a text.
4. `Token.longestMatch_of_starts`, `Token.longestMatch_stray`: how it is found.
-/

namespace MipsLab

namespace Token

/-- The patterns of the tokens without quotes. -/
inductive Pattern
  | punctuation
  | comment
  | register
  | unsigned
  | negative
  | name
  | directive
deriving DecidableEq

namespace Pattern

def starts : Pattern → Char → Bool
  | punctuation, c => c ∈ [':', ',', '(', ')', '+', '\n']
  | comment, c => c = '#'
  | register, c => c = '$'
  | unsigned, c => Text.isDigit c
  | negative, c => c = '-'
  | name, c => Text.isNameStart c
  | directive, c => c = '.'

/-- What has to be there behind the first character. -/
def needs : Pattern → List Char → Bool
  | negative, text => text.head?.any Text.isDigit
  | directive, text => text.head?.any Text.isNameStart
  | _, _ => true

def goesOn : Pattern → Char → Bool
  | punctuation, _ => false
  | comment, c => c != '\n'
  | name, c => continuesName c
  | _, c => Text.isWord c

/-- A pattern matches all of a piece of text. -/
def Matches (p : Pattern) : List Char → Prop
  | [] => False
  | c :: text => p.starts c = true ∧ p.needs text = true ∧ ∀ d ∈ text, p.goesOn d = true

/-- The pattern that starts with a character, if there is one. -/
def ofStart? (c : Char) : Option Pattern :=
  if Text.isDigit c then some unsigned
  else if Text.isNameStart c then some name
  else if c ∈ [':', ',', '(', ')', '+', '\n'] then some punctuation
  else if c = '#' then some comment
  else if c = '$' then some register
  else if c = '-' then some negative
  else if c = '.' then some directive
  else none

variable {p q : Pattern} {c : Char} {text rest : List Char}

theorem ofStart?_of_starts (h : p.starts c = true) : ofStart? c = some p := by
  cases p with
  | punctuation =>
    have hsign : c = ':' ∨ c = ',' ∨ c = '(' ∨ c = ')' ∨ c = '+' ∨ c = '\n' := by
      simpa [starts] using h
    rcases hsign with rfl | rfl | rfl | rfl | rfl | rfl <;> rfl
  | comment | register | negative | directive =>
    obtain rfl := of_decide_eq_true h
    rfl
  | unsigned => exact if_pos h
  | name =>
    have hdigit : ¬Text.isDigit c = true := by
      rw [Text.isDigit_of_isNameStart h]
      nofun
    exact (if_neg hdigit).trans (if_pos h)

/-- The first character tells the pattern. -/
theorem starts_inj (hp : p.starts c = true) (hq : q.starts c = true) : p = q :=
  Option.some.inj ((ofStart?_of_starts hp).symm.trans (ofStart?_of_starts hq))

theorem goesOn_newline (p : Pattern) : p.goesOn '\n' = false := by
  cases p <;> decide

/-- What is there at once is there in a longer text too. -/
theorem needs_mono (h : text <+: rest) (hneeds : p.needs text = true) :
    p.needs rest = true := by
  obtain ⟨more, rfl⟩ := h
  cases text with
  | nil =>
    cases p with
    | negative | directive => exact nomatch hneeds
    | punctuation | comment | register | unsigned | name => rfl
  | cons c text =>
    cases p <;> exact hneeds

/-- What a pattern matches at a place, it matches within what it goes on with there. -/
theorem Matches.within (h : p.Matches text) (htext : text <+: c :: rest) :
    p.starts c = true ∧ p.needs (rest.takeWhile p.goesOn) = true ∧
      text.length ≤ (rest.takeWhile p.goesOn).length + 1 := by
  cases text with
  | nil => exact h.elim
  | cons d text =>
    obtain ⟨hstarts, hneeds, hgoesOn⟩ := h
    obtain ⟨rfl, more, rfl⟩ := List.cons_prefix_cons.mp htext
    have htaken : text <+: (text ++ more).takeWhile p.goesOn := by
      rw [List.takeWhile_append_of_pos hgoesOn]
      exact List.prefix_append text _
    exact ⟨hstarts, needs_mono htaken hneeds, Nat.succ_le_succ htaken.length_le⟩

end Pattern

/-- What is found at a place in a text, and with which piece of it: the longest piece that a pattern
matches, or an error for a single character if none does. A quote is followed by as many bytes as
are moved on by behind it. -/
inductive LongestMatch : Except LexError Token → List Char → List Char → Prop
  | quoted {result : Except LexError Token} {c : Char} {piece behind : List Char}
    (hc : c = '"' ∨ c = '\x27')
    (hmove : literalMove? c (piece ++ behind) = some (result, Text.byteLength piece)) :
    LongestMatch result (c :: piece) behind
  | matched {result : Except LexError Token} {p : Pattern} {piece behind : List Char}
    (hresult : result ≠ .error .strayCharacter) (hmatches : p.Matches piece)
    (hlongest : ∀ (q : Pattern) (text : List Char), text <+: piece ++ behind → q.Matches text →
      text.length ≤ piece.length) : LongestMatch result piece behind
  | stray {c : Char} {behind : List Char}
    (hnone : ∀ (q : Pattern) (text : List Char), text <+: c :: behind → ¬q.Matches text) :
    LongestMatch (.error .strayCharacter) [c] behind

variable {p : Pattern} {c : Char} {rest : List Char} {result : Except LexError Token}

theorem longestMatch_of_starts (hresult : result ≠ .error .strayCharacter)
    (hstarts : p.starts c = true) (hneeds : p.needs (rest.takeWhile p.goesOn) = true) :
    LongestMatch result (c :: rest.take (rest.takeWhile p.goesOn).length)
      (rest.drop (rest.takeWhile p.goesOn).length) := by
  have htake : rest.take (rest.takeWhile p.goesOn).length = rest.takeWhile p.goesOn :=
    (List.prefix_iff_eq_take.mp (List.takeWhile_prefix _)).symm
  refine .matched (p := p) hresult ?_ fun q text htext hmatches => ?_
  · rw [htake]
    exact ⟨hstarts, hneeds, fun d hd => List.mem_takeWhile_imp hd⟩
  · rw [List.cons_append, List.take_append_drop] at htext
    obtain ⟨hstart, -, hlength⟩ := hmatches.within htext
    obtain rfl := Pattern.starts_inj hstarts hstart
    rw [htake]
    exact hlength

theorem longestMatch_quoted {found : Except LexError Token × Nat} (hc : c = '"' ∨ c = '\x27')
    (hmove : literalMove? c rest = some (found.1, Text.byteLength (rest.take found.2))) :
    LongestMatch found.1 (c :: rest.take found.2) (rest.drop found.2) :=
  .quoted hc (by rwa [List.take_append_drop])

theorem longestMatch_punctuation (hresult : result ≠ .error .strayCharacter)
    (hstarts : Pattern.punctuation.starts c = true) : LongestMatch result [c] rest := by
  have hnone : (rest.takeWhile Pattern.punctuation.goesOn).length = 0 := by cases rest <;> rfl
  have hlongest : LongestMatch result
      (c :: rest.take (rest.takeWhile Pattern.punctuation.goesOn).length) (rest.drop _) :=
    longestMatch_of_starts hresult hstarts rfl
  rwa [hnone] at hlongest

theorem longestMatch_stray
    (h : ∀ p : Pattern, p.starts c = true → p.needs (rest.takeWhile p.goesOn) = false) :
    LongestMatch (.error .strayCharacter) [c] rest := by
  refine .stray fun q text htext hmatches => ?_
  obtain ⟨hstart, hneeds, -⟩ := hmatches.within htext
  exact Bool.noConfusion ((h q hstart).symm.trans hneeds)

end Token

end MipsLab
