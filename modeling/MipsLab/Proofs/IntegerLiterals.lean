import Mathlib.Data.Nat.Digits.Defs
import MipsLab.Proofs.Tiling

/-!
# Integer literals

A piece of text that is matched as a number is one lexeme, and what it is read as depends on the
piece alone. It is the value that its digits write in their base, with its sign, if it has digits,
if all of them are digits of the base, and if the value is in range. Otherwise it is one error,
which tells the first of these that fails.

1. `Numeral.IsDigit`, `Numeral.Writes`: what digits stand for, told without reading them.
2. `Numeral.read_of_writes`, `Numeral.read_of_bad`: how far reading comes.
3. `Token.Based`: the base of a literal and its digits.
4. `Token.readNumber_of_writes`, `Token.readNumber_eq_ok_iff`: what a literal is read as.
5. `Token.lexFrom_number`, `Token.result_of_covers`: where a literal stands.
6. `Token.integer_literals_exact`: all of it, and that what is printed is read back.
-/

namespace MipsLab

namespace Numeral

variable {base limit n : Nat} {c : Char} {cs front : List Char}

/-! ## Digits -/

/-- A character stands for a digit of a base, as a small letter or as a capital from ten on. -/
def IsDigit (base : Nat) (c : Char) (d : Nat) : Prop :=
  d < base ∧ ("0123456789abcdef".toList[d]? = some c ∨ "0123456789ABCDEF".toList[d]? = some c)

/-- Some characters are digits of a base, and write a number with them. -/
def Writes (base : Nat) (cs : List Char) (n : Nat) : Prop :=
  ∃ ds, List.Forall₂ (IsDigit base) cs ds ∧ Nat.ofDigits base ds.reverse = n

theorem digitValue?_eq_some_iff {d : Nat} : digitValue? c = some d ↔ IsDigit 16 c d := by
  have hascii (h : digitValue? c = some d) : c.toNat < 128 := by
    by_contra hhigh
    have hout (last : Char) (hlast : last.toNat < 128) : ¬c ≤ last := fun hle =>
      hhigh (Nat.lt_of_le_of_lt (Text.nat_le_of_char_le hle) hlast)
    rw [digitValue?, if_neg fun hc => hout '9' (by decide) hc.2,
      if_neg fun hc => hout 'f' (by decide) hc.2, if_neg fun hc => hout 'F' (by decide) hc.2] at h
    exact nomatch h
  constructor
  · intro h
    have hall : ∀ n, n < 128 → ∀ d ∈ digitValue? (Char.ofNat n), IsDigit 16 (Char.ofNat n) d := by
      unfold IsDigit
      decide +kernel
    have hc := hall c.toNat (hascii h)
    rw [Char.ofNat_toNat] at hc
    exact hc d h
  · rintro ⟨hd, hc⟩
    have hall : ∀ d, d < 16 → "0123456789abcdef".toList[d]?.bind digitValue? = some d ∧
        "0123456789ABCDEF".toList[d]?.bind digitValue? = some d := by decide +kernel
    obtain ⟨hsmall, hcapital⟩ := hall d hd
    rcases hc with hc | hc
    · rwa [hc] at hsmall
    · rwa [hc] at hcapital

theorem digitOf?_eq_some_iff (hbase : base ≤ 16) {d : Nat} :
    digitOf? base c = some d ↔ IsDigit base c d := by
  rw [digitOf?, Option.filter_eq_some_iff, digitValue?_eq_some_iff, decide_eq_true_iff]
  unfold IsDigit
  constructor
  · rintro ⟨⟨-, hc⟩, hd⟩
    exact ⟨hd, hc⟩
  · rintro ⟨hd, hc⟩
    exact ⟨⟨Nat.lt_of_lt_of_le hd hbase, hc⟩, hd⟩

theorem digitOf?_eq_none (hbase : base ≤ 16) (h : ∀ d, ¬IsDigit base c d) :
    digitOf? base c = none :=
  Option.eq_none_iff_forall_ne_some.mpr fun d hd => h d ((digitOf?_eq_some_iff hbase).mp hd)

/-- A digit that is a capital is as good as a small one. -/
theorem IsDigit.toLower {d : Nat} (h : IsDigit 16 c d) : IsDigit 16 c.toLower d := by
  have hall : ∀ d, d < 16 →
      "0123456789abcdef".toList[d]?.map Char.toLower = "0123456789abcdef".toList[d]? ∧
      "0123456789ABCDEF".toList[d]?.map Char.toLower = "0123456789abcdef".toList[d]? := by
    decide +kernel
  obtain ⟨hd, hc⟩ := h
  obtain ⟨hsmall, hcapital⟩ := hall d hd
  refine ⟨hd, .inl ?_⟩
  rcases hc with hc | hc
  · rw [← hsmall, hc, Option.map_some]
  · rw [← hcapital, hc, Option.map_some]

theorem IsDigit.mem {d : Nat} (h : IsDigit base c d) :
    c ∈ "0123456789abcdef".toList.take base ∨ c ∈ "0123456789ABCDEF".toList.take base :=
  h.2.imp (fun hc => List.mem_of_getElem? ((List.getElem?_take_of_lt h.1).trans hc))
    fun hc => List.mem_of_getElem? ((List.getElem?_take_of_lt h.1).trans hc)

/-- The digits of all bases go on as words do. -/
theorem IsDigit.isWord {d : Nat} (h : IsDigit base c d) : Text.isWord c = true := by
  have hsmall : "0123456789abcdef".toList.all Text.isWord = true := by decide +kernel
  have hcapital : "0123456789ABCDEF".toList.all Text.isWord = true := by decide +kernel
  rcases h.mem with hc | hc
  · exact List.all_eq_true.mp hsmall c (List.mem_of_mem_take hc)
  · exact List.all_eq_true.mp hcapital c (List.mem_of_mem_take hc)

theorem IsDigit.isDigit {d : Nat} (h : IsDigit 10 c d) : Text.isDigit c = true := by
  have hall : ("0123456789abcdef".toList.take 10).all Text.isDigit = true ∧
      ("0123456789ABCDEF".toList.take 10).all Text.isDigit = true := by decide +kernel
  rcases h.mem with hc | hc
  · exact List.all_eq_true.mp hall.1 c hc
  · exact List.all_eq_true.mp hall.2 c hc

theorem Writes.isDigit_mem (h : Writes base cs n) : ∀ c ∈ cs, ∃ d, IsDigit base c d := by
  obtain ⟨ds, hds, -⟩ := h
  induction hds with
  | nil => exact List.forall_mem_nil _
  | cons hc _ ih => exact List.forall_mem_cons.mpr ⟨⟨_, hc⟩, ih⟩

theorem Writes.isWord (h : Writes base cs n) : ∀ c ∈ cs, Text.isWord c = true := by
  intro c hc
  obtain ⟨d, hd⟩ := h.isDigit_mem c hc
  exact hd.isWord

/-! ## Reading -/

/-- The value of some digits behind a part whose value is known. -/
def valueFrom (base value : Nat) (ds : List Nat) : Nat :=
  ds.foldl (fun value d => value * base + d) value

theorem valueFrom_zero (base : Nat) (ds : List Nat) :
    valueFrom base 0 ds = Nat.ofDigits base ds.reverse := by
  have hstep : (fun value d : Nat => value * base + d) = fun value d => d + base * value := by
    funext value d
    rw [Nat.mul_comm, Nat.add_comm]
  rw [Nat.ofDigits_eq_foldr, List.foldr_reverse, valueFrom, hstep]
  rfl

theorem le_valueFrom (hbase : 0 < base) (value : Nat) (ds : List Nat) :
    value ≤ valueFrom base value ds := by
  unfold valueFrom
  induction ds generalizing value with
  | nil => exact Nat.le_refl value
  | cons d ds ih =>
    calc value ≤ value * base := Nat.le_mul_of_pos_right value hbase
      _ ≤ value * base + d := Nat.le_add_right _ d
      _ ≤ (d :: ds).foldl (fun value d => value * base + d) value := ih _

/-- Digits are read up to the one with which the value gets too large, if there is one. -/
theorem readFrom_append_digits (hlow : 0 < base) (hhigh : base ≤ 16) {ds : List Nat}
    (h : List.Forall₂ (IsDigit base) front ds) (value : Nat) (hvalue : value ≤ limit)
    (cs : List Char) :
    readFrom base limit value (front ++ cs) =
      if limit < valueFrom base value ds then .error .tooLarge
      else readFrom base limit (valueFrom base value ds) cs := by
  induction h generalizing value with
  | nil => exact (if_neg (Nat.not_lt_of_le hvalue)).symm
  | @cons c d front ds hc _ ih =>
    rw [List.cons_append, readFrom, (digitOf?_eq_some_iff hhigh).mpr hc]
    simp only
    split
    · next hlarge =>
      exact (if_pos (Nat.lt_of_lt_of_le hlarge (le_valueFrom hlow _ ds))).symm
    · next hle => exact ih _ (Nat.le_of_not_lt hle)

theorem read_append_of_writes (hlow : 0 < base) (hhigh : base ≤ 16) (h : Writes base front n)
    (hne : front ++ cs ≠ []) :
    read base limit (front ++ cs) =
      if limit < n then .error .tooLarge else readFrom base limit n cs := by
  obtain ⟨ds, hds, rfl⟩ := h
  rw [read, List.isEmpty_eq_false_iff.mpr hne, ← valueFrom_zero]
  exact readFrom_append_digits hlow hhigh hds 0 (Nat.zero_le _) cs

/-- All characters are digits, or there is a first one that is none. -/
theorem writes_or_not (base : Nat) (cs : List Char) :
    (∃ n, Writes base cs n) ∨
      ∃ front c back n, cs = front ++ c :: back ∧ Writes base front n ∧ ∀ d, ¬IsDigit base c d := by
  suffices h : (∃ ds, List.Forall₂ (IsDigit base) cs ds) ∨ ∃ front c back ds,
      cs = front ++ c :: back ∧ List.Forall₂ (IsDigit base) front ds ∧ ∀ d, ¬IsDigit base c d by
    rcases h with ⟨ds, hds⟩ | ⟨front, c, back, ds, hcs, hds, hbad⟩
    · exact .inl ⟨_, ds, hds, rfl⟩
    · exact .inr ⟨front, c, back, _, hcs, ⟨ds, hds, rfl⟩, hbad⟩
  induction cs with
  | nil => exact .inl ⟨[], .nil⟩
  | cons c cs ih =>
    by_cases hc : ∃ d, IsDigit base c d
    · obtain ⟨d, hd⟩ := hc
      rcases ih with ⟨ds, hds⟩ | ⟨front, bad, back, ds, rfl, hds, hbad⟩
      · exact .inl ⟨d :: ds, .cons hd hds⟩
      · exact .inr ⟨c :: front, bad, back, d :: ds, rfl, .cons hd hds, hbad⟩
    · exact .inr ⟨[], c, cs, [], rfl, .nil, not_exists.mp hc⟩

theorem read_of_writes (hlow : 0 < base) (hhigh : base ≤ 16) (h : Writes base cs n)
    (hne : cs ≠ []) : read base limit cs = if limit < n then .error .tooLarge else .ok n := by
  have hread : read base limit (cs ++ []) = if limit < n then .error .tooLarge else .ok n :=
    read_append_of_writes hlow hhigh h ((List.append_nil cs).symm ▸ hne)
  rwa [List.append_nil] at hread

theorem read_of_bad (hlow : 0 < base) (hhigh : base ≤ 16) (h : Writes base front n)
    (hbad : ∀ d, ¬IsDigit base c d) (back : List Char) :
    read base limit (front ++ c :: back) =
      .error (if limit < n then .tooLarge else .badDigit) := by
  have hne : front ++ c :: back ≠ [] :=
    List.append_ne_nil_of_right_ne_nil _ (List.cons_ne_nil _ _)
  rw [read_append_of_writes hlow hhigh h hne, readFrom, digitOf?_eq_none hhigh hbad]
  split <;> rfl

/-- What is read is what is written. -/
theorem writes_of_read (hlow : 0 < base) (hhigh : base ≤ 16) (h : read base limit cs = .ok n) :
    cs ≠ [] ∧ Writes base cs n := by
  have hne : cs ≠ [] := by
    rintro rfl
    exact nomatch h
  refine ⟨hne, ?_⟩
  rcases writes_or_not base cs with ⟨m, hm⟩ | ⟨front, c, back, m, rfl, hm, hbad⟩
  · rw [read_of_writes hlow hhigh hm hne] at h
    split at h
    · exact nomatch h
    · obtain rfl := Except.ok.inj h
      exact hm
  · rw [read_of_bad hlow hhigh hm hbad] at h
    exact nomatch h

/-! ## Writing -/

theorem writes_digits (hlow : 2 ≤ base) (hhigh : base ≤ 16) (n : Nat) :
    Writes base (digits base n) n :=
  (writes_of_read (Nat.lt_of_lt_of_le Nat.zero_lt_two hlow) hhigh
    (read_digits hlow hhigh (Nat.le_refl n))).2

theorem writes_lowerHex (n : Nat) : Writes 16 (lowerHex n) n := by
  obtain ⟨ds, hds, hn⟩ : Writes 16 (digits 16 n) n :=
    writes_digits (by decide) (Nat.le_refl 16) n
  refine ⟨ds, ?_, hn⟩
  rw [lowerHex, List.forall₂_map_left_iff]
  exact hds.imp fun _ _ => IsDigit.toLower

theorem writes_paddedHex (n : Nat) : Writes 16 (paddedHex n) n :=
  (writes_of_read (by decide) (Nat.le_refl 16) (read_paddedHex (Nat.le_refl n))).2

end Numeral

namespace Token

open Numeral

/-! ## Literals -/

/-- The base of a literal, and its digits behind the mark of the base. -/
inductive Based : List Char → Nat → List Char → Prop
  | hex {x : Char} (hx : x = 'x' ∨ x = 'X') (digits : List Char) :
    Based ('0' :: x :: digits) 16 digits
  | decimal {digits : List Char}
    (h : ∀ x rest, digits = '0' :: x :: rest → x ≠ 'x' ∧ x ≠ 'X') : Based digits 10 digits

theorem exists_based (text : List Char) : ∃ base digits, Based text base digits := by
  by_cases h : ∃ x rest, text = '0' :: x :: rest ∧ (x = 'x' ∨ x = 'X')
  · obtain ⟨x, rest, rfl, hx⟩ := h
    exact ⟨16, rest, .hex hx rest⟩
  · refine ⟨10, text, .decimal fun x rest htext => ?_⟩
    exact not_or.mp fun hx => h ⟨x, rest, htext, hx⟩

/-- What is wrong with a literal that holds another character than the digits of its base. -/
def badDigit (base : Nat) : LexError := if base = 16 then .badHexDigit else .badDecimalDigit

/-- What is wrong with a literal that has no digits. -/
def noDigits (base : Nat) : LexError := if base = 16 then .noHexDigits else .badDecimalDigit

variable {kind : Signedness} {text digits : List Char} {base n : Nat}

theorem Based.bounds (h : Based text base digits) : 0 < base ∧ base ≤ 16 := by
  cases h <;> decide

/-- What is wrong with a literal whose digits cannot be read. -/
def literalError (base : Nat) (kind : Signedness) : Numeral.ReadError → LexError
  | .empty => noDigits base
  | .badDigit => badDigit base
  | .tooLarge => .outOfRange kind

theorem readMagnitude_eq (h : Based text base digits) (kind : Signedness) :
    readMagnitude kind text =
      (Numeral.read base maxMagnitude digits).mapError (literalError base kind) := by
  unfold readMagnitude
  split
  next found rest whenBad whenEmpty hmatch =>
    have hfound : found = base ∧ rest = digits ∧ whenBad = badDigit base ∧
        whenEmpty = noDigits base := by
      cases h with
      | hex hx digits => rcases hx with rfl | rfl <;> cases hmatch <;> exact ⟨rfl, rfl, rfl, rfl⟩
      | decimal h =>
        split at hmatch
        · next rest => exact absurd rfl (h 'x' rest rfl).1
        · next rest => exact absurd rfl (h 'X' rest rfl).2
        · cases hmatch
          exact ⟨rfl, rfl, rfl, rfl⟩
    obtain ⟨rfl, rfl, rfl, rfl⟩ := hfound
    cases Numeral.read found maxMagnitude rest with
    | ok n => rfl
    | error e => cases e <;> rfl

/-! ## Numbers -/

/-- What stands before the digits of a number, or of the mark of their base. -/
def sign : Signedness → List Char
  | .unsigned => []
  | .signed => ['-']

/-- The greatest magnitude of a number with a sign or without. -/
def greatest : Signedness → Nat
  | .unsigned => 0xFFFFFFFF
  | .signed => 0x80000000

/-- The token of a magnitude with its sign. -/
def number : Signedness → Nat → Token
  | .unsigned, n => unsigned (UInt32.ofNat n)
  | .signed, n => signed (-n)

def numberPattern : Signedness → Pattern
  | .unsigned => .unsigned
  | .signed => .negative

def readNumber : Signedness → List Char → Except LexError Token
  | .unsigned => readUnsigned
  | .signed => readNegative

theorem readNumber_error {e : LexError} (h : readMagnitude kind text = .error e) :
    readNumber kind text = .error e := by
  cases kind with
  | unsigned => rw [readNumber, readUnsigned, h]; rfl
  | signed => rw [readNumber, readNegative, h]; rfl

/-- Digits of the base write a number, and it has to be in range. -/
theorem readNumber_of_writes (hbased : Based text base digits) (hne : digits ≠ [])
    (h : Writes base digits n) (kind : Signedness) :
    readNumber kind text =
      if greatest kind < n then .error (.outOfRange kind) else .ok (number kind n) := by
  have hread := readMagnitude_eq hbased kind
  rw [read_of_writes hbased.bounds.1 hbased.bounds.2 h hne] at hread
  by_cases hlarge : maxMagnitude < n
  · rw [if_pos hlarge] at hread
    have hgreatest : greatest kind < n :=
      Nat.lt_of_le_of_lt (by cases kind <;> decide) hlarge
    rw [readNumber_error hread, if_pos hgreatest]
    rfl
  · rw [if_neg hlarge] at hread
    cases kind with
    | unsigned =>
      have hgreatest : ¬greatest .unsigned < n := hlarge
      rw [readNumber, readUnsigned, hread, if_neg hgreatest]
      rfl
    | signed =>
      have hlow : -(n : Int) < Word.minSigned ↔ greatest .signed < n := by
        have hgreatest : greatest .signed = 0x80000000 := rfl
        rw [hgreatest, Word.minSigned]
        omega
      rw [readNumber, readNegative, hread]
      show (if -(n : Int) < Word.minSigned then _ else _) = _
      simp only [hlow]
      rfl

/-- The first character that is no digit is an error, unless the digits before it are too many. -/
theorem readNumber_of_bad {front back : List Char} {c : Char}
    (hbased : Based text base (front ++ c :: back)) (h : Writes base front n)
    (hbad : ∀ d, ¬IsDigit base c d) (kind : Signedness) :
    readNumber kind text =
      .error (if maxMagnitude < n then .outOfRange kind else badDigit base) := by
  have hread := readMagnitude_eq hbased kind
  rw [read_of_bad hbased.bounds.1 hbased.bounds.2 h hbad] at hread
  rw [readNumber_error hread]
  split <;> rfl

theorem readNumber_of_empty (hbased : Based text base []) (kind : Signedness) :
    readNumber kind text = .error (noDigits base) :=
  readNumber_error (readMagnitude_eq hbased kind)

/-- What a literal is read as, if it is read. -/
theorem readNumber_eq_ok_iff {token : Token} :
    readNumber kind text = .ok token ↔ ∃ base digits n, Based text base digits ∧ digits ≠ [] ∧
      Writes base digits n ∧ n ≤ greatest kind ∧ token = number kind n := by
  constructor
  · intro h
    obtain ⟨base, digits, hbased⟩ := exists_based text
    by_cases hne : digits = []
    · subst hne
      exact nomatch (readNumber_of_empty hbased kind).symm.trans h
    · rcases writes_or_not base digits with ⟨n, hn⟩ | ⟨front, c, back, n, rfl, hn, hbad⟩
      · rw [readNumber_of_writes hbased hne hn] at h
        split at h
        · exact nomatch h
        · next hle =>
          exact ⟨base, digits, n, hbased, hne, hn, Nat.le_of_not_lt hle, (Except.ok.inj h).symm⟩
      · exact nomatch (readNumber_of_bad hbased hn hbad kind).symm.trans h
  · rintro ⟨base, digits, n, hbased, hne, hn, hle, rfl⟩
    rw [readNumber_of_writes hbased hne hn, if_neg (Nat.not_lt_of_le hle)]

/-! ## Places -/

/-- What is found where a number starts. -/
theorem scan_number {c : Char} {rest : List Char} (hstarts : (numberPattern kind).starts c = true)
    (hneeds : (numberPattern kind).needs (rest.takeWhile Text.isWord) = true) :
    isSeparator c = false ∧ ∃ text, sign kind ++ text = c :: rest.takeWhile Text.isWord ∧
      scan c rest = (readNumber kind text, (rest.takeWhile Text.isWord).length) := by
  cases kind with
  | unsigned =>
    obtain ⟨hseparator, hscan⟩ := scan_word (.inl hstarts)
    exact ⟨hseparator, _, rfl, (hscan rest).trans (if_pos hstarts)⟩
  | signed =>
    obtain rfl : c = '-' := of_decide_eq_true hstarts
    refine ⟨by decide, _, rfl, ?_⟩
    have hany : (rest.takeWhile Text.isWord).head?.any Text.isDigit = true := hneeds
    have hdigit : ((rest.takeWhile Text.isWord).head?.map Text.isDigit).getD false = true := by
      generalize (rest.takeWhile Text.isWord).head? = first at hany ⊢
      cases first <;> exact hany
    unfold scan
    simp only [hdigit]
    rfl

/-- A number up to a character that no number goes on with is one lexeme. -/
theorem lexFrom_number (hmatches : (numberPattern kind).Matches (sign kind ++ text)) (offset : Nat)
    {behind : List Char} (hbehind : ∀ c ∈ behind.head?, Text.isWord c = false) :
    lexFrom offset (sign kind ++ text ++ behind) =
      ⟨readNumber kind text, offset, offset + Text.byteLength (sign kind ++ text)⟩ ::
        lexFrom (offset + Text.byteLength (sign kind ++ text)) behind := by
  cases hpiece : sign kind ++ text with
  | nil =>
    rw [hpiece] at hmatches
    exact hmatches.elim
  | cons c rest =>
    rw [hpiece] at hmatches
    obtain ⟨hstarts, hneeds, hgoesOn⟩ := hmatches
    have hword : ∀ d ∈ rest, Text.isWord d = true := by
      cases kind <;> exact hgoesOn
    have htaken := takeWhile_of_head hword hbehind
    have hneeds' : (numberPattern kind).needs ((rest ++ behind).takeWhile Text.isWord) = true := by
      rwa [htaken]
    obtain ⟨hseparator, text', htext', hscan⟩ := scan_number hstarts hneeds'
    rw [htaken] at htext' hscan
    obtain rfl := List.append_cancel_left (htext'.trans hpiece.symm)
    rw [List.cons_append, lexFrom_lexeme hseparator, hscan]
    simp only [List.take_left, List.drop_left, Text.byteLength, Nat.add_assoc]

/-- A lexeme that covers a number is what the number is read as. -/
theorem result_of_covers {chars : List Char} {l : Lexeme}
    (hmatches : (numberPattern kind).Matches (sign kind ++ text)) (hl : l ∈ lex chars)
    (hcovers : l.span.Covers 0 chars (sign kind ++ text)) : l.result = readNumber kind text := by
  obtain ⟨before, c, rest, hchars, hresult, hspan⟩ := mem_lexFrom 0 chars hl
  obtain ⟨before', behind, hchars', hspan'⟩ := hcovers
  obtain ⟨hstart, hstop⟩ := Span.mk.inj (hspan.symm.trans hspan')
  simp only [Nat.zero_add] at hstart hstop
  -- Both start behind the same text, and have as many bytes.
  have hrest : c :: rest = sign kind ++ text ++ behind := by
    rw [← Text.dropBytes_byteLength before (c :: rest), hstart, ← hchars, hchars',
      List.append_assoc, Text.dropBytes_byteLength]
  have hpiece : c :: rest.take (scan c rest).2 = sign kind ++ text := by
    rw [Text.byteLength_append, Text.byteLength_append, hstart, Nat.add_left_cancel_iff] at hstop
    have hsplit : c :: rest = c :: rest.take (scan c rest).2 ++ rest.drop (scan c rest).2 := by
      rw [List.cons_append, List.take_append_drop]
    rw [← Text.takeBytes_byteLength (c :: rest.take (scan c rest).2) (rest.drop (scan c rest).2),
      ← hsplit, hstop, hrest, Text.takeBytes_byteLength]
  have hprefix : sign kind ++ text <+: c :: rest := ⟨behind, hrest.symm⟩
  obtain ⟨hstarts, hneeds, -⟩ := hmatches.within hprefix
  have hgoesOn : (numberPattern kind).goesOn = Text.isWord := by cases kind <;> rfl
  rw [hgoesOn] at hneeds
  obtain ⟨-, text', htext', hscan⟩ := scan_number hstarts hneeds
  have htake : rest.take (rest.takeWhile Text.isWord).length = rest.takeWhile Text.isWord :=
    (List.prefix_iff_eq_take.mp (List.takeWhile_prefix _)).symm
  rw [hscan, htake, ← htext'] at hpiece
  rw [hresult, hscan, List.append_cancel_left hpiece]

/-! ## What is printed -/

/-- The ways in which a number is printed. -/
def spellings (n : Nat) : List (List Char) :=
  [decimal n, '0' :: 'x' :: lowerHex n, '0' :: 'x' :: upperHex n, '0' :: 'X' :: lowerHex n,
    '0' :: 'X' :: upperHex n, '0' :: 'x' :: paddedHex n]

/-- A spelling is a mark of a base, if any, and digits of that base that write the number. -/
theorem based_of_mem_spellings (h : text ∈ spellings n) :
    ∃ base digits, Based text base digits ∧ digits ≠ [] ∧ Writes base digits n := by
  have hdecimal : ∀ x rest, decimal n = '0' :: x :: rest → x ≠ 'x' ∧ x ≠ 'X' := by
    intro x rest hrest
    have hx : x ∈ decimal n := by simp [hrest]
    obtain ⟨d, hd, rfl⟩ := mem_digits (by decide) hx
    have hall : ∀ d, d < 10 → digitChar d ≠ 'x' ∧ digitChar d ≠ 'X' := by decide +kernel
    exact hall d hd
  have hhex {x : Char} (hx : x = 'x' ∨ x = 'X') {digits : List Char} (hdigits : digits ≠ [])
      (hwrites : Writes 16 digits n) :
      ∃ base ds, Based ('0' :: x :: digits) base ds ∧ ds ≠ [] ∧ Writes base ds n :=
    ⟨16, digits, .hex hx digits, hdigits, hwrites⟩
  have hupper : upperHex n ≠ [] := digits_ne_nil 16 n
  have hlower : lowerHex n ≠ [] := fun h => hupper (List.map_eq_nil_iff.mp h)
  have hpadded : paddedHex n ≠ [] := List.append_ne_nil_of_right_ne_nil _ hupper
  have hwrites : Writes 16 (upperHex n) n := writes_digits (by decide) (Nat.le_refl 16) n
  simp only [spellings, List.mem_cons, List.not_mem_nil, or_false] at h
  rcases h with rfl | rfl | rfl | rfl | rfl | rfl
  · exact ⟨10, _, .decimal hdecimal, digits_ne_nil 10 n, writes_digits (by decide) (by decide) n⟩
  · exact hhex (.inl rfl) hlower (writes_lowerHex n)
  · exact hhex (.inl rfl) hupper hwrites
  · exact hhex (.inr rfl) hlower (writes_lowerHex n)
  · exact hhex (.inr rfl) hupper hwrites
  · exact hhex (.inl rfl) hpadded (writes_paddedHex n)

/-- What writes a number is matched as one. -/
theorem matches_of_writes (hbased : Based text base digits) (hne : digits ≠ [])
    (h : Writes base digits n) (kind : Signedness) :
    (numberPattern kind).Matches (sign kind ++ text) := by
  obtain ⟨c, rest, rfl, hdigit, hword⟩ : ∃ c rest, text = c :: rest ∧ Text.isDigit c = true ∧
      ∀ d ∈ c :: rest, Text.isWord d = true := by
    cases hbased with
    | @hex x hx digits =>
      have hmark : Text.isWord x = true := by rcases hx with rfl | rfl <;> decide
      refine ⟨'0', _, rfl, by decide, List.forall_mem_cons.mpr ⟨by decide, ?_⟩⟩
      exact List.forall_mem_cons.mpr ⟨hmark, h.isWord⟩
    | decimal =>
      obtain ⟨c, rest, rfl⟩ := List.exists_cons_of_ne_nil hne
      obtain ⟨d, hd⟩ := h.isDigit_mem c List.mem_cons_self
      exact ⟨c, rest, rfl, hd.isDigit, h.isWord⟩
  cases kind with
  | unsigned => exact ⟨hdigit, rfl, fun d hd => hword d (List.mem_cons_of_mem c hd)⟩
  | signed => exact ⟨rfl, hdigit, hword⟩

/-! ## Literals and places together -/

/-- Integer literals are exact. Whatever a number is matched in, it is one lexeme there, and what it
is read as depends on its own text alone. It is read as a value if and only if digits of its base
write that value and it is in range. Otherwise it is one error: that it is out of range, if only the
range is exceeded; that there are no digits behind the mark of a hexadecimal number; or that some
character is no digit of the base, unless the digits before it exceed all words already. What is
printed in any notation is read back. -/
theorem integer_literals_exact :
    (∀ (kind : Signedness) (text : List Char),
      (numberPattern kind).Matches (sign kind ++ text) → ∃ result,
        (∀ (chars : List Char) (l : Lexeme), l ∈ lex chars →
          l.span.Covers 0 chars (sign kind ++ text) → l.result = result) ∧
        (∀ (offset : Nat) (behind : List Char), (∀ c ∈ behind.head?, Text.isWord c = false) →
          lexFrom offset (sign kind ++ text ++ behind) =
            ⟨result, offset, offset + Text.byteLength (sign kind ++ text)⟩ ::
              lexFrom (offset + Text.byteLength (sign kind ++ text)) behind) ∧
        (∀ token, result = .ok token ↔ ∃ base digits n, Based text base digits ∧ digits ≠ [] ∧
          Writes base digits n ∧ n ≤ greatest kind ∧ token = number kind n) ∧
        (∀ base digits n, Based text base digits → digits ≠ [] → Writes base digits n →
          greatest kind < n → result = .error (.outOfRange kind)) ∧
        (Based text 16 [] → result = .error .noHexDigits) ∧
        ∀ base front c back n, Based text base (front ++ c :: back) → Writes base front n →
          (∀ d, ¬IsDigit base c d) →
            result = .error (if 0xFFFFFFFF < n then .outOfRange kind
              else if base = 16 then .badHexDigit else .badDecimalDigit)) ∧
    ∀ (kind : Signedness) (n : Nat), n ≤ greatest kind → ∀ text ∈ spellings n,
      lex (sign kind ++ text) =
        [⟨.ok (number kind n), 0, Text.byteLength (sign kind ++ text)⟩] := by
  refine ⟨fun kind text hmatches => ⟨readNumber kind text, ?_, ?_, ?_, ?_, ?_, ?_⟩, ?_⟩
  · intro chars l hl hcovers
    exact result_of_covers hmatches hl hcovers
  · intro offset behind hbehind
    exact lexFrom_number hmatches offset hbehind
  · intro token
    exact readNumber_eq_ok_iff
  · intro base digits n hbased hne hn hlarge
    rw [readNumber_of_writes hbased hne hn, if_pos hlarge]
  · intro hbased
    exact readNumber_of_empty hbased kind
  · intro base front c back n hbased hn hbad
    exact readNumber_of_bad hbased hn hbad kind
  · intro kind n hn text htext
    obtain ⟨base, digits, hbased, hne, hwrites⟩ := based_of_mem_spellings htext
    have hend : ∀ c ∈ ([] : List Char).head?, Text.isWord c = false := nofun
    have hlex := lexFrom_number (matches_of_writes hbased hne hwrites kind) 0 hend
    rw [List.append_nil, readNumber_of_writes hbased hne hwrites,
      if_neg (Nat.not_lt_of_le hn), Nat.zero_add, lexFrom] at hlex
    exact hlex

/-- The least number is read, and the one below it is out of range. -/
theorem integer_literals_exact_least :
    lex "-2147483648".toList = [⟨.ok (.signed (-2147483648)), 0, 11⟩] ∧
      (lex "-0x80000001".toList).map Lexeme.result = [.error (.outOfRange .signed)] := by
  have hdecimal : decimal 0x80000000 = "2147483648".toList := by decide +kernel
  have hleast := integer_literals_exact.2 .signed 0x80000000 (Nat.le_refl _) _ List.mem_cons_self
  have hbased : Based "0x80000001".toList 16 "80000001".toList := .hex (.inl rfl) _
  have hread : Numeral.read 16 0x80000001 "80000001".toList = .ok 0x80000001 := by decide +kernel
  have hwrites : Writes 16 "80000001".toList 0x80000001 :=
    (writes_of_read (by decide) (by decide) hread).2
  obtain ⟨result, -, hlex, -, hrange, -⟩ :=
    integer_literals_exact.1 .signed _ (matches_of_writes hbased (by decide) hwrites .signed)
  have hresult := hrange 16 "80000001".toList _ hbased (by decide) hwrites (by decide)
  have hone := hlex 0 [] nofun
  rw [hdecimal] at hleast
  refine ⟨hleast, ?_⟩
  rw [List.append_nil, lexFrom, hresult] at hone
  exact congrArg (List.map Lexeme.result) hone

end Token

end MipsLab
