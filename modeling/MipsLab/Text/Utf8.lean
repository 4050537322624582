/-!
# UTF-8

Reading bytes as text. Bytes that are not UTF-8 become the replacement character, one for every
longest run of bytes that starts a character and cannot be finished.
-/

namespace MipsLab.Text

/-- What stands for bytes that are no character. -/
def replacement : Char := '\uFFFD'

/-- What the first byte of a character tells about the rest of it. -/
structure Utf8Lead where
  /-- How many bytes follow. -/
  following : Nat
  /-- The least second byte. -/
  low : UInt8
  /-- The greatest second byte. -/
  high : UInt8
  /-- The leading bits of the code point. -/
  bits : Nat

/-- Reads the first byte of a character of more than one byte. The bounds on the second byte exclude
code points that fewer bytes can write, surrogates, and what lies beyond the last code point. -/
def utf8Lead? (b : UInt8) : Option Utf8Lead :=
  if b < 0xC2 then none
  else if b < 0xE0 then some ⟨1, 0x80, 0xBF, b.toNat - 0xC0⟩
  else if b < 0xF0 then
    some ⟨2, if b = 0xE0 then 0xA0 else 0x80, if b = 0xED then 0x9F else 0xBF, b.toNat - 0xE0⟩
  else if b < 0xF5 then
    some ⟨3, if b = 0xF0 then 0x90 else 0x80, if b = 0xF4 then 0x8F else 0xBF, b.toNat - 0xF0⟩
  else none

/-- Reads the following bytes of a character, and gives the bytes behind them. -/
def utf8Finish (low high : UInt8) (bits : Nat) : Nat → List UInt8 → Char × List UInt8
  | 0, rest => (Char.ofNat bits, rest)
  | _ + 1, [] => (replacement, [])
  | following + 1, b :: rest =>
    if low ≤ b ∧ b ≤ high then
      utf8Finish 0x80 0xBF (bits * 0x40 + b.toNat % 0x40) following rest
    else (replacement, b :: rest)

theorem utf8Finish_length_le (low high : UInt8) (bits following : Nat) (bytes : List UInt8) :
    (utf8Finish low high bits following bytes).2.length ≤ bytes.length := by
  fun_induction utf8Finish low high bits following bytes with
  | case1 => simp
  | case2 => simp
  | case3 _ _ _ _ _ _ _ ih => simpa using Nat.le_succ_of_le ih
  | case4 => simp

/-- Reads the first character of some bytes, and gives the bytes behind it. -/
def utf8Char (b : UInt8) (rest : List UInt8) : Char × List UInt8 :=
  if b < 0x80 then (Char.ofNat b.toNat, rest)
  else
    match utf8Lead? b with
    | some lead => utf8Finish lead.low lead.high lead.bits lead.following rest
    | none => (replacement, rest)

theorem utf8Char_length_le (b : UInt8) (rest : List UInt8) :
    (utf8Char b rest).2.length ≤ rest.length := by
  unfold utf8Char
  split
  · simp
  · split
    · exact utf8Finish_length_le ..
    · simp

/-- The text of some bytes, with a replacement for what is no UTF-8. -/
def decodeLossy : List UInt8 → List Char
  | [] => []
  | b :: rest => (utf8Char b rest).1 :: decodeLossy (utf8Char b rest).2
termination_by bytes => bytes.length
decreasing_by exact Nat.lt_succ_of_le (utf8Char_length_le b rest)

/-- The text of some bytes, if all of them are UTF-8. The replacement character stands for itself if
the text, written again, gives the same bytes. -/
def decode? (bytes : List UInt8) : Option (List Char) :=
  let chars := decodeLossy bytes
  if chars.flatMap String.utf8EncodeChar = bytes then some chars else none

end MipsLab.Text
