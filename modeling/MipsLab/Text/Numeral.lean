/-!
# Numerals

Numbers as digits in a base from 2 to 16: reading, with a limit and with the three ways to fail, and
writing, which is the inverse of reading.
-/

namespace MipsLab.Numeral

/-! ## Digits -/

/-- The value of a digit, in bases up to 16. Letters count in both cases. -/
def digitValue? (c : Char) : Option Nat :=
  if '0' ≤ c ∧ c ≤ '9' then some (c.toNat - 48)
  else if 'a' ≤ c ∧ c ≤ 'f' then some (c.toNat - 87)
  else if 'A' ≤ c ∧ c ≤ 'F' then some (c.toNat - 55)
  else none

/-- The value of a digit of a base. -/
def digitOf? (base : Nat) (c : Char) : Option Nat :=
  (digitValue? c).filter (· < base)

/-- The character of a digit below 16, as a capital from ten on. -/
def digitChar (d : Nat) : Char :=
  Char.ofNat (if d < 10 then d + 48 else d + 55)

/-! ## Reading -/

/-- Why a text is not a numeral. -/
inductive ReadError
  /-- It has no digits. -/
  | empty
  /-- It holds a character that is no digit of the base. -/
  | badDigit
  /-- It exceeds the limit before any such character. -/
  | tooLarge
  deriving DecidableEq, Repr

/-- Reads digits after a part whose value is known. It stops at the first character that is no
digit, and as soon as the value exceeds the limit. -/
def readFrom (base limit : Nat) (value : Nat) : List Char → Except ReadError Nat
  | [] => .ok value
  | c :: cs =>
    match digitOf? base c with
    | none => .error .badDigit
    | some d =>
      if limit < value * base + d then .error .tooLarge
      else readFrom base limit (value * base + d) cs

/-- Reads a numeral of a base that is at most `limit`. -/
def read (base limit : Nat) (cs : List Char) : Except ReadError Nat :=
  if cs.isEmpty then .error .empty else readFrom base limit 0 cs

/-- Reads a decimal integer with an optional sign, from `low` to `high`. -/
def readInteger? (low high : Int) (cs : List Char) : Option Int :=
  let (negative, digits) :=
    match cs with
    | '-' :: rest => (true, rest)
    | '+' :: rest => (false, rest)
    | rest => (false, rest)
  match read 10 (max low.natAbs high.natAbs) digits with
  | .error _ => none
  | .ok n =>
    let value : Int := if negative then -n else n
    if low ≤ value ∧ value ≤ high then some value else none

/-! ## Writing -/

/-- Puts the digits of a number in front of a text; `fuel` bounds their count. -/
def digitsFrom (base : Nat) : Nat → Nat → List Char → List Char
  | 0, _, after => after
  | fuel + 1, n, after =>
    if n < base then digitChar n :: after
    else digitsFrom base fuel (n / base) (digitChar (n % base) :: after)

/-- The digits of a number in a base, without leading zeros. A number has at most one digit more
than its own value, so the fuel never runs out. -/
def digits (base n : Nat) : List Char := digitsFrom base (n + 1) n []

/-- A natural number in decimal. -/
def decimal (n : Nat) : List Char := digits 10 n

/-- An integer in decimal, with a minus sign if it is negative. -/
def signedDecimal (n : Int) : List Char :=
  if n < 0 then '-' :: decimal n.natAbs else decimal n.natAbs

/-- A natural number in hexadecimal, in capitals. -/
def upperHex (n : Nat) : List Char := digits 16 n

/-- A natural number in hexadecimal, in small letters. -/
def lowerHex (n : Nat) : List Char := (digits 16 n).map Char.toLower

/-- A natural number in hexadecimal with at least eight digits. -/
def paddedHex (n : Nat) : List Char := (upperHex n).leftpad 8 '0'

end MipsLab.Numeral
