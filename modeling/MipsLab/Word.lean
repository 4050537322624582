import MipsLab.Text.Numeral

/-!
# Words and addresses

Registers hold 32-bit words, and memory is addressed by the same words. Word arithmetic wraps at
`2 ^ 32`; a word has a second reading as a two's complement integer, and four bytes, the most
significant one first.
-/

namespace MipsLab

/-- A 32-bit machine word. -/
abbrev Word := UInt32

/-- The address of a byte. -/
abbrev Address := UInt32

namespace Word

/-! ## Two's complement -/

/-- The two's complement value of a word. -/
def signed (w : Word) : Int :=
  if w.toNat < 0x80000000 then w.toNat else (w.toNat : Int) - 0x100000000

/-- The word that is congruent to an integer modulo `2 ^ 32`. -/
def ofInt (n : Int) : Word := UInt32.ofNat (n % 0x100000000).toNat

/-- The least integer that a word can stand for in two's complement. -/
def minSigned : Int := -0x80000000

/-- The greatest integer that a word can stand for in two's complement. -/
def maxSigned : Int := 0x7FFFFFFF

def maxUnsigned : Nat := 0xFFFFFFFF

/-! ## Bytes -/

/-- The four bytes of a word, the most significant one first. -/
def bytes (w : Word) : List UInt8 :=
  [UInt8.ofNat (w.toNat / 0x1000000), UInt8.ofNat (w.toNat / 0x10000),
    UInt8.ofNat (w.toNat / 0x100), UInt8.ofNat w.toNat]

/-- The number whose digits in base 256 are the given bytes, the most significant one first. -/
def bigEndian (bs : List UInt8) : Nat :=
  bs.foldl (fun n b => n * 0x100 + b.toNat) 0

/-- The word that is made of bytes, the most significant one first. -/
def ofBytes (bs : List UInt8) : Word := UInt32.ofNat (bigEndian bs)

/-! ## Text -/

/-- A word as eight hexadecimal digits after `0x`. -/
def text (w : Word) : String := String.ofList ('0' :: 'x' :: Numeral.paddedHex w.toNat)

end Word

namespace Address

/-- The address a signed number of bytes away; it wraps. -/
def displace (a : Address) (distance : Int) : Address := Word.ofInt (a.toNat + distance)

/-- The address some bytes further on, unless that is beyond the last address. -/
def advance? (a : Address) (distance : Nat) : Option Address :=
  if a.toNat + distance ≤ Word.maxUnsigned then some (UInt32.ofNat (a.toNat + distance)) else none

/-- Whether an address is a multiple of an alignment. -/
def isAligned (a : Address) (alignment : Nat) : Bool := a.toNat % alignment == 0

theorem isAligned_iff {a : Address} {alignment : Nat} :
    a.isAligned alignment = true ↔ a.toNat % alignment = 0 := beq_iff_eq

/-- An address is written like any other word. -/
def text (a : Address) : String := Word.text a

end Address

/-- The least multiple of a positive number that is not below `n`. -/
def roundUp (n multiple : Nat) : Nat := (n + multiple - 1) / multiple * multiple

end MipsLab
