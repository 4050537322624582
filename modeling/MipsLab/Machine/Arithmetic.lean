import MipsLab.Machine.State

/-!
# Arithmetic

What the operations of the machine compute. Signed operations go through the integers that words
stand for, so that each is its exact result, brought back into a word. Sums and differences that are
out of range are errors on demand.
-/

namespace MipsLab

/-- A sum or difference as a word. Out of range it is an error if `trap` is set, and wraps
otherwise. -/
def wordOfSum (trap : Bool) (exact : Int) : Except ExecError Word :=
  if trap && !(Word.minSigned ≤ exact && exact ≤ Word.maxSigned) then .error .integerOverflow
  else .ok (Word.ofInt exact)

def wordOfBool (b : Bool) : Word := if b then 1 else 0

def shiftLeft (w : Word) (amount : Nat) : Word := UInt32.ofNat (w.toNat * 2 ^ amount)

/-- A word shifted to the right, with zeros. -/
def shiftRight (w : Word) (amount : Nat) : Word := UInt32.ofNat (w.toNat / 2 ^ amount)

/-- A word shifted to the right, with copies of its sign. -/
def shiftRightSigned (w : Word) (amount : Nat) : Word :=
  Word.ofInt (Word.signed w / (2 ^ amount : Nat))

/-- The result of an operation on two registers. The variable shifts use `s` modulo 32. -/
def AluOp.compute (op : AluOp) (trap : Bool) (s t : Word) : Except ExecError Word :=
  match op with
  | add => wordOfSum trap (Word.signed s + Word.signed t)
  | addu => .ok (s + t)
  | sub => wordOfSum trap (Word.signed s - Word.signed t)
  | subu => .ok (s - t)
  | and => .ok (s &&& t)
  | or => .ok (s ||| t)
  | xor => .ok (s ^^^ t)
  | nor => .ok (~~~(s ||| t))
  | slt => .ok (wordOfBool (Word.signed s < Word.signed t))
  | sltu => .ok (wordOfBool (s < t))
  | sllv => .ok (shiftLeft t (s.toNat % 32))
  | srlv => .ok (shiftRight t (s.toNat % 32))
  | srav => .ok (shiftRightSigned t (s.toNat % 32))
  | mul => .ok (Word.ofInt (Word.signed s * Word.signed t))

def ShiftOp.compute (op : ShiftOp) (t : Word) (amount : Nat) : Word :=
  match op with
  | sll => shiftLeft t amount
  | srl => shiftRight t amount
  | sra => shiftRightSigned t amount

/-- The result of an operation with an immediate. -/
def ImmOp.compute (op : ImmOp) (trap : Bool) (s i : Word) : Except ExecError Word :=
  match op with
  | addi => wordOfSum trap (Word.signed s + Word.signed i)
  | addiu => .ok (s + i)
  | slti => .ok (wordOfBool (Word.signed s < Word.signed i))
  | sltiu => .ok (wordOfBool (s < i))
  | andi => .ok (s &&& i)
  | ori => .ok (s ||| i)
  | xori => .ok (s ^^^ i)

/-- The results of a product or quotient, for `hi` and `lo`: the two halves of a product, or the
remainder and the quotient. Signed quotients are cut towards zero. -/
def MulDivOp.compute (op : MulDivOp) (s t : Word) : Except ExecError (Word × Word) :=
  match op with
  | mult =>
    let product := Word.signed s * Word.signed t
    .ok (Word.ofInt (product / 0x100000000), Word.ofInt product)
  | multu =>
    let product := s.toNat * t.toNat
    .ok (UInt32.ofNat (product / 0x100000000), UInt32.ofNat product)
  | div =>
    if t = 0 then .error .divideByZero
    else
      .ok (Word.ofInt ((Word.signed s).tmod (Word.signed t)),
        Word.ofInt ((Word.signed s).tdiv (Word.signed t)))
  | divu =>
    if t = 0 then .error .divideByZero
    else .ok (UInt32.ofNat (s.toNat % t.toNat), UInt32.ofNat (s.toNat / t.toNat))

/-- The word of a loaded number, extended as the width wants it. -/
def Width.extend (width : Width) (n : Nat) : Word :=
  match width with
  | byte => Word.ofInt (Signedness.signed.wrap 8 n)
  | half => Word.ofInt (Signedness.signed.wrap 16 n)
  | byteu | halfu | word => UInt32.ofNat n

/-- The bytes of a word that a store of a width writes: the low ones. -/
def Width.storedBytes (width : Width) (w : Word) : List UInt8 :=
  (Word.bytes w).drop (4 - width.size)

end MipsLab
