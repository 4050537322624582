import MipsLab.Diagnostic

/-!
# Immediate operands

Integers of a limited number of bits, unsigned or in two's complement. An immediate is made from an
integer by checking that it fits (`Imm.ofInt?`) or by keeping its low bits only (`Imm.truncate`).
Both rest on `Signedness.wrap`, the number of the given width that is congruent to an integer: an
integer fits exactly if wrapping does not change it.
-/

-- Powers of two are those of the natural numbers, also where monoids are in scope.
attribute [instance(2000)] instPowNat

namespace MipsLab

/-- How the bits of an immediate are read. -/
inductive Signedness
  | unsigned
  | signed
  deriving DecidableEq, Repr

namespace Signedness

/-- The integer of a width that is congruent to `n` modulo `2 ^ bits`. -/
def wrap (kind : Signedness) (bits : Nat) (n : Int) : Int :=
  match kind with
  | unsigned => n % (2 ^ bits : Nat)
  | signed => n.bmod (2 ^ bits)

@[simp] theorem wrap_wrap (kind : Signedness) (bits : Nat) (n : Int) :
    kind.wrap bits (kind.wrap bits n) = kind.wrap bits n := by
  cases kind <;> simp [wrap]

def lowest (kind : Signedness) (bits : Nat) : Int :=
  match kind with
  | unsigned => 0
  | signed => -(2 ^ (bits - 1) : Nat)

def highest (kind : Signedness) (bits : Nat) : Int :=
  match kind with
  | unsigned => (2 ^ bits : Nat) - 1
  | signed => (2 ^ (bits - 1) : Nat) - 1

/-- The word for a kind of integers. -/
def name : Signedness → String
  | unsigned => "unsigned"
  | signed => "signed"

/-- The word for a kind of integers, with its article. -/
def nameWithArticle : Signedness → String
  | unsigned => "an unsigned"
  | signed => "a signed"

end Signedness

/-- An integer that fits a number of bits. -/
structure Imm (kind : Signedness) (bits : Nat) where
  value : Int
  fits : kind.wrap bits value = value
  deriving DecidableEq, Repr

/-- A signed 16-bit immediate: memory and branch offsets. -/
abbrev SImm16 := Imm .signed 16

/-- An unsigned 16-bit immediate: the raw bits of an immediate field. -/
abbrev UImm16 := Imm .unsigned 16

/-- A shift amount. -/
abbrev Shamt := Imm .unsigned 5

/-- An integer does not fit the bits of its immediate. -/
structure ImmError where
  kind : Signedness
  bits : Nat
  deriving DecidableEq, Repr

namespace ImmError

def message (e : ImmError) : String :=
  s!"value is too big for {e.kind.name} {e.bits}-bit integer"

def help (e : ImmError) : String :=
  s!"the range for {e.kind.nameWithArticle} {e.bits}-bit integer is "
    ++ s!"[{e.kind.lowest e.bits}, {e.kind.highest e.bits}]"

/-- The error as it is told to the user. -/
def diagnostic (e : ImmError) : Diagnostic := { message := e.message, help := some e.help }

end ImmError

namespace Imm

variable {kind : Signedness} {bits : Nat}

/-- An integer as an immediate, if it fits. -/
def ofInt? (n : Int) : Except ImmError (Imm kind bits) :=
  if h : kind.wrap bits n = n then .ok ⟨n, h⟩ else .error ⟨kind, bits⟩

/-- The immediate made of the low bits of an integer. -/
def truncate (n : Int) : Imm kind bits := ⟨kind.wrap bits n, kind.wrap_wrap bits n⟩

/-- An immediate as a natural number; the negative ones become zero. -/
def toNat (i : Imm kind bits) : Nat := i.value.toNat

/-- The bits of an immediate, as the number that they stand for without a sign. -/
def field (i : Imm kind bits) : Nat := (i.value % (2 ^ bits : Nat)).toNat

@[ext] theorem ext {i j : Imm kind bits} (h : i.value = j.value) : i = j := by
  cases i
  cases j
  simp_all

theorem ofInt?_eq_ok_iff {n : Int} {i : Imm kind bits} : ofInt? n = .ok i ↔ i.value = n := by
  unfold ofInt?
  constructor
  · intro h
    split at h
    · obtain rfl := Except.ok.inj h
      rfl
    · cases h
  · rintro rfl
    exact dif_pos i.fits

end Imm

end MipsLab
