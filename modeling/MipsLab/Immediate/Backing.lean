import MipsLab.Immediate

/-!
# Immediates in machine integers

A machine keeps an immediate in an integer of 32 bits, and finds out by shifting whether a number
fits: to the left until only the bits of the immediate are left, and back to the right, where zeros
follow, or copies of the sign. A number fits if that gives it back. Shifting does to machine
integers what `Signedness.wrap` does to numbers (`Signedness.read_extend`).
-/

namespace MipsLab

namespace Signedness

/-- The number that a machine integer stands for. -/
def read (kind : Signedness) (w : BitVec 32) : Int :=
  match kind with
  | unsigned => w.toNat
  | signed => w.toInt

/-- The machine integer for a number, if there is one. -/
def write? (kind : Signedness) (n : Int) : Option (BitVec 32) :=
  if kind.lowest 32 ≤ n ∧ n ≤ kind.highest 32 then some (BitVec.ofInt 32 n) else none

/-- Shifts a machine integer to the right: zeros follow, or copies of the sign. -/
def shiftRight (kind : Signedness) (w : BitVec 32) (distance : Nat) : BitVec 32 :=
  match kind with
  | unsigned => w >>> distance
  | signed => w.sshiftRight distance

/-- Keeps the low bits of a machine integer, and extends them to all of its bits again. -/
def extend (kind : Signedness) (bits : Nat) (w : BitVec 32) : BitVec 32 :=
  match bits with
  | 0 => 0
  | bits => kind.shiftRight (w <<< (32 - bits)) (32 - bits)

/-- A machine integer is congruent to its bits, without a sign, also modulo smaller powers. -/
theorem toInt_bmod {bits : Nat} (h : bits ≤ 32) (w : BitVec 32) :
    w.toInt.bmod (2 ^ bits) = (w.toNat : Int).bmod (2 ^ bits) := by
  rw [BitVec.toInt_eq_toNat_bmod, Int.bmod_bmod_of_dvd (Nat.pow_dvd_pow 2 h)]

/-- Shifting to the left and back loses the bits that are shifted out. -/
theorem read_shiftRight_shiftLeft (kind : Signedness) {kept lost : Nat} (hkept : 0 < kept)
    (hall : kept + lost = 32) (w : BitVec 32) :
    kind.read (kind.shiftRight (w <<< lost) lost) = kind.wrap kept (kind.read w) := by
  have hpos : 0 < 2 ^ lost := Nat.two_pow_pos lost
  have hpow : 2 ^ 32 = 2 ^ lost * 2 ^ kept := by rw [← Nat.pow_add, Nat.add_comm, hall]
  cases kind with
  | unsigned =>
    show (((w <<< lost) >>> lost).toNat : Int) = (w.toNat : Int) % (2 ^ kept : Nat)
    rw [BitVec.toNat_ushiftRight, BitVec.toNat_shiftLeft, Nat.shiftLeft_eq,
      Nat.shiftRight_eq_div_pow, hpow, Nat.mul_comm w.toNat, Nat.mul_mod_mul_left,
      Nat.mul_div_cancel_left _ hpos]
    rfl
  | signed =>
    have heven : 2 ^ 1 ∣ 2 ^ kept := Nat.pow_dvd_pow 2 hkept
    show ((w <<< lost).sshiftRight lost).toInt = w.toInt.bmod (2 ^ kept)
    rw [toInt_bmod (Nat.le.intro hall), BitVec.toInt_sshiftRight, BitVec.toInt_shiftLeft,
      Int.shiftRight_eq_div_pow, Nat.shiftLeft_eq, hpow, Nat.mul_comm w.toNat, Int.natCast_mul,
      Int.mod_bmod_mul_of_pos _ _ hpos heven]
    exact Int.mul_ediv_cancel_left _ (Int.natCast_ne_zero.mpr (Nat.ne_of_gt hpos))

/-- A machine integer has no more than its 32 bits to lose. -/
theorem wrap_read (kind : Signedness) {bits : Nat} (h : 32 ≤ bits) (w : BitVec 32) :
    kind.wrap bits (kind.read w) = kind.read w := by
  have hpow : 2 ^ 32 ≤ 2 ^ bits := Nat.pow_le_pow_right (by decide) h
  cases kind with
  | unsigned =>
    have hlt : w.toNat < 2 ^ bits := Nat.lt_of_lt_of_le w.isLt hpow
    exact Int.emod_eq_of_lt (Int.natCast_nonneg _) (Int.ofNat_lt.mpr hlt)
  | signed =>
    have hlow := w.le_two_mul_toInt
    have hhigh := w.two_mul_toInt_lt
    show w.toInt.bmod (2 ^ bits) = w.toInt
    exact Int.bmod_eq_of_le_mul_two (by omega) (by omega)

theorem read_extend (kind : Signedness) (bits : Nat) (w : BitVec 32) :
    kind.read (kind.extend bits w) = kind.wrap bits (kind.read w) := by
  cases bits with
  | zero =>
    cases kind with
    | unsigned => exact (Int.emod_one _).symm
    | signed => exact (Int.bmod_one _).symm
  | succ bits =>
    show kind.read (kind.shiftRight (w <<< (32 - (bits + 1))) (32 - (bits + 1))) = _
    rcases Nat.le_total (bits + 1) 32 with h | h
    · exact kind.read_shiftRight_shiftLeft bits.succ_pos (Nat.add_sub_cancel' h) w
    · rw [Nat.sub_eq_zero_of_le h, kind.wrap_read h]
      cases kind <;> simp [shiftRight]

theorem read_inj (kind : Signedness) {v w : BitVec 32} : kind.read v = kind.read w ↔ v = w := by
  cases kind with
  | unsigned => exact Int.natCast_inj.trans BitVec.toNat_inj
  | signed => exact BitVec.toInt_inj

end Signedness

namespace Imm

variable {kind : Signedness} {bits : Nat}

/-- A machine integer as an immediate, if it fits. -/
def ofBits? (w : BitVec 32) : Except ImmError (Imm kind bits) :=
  if h : w = kind.extend bits w then
    .ok ⟨kind.read w, by rw [← kind.read_extend, ← h]⟩
  else .error ⟨kind, bits⟩

/-- A number as an immediate, if it is a machine integer and fits. -/
def ofNumber? (n : Int) : Except ImmError (Imm kind bits) :=
  match kind.write? n with
  | some w => ofBits? w
  | none => .error ⟨kind, bits⟩

/-- The immediate made of the low bits of a machine integer. -/
def truncateBits (w : BitVec 32) : Imm kind bits :=
  ⟨kind.read (kind.extend bits w), by rw [kind.read_extend, kind.wrap_wrap]⟩

end Imm

end MipsLab
