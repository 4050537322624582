import MipsLab.Proofs.Disassembly
import MipsLab.Proofs.PseudoInstructions

/-!
# Exact arithmetic

The arithmetic instructions against the integers. The meaning of each operation is a relation
between the integers that its operands and its result stand for, which does not mention words: a sum
is a sum, a quotient is what its product and remainder make it, a shift to the right is a floor.
Words are only a way to write the results down, modulo `2 ^ 32`.

1. `IsFloor`, `IsQuotient`: division, described by multiplication; each has one solution.
2. `AluOp.Yields`, `ShiftOp.Yields`, `ImmOp.Yields`, `MulDivOp.Yields`: what results mean.
3. `AluOp.compute_eq_ok_iff` and its siblings: the machine computes the one result there is.
4. `Instr.Calculates`, `Machine.Calculated`: what an instruction comes to, and a machine after it.
5. `arithmetic_exact`: every arithmetic instruction, on every machine.
-/

namespace MipsLab

/-! ## Integers -/

/-- The floor of a quotient. -/
def IsFloor (q n d : Int) : Prop := q * d ≤ n ∧ n < (q + 1) * d

/-- A quotient that is cut towards zero, with its remainder. -/
structure IsQuotient (n d q r : Int) : Prop where
  sum : n = d * q + r
  small : r.natAbs < d.natAbs
  sign : r = 0 ∨ r.sign = n.sign

theorem isFloor_iff {q n d : Int} (hd : 0 < d) : IsFloor q n d ↔ q = n / d := by
  unfold IsFloor
  rw [← Int.le_ediv_iff_mul_le hd, ← Int.ediv_lt_iff_lt_mul hd]
  constructor <;> omega

/-- There is one quotient and one remainder. -/
theorem isQuotient_iff {n d q r : Int} (hd : d ≠ 0) :
    IsQuotient n d q r ↔ q = n.tdiv d ∧ r = n.tmod d := by
  constructor
  · rintro ⟨hsum, hsmall, hsign⟩
    suffices h : n.tdiv d = q ∧ n.tmod d = r from ⟨h.1.symm, h.2.symm⟩
    -- The remainder is on the side of zero on which the dividend is.
    rcases Int.le_total 0 n with hn | hn
    · have hr : 0 ≤ r := by
        rcases hsign with rfl | hsign
        · exact Int.le_refl 0
        · rw [← Int.sign_nonneg_iff, hsign, Int.sign_nonneg_iff]
          exact hn
      exact (Int.tdiv_tmod_unique hn hd).mpr (by omega)
    · have hr : r ≤ 0 := by
        rcases hsign with rfl | hsign
        · exact Int.le_refl 0
        · rw [← Int.sign_nonpos_iff, hsign, Int.sign_nonpos_iff]
          exact hn
      exact (Int.tdiv_tmod_unique' hn hd).mpr (by omega)
  · rintro ⟨rfl, rfl⟩
    refine ⟨(Int.mul_tdiv_add_tmod n d).symm, ?_, ?_⟩
    · rw [Int.natAbs_tmod]
      exact Nat.mod_lt _ (Int.natAbs_pos.mpr hd)
    · by_cases hdvd : d ∣ n
      · exact .inl (Int.tmod_eq_zero_of_dvd hdvd)
      · refine .inr ?_
        rw [Int.sign_tmod, if_neg hdvd]

/-! ## Words -/

namespace Word

/-- A word is an integer modulo `2 ^ 32`. -/
def Holds (w : Word) (n : Int) : Prop := (w.toNat : Int) = n % 0x100000000

/-- A word says whether something is so, by one and zero. -/
def Tells (w : Word) (p : Prop) : Prop := p ∧ w = 1 ∨ ¬p ∧ w = 0

/-- A word is made of binary digits, from the lowest one on. -/
def HasBits (w : Word) (bit : Nat → Bool) : Prop := ∀ k, w.toNat.testBit k = bit k

/-- An integer is out of the range of two's complement. -/
def OutOfRange (n : Int) : Prop := n < -0x80000000 ∨ 0x7FFFFFFF < n

variable {w v : Word} {n : Int}

theorem toNat_ofInt (n : Int) : ((ofInt n).toNat : Int) = n % 0x100000000 := by
  unfold ofInt
  rw [UInt32.toNat_ofNat']
  omega

theorem holds_iff : w.Holds n ↔ w = ofInt n := by
  unfold Holds
  rw [← toNat_ofInt, ← UInt32.toNat_inj, Int.natCast_inj]

theorem holds_iff_of_mod (h : (v.toNat : Int) = n % 0x100000000) : w.Holds n ↔ w = v := by
  unfold Holds
  rw [← h, Int.natCast_inj, UInt32.toNat_inj]

theorem tells_iff {p : Prop} [Decidable p] : w.Tells p ↔ w = wordOfBool (decide p) := by
  unfold Tells wordOfBool
  by_cases hp : p <;> simp [hp]

theorem hasBits_iff {bit : Nat → Bool} (h : v.HasBits bit) : w.HasBits bit ↔ w = v := by
  constructor
  · intro hw
    exact UInt32.toNat_inj.mp (Nat.eq_of_testBit_eq fun k => (hw k).trans (h k).symm)
  · rintro rfl
    exact h

/-- A word is known by what it stands for in two's complement. -/
theorem signed_eq_iff (h : ¬OutOfRange n) : signed w = n ↔ w = ofInt n := by
  unfold OutOfRange at h
  constructor
  · rintro rfl
    exact (ofInt_signed w).symm
  · rintro rfl
    apply signed_ofInt
    · unfold minSigned
      omega
    · unfold maxSigned
      omega

theorem toNat_eq_iff {k : Nat} (h : k < 0x100000000) : w.toNat = k ↔ w = UInt32.ofNat k := by
  rw [← UInt32.toNat_inj, UInt32.toNat_ofNat_of_lt' h]

theorem signed_inRange (w : Word) : ¬OutOfRange (signed w) := by
  obtain ⟨hlow, hhigh⟩ := w.signed_bounds
  unfold minSigned at hlow
  unfold maxSigned at hhigh
  unfold OutOfRange
  omega

theorem inRange_ediv {d : Int} (hd : 0 < d) (h : ¬OutOfRange n) : ¬OutOfRange (n / d) := by
  unfold OutOfRange at h
  have hlow : -0x80000000 ≤ n / d := by
    rw [Int.le_ediv_iff_mul_le hd]
    omega
  have hhigh : n / d < 0x80000000 := by
    rw [Int.ediv_lt_iff_lt_mul hd]
    omega
  unfold OutOfRange
  omega

theorem signed_eq_zero_iff : signed w = 0 ↔ w = 0 := by
  have hzero : ofInt 0 = 0 := rfl
  rw [signed_eq_iff (by unfold OutOfRange; omega), hzero]

/-- The two readings of a word are the same modulo `2 ^ 32`. -/
theorem signed_mod (w : Word) : signed w % 0x100000000 = w.toNat := by
  have hlt := w.toNat_lt
  unfold signed
  split <;> omega

end Word

/-! ## Results -/

/-- What the result of a shift by an amount means. -/
def ShiftOp.Yields (op : ShiftOp) (t : Word) (amount : Nat) (w : Word) : Prop :=
  match op with
  | sll => w.Holds (t.toNat * 2 ^ amount)
  | srl => IsFloor w.toNat t.toNat (2 ^ amount)
  | sra => IsFloor (Word.signed w) (Word.signed t) (2 ^ amount)

/-- What the result of an operation on two registers means. -/
def AluOp.Yields (op : AluOp) (s t w : Word) : Prop :=
  match op with
  | add | addu => w.Holds (Word.signed s + Word.signed t)
  | sub | subu => w.Holds (Word.signed s - Word.signed t)
  | mul => w.Holds (Word.signed s * Word.signed t)
  | and => w.HasBits fun k => s.toNat.testBit k && t.toNat.testBit k
  | or => w.HasBits fun k => s.toNat.testBit k || t.toNat.testBit k
  | xor => w.HasBits fun k => s.toNat.testBit k ^^ t.toNat.testBit k
  | nor => w.HasBits fun k => k < 32 && !(s.toNat.testBit k || t.toNat.testBit k)
  | slt => w.Tells (Word.signed s < Word.signed t)
  | sltu => w.Tells (s.toNat < t.toNat)
  | sllv => ShiftOp.sll.Yields t (s.toNat % 32) w
  | srlv => ShiftOp.srl.Yields t (s.toNat % 32) w
  | srav => ShiftOp.sra.Yields t (s.toNat % 32) w

/-- Whether the exact result of an operation is an error: it is out of range, and the machine minds
it. -/
def AluOp.Overflows (op : AluOp) (trap : Bool) (s t : Word) : Prop :=
  match op with
  | add => trap = true ∧ Word.OutOfRange (Word.signed s + Word.signed t)
  | sub => trap = true ∧ Word.OutOfRange (Word.signed s - Word.signed t)
  | _ => False

/-- The number that the sixteen bits of an immediate stand for in two's complement. -/
def Imm.signExtended (imm : UImm16) : Int :=
  if imm.value < 0x8000 then imm.value else imm.value - 0x10000

/-- What the result of an operation with an immediate means. -/
def ImmOp.Yields (op : ImmOp) (s : Word) (imm : UImm16) (w : Word) : Prop :=
  match op with
  | addi | addiu => w.Holds (Word.signed s + imm.signExtended)
  | slti => w.Tells (Word.signed s < imm.signExtended)
  | sltiu => w.Tells ((s.toNat : Int) < imm.signExtended % 0x100000000)
  | andi => w.HasBits fun k => s.toNat.testBit k && imm.toNat.testBit k
  | ori => w.HasBits fun k => s.toNat.testBit k || imm.toNat.testBit k
  | xori => w.HasBits fun k => s.toNat.testBit k ^^ imm.toNat.testBit k

def ImmOp.Overflows (op : ImmOp) (trap : Bool) (s : Word) (imm : UImm16) : Prop :=
  match op with
  | addi => trap = true ∧ Word.OutOfRange (Word.signed s + imm.signExtended)
  | _ => False

/-- What the results of a product or quotient mean. One signed quotient has no word: that of the
least number and `-1`. -/
def MulDivOp.Yields (op : MulDivOp) (s t hi lo : Word) : Prop :=
  match op with
  | mult => Word.signed hi * 0x100000000 + lo.toNat = Word.signed s * Word.signed t
  | multu => hi.toNat * 0x100000000 + lo.toNat = s.toNat * t.toNat
  | div =>
    if Word.signed s = -0x80000000 ∧ Word.signed t = -1 then
      Word.signed lo = -0x80000000 ∧ Word.signed hi = 0
    else IsQuotient (Word.signed s) (Word.signed t) (Word.signed lo) (Word.signed hi)
  | divu => IsQuotient s.toNat t.toNat lo.toNat hi.toNat

/-- Whether an operation divides by zero. -/
def MulDivOp.DividesByZero (op : MulDivOp) (t : Word) : Prop :=
  match op with
  | mult | multu => False
  | div | divu => t = 0

/-! ## Sums -/

section Sums

variable {trap : Bool} {n : Int} {w : Word} {e : ExecError}

theorem wordOfSum_cases (trap : Bool) (n : Int) :
    (trap = true ∧ Word.OutOfRange n) ∧ wordOfSum trap n = .error .integerOverflow ∨
      ¬(trap = true ∧ Word.OutOfRange n) ∧ wordOfSum trap n = .ok (Word.ofInt n) := by
  have hrange : (!(Word.minSigned ≤ n && n ≤ Word.maxSigned)) = true ↔ Word.OutOfRange n := by
    unfold Word.OutOfRange Word.minSigned Word.maxSigned
    rw [Bool.not_eq_true', Bool.and_eq_false_iff, decide_eq_false_iff_not, decide_eq_false_iff_not,
      Int.not_le, Int.not_le]
  unfold wordOfSum
  split
  · next h =>
    rw [Bool.and_eq_true, hrange] at h
    exact .inl ⟨h, rfl⟩
  · next h =>
    rw [Bool.and_eq_true, hrange] at h
    exact .inr ⟨h, rfl⟩

theorem wordOfSum_eq_ok_iff :
    wordOfSum trap n = .ok w ↔ ¬(trap = true ∧ Word.OutOfRange n) ∧ w.Holds n := by
  rw [Word.holds_iff]
  rcases wordOfSum_cases trap n with ⟨h, hsum⟩ | ⟨h, hsum⟩
  · rw [hsum]
    exact ⟨nofun, fun hw => absurd h hw.1⟩
  · rw [hsum, Except.ok.injEq]
    exact ⟨fun hw => ⟨h, hw.symm⟩, fun hw => hw.2.symm⟩

theorem wordOfSum_eq_error_iff :
    wordOfSum trap n = .error e ↔ (trap = true ∧ Word.OutOfRange n) ∧ e = .integerOverflow := by
  rcases wordOfSum_cases trap n with ⟨h, hsum⟩ | ⟨h, hsum⟩
  · rw [hsum, Except.error.injEq]
    exact ⟨fun he => ⟨h, he.symm⟩, fun he => he.2.symm⟩
  · rw [hsum]
    exact ⟨nofun, fun he => absurd he.1 h⟩

end Sums

/-! ## Shifts -/

theorem ShiftOp.compute_eq_iff {op : ShiftOp} {t w : Word} {amount : Nat} :
    op.compute t amount = w ↔ op.Yields t amount w := by
  have hpos : (0 : Int) < 2 ^ amount := Int.pow_pos (by decide)
  have hpow : ((2 ^ amount : Nat) : Int) = 2 ^ amount := Int.natCast_pow 2 amount
  rw [eq_comm]
  cases op with
  | sll =>
    refine (Word.holds_iff_of_mod ?_).symm
    show ((UInt32.ofNat (t.toNat * 2 ^ amount)).toNat : Int) = _
    rw [UInt32.toNat_ofNat', Int.natCast_emod, Int.natCast_mul, hpow]
    rfl
  | srl =>
    show w = UInt32.ofNat (t.toNat / 2 ^ amount) ↔ IsFloor w.toNat t.toNat (2 ^ amount)
    have hlt : t.toNat / 2 ^ amount < 0x100000000 :=
      Nat.lt_of_le_of_lt (Nat.div_le_self _ _) t.toNat_lt
    rw [isFloor_iff hpos, ← Word.toNat_eq_iff hlt, ← hpow, ← Int.natCast_ediv, Int.natCast_inj]
  | sra =>
    show w = Word.ofInt (Word.signed t / (2 ^ amount : Nat)) ↔
      IsFloor (Word.signed w) (Word.signed t) (2 ^ amount)
    rw [isFloor_iff hpos, Word.signed_eq_iff (Word.inRange_ediv hpos t.signed_inRange), hpow]

/-! ## Operations on two registers -/

namespace Word

variable (s t : Word)

theorem hasBits_and : (s &&& t).HasBits fun k => s.toNat.testBit k && t.toNat.testBit k := by
  intro k
  rw [UInt32.toNat_and, Nat.testBit_and]

theorem hasBits_or : (s ||| t).HasBits fun k => s.toNat.testBit k || t.toNat.testBit k := by
  intro k
  rw [UInt32.toNat_or, Nat.testBit_or]

theorem hasBits_xor : (s ^^^ t).HasBits fun k => s.toNat.testBit k ^^ t.toNat.testBit k := by
  intro k
  rw [UInt32.toNat_xor, Nat.testBit_xor]

theorem hasBits_nor :
    (~~~(s ||| t)).HasBits fun k => k < 32 && !(s.toNat.testBit k || t.toNat.testBit k) := by
  intro k
  have hcomplement : (~~~(s ||| t)).toNat = 2 ^ 32 - ((s ||| t).toNat + 1) := by
    rw [UInt32.toNat_not, Nat.sub_sub, Nat.add_comm]
    rfl
  rw [hcomplement, Nat.testBit_two_pow_sub_succ (s ||| t).toNat_lt, UInt32.toNat_or,
    Nat.testBit_or]

theorem toNat_add_mod : ((s + t).toNat : Int) = (signed s + signed t) % 0x100000000 := by
  have hadd := UInt32.toNat_add s t
  have hs := s.signed_mod
  have ht := t.signed_mod
  omega

theorem toNat_sub_mod : ((s - t).toNat : Int) = (signed s - signed t) % 0x100000000 := by
  have hsub := UInt32.toNat_sub s t
  have hs := s.signed_mod
  have ht := t.signed_mod
  have hlt := t.toNat_lt
  omega

end Word

/-- A result of which only one word has the meaning. -/
theorem ok_eq_iff {α : Type} {v w : α} {p : Prop} (h : p ↔ w = v) :
    (Except.ok v : Except ExecError α) = .ok w ↔ ¬False ∧ p := by
  rw [Except.ok.injEq, h, eq_comm]
  exact (and_iff_right id).symm

namespace AluOp

variable {op : AluOp} {trap : Bool} {s t w : Word} {e : ExecError}

theorem compute_eq_ok_iff :
    op.compute trap s t = .ok w ↔ ¬op.Overflows trap s t ∧ op.Yields s t w := by
  have shifted (shift : ShiftOp) :
      shift.Yields t (s.toNat % 32) w ↔ w = shift.compute t (s.toNat % 32) := by
    rw [← ShiftOp.compute_eq_iff, eq_comm]
  cases op with
  | add | sub => exact wordOfSum_eq_ok_iff
  | addu => exact ok_eq_iff (Word.holds_iff_of_mod (Word.toNat_add_mod s t))
  | subu => exact ok_eq_iff (Word.holds_iff_of_mod (Word.toNat_sub_mod s t))
  | mul => exact ok_eq_iff Word.holds_iff
  | and => exact ok_eq_iff (Word.hasBits_iff (Word.hasBits_and s t))
  | or => exact ok_eq_iff (Word.hasBits_iff (Word.hasBits_or s t))
  | xor => exact ok_eq_iff (Word.hasBits_iff (Word.hasBits_xor s t))
  | nor => exact ok_eq_iff (Word.hasBits_iff (Word.hasBits_nor s t))
  | slt => exact ok_eq_iff Word.tells_iff
  | sltu => exact ok_eq_iff Word.tells_iff
  | sllv => exact ok_eq_iff (shifted .sll)
  | srlv => exact ok_eq_iff (shifted .srl)
  | srav => exact ok_eq_iff (shifted .sra)

theorem compute_eq_error_iff :
    op.compute trap s t = .error e ↔ op.Overflows trap s t ∧ e = .integerOverflow := by
  cases op with
  | add | sub => exact wordOfSum_eq_error_iff
  | _ => exact ⟨nofun, fun h => h.1.elim⟩

end AluOp

/-! ## Operations with an immediate -/

section Immediates

variable {op : ImmOp} {trap : Bool} {s w : Word} {imm : UImm16} {e : ExecError}

theorem Imm.signExtended_eq_wrap (imm : UImm16) :
    imm.signExtended = Signedness.signed.wrap 16 imm.value := by
  obtain ⟨hlow, hhigh⟩ := imm.unsigned_range
  simp only [Signedness.wrap, Int.bmod_def]
  unfold signExtended
  split <;> omega

theorem Instr.signed_extendedImm_eq (op : ImmOp) (hop : op.zeroExtends = false) (imm : UImm16) :
    Word.signed (extendedImm op imm) = imm.signExtended := by
  rw [signed_extendedImm hop, imm.signExtended_eq_wrap]

theorem Instr.toNat_extendedImm (op : ImmOp) (hop : op.zeroExtends = true) (imm : UImm16) :
    (extendedImm op imm).toNat = imm.toNat := by
  obtain ⟨hlow, hhigh⟩ := imm.unsigned_range
  have hnat := Word.toNat_ofInt imm.value
  unfold extendedImm Imm.toNat
  rw [if_pos hop]
  omega

/-- Comparing with the word of an immediate is comparing with the number that it is congruent to. -/
theorem Instr.lt_extendedImm_iff (op : ImmOp) (hop : op.zeroExtends = false) :
    s < extendedImm op imm ↔ (s.toNat : Int) < imm.signExtended % 0x100000000 := by
  rw [← signed_extendedImm_eq op hop, Word.signed_mod, Int.ofNat_lt, UInt32.lt_iff_toNat_lt]

namespace ImmOp

theorem compute_eq_ok_iff :
    op.compute trap s (Instr.extendedImm op imm) = .ok w ↔
      ¬op.Overflows trap s imm ∧ op.Yields s imm w := by
  cases op with
  | addi =>
    unfold Overflows Yields
    rw [← Instr.signed_extendedImm_eq .addi rfl]
    exact wordOfSum_eq_ok_iff
  | addiu =>
    unfold Overflows Yields
    rw [← Instr.signed_extendedImm_eq .addiu rfl]
    exact ok_eq_iff (Word.holds_iff_of_mod (Word.toNat_add_mod s _))
  | slti =>
    unfold Overflows Yields
    rw [← Instr.signed_extendedImm_eq .slti rfl]
    exact ok_eq_iff Word.tells_iff
  | sltiu =>
    unfold Overflows Yields
    rw [← Instr.lt_extendedImm_iff .sltiu rfl]
    exact ok_eq_iff Word.tells_iff
  | andi =>
    unfold Overflows Yields
    rw [← Instr.toNat_extendedImm .andi rfl]
    exact ok_eq_iff (Word.hasBits_iff (Word.hasBits_and s _))
  | ori =>
    unfold Overflows Yields
    rw [← Instr.toNat_extendedImm .ori rfl]
    exact ok_eq_iff (Word.hasBits_iff (Word.hasBits_or s _))
  | xori =>
    unfold Overflows Yields
    rw [← Instr.toNat_extendedImm .xori rfl]
    exact ok_eq_iff (Word.hasBits_iff (Word.hasBits_xor s _))

theorem compute_eq_error_iff :
    op.compute trap s (Instr.extendedImm op imm) = .error e ↔
      op.Overflows trap s imm ∧ e = .integerOverflow := by
  cases op with
  | addi =>
    unfold Overflows
    rw [← Instr.signed_extendedImm_eq .addi rfl]
    exact wordOfSum_eq_error_iff
  | _ => exact ⟨nofun, fun h => h.1.elim⟩

end ImmOp

end Immediates

/-! ## Products and quotients -/

section Products

variable {s t hi lo : Word}

/-- The exact product of two words, in two words of which the upper one has the sign. -/
theorem mult_iff {n : Int} (hlow : -0x8000000000000000 ≤ n) (hhigh : n < 0x8000000000000000) :
    Word.signed hi * 0x100000000 + lo.toNat = n ↔
      hi = Word.ofInt (n / 0x100000000) ∧ lo = Word.ofInt n := by
  have hrange : ¬Word.OutOfRange (n / 0x100000000) := by
    unfold Word.OutOfRange
    omega
  have hlo := lo.toNat_lt
  rw [← Word.signed_eq_iff hrange, ← Word.holds_iff]
  unfold Word.Holds
  constructor <;> omega

theorem multu_iff {n : Nat} (h : n < 0x10000000000000000) :
    hi.toNat * 0x100000000 + lo.toNat = n ↔
      hi = UInt32.ofNat (n / 0x100000000) ∧ lo = UInt32.ofNat n := by
  have hlo := lo.toNat_lt
  have hmod : lo.toNat = n % 0x100000000 ↔ lo = UInt32.ofNat n := by
    rw [← UInt32.toNat_inj, UInt32.toNat_ofNat']
  rw [← Word.toNat_eq_iff (by omega), ← hmod]
  constructor <;> omega

/-- The magnitude of a product of words. -/
theorem signed_mul_range (s t : Word) :
    -0x8000000000000000 ≤ Word.signed s * Word.signed t ∧
      Word.signed s * Word.signed t < 0x8000000000000000 := by
  have natAbs_le (w : Word) : (Word.signed w).natAbs ≤ 0x80000000 := by
    have hw := w.signed_inRange
    unfold Word.OutOfRange at hw
    omega
  have hprod : (Word.signed s * Word.signed t).natAbs ≤ 0x80000000 * 0x80000000 := by
    rw [Int.natAbs_mul]
    exact Nat.mul_le_mul (natAbs_le s) (natAbs_le t)
  omega

theorem tdiv_inRange {n d : Int} (hn : ¬Word.OutOfRange n)
    (hnot : ¬(n = -0x80000000 ∧ d = -1)) : ¬Word.OutOfRange (n.tdiv d) := by
  unfold Word.OutOfRange at hn ⊢
  by_cases hone : d = 1
  · rw [hone, Int.tdiv_one]
    exact hn
  by_cases hminus : d = -1
  · rw [hminus, Int.tdiv_neg, Int.tdiv_one]
    omega
  by_cases hzero : d = 0
  · rw [hzero, Int.tdiv_zero]
    omega
  -- Any other divisor halves the dividend at least.
  have habs : (n.tdiv d).natAbs = n.natAbs / d.natAbs := Int.natAbs_tdiv n d
  have hhalf : n.natAbs / d.natAbs ≤ n.natAbs / 2 := Nat.div_le_div_left (by omega) (by decide)
  omega

theorem tmod_inRange {n d : Int} (hdivisor : ¬Word.OutOfRange d) (hd : d ≠ 0) :
    ¬Word.OutOfRange (n.tmod d) := by
  have habs : (n.tmod d).natAbs = n.natAbs % d.natAbs := Int.natAbs_tmod n d
  have hlt : n.natAbs % d.natAbs < d.natAbs := Nat.mod_lt _ (Int.natAbs_pos.mpr hd)
  unfold Word.OutOfRange at hdivisor ⊢
  omega

theorem div_iff (ht : t ≠ 0) :
    MulDivOp.div.Yields s t hi lo ↔
      hi = Word.ofInt ((Word.signed s).tmod (Word.signed t)) ∧
        lo = Word.ofInt ((Word.signed s).tdiv (Word.signed t)) := by
  have hd : Word.signed t ≠ 0 := fun h => ht (Word.signed_eq_zero_iff.mp h)
  show (if _ then _ else _) ↔ _
  split
  · next h =>
    -- The quotient is one too great, and is congruent to the least number.
    have hleast : Word.ofInt ((-0x80000000 : Int).tdiv (-1)) = Word.ofInt (-0x80000000) := rfl
    have hrest : Word.ofInt ((-0x80000000 : Int).tmod (-1)) = 0 := rfl
    rw [h.1, h.2, hleast, hrest, Word.signed_eq_zero_iff,
      Word.signed_eq_iff (by unfold Word.OutOfRange; omega), and_comm]
  · next h =>
    rw [isQuotient_iff hd, Word.signed_eq_iff (tdiv_inRange s.signed_inRange h),
      Word.signed_eq_iff (tmod_inRange t.signed_inRange hd), and_comm]

theorem divu_iff (ht : t ≠ 0) :
    MulDivOp.divu.Yields s t hi lo ↔
      hi = UInt32.ofNat (s.toNat % t.toNat) ∧ lo = UInt32.ofNat (s.toNat / t.toNat) := by
  have hd : (t.toNat : Int) ≠ 0 := fun h => ht (UInt32.toNat_inj.mp (Int.natCast_inj.mp h))
  have hquotient : s.toNat / t.toNat < 0x100000000 :=
    Nat.lt_of_le_of_lt (Nat.div_le_self _ _) s.toNat_lt
  have hrest : s.toNat % t.toNat < 0x100000000 :=
    Nat.lt_of_le_of_lt (Nat.mod_le _ _) s.toNat_lt
  show IsQuotient s.toNat t.toNat lo.toNat hi.toNat ↔ _
  rw [isQuotient_iff hd, ← Int.ofNat_tdiv, ← Int.ofNat_tmod, Int.natCast_inj, Int.natCast_inj,
    Word.toNat_eq_iff hquotient, Word.toNat_eq_iff hrest, and_comm]

end Products

namespace MulDivOp

variable {op : MulDivOp} {s t hi lo : Word} {e : ExecError}

theorem compute_of_divides (h : op.DividesByZero t) : op.compute s t = .error .divideByZero := by
  cases op with
  | mult | multu => exact h.elim
  | div | divu => exact if_pos h

theorem exists_compute (s : Word) (h : ¬op.DividesByZero t) :
    ∃ results, op.compute s t = .ok results := by
  cases op with
  | mult | multu => exact ⟨_, rfl⟩
  | div | divu => exact ⟨_, if_neg h⟩

theorem compute_eq_ok_iff :
    op.compute s t = .ok (hi, lo) ↔ ¬op.DividesByZero t ∧ op.Yields s t hi lo := by
  have inj (hi' lo' : Word) : (Except.ok (hi', lo') : Except ExecError (Word × Word)) =
      .ok (hi, lo) ↔ hi = hi' ∧ lo = lo' := by
    rw [Except.ok.injEq, Prod.mk.injEq, eq_comm, eq_comm (a := lo')]
  by_cases hzero : op.DividesByZero t
  · rw [compute_of_divides hzero]
    exact ⟨nofun, fun h => absurd hzero h.1⟩
  rw [and_iff_right hzero]
  cases op with
  | mult =>
    obtain ⟨hlow, hhigh⟩ := signed_mul_range s t
    exact (inj _ _).trans (mult_iff hlow hhigh).symm
  | multu =>
    have hlt : s.toNat * t.toNat < 0x100000000 * 0x100000000 :=
      Nat.mul_lt_mul'' s.toNat_lt t.toNat_lt
    exact (inj _ _).trans (multu_iff hlt).symm
  | div =>
    have hcompute : div.compute s t = .ok _ := if_neg hzero
    rw [hcompute]
    exact (inj _ _).trans (div_iff hzero).symm
  | divu =>
    have hcompute : divu.compute s t = .ok _ := if_neg hzero
    rw [hcompute]
    exact (inj _ _).trans (divu_iff hzero).symm

theorem compute_eq_error_iff :
    op.compute s t = .error e ↔ op.DividesByZero t ∧ e = .divideByZero := by
  by_cases hzero : op.DividesByZero t
  · rw [compute_of_divides hzero, Except.error.injEq, and_iff_right hzero, eq_comm]
  · obtain ⟨results, hcompute⟩ := exists_compute s hzero
    rw [hcompute]
    exact ⟨nofun, fun h => absurd h.1 hzero⟩

end MulDivOp

/-! ## Instructions -/

/-- What an arithmetic instruction comes to: a result for its register, a pair of results for `hi`
and `lo`, or an error. -/
inductive Calculation
  | register (r : Reg) (value : Word)
  | hiLo (hi lo : Word)
  | failure (e : ExecError)

/-- What arithmetic instructions come to, by the meaning of their operations. Others come to
nothing. -/
inductive Instr.Calculates (trap : Bool) (regs : Registers) : Instr → Calculation → Prop
  | alu {op : AluOp} {rd rs rt : Reg} {w : Word}
    (hrange : ¬op.Overflows trap (regs.get rs) (regs.get rt))
    (hyields : op.Yields (regs.get rs) (regs.get rt) w) :
    Calculates trap regs (.alu op rd rs rt) (.register rd w)
  | aluOverflow {op : AluOp} {rd rs rt : Reg}
    (h : op.Overflows trap (regs.get rs) (regs.get rt)) :
    Calculates trap regs (.alu op rd rs rt) (.failure .integerOverflow)
  | shift {op : ShiftOp} {rd rt : Reg} {amount : Shamt} {w : Word}
    (hyields : op.Yields (regs.get rt) (amount.toNat % 32) w) :
    Calculates trap regs (.shift op rd rt amount) (.register rd w)
  | immediate {op : ImmOp} {rt rs : Reg} {imm : UImm16} {w : Word}
    (hrange : ¬op.Overflows trap (regs.get rs) imm) (hyields : op.Yields (regs.get rs) imm w) :
    Calculates trap regs (.aluImm op rt rs imm) (.register rt w)
  | immediateOverflow {op : ImmOp} {rt rs : Reg} {imm : UImm16}
    (h : op.Overflows trap (regs.get rs) imm) :
    Calculates trap regs (.aluImm op rt rs imm) (.failure .integerOverflow)
  | upper {rt : Reg} {imm : UImm16} {w : Word} (hyields : w.Holds (imm.value * 0x10000)) :
    Calculates trap regs (.lui rt imm) (.register rt w)
  | mulDiv {op : MulDivOp} {rs rt : Reg} {hi lo : Word}
    (hdivisor : ¬op.DividesByZero (regs.get rt))
    (hyields : op.Yields (regs.get rs) (regs.get rt) hi lo) :
    Calculates trap regs (.mulDiv op rs rt) (.hiLo hi lo)
  | divideByZero {op : MulDivOp} {rs rt : Reg} (h : op.DividesByZero (regs.get rt)) :
    Calculates trap regs (.mulDiv op rs rt) (.failure .divideByZero)

/-- The instructions that compute. -/
def Instr.IsArithmetic : Instr → Prop
  | alu .. | shift .. | mulDiv .. | aluImm .. | lui .. => True
  | _ => False

/-- The effect of a calculation. -/
def Calculation.effect : Calculation → Except ExecError Effect
  | register r value => .ok (Effect.sets r value)
  | hiLo hi lo => .ok { hi := some hi, lo := some lo }
  | failure e => .error e

section

variable {i : Instr} {c : Calculation} {trap : Bool} {regs : Registers}

theorem lui_holds (imm : UImm16) :
    Word.Holds (UInt32.ofNat (imm.toNat * 0x10000)) (imm.value * 0x10000) := by
  obtain ⟨hlow, hhigh⟩ := imm.unsigned_range
  unfold Word.Holds Imm.toNat
  rw [UInt32.toNat_ofNat']
  omega

/-- What an instruction comes to is its effect. -/
theorem Instr.Calculates.effect_eq (h : i.Calculates trap regs c) (pc : Address)
    (memory : Memory) : i.effect pc trap regs memory = c.effect := by
  cases h with
  | alu hrange hyields =>
    exact congrArg (Except.map _) (AluOp.compute_eq_ok_iff.mpr ⟨hrange, hyields⟩)
  | aluOverflow h =>
    exact congrArg (Except.map _) (AluOp.compute_eq_error_iff.mpr ⟨h, rfl⟩)
  | @shift _ rd _ amount _ hyields =>
    have hamount : amount.toNat % 32 = amount.toNat := by
      obtain ⟨hlow, hhigh⟩ := amount.unsigned_range
      unfold Imm.toNat
      omega
    rw [hamount] at hyields
    exact congrArg (fun w => Except.ok (Effect.sets rd w)) (ShiftOp.compute_eq_iff.mpr hyields)
  | immediate hrange hyields =>
    exact congrArg (Except.map _) (ImmOp.compute_eq_ok_iff.mpr ⟨hrange, hyields⟩)
  | immediateOverflow h =>
    exact congrArg (Except.map _) (ImmOp.compute_eq_error_iff.mpr ⟨h, rfl⟩)
  | @upper rt imm _ hyields =>
    have hsame := (Word.holds_iff.mp (lui_holds imm)).trans (Word.holds_iff.mp hyields).symm
    exact congrArg (fun w => Except.ok (Effect.sets rt w)) hsame
  | mulDiv hdivisor hyields =>
    exact congrArg (Except.map _) (MulDivOp.compute_eq_ok_iff.mpr ⟨hdivisor, hyields⟩)
  | divideByZero h =>
    exact congrArg (Except.map _) (MulDivOp.compute_eq_error_iff.mpr ⟨h, rfl⟩)

theorem Calculation.effect_injective {c c' : Calculation} (h : c.effect = c'.effect) : c = c' := by
  unfold effect Effect.sets at h
  cases c <;> cases c' <;> simp_all

/-- An arithmetic instruction comes to something. -/
theorem Instr.IsArithmetic.calculates (h : i.IsArithmetic) (trap : Bool) (regs : Registers) :
    ∃ c, i.Calculates trap regs c := by
  cases i with
  | alu op rd rs rt =>
    cases hcompute : op.compute trap (regs.get rs) (regs.get rt) with
    | ok w =>
      obtain ⟨hrange, hyields⟩ := AluOp.compute_eq_ok_iff.mp hcompute
      exact ⟨_, .alu hrange hyields⟩
    | error e => exact ⟨_, .aluOverflow (AluOp.compute_eq_error_iff.mp hcompute).1⟩
  | shift op rd rt amount => exact ⟨.register rd _, .shift (ShiftOp.compute_eq_iff.mp rfl)⟩
  | mulDiv op rs rt =>
    cases hcompute : op.compute (regs.get rs) (regs.get rt) with
    | ok results =>
      obtain ⟨hdivisor, hyields⟩ := MulDivOp.compute_eq_ok_iff.mp hcompute
      exact ⟨_, .mulDiv hdivisor hyields⟩
    | error e => exact ⟨_, .divideByZero (MulDivOp.compute_eq_error_iff.mp hcompute).1⟩
  | aluImm op rt rs imm =>
    cases hcompute : op.compute trap (regs.get rs) (extendedImm op imm) with
    | ok w =>
      obtain ⟨hrange, hyields⟩ := ImmOp.compute_eq_ok_iff.mp hcompute
      exact ⟨_, .immediate hrange hyields⟩
    | error e => exact ⟨_, .immediateOverflow (ImmOp.compute_eq_error_iff.mp hcompute).1⟩
  | lui rt imm => exact ⟨.register rt _, .upper (lui_holds imm)⟩
  | jr | jalr | moveFrom | moveTo | syscall | brk | branch | load | store | j | jal => exact h.elim

end

/-! ## Machines -/

namespace Machine

/-- A machine has executed an instruction, and nothing but `hi` and `lo` has changed. -/
structure Divided (m : Machine) (hi lo : Word) (m' : Machine) : Prop where
  state : m'.state = .paused .step
  completed : m'.completed = m.completed + 1
  pc : m'.pc = m.pc + 4
  hi : m'.registers.hi = hi
  lo : m'.registers.lo = lo
  general : ∀ r, m'.registers.get r = m.registers.get r
  memory : m'.memory = m.memory
  same : m.SameApart m'

/-- What a machine has done after a calculation. -/
def Calculated (m : Machine) (c : Calculation) (m' : Machine) : Prop :=
  match c with
  | .register r value => m.Assigned 1 (some (r, value)) none m'
  | .hiLo hi lo => m.Divided hi lo m'
  | .failure e => m.Failed e m'

variable {m : Machine} {i : Instr} {c : Calculation}

theorem IsAt.calculated (h : m.IsAt i) (hplain : i ≠ .syscall ∧ i ≠ .brk)
    (heffect : i.effect m.pc m.flags.trapOverflow m.registers m.memory = c.effect) :
    m.Calculated c m.stepIn.2 := by
  cases c with
  | register r value => exact h.assigned hplain heffect
  | hiLo hi lo =>
    show m.Divided hi lo m.stepIn.2
    rw [h.stepIn_ok hplain heffect]
    exact { state := rfl, completed := rfl, pc := rfl, hi := rfl, lo := rfl, general := fun _ => rfl
            memory := rfl, same := rfl }
  | failure e =>
    show m.Failed e m.stepIn.2
    rw [h.stepIn_error hplain heffect]
    exact m.failed_enter e

end Machine

/-- An arithmetic instruction comes to one thing by the integers, and this is what a machine that
executes it does. Nothing is ever put into `$zero`. -/
theorem arithmetic_exact {m : Machine} {i : Instr} (hat : m.IsAt i) (hi : i.IsArithmetic) :
    ∃ c, (∀ c', i.Calculates m.flags.trapOverflow m.registers c' ↔ c' = c) ∧
      m.Calculated c m.stepIn.2 ∧ m.stepIn.2.registers.get Reg.zero = 0 := by
  obtain ⟨c, hc⟩ := hi.calculates m.flags.trapOverflow m.registers
  have hplain : i ≠ .syscall ∧ i ≠ .brk := by
    constructor <;> rintro rfl <;> exact hi
  have heffect := hc.effect_eq m.pc m.memory
  refine ⟨c, fun c' => ⟨fun hc' => ?_, ?_⟩, hat.calculated hplain heffect, Registers.get_zero _⟩
  · exact Calculation.effect_injective ((hc'.effect_eq m.pc m.memory).symm.trans heffect)
  · rintro rfl
    exact hc

/-- The least number divided by `-1`: the quotient has no word, and the machine keeps the least
number. -/
theorem arithmetic_exact_least :
    let source : Source := .ofString "lui $t0, 0x8000\naddiu $t1, $zero, -1\ndiv $t0, $t1"
    let start := Machine.create { heapBudget := 12, stackBudget := 4 }
    let m := (start.load (assemble source).program).after [.stepIn, .stepIn]
    Word.signed (m.registers.get 8) = -0x80000000 ∧ Word.signed (m.registers.get 9) = -1 ∧
      Word.signed m.stepIn.2.registers.lo = -0x80000000 ∧ m.stepIn.2.registers.hi = 0 ∧
      m.stepIn.2.memory = m.memory := by
  intro source start m
  obtain ⟨hstate, hword, hdividend, hdivisor⟩ : m.state.isTerminal = false ∧
      m.memory.textWord? m.pc = some (Instr.encode (.mulDiv .div 8 9)) ∧
      Word.signed (m.registers.get 8) = -0x80000000 ∧ Word.signed (m.registers.get 9) = -1 := by
    decide +kernel
  have hat : m.IsAt (.mulDiv .div 8 9) := ⟨hstate, hword, trivial⟩
  obtain ⟨c, hc, hcalculated, -⟩ := arithmetic_exact hat trivial
  have hquotient : (Instr.mulDiv .div 8 9).Calculates m.flags.trapOverflow m.registers
      (.hiLo 0 0x80000000) := by
    refine .mulDiv (fun hzero => ?_) ?_
    · rw [hzero] at hdivisor
      cases hdivisor
    · show if _ then _ else _
      rw [if_pos ⟨hdividend, hdivisor⟩]
      exact ⟨rfl, rfl⟩
  obtain rfl := (hc _).mp hquotient
  obtain ⟨-, -, -, hhi, hlo, -, hmemory, -⟩ := hcalculated
  refine ⟨hdividend, hdivisor, ?_, hhi, hmemory⟩
  rw [hlo]
  rfl

end MipsLab
