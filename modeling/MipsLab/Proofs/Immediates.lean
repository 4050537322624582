import MipsLab.Immediate.Backing
import MipsLab.Proofs.OperandGrammar

/-!
# Immediates

What fits a number of bits, and what becomes of what does not. The bounds of a kind and a width are
told by powers of two, and truncation by congruence; the machine has nothing but shifts of its 32
bits for both, whichever the width, and refuses in one way what it has no machine integer for and
what it has no bits for.

1. `Signedness.wrap_eq_iff_congruent`: wrapping gives the one number in range that is congruent.
2. `Signedness.read_ofInt`, `Signedness.write?_eq_some_iff`: machine integers and numbers.
3. `Imm.ofBits?_eq`, `Imm.ofNumber?_eq`, `Imm.truncateBits_eq`: shifting is wrapping.
4. `immediates_exact`: checking and truncating, for both kinds and all widths.
-/

namespace MipsLab

/-! ## Congruent numbers -/

namespace Signedness

variable {bits : Nat} {m n : Int}

theorem dvd_wrap_sub (kind : Signedness) (bits : Nat) (n : Int) :
    ((2 ^ bits : Nat) : Int) ∣ kind.wrap bits n - n := by
  cases kind with
  | unsigned => exact Int.dvd_emod_sub_self
  | signed => exact Int.dvd_bmod_sub_self

theorem wrap_congr (kind : Signedness) (h : ((2 ^ bits : Nat) : Int) ∣ m - n) :
    kind.wrap bits m = kind.wrap bits n := by
  cases kind with
  | unsigned => exact Int.emod_eq_emod_iff_emod_sub_eq_zero.mpr (Int.emod_eq_zero_of_dvd h)
  | signed => exact Int.bmod_eq_bmod_iff_bmod_sub_eq_zero.mpr (Int.bmod_eq_zero_of_dvd h)

/-- Wrapping gives the one number in range that is congruent. -/
theorem wrap_eq_iff_congruent (kind : Signedness) (hpos : 0 < bits) :
    kind.wrap bits n = m ↔
      (kind.lowest bits ≤ m ∧ m ≤ kind.highest bits) ∧ ((2 ^ bits : Nat) : Int) ∣ m - n := by
  rw [← kind.wrap_eq_iff hpos]
  constructor
  · rintro rfl
    exact ⟨kind.wrap_wrap bits n, kind.dvd_wrap_sub bits n⟩
  · rintro ⟨hfits, hdvd⟩
    rw [← kind.wrap_congr hdvd, hfits]

/-- Wrapping to more bits before changes nothing. -/
theorem wrap_wrap_of_le (kind : Signedness) {wide : Nat} (h : bits ≤ wide) (n : Int) :
    kind.wrap bits (kind.wrap wide n) = kind.wrap bits n :=
  kind.wrap_congr <| Int.dvd_trans (Int.natCast_dvd_natCast.mpr (Nat.pow_dvd_pow 2 h))
    (kind.dvd_wrap_sub wide n)

/-- What fits some bits fits more of them. -/
theorem wrap_eq_of_le (kind : Signedness) {wide : Nat} (hpos : 0 < bits) (h : bits ≤ wide)
    (hfits : kind.wrap bits n = n) : kind.wrap wide n = n := by
  have hwide : 0 < wide := Nat.lt_of_lt_of_le hpos h
  have hpow : 2 ^ bits ≤ 2 ^ wide := Nat.pow_le_pow_right (by decide) h
  have hhalf : 2 ^ (bits - 1) ≤ 2 ^ (wide - 1) :=
    Nat.pow_le_pow_right (by decide) (Nat.sub_le_sub_right h 1)
  rw [kind.wrap_eq_iff hpos] at hfits
  rw [kind.wrap_eq_iff hwide]
  cases kind with
  | unsigned =>
    simp only [lowest, highest] at hfits ⊢
    omega
  | signed =>
    simp only [lowest, highest] at hfits ⊢
    omega

/-! ## Machine integers -/

variable {w : BitVec 32}

theorem read_ofInt (kind : Signedness) (n : Int) :
    kind.read (BitVec.ofInt 32 n) = kind.wrap 32 n := by
  cases kind with
  | unsigned =>
    have hnonneg : 0 ≤ n % (2 ^ 32 : Nat) := Int.emod_nonneg n (by decide)
    exact (congrArg _ (BitVec.toNat_ofInt n)).trans (Int.toNat_of_nonneg hnonneg)
  | signed => exact BitVec.toInt_ofInt n

/-- A number is written as the machine integer that is read as it. -/
theorem write?_eq_some_iff (kind : Signedness) : kind.write? n = some w ↔ kind.read w = n := by
  have hrange : (kind.lowest 32 ≤ n ∧ n ≤ kind.highest 32) ↔
      kind.read (BitVec.ofInt 32 n) = n := by
    rw [kind.read_ofInt, kind.wrap_eq_iff (by decide)]
  unfold write?
  constructor
  · intro h
    split at h
    · next hfits =>
      obtain rfl := Option.some.inj h
      exact hrange.mp hfits
    · exact nomatch h
  · rintro rfl
    have hw : BitVec.ofInt 32 (kind.read w) = w := by
      rw [← kind.read_inj, kind.read_ofInt, kind.wrap_read (Nat.le_refl 32)]
    rw [if_pos (hrange.mpr (congrArg kind.read hw)), hw]

/-- There is a machine integer for each number of 32 bits. -/
theorem exists_read_iff (kind : Signedness) :
    (∃ w, kind.read w = n) ↔ kind.lowest 32 ≤ n ∧ n ≤ kind.highest 32 := by
  rw [← kind.wrap_eq_iff (by decide : 0 < 32)]
  constructor
  · rintro ⟨w, rfl⟩
    exact kind.wrap_read (Nat.le_refl 32) w
  · intro hfits
    exact ⟨BitVec.ofInt 32 n, (kind.read_ofInt n).trans hfits⟩

end Signedness

/-! ## Immediates -/

namespace Imm

variable {kind : Signedness} {bits : Nat} {n : Int} {w : BitVec 32}

theorem ofInt?_of_fits (h : kind.wrap bits n = n) :
    ∃ i : Imm kind bits, ofInt? n = .ok i ∧ i.value = n :=
  ⟨⟨n, h⟩, dif_pos h, rfl⟩

theorem ofInt?_of_not_fits (h : kind.wrap bits n ≠ n) :
    (ofInt? n : Except ImmError (Imm kind bits)) = .error ⟨kind, bits⟩ :=
  dif_neg h

theorem ofBits?_eq (w : BitVec 32) :
    (ofBits? w : Except ImmError (Imm kind bits)) = ofInt? (kind.read w) := by
  have hiff : w = kind.extend bits w ↔ kind.wrap bits (kind.read w) = kind.read w := by
    rw [← kind.read_extend, kind.read_inj, eq_comm]
  unfold ofBits? ofInt?
  by_cases h : w = kind.extend bits w
  · rw [dif_pos h, dif_pos (hiff.mp h)]
  · rw [dif_neg h, dif_neg (mt hiff.mpr h)]

theorem ofNumber?_eq (hpos : 0 < bits) (hbits : bits ≤ 32) (n : Int) :
    (ofNumber? n : Except ImmError (Imm kind bits)) = ofInt? n := by
  unfold ofNumber?
  cases hwrite : kind.write? n with
  | some w =>
    show ofBits? w = _
    rw [ofBits?_eq, kind.write?_eq_some_iff.mp hwrite]
  | none =>
    refine (ofInt?_of_not_fits fun hfits => ?_).symm
    have hwrite' : kind.write? n = some (BitVec.ofInt 32 n) := by
      rw [kind.write?_eq_some_iff, kind.read_ofInt, kind.wrap_eq_of_le hpos hbits hfits]
    rw [hwrite] at hwrite'
    exact nomatch hwrite'

theorem truncateBits_eq (w : BitVec 32) :
    (truncateBits w : Imm kind bits) = truncate (kind.read w) :=
  Imm.ext (kind.read_extend bits w)

/-- Numbers are truncated like the machine integers with the same low bits. -/
theorem truncateBits_ofInt (hbits : bits ≤ 32) (n : Int) :
    (truncateBits (BitVec.ofInt 32 n) : Imm kind bits) = truncate n := by
  rw [truncateBits_eq, kind.read_ofInt]
  exact Imm.ext (kind.wrap_wrap_of_le hbits n)

theorem ofBits?_isOk_iff :
    (∃ i : Imm kind bits, ofBits? w = .ok i) ↔ kind.wrap bits (kind.read w) = kind.read w := by
  rw [ofBits?_eq]
  constructor
  · rintro ⟨i, hi⟩
    rw [← ofInt?_eq_ok_iff.mp hi]
    exact i.fits
  · intro hfits
    obtain ⟨i, hi, -⟩ := ofInt?_of_fits hfits
    exact ⟨i, hi⟩

/-- Immediates of a kind and a width are made exactly. -/
structure Exact (kind : Signedness) (bits : Nat) : Prop where
  /-- The machine integers stand for the numbers of 32 bits. -/
  backing (n : Int) : (∃ w, kind.read w = n) ↔ kind.lowest 32 ≤ n ∧ n ≤ kind.highest 32
  /-- What is in range is accepted, and kept. -/
  accepts (n : Int) (hlow : kind.lowest bits ≤ n) (hhigh : n ≤ kind.highest bits) :
    ∃ i : Imm kind bits, ofNumber? n = .ok i ∧ i.value = n
  /-- Nothing else is. -/
  refuses (n : Int) (h : n < kind.lowest bits ∨ kind.highest bits < n) :
    (ofNumber? n : Except ImmError (Imm kind bits)) = .error ⟨kind, bits⟩
  /-- Machine integers are accepted like the numbers that they stand for. -/
  machine (w : BitVec 32) :
    (ofBits? w : Except ImmError (Imm kind bits)) = ofNumber? (kind.read w)
  /-- Truncation gives the one number in range that is congruent. -/
  truncates (w : BitVec 32) (m : Int) : (truncateBits w : Imm kind bits).value = m ↔
    (kind.lowest bits ≤ m ∧ m ≤ kind.highest bits) ∧
      ((2 ^ bits : Nat) : Int) ∣ m - kind.read w
  /-- It keeps what is accepted, and changes all else. -/
  keeps (w : BitVec 32) : (truncateBits w : Imm kind bits).value = kind.read w ↔
    ∃ i : Imm kind bits, ofBits? w = .ok i
  /-- Checking does the same by wrapping. -/
  checked (n : Int) : (ofInt? n : Except ImmError (Imm kind bits)) = ofNumber? n
  /-- Truncating does the same by wrapping, also for numbers of more than 32 bits. -/
  wrapped (n : Int) : (truncate n : Imm kind bits) = truncateBits (BitVec.ofInt 32 n)

end Imm

/-- For both kinds and every width of 1 to 32 bits, an immediate is made of every integer from
`-2 ^ (bits - 1)` to `2 ^ (bits - 1) - 1`, or from zero to `2 ^ bits - 1`, and of no other, and
truncation gives the one in that range that is congruent modulo `2 ^ bits`. -/
theorem immediates_exact (kind : Signedness) (bits : Nat) (hpos : 0 < bits) (hbits : bits ≤ 32) :
    Imm.Exact kind bits where
  backing _ := kind.exists_read_iff
  accepts n hlow hhigh := by
    rw [Imm.ofNumber?_eq hpos hbits]
    exact Imm.ofInt?_of_fits ((kind.wrap_eq_iff hpos n).mpr ⟨hlow, hhigh⟩)
  refuses n h := by
    rw [Imm.ofNumber?_eq hpos hbits]
    refine Imm.ofInt?_of_not_fits fun hfits => ?_
    have hrange := (kind.wrap_eq_iff hpos n).mp hfits
    omega
  machine w := (Imm.ofBits?_eq w).trans (Imm.ofNumber?_eq hpos hbits _).symm
  truncates w m := by
    rw [Imm.truncateBits_eq]
    exact kind.wrap_eq_iff_congruent hpos
  keeps w := by
    rw [Imm.truncateBits_eq, Imm.ofBits?_isOk_iff]
    rfl
  checked n := (Imm.ofNumber?_eq hpos hbits n).symm
  wrapped n := (Imm.truncateBits_ofInt hbits n).symm

/-- At the full width of the machine nothing is shifted, and what is one beyond the range has no
machine integer. At half of it, the bits of 65535 are those of -1. -/
theorem immediates_exact_bounds :
    (0 < 32 ∧ 32 ≤ 32 ∧ Signedness.signed.lowest 32 ≤ -0x80000000 ∧
      (∃ i : Imm .signed 32, Imm.ofNumber? (-0x80000000) = .ok i ∧ i.value = -0x80000000) ∧
      (Imm.ofNumber? (-0x80000001) : Except ImmError (Imm .signed 32)) =
        .error ⟨.signed, 32⟩) ∧
    0 < 16 ∧ 16 ≤ 32 ∧ (Imm.truncateBits 0xFFFF : SImm16).value = -1 ∧
      (Imm.ofBits? 0xFFFF : Except ImmError SImm16) = .error ⟨.signed, 16⟩ := by
  have hwide := immediates_exact .signed 32 (by decide) (by decide)
  have hhalf := immediates_exact .signed 16 (by decide) (by decide)
  refine ⟨⟨by decide, by decide, by decide, hwide.accepts _ (by decide) (by decide),
    hwide.refuses _ (.inl (by decide))⟩, by decide, by decide, ?_, ?_⟩
  · exact (hhalf.truncates _ _).mpr (by decide)
  · rw [hhalf.machine]
    exact hhalf.refuses _ (.inr (by decide))

end MipsLab
