import MipsLab.Text.Numeral
import MipsLab.Text.WordCharacter

/-!
# Numerals read back

Reading gives back the number that was written, in all notations.

1. `Numeral.mem_digits`: what digits look like.
2. `Numeral.read_digits`, `Numeral.read_paddedHex`: reading is the inverse of writing.
-/

namespace MipsLab.Numeral

variable {base limit : Nat}

/-! ## Digits -/

theorem digitOf?_digitChar {d : Nat} (hd : d < base) (hbase : base ≤ 16) :
    digitOf? base (digitChar d) = some d := by
  have hvalue : ∀ d, d < 16 → digitValue? (digitChar d) = some d := by decide +kernel
  unfold digitOf?
  rw [hvalue d (Nat.lt_of_lt_of_le hd hbase)]
  exact Option.filter_some_pos (decide_eq_true hd)

theorem digitsFrom_append (base fuel n : Nat) (after : List Char) :
    digitsFrom base fuel n after = digitsFrom base fuel n [] ++ after := by
  induction fuel generalizing n after with
  | zero => rfl
  | succ fuel ih =>
    unfold digitsFrom
    split
    · rfl
    · rw [ih (n / base) (_ :: after), ih (n / base) [_], List.append_assoc]
      rfl

/-- The last digit apart from the others. -/
theorem digitsFrom_split {fuel n : Nat} (h : base ≤ n) :
    digitsFrom base (fuel + 1) n [] = digitsFrom base fuel (n / base) [] ++
      [digitChar (n % base)] := by
  rw [digitsFrom, if_neg (Nat.not_lt_of_le h), digitsFrom_append]

theorem mem_digitsFrom (hbase : 0 < base) {fuel n : Nat} {c : Char}
    (h : c ∈ digitsFrom base fuel n []) : ∃ d, d < base ∧ c = digitChar d := by
  induction fuel generalizing n with
  | zero => exact absurd h List.not_mem_nil
  | succ fuel ih =>
    rcases Nat.lt_or_ge n base with hn | hn
    · rw [digitsFrom, if_pos hn] at h
      exact ⟨n, hn, List.mem_singleton.mp h⟩
    · rw [digitsFrom_split hn] at h
      rcases List.mem_append.mp h with hfirst | hlast
      · exact ih hfirst
      · exact ⟨n % base, Nat.mod_lt n hbase, List.mem_singleton.mp hlast⟩

/-- The characters of a number are digits of its base. -/
theorem mem_digits (hbase : 0 < base) {n : Nat} {c : Char} (h : c ∈ digits base n) :
    ∃ d, d < base ∧ c = digitChar d :=
  mem_digitsFrom hbase h

theorem digits_ne_nil (base n : Nat) : digits base n ≠ [] := by
  unfold digits digitsFrom
  split
  · exact List.cons_ne_nil _ _
  · rw [digitsFrom_append]
    exact List.append_ne_nil_of_right_ne_nil _ (List.cons_ne_nil _ _)

/-! ## Reading what was written -/

theorem readFrom_append {value read : Nat} {cs : List Char}
    (h : readFrom base limit value cs = .ok read) (more : List Char) :
    readFrom base limit value (cs ++ more) = readFrom base limit read more := by
  induction cs generalizing value with
  | nil =>
    obtain rfl := Except.ok.inj h
    rfl
  | cons c cs ih =>
    rw [readFrom] at h
    rw [List.cons_append, readFrom]
    cases hd : digitOf? base c with
    | none =>
      rw [hd] at h
      exact nomatch h
    | some d =>
      rw [hd] at h
      simp only at h ⊢
      split at h
      · exact nomatch h
      · next hle =>
        rw [if_neg hle]
        exact ih h

theorem readFrom_digitChar {value d : Nat} (hd : d < base) (hbase : base ≤ 16)
    (hlimit : value * base + d ≤ limit) :
    readFrom base limit value [digitChar d] = .ok (value * base + d) := by
  unfold readFrom
  rw [digitOf?_digitChar hd hbase]
  simp only
  rw [if_neg (Nat.not_lt_of_le hlimit)]
  rfl

/-- The induction is on the number of digits; the last one is read after the others. -/
theorem readFrom_digitsFrom (hlow : 2 ≤ base) (hhigh : base ≤ 16) {fuel n : Nat}
    (hfuel : n < fuel) (hlimit : n ≤ limit) :
    readFrom base limit 0 (digitsFrom base fuel n []) = .ok n := by
  induction fuel generalizing n with
  | zero => exact absurd hfuel (Nat.not_lt_zero n)
  | succ fuel ih =>
    rcases Nat.lt_or_ge n base with hn | hn
    · have hread : 0 * base + n = n := by rw [Nat.zero_mul, Nat.zero_add]
      have hone : readFrom base limit 0 [digitChar n] = .ok (0 * base + n) :=
        readFrom_digitChar hn hhigh (hread.symm ▸ hlimit)
      rw [digitsFrom, if_pos hn, hone, hread]
    · have hsmaller : n / base < n := Nat.div_lt_self (by omega) hlow
      have hfirst := ih (Nat.lt_of_lt_of_le hsmaller (Nat.le_of_lt_succ hfuel))
        (Nat.le_trans (Nat.le_of_lt hsmaller) hlimit)
      have hread : n / base * base + n % base = n := Nat.div_add_mod' n base
      have hlast := readFrom_digitChar (Nat.mod_lt n (by omega)) hhigh (hread.symm ▸ hlimit)
      rw [digitsFrom_split hn, readFrom_append hfirst, hlast, hread]

theorem read_of_readFrom {cs : List Char} {n : Nat} (hne : cs ≠ [])
    (h : readFrom base limit 0 cs = .ok n) : read base limit cs = .ok n := by
  unfold read
  rw [List.isEmpty_eq_false_iff.mpr hne]
  exact h

/-- A number that is written can be read back. -/
theorem read_digits (hlow : 2 ≤ base) (hhigh : base ≤ 16) {n : Nat} (hlimit : n ≤ limit) :
    read base limit (digits base n) = .ok n :=
  read_of_readFrom (digits_ne_nil base n)
    (readFrom_digitsFrom hlow hhigh (Nat.lt_succ_self n) hlimit)

theorem readFrom_zeros (base limit count : Nat) (cs : List Char) (hlow : 2 ≤ base) :
    readFrom base limit 0 (List.replicate count '0' ++ cs) = readFrom base limit 0 cs := by
  induction count with
  | zero => rfl
  | succ count ih =>
    have hzero : digitOf? base '0' = some 0 :=
      Option.filter_some_pos (decide_eq_true (Nat.lt_of_lt_of_le Nat.zero_lt_two hlow))
    rw [List.replicate_succ, List.cons_append, readFrom, hzero]
    simp only [Nat.zero_mul, Nat.add_zero]
    rw [if_neg (Nat.not_lt_zero limit), ih]

/-- Leading zeros do not count. -/
theorem read_paddedHex {n : Nat} (hlimit : n ≤ limit) :
    read 16 limit (paddedHex n) = .ok n := by
  have hdigits : readFrom 16 limit 0 (upperHex n) = .ok n :=
    readFrom_digitsFrom (by decide) (Nat.le_refl 16) (Nat.lt_succ_self n) hlimit
  refine read_of_readFrom ?_ ?_
  · exact List.append_ne_nil_of_right_ne_nil _ (digits_ne_nil 16 n)
  · exact (readFrom_zeros 16 limit _ _ (by decide)).trans hdigits

theorem mem_paddedHex {n : Nat} {c : Char} (h : c ∈ paddedHex n) :
    ∃ d, d < 16 ∧ c = digitChar d := by
  rcases List.mem_append.mp h with hpad | hdigit
  · exact ⟨0, by decide, List.eq_of_mem_replicate hpad⟩
  · exact mem_digits (by decide) hdigit

/-! ## Characters -/

/-- Digits go on as words do. -/
theorem isWord_digitChar {d : Nat} (hd : d < 16) : Text.isWord (digitChar d) = true := by
  have hall : ∀ d, d < 16 → Text.isWord (digitChar d) = true := by decide +kernel
  exact hall d hd

theorem isDigit_digitChar {d : Nat} (hd : d < 10) : Text.isDigit (digitChar d) = true := by
  have hall : ∀ d, d < 10 → Text.isDigit (digitChar d) = true := by decide +kernel
  exact hall d hd

end MipsLab.Numeral
