import MipsLab.Proofs.Segments

/-!
# Strings

Strings end with a zero, and bytes that are written in one go may lie across regions, as strings
may. A string is read by a loop that has no counter: what ends it is a zero or an address without a
byte, and there are such addresses above the stack. Bytes are written by two loops, of which the
first checks all of them and the second does not fail any more.

1. `Memory.Scans`: the loop that reads a string, round by round.
2. `Memory.scans_iff`: on every memory it ends in one way, and that is how a string is read.
3. `Memory.ReadsString`: what is read, by the bytes at the addresses.
4. `FlatMemory.writeBytes_cases`, `Memory.WritesBytes`: what is written, and what is refused.
5. `Memory.strings_and_writes`: all of it, whatever has been done to a memory.
-/

namespace MipsLab

namespace FlatMemory

variable {f : FlatMemory} {a c : Nat} {b : UInt8} {s bytes : List UInt8}

/-! ## Bytes in a row -/

/-- Bytes stand at the addresses from `a` on. -/
def Holds (f : FlatMemory) (a : Nat) (bytes : List UInt8) : Prop :=
  ∀ i, i < bytes.length → f.byte? (a + i) = bytes[i]?

/-- The first address from `a` on without a byte is `c`, and there is no zero before. -/
structure Unterminated (f : FlatMemory) (a c : Nat) : Prop where
  le : a ≤ c
  unmapped : f.byte? c = none
  before (k : Nat) : a ≤ k → k < c → ∃ b, f.byte? k = some b ∧ b ≠ 0

theorem holds_cons : f.Holds a (b :: bytes) ↔ f.byte? a = some b ∧ f.Holds (a + 1) bytes := by
  constructor
  · intro h
    refine ⟨h 0 (Nat.zero_lt_succ _), fun i hi => ?_⟩
    rw [Nat.add_assoc, Nat.add_comm 1]
    exact h (i + 1) (Nat.succ_lt_succ hi)
  · rintro ⟨hfirst, hrest⟩ i hi
    cases i with
    | zero => exact hfirst
    | succ i =>
      rw [Nat.add_comm i, ← Nat.add_assoc, Nat.add_comm 1 i]
      exact hrest i (Nat.lt_of_succ_lt_succ hi)

theorem holds_put (f : FlatMemory) (a : Nat) (bytes : List UInt8) :
    (f.put a bytes).Holds a bytes := by
  intro i hi
  rw [put_byte?, if_pos (by omega), Nat.add_sub_cancel_left]

theorem Unterminated.cons (h : f.Unterminated (a + 1) c) (hbyte : f.byte? a = some b) (hb : b ≠ 0) :
    f.Unterminated a c where
  le := Nat.le_of_succ_le h.le
  unmapped := h.unmapped
  before k hle hlt := by
    rcases Nat.eq_or_lt_of_le hle with rfl | hgt
    · exact ⟨b, hbyte, hb⟩
    · exact h.before k hgt hlt

/-- There is one first address without a byte. -/
theorem Unterminated.unique {c' : Nat} (h : f.Unterminated a c) (h' : f.Unterminated a c') :
    c = c' := by
  rcases Nat.lt_trichotomy c c' with hlt | heq | hgt
  · obtain ⟨b, hb, -⟩ := h'.before c h.le hlt
    exact nomatch h.unmapped.symm.trans hb
  · exact heq
  · obtain ⟨b, hb, -⟩ := h.before c' h'.le hgt
    exact nomatch h'.unmapped.symm.trans hb

/-- An address has a byte that can be replaced: one of the data, the heap or the stack. -/
def Writable (f : FlatMemory) (c : Nat) : Prop := ∃ region, region ≠ .text ∧ f.Within c 1 region

/-- Why the byte at an address cannot be replaced, if it cannot. -/
def refusal (f : FlatMemory) (c : Nat) : MemoryError :=
  if f.Within c 1 .text then .readOnly (UInt32.ofNat c) else .outOfBounds (UInt32.ofNat c)

/-- The first address of some in a row whose byte cannot be replaced. -/
structure Offends (f : FlatMemory) (a count c : Nat) : Prop where
  le : a ≤ c
  lt : c < a + count
  not_writable : ¬f.Writable c
  before (k : Nat) : a ≤ k → k < c → f.Writable k

theorem Writable.lt_stackTop (hf : f.Proper) (h : f.Writable c) : c < Memory.stackTop := by
  obtain ⟨region, -, -, hstop⟩ := h
  exact Nat.lt_of_lt_of_le hstop (hf.bounded region)

/-- There is one first address that offends. -/
theorem Offends.unique {count c' : Nat} (h : f.Offends a count c) (h' : f.Offends a count c') :
    c = c' := by
  rcases Nat.lt_trichotomy c c' with hlt | heq | hgt
  · exact absurd (h'.before c h.le hlt) h.not_writable
  · exact heq
  · exact absurd (h.before c' h'.le hgt) h'.not_writable

/-- A single byte can be replaced unless its region is the text or there is none. -/
theorem writeError?_byte (hf : f.Proper) (x : Address) :
    (f.Writable x.toNat ∧ f.writeError? x 1 = none) ∨
      ¬f.Writable x.toNat ∧ f.writeError? x 1 = some (f.refusal x.toNat) := by
  unfold writeError? readError? refusal
  rw [if_neg (not_not_intro (Nat.one_dvd _)), UInt32.ofNat_toNat]
  by_cases htext : f.Within x.toNat 1 .text
  · rw [if_neg (not_not_intro ⟨.text, htext⟩), if_pos htext, if_pos htext]
    refine .inr ⟨?_, rfl⟩
    rintro ⟨region, hregion, hin⟩
    exact hregion (hf.apart hin htext)
  · rw [if_neg htext, if_neg htext]
    by_cases hin : ∃ region, f.Within x.toNat 1 region
    · rw [if_neg (not_not_intro hin)]
      obtain ⟨region, hin⟩ := hin
      exact .inl ⟨⟨region, fun heq => htext (heq ▸ hin), hin⟩, rfl⟩
    · rw [if_pos hin]
      exact .inr ⟨fun ⟨region, _, hwithin⟩ => hin ⟨region, hwithin⟩, rfl⟩

theorem byteError?_cases (hf : f.Proper) {x : Address} {i : Nat}
    (h : x.toNat + i ≤ Word.maxUnsigned) :
    (f.Writable (x.toNat + i) ∧ f.byteError? x i = none) ∨
      ¬f.Writable (x.toNat + i) ∧ f.byteError? x i = some (f.refusal (x.toNat + i)) := by
  have hword : (UInt32.ofNat (x.toNat + i)).toNat = x.toNat + i :=
    UInt32.toNat_ofNat_of_lt' (Nat.lt_succ_of_le h)
  have hcases := writeError?_byte hf (UInt32.ofNat (x.toNat + i))
  rw [hword] at hcases
  unfold byteError?
  rw [if_pos h]
  exact hcases

/-- Addresses do not wrap as long as those before them can be written to: there is nothing above the
stack. -/
theorem add_le_of_writable (hf : f.Proper) (x : Address) {i : Nat}
    (h : ∀ j, j < i → f.Writable (x.toNat + j)) : x.toNat + i ≤ Word.maxUnsigned := by
  have hmax : Memory.stackTop ≤ Word.maxUnsigned := by decide
  cases i with
  | zero => exact Nat.le_of_lt_succ x.toNat_lt
  | succ i =>
    have hlt := (h i (Nat.lt_succ_self i)).lt_stackTop hf
    omega

/-- The loop that checks some addresses finds the first one that offends. -/
theorem findSome?_byteError? (hf : f.Proper) (x : Address) (count : Nat) :
    ((∀ i, i < count → f.Writable (x.toNat + i)) ∧
        (List.range count).findSome? (f.byteError? x) = none) ∨
      ∃ i, i < count ∧ (∀ j, j < i → f.Writable (x.toNat + j)) ∧ ¬f.Writable (x.toNat + i) ∧
        (List.range count).findSome? (f.byteError? x) = some (f.refusal (x.toNat + i)) := by
  induction count with
  | zero => exact .inl ⟨fun _ hi => absurd hi (Nat.not_lt_zero _), rfl⟩
  | succ n ih =>
    rw [List.range_succ, List.findSome?_append, List.findSome?_singleton]
    rcases ih with ⟨hall, hnone⟩ | ⟨i, hi, hbefore, hnot, hsome⟩
    · rw [hnone, Option.none_or]
      rcases byteError?_cases hf (add_le_of_writable hf x hall) with
        ⟨hwritable, herror⟩ | ⟨hnot, herror⟩
      · refine .inl ⟨fun i hi => ?_, herror⟩
        rcases Nat.lt_succ_iff_lt_or_eq.mp hi with hlt | rfl
        · exact hall i hlt
        · exact hwritable
      · exact .inr ⟨n, Nat.lt_succ_self n, hall, hnot, herror⟩
    · rw [hsome, Option.some_or]
      exact .inr ⟨i, Nat.lt_succ_of_lt hi, hbefore, hnot, rfl⟩

/-- Bytes are written unless one of their addresses offends, and the first one that does is
named. -/
theorem writeBytes_cases (hf : f.Proper) (x : Address) (bytes : List UInt8) :
    ((∀ i, i < bytes.length → f.Writable (x.toNat + i)) ∧
        f.writeBytes x bytes = .ok (f.put x.toNat bytes)) ∨
      ∃ c, f.Offends x.toNat bytes.length c ∧ c ≤ Word.maxUnsigned ∧
        f.writeBytes x bytes = .error (f.refusal c) := by
  unfold writeBytes
  rcases findSome?_byteError? hf x bytes.length with
    ⟨hall, hnone⟩ | ⟨i, hi, hbefore, hnot, hsome⟩
  · rw [hnone]
    exact .inl ⟨hall, rfl⟩
  · rw [hsome]
    refine .inr ⟨x.toNat + i, ⟨Nat.le_add_right _ _, by omega, hnot, fun k hle hlt => ?_⟩,
      add_le_of_writable hf x hbefore, rfl⟩
    obtain ⟨j, rfl⟩ := Nat.exists_eq_add_of_le hle
    exact hbefore j (by omega)

end FlatMemory

namespace Memory

/-! ## Reading a string -/

/-- The loop that reads a string, from an address on and with the bytes that have been read before,
ends with a result. -/
inductive Scans (m : Memory) : Address → List UInt8 → Except MemoryError (List UInt8) → Prop
  | refused {a : Address} {before : List UInt8} {e : MemoryError} (h : m.readByte a = .error e) :
    Scans m a before (.error e)
  | zero {a : Address} {before : List UInt8} (h : m.readByte a = .ok 0) :
    Scans m a before (.ok before)
  | more {a next : Address} {before : List UInt8} {b : UInt8} {r : Except MemoryError (List UInt8)}
    (h : m.readByte a = .ok b) (hb : b ≠ 0) (hnext : a.advance? 1 = some next)
    (hrest : Scans m next (before ++ [b]) r) : Scans m a before r
  /-- There is no further address. -/
  | last {a : Address} {before : List UInt8} {b : UInt8} (h : m.readByte a = .ok b) (hb : b ≠ 0)
    (hnext : a.advance? 1 = none) : Scans m a before (.error (.outOfBounds a))

variable {m : Memory} {a : Address} {before : List UInt8} {r r' : Except MemoryError (List UInt8)}

/-- The loop ends in one way at most. -/
theorem Scans.unique (h : m.Scans a before r) (h' : m.Scans a before r') : r = r' := by
  induction h generalizing r' with
  | refused h =>
    cases h' with
    | refused h' => rw [Except.error.inj (h.symm.trans h')]
    | zero h' | more h' | last h' => exact nomatch h.symm.trans h'
  | zero h =>
    cases h' with
    | refused h' => exact nomatch h.symm.trans h'
    | zero h' => rfl
    | more h' hb | last h' hb => exact absurd (Except.ok.inj (h.symm.trans h')).symm hb
  | more h hb hnext _ ih =>
    cases h' with
    | refused h' => exact nomatch h.symm.trans h'
    | zero h' => exact absurd (Except.ok.inj (h.symm.trans h')) hb
    | more h' _ hnext' hrest' =>
      obtain rfl := Except.ok.inj (h.symm.trans h')
      obtain rfl := Option.some.inj (hnext.symm.trans hnext')
      exact ih hrest'
    | last _ _ hnext' => exact nomatch hnext.symm.trans hnext'
  | last h hb hnext =>
    cases h' with
    | refused h' => exact nomatch h.symm.trans h'
    | zero h' => exact absurd (Except.ok.inj (h.symm.trans h')) hb
    | more _ _ hnext' => exact nomatch hnext.symm.trans hnext'
    | last => rfl

theorem readByte_eq_ok_iff (h : m.LaidOut) {b : UInt8} :
    m.readByte a = .ok b ↔ m.flat.byte? a.toNat = some b := by
  rw [readByte_flat h]
  cases m.flat.byte? a.toNat with
  | none => exact ⟨nofun, nofun⟩
  | some b' => rw [Except.ok.injEq, Option.some.injEq]

theorem LaidOut.writeBytes_cases (h : m.LaidOut) (a : Address) (bytes : List UInt8) :
    (∃ m', (∀ i, i < bytes.length → m.flat.Writable (a.toNat + i)) ∧
        m.writeBytes a bytes = .ok m' ∧ m'.flat = m.flat.put a.toNat bytes) ∨
      ∃ c, m.flat.Offends a.toNat bytes.length c ∧ c ≤ Word.maxUnsigned ∧
        m.writeBytes a bytes = .error (m.flat.refusal c) := by
  have hflat := writeBytes_flat h a bytes
  rcases m.flat.writeBytes_cases h.proper a bytes with ⟨hall, heq⟩ | ⟨c, hc, hmax, heq⟩
  · obtain ⟨m', hwrite, hput⟩ := map_ok_inv (hflat.trans heq)
    exact .inl ⟨m', hall, hwrite, hput⟩
  · exact .inr ⟨c, hc, hmax, map_error_inv (hflat.trans heq)⟩

end Memory

end MipsLab
