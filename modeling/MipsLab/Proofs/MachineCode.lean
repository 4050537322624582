import Mathlib.Algebra.Group.Nat.Defs
import MipsLab.Instr.Encoding

/-!
# Machine code and its decoding

Every normal instruction is the decoding of its own word, and every word that decodes gives a normal
instruction.

1. `Imm.truncate_of_mod`: the bits of a field determine the immediate that they stand for.
2. `Instr.registerFields_fields`, `Instr.immediateFields_fields`: the fields of a word can be taken
   apart again.
3. `Instr.code_lt`: machine code fits a word, so nothing of it is lost.
4. `Instr.decode?_encode`: decoding gives back what was encoded.
5. `Instr.decode?_normal`: what a word decodes to is normal, whatever stands in the fields that its
   instruction does not use.
6. `Instr.machineCode_round_trip`: both ways, and no word for two normal instructions.
-/

namespace MipsLab

/-! ## Immediates and their fields -/

theorem Signedness.wrap_emod (kind : Signedness) (bits : Nat) (n : Int) :
    kind.wrap bits (n % (2 ^ bits : Nat)) = kind.wrap bits n := by
  cases kind with
  | unsigned => exact Int.emod_emod_of_dvd n ⟨1, by simp⟩
  | signed => exact Int.emod_bmod n (2 ^ bits)

namespace Imm

variable {kind : Signedness} {bits : Nat}

theorem field_cast (i : Imm kind bits) : (i.field : Int) = i.value % (2 ^ bits : Nat) := by
  have h : 0 < 2 ^ bits := Nat.two_pow_pos bits
  exact Int.toNat_of_nonneg (Int.emod_nonneg _ (by omega))

theorem field_lt (i : Imm kind bits) : i.field < 2 ^ bits := by
  have h : 0 < 2 ^ bits := Nat.two_pow_pos bits
  have hlt := Int.emod_lt_of_pos i.value (b := (2 ^ bits : Nat)) (by omega)
  rw [← i.field_cast] at hlt
  exact Int.ofNat_lt.mp hlt

/-- An immediate is the truncation of every number whose low bits are its field. -/
theorem truncate_of_mod {n : Nat} {i : Imm kind bits} (h : n % 2 ^ bits = i.field) :
    truncate (n : Int) = i := by
  apply Imm.ext
  calc
    kind.wrap bits n = kind.wrap bits ((n : Int) % (2 ^ bits : Nat)) :=
      (kind.wrap_emod bits n).symm
    _ = kind.wrap bits (i.value % (2 ^ bits : Nat)) := by
      rw [← i.field_cast, ← h, Int.natCast_emod]
    _ = kind.wrap bits i.value := kind.wrap_emod bits i.value
    _ = i.value := i.fits

end Imm

namespace Instr

/-! ## Words and their fields -/

/-- The register of a field is found by what is left of the word in units of the field. -/
theorem registerAt_eq {unit w : Nat} {r : Reg} (h : w / unit % 32 = r.val) :
    registerAt unit w = r :=
  Fin.ext h

/-- The fields of a word of three registers, under an operation code. -/
theorem registerFields_fields {w opcode amount funct : Nat} {rs rt rd : Reg}
    (hw : w = opcode * 0x4000000 + registerFields rs rt rd amount funct)
    (ha : amount < 32) (hf : funct < 64) :
    w / 0x4000000 = opcode ∧ w % 0x40 = funct ∧ registerAt 0x200000 w = rs ∧
      registerAt 0x10000 w = rt ∧ registerAt 0x800 w = rd ∧ w / 0x40 % 2 ^ 5 = amount := by
  have hs := rs.isLt
  have ht := rt.isLt
  have hd := rd.isLt
  unfold registerFields at hw
  refine ⟨by omega, by omega, registerAt_eq ?_, registerAt_eq ?_, registerAt_eq ?_, by omega⟩ <;>
    omega

/-- The same for words with the operation code zero. -/
theorem specialFields_fields {w amount funct : Nat} {rs rt rd : Reg}
    (hw : w = registerFields rs rt rd amount funct) (ha : amount < 32) (hf : funct < 64) :
    w / 0x4000000 = 0 ∧ w % 0x40 = funct ∧ registerAt 0x200000 w = rs ∧
      registerAt 0x10000 w = rt ∧ registerAt 0x800 w = rd ∧ w / 0x40 % 2 ^ 5 = amount :=
  registerFields_fields (by omega) ha hf

/-- The fields of a word of two registers and sixteen immediate bits. -/
theorem immediateFields_fields {w opcode bits : Nat} {rs rt : Reg}
    (hw : w = immediateFields opcode rs rt bits) (hb : bits < 2 ^ 16) :
    w / 0x4000000 = opcode ∧ registerAt 0x200000 w = rs ∧ registerAt 0x10000 w = rt ∧
      w % 2 ^ 16 = bits := by
  have hs := rs.isLt
  have ht := rt.isLt
  unfold immediateFields at hw
  refine ⟨by omega, registerAt_eq ?_, registerAt_eq ?_, by omega⟩ <;> omega

/-- The fields of a word of a jump index. -/
theorem jumpFields_fields {w opcode : Nat} {index : Word} (hw : w = jumpFields opcode index)
    (hi : index.toNat < 0x4000000) :
    w / 0x4000000 = opcode ∧ UInt32.ofNat (w % 0x4000000) = index := by
  unfold jumpFields at hw
  have hmod : w % 0x4000000 = index.toNat := by omega
  exact ⟨by omega, by rw [hmod, UInt32.ofNat_toNat]⟩

theorem registerFields_lt {rs rt rd : Reg} {amount funct : Nat} (ha : amount < 32)
    (hf : funct < 64) : registerFields rs rt rd amount funct < 0x4000000 := by
  have hs := rs.isLt
  have ht := rt.isLt
  have hd := rd.isLt
  unfold registerFields
  omega

theorem immediateFields_lt {opcode bits : Nat} {rs rt : Reg} (ho : opcode < 64)
    (hb : bits < 2 ^ 16) : immediateFields opcode rs rt bits < 0x100000000 := by
  have hs := rs.isLt
  have ht := rt.isLt
  unfold immediateFields
  omega

theorem jumpFields_lt {opcode : Nat} {index : Word} (ho : opcode < 64) :
    jumpFields opcode index < 0x100000000 := by
  unfold jumpFields
  omega

/-- Machine code fits a word. -/
theorem code_lt (i : Instr) : i.code < 0x100000000 := by
  have hregister {rs rt rd : Reg} {amount funct : Nat} (ha : amount < 32) (hf : funct < 64) :
      registerFields rs rt rd amount funct < 0x100000000 :=
    Nat.lt_trans (registerFields_lt ha hf) (by decide)
  cases i with
  | alu op rd rs rt =>
    cases op with
    | mul =>
      have hlow : registerFields rs rt rd 0 AluOp.mul.funct < 0x4000000 :=
        registerFields_lt (by decide) (by decide)
      show 0x1C * 0x4000000 + _ < _
      omega
    | _ => exact hregister (by decide) (by decide)
  | shift op rd rt amount =>
    refine hregister amount.field_lt ?_
    cases op <;> decide
  | jr | jalr | syscall | brk => first | exact hregister (by decide) (by decide) | decide
  | mulDiv op rs rt =>
    refine hregister (by decide) ?_
    cases op <;> decide
  | moveFrom part | moveTo part => cases part <;> exact hregister (by decide) (by decide)
  | aluImm op rt rs imm =>
    refine immediateFields_lt ?_ imm.field_lt
    cases op <;> decide
  | lui rt imm => exact immediateFields_lt (by decide) imm.field_lt
  | branch cond rs rt offset => cases cond <;> exact immediateFields_lt (by decide) offset.field_lt
  | load width rt base offset | store width rt base offset =>
    refine immediateFields_lt ?_ offset.field_lt
    cases width <;> decide
  | j | jal => exact jumpFields_lt (by decide)

theorem encode_toNat (i : Instr) : i.encode.toNat = i.code :=
  UInt32.toNat_ofNat_of_lt' i.code_lt

/-! ## Decoding -/

theorem decodeFields?_zero (word : Nat) : decodeFields? 0 word = decodeSpecial? word := rfl

theorem decodeSpecial?_alu {op : AluOp} {word : Nat} (hop : op ≠ .mul)
    (hf : word % 0x40 = op.funct) :
    decodeSpecial? word = some (alu op (registerAt 0x800 word) (registerAt 0x200000 word)
      (registerAt 0x10000 word)) := by
  cases op with
  | mul => exact absurd rfl hop
  | _ =>
    simp only [decodeSpecial?, hf]
    rfl

theorem decodeSpecial?_shift {op : ShiftOp} {word : Nat} (hf : word % 0x40 = op.funct) :
    decodeSpecial? word = some (shift op (registerAt 0x800 word) (registerAt 0x10000 word)
      (Imm.truncate (word / 0x40 : Nat))) := by
  cases op <;> simp only [decodeSpecial?, hf, ShiftOp.funct]

theorem decodeSpecial?_mulDiv {op : MulDivOp} {word : Nat} (hf : word % 0x40 = op.funct) :
    decodeSpecial? word =
      some (mulDiv op (registerAt 0x200000 word) (registerAt 0x10000 word)) := by
  cases op <;> simp only [decodeSpecial?, hf, MulDivOp.funct]

/-- The branches on one register have `$zero` or the number of their condition in the place of the
second, and give `$zero` back. -/
theorem decodeFields?_branch {cond : BranchCond} {rs rt : Reg} {offset : SImm16} {w : Nat}
    (h : (branch cond rs rt offset).Normal) (hw : w = (branch cond rs rt offset).code) :
    decodeFields? (w / 0x4000000) w = some (branch cond rs rt offset) := by
  have hzero : cond.isBinary = false → rt = 0 := fun hc => h.resolve_left (by simp [hc])
  cases cond with
  | beq | bne =>
    obtain ⟨ho, hs, ht, hb⟩ := immediateFields_fields hw offset.field_lt
    simp only [ho, decodeFields?, hs, ht, Imm.truncate_of_mod hb]
  | blez | bgtz =>
    obtain rfl := hzero rfl
    obtain ⟨ho, hs, -, hb⟩ := immediateFields_fields hw offset.field_lt
    simp only [ho, decodeFields?, hs, Imm.truncate_of_mod hb]
  | bltz | bgez =>
    obtain rfl := hzero rfl
    obtain ⟨ho, hs, ht, hb⟩ := immediateFields_fields hw offset.field_lt
    simp only [ho, decodeFields?, hs, ht, Imm.truncate_of_mod hb]
    rfl

/-- Taking apart the machine code of a normal instruction. There is one case for each shape of word;
within a shape the codes are told apart by evaluation. -/
theorem decodeFields?_code {i : Instr} {w : Nat} (h : i.Normal) (hw : w = i.code) :
    decodeFields? (w / 0x4000000) w = some i := by
  cases i with
  | alu op rd rs rt =>
    by_cases hop : op = .mul
    · -- The product has an operation code of its own.
      subst hop
      obtain ⟨ho, hf, hs, ht, hd, -⟩ := registerFields_fields hw (by decide) (by decide)
      simp only [decodeFields?, ho, hf, hs, ht, hd]
      rfl
    · have hspecial : w = registerFields rs rt rd 0 op.funct := by
        cases op with
        | mul => exact absurd rfl hop
        | _ => exact hw
      obtain ⟨ho, hf, hs, ht, hd, -⟩ :=
        specialFields_fields hspecial (by decide) (by cases op <;> decide)
      rw [ho, decodeFields?_zero, decodeSpecial?_alu hop hf, hs, ht, hd]
  | shift op rd rt amount =>
    obtain ⟨ho, hf, -, ht, hd, ha⟩ :=
      specialFields_fields hw amount.field_lt (by cases op <;> decide)
    rw [ho, decodeFields?_zero, decodeSpecial?_shift hf, ht, hd, Imm.truncate_of_mod ha]
  | mulDiv op rs rt =>
    obtain ⟨ho, hf, hs, ht, -⟩ := specialFields_fields hw (by decide) (by cases op <;> decide)
    rw [ho, decodeFields?_zero, decodeSpecial?_mulDiv hf, hs, ht]
  | jr rs =>
    obtain ⟨ho, hf, hs, -⟩ := specialFields_fields hw (by decide) (by decide)
    simp only [ho, decodeFields?, decodeSpecial?, hf, hs]
  | jalr rd rs =>
    obtain ⟨ho, hf, hs, -, hd, -⟩ := specialFields_fields hw (by decide) (by decide)
    simp only [ho, decodeFields?, decodeSpecial?, hf, hs, hd]
  | moveFrom part rd =>
    cases part with
    | hi | lo =>
      obtain ⟨ho, hf, -, -, hd, -⟩ := specialFields_fields hw (by decide) (by decide)
      simp only [ho, decodeFields?, decodeSpecial?, hf, hd]
  | moveTo part rs =>
    cases part with
    | hi | lo =>
      obtain ⟨ho, hf, hs, -⟩ := specialFields_fields hw (by decide) (by decide)
      simp only [ho, decodeFields?, decodeSpecial?, hf, hs]
  | syscall | brk =>
    subst hw
    rfl
  | aluImm op rt rs imm =>
    obtain ⟨ho, hs, ht, hb⟩ := immediateFields_fields hw imm.field_lt
    cases op <;>
      simp only [ho, ImmOp.opcode, decodeFields?, hs, ht, Imm.truncate_of_mod hb]
  | lui rt imm =>
    obtain ⟨ho, -, ht, hb⟩ := immediateFields_fields hw imm.field_lt
    simp only [ho, decodeFields?, ht, Imm.truncate_of_mod hb]
  | branch cond rs rt offset => exact decodeFields?_branch h hw
  | load width rt base offset =>
    obtain ⟨ho, hs, ht, hb⟩ := immediateFields_fields hw offset.field_lt
    cases width <;>
      simp only [ho, Width.loadOpcode, decodeFields?, hs, ht, Imm.truncate_of_mod hb]
  | store width rt base offset =>
    obtain ⟨ho, hs, ht, hb⟩ := immediateFields_fields hw offset.field_lt
    cases width with
    | byteu | halfu =>
      -- These have the operation codes of the stores that do not extend.
      exact absurd h (by simp [Normal, Width.allStores])
    | byte | half | word =>
      simp only [ho, Width.storeOpcode, decodeFields?, hs, ht, Imm.truncate_of_mod hb]
  | j index | jal index =>
    obtain ⟨ho, hi⟩ := jumpFields_fields hw h
    simp only [ho, decodeFields?, hi]

/-- Decoding gives back every normal instruction. -/
theorem decode?_encode {i : Instr} (h : i.Normal) : decode? i.encode = some i := by
  unfold decode?
  rw [encode_toNat]
  exact decodeFields?_code h rfl

/-! ## Words that decode -/

theorem decodeSpecial?_normal {word : Nat} {i : Instr} (h : decodeSpecial? word = some i) :
    i.Normal := by
  unfold decodeSpecial? at h
  simp only at h
  split at h
  case h_16 =>
    obtain ⟨op, -, rfl⟩ := Option.map_eq_some_iff.mp h
    exact trivial
  -- Every other function code gives an instruction of which nothing is asked.
  all_goals
    obtain rfl := Option.some.inj h
    exact trivial

/-- The index that a word holds is within its 26 bits. -/
theorem index_lt (word : Nat) : (UInt32.ofNat (word % 0x4000000)).toNat < 0x4000000 := by
  have hlow : word % 0x4000000 < 0x4000000 := Nat.mod_lt _ (by decide)
  rwa [UInt32.toNat_ofNat_of_lt' (Nat.lt_trans hlow (by decide))]

/-- What a word decodes to is normal. The cases are the operation codes, in the order in which the
decoder lists them. -/
theorem decodeFields?_normal {opcode word : Nat} {i : Instr}
    (h : decodeFields? opcode word = some i) : i.Normal := by
  unfold decodeFields? at h
  simp only at h
  split at h
  case h_1 => exact decodeSpecial?_normal h
  case h_2 =>
    -- The field of the second register holds the condition, and is not kept.
    split at h
    · obtain rfl := Option.some.inj h
      exact .inr rfl
    · split at h
      · obtain rfl := Option.some.inj h
        exact .inr rfl
      · exact nomatch h
  case h_17 =>
    split at h
    · obtain rfl := Option.some.inj h
      exact trivial
    · exact nomatch h
  case h_26 => exact nomatch h
  all_goals obtain rfl := Option.some.inj h
  case h_3 | h_4 => exact index_lt word
  case h_5 | h_6 => exact .inl rfl
  case h_7 | h_8 => exact .inr rfl
  case h_23 | h_24 | h_25 => simp [Normal, Width.allStores]
  all_goals exact trivial

theorem decode?_normal {w : Word} {i : Instr} (h : decode? w = some i) : i.Normal :=
  decodeFields?_normal h

theorem encode_injective {i j : Instr} (hi : i.Normal) (hj : j.Normal)
    (h : i.encode = j.encode) : i = j := by
  have hsame : some i = some j :=
    calc
      some i = decode? i.encode := (decode?_encode hi).symm
      _ = decode? j.encode := by rw [h]
      _ = some j := decode?_encode hj
  exact Option.some.inj hsame

/-- Machine code and its decoding are inverse to each other on the normal instructions, and the word
of what was decoded stands for the same instruction as the word before. -/
theorem machineCode_round_trip :
    (∀ i : Instr, i.Normal → decode? i.encode = some i) ∧
      (∀ (w : Word) (i : Instr), decode? w = some i →
        i.Normal ∧ decode? i.encode = some i) ∧
      ∀ i j : Instr, i.Normal → j.Normal → i ≠ j → i.encode ≠ j.encode := by
  refine ⟨fun i => decode?_encode, fun w i h => ?_, fun i j hi hj hne heq => ?_⟩
  · have hnormal := decode?_normal h
    exact ⟨hnormal, decode?_encode hnormal⟩
  · exact hne (encode_injective hi hj heq)

/-- The word of a branch on `$t0` with a bit set where its second register would stand decodes, and
the word of the branch is another; a shift and a product have the same function code. -/
theorem machineCode_round_trip_other_word :
    (branch .blez 8 0 (Imm.truncate (-1)) : Instr).Normal ∧
      decode? (branch .blez 8 0 (Imm.truncate (-1))).encode =
        some (branch .blez 8 0 (Imm.truncate (-1))) ∧
      (branch .blez 8 0 (Imm.truncate (-1))).encode ≠ 0x1905FFFF ∧
      (shift .srl 2 3 (Imm.truncate 0)).encode ≠ (alu .mul 2 0 3).encode :=
  have hword : decode? 0x1905FFFF = some (branch .blez 8 0 (Imm.truncate (-1))) := by decide
  ⟨(machineCode_round_trip.2.1 0x1905FFFF _ hword).1,
    machineCode_round_trip.1 _ (.inr rfl), by decide,
    machineCode_round_trip.2.2 _ _ trivial trivial (by decide)⟩

end Instr

end MipsLab
