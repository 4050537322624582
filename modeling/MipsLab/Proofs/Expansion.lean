import MipsLab.Program.Expansion
import MipsLab.Proofs.Attempts

/-!
# What instructions expand to

An instruction that can be resolved expands to normal machine instructions only, and to as many as
its place was made for.

1. `BranchTarget.resolve_eq_ok_iff`, `AddressExpr.jumpIndex_eq_ok_iff`: when a branch or jump is
   resolved, and to which offset or index.
2. `SourceInstr.expand_isExpansion`: every expansion can be encoded without loss, and fills the room
   that the instruction takes.
-/

namespace MipsLab

section Resolving

variable {symbols : SymbolTable} {l : Label} {pc address : Address}

theorem SymbolTable.resolve_eq_ok_iff :
    symbols.resolve l = .ok address ↔ symbols.address? l.name = some address := by
  unfold resolve
  cases symbols.address? l.name with
  | none => simp
  | some found => simp

/-- A branch to a label is resolved if the label is aligned, and the number of words fits. -/
theorem BranchTarget.resolve_eq_ok_iff {offset : SImm16} :
    (BranchTarget.label l).resolve pc symbols = .ok offset ↔
      ∃ address, symbols.address? l.name = some address ∧ address.isAligned 4 = true ∧
        offset.value = ((address.toNat : Int) - pc.toNat - 4).tdiv 4 := by
  simp only [← SymbolTable.resolve_eq_ok_iff]
  constructor
  · intro h
    obtain ⟨address, hresolve, h⟩ := bind_ok_inv h
    obtain ⟨haligned, h⟩ := check_ok_inv h
    rw [Bool.not_eq_true', Bool.not_eq_false] at haligned
    refine ⟨address, hresolve, haligned, ?_⟩
    split at h
    · next words hwords =>
      obtain rfl := Except.ok.inj h
      exact Imm.ofInt?_eq_ok_iff.mp hwords
    · exact nomatch h
  · rintro ⟨address, hresolve, haligned, hoffset⟩
    simp only [resolve, hresolve]
    show (if !address.isAligned 4 then _ else _) = _
    rw [haligned, if_neg nofun]
    simp only [Imm.ofInt?_eq_ok_iff.mpr hoffset]
    rfl

end Resolving

section JumpIndex

variable {target : AddressExpr} {pc : Address} {span : Span} {symbols : SymbolTable} {index : Word}

/-- A jump is resolved if its target is aligned, and in the region of the instruction behind it. -/
theorem AddressExpr.jumpIndex_eq_ok_iff :
    target.jumpIndex pc span symbols = .ok index ↔
      ∃ address, symbols.resolveExpr target = .ok address ∧ address.isAligned 4 = true ∧
        address.region = Address.region (pc + 4) ∧
        index = UInt32.ofNat (address.toNat / 4 % 0x4000000) := by
  constructor
  · intro h
    obtain ⟨address, hresolve, h⟩ := bind_ok_inv h
    obtain ⟨haligned, h⟩ := check_ok_inv h
    obtain ⟨hregion, h⟩ := check_ok_inv h
    rw [Bool.not_eq_true', Bool.not_eq_false] at haligned
    exact ⟨address, hresolve, haligned, Decidable.not_not.mp hregion, (Except.ok.inj h).symm⟩
  · rintro ⟨address, hresolve, haligned, hregion, rfl⟩
    unfold jumpIndex
    rw [hresolve]
    show (if !address.isAligned 4 then _ else _) = _
    rw [haligned, if_neg nofun, if_neg (not_not_intro hregion)]
    rfl

/-- The index of a jump fits its 26 bits. -/
theorem AddressExpr.jumpIndex_lt (h : target.jumpIndex pc span symbols = .ok index) :
    index.toNat < 0x4000000 := by
  obtain ⟨address, -, -, -, rfl⟩ := jumpIndex_eq_ok_iff.mp h
  have hlt : address.toNat / 4 % 0x4000000 < 0x4000000 := Nat.mod_lt _ (by decide)
  rwa [UInt32.toNat_ofNat_of_lt' (Nat.lt_trans hlt (by decide))]

end JumpIndex

namespace SourceInstr

variable {pc : Address} {span : Span} {symbols : SymbolTable}

/-- What an instruction may expand to: instructions that can be encoded without loss, and as many of
them as there is room for. -/
def IsExpansion (i : SourceInstr) (instrs : List Instr) : Prop :=
  (∀ instr ∈ instrs, instr.Normal) ∧ instrs.length = i.wordCount

theorem makeBranch_normal (cond : BranchCond) (rs rt : Reg) (offset : SImm16) :
    (makeBranch cond rs rt offset).Normal := by
  cases cond <;> simp [makeBranch, Instr.Normal, BranchCond.isBinary]

theorem unextended_mem (width : Width) : width.unextended ∈ Width.allStores := by
  cases width <;> decide

theorem loadNumber_isExpansion (rt : Reg) (value : Word) :
    (li rt value).IsExpansion (loadNumber rt value) := by
  unfold IsExpansion loadNumber wordCount
  by_cases hlow : value.toNat ≤ 0xFFFF
  · have hfits : fitsImmediate value = true := by simp [fitsImmediate, hlow]
    simp [hlow, hfits, Instr.Normal]
  · by_cases hfits : fitsImmediate value
    · simp [hlow, hfits, Instr.Normal]
    · simp [hlow, hfits, Instr.Normal]

theorem compareAndBranch_isExpansion (cmp : Comparison) (rs rt : Reg) (target : BranchTarget)
    (offset : SImm16) :
    (compare cmp rs rt target).IsExpansion (compareAndBranch cmp rs rt offset) := by
  cases cmp <;>
    simp [IsExpansion, compareAndBranch, wordCount, Instr.Normal, BranchCond.isBinary]

/-- An instruction that can be resolved has an expansion of the right kind. -/
theorem expand_isExpansion {i : SourceInstr} {instrs : List Instr}
    (h : i.expand pc span symbols = .ok instrs) : i.IsExpansion instrs := by
  cases i with
  | branch cond rs rt target =>
    obtain ⟨offset, -, h⟩ := bind_ok_inv h
    obtain rfl := Except.ok.inj h
    simp [IsExpansion, wordCount, makeBranch_normal]
  | load width rt operand =>
    cases operand with
    | based offset base =>
      obtain rfl := Except.ok.inj h
      simp [IsExpansion, wordCount, Instr.Normal]
    | direct target =>
      obtain ⟨address, -, h⟩ := bind_ok_inv h
      obtain rfl := Except.ok.inj h
      simp [IsExpansion, wordCount, Instr.Normal]
  | store width rt operand =>
    cases operand with
    | based offset base =>
      obtain rfl := Except.ok.inj h
      simp [IsExpansion, wordCount, Instr.Normal, unextended_mem]
    | direct target =>
      obtain ⟨address, -, h⟩ := bind_ok_inv h
      obtain rfl := Except.ok.inj h
      simp [IsExpansion, wordCount, Instr.Normal, unextended_mem]
  | j target | jal target =>
    obtain ⟨index, hindex, h⟩ := bind_ok_inv h
    obtain rfl := Except.ok.inj h
    simpa [IsExpansion, wordCount, Instr.Normal] using AddressExpr.jumpIndex_lt hindex
  | li rt value =>
    obtain rfl := Except.ok.inj h
    exact loadNumber_isExpansion rt value
  | la rt target =>
    obtain ⟨address, -, h⟩ := bind_ok_inv h
    obtain rfl := Except.ok.inj h
    simp [IsExpansion, wordCount, loadAddress, Instr.Normal]
  | b target | beqz rs target | bnez rs target =>
    obtain ⟨offset, -, h⟩ := bind_ok_inv h
    obtain rfl := Except.ok.inj h
    simp [IsExpansion, wordCount, Instr.Normal, BranchCond.isBinary]
  | compare cmp rs rt target =>
    obtain ⟨offset, -, h⟩ := bind_ok_inv h
    obtain rfl := Except.ok.inj h
    exact compareAndBranch_isExpansion cmp rs rt target offset
  | _ =>
    obtain rfl := Except.ok.inj h
    simp [IsExpansion, wordCount, Instr.Normal, Instr.nop]

end SourceInstr

end MipsLab
