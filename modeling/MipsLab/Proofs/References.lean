import MipsLab.Proofs.Acceptance
import MipsLab.Proofs.LineGrammar
import MipsLab.Proofs.Transfers

/-!
# What statements refer to

An instruction refers to one place at most: it branches or jumps there, or takes its address. It can
be resolved exactly if the label that is named has an address, and a branch or jump can reach it.

1. `SourceInstr.reference?`, `Statement.uses`: what an instruction refers to, and the labels that a
   statement uses.
2. `BranchReaches`, `JumpReaches`: where branches and jumps can go.
3. `SourceInstr.expand_isOk_iff`, `Directive.bytes_isOk_iff`: what can be resolved.
-/

namespace MipsLab

/-! ## References -/

/-- What an instruction refers to. -/
inductive Reference
  /-- It branches there. -/
  | branch (target : BranchTarget)
  /-- It jumps there. -/
  | jump (target : AddressExpr)
  /-- It takes the address as a number. -/
  | address (expr : AddressExpr)

/-- What an instruction refers to, if there is anything. -/
def SourceInstr.reference? : SourceInstr → Option Reference
  | branch _ _ _ target | b target | beqz _ target | bnez _ target | compare _ _ _ target =>
    some (.branch target)
  | j target | jal target => some (.jump target)
  | load _ _ (.direct expr) | store _ _ (.direct expr) | la _ expr => some (.address expr)
  | _ => none

def AddressExpr.label? : AddressExpr → Option Label
  | label l _ => some l
  | value _ => none

def Reference.label? : Reference → Option Label
  | branch (.label l) => some l
  | branch (.offset _) => none
  | jump expr | address expr => expr.label?

/-- The labels that a directive names. -/
def Directive.uses : Directive → List Label
  | word values => values.filterMap AddressExpr.label?
  | globl l => [l]
  | _ => []

/-- The labels that a statement names, beside its own. -/
def Statement.uses (s : Statement) : List Label :=
  match s.body with
  | some (.instr i) => (i.reference?.bind Reference.label?).toList
  | some (.directive d) => d.uses
  | none => []

theorem Statement.mem_uses_instr {s : Statement} {i : SourceInstr}
    (hbody : s.body = some (.instr i)) {l : Label} :
    l ∈ s.uses ↔ ∃ reference ∈ i.reference?, l ∈ reference.label? := by
  unfold uses
  rw [hbody, Option.mem_toList, Option.bind_eq_some_iff]
  rfl

theorem Statement.uses_directive {s : Statement} {d : Directive}
    (hbody : s.body = some (.directive d)) : s.uses = d.uses := by
  unfold uses
  rw [hbody]

/-- The address expressions that a directive puts into memory. -/
def Directive.expressions : Directive → List AddressExpr
  | word values => values
  | _ => []

theorem Directive.mem_uses {d : Directive} {l : Label} :
    l ∈ d.uses ↔ (∃ expr ∈ d.expressions, l ∈ expr.label?) ∨ d = .globl l := by
  cases d with
  | word values => simp [uses, expressions]
  | globl l' => simp [uses, expressions, eq_comm]
  | _ => simp [uses, expressions]

/-! ## Reach -/

/-- A branch with `next` behind it can go to `target`: that is a multiple of four, and the distance
in words has 16 bits. -/
structure BranchReaches (next target : Nat) : Prop where
  aligned : target % 4 = 0
  low : -0x8000 ≤ ((target : Int) - next) / 4
  high : ((target : Int) - next) / 4 ≤ 0x7FFF

/-- A jump with `next` behind it can go to `target`: that is a multiple of four, and in the same
256 MiB as `next`. -/
structure JumpReaches (next target : Nat) : Prop where
  aligned : target % 4 = 0
  region : target / 0x10000000 = next / 0x10000000

/-! ## Resolving -/

section

variable {symbols : SymbolTable} {pc : Address} {span : Span} {l : Label}

/-- A branch to a label is resolved exactly if it reaches the label. -/
theorem BranchTarget.resolve_isOk_iff (hpc : pc.toNat % 4 = 0) :
    (∃ offset, (BranchTarget.label l).resolve pc symbols = .ok offset) ↔
      ∃ a, symbols.address? l.name = some a ∧ BranchReaches (pc.toNat + 4) a.toNat := by
  simp only [resolve_eq_ok_iff, Address.isAligned_iff]
  have hfits (a : Address) (haligned : a.toNat % 4 = 0) :
      (∃ words : SImm16, words.value = ((a.toNat : Int) - pc.toNat - 4).tdiv 4) ↔
        BranchReaches (pc.toNat + 4) a.toNat := by
    have hquotient : ((a.toNat : Int) - pc.toNat - 4).tdiv 4 =
        ((a.toNat : Int) - (pc.toNat + 4 : Nat)) / 4 := by
      -- Both addresses are multiples of four, so rounding does not matter.
      rw [Int.tdiv_eq_ediv_of_dvd (by omega)]
      congr 1
      omega
    rw [hquotient, Imm.exists_value_iff .signed 16 (by decide)]
    exact ⟨fun ⟨hlow, hhigh⟩ => ⟨haligned, hlow, hhigh⟩, fun h => ⟨h.low, h.high⟩⟩
  constructor
  · rintro ⟨offset, a, haddress, haligned, hoffset⟩
    exact ⟨a, haddress, (hfits a haligned).mp ⟨offset, hoffset⟩⟩
  · rintro ⟨a, haddress, hreaches⟩
    obtain ⟨offset, hoffset⟩ := (hfits a hreaches.aligned).mpr hreaches
    exact ⟨offset, a, haddress, hreaches.aligned, hoffset⟩

/-- A jump is resolved exactly if it reaches its target. -/
theorem AddressExpr.jumpIndex_isOk_iff {target : AddressExpr} :
    (∃ index, target.jumpIndex pc span symbols = .ok index) ↔
      ∃ a, symbols.resolveExpr target = .ok a ∧ JumpReaches (pc + 4 : Address).toNat a.toNat := by
  simp only [jumpIndex_eq_ok_iff, Address.isAligned_iff]
  constructor
  · rintro ⟨index, a, hresolve, haligned, hregion, -⟩
    exact ⟨a, hresolve, haligned, hregion⟩
  · rintro ⟨a, hresolve, haligned, hregion⟩
    exact ⟨_, a, hresolve, haligned, hregion, rfl⟩

/-- What an instruction refers to can be resolved, where `next` is the address behind the
instruction. -/
def Reference.Resolves (symbols : SymbolTable) (next : Nat) : Reference → Prop
  | branch (.label l) =>
    ∃ a, symbols.address? l.name = some a ∧ BranchReaches next a.toNat
  | branch (.offset _) => True
  | jump expr => ∃ a, symbols.resolveExpr expr = .ok a ∧ JumpReaches next a.toNat
  | address expr => ∃ a, symbols.resolveExpr expr = .ok a

theorem exists_bind_pure_iff {ε α β : Type} {x : Except ε α} {f : α → β} :
    (∃ b, (do return f (← x)) = Except.ok b) ↔ ∃ a, x = .ok a := by
  cases x with
  | error e => exact ⟨(fun ⟨_, h⟩ => nomatch h), (fun ⟨_, h⟩ => nomatch h)⟩
  | ok a => exact ⟨fun _ => ⟨a, rfl⟩, fun _ => ⟨f a, rfl⟩⟩

theorem BranchTarget.resolve_isOk_iff_resolves {target : BranchTarget} (hpc : pc.toNat % 4 = 0) :
    (∃ offset, target.resolve pc symbols = .ok offset) ↔
      (Reference.branch target).Resolves symbols (pc.toNat + 4) := by
  cases target with
  | label l => exact resolve_isOk_iff hpc
  | offset words => exact ⟨fun _ => trivial, fun _ => ⟨words, rfl⟩⟩

/-- An instruction can be resolved exactly if what it refers to can be. -/
theorem SourceInstr.expand_isOk_iff {i : SourceInstr} (hpc : pc.toNat % 4 = 0)
    (hroom : pc.toNat + 4 * i.wordCount < 0x100000000) :
    (∃ instrs, i.expand pc span symbols = .ok instrs) ↔
      ∀ reference ∈ i.reference?, reference.Resolves symbols (pc.toNat + 4 * i.wordCount) := by
  have hnext := pc.toNat_next
  cases i with
  | branch cond rs rt target | b target | beqz rs target | bnez rs target =>
    simp only [reference?, Option.mem_some_iff, forall_eq']
    exact exists_bind_pure_iff.trans (BranchTarget.resolve_isOk_iff_resolves hpc)
  | compare cmp rs rt target =>
    -- The branch is the second one of its two instructions.
    have hbranch : (pc + 4 : Address).toNat = pc.toNat + 4 := by
      simp only [wordCount] at hroom
      omega
    simp only [reference?, Option.mem_some_iff, forall_eq']
    refine exists_bind_pure_iff.trans ?_
    rw [BranchTarget.resolve_isOk_iff_resolves (by omega), hbranch]
    rfl
  | j target | jal target =>
    have hbehind : (pc + 4 : Address).toNat = pc.toNat + 4 := by
      simp only [wordCount] at hroom
      omega
    simp only [reference?, Option.mem_some_iff, forall_eq']
    refine exists_bind_pure_iff.trans ?_
    rw [AddressExpr.jumpIndex_isOk_iff, hbehind]
    rfl
  | load width rt operand | store width rt operand =>
    cases operand with
    | based => simp [expand, reference?]
    | direct target =>
      simp only [reference?, Option.mem_some_iff, forall_eq']
      exact exists_bind_pure_iff
  | la rt target =>
    simp only [reference?, Option.mem_some_iff, forall_eq']
    exact exists_bind_pure_iff
  | _ => simp [expand, reference?]

/-! ### Directives -/

/-- The bytes of a directive are known exactly if the addresses are that they are made of. -/
theorem Directive.bytes_isOk_iff {d : Directive} :
    (∃ bytes, d.bytes symbols = .ok bytes) ↔
      ∀ expr ∈ d.expressions, ∃ a, symbols.resolveExpr expr = .ok a := by
  cases d with
  | word values => exact exists_bind_pure_iff.trans mapM_isOk_iff
  | _ => simp [bytes, expressions]

end

end MipsLab
