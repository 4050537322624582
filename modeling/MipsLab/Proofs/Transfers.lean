import MipsLab.Proofs.Acceptance
import MipsLab.Proofs.Fetch
import MipsLab.Proofs.Runs

/-!
# Transfers of control

Branches and jumps to labels lead where they say. The assembler works out distances and indices, the
machine adds them up again, and both agree on the address of the label.

1. `SourceInstr.destination?`, `SourceInstr.Taken`: what a transfer means in a source text.
2. `BranchTarget.resolve_inv`, `AddressExpr.jumpIndex_inv`: the target of a resolved transfer.
3. `Machine.Transferred`: what a machine has done after a transfer.
4. `transfers_reach`: every transfer of a source without problems does this.
-/

namespace MipsLab

/-! ## Meaning -/

namespace SourceInstr

/-- The label that an instruction transfers control to, and how many bytes beyond it. -/
def destination? : SourceInstr → Option (Label × Int)
  | branch _ _ _ (.label l) | b (.label l) | beqz _ (.label l) | bnez _ (.label l)
  | compare _ _ _ (.label l) => some (l, 0)
  | j (.label l offset) | jal (.label l offset) => some (l, offset)
  | _ => none

/-- The condition of a transfer. Comparisons are signed, and jumps have no condition. -/
def Taken (i : SourceInstr) (regs : Registers) : Prop :=
  match i with
  | branch .beq rs rt _ => regs.get rs = regs.get rt
  | branch .bne rs rt _ => regs.get rs ≠ regs.get rt
  | branch .blez rs _ _ => Word.signed (regs.get rs) ≤ 0
  | branch .bgtz rs _ _ => 0 < Word.signed (regs.get rs)
  | branch .bltz rs _ _ => Word.signed (regs.get rs) < 0
  | branch .bgez rs _ _ => 0 ≤ Word.signed (regs.get rs)
  | beqz rs _ => regs.get rs = 0
  | bnez rs _ => regs.get rs ≠ 0
  | compare .lt rs rt _ => Word.signed (regs.get rs) < Word.signed (regs.get rt)
  | compare .gt rs rt _ => Word.signed (regs.get rt) < Word.signed (regs.get rs)
  | compare .le rs rt _ => Word.signed (regs.get rs) ≤ Word.signed (regs.get rt)
  | compare .ge rs rt _ => Word.signed (regs.get rt) ≤ Word.signed (regs.get rs)
  | _ => True

/-- The register that a transfer may change, if there is one. -/
def changed? : SourceInstr → Option Reg
  | compare .. => some Reg.scratch
  | jal _ => some Reg.ra
  | _ => none

end SourceInstr

/-! ## Targets -/

theorem Address.toNat_displace (a : Address) (distance : Int) :
    ((a.displace distance).toNat : Int) = (a.toNat + distance) % 0x100000000 := by
  unfold displace Word.ofInt
  rw [UInt32.toNat_ofNat']
  omega

theorem Address.displace_eq {a b : Address} {distance : Int}
    (h : (a.toNat + distance) % 0x100000000 = b.toNat) : a.displace distance = b := by
  apply UInt32.toNat_inj.mp
  have hnat := a.toNat_displace distance
  omega

theorem Address.displace_zero (a : Address) : a.displace 0 = a := by
  have hlt := a.toNat_lt
  apply displace_eq
  omega

theorem Address.toNat_next (a : Address) : (a + 4).toNat = (a.toNat + 4) % 0x100000000 :=
  UInt32.toNat_add a 4

/-- A branch that is resolved at an address leads from the address behind it to its label. -/
theorem BranchTarget.resolve_inv {l : Label} {pc : Address} {symbols : SymbolTable}
    {offset : SImm16} (h : (BranchTarget.label l).resolve pc symbols = .ok offset)
    (hpc : pc.toNat % 4 = 0) :
    ∃ target, symbols.address? l.name = some target ∧
      Address.displace (pc + 4) (offset.value * 4) = target := by
  obtain ⟨target, hlabel, haligned, hvalue⟩ := resolve_eq_ok_iff.mp h
  have hmod := Address.isAligned_iff.mp haligned
  have hpcLt := pc.toNat_lt
  have hnext := pc.toNat_next
  -- Both addresses are multiples of four, so the quotient is exact.
  have hexact : offset.value * 4 = (target.toNat : Int) - pc.toNat - 4 := by
    rw [hvalue]
    exact Int.tdiv_mul_cancel (by omega)
  refine ⟨target, hlabel, Address.displace_eq ?_⟩
  rw [hexact]
  have htarget := target.toNat_lt
  omega

/-- A jump that is resolved at an address leads some bytes beyond its label. -/
theorem AddressExpr.jumpIndex_inv {l : Label} {distance : Int} {pc : Address} {span : Span}
    {symbols : SymbolTable} {index : Word}
    (h : (AddressExpr.label l distance).jumpIndex pc span symbols = .ok index) :
    ∃ target, symbols.address? l.name = some target ∧
      Instr.jumpTarget (pc + 4) index = target.displace distance := by
  obtain ⟨address, hresolve, haligned, hregion, hindex⟩ := jumpIndex_eq_ok_iff.mp h
  obtain ⟨target, hlabel, rfl⟩ := map_ok_inv hresolve
  refine ⟨target, SymbolTable.resolve_eq_ok_iff.mp hlabel, ?_⟩
  generalize target.displace distance = address at haligned hregion hindex ⊢
  have hmod := Address.isAligned_iff.mp haligned
  have haddress := address.toNat_lt
  have hnat : index.toNat = address.toNat / 4 % 0x4000000 := by
    rw [hindex, UInt32.toNat_ofNat']
    omega
  unfold Address.region at hregion
  unfold Instr.jumpTarget
  apply UInt32.toNat_inj.mp
  rw [← hregion, hnat, UInt32.toNat_ofNat']
  omega

/-! ## Emitted instructions -/

section

variable {statements before : List Statement} {source : Source} {s : Statement} {address : Nat}
  {i : SourceInstr}

/-- Instructions are emitted at addresses that are multiples of four. -/
theorem Emits.aligned (h : Emits statements source before s address)
    (hbody : s.body = some (.instr i)) : address % 4 = 0 := by
  obtain ⟨placed, hplaced, rfl, -⟩ := h.emission
  obtain ⟨hplace, -⟩ := Cursor.placed?_inv hplaced
  rw [hbody] at hplace
  obtain ⟨rfl, hsegment⟩ := Cursor.place?_instr hplace
  have hwell := Emission.ofStatements_wellPlaced (Definitions.ofStatements statements).table source
    before
  have hstart : Segment.text.start = 0x00400000 := rfl
  rw [Cursor.current_eq, hsegment]
  show (Emission.ofStatements _ source before).cursor.text % 4 = 0
  rw [hwell.text]
  omega

/-- The machine instructions of an emitted instruction stand from its address on. -/
theorem Emits.instrAt? (h : Emits statements source before s address)
    (hbody : s.body = some (.instr i)) {instrs : List Instr}
    (hexpand : i.expand (UInt32.ofNat address) s.span
      (Program.ofStatements statements source).1.symbols = .ok instrs)
    {k : Nat} (hk : k < i.wordCount) :
    (Program.ofStatements statements source).1.instrAt? (UInt32.ofNat (address + 4 * k)) =
      instrs[k]? := by
  have hemitted : i.emitted (UInt32.ofNat address) s.span
      (Program.ofStatements statements source).1.symbols = instrs := by
    unfold SourceInstr.emitted
    rw [hexpand]
  rw [← hemitted]
  exact (h.code hbody hk).1

end

/-! ## Executing -/

namespace Registers

theorem get_set_self (regs : Registers) {r : Reg} (value : Word) (h : r ≠ Reg.zero) :
    (regs.set r value).get r = value := by
  unfold get set
  rw [dif_neg h]
  exact Vector.getElem_set_self _

theorem get_set_ne (regs : Registers) {r r' : Reg} (value : Word) (h : r ≠ r') :
    (regs.set r value).get r' = regs.get r' := by
  unfold get set
  split
  · rfl
  · exact Vector.getElem_set_ne r.isLt r'.isLt fun hval => h (Fin.ext hval)

theorem get_zero (regs : Registers) : regs.get Reg.zero = 0 := regs.zero_holds

theorem set_hi (regs : Registers) (r : Reg) (value : Word) : (regs.set r value).hi = regs.hi := by
  unfold set
  split <;> rfl

theorem set_lo (regs : Registers) (r : Reg) (value : Word) : (regs.set r value).lo = regs.lo := by
  unfold set
  split <;> rfl

end Registers

namespace Machine

variable {m : Machine} {p : Program} {i : Instr}

/-- A machine that can execute an instruction, which stands in its text at the current address. -/
structure IsAt (m : Machine) (i : Instr) : Prop where
  alive : m.state.isTerminal = false
  word : m.memory.textWord? m.pc = some i.encode
  normal : i.Normal

/-- What an attempt comes to is decided by the effect of its instruction. -/
theorem IsAt.step_eq (h : m.IsAt i) (hplain : i ≠ .syscall ∧ i ≠ .brk) :
    m.step =
      match i.effect m.pc m.flags.trapOverflow m.registers m.memory with
      | .ok e => (.ran, m.apply e)
      | .error e => m.fail e := by
  unfold step
  rw [h.word]
  simp only [Instr.decode?_encode h.normal]
  rw [execute_eq_outcome]
  unfold outcome
  split
  · exact absurd rfl hplain.1
  · exact absurd rfl hplain.2
  · rfl

theorem IsAt.stepIn_ok (h : m.IsAt i) (hplain : i ≠ .syscall ∧ i ≠ .brk) {e : Effect}
    (heffect : i.effect m.pc m.flags.trapOverflow m.registers m.memory = .ok e) :
    m.stepIn.2 = (m.apply e).enter (.paused .step) := by
  have hstep := h.step_eq hplain
  rw [heffect] at hstep
  rw [stepIn_ran h.alive hstep]
  rfl

theorem IsAt.stepIn_error (h : m.IsAt i) (hplain : i ≠ .syscall ∧ i ≠ .brk) {e : ExecError}
    (heffect : i.effect m.pc m.flags.trapOverflow m.registers m.memory = .error e) :
    m.stepIn.2 = m.enter (.faulted (m.faultOf e)) := by
  have hstep := h.step_eq hplain
  rw [heffect] at hstep
  rw [stepIn_stopped h.alive hstep]
  rfl

/-- A machine that can execute an instruction of its program at the current address. -/
structure Attempts (m : Machine) (p : Program) (i : Instr) : Prop where
  follows : m.Follows p
  normal : ∀ i ∈ p.text.toList, i.Normal
  alive : m.state.isTerminal = false
  instr : p.instrAt? m.pc = some i

theorem Attempts.isAt (h : m.Attempts p i) : m.IsAt i where
  alive := h.alive
  word := by rw [Memory.textWord?_encode h.follows.text, h.instr]; rfl
  normal := p.instrAt?_normal h.normal h.instr

/-- A machine has completed some instructions one by one, and now has certain registers, an address
and the memory that it had before. -/
structure Moved (m : Machine) (count : Nat) (registers : Registers) (pc : Address) (m' : Machine) :
    Prop where
  state : m'.state = .paused .step
  completed : m'.completed = m.completed + count
  registers : m'.registers = registers
  pc : m'.pc = pc
  memory : m'.memory = m.memory

/-- An instruction that stores nothing moves a machine as its effect says. -/
theorem Attempts.moved (h : m.Attempts p i) (hplain : i ≠ .syscall ∧ i ≠ .brk) {e : Effect}
    (heffect : i.effect m.pc m.flags.trapOverflow m.registers m.memory = .ok e)
    (hstore : e.store = none) :
    m.Moved 1 (e.onRegisters m.registers) (e.jump.getD (m.pc + 4)) m.stepIn.2 := by
  have hmemory : e.onMemory m.memory = m.memory := by
    unfold Effect.onMemory
    rw [hstore]
  rw [h.isAt.stepIn_ok hplain heffect]
  exact ⟨rfl, rfl, rfl, rfl, hmemory⟩

/-- The machine that an instruction has moved can execute the next one. -/
theorem Attempts.next {registers : Registers} {pc : Address} {count : Nat} {i' : Instr}
    (h : m.Attempts p i) (hmoved : m.Moved count registers pc m.stepIn.2)
    (hinstr : p.instrAt? pc = some i') : m.stepIn.2.Attempts p i' where
  follows := (follows_kept h.normal).stepIn h.follows
  normal := h.normal
  alive := by rw [hmoved.state]; rfl
  instr := by rw [hmoved.pc]; exact hinstr

theorem Moved.trans {m m' m'' : Machine} {count count' : Nat} {registers registers' : Registers}
    {pc pc' : Address} (h : m.Moved count registers pc m')
    (h' : m'.Moved count' registers' pc' m'') :
    m.Moved (count + count') registers' pc' m'' where
  state := h'.state
  completed := by rw [h'.completed, h.completed, Nat.add_assoc]
  registers := h'.registers
  pc := h'.pc
  memory := h'.memory.trans h.memory

theorem Attempts.branch {cond : BranchCond} {rs rt : Reg} {offset : SImm16}
    (h : m.Attempts p (.branch cond rs rt offset)) :
    m.Moved 1 m.registers
      (if cond.holds (m.registers.get rs) (m.registers.get rt) = true then
        Address.displace (m.pc + 4) (offset.value * 4) else m.pc + 4) m.stepIn.2 := by
  by_cases hholds : cond.holds (m.registers.get rs) (m.registers.get rt) = true
  · rw [if_pos hholds]
    exact h.moved ⟨nofun, nofun⟩ (if_pos hholds) rfl
  · rw [if_neg hholds]
    exact h.moved ⟨nofun, nofun⟩ (if_neg hholds) rfl

/-- The branch behind a comparison is decided by what the comparison has put into the scratch
register. -/
theorem Attempts.compareAndBranch {left right : Reg} {cond : BranchCond} {offset : SImm16}
    (h : m.Attempts p (.alu .slt Reg.scratch left right))
    (hsecond : p.instrAt? (m.pc + 4) = some (.branch cond Reg.scratch Reg.zero offset)) :
    let less := wordOfBool
      (Word.signed (m.registers.get left) < Word.signed (m.registers.get right))
    m.Moved 2 (m.registers.set Reg.scratch less)
      (if cond.holds less 0 = true then Address.displace (m.pc + 4 + 4) (offset.value * 4)
        else m.pc + 4 + 4) (m.stepped 2) := by
  intro less
  have hfirst : m.Moved 1 (m.registers.set Reg.scratch less) (m.pc + 4) m.stepIn.2 :=
    h.moved ⟨nofun, nofun⟩ rfl rfl
  have hbranch := (h.next hfirst hsecond).branch
  rw [hfirst.registers, hfirst.pc, Registers.get_set_self _ _ (by decide), Registers.get_zero]
    at hbranch
  exact hfirst.trans hbranch

/-! ## Transfers -/

/-- A machine has executed a transfer: it is at the target if the condition was met, and behind the
transfer otherwise, and nothing else has changed but the one register that the transfer uses. -/
structure Transferred (m : Machine) (i : SourceInstr) (address : Nat) (target : Address)
    (m' : Machine) : Prop where
  state : m'.state = .paused .step
  completed : m'.completed = m.completed + i.wordCount
  taken : i.Taken m.registers → m'.pc = target
  passed : ¬i.Taken m.registers → m'.pc = UInt32.ofNat (address + 4 * i.wordCount)
  general : ∀ r, i.changed? ≠ some r → m'.registers.get r = m.registers.get r
  link : ∀ t, i = .jal t → m'.registers.get Reg.ra = UInt32.ofNat (address + 4)
  hi : m'.registers.hi = m.registers.hi
  lo : m'.registers.lo = m.registers.lo
  memory : m'.memory = m.memory

variable {s : SourceInstr} {address : Nat} {target : Address}

/-- What is to be shown of the machine that a transfer has moved. -/
theorem Moved.transferred {registers : Registers} {pc : Address} {m' : Machine}
    (h : m.Moved s.wordCount registers pc m') (htaken : s.Taken m.registers → pc = target)
    (hpassed : ¬s.Taken m.registers → pc = UInt32.ofNat (address + 4 * s.wordCount))
    (hregisters : registers = m.registers ∨
      ∃ r value, s.changed? = some r ∧ registers = m.registers.set r value)
    (hlink : ∀ t, s = .jal t → registers.get Reg.ra = UInt32.ofNat (address + 4)) :
    m.Transferred s address target m' := by
  have hkept : (∀ r, s.changed? ≠ some r → registers.get r = m.registers.get r) ∧
      registers.hi = m.registers.hi ∧ registers.lo = m.registers.lo := by
    rcases hregisters with rfl | ⟨changed, value, hchanged, rfl⟩
    · exact ⟨fun r _ => rfl, rfl, rfl⟩
    · refine ⟨fun r hr => ?_, Registers.set_hi _ _ _, Registers.set_lo _ _ _⟩
      exact Registers.get_set_ne _ _ fun heq => hr (heq ▸ hchanged)
  exact
    { state := h.state
      completed := h.completed
      taken := fun ht => h.pc.trans (htaken ht)
      passed := fun ht => h.pc.trans (hpassed ht)
      general := fun r hr => by rw [h.registers, hkept.1 r hr]
      link := fun t ht => by rw [h.registers, hlink t ht]
      hi := by rw [h.registers, hkept.2.1]
      lo := by rw [h.registers, hkept.2.2]
      memory := h.memory }

/-- A transfer that is one branch. -/
theorem Attempts.transferred_branch {cond : BranchCond} {rs rt : Reg} {offset : SImm16}
    (h : m.Attempts p (.branch cond rs rt offset)) (hpc : m.pc = UInt32.ofNat address)
    (htarget : Address.displace (m.pc + 4) (offset.value * 4) = target)
    (hcount : s.wordCount = 1) (hjal : ∀ t, s ≠ .jal t)
    (htaken : s.Taken m.registers ↔
      cond.holds (m.registers.get rs) (m.registers.get rt) = true) :
    m.Transferred s address target (m.stepped s.wordCount) := by
  have hmoved := h.branch
  have hnext : m.pc + 4 = UInt32.ofNat (address + 4 * s.wordCount) := by
    rw [hcount, hpc]
    exact (UInt32.ofNat_add address 4).symm
  rw [htarget, hnext] at hmoved
  have hstepped : m.stepped s.wordCount = m.stepIn.2 := by rw [hcount]; rfl
  rw [hstepped]
  rw [← hcount] at hmoved
  refine hmoved.transferred (fun ht => if_pos (htaken.mp ht)) (fun ht => ?_) (.inl rfl)
    fun t ht => absurd ht (hjal t)
  exact if_neg fun hholds => ht (htaken.mpr hholds)

/-- A comparison and the branch on its result. -/
theorem Attempts.transferred_compare {cmp : Comparison} {rs rt left right : Reg}
    {goal : BranchTarget} {cond : BranchCond} {offset : SImm16}
    (h : m.Attempts p (.alu .slt Reg.scratch left right))
    (hsecond : p.instrAt? (m.pc + 4) = some (.branch cond Reg.scratch Reg.zero offset))
    (hpc : m.pc = UInt32.ofNat address)
    (htarget : Address.displace (m.pc + 4 + 4) (offset.value * 4) = target)
    (htaken : (SourceInstr.compare cmp rs rt goal).Taken m.registers ↔
      cond.holds (wordOfBool
        (Word.signed (m.registers.get left) < Word.signed (m.registers.get right))) 0 = true) :
    m.Transferred (.compare cmp rs rt goal) address target (m.stepped 2) := by
  have hmoved := h.compareAndBranch hsecond
  have hnext : m.pc + 4 + 4 = UInt32.ofNat (address + 4 * 2) := by
    rw [hpc, UInt32.ofNat_add, UInt32.add_assoc]
    rfl
  rw [htarget, hnext] at hmoved
  refine hmoved.transferred (s := .compare cmp rs rt goal) (fun ht => if_pos (htaken.mp ht))
    (fun ht => ?_) (.inr ⟨Reg.scratch, _, rfl, rfl⟩) fun t ht => nomatch ht
  exact if_neg fun hholds => ht (htaken.mpr hholds)

theorem Attempts.transferred_j {expr : AddressExpr} {index : Word} (h : m.Attempts p (.j index))
    (htarget : Instr.jumpTarget (m.pc + 4) index = target) :
    m.Transferred (.j expr) address target (m.stepped 1) := by
  have hmoved := h.moved ⟨nofun, nofun⟩ rfl rfl
  refine hmoved.transferred (s := .j expr) (fun _ => htarget) (fun ht => absurd trivial ht)
    (.inl rfl) fun t ht => nomatch ht

theorem Attempts.transferred_jal {expr : AddressExpr} {index : Word}
    (h : m.Attempts p (.jal index)) (hpc : m.pc = UInt32.ofNat address)
    (htarget : Instr.jumpTarget (m.pc + 4) index = target) :
    m.Transferred (.jal expr) address target (m.stepped 1) := by
  have hmoved := h.moved ⟨nofun, nofun⟩ rfl rfl
  refine hmoved.transferred (s := .jal expr) (fun _ => htarget) (fun ht => absurd trivial ht)
    (.inr ⟨Reg.ra, _, rfl, rfl⟩) fun t _ => ?_
  have hnext : m.pc + 4 = UInt32.ofNat (address + 4) := by
    rw [hpc]
    exact (UInt32.ofNat_add address 4).symm
  exact (Registers.get_set_self _ _ (by decide)).trans hnext

end Machine

/-! ## Conditions -/

namespace SourceInstr

theorem taken_branch (cond : BranchCond) (rs rt : Reg) (goal : BranchTarget) (regs : Registers) :
    (branch cond rs rt goal).Taken regs ↔
      cond.holds (regs.get rs) (regs.get (if cond.isBinary then rt else Reg.zero)) = true := by
  cases cond <;> simp [Taken, BranchCond.holds, BranchCond.isBinary]

theorem taken_b (goal : BranchTarget) (regs : Registers) :
    (b goal).Taken regs ↔
      BranchCond.beq.holds (regs.get Reg.zero) (regs.get Reg.zero) = true := by
  simp [Taken, BranchCond.holds]

theorem taken_beqz (rs : Reg) (goal : BranchTarget) (regs : Registers) :
    (beqz rs goal).Taken regs ↔
      BranchCond.beq.holds (regs.get rs) (regs.get Reg.zero) = true := by
  simp [Taken, BranchCond.holds, regs.get_zero]

theorem taken_bnez (rs : Reg) (goal : BranchTarget) (regs : Registers) :
    (bnez rs goal).Taken regs ↔
      BranchCond.bne.holds (regs.get rs) (regs.get Reg.zero) = true := by
  simp [Taken, BranchCond.holds, regs.get_zero]

theorem holds_wordOfBool (less : Bool) :
    (BranchCond.bne.holds (wordOfBool less) 0 = true ↔ less = true) ∧
      (BranchCond.beq.holds (wordOfBool less) 0 = true ↔ less = false) := by
  cases less <;> decide

/-- The condition of a comparison, for the instructions that it expands to. -/
theorem compareAndBranch_taken (cmp : Comparison) (rs rt : Reg) (goal : BranchTarget)
    (offset : SImm16) :
    ∃ left right cond,
      compareAndBranch cmp rs rt offset =
        [.alu .slt Reg.scratch left right, .branch cond Reg.scratch Reg.zero offset] ∧
      ∀ regs : Registers, (compare cmp rs rt goal).Taken regs ↔
        cond.holds (wordOfBool (Word.signed (regs.get left) < Word.signed (regs.get right))) 0 =
          true := by
  cases cmp with
  | lt =>
    refine ⟨rs, rt, .bne, rfl, fun regs => ?_⟩
    rw [(holds_wordOfBool _).1, decide_eq_true_iff]
    rfl
  | gt =>
    refine ⟨rt, rs, .bne, rfl, fun regs => ?_⟩
    rw [(holds_wordOfBool _).1, decide_eq_true_iff]
    rfl
  | le =>
    refine ⟨rt, rs, .beq, rfl, fun regs => ?_⟩
    rw [(holds_wordOfBool _).2, decide_eq_false_iff_not, Int.not_lt]
    rfl
  | ge =>
    refine ⟨rs, rt, .beq, rfl, fun regs => ?_⟩
    rw [(holds_wordOfBool _).2, decide_eq_false_iff_not, Int.not_lt]
    rfl

end SourceInstr

/-! ## All transfers -/

/-- Whatever its registers hold, a machine with a program that comes to an address executes the
transfer there, from start to end. -/
def Program.Transfers (p : Program) (i : SourceInstr) (address : Nat) (target : Address) : Prop :=
  ∀ m : Machine, m.Follows p → m.state.isTerminal = false → m.pc = UInt32.ofNat address →
    m.Transferred i address target (m.stepped i.wordCount)

section

variable {source : Source} {before : List Statement} {s : Statement} {address : Nat}
  {i : SourceInstr} {l : Label}

theorem Emits.toNat_address (h : Emits (parse source.chars).1 source before s address) :
    (UInt32.ofNat address).toNat = address :=
  UInt32.toNat_ofNat_of_lt' (Nat.lt_of_le_of_lt (Nat.le_add_right _ _) h.fits)

/-- A machine at the address of an emitted instruction can execute what it expands to. -/
theorem Emits.attempts (h : Emits (parse source.chars).1 source before s address)
    (hbody : s.body = some (.instr i)) {first : Instr} {rest : List Instr}
    (hexpand : i.expand (UInt32.ofNat address) s.span (assemble source).program.symbols =
      .ok (first :: rest)) {m : Machine} (hm : m.Follows (assemble source).program)
    (hstate : m.state.isTerminal = false) (hpc : m.pc = UInt32.ofNat address) :
    m.Attempts (assemble source).program first where
  follows := hm
  normal := Program.ofStatements_normal _ source
  alive := hstate
  instr := by
    have hcount := (SourceInstr.expand_isExpansion hexpand).2
    rw [hpc]
    exact h.instrAt? hbody hexpand (k := 0) (by rw [← hcount]; exact Nat.succ_pos _)

/-- The forms that are one branch differ in its condition only. -/
theorem Emits.transfers_branch (h : Emits (parse source.chars).1 source before s address)
    (hbody : s.body = some (.instr i)) {instrs : List Instr}
    (hexpand : i.expand (UInt32.ofNat address) s.span (assemble source).program.symbols =
      .ok instrs) {cond : BranchCond} {rs rt : Reg}
    (hform : ∀ pc span symbols, i.expand pc span symbols =
      (do return [.branch cond rs rt (← (BranchTarget.label l).resolve pc symbols)]))
    (hjal : ∀ t, i ≠ .jal t)
    (htaken : ∀ regs, i.Taken regs ↔ cond.holds (regs.get rs) (regs.get rt) = true) :
    ∃ target, (assemble source).program.symbols.address? l.name = some target ∧
      (assemble source).program.Transfers i address target := by
  have haligned : (UInt32.ofNat address).toNat % 4 = 0 := by
    rw [h.toNat_address]
    exact h.aligned hbody
  obtain ⟨offset, hresolve, hinstrs⟩ := bind_ok_inv ((hform _ _ _).symm.trans hexpand)
  obtain rfl := Except.ok.inj hinstrs
  obtain ⟨target, hlabel, htarget⟩ := BranchTarget.resolve_inv hresolve haligned
  refine ⟨target, hlabel, fun m hm hstate hpc => ?_⟩
  have hcount := (SourceInstr.expand_isExpansion hexpand).2
  have hattempts := h.attempts hbody hexpand hm hstate hpc
  rw [← hpc] at htarget
  exact hattempts.transferred_branch hpc htarget hcount.symm hjal (htaken m.registers)

theorem Emits.transfers_compare (h : Emits (parse source.chars).1 source before s address)
    {cmp : Comparison} {rs rt : Reg}
    (hbody : s.body = some (.instr (.compare cmp rs rt (.label l)))) {instrs : List Instr}
    (hexpand : (SourceInstr.compare cmp rs rt (.label l)).expand (UInt32.ofNat address) s.span
      (assemble source).program.symbols = .ok instrs) :
    ∃ target, (assemble source).program.symbols.address? l.name = some target ∧
      (assemble source).program.Transfers (.compare cmp rs rt (.label l)) address target := by
  obtain ⟨offset, hresolve, hinstrs⟩ := bind_ok_inv hexpand
  obtain rfl := Except.ok.inj hinstrs
  have hnext : UInt32.ofNat address + 4 = UInt32.ofNat (address + 4) :=
    (UInt32.ofNat_add address 4).symm
  have haligned : (UInt32.ofNat address + 4).toNat % 4 = 0 := by
    have hmod := h.aligned hbody
    rw [Address.toNat_next, h.toNat_address]
    omega
  obtain ⟨target, hlabel, htarget⟩ := BranchTarget.resolve_inv hresolve haligned
  obtain ⟨left, right, cond, hinstrs, htaken⟩ :=
    SourceInstr.compareAndBranch_taken cmp rs rt (.label l) offset
  rw [hinstrs] at hexpand
  refine ⟨target, hlabel, fun m hm hstate hpc => ?_⟩
  have hattempts := h.attempts hbody hexpand hm hstate hpc
  have hsecond := h.instrAt? hbody hexpand (k := 1) (Nat.lt_succ_self 1)
  rw [Nat.mul_one, ← hnext, ← hpc] at hsecond
  rw [← hpc] at htarget
  exact hattempts.transferred_compare hsecond hpc htarget (htaken m.registers)

end

/-- In a source without problems, every branch or jump to a label is put at an address, from which a
machine with the program goes to the label if the condition of the branch or jump is met, and goes
on behind it otherwise. -/
theorem transfers_reach {source : Source} (hok : (assemble source).isOk = true)
    {before : List Statement} {s : Statement}
    (hstands : before ++ [s] <+: (parse source.chars).1) {i : SourceInstr}
    (hbody : s.body = some (.instr i)) {l : Label} {distance : Int}
    (hdestination : i.destination? = some (l, distance)) :
    let p := (assemble source).program
    ∃ address target, Emits (parse source.chars).1 source before s address ∧
      p.symbols.address? l.name = some target ∧
      p.Transfers i address (target.displace distance) := by
  intro p
  obtain ⟨address, h, instrs, hexpand⟩ := emits_of_isOk hok hstands hbody
  have hnear (hlabel : ∃ target, p.symbols.address? l.name = some target ∧
      p.Transfers i address target) (hdistance : 0 = distance) :
      ∃ address target, Emits (parse source.chars).1 source before s address ∧
        p.symbols.address? l.name = some target ∧
        p.Transfers i address (target.displace distance) := by
    obtain ⟨target, hlabel, htransfers⟩ := hlabel
    refine ⟨address, target, h, hlabel, ?_⟩
    rw [← hdistance, Address.displace_zero]
    exact htransfers
  cases i with
  | branch cond rs rt goal =>
    cases goal with
    | offset => exact nomatch hdestination
    | label l' =>
      cases hdestination
      exact hnear (h.transfers_branch hbody hexpand (fun _ _ _ => rfl) nofun
        (SourceInstr.taken_branch cond rs rt _)) rfl
  | b goal =>
    cases goal with
    | offset => exact nomatch hdestination
    | label l' =>
      cases hdestination
      exact hnear (h.transfers_branch hbody hexpand (fun _ _ _ => rfl) nofun
        (SourceInstr.taken_b _)) rfl
  | beqz rs goal =>
    cases goal with
    | offset => exact nomatch hdestination
    | label l' =>
      cases hdestination
      exact hnear (h.transfers_branch hbody hexpand (fun _ _ _ => rfl) nofun
        (SourceInstr.taken_beqz rs _)) rfl
  | bnez rs goal =>
    cases goal with
    | offset => exact nomatch hdestination
    | label l' =>
      cases hdestination
      exact hnear (h.transfers_branch hbody hexpand (fun _ _ _ => rfl) nofun
        (SourceInstr.taken_bnez rs _)) rfl
  | compare cmp rs rt goal =>
    cases goal with
    | offset => exact nomatch hdestination
    | label l' =>
      cases hdestination
      exact hnear (h.transfers_compare hbody hexpand) rfl
  | j expr =>
    cases expr with
    | value => exact nomatch hdestination
    | label l' offset =>
      cases hdestination
      obtain ⟨index, hindex, hinstrs⟩ := bind_ok_inv hexpand
      obtain rfl := Except.ok.inj hinstrs
      obtain ⟨target, hlabel, htarget⟩ := AddressExpr.jumpIndex_inv hindex
      refine ⟨address, target, h, hlabel, fun m hm hstate hpc => ?_⟩
      rw [← hpc] at htarget
      exact (h.attempts hbody hexpand hm hstate hpc).transferred_j htarget
  | jal expr =>
    cases expr with
    | value => exact nomatch hdestination
    | label l' offset =>
      cases hdestination
      obtain ⟨index, hindex, hinstrs⟩ := bind_ok_inv hexpand
      obtain rfl := Except.ok.inj hinstrs
      obtain ⟨target, hlabel, htarget⟩ := AddressExpr.jumpIndex_inv hindex
      refine ⟨address, target, h, hlabel, fun m hm hstate hpc => ?_⟩
      rw [← hpc] at htarget
      exact (h.attempts hbody hexpand hm hstate hpc).transferred_jal hpc htarget
  | _ => exact nomatch hdestination

/-- A comparison with the scratch register itself, which its own result overwrites. -/
theorem transfers_reach_scratch :
    let source : Source := .ofString "main: nop\nblt $at, $t0, out\njal main\nout: nop"
    let p := (assemble source).program
    let m := ((Machine.create { stackBudget := 0 }).load p).after
      [.setRegister 1 0xFFFFFFFF, .setRegister 8 3, .setPc 0x00400004]
    (m.stepped 2).pc = 0x00400010 ∧ (m.stepped 2).registers.get 8 = 3 := by
  intro source p m
  let i : SourceInstr := .compare .lt 1 8 (.label ⟨"out", 24⟩)
  let first : Statement := ⟨[⟨"main", 0⟩], some (.instr .nop), ⟨6, 9⟩⟩
  let s : Statement := ⟨[], some (.instr i), ⟨10, 27⟩⟩
  have hok : (assemble source).isOk = true := by decide +kernel
  have hstands : [first] ++ [s] <+: (parse source.chars).1 := by decide +kernel
  obtain ⟨address, target, hemits, hlabel, htransfers⟩ :=
    transfers_reach hok hstands (i := i) rfl (l := ⟨"out", 24⟩) rfl
  have haddress : some 0x00400004 = some address := by
    rw [← hemits.placed]
    decide +kernel
  have htarget : some 0x00400010 = some target := by
    rw [← hlabel]
    decide +kernel
  obtain rfl := Option.some.inj haddress
  obtain rfl := Option.some.inj htarget
  have hfollows : m.Follows p :=
    Machine.follows_after (Program.ofStatements_normal _ source) _ _
  have hstate : m.state.isTerminal = false := by decide +kernel
  have hpc : m.pc = UInt32.ofNat 0x00400004 := by decide +kernel
  have hvalue : m.registers.get 8 = 3 := by decide +kernel
  have htransferred := htransfers m hfollows hstate hpc
  have htaken : i.Taken m.registers := by
    show Word.signed (m.registers.get 1) < Word.signed (m.registers.get 8)
    decide +kernel
  refine ⟨(htransferred.taken htaken).trans (Address.displace_zero _), ?_⟩
  exact (htransferred.general 8 (by decide)).trans hvalue

end MipsLab
