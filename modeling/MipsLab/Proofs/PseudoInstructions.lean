import MipsLab.Proofs.DirectOperands

/-!
# Pseudo-instructions on registers

Some instructions of a source text stand for others that the machine has: `li`, `la`, `move`, `nop`,
`neg` and `not`. They put a value into a register. A number is put there in one of three ways, of
which two extend the same half word differently; an address goes through the scratch register, which
may be the target as well.

1. `SourceInstr.Assigns`: what each of them means.
2. `Word.upperHalf_or_lowerHalf`, `Word.zero_add_lowerHalf`: the immediates make up the number.
3. `Machine.Assigned`: what a machine has done after one of them.
4. `pseudos_assign`: each of them does what it means, on every machine that comes to it.
-/

namespace MipsLab

/-! ## Halves of words -/

namespace Word

theorem signed_bounds (w : Word) : minSigned ≤ signed w ∧ signed w ≤ maxSigned := by
  have hw := w.toNat_lt
  unfold signed minSigned maxSigned
  split <;> omega

theorem ofInt_signed (w : Word) : ofInt (signed w) = w := by
  have hw := w.toNat_lt
  apply UInt32.toNat_inj.mp
  unfold ofInt signed
  rw [UInt32.toNat_ofNat']
  split <;> omega

/-- The negative of a word as an integer, brought back into a word. -/
theorem ofInt_neg_signed (w : Word) : ofInt (-signed w) = -w := by
  have hw := w.toNat_lt
  have hneg : (-w).toNat = (0x100000000 - w.toNat) % 0x100000000 := UInt32.toNat_neg w
  apply UInt32.toNat_inj.mp
  rw [hneg]
  unfold ofInt signed
  rw [UInt32.toNat_ofNat']
  split <;> omega

/-- The lower half in an operation that extends it with zeros. -/
theorem toNat_extended_lowerHalf (w : Word) :
    (Instr.extendedImm .ori w.lowerHalf).toNat = w.toNat % 0x10000 := by
  have hvalue : w.lowerHalf.value = (w.toNat : Int) % (2 ^ 16 : Nat) := rfl
  have hextended : Instr.extendedImm .ori w.lowerHalf = ofInt w.lowerHalf.value := rfl
  rw [hextended, hvalue, ofInt, UInt32.toNat_ofNat']
  omega

theorem toNat_upperHalf (w : Word) :
    (UInt32.ofNat (w.upperHalf.toNat * 0x10000)).toNat = w.toNat / 0x10000 * 0x10000 := by
  have hw := w.toNat_lt
  have hvalue : w.upperHalf.value = ((w.toNat / 0x10000 : Nat) : Int) % (2 ^ 16 : Nat) := rfl
  unfold Imm.toNat
  rw [hvalue, UInt32.toNat_ofNat']
  omega

/-- The halves of a word make it up. -/
theorem upperHalf_or_lowerHalf (w : Word) :
    UInt32.ofNat (w.upperHalf.toNat * 0x10000) ||| Instr.extendedImm .ori w.lowerHalf = w := by
  apply UInt32.toNat_inj.mp
  rw [UInt32.toNat_or, toNat_upperHalf, toNat_extended_lowerHalf, Nat.mul_comm,
    ← Nat.two_pow_add_eq_or_of_lt (i := 16) (Nat.mod_lt _ (by decide))]
  exact Nat.div_add_mod w.toNat 0x10000

theorem zero_or_lowerHalf {w : Word} (h : w.toNat ≤ 0xFFFF) :
    0 ||| Instr.extendedImm .ori w.lowerHalf = w := by
  rw [UInt32.zero_or]
  apply UInt32.toNat_inj.mp
  rw [toNat_extended_lowerHalf]
  omega

theorem zero_add_lowerHalf {w : Word} (h : Signedness.signed.wrap 16 (signed w) = signed w) :
    0 + Instr.extendedImm .addiu w.lowerHalf = w := by
  have hw := w.toNat_lt
  have hwrap : Signedness.signed.wrap 16 w.lowerHalf.value = signed w := by
    rw [← h]
    have hvalue : w.lowerHalf.value = (w.toNat : Int) % (2 ^ 16 : Nat) := rfl
    simp only [Signedness.wrap, hvalue, Int.bmod_def]
    unfold signed
    split <;> omega
  have hextended : Instr.extendedImm .addiu w.lowerHalf =
      ofInt (Signedness.signed.wrap 16 w.lowerHalf.value) := rfl
  rw [UInt32.zero_add, hextended, hwrap, ofInt_signed]

end Word

/-! ## Meaning -/

/-- The register that a pseudo-instruction on registers puts a value into, and the value. An address
is what the symbols say, and `nop` puts nothing anywhere. -/
inductive SourceInstr.Assigns (symbols : SymbolTable) (regs : Registers) :
    SourceInstr → Option (Reg × Word) → Prop
  | li (rt : Reg) (value : Word) : Assigns symbols regs (.li rt value) (some (rt, value))
  | la (rt : Reg) {target : AddressExpr} {a : Address} (h : symbols.resolveExpr target = .ok a) :
    Assigns symbols regs (.la rt target) (some (rt, a))
  | move (rd rs : Reg) : Assigns symbols regs (.move rd rs) (some (rd, regs.get rs))
  | nop : Assigns symbols regs .nop none
  | neg (rd rs : Reg) : Assigns symbols regs (.neg rd rs) (some (rd, -regs.get rs))
  | not (rd rs : Reg) : Assigns symbols regs (.not rd rs) (some (rd, ~~~regs.get rs))

/-- Whether a pseudo-instruction has a result that no word can hold, and the machine minds it. -/
def SourceInstr.Overflows (m : Machine) : SourceInstr → Prop
  | neg _ rs => m.flags.trapOverflow = true ∧ Word.signed (m.registers.get rs) = Word.minSigned
  | _ => False

/-- The register beside its target that a pseudo-instruction uses on the way. -/
def SourceInstr.used? : SourceInstr → Option Reg
  | la _ _ => some Reg.scratch
  | _ => none

/-- Instructions stand in the text from an address on. -/
def Memory.Carries (m : Memory) (a : Address) : List Instr → Prop
  | [] => True
  | i :: rest => m.textWord? a = some i.encode ∧ m.Carries (a + 4) rest

namespace Memory

variable {m : Memory} {instrs : List Instr} {a : Nat}

theorem carries_of_forall (h : ∀ k, k < instrs.length →
    m.textWord? (UInt32.ofNat (a + 4 * k)) = instrs[k]?.map Instr.encode) :
    m.Carries (UInt32.ofNat a) instrs := by
  induction instrs generalizing a with
  | nil => trivial
  | cons i rest ih =>
    refine ⟨h 0 (Nat.zero_lt_succ _), ?_⟩
    show m.Carries (UInt32.ofNat a + UInt32.ofNat 4) rest
    rw [← UInt32.ofNat_add]
    refine ih fun k hk => ?_
    rw [show a + 4 + 4 * k = a + 4 * (k + 1) by omega]
    exact h (k + 1) (Nat.succ_lt_succ hk)

end Memory

/-- The text of a program holds the expansion of each instruction where the instruction is put. -/
theorem Emits.carries {statements before : List Statement} {source : Source} {s : Statement}
    {address : Nat} (h : Emits statements source before s address) {i : SourceInstr}
    (hbody : s.body = some (.instr i)) {instrs : List Instr}
    (hexpand : i.expand (UInt32.ofNat address) s.span
      (Program.ofStatements statements source).1.symbols = .ok instrs)
    {m : Machine} (hm : m.Follows (Program.ofStatements statements source).1) :
    m.memory.Carries (UInt32.ofNat address) instrs := by
  refine Memory.carries_of_forall fun k hk => ?_
  rw [Memory.textWord?_encode hm.text, h.instrAt? hbody hexpand]
  rwa [← (SourceInstr.expand_isExpansion hexpand).2]

namespace Machine

/-- A machine has completed some instructions that put a value into a register, or nothing anywhere.
Nothing else has changed but the register that they use on the way. -/
structure Assigned (m : Machine) (count : Nat) (target : Option (Reg × Word)) (used? : Option Reg)
    (m' : Machine) : Prop where
  state : m'.state = .paused .step
  completed : m'.completed = m.completed + count
  pc : m'.pc = m.pc + UInt32.ofNat (4 * count)
  /-- What is put into `$zero` is lost. -/
  value : ∀ r v, target = some (r, v) → m'.registers.get r = if r = Reg.zero then 0 else v
  general : ∀ r, target.map Prod.fst ≠ some r → used? ≠ some r →
    m'.registers.get r = m.registers.get r
  hi : m'.registers.hi = m.registers.hi
  lo : m'.registers.lo = m.registers.lo
  memory : m'.memory = m.memory
  same : m.SameApart m'

/-! ## Executing -/

variable {m : Machine} {i : Instr} {rd r : Reg} {v : Word}

theorem Assigned.trans {m m' m'' : Machine} {count count' : Nat} {target : Option (Reg × Word)}
    (h : m.Assigned count (some (r, v)) none m') (h' : m'.Assigned count' target none m'') :
    m.Assigned (count + count') target (some r) m'' where
  state := h'.state
  completed := by rw [h'.completed, h.completed, Nat.add_assoc]
  pc := by rw [h'.pc, h.pc, Nat.mul_add, UInt32.ofNat_add, UInt32.add_assoc]
  value := h'.value
  general r' htarget hused := by
    rw [h'.general r' htarget nofun, h.general r' hused nofun]
  hi := h'.hi.trans h.hi
  lo := h'.lo.trans h.lo
  memory := h'.memory.trans h.memory
  same := by
    have hsame := h'.same
    rw [h.same] at hsame
    exact hsame

/-- An instruction that puts a value into a register. -/
theorem IsAt.assigned (h : m.IsAt i) (hplain : i ≠ .syscall ∧ i ≠ .brk)
    (heffect : i.effect m.pc m.flags.trapOverflow m.registers m.memory = .ok (Effect.sets rd v)) :
    m.Assigned 1 (some (rd, v)) none m.stepIn.2 := by
  rw [h.stepIn_ok hplain heffect]
  refine
    { state := rfl, completed := rfl, pc := rfl, memory := rfl, same := rfl
      value := ?_
      general := ?_
      hi := m.registers.set_hi rd v
      lo := m.registers.set_lo rd v }
  · intro r' v' heq
    obtain ⟨rfl, rfl⟩ := Prod.mk.inj (Option.some.inj heq)
    split
    · next hzero =>
      rw [hzero]
      exact Registers.get_zero _
    · next hzero => exact Registers.get_set_self _ _ hzero
  · intro r' hr' _
    exact Registers.get_set_ne _ _ fun heq => hr' (congrArg some heq)

theorem aluImm_plain (op : ImmOp) (rt rs : Reg) (imm : UImm16) :
    Instr.aluImm op rt rs imm ≠ .syscall ∧ Instr.aluImm op rt rs imm ≠ .brk := by
  constructor <;> simp

/-- The upper half of a word is put into a register, and from there the lower half is added to it.
That register may be the target, even if it is `$zero`. -/
theorem assigned_halves (hstate : m.state.isTerminal = false)
    (hcode : m.memory.Carries m.pc [.lui r v.upperHalf, .aluImm .ori rd r v.lowerHalf])
    (hzero : r = Reg.zero → rd = Reg.zero) :
    m.Assigned 2 (some (rd, v)) (some r) (m.stepped 2) := by
  obtain ⟨hfirst, hsecond, -⟩ := hcode
  have hat : m.IsAt (.lui r v.upperHalf) := ⟨hstate, hfirst, trivial⟩
  have hupper : m.Assigned 1 (some (r, UInt32.ofNat (v.upperHalf.toNat * 0x10000))) none
      m.stepIn.2 := hat.assigned ⟨nofun, nofun⟩ rfl
  have hnext : m.stepIn.2.IsAt (.aluImm .ori rd r v.lowerHalf) := by
    refine ⟨?_, ?_, trivial⟩
    · rw [hupper.state]
      rfl
    · rw [hupper.memory, hupper.pc]
      exact hsecond
  have hlower : m.stepIn.2.Assigned 1 (some (rd, m.stepIn.2.registers.get r |||
      Instr.extendedImm .ori v.lowerHalf)) none (m.stepped 2) :=
    hnext.assigned (aluImm_plain .ori rd r _) rfl
  have hboth := hupper.trans hlower
  refine { hboth with value := ?_ }
  intro rd' v' heq
  obtain ⟨rfl, rfl⟩ := Prod.mk.inj (Option.some.inj heq)
  rw [hboth.value rd _ rfl]
  split
  · rfl
  · next hrd =>
    have hr : r ≠ Reg.zero := fun heq => hrd (hzero heq)
    rw [hupper.value r _ rfl, if_neg hr, Word.upperHalf_or_lowerHalf]

/-- A register that is the target anyway is not used beside it. -/
theorem Assigned.target_only {m' : Machine} {count : Nat}
    (h : m.Assigned count (some (rd, v)) (some rd) m') :
    m.Assigned count (some (rd, v)) none m' :=
  { h with general := fun r hr _ => h.general r hr hr }

/-- What is put into `$zero` is put nowhere. -/
theorem Assigned.of_zero {m' : Machine} {count : Nat} {used? : Option Reg}
    (h : m.Assigned count (some (Reg.zero, v)) used? m') : m.Assigned count none used? m' := by
  refine { h with value := nofun, general := ?_ }
  intro r _ hused
  by_cases hr : r = Reg.zero
  · rw [hr, Registers.get_zero, Registers.get_zero]
  · exact h.general r (fun heq => hr (Option.some.inj heq).symm) hused

end Machine

/-! ## Each of them -/

namespace Machine

open SourceInstr

variable {m : Machine}

/-- The three ways of putting a number into a register. -/
theorem assigned_li (hstate : m.state.isTerminal = false) {rt : Reg} {value : Word}
    (hcode : m.memory.Carries m.pc (loadNumber rt value)) :
    m.Assigned (loadNumber rt value).length (some (rt, value)) none
      (m.stepped (loadNumber rt value).length) := by
  by_cases hlow : value.toNat ≤ 0xFFFF
  · have hinstrs : loadNumber rt value = [.aluImm .ori rt Reg.zero value.lowerHalf] := if_pos hlow
    rw [hinstrs] at hcode ⊢
    refine IsAt.assigned ⟨hstate, hcode.1, trivial⟩ (aluImm_plain _ rt _ _) ?_
    show Except.ok (Effect.sets rt (m.registers.get Reg.zero ||| _)) = _
    rw [Registers.get_zero, Word.zero_or_lowerHalf hlow]
  by_cases hfits : fitsImmediate value = true
  · have hinstrs : loadNumber rt value = [.aluImm .addiu rt Reg.zero value.lowerHalf] := by
      rw [loadNumber, if_neg hlow, if_pos hfits]
    have hwrap : Signedness.signed.wrap 16 (Word.signed value) = Word.signed value := by
      simpa [fitsImmediate, hlow] using hfits
    rw [hinstrs] at hcode ⊢
    refine IsAt.assigned ⟨hstate, hcode.1, trivial⟩ (aluImm_plain _ rt _ _) ?_
    show Except.ok (Effect.sets rt (m.registers.get Reg.zero + _)) = _
    rw [Registers.get_zero, Word.zero_add_lowerHalf hwrap]
  · have hinstrs : loadNumber rt value =
        [.lui rt value.upperHalf, .aluImm .ori rt rt value.lowerHalf] := by
      rw [loadNumber, if_neg hlow, if_neg hfits]
    rw [hinstrs] at hcode ⊢
    exact (assigned_halves hstate hcode id).target_only

/-- The negative of a number is the difference of zero and the number, or an overflow. -/
theorem IsAt.negated {rd rs : Reg} (h : m.IsAt (.alu .sub rd Reg.zero rs)) :
    ((neg rd rs).Overflows m → m.stepIn.2 = m.enter (.faulted (m.faultOf .integerOverflow))) ∧
      (¬(neg rd rs).Overflows m →
        m.Assigned 1 (some (rd, -m.registers.get rs)) none m.stepIn.2) := by
  have hzero : Word.signed (m.registers.get Reg.zero) = 0 := by
    rw [Registers.get_zero]
    rfl
  have heffect : (Instr.alu .sub rd Reg.zero rs).effect m.pc m.flags.trapOverflow m.registers
      m.memory = (wordOfSum m.flags.trapOverflow (-Word.signed (m.registers.get rs))).map
        (Effect.sets rd) := by
    rw [← Int.zero_sub, ← hzero]
    rfl
  obtain ⟨hleast, hgreatest⟩ := Word.signed_bounds (m.registers.get rs)
  constructor
  · rintro ⟨htrap, hvalue⟩
    refine h.stepIn_error ⟨nofun, nofun⟩ (heffect.trans ?_)
    rw [htrap, hvalue]
    rfl
  · intro hnot
    have hsum : wordOfSum m.flags.trapOverflow (-Word.signed (m.registers.get rs)) =
        .ok (-m.registers.get rs) := by
      rw [wordOfSum, if_neg, Word.ofInt_neg_signed]
      intro hout
      have hrange : m.flags.trapOverflow = true ∧
          (-Word.signed (m.registers.get rs) < Word.minSigned ∨
            Word.maxSigned < -Word.signed (m.registers.get rs)) := by
        simpa using hout
      refine hnot ⟨hrange.1, ?_⟩
      -- Only the least number has a negative that is out of range.
      unfold Word.minSigned Word.maxSigned at *
      omega
    refine h.assigned ⟨nofun, nofun⟩ (heffect.trans ?_)
    rw [hsum]
    rfl

end Machine

/-- Whatever its registers and its memory hold, a machine that comes to the expansion of a
pseudo-instruction on registers, and has not ended, executes it from start to end. It then has the
value in the target, or nothing at all if the target is `$zero`, and goes on behind the expansion;
no other register has changed, but the scratch register on the way to an address, and neither have
`hi`, `lo`, the memory or anything else. Only the negative of the least number may be a fault, on a
machine that minds an overflow, and then nothing has changed. -/
theorem pseudos_assign {symbols : SymbolTable} {i : SourceInstr} {m : Machine}
    {target : Option (Reg × Word)} (hassigns : i.Assigns symbols m.registers target)
    (hstate : m.state.isTerminal = false) (pc : Address) (span : Span) :
    ∃ instrs, i.expand pc span symbols = .ok instrs ∧ instrs.length = i.wordCount ∧
      (m.memory.Carries m.pc instrs →
        (i.Overflows m →
          m.stepped i.wordCount = m.enter (.faulted (m.faultOf .integerOverflow))) ∧
        (¬i.Overflows m →
          m.Assigned i.wordCount target i.used? (m.stepped i.wordCount))) := by
  cases hassigns with
  | li rt value =>
    have hcount := (SourceInstr.loadNumber_isExpansion rt value).2
    refine ⟨_, rfl, hcount, fun hcode => ⟨False.elim, fun _ => ?_⟩⟩
    rw [← hcount]
    exact Machine.assigned_li hstate hcode
  | la rt hresolve =>
    refine ⟨_, congrArg (· >>= _) hresolve, rfl, fun hcode => ⟨False.elim, fun _ => ?_⟩⟩
    exact Machine.assigned_halves hstate hcode nofun
  | move rd rs =>
    refine ⟨_, rfl, rfl, fun hcode => ⟨False.elim, fun _ => ?_⟩⟩
    refine Machine.IsAt.assigned ⟨hstate, hcode.1, trivial⟩ ⟨nofun, nofun⟩ ?_
    show Except.ok (Effect.sets rd (m.registers.get rs + m.registers.get Reg.zero)) = _
    rw [Registers.get_zero, UInt32.add_zero]
  | nop =>
    refine ⟨_, rfl, rfl, fun hcode => ⟨False.elim, fun _ => ?_⟩⟩
    have hat : m.IsAt Instr.nop := ⟨hstate, hcode.1, trivial⟩
    have hzero : m.Assigned 1 (some (Reg.zero, _)) none m.stepIn.2 :=
      hat.assigned ⟨nofun, nofun⟩ rfl
    exact hzero.of_zero
  | neg rd rs =>
    exact ⟨_, rfl, rfl, fun hcode => Machine.IsAt.negated ⟨hstate, hcode.1, trivial⟩⟩
  | not rd rs =>
    refine ⟨_, rfl, rfl, fun hcode => ⟨False.elim, fun _ => ?_⟩⟩
    refine Machine.IsAt.assigned ⟨hstate, hcode.1, trivial⟩ ⟨nofun, nofun⟩ ?_
    show Except.ok (Effect.sets rd (~~~(m.registers.get rs ||| m.registers.get Reg.zero))) = _
    rw [Registers.get_zero, UInt32.or_zero]

/-- An address into the scratch register itself. -/
theorem pseudos_assign_scratch :
    let m := (Machine.create { stackBudget := 0 }).load
      (assemble (.ofString ".data\nv: .word 7\n.text\nmain: la $at, v+40000")).program
    (m.stepped 2).registers.get Reg.scratch = 0x10019C40 ∧
      (m.stepped 2).registers.get Reg.ra = m.registers.get Reg.ra ∧
      (m.stepped 2).pc = 0x00400008 := by
  intro m
  let source : Source := .ofString ".data\nv: .word 7\n.text\nmain: la $at, v+40000"
  let p := (assemble source).program
  let before : List Statement :=
    [⟨[], some (.directive .data), ⟨0, 5⟩⟩,
      ⟨[⟨"v", 6⟩], some (.directive (.word [.value 7])), ⟨9, 16⟩⟩,
      ⟨[], some (.directive .text), ⟨17, 22⟩⟩]
  let target : AddressExpr := .label ⟨"v", 37⟩ 40000
  let i : SourceInstr := .la Reg.scratch target
  let s : Statement := ⟨[⟨"main", 23⟩], some (.instr i), ⟨29, 44⟩⟩
  obtain ⟨hemits, hresolve, hpc⟩ : Emits (parse source.chars).1 source before s 0x00400000 ∧
      p.symbols.resolveExpr target = .ok 0x10019C40 ∧ m.pc = UInt32.ofNat 0x00400000 :=
    ⟨⟨by decide +kernel, by decide +kernel⟩, by decide +kernel, by decide +kernel⟩
  obtain ⟨instrs, hexpand, -, hexecutes⟩ := pseudos_assign (m := m)
    (SourceInstr.Assigns.la Reg.scratch hresolve) rfl (UInt32.ofNat 0x00400000) s.span
  have hcode : m.memory.Carries m.pc instrs := by
    rw [hpc]
    exact hemits.carries rfl hexpand (Machine.follows_reset rfl)
  have hassigned : m.Assigned 2 (some (Reg.scratch, 0x10019C40)) (some Reg.scratch)
      (m.stepped 2) := (hexecutes hcode).2 id
  refine ⟨hassigned.value _ _ rfl, hassigned.general _ (by decide) (by decide), ?_⟩
  rw [hassigned.pc, hpc]
  rfl

end MipsLab
