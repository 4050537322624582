import MipsLab.Proofs.Layout
import MipsLab.Proofs.Transfers

/-!
# Operands that are addresses

A load or store may name an address of 32 bits, as a label or as a number. Then it stands for two
instructions: the one puts the upper half of the address into the scratch register, the other adds
the lower half, which has a sign. Together they access exactly this address. The scratch register is
a register like the others, though. A store of it stores what the first instruction has put there.

1. `Word.displace_upperValue`: the halves add up to the address.
2. `Machine.LoadsFrom`, `Machine.StoresTo`: what a load or store means, by the bytes of memory.
3. `Machine.laidOut_after`: whatever is done to a machine, its regions stay apart.
4. `direct_operands_access`: every such load or store of a source without problems does what it
   means.
-/

namespace MipsLab

/-! ## Halves of addresses -/

namespace Word

/-- What an upper base is in a register: the multiple of `2 ^ 16` that is nearest to an address, up
to multiples of `2 ^ 32`. -/
def upperValue (a : Word) : Word := UInt32.ofNat (a.upperBase.toNat * 0x10000)

theorem toNat_upperValue (a : Word) :
    a.upperValue.toNat = (a.toNat + 0x8000) % 0x100000000 / 0x10000 * 0x10000 := by
  have hsum : (a + 0x8000).toNat = (a.toNat + 0x8000) % 0x100000000 := UInt32.toNat_add a 0x8000
  have hupper : a.upperBase.value = ((a + 0x8000).toNat / 0x10000 : Nat) % (2 ^ 16 : Nat) := rfl
  unfold upperValue Imm.toNat
  rw [UInt32.toNat_ofNat', hupper, hsum]
  omega

theorem lowerOffset_value (a : Word) :
    a.lowerOffset.value % 0x10000 = a.toNat % 0x10000 ∧
      -0x8000 ≤ a.lowerOffset.value ∧ a.lowerOffset.value < 0x8000 := by
  simp only [lowerOffset, Imm.truncate, Signedness.wrap, Int.bmod_def]
  omega

/-- The lower half may be negative, and the upper half has been rounded up then. -/
theorem displace_upperValue (a : Word) :
    Address.displace a.upperValue a.lowerOffset.value = a := by
  have ha := a.toNat_lt
  obtain ⟨hmod, hmin, hmax⟩ := a.lowerOffset_value
  apply Address.displace_eq
  rw [toNat_upperValue]
  omega

end Word

/-! ## Numbers in memory -/

namespace Word

theorem bigEndian_lt (bytes : List UInt8) : bigEndian bytes < 0x100 ^ bytes.length := by
  unfold bigEndian
  induction bytes using List.reverseRecOn with
  | nil => exact Nat.one_pos
  | append_singleton bytes b ih =>
    have hb := b.toNat_lt
    rw [List.foldl_append, List.foldl_cons, List.foldl_nil, List.length_append,
      List.length_singleton, Nat.pow_succ]
    omega

end Word

theorem FlatMemory.read_lt {f : FlatMemory} {a : Address} {size n : Nat}
    (h : f.read a size = .ok n) : n < 0x100 ^ size := by
  unfold read at h
  split at h
  · exact nomatch h
  · obtain rfl := Except.ok.inj h
    refine Nat.lt_of_lt_of_le (Word.bigEndian_lt _) (Nat.pow_le_pow_right (by decide) ?_)
    unfold bytesFrom
    exact Nat.le_trans (List.length_filterMap_le _ _) (Nat.le_of_eq (List.length_range'))

namespace Width

/-- The integer that a load of a width reads as a number without a sign: bytes and half words are in
two's complement, unless the load is one of those that extend with zeros. -/
def meaning (width : Width) (n : Nat) : Int :=
  match width with
  | byte => if n < 0x80 then n else n - 0x100
  | half => if n < 0x8000 then n else n - 0x10000
  | byteu | halfu | word => n

theorem meaning_byte {n : Nat} (h : n < 0x100) :
    Signedness.signed.wrap 8 n = byte.meaning n := by
  simp only [Signedness.wrap, meaning, Int.bmod_def]
  omega

theorem meaning_half {n : Nat} (h : n < 0x10000) :
    Signedness.signed.wrap 16 n = half.meaning n := by
  simp only [Signedness.wrap, meaning, Int.bmod_def]
  omega

theorem extend_eq (width : Width) {n : Nat} (h : n < 0x100 ^ width.size) :
    width.extend n = Word.ofInt (width.meaning n) := by
  cases width with
  | byte =>
    have hsize : n < 0x100 := by simpa [size] using h
    rw [← meaning_byte hsize]
    rfl
  | half =>
    have hsize : n < 0x10000 := by simpa [size] using h
    rw [← meaning_half hsize]
    rfl
  | byteu | halfu | word =>
    clear h
    apply UInt32.toNat_inj.mp
    simp only [extend, meaning, Word.ofInt, UInt32.toNat_ofNat']
    omega

theorem unextended_size (width : Width) : width.unextended.size = width.size := by
  cases width <;> rfl

end Width

/-! ## Meaning -/

namespace Machine

/-- What is neither a register nor memory nor how far a machine has come is the same. -/
def SameApart (m m' : Machine) : Prop :=
  m' = { m with
    registers := m'.registers
    memory := m'.memory
    pc := m'.pc
    completed := m'.completed
    state := m'.state
    events := m'.events }

/-- A machine has executed the two instructions of a load or store at an address, and nothing but
the memory and some registers may have changed. -/
structure Accessed (m : Machine) (address : Nat) (changed : List Reg) (memory : FlatMemory)
    (m' : Machine) : Prop where
  state : m'.state = .paused .step
  completed : m'.completed = m.completed + 2
  pc : m'.pc = UInt32.ofNat (address + 8)
  memory : m'.memory.flat = memory
  general : ∀ r, r ∉ changed → m'.registers.get r = m.registers.get r
  hi : m'.registers.hi = m.registers.hi
  lo : m'.registers.lo = m.registers.lo
  same : m.SameApart m'

/-- A machine has failed at the second instruction of a load or store at an address, and nothing but
the scratch register has changed. -/
structure Refused (m : Machine) (address : Nat) (e : MemoryError) (m' : Machine) : Prop where
  state : m'.state = .faulted
    { pc := UInt32.ofNat (address + 4)
      line := m.program.bind (·.lineAt? (UInt32.ofNat (address + 4)))
      error := .memory e }
  completed : m'.completed = m.completed + 1
  pc : m'.pc = UInt32.ofNat (address + 4)
  memory : m'.memory = m.memory
  general : ∀ r, r ≠ Reg.scratch → m'.registers.get r = m.registers.get r
  hi : m'.registers.hi = m.registers.hi
  lo : m'.registers.lo = m.registers.lo
  same : m.SameApart m'

/-- A machine has failed at the current instruction, and nothing has changed but its state. -/
structure Failed (m : Machine) (e : ExecError) (m' : Machine) : Prop where
  state : m'.state = .faulted (m.faultOf e)
  completed : m'.completed = m.completed
  pc : m'.pc = m.pc
  registers : m'.registers = m.registers
  memory : m'.memory = m.memory
  same : m.SameApart m'

theorem failed_enter (m : Machine) (e : ExecError) :
    m.Failed e (m.enter (.faulted (m.faultOf e))) where
  state := rfl
  completed := rfl
  pc := rfl
  registers := rfl
  memory := rfl
  same := rfl

variable (m : Machine) (address : Nat) (a : Address)

/-- A machine has loaded the number that some bytes at `a` write, as a value, or has failed with the
error of these bytes. -/
def LoadsFrom (size : Nat) (rt : Reg) (value : Nat → Word) (m' : Machine) : Prop :=
  match m.memory.flat.read a size with
  | .ok n =>
    m.Accessed address [rt, Reg.scratch] m.memory.flat m' ∧ m'.registers.get rt = value n
  | .error e => m.Refused address e m'

/-- A machine has stored some bytes at `a`, or has failed with the error of these bytes. -/
def StoresTo (bytes : List UInt8) (m' : Machine) : Prop :=
  match m.memory.flat.write a bytes with
  | .ok memory => m.Accessed address [Reg.scratch] memory m'
  | .error e => m.Refused address e m'

/-- What a load into a register makes of a number. What is loaded into `$zero` is lost. -/
def loadedValue (width : Width) (rt : Reg) (n : Nat) : Word :=
  if rt = Reg.zero then 0 else Word.ofInt (width.meaning n)

/-- What a store finds in a register: what it has held before, unless it is the scratch register,
which holds the upper part of the address by then. -/
def storedValue (rt : Reg) : Word :=
  if rt = Reg.scratch then Word.upperValue a else m.registers.get rt

/-- What a load or store that is given the address `a` does to a machine. -/
def Accesses (i : SourceInstr) (m' : Machine) : Prop :=
  match i with
  | .load width rt _ => m.LoadsFrom address a width.size rt (loadedValue width rt) m'
  | .store width rt _ =>
    m.StoresTo address a ((Word.bytes (m.storedValue a rt)).drop (4 - width.size)) m'
  | _ => False

end Machine

/-- The operand of a load or store that is an address. -/
def SourceInstr.direct? : SourceInstr → Option AddressExpr
  | load _ _ (.direct target) | store _ _ (.direct target) => some target
  | _ => none

/-- Whatever it holds, a machine with a program that comes to an address executes the load or store
there, from start to end, as one of the bytes at `a`. -/
def Program.Accesses (p : Program) (i : SourceInstr) (address : Nat) (a : Address) : Prop :=
  ∀ m : Machine, m.Follows p → m.memory.LaidOut → m.state.isTerminal = false →
    m.pc = UInt32.ofNat address → m.Accesses address a i (m.stepped 2)

/-! ## Executing -/

namespace Machine

variable {m : Machine} {p : Program} {address : Nat} {a : Word} {width : Width} {rt : Reg}

/-- The machine that has an upper base in its scratch register. -/
theorem Attempts.based (h : m.Attempts p (.lui Reg.scratch a.upperBase)) :
    m.stepIn.2 = (m.apply (Effect.sets Reg.scratch a.upperValue)).enter (.paused .step) :=
  h.isAt.stepIn_ok ⟨nofun, nofun⟩ rfl

theorem Attempts.based_registers (h : m.Attempts p (.lui Reg.scratch a.upperBase)) :
    m.stepIn.2.registers = m.registers.set Reg.scratch a.upperValue := by
  rw [h.based]
  rfl

theorem Attempts.based_memory (h : m.Attempts p (.lui Reg.scratch a.upperBase)) :
    m.stepIn.2.memory = m.memory := by
  rw [h.based]
  rfl

theorem Attempts.behindBase (h : m.Attempts p (.lui Reg.scratch a.upperBase)) {i : Instr}
    (hsecond : p.instrAt? (m.pc + 4) = some i) : m.stepIn.2.Attempts p i :=
  h.next (h.moved ⟨nofun, nofun⟩ rfl rfl) hsecond

/-- The second instruction adds the lower half to what the first one has put down. -/
theorem displace_scratch (regs : Registers) (a : Word) :
    Address.displace ((regs.set Reg.scratch a.upperValue).get Reg.scratch) a.lowerOffset.value =
      a := by
  rw [Registers.get_set_self _ _ (by decide), Word.displace_upperValue]

/-- The machine after an access that has failed behind the first instruction. -/
theorem Attempts.refused (h : m.Attempts p (.lui Reg.scratch a.upperBase)) {i : Instr}
    (hsecond : p.instrAt? (m.pc + 4) = some i) (hplain : i ≠ .syscall ∧ i ≠ .brk)
    (hpc : m.pc = UInt32.ofNat address) {e : MemoryError}
    (heffect : i.effect m.stepIn.2.pc m.stepIn.2.flags.trapOverflow m.stepIn.2.registers
      m.stepIn.2.memory = .error (.memory e)) :
    m.Refused address e (m.stepped 2) := by
  have hnext : m.pc + 4 = UInt32.ofNat (address + 4) := by
    rw [hpc]
    exact (UInt32.ofNat_add address 4).symm
  have hstepped : m.stepped 2 =
      m.stepIn.2.enter (.faulted (m.stepIn.2.faultOf (.memory e))) :=
    (h.behindBase hsecond).isAt.stepIn_error hplain heffect
  rw [hstepped, h.based]
  refine ⟨?_, rfl, hnext, rfl, ?_, ?_, ?_, rfl⟩
  · exact congrArg (fun pc => ExecState.faulted ⟨pc, m.program.bind (·.lineAt? pc), _⟩) hnext
  · exact fun r hr => Registers.get_set_ne _ _ hr.symm
  · exact Registers.set_hi _ _ _
  · exact Registers.set_lo _ _ _

/-- The machine after an access that has an effect on one register or on memory. -/
theorem Attempts.accessed (h : m.Attempts p (.lui Reg.scratch a.upperBase)) {i : Instr}
    (hsecond : p.instrAt? (m.pc + 4) = some i) (hplain : i ≠ .syscall ∧ i ≠ .brk)
    (hpc : m.pc = UInt32.ofNat address) {register : Option (Reg × Word)}
    {store : Option (Place × List UInt8)}
    (heffect : i.effect m.stepIn.2.pc m.stepIn.2.flags.trapOverflow m.stepIn.2.registers
      m.stepIn.2.memory = .ok { register, store }) :
    m.Accessed address ((register.map Prod.fst).toList ++ [Reg.scratch])
      (({ register, store } : Effect).onMemory m.memory).flat (m.stepped 2) ∧
    ∀ rt value, register = some (rt, value) → rt ≠ Reg.zero →
      (m.stepped 2).registers.get rt = value := by
  have hnext : m.pc + 4 + 4 = UInt32.ofNat (address + 8) := by
    rw [hpc, UInt32.ofNat_add, UInt32.add_assoc]
    rfl
  have hstepped : m.stepped 2 = (m.stepIn.2.apply { register, store }).enter (.paused .step) :=
    (h.behindBase hsecond).isAt.stepIn_ok hplain heffect
  rw [hstepped, h.based]
  cases register with
  | none =>
    refine ⟨⟨rfl, rfl, hnext, rfl, fun r hr => ?_, ?_, ?_, rfl⟩, nofun⟩
    · exact Registers.get_set_ne _ _ fun heq => hr (heq ▸ List.mem_singleton_self _)
    · exact Registers.set_hi _ _ _
    · exact Registers.set_lo _ _ _
  | some changed =>
    obtain ⟨rd, loaded⟩ := changed
    refine ⟨⟨rfl, rfl, hnext, rfl, fun r hr => ?_, ?_, ?_, rfl⟩, fun rt value hvalue hzero => ?_⟩
    · have hrd : rd ≠ r := fun heq => hr (heq ▸ List.mem_cons_self)
      have hscratch : Reg.scratch ≠ r :=
        fun heq => hr (heq ▸ List.mem_cons_of_mem _ (List.mem_singleton_self _))
      exact (Registers.get_set_ne _ _ hrd).trans (Registers.get_set_ne _ _ hscratch)
    · exact (Registers.set_hi _ _ _).trans (Registers.set_hi _ _ _)
    · exact (Registers.set_lo _ _ _).trans (Registers.set_lo _ _ _)
    · obtain ⟨rfl, rfl⟩ := Prod.mk.inj (Option.some.inj hvalue)
      exact Registers.get_set_self _ _ hzero

/-- What the load behind an upper base does, told from the memory before both. -/
theorem Attempts.load_effect (h : m.Attempts p (.lui Reg.scratch a.upperBase)) (width : Width)
    (rt : Reg) :
    (Instr.load width rt Reg.scratch a.lowerOffset).effect m.stepIn.2.pc
        m.stepIn.2.flags.trapOverflow m.stepIn.2.registers m.stepIn.2.memory =
      ((m.memory.read a width.size).map fun n => Effect.sets rt (width.extend n)).mapError
        .memory := by
  rw [Instr.effect, h.based_registers, h.based_memory, displace_scratch]
  cases m.memory.read a width.size <;> rfl

/-- An upper base and the load behind it. -/
theorem Attempts.loadsFrom (h : m.Attempts p (.lui Reg.scratch a.upperBase))
    (hsecond : p.instrAt? (m.pc + 4) = some (.load width rt Reg.scratch a.lowerOffset))
    (hlaid : m.memory.LaidOut) (hpc : m.pc = UInt32.ofNat address) :
    m.LoadsFrom address a width.size rt (loadedValue width rt) (m.stepped 2) := by
  have heffect := h.load_effect width rt
  rw [Memory.read_flat hlaid] at heffect
  unfold LoadsFrom
  cases hread : m.memory.flat.read a width.size with
  | error e =>
    rw [hread] at heffect
    exact h.refused hsecond ⟨nofun, nofun⟩ hpc heffect
  | ok n =>
    rw [hread] at heffect
    obtain ⟨haccessed, hvalue⟩ := h.accessed hsecond ⟨nofun, nofun⟩ hpc heffect
    refine ⟨haccessed, ?_⟩
    unfold loadedValue
    split
    · next hzero =>
      rw [hzero]
      exact Registers.get_zero _
    · next hzero =>
      rw [← width.extend_eq (FlatMemory.read_lt hread)]
      exact hvalue rt _ rfl hzero

/-- What the store behind an upper base does, told from the memory before both. -/
theorem Attempts.store_effect (h : m.Attempts p (.lui Reg.scratch a.upperBase))
    {bytes : List UInt8} (hbytes : bytes =
      width.unextended.storedBytes ((m.registers.set Reg.scratch a.upperValue).get rt)) :
    (Instr.store width.unextended rt Reg.scratch a.lowerOffset).effect m.stepIn.2.pc
        m.stepIn.2.flags.trapOverflow m.stepIn.2.registers m.stepIn.2.memory =
      ((m.memory.locateWritable a bytes.length).map fun place =>
        ({ store := some (place, bytes) } : Effect)).mapError .memory := by
  rw [Instr.effect, h.based_registers, h.based_memory, displace_scratch, hbytes,
    Width.storedBytes_length]
  cases m.memory.locateWritable a width.unextended.size <;> rfl

/-- An upper base and the store behind it. -/
theorem Attempts.storesTo (h : m.Attempts p (.lui Reg.scratch a.upperBase))
    (hsecond : p.instrAt? (m.pc + 4) =
      some (.store width.unextended rt Reg.scratch a.lowerOffset))
    (hlaid : m.memory.LaidOut) (hpc : m.pc = UInt32.ofNat address) :
    m.StoresTo address a ((Word.bytes (m.storedValue a rt)).drop (4 - width.size))
      (m.stepped 2) := by
  have hvalue : (m.registers.set Reg.scratch a.upperValue).get rt = m.storedValue a rt := by
    unfold storedValue
    split
    · next hscratch =>
      rw [hscratch]
      exact Registers.get_set_self _ _ (by decide)
    · next hscratch => exact Registers.get_set_ne _ _ fun heq => hscratch heq.symm
  have hbytes : (Word.bytes (m.storedValue a rt)).drop (4 - width.size) =
      width.unextended.storedBytes ((m.registers.set Reg.scratch a.upperValue).get rt) := by
    rw [hvalue, Width.storedBytes, width.unextended_size]
  have heffect := h.store_effect hbytes
  generalize (Word.bytes (m.storedValue a rt)).drop (4 - width.size) = bytes at heffect ⊢
  unfold StoresTo FlatMemory.write
  rcases m.memory.locateWritable_cases a bytes.length with
    ⟨e, hlocate, herror⟩ | ⟨region, hlocate, herror, hin⟩
  · rw [herror]
    rw [hlocate] at heffect
    exact h.refused hsecond ⟨nofun, nofun⟩ hpc heffect
  · rw [herror]
    rw [hlocate] at heffect
    have haccessed := (h.accessed hsecond ⟨nofun, nofun⟩ hpc heffect).1
    show m.Accessed address [Reg.scratch] (m.memory.flat.put a.toNat bytes) _
    rw [← Memory.flat_overwrite hlaid hin]
    exact haccessed

end Machine

/-! ## Machines in use -/

/-- A memory that has grown from one whose regions are apart still has them apart. -/
theorem Memory.GrownFrom.laidOut {initial m : Memory} (h : initial.GrownFrom m)
    (hinitial : initial.LaidOut) : m.LaidOut where
  text := by
    unfold textEnd
    rw [h.text]
    exact hinitial.text
  heap := h.room
  stack := h.apart
  stackSize := by
    rw [h.stack]
    exact hinitial.stackSize

/-- Whatever is done to a machine with an assembled program, the regions of its memory are apart. -/
theorem Machine.laidOut_after (source : Source) (start : Machine) (operations : List Operation) :
    ((start.load (assemble source).program).after operations).memory.LaidOut := by
  generalize hp : (assemble source).program = p
  have hnormal : ∀ i ∈ p.text.toList, i.Normal :=
    hp ▸ Program.ofStatements_normal _ source
  obtain ⟨htext, hdata⟩ : 4 * p.text.size ≤ segmentLimit ∧ p.data.size ≤ segmentLimit :=
    hp ▸ Program.ofStatements_fits _ source
  have hinitial : (initialMemory start.flags (some p)).GrownFrom (start.load p).memory :=
    grownFrom_initial htext hdata start.flags
  have hgrown := grownFrom_after hnormal htext hdata (follows_reset rfl) hinitial operations
  have hlaid (flags : Flags) : (initialMemory flags (some p)).LaidOut :=
    Memory.laidOut_create p.words p.data flags.heapBudget flags.stackBudget flags.init
      (by rwa [p.words_length]) hdata
  exact hgrown.laidOut (hlaid _)

/-! ## All loads and stores with an address -/

/-- In a source without problems, every load or store whose operand is an address is put somewhere,
and from there a machine with the program executes it as an access to exactly the bytes at that
address. A load puts the number there into its register, extended as its width says, and a store
puts the low bytes of its register there; nothing else changes but the scratch register. If the
bytes cannot be accessed, their error is the fault, and memory stays as it was. Two registers are
special: what is loaded into `$zero` is lost, and the scratch register is stored with the upper part
of the address in it. -/
theorem direct_operands_access {source : Source} (hok : (assemble source).isOk = true)
    {before : List Statement} {s : Statement}
    (hstands : before ++ [s] <+: (parse source.chars).1) {i : SourceInstr}
    (hbody : s.body = some (.instr i)) {target : AddressExpr}
    (hdirect : i.direct? = some target) :
    let p := (assemble source).program
    ∃ address a, Emits (parse source.chars).1 source before s address ∧
      p.symbols.resolveExpr target = .ok a ∧ p.Accesses i address a := by
  intro p
  obtain ⟨address, h, instrs, hexpand⟩ := emits_of_isOk hok hstands hbody
  have hnext : UInt32.ofNat address + 4 = UInt32.ofNat (address + 4) :=
    (UInt32.ofNat_add address 4).symm
  cases i with
  | load width rt operand =>
    cases operand with
    | based => exact nomatch hdirect
    | direct expr =>
      cases hdirect
      obtain ⟨a, hresolve, hinstrs⟩ := bind_ok_inv hexpand
      obtain rfl := Except.ok.inj hinstrs
      refine ⟨address, a, h, hresolve, fun m hm hlaid hstate hpc => ?_⟩
      have hsecond := h.instrAt? hbody hexpand (k := 1) (Nat.lt_succ_self 1)
      rw [Nat.mul_one, ← hnext, ← hpc] at hsecond
      exact (h.attempts hbody hexpand hm hstate hpc).loadsFrom hsecond hlaid hpc
  | store width rt operand =>
    cases operand with
    | based => exact nomatch hdirect
    | direct expr =>
      cases hdirect
      obtain ⟨a, hresolve, hinstrs⟩ := bind_ok_inv hexpand
      obtain rfl := Except.ok.inj hinstrs
      refine ⟨address, a, h, hresolve, fun m hm hlaid hstate hpc => ?_⟩
      have hsecond := h.instrAt? hbody hexpand (k := 1) (Nat.lt_succ_self 1)
      rw [Nat.mul_one, ← hnext, ← hpc] at hsecond
      exact (h.attempts hbody hexpand hm hstate hpc).storesTo hsecond hlaid hpc
  | _ => exact nomatch hdirect

/-- A half word with its sign into the scratch register itself. -/
theorem direct_operands_access_scratch :
    let source : Source := .ofString ".data\nv: .half 1, -2\n.text\nmain: lh $at, v+2"
    let m := (Machine.create { stackBudget := 0 }).load (assemble source).program
    (m.stepped 2).registers.get Reg.scratch = 0xFFFFFFFE ∧
      (m.stepped 2).registers.get Reg.ra = 0 := by
  intro source m
  let p := (assemble source).program
  let before : List Statement :=
    [⟨[], some (.directive .data), ⟨0, 5⟩⟩,
      ⟨[⟨"v", 6⟩], some (.directive (.half [1, 0xFFFE])), ⟨9, 20⟩⟩,
      ⟨[], some (.directive .text), ⟨21, 26⟩⟩]
  let target : AddressExpr := .label ⟨"v", 41⟩ 2
  let i : SourceInstr := .load .half Reg.scratch (.direct target)
  let s : Statement := ⟨[⟨"main", 27⟩], some (.instr i), ⟨33, 44⟩⟩
  obtain ⟨hok, hstands, ha, hpc, hread, hra⟩ : (assemble source).isOk = true ∧
      before ++ [s] <+: (parse source.chars).1 ∧
      p.symbols.resolveExpr target = .ok 0x10010002 ∧
      m.pc = UInt32.ofNat 0x00400000 ∧
      m.memory.flat.read 0x10010002 2 = .ok 0xFFFE ∧
      m.registers.get Reg.ra = 0 := by decide +kernel
  have hdirect : i.direct? = some target := rfl
  obtain ⟨address, a, hemits, hresolve, haccesses⟩ :=
    direct_operands_access hok hstands rfl hdirect
  have haddress : some 0x00400000 = some address := by
    rw [← hemits.placed]
    decide +kernel
  obtain rfl := Option.some.inj haddress
  obtain rfl := Except.ok.inj (ha.symm.trans hresolve)
  have hfollows : m.Follows p := Machine.follows_reset rfl
  have hlaid : m.memory.LaidOut := Machine.laidOut_after source _ []
  have hloads : m.LoadsFrom 0x00400000 0x10010002 2 Reg.scratch
      (Machine.loadedValue .half Reg.scratch) (m.stepped 2) := haccesses m hfollows hlaid rfl hpc
  unfold Machine.LoadsFrom at hloads
  rw [hread] at hloads
  obtain ⟨haccessed, hvalue⟩ := hloads
  exact ⟨hvalue.trans (by decide), (haccessed.general Reg.ra (by decide)).trans hra⟩

/-- A store of the scratch register does not store what it has held before, and a load into `$zero`
does not leave there what it reads. -/
theorem direct_operands_exceptions :
    let source : Source := .ofString
      ".data\nv: .word 7\n.text\nmain: lw $zero, v\nli $at, 5\nsw $at, v"
    let m := (Machine.create { stackBudget := 0 }).load (assemble source).program
    (assemble source).isOk = true ∧
      ¬m.LoadsFrom 0x00400000 0x10010000 4 Reg.zero
        (fun n => Word.ofInt (Width.word.meaning n)) (m.stepped 2) ∧
      ¬(m.stepped 3).StoresTo 0x0040000C 0x10010000
        (Word.bytes ((m.stepped 3).registers.get Reg.scratch)) ((m.stepped 3).stepped 2) := by
  intro source m
  obtain ⟨hok, hread, hwrite, hvalue, hstored⟩ : (assemble source).isOk = true ∧
      m.memory.flat.read 0x10010000 4 = .ok 7 ∧
      (m.stepped 3).memory.flat.writeError? 0x10010000 4 = none ∧
      (m.stepped 3).registers.get Reg.scratch = 5 ∧
      ((m.stepped 3).stepped 2).memory.flat.byte? 0x10010003 = some 0 := by decide +kernel
  refine ⟨hok, fun hloads => ?_, fun hstores => ?_⟩
  · unfold Machine.LoadsFrom at hloads
    rw [hread] at hloads
    have hzero := (m.stepped 2).registers.get_zero
    exact absurd (hzero.symm.trans hloads.2) (by decide)
  · unfold Machine.StoresTo FlatMemory.write at hstores
    rw [hvalue, show (Word.bytes 5).length = 4 from rfl, hwrite] at hstores
    have hbyte := congrArg (·.byte? 0x10010003) hstores.memory
    exact absurd (hstored.symm.trans hbyte) (by decide +kernel)

end MipsLab
