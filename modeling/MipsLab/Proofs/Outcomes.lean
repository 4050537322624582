import MipsLab.Machine.Run
import MipsLab.Proofs.Changes

/-!
# What an instruction comes to

An instruction works on the machine in place, and may fail after it has changed something. Here is
what it comes to in one piece: what it changes is first worked out from the machine as it was
(`Instr.effect`), which may fail, and then applied (`Machine.apply`), which cannot; services are
described likewise. That this is what the instructions do is a fact about each of them: none changes
anything but the input before its last check, and what the machine changes itself, by going on to
the next instruction beforehand, it takes back.

1. `Machine.outcome`: what an instruction comes to, in one piece.
2. `Machine.carryOut_syscall`: what the services come to.
3. `Machine.execute_eq_outcome`: executing an instruction in place comes to the same.
-/

namespace MipsLab

theorem Width.storedBytes_length (width : Width) (w : Word) :
    (width.storedBytes w).length = width.size := by
  cases width <;> rfl

/-! ## Effects -/

/-- What an instruction does to the open calls. -/
inductive CallChange
  | keep
  /-- Opens a call of an address. -/
  | opens (callee : Address)
  | closes
  deriving DecidableEq, Repr

/-- What an instruction changes, beside going on to the next one. -/
structure Effect where
  register : Option (Reg × Word) := none
  hi : Option Word := none
  lo : Option Word := none
  /-- A place in memory and the bytes that it gets. -/
  store : Option (Place × List UInt8) := none
  call : CallChange := .keep
  /-- The address of the next instruction, if it is not the one behind this. -/
  jump : Option Address := none
  deriving DecidableEq, Repr

namespace Effect

def sets (r : Reg) (value : Word) : Effect := { register := some (r, value) }

end Effect

namespace Instr

def effect (i : Instr) (pc : Address) (trap : Bool) (regs : Registers) (memory : Memory) :
    Except ExecError Effect :=
  let next : Address := pc + 4
  match i with
  | alu op rd rs rt => (op.compute trap (regs.get rs) (regs.get rt)).map (Effect.sets rd)
  | shift op rd rt amount => .ok (Effect.sets rd (op.compute (regs.get rt) amount.toNat))
  | jr rs =>
    .ok { call := if rs = Reg.ra then .closes else .keep, jump := some (regs.get rs) }
  | jalr rd rs =>
    .ok { register := some (rd, next), call := .opens (regs.get rs), jump := some (regs.get rs) }
  | mulDiv op rs rt =>
    (op.compute (regs.get rs) (regs.get rt)).map fun (hi, lo) => { hi := some hi, lo := some lo }
  | moveFrom .hi rd => .ok (Effect.sets rd regs.hi)
  | moveFrom .lo rd => .ok (Effect.sets rd regs.lo)
  | moveTo .hi rs => .ok { hi := some (regs.get rs) }
  | moveTo .lo rs => .ok { lo := some (regs.get rs) }
  | syscall => .ok {}
  | brk => .ok {}
  | aluImm op rt rs imm =>
    (op.compute trap (regs.get rs) (extendedImm op imm)).map (Effect.sets rt)
  | lui rt imm => .ok (Effect.sets rt (UInt32.ofNat (imm.toNat * 0x10000)))
  | branch cond rs rt offset =>
    if cond.holds (regs.get rs) (regs.get rt) then
      .ok { jump := some (Address.displace next (offset.value * 4)) }
    else .ok {}
  | load width rt base offset =>
    match memory.read (Address.displace (regs.get base) offset.value) width.size with
    | .ok n => .ok (Effect.sets rt (width.extend n))
    | .error e => .error (.memory e)
  | store width rt base offset =>
    match memory.locateWritable (Address.displace (regs.get base) offset.value) width.size with
    | .ok place => .ok { store := some (place, width.storedBytes (regs.get rt)) }
    | .error e => .error (.memory e)
  | j index => .ok { jump := some (jumpTarget next index) }
  | jal index =>
    .ok { register := some (Reg.ra, next), call := .opens (jumpTarget next index)
          jump := some (jumpTarget next index) }

end Instr

namespace Effect

def onRegisters (e : Effect) (regs : Registers) : Registers :=
  let regs :=
    match e.register with
    | some (r, value) => regs.set r value
    | none => regs
  { regs with hi := e.hi.getD regs.hi, lo := e.lo.getD regs.lo }

def onMemory (e : Effect) (memory : Memory) : Memory :=
  match e.store with
  | some (place, bytes) => memory.overwrite place bytes
  | none => memory

/-- The open calls after an effect of the instruction at `pc`; `regs` are the registers after it. -/
def onCalls (e : Effect) (pc : Address) (regs : Registers) (calls : CallStack) : CallStack :=
  match e.call with
  | .keep => calls
  | .opens callee => calls.push pc callee regs
  | .closes => calls.pop

end Effect

namespace Machine

/-- Completes the current instruction: it is counted and told to the observers, and the machine goes
on at an address. -/
def complete (m : Machine) (next : Address) : Machine :=
  { m with
    pc := next
    completed := m.completed + 1
    events := m.events.emit (.executed m.pc) }

/-- Applies the effect of the current instruction. -/
def apply (m : Machine) (e : Effect) : Machine :=
  let registers := e.onRegisters m.registers
  { m with
    registers
    memory := e.onMemory m.memory
    calls := e.onCalls m.pc registers m.calls }.complete (e.jump.getD (m.pc + 4))

/-! ## Services -/

/-- Completes an instruction that does not jump. -/
def goOn (m : Machine) : StepEnd × Machine := (.ran, m.complete (m.pc + 4))

def exit (m : Machine) (code : Int) : StepEnd × Machine :=
  (.stopped (.halt (.exit code)), m.complete (m.pc + 4))

def print (m : Machine) (write : Console → Console) : StepEnd × Machine :=
  { m with console := write m.console }.goOn

/-- Reads from the console, and goes on with what was read. -/
def read {α : Type} (m : Machine) (request : Console → ReadOutcome α × Console)
    (next : Machine → α → StepEnd × Machine) : StepEnd × Machine :=
  let (outcome, console) := request m.console
  let m := { m with console }
  match outcome with
  | .done value => next m value
  | .failed e => (.stopped (Stop.ofReadError e), m)
  | .waiting => (.waiting, m)

/-- Puts the result of a service into `$v0`. -/
def answer (m : Machine) (value : Word) : StepEnd × Machine := (m.setRegister Reg.v0 value).goOn

def putBytes (m : Machine) (a : Address) (bytes : List UInt8) : StepEnd × Machine :=
  match m.memory.writeBytes a bytes with
  | .ok memory => { m with memory }.goOn
  | .error e => m.fail (.memory e)

/-- Reads a line into a buffer. A buffer of one byte gets a zero and takes no line, and one of no
bytes gets nothing. -/
def readLineInto (m : Machine) (a : Address) (size : Int) : StepEnd × Machine :=
  if size ≤ 0 then m.goOn
  else if size = 1 then m.putBytes a [0]
  else m.read Console.readLine fun m line => m.putBytes a (lineBytes line size.toNat)

/-- Lets the heap grow, and answers where the new part starts. -/
def growHeap (m : Machine) (requested : Word) : StepEnd × Machine :=
  let amount := heapRequest requested
  match m.memory.heapError? amount with
  | some e => m.fail (.memory (.heap e))
  | none =>
    let old := m.memory.brk
    { m with
      memory := m.memory.extendHeap amount
      events := m.events.emit (.heapGrew (UInt32.ofNat old) (UInt32.ofNat (old + amount)))
    }.answer (UInt32.ofNat old)

/-- Prints the bytes from an address on up to a zero. -/
def printString (m : Machine) (a : Address) : StepEnd × Machine :=
  match m.memory.readString a with
  | .ok bytes => m.print (·.write .stdout bytes.toList)
  | .error e => m.fail (.memory e)

/-- Provides the service that a program asks for. -/
def syscall (m : Machine) : StepEnd × Machine :=
  let code := m.registers.get Reg.v0
  let arg := m.registers.get Reg.a0
  match code.toNat with
  | 1 => m.print (·.printInt .stdout (Word.signed arg))
  | 4 => m.printString arg
  | 5 => m.read Console.readInt fun m n => m.answer (Word.ofInt n)
  | 8 => m.readLineInto arg (Word.signed (m.registers.get Reg.a1))
  | 9 => m.growHeap arg
  | 10 => m.exit 0
  | 11 => m.print (·.printChar .stdout (UInt8.ofNat arg.toNat))
  | 12 => m.read Console.readChar fun m b => m.answer (UInt32.ofNat b.toNat)
  | 17 => m.exit (Word.signed arg)
  | _ => m.fail (.invalidSyscall code)

/-! ## Instructions -/

/-- What an instruction that stands at the current address comes to. -/
def outcome (m : Machine) : Instr → StepEnd × Machine
  | .syscall => m.syscall
  | .brk => (.stopped .pause, m.complete (m.pc + 4))
  | i =>
    match i.effect m.pc m.flags.trapOverflow m.registers m.memory with
    | .ok effect => (.ran, m.apply effect)
    | .error e => m.fail e

/-! ## In place -/

variable (m : Machine)

/-- Work that looks at the machine sees that its address has been moved on, and no other change. -/
theorem carryOut_get (work : Machine → Work Unit) :
    m.carryOut (get >>= work) = m.carryOut (work (m.setPc (m.pc + 4))) := rfl

theorem carryOut_register (r : Reg) (work : Word → Work Unit) :
    m.carryOut (Work.register r >>= work) = m.carryOut (work (m.registers.get r)) :=
  m.carryOut_get fun m => work (m.registers.get r)

theorem carryOut_trapsOverflow (work : Bool → Work Unit) :
    m.carryOut (Work.trapsOverflow >>= work) = m.carryOut (work m.flags.trapOverflow) :=
  m.carryOut_get fun m => work m.flags.trapOverflow

/-- Work that begins with a computation that may fail either goes on with its value, or leaves the
machine as it was. -/
theorem carryOut_orFail {α : Type} (x : Except ExecError α) (work : α → Work Unit) :
    m.carryOut (Work.orFail x >>= work) =
      match x with
      | .ok value => m.carryOut (work value)
      | .error e => m.fail e := by
  cases x <;> rfl

theorem carryOut_onMemory {α : Type} (read : Memory → Except MemoryError α)
    (work : α → Work Unit) :
    m.carryOut (Work.onMemory read >>= work) =
      match read m.memory with
      | .ok value => m.carryOut (work value)
      | .error e => m.fail (.memory e) := by
  show m.carryOut (Work.orFail ((read m.memory).mapError .memory) >>= work) = _
  rw [carryOut_orFail]
  cases read m.memory <;> rfl

/-! ## Services in place -/

theorem carryOut_print (write : Console → Console) :
    m.carryOut (Work.print write) = m.print write := rfl

theorem carryOut_printString (a : Address) :
    m.carryOut (Work.printString a) = m.printString a := by
  unfold Work.printString printString
  rw [carryOut_onMemory]
  cases m.memory.readString a <;> rfl

theorem read_run {α : Type} (request : Console → ReadOutcome α × Console) :
    (Work.read request).run m =
      match request m.console with
      | (.done value, console) => .ok value { m with console }
      | (.failed e, console) => .error (.stopped (Stop.ofReadError e)) { m with console }
      | (.waiting, console) => .error .waiting { m with console } := by
  unfold Work.read EStateM.run
  dsimp only
  generalize request m.console = answered
  obtain ⟨outcome, console⟩ := answered
  cases outcome <;> rfl

theorem carryOut_read {α : Type} (request : Console → ReadOutcome α × Console)
    {work : α → Work Unit} {next : Machine → α → StepEnd × Machine}
    (hnext : ∀ (m : Machine) value, m.carryOut (work value) = next m value) :
    m.carryOut (Work.read request >>= work) = m.read request next := by
  have hread := read_run (m.setPc (m.pc + 4)) request
  rw [show (m.setPc (m.pc + 4)).console = m.console from rfl] at hread
  unfold carryOut read
  cases hanswered : request m.console with
  | mk outcome console =>
    rw [hanswered] at hread
    cases outcome with
    | done value =>
      rw [run_bind_ok hread]
      exact hnext { m with console } value
    | failed e =>
      rw [run_bind_error hread]
      cases e <;> rfl
    | waiting =>
      rw [run_bind_error hread]
      rfl

theorem change_run {α : Type} (c : Memory.Change α) :
    (Work.change c).run m =
      match c.run m.memory with
      | .ok value memory => .ok value { m with memory }
      | .error e memory => .error (.stopped (.fault (.memory e))) { m with memory } := rfl

/-- A change of memory that replaces all that it should, or else nothing. -/
theorem carryOut_settled {c : Memory.Change Unit} {written : Except MemoryError Memory} :
    c.run m.memory = m.memory.settled written →
      m.carryOut (Work.change c) =
        match written with
        | .ok memory => { m with memory }.goOn
        | .error e => m.fail (.memory e) := by
  intro hsettled
  unfold carryOut
  rw [change_run, show (m.setPc (m.pc + 4)).memory = m.memory from rfl, hsettled]
  cases written <;> rfl

theorem carryOut_write (a : Address) (bytes : List UInt8) :
    m.carryOut (Work.change (.write a bytes)) =
      match m.memory.locateWritable a bytes.length with
      | .ok place => { m with memory := m.memory.overwrite place bytes }.goOn
      | .error e => m.fail (.memory e) := by
  rw [m.carryOut_settled (Memory.Change.write_run m.memory a bytes)]
  unfold Memory.write
  cases m.memory.locateWritable a bytes.length <;> rfl

theorem carryOut_writeBytes (a : Address) (bytes : List UInt8) :
    m.carryOut (Work.change (.writeBytes a bytes)) = m.putBytes a bytes := by
  rewrite [m.carryOut_settled (Memory.Change.writeBytes_run m.memory a bytes)]
  rfl

theorem carryOut_readLineInto (a : Address) (size : Int) :
    m.carryOut (Work.readLineInto a size) = m.readLineInto a size := by
  unfold Work.readLineInto readLineInto
  by_cases hnone : size ≤ 0
  · rw [if_pos hnone, if_pos hnone]
    rfl
  · rw [if_neg hnone, if_neg hnone]
    by_cases hone : size = 1
    · rw [if_pos hone, if_pos hone]
      exact m.carryOut_writeBytes a [0]
    · rw [if_neg hone, if_neg hone]
      exact m.carryOut_read _ fun m line => m.carryOut_writeBytes a _

/-- A change of memory on which more follows. -/
theorem carryOut_change {α : Type} (c : Memory.Change α) (work : α → Work Unit) :
    m.carryOut (Work.change c >>= work) =
      match c.run m.memory with
      | .ok value memory => { m with memory }.carryOut (work value)
      | .error e memory => { m with memory }.fail (.memory e) := by
  have hchange := change_run (m.setPc (m.pc + 4)) c
  rw [show (m.setPc (m.pc + 4)).memory = m.memory from rfl] at hchange
  unfold carryOut
  cases hrun : c.run m.memory with
  | ok value memory =>
    rw [hrun] at hchange
    rw [run_bind_ok hchange]
    rfl
  | error e memory =>
    rw [hrun] at hchange
    rw [run_bind_error hchange]
    rfl

theorem carryOut_growHeap (requested : Word) :
    m.carryOut (Work.growHeap requested) = m.growHeap requested := by
  unfold Work.growHeap growHeap
  rw [carryOut_get, carryOut_change,
    show (m.setPc (m.pc + 4)).memory = m.memory from rfl, Memory.Change.growHeap_run]
  dsimp only
  cases m.memory.heapError? (heapRequest requested) <;> rfl

theorem carryOut_service (code : Word) (h : m.registers.get Reg.v0 = code) :
    m.carryOut (Work.service code (m.registers.get Reg.a0)) = m.syscall := by
  unfold Work.service syscall
  simp only [h]
  generalize code.toNat = number
  split
  · exact m.carryOut_print _
  · exact m.carryOut_printString _
  · exact m.carryOut_read _ fun _ _ => rfl
  · exact (m.carryOut_register _ _).trans (m.carryOut_readLineInto _ _)
  · exact m.carryOut_growHeap _
  · rfl
  · rfl
  · exact m.carryOut_read _ fun _ _ => rfl
  · rfl
  -- The other codes, of which neither side knows any.
  · repeat' split
    all_goals first | rfl | contradiction

theorem execute_jr (rs : Reg) : m.execute (.jr rs) = m.outcome (.jr rs) := by
  by_cases hreturn : rs = Reg.ra
  · subst hreturn
    rfl
  · unfold execute
    simp only [Instr.work, outcome, Instr.effect, if_neg hreturn]
    rfl

/-- A word that is written from outside is put down, or the machine stays as it was. -/
theorem writeWord_eq (a : Address) (value : Word) :
    (m.writeWord a value).2 =
      match m.memory.locateWritable a 4 with
      | .ok place => { m with memory := m.memory.overwrite place (Word.bytes value) }
      | .error _ => m := by
  have hwrite := Memory.Change.write_run m.memory a (Word.bytes value)
  unfold writeWord Memory.Change.writeWord
  rw [hwrite]
  unfold Memory.write
  rw [Word.bytes_length]
  cases m.memory.locateWritable a 4 <;> rfl

/-- Executing an instruction in place comes to what it comes to in one piece. -/
theorem execute_eq_outcome (i : Instr) : m.execute i = m.outcome i := by
  unfold execute
  cases i with
  | alu op rd rs rt =>
    simp only [Instr.work, outcome, Instr.effect, carryOut_register,
      carryOut_trapsOverflow, carryOut_orFail]
    cases op.compute m.flags.trapOverflow (m.registers.get rs) (m.registers.get rt) <;> rfl
  | shift op rd rt amount => rfl
  | jr rs => exact m.execute_jr rs
  | jalr rd rs => rfl
  | mulDiv op rs rt =>
    simp only [Instr.work, outcome, Instr.effect, carryOut_register, carryOut_orFail]
    cases op.compute (m.registers.get rs) (m.registers.get rt) <;> rfl
  | moveFrom part rd => cases part <;> rfl
  | moveTo part rs => cases part <;> rfl
  | syscall =>
    simp only [Instr.work, Work.syscall, carryOut_register]
    exact m.carryOut_service _ rfl
  | brk => rfl
  | aluImm op rt rs imm =>
    simp only [Instr.work, outcome, Instr.effect, carryOut_register,
      carryOut_trapsOverflow, carryOut_orFail]
    cases op.compute m.flags.trapOverflow (m.registers.get rs) (Instr.extendedImm op imm) <;> rfl
  | lui rt imm => rfl
  | branch cond rs rt offset =>
    simp only [Instr.work, outcome, Instr.effect, carryOut_register]
    cases cond.holds (m.registers.get rs) (m.registers.get rt) <;> rfl
  | load width rt base offset =>
    simp only [Instr.work, outcome, Instr.effect, carryOut_register, carryOut_onMemory]
    cases m.memory.read (Address.displace (m.registers.get base) offset.value) width.size <;> rfl
  | store width rt base offset =>
    simp only [Instr.work, outcome, Instr.effect, carryOut_register]
    rw [carryOut_write, width.storedBytes_length]
    cases m.memory.locateWritable _ width.size <;> rfl
  | j index => rfl
  | jal index => rfl

end Machine

end MipsLab
