import MipsLab.Machine.Arithmetic
import MipsLab.Machine.Syscall

/-!
# Executing instructions

What each instruction does to the machine, and how the machine goes on after it. The address of the
next instruction is that of the one behind it before the instruction does anything; a jump changes
it once more. Only if the instruction is not completed is it put back.
-/

namespace MipsLab

namespace Instr

/-- Where a jump leads: to a word of the region of the instruction after it. -/
def jumpTarget (next : Address) (index : Word) : Address :=
  UInt32.ofNat (next.toNat / 0x10000000 * 0x10000000 + index.toNat * 4)

/-- What an instruction at an address does, once the machine has gone on to the one behind it. -/
def work (i : Instr) (pc : Address) : Work Unit :=
  let next : Address := pc + 4
  match i with
  | alu op rd rs rt => do
    let s ← Work.register rs
    let t ← Work.register rt
    let value ← Work.orFail (op.compute (← Work.trapsOverflow) s t)
    Work.setRegister rd value
  | shift op rd rt amount => do
    let t ← Work.register rt
    Work.setRegister rd (op.compute t amount.toNat)
  | jr rs => do
    if rs = Reg.ra then Work.closeCall
    Work.jump (← Work.register rs)
  | jalr rd rs => do
    let target ← Work.register rs
    Work.setRegister rd next
    Work.openCall pc target
    Work.jump target
  | mulDiv op rs rt => do
    let s ← Work.register rs
    let t ← Work.register rt
    let (hi, lo) ← Work.orFail (op.compute s t)
    Work.setHi hi
    Work.setLo lo
  | moveFrom .hi rd => do Work.setRegister rd (← Work.hi)
  | moveFrom .lo rd => do Work.setRegister rd (← Work.lo)
  | moveTo .hi rs => do Work.setHi (← Work.register rs)
  | moveTo .lo rs => do Work.setLo (← Work.register rs)
  | syscall => Work.syscall
  | brk => Work.stop .pause
  | aluImm op rt rs imm => do
    let s ← Work.register rs
    let value ← Work.orFail (op.compute (← Work.trapsOverflow) s (extendedImm op imm))
    Work.setRegister rt value
  | lui rt imm => Work.setRegister rt (UInt32.ofNat (imm.toNat * 0x10000))
  | branch cond rs rt offset => do
    let s ← Work.register rs
    let t ← Work.register rt
    if cond.holds s t then Work.jump (Address.displace next (offset.value * 4))
  | load width rt base offset => do
    let a := Address.displace (← Work.register base) offset.value
    let n ← Work.onMemory (·.read a width.size)
    Work.setRegister rt (width.extend n)
  | store width rt base offset => do
    let a := Address.displace (← Work.register base) offset.value
    let value ← Work.register rt
    Work.change (.write a (width.storedBytes value))
  | j index => Work.jump (jumpTarget next index)
  | jal index => do
    let target := jumpTarget next index
    Work.setRegister Reg.ra next
    Work.openCall pc target
    Work.jump target

end Instr

namespace Machine

/-- Fails before an instruction has done anything. -/
def fail (m : Machine) (error : ExecError) : StepEnd × Machine := (.stopped (.fault error), m)

/-- Counts the instruction at an address, and tells it to the observers. -/
def count (m : Machine) (pc : Address) : Machine :=
  { m with
    completed := m.completed + 1
    events := m.events.emit (.executed pc) }

/-- Carries out the work of the instruction at the current address. The address is moved on before,
and back again if the instruction is not completed. -/
def carryOut (m : Machine) (work : Work Unit) : StepEnd × Machine :=
  match work.run (m.setPc (m.pc + 4)) with
  | .ok () after => (.ran, after.count m.pc)
  | .error (.stopped stop) after =>
    (.stopped stop, if stop.completes then after.count m.pc else after.setPc m.pc)
  | .error .waiting after => (.waiting, after.setPc m.pc)

/-- Executes an instruction that stands at the current address. -/
def execute (m : Machine) (i : Instr) : StepEnd × Machine := m.carryOut (i.work m.pc)

end Machine

end MipsLab
