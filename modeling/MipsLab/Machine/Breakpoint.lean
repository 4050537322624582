import MipsLab.Machine.Registers
import MipsLab.Memory

/-!
# Breakpoints

Conditions on a machine's registers and memory, on which a run comes to rest after an instruction.
-/

namespace MipsLab

/-- A condition on a word, read without a sign. -/
inductive Comparator
  | never
  | lt (bound : Word)
  | eq (bound : Word)
  | le (bound : Word)
  | gt (bound : Word)
  | ne (bound : Word)
  | ge (bound : Word)
  | always
  deriving DecidableEq, Repr

namespace Comparator

def holds (cmp : Comparator) (w : Word) : Bool :=
  match cmp with
  | never => false
  | lt bound => w < bound
  | eq bound => w = bound
  | le bound => w ≤ bound
  | gt bound => bound < w
  | ne bound => w ≠ bound
  | ge bound => bound ≤ w
  | always => true

/-- The condition as it follows the name of what it is about. -/
def text : Comparator → String
  | never => "never"
  | lt bound => s!"< {bound.toNat}"
  | eq bound => s!"== {bound.toNat}"
  | le bound => s!"<= {bound.toNat}"
  | gt bound => s!"> {bound.toNat}"
  | ne bound => s!"!= {bound.toNat}"
  | ge bound => s!">= {bound.toNat}"
  | always => "always"

end Comparator

/-- A condition on which a run comes to rest. -/
inductive Breakpoint
  | pc (address : Address)
  | register (reg : Reg) (value : Comparator)
  /-- On the word at an address; one that cannot be read meets no condition. -/
  | memory (address : Address) (value : Comparator)
  /-- On the end of the heap. -/
  | heapEnd (value : Comparator)
  deriving DecidableEq, Repr

namespace Breakpoint

def holds (b : Breakpoint) (currentPc : Address) (regs : Registers) (m : Memory) : Bool :=
  match b with
  | pc address => currentPc = address
  | register reg value => value.holds (regs.get reg)
  | memory address value =>
    match m.readWord address with
    | .ok w => value.holds w
    | .error _ => false
  | heapEnd value => value.holds (UInt32.ofNat m.brk)

def text : Breakpoint → String
  | pc address => s!"PC == {address.text}"
  | register reg value => s!"{reg.name} {value.text}"
  | memory address value => s!"mem[{address.text}] {value.text}"
  | heapEnd value => s!"brk {value.text}"

/-- The condition, named as what it is. -/
def summary (b : Breakpoint) : String := s!"Breakpoint({b.text})"

end Breakpoint

end MipsLab
