import MipsLab.Machine.Registers

/-!
# The call stack

How deep the calls are nested, counted by the linking jumps and the jumps back to `$ra`, and what
each open call looked like when it was made. The calls themselves are only recorded on demand; their
number always is.
-/

namespace MipsLab

/-- A call that has not returned. -/
structure Frame where
  /-- The address of the jump. -/
  caller : Address
  /-- Where it leads. -/
  callee : Address
  /-- The stack pointer at the call. -/
  stackPointer : Word
  /-- The first four arguments at the call. -/
  arguments : List Word
  deriving DecidableEq, Repr

/-- The open calls. -/
structure CallStack where
  depth : Nat := 0
  /-- The open calls, the latest one last, if they are recorded. -/
  frames : Option (Array Frame) := none
  deriving DecidableEq, Repr

namespace CallStack

/-- No open calls, which are recorded or not. -/
def empty (recording : Bool) : CallStack := { frames := if recording then some #[] else none }

def frameOf (caller callee : Address) (regs : Registers) : Frame :=
  { caller, callee
    stackPointer := regs.get Reg.sp
    arguments := [Reg.a0, Reg.a1, Reg.a2, Reg.a3].map regs.get }

def push (s : CallStack) (caller callee : Address) (regs : Registers) : CallStack :=
  { depth := s.depth + 1
    frames := s.frames.map (·.push (frameOf caller callee regs)) }

/-- Closes the latest call, if there is one. -/
def pop (s : CallStack) : CallStack :=
  { depth := s.depth - 1
    frames := s.frames.map Array.pop }

end CallStack

end MipsLab
