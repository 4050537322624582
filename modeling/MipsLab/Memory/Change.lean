import MipsLab.Memory

/-!
# Changing memory

What replaces bytes or lets the heap grow works on the memory in place, and may fail on the way.
Whatever has been replaced by then stays so: the memory is handed back in either case.
-/

namespace MipsLab

namespace Memory

/-- Works on a memory, and hands it back also when it fails. -/
abbrev Change := EStateM MemoryError Memory

namespace Change

/-- The place of some bytes that are to be replaced. -/
def locateWritable (a : Address) (size : Nat) : Change Place := do
  let m ← get
  MonadExcept.ofExcept (m.locateWritable a size)

/-- Replaces the bytes from an address on by those of a value; their number is the access's size. -/
def write (a : Address) (bytes : List UInt8) : Change Unit := do
  let place ← locateWritable a bytes.length
  modify (·.overwrite place bytes)

def writeByte (a : Address) (b : UInt8) : Change Unit := write a [b]

/-- Replaces the half word at an address. -/
def writeHalf (a : Address) (h : UInt16) : Change Unit :=
  write a [UInt8.ofNat (h.toNat / 0x100), UInt8.ofNat h.toNat]

def writeWord (a : Address) (w : Word) : Change Unit := write a (Word.bytes w)

/-! ## Many bytes -/

/-- Checks that the byte some way behind an address can be replaced. -/
def check (a : Address) (i : Nat) : Change Unit :=
  match a.advance? i with
  | some b => discard (locateWritable b 1)
  | none => throw (.outOfBounds a)

/-- Replaces the bytes from an address on one after the other, in whatever regions they lie. -/
def writeEach (a : Address) : List UInt8 → Change Unit
  | [] => return
  | b :: bytes => do
    writeByte a b
    writeEach (a + 1) bytes

/-- Replaces the bytes from an address on, after all of them have been checked. -/
def writeBytes (a : Address) (bytes : List UInt8) : Change Unit := do
  (List.range bytes.length).forM (check a)
  writeEach a bytes

/-! ## Growing -/

/-- Lets the heap grow by some bytes, up to its ceiling, and tells where it ends then. -/
def growHeap (amount : Nat) : Change Nat := do
  let m ← get
  match m.heapError? amount with
  | some e => throw (.heap e)
  | none =>
    set (m.extendHeap amount)
    return m.brk + amount

end Change

end Memory

end MipsLab
