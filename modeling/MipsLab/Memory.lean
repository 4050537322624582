import MipsLab.Memory.Filler
import MipsLab.Memory.MemoryError
import MipsLab.Program.Cursor

/-!
# Memory

The four regions of a machine's memory. Text and data start at fixed addresses; the heap starts
behind the data and grows upwards to its ceiling; the stack ends at a fixed address. Each region is
an array of bytes, and its bounds follow from the size of the array.

An access is first located: `Memory.locate` finds the region that holds all of its bytes, or the
reason why there is none. Only then are bytes read or replaced.
-/

namespace MipsLab

/-- The regions of memory. -/
inductive Region
  | text | data | heap | stack
  deriving DecidableEq, Repr

/-- A byte of a region, by its offset. -/
structure Place where
  region : Region
  offset : Nat
  deriving DecidableEq, Repr

/-- The memory of a machine. -/
structure Memory where
  text : ByteArray
  data : ByteArray
  heap : ByteArray
  stack : ByteArray
  /-- The address that the heap cannot grow beyond. -/
  heapCeiling : Nat
  /-- What new parts of the heap hold. -/
  filler : Filler

namespace Memory

/-! ## Layout -/

/-- The address behind the stack. -/
def stackTop : Nat := 0x80000000

/-- The address behind the text. -/
def textEnd (m : Memory) : Nat := Segment.text.start + m.text.size

/-- The address behind the data, where the heap starts. -/
def heapStart (m : Memory) : Nat := Segment.data.start + m.data.size

/-- The address behind the heap. -/
def brk (m : Memory) : Nat := m.heapStart + m.heap.size

/-- The address at which the stack starts. -/
def stackFloor (m : Memory) : Nat := stackTop - m.stack.size

def bytes (m : Memory) : Region → ByteArray
  | .text => m.text
  | .data => m.data
  | .heap => m.heap
  | .stack => m.stack

/-- The address of the first byte of a region. -/
def start (m : Memory) : Region → Nat
  | .text => Segment.text.start
  | .data => Segment.data.start
  | .heap => m.heapStart
  | .stack => m.stackFloor

/-- The address behind the last byte of a region. -/
def stop (m : Memory) : Region → Nat
  | .text => m.textEnd
  | .data => m.heapStart
  | .heap => m.brk
  | .stack => stackTop

/-- The memory of a program with these words of text and this data. The stack is as large as its
budget, or as there is room above the data; the heap can grow by its budget, or up to the stack. -/
def create (text : List Word) (data : ByteArray) (heapBudget stackBudget : Nat)
    (init : MachineInit) : Memory :=
  let data := Bytes.padTo data (roundUp data.size 4)
  let heapStart := Segment.data.start + data.size
  let stackSize := min stackBudget (stackTop - heapStart)
  let filler : Filler := { stream := init.memoryWords }
  { text := Bytes.appendList .empty (text.flatMap Word.bytes)
    data
    heap := .empty
    stack := filler.fill .empty stackSize
    heapCeiling := min (heapStart + heapBudget) (stackTop - stackSize)
    filler := filler.skip stackSize }

/-! ## Locating -/

/-- Whether some bytes from an address on lie in a region. -/
def covers (m : Memory) (a : Address) (size : Nat) (region : Region) : Bool :=
  m.start region ≤ a.toNat && a.toNat + size ≤ m.stop region

/-- The region that some bytes from an address on lie in. -/
def region? (m : Memory) (a : Address) (size : Nat) : Option Region :=
  if m.covers a size .text then some .text
  else if m.covers a size .data then some .data
  else if m.covers a size .heap then some .heap
  else if m.covers a size .stack then some .stack
  else none

/-- The place of some bytes from an address on, which has to be a multiple of their number. -/
def locate (m : Memory) (a : Address) (size : Nat) : Except MemoryError Place :=
  if !a.isAligned size then .error (.misaligned a size)
  else
    match m.region? a size with
    | some region => .ok ⟨region, a.toNat - m.start region⟩
    | none => .error (.outOfBounds a)

/-- The place of some bytes that are to be replaced. -/
def locateWritable (m : Memory) (a : Address) (size : Nat) : Except MemoryError Place := do
  let place ← m.locate a size
  if place.region = .text then throw (.readOnly a)
  return place

/-! ## Reading -/

/-- The number that some bytes from an address on write, the most significant one first. -/
def read (m : Memory) (a : Address) (size : Nat) : Except MemoryError Nat := do
  let place ← m.locate a size
  return Word.bigEndian (Bytes.slice (m.bytes place.region) place.offset size)

def readByte (m : Memory) (a : Address) : Except MemoryError UInt8 :=
  (m.read a 1).map UInt8.ofNat

def readHalf (m : Memory) (a : Address) : Except MemoryError UInt16 :=
  (m.read a 2).map UInt16.ofNat

def readWord (m : Memory) (a : Address) : Except MemoryError Word :=
  (m.read a 4).map UInt32.ofNat

/-- Some bytes from an address on, in whatever regions they lie. Addresses wrap. -/
def readBytes (m : Memory) (a : Address) (count : Nat) : Except MemoryError (List UInt8) :=
  (List.range count).mapM fun i => m.readByte (a + UInt32.ofNat i)

/-- The word of text at an address. -/
def textWord? (m : Memory) (a : Address) : Option Word :=
  match m.locate a 4 with
  | .ok ⟨.text, offset⟩ => some (Word.ofBytes (Bytes.slice m.text offset 4))
  | _ => none

/-- Reads bytes up to a zero; `count` bounds them, and `before` are the ones already read. -/
def readStringFrom (m : Memory) : Nat → Address → ByteArray → Except MemoryError ByteArray
  | 0, a, _ => .error (.outOfBounds a)
  | count + 1, a, before =>
    match m.readByte a with
    | .error e => .error e
    | .ok b => if b = 0 then .ok before else readStringFrom m count (a + 1) (before.push b)

/-- The bytes from an address on up to a zero. There are at most as many as there are addresses. -/
def readString (m : Memory) (a : Address) : Except MemoryError ByteArray :=
  m.readStringFrom (Word.maxUnsigned + 1 - a.toNat) a .empty

/-! ## Writing -/

def overwrite (m : Memory) (place : Place) (bytes : List UInt8) : Memory :=
  match place.region with
  | .text => { m with text := Bytes.overwrite m.text place.offset bytes }
  | .data => { m with data := Bytes.overwrite m.data place.offset bytes }
  | .heap => { m with heap := Bytes.overwrite m.heap place.offset bytes }
  | .stack => { m with stack := Bytes.overwrite m.stack place.offset bytes }

/-! ## Growing -/

/-- Why the heap cannot grow by some bytes, if it cannot. -/
def heapError? (m : Memory) (amount : Nat) : Option HeapError :=
  if m.brk + amount ≤ m.heapCeiling then none
  else some { requested := amount, brk := UInt32.ofNat m.brk, size := m.heap.size }

def extendHeap (m : Memory) (amount : Nat) : Memory :=
  { m with heap := m.filler.fill m.heap amount, filler := m.filler.skip amount }

end Memory

end MipsLab
