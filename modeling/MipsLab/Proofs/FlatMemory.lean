import MipsLab.Memory.Change
import MipsLab.Proofs.Bytes

/-!
# Flat memory

What a memory means to the programs that use it: at some addresses there is a byte, at the others
there is none. The addresses with a byte form regions, and an access has to stay within one of them.
Nothing here depends on how the bytes are kept.

1. `FlatMemory.readError?`, `FlatMemory.writeError?`: whether an access is refused, and why.
2. `Memory.Operation`, `FlatMemory.perform`: all that can be asked of a memory.
3. `FlatMemory.Proper`: the bytes are exactly those of the regions, which do not overlap.
-/

namespace MipsLab

namespace Region

def all : List Region := [text, data, heap, stack]

theorem mem_all (region : Region) : region ∈ all := by
  cases region <;> decide

end Region

/-! ## Bytes of a filler -/

namespace Filler

/-- The next bytes that a filler puts down. -/
def bytes (f : Filler) (count : Nat) : List UInt8 :=
  ((List.range (wordsFor count)).flatMap fun i => Word.bytes (f.stream (f.used + i))).take count

theorem bytes_length (f : Filler) (count : Nat) : (f.bytes count).length = count := by
  unfold bytes
  rw [List.length_take, Bytes.flatMap_length fun i => Word.bytes_length _, List.length_range]
  unfold wordsFor
  omega

/-- Words that are put down one after the other. -/
theorem contents_fold (words : Nat → Word) (bytes : ByteArray) (count : Nat) :
    Bytes.contents
        (count.fold (fun i _ grown => Bytes.appendList grown (Word.bytes (words i))) bytes) =
      Bytes.contents bytes ++ (List.range count).flatMap fun i => Word.bytes (words i) := by
  induction count with
  | zero => exact (List.append_nil _).symm
  | succ count ih =>
    rw [Nat.fold_succ, Bytes.contents_appendList, ih, List.range_succ, List.flatMap_append,
      List.flatMap_singleton, List.append_assoc]

theorem contents_fill (f : Filler) (bytes : ByteArray) (count : Nat) :
    Bytes.contents (f.fill bytes count) = Bytes.contents bytes ++ f.bytes count := by
  have hwhole (n : Nat) :
      ((List.range n).flatMap fun i => Word.bytes (f.stream (f.used + i))).length = 4 * n := by
    rw [Bytes.flatMap_length fun i => Word.bytes_length _, List.length_range]
  unfold fill Filler.bytes
  simp only [Bytes.contents_appendList, contents_fold fun i => f.stream (f.used + i)]
  rw [List.append_assoc]
  congr 1
  by_cases hrest : count % 4 = 0
  · have hwords : wordsFor count = count / 4 := by unfold wordsFor; omega
    rw [hwords, hrest, List.take_zero, List.append_nil, List.take_of_length_le]
    rw [hwhole]
    omega
  · have hwords : wordsFor count = count / 4 + 1 := by unfold wordsFor; omega
    have hlength := hwhole (count / 4)
    rw [hwords, List.range_succ, List.flatMap_append, List.flatMap_singleton, List.take_append,
      hlength, show count - 4 * (count / 4) = count % 4 by omega]
    congr 1
    exact (List.take_of_length_le (by omega)).symm

end Filler

/-! ## Operations -/

namespace Memory

/-- What can be asked of a memory. -/
inductive Operation
  | readByte (a : Address)
  | readHalf (a : Address)
  | readWord (a : Address)
  | readString (a : Address)
  | writeByte (a : Address) (b : UInt8)
  | writeHalf (a : Address) (h : UInt16)
  | writeWord (a : Address) (w : Word)
  | writeBytes (a : Address) (bytes : List UInt8)
  | growHeap (amount : Nat)
  deriving DecidableEq, Repr

/-- What a memory answers. -/
inductive Answer
  | byte (b : UInt8)
  | half (h : UInt16)
  | word (w : Word)
  | string (bytes : List UInt8)
  | written
  | grown (brk : Nat)
  | refused (e : MemoryError)
  deriving DecidableEq, Repr

/-- The answer to a question that changes nothing. -/
def told {σ α : Type} (memory : σ) (answer : α → Answer) : Except MemoryError α → Answer × σ
  | .ok value => (answer value, memory)
  | .error e => (.refused e, memory)

/-- The answer to a change, and the memory that it hands back. -/
def replied {α : Type} (answer : α → Answer) : EStateM.Result MemoryError Memory α → Answer × Memory
  | .ok value memory => (answer value, memory)
  | .error e memory => (.refused e, memory)

def perform (m : Memory) : Operation → Answer × Memory
  | .readByte a => told m .byte (m.readByte a)
  | .readHalf a => told m .half (m.readHalf a)
  | .readWord a => told m .word (m.readWord a)
  | .readString a => told m (.string ∘ Bytes.contents) (m.readString a)
  | .writeByte a b => replied (fun _ => .written) ((Change.writeByte a b).run m)
  | .writeHalf a h => replied (fun _ => .written) ((Change.writeHalf a h).run m)
  | .writeWord a w => replied (fun _ => .written) ((Change.writeWord a w).run m)
  | .writeBytes a bytes => replied (fun _ => .written) ((Change.writeBytes a bytes).run m)
  | .growHeap amount => replied .grown ((Change.growHeap amount).run m)

/-- The answers to some operations in a row, and the memory after them. -/
def performAll (m : Memory) : List Operation → List Answer × Memory
  | [] => ([], m)
  | operation :: rest =>
    let (answer, m) := m.perform operation
    let (answers, m) := m.performAll rest
    (answer :: answers, m)

end Memory

/-! ## Bytes by address -/

/-- Bytes by address, and the regions they belong to. -/
@[ext]
structure FlatMemory where
  byte? : Nat → Option UInt8
  start : Region → Nat
  stop : Region → Nat
  /-- The address that the heap cannot grow beyond. -/
  heapCeiling : Nat
  /-- What new parts of the heap hold. -/
  filler : Filler

namespace FlatMemory

/-- The byte at an address if a list of bytes stands at some address. -/
def image (start : Nat) (bytes : List UInt8) (c : Nat) : Option UInt8 :=
  if start ≤ c then bytes[c - start]? else none

theorem image_eq_some {start c : Nat} {bytes : List UInt8} {b : UInt8} :
    image start bytes c = some b ↔ start ≤ c ∧ bytes[c - start]? = some b := by
  unfold image
  split
  · next hle => exact (and_iff_right hle).symm
  · next hlt => exact ⟨nofun, fun h => absurd h.1 hlt⟩

/-- Bytes that are put behind others stand behind them. -/
theorem image_append (start : Nat) (bytes more : List UInt8) (c : Nat) :
    image start (bytes ++ more) c =
      if start + bytes.length ≤ c ∧ c < start + bytes.length + more.length then
        more[c - (start + bytes.length)]?
      else image start bytes c := by
  unfold image
  by_cases hle : start ≤ c
  · rw [if_pos hle, if_pos hle]
    by_cases hlt : c < start + bytes.length
    · rw [if_neg (by omega), List.getElem?_append_left (by omega)]
    · rw [List.getElem?_append_right (by omega), Nat.sub_sub,
        List.getElem?_eq_none (by omega : bytes.length ≤ c - start)]
      split
      · rfl
      · exact List.getElem?_eq_none (by omega)
  · rw [if_neg hle, if_neg hle, if_neg (by omega)]

/-- The flat memory of a program with these words of text and this data: the text and the data, the
latter with zeros up to a whole number of words, and a stack below its fixed end. -/
def create (text : List Word) (data : List UInt8) (heapBudget stackBudget : Nat)
    (init : MachineInit) : FlatMemory :=
  let dataStop := Segment.data.start + roundUp data.length 4
  let stackSize := min stackBudget (Memory.stackTop - dataStop)
  let stackStart := Memory.stackTop - stackSize
  let filler : Filler := { stream := init.memoryWords }
  { byte? := fun c =>
      (image Segment.text.start (text.flatMap Word.bytes) c).or <|
      (image Segment.data.start
        (data ++ List.replicate (roundUp data.length 4 - data.length) 0) c).or <|
      image stackStart (filler.bytes stackSize) c
    start
      | .text => Segment.text.start
      | .data => Segment.data.start
      | .heap => dataStop
      | .stack => stackStart
    stop
      | .text => Segment.text.start + 4 * text.length
      | .data => dataStop
      | .heap => dataStop
      | .stack => Memory.stackTop
    heapCeiling := min (dataStop + heapBudget) stackStart
    filler := filler.skip stackSize }

variable (f : FlatMemory)

/-! ## Regions -/

/-- Some bytes from an address on lie in a region. -/
def Within (a size : Nat) (region : Region) : Prop := f.start region ≤ a ∧ a + size ≤ f.stop region

instance (a size : Nat) (region : Region) : Decidable (f.Within a size region) :=
  inferInstanceAs (Decidable (_ ∧ _))

instance (a size : Nat) : Decidable (∃ region, f.Within a size region) :=
  decidable_of_iff (∃ region ∈ Region.all, f.Within a size region)
    (exists_congr fun region => and_iff_right region.mem_all)

/-- A place is where the byte of an address is. -/
def IsAt (c : Nat) (place : Place) : Prop :=
  f.Within c 1 place.region ∧ place.offset = c - f.start place.region

/-- There is a byte at the addresses of the regions and nowhere else, no two regions share an
address, and all of them end before the addresses do. -/
structure Proper : Prop where
  bytes (c : Nat) : (f.byte? c).isSome ↔ ∃ region, f.Within c 1 region
  apart {c : Nat} {region other : Region} :
    f.Within c 1 region → f.Within c 1 other → region = other
  bounded (region : Region) : f.stop region ≤ Memory.stackTop

theorem Proper.lt_stackTop {f : FlatMemory} (h : f.Proper) {c : Nat} {b : UInt8}
    (hb : f.byte? c = some b) : c < Memory.stackTop := by
  obtain ⟨region, -, hstop⟩ := (h.bytes c).mp (Option.isSome_iff_exists.mpr ⟨b, hb⟩)
  exact Nat.lt_of_lt_of_le hstop (h.bounded region)

/-! ## Access -/

/-- Why some bytes cannot be read: their address is no multiple of their number, or else they do not
lie in one region. -/
def readError? (a : Address) (size : Nat) : Option MemoryError :=
  if ¬size ∣ a.toNat then some (.misaligned a size)
  else if ¬∃ region, f.Within a.toNat size region then some (.outOfBounds a)
  else none

/-- Why some bytes cannot be replaced: they cannot be read, or else they are text. -/
def writeError? (a : Address) (size : Nat) : Option MemoryError :=
  (f.readError? a size).or
    (if f.Within a.toNat size .text then some (.readOnly a) else none)

/-- The bytes there are at some addresses in a row. -/
def bytesFrom (a size : Nat) : List UInt8 := (List.range' a size).filterMap f.byte?

/-- The memory with other bytes at some addresses in a row. -/
def put (a : Nat) (bytes : List UInt8) : FlatMemory :=
  { f with byte? := fun c => if a ≤ c ∧ c < a + bytes.length then bytes[c - a]? else f.byte? c }

theorem put_byte? (a : Nat) (bytes : List UInt8) (c : Nat) : (f.put a bytes).byte? c =
    if a ≤ c ∧ c < a + bytes.length then bytes[c - a]? else f.byte? c := rfl

theorem put_nil (a : Nat) : f.put a [] = f := by
  refine FlatMemory.ext (funext fun c => ?_) rfl rfl rfl rfl
  rw [put_byte?, if_neg (by simp only [List.length_nil]; omega)]

/-- Bytes may be put down one after the other. -/
theorem put_put (a : Nat) (b : UInt8) (bytes : List UInt8) :
    (f.put a [b]).put (a + 1) bytes = f.put a (b :: bytes) := by
  refine FlatMemory.ext (funext fun c => ?_) rfl rfl rfl rfl
  simp only [put_byte?, List.length_cons, List.length_nil]
  by_cases hfirst : c = a
  · subst hfirst
    rw [if_neg (by omega), if_pos (by omega), if_pos (by omega), Nat.sub_self]
    rfl
  · rw [if_neg (by omega : ¬(a ≤ c ∧ c < a + (0 + 1)))]
    by_cases hc : a + 1 ≤ c ∧ c < a + 1 + bytes.length
    · have hsub : c - a = c - (a + 1) + 1 := by omega
      rw [if_pos hc, if_pos (by omega), hsub, List.getElem?_cons_succ]
    · rw [if_neg hc, if_neg (by omega)]

theorem bytesFrom_one {a : Nat} {b : UInt8} (h : f.byte? a = some b) : f.bytesFrom a 1 = [b] := by
  rw [bytesFrom, List.range'_one, List.filterMap_cons, h, List.filterMap_nil]

theorem bytesFrom_succ {a : Nat} {b : UInt8} (h : f.byte? a = some b) (size : Nat) :
    f.bytesFrom a (size + 1) = b :: f.bytesFrom (a + 1) size := by
  rw [bytesFrom, List.range'_succ, List.filterMap_cons, h]
  rfl

def read (a : Address) (size : Nat) : Except MemoryError Nat :=
  match f.readError? a size with
  | some e => .error e
  | none => .ok (Word.bigEndian (f.bytesFrom a.toNat size))

def write (a : Address) (bytes : List UInt8) : Except MemoryError FlatMemory :=
  match f.writeError? a bytes.length with
  | some e => .error e
  | none => .ok (f.put a.toNat bytes)

/-! ## Many bytes -/

/-- Why the byte some way behind an address cannot be replaced. -/
def byteError? (a : Address) (i : Nat) : Option MemoryError :=
  if a.toNat + i ≤ Word.maxUnsigned then f.writeError? (UInt32.ofNat (a.toNat + i)) 1
  else some (.outOfBounds a)

/-- Replaces bytes one by one, unless one of them cannot be replaced. -/
def writeBytes (a : Address) (bytes : List UInt8) : Except MemoryError FlatMemory :=
  match (List.range bytes.length).findSome? (f.byteError? a) with
  | some e => .error e
  | none => .ok (f.put a.toNat bytes)

/-- How many bytes other than zero there are from an address on. -/
def stringLength (a : Nat) : Nat :=
  ((List.range' a (Word.maxUnsigned + 1 - a)).takeWhile fun c =>
    f.byte? c ≠ none ∧ f.byte? c ≠ some 0).length

/-- The bytes before the first zero, unless an address without a byte comes first. -/
def readString (a : Address) : Except MemoryError (List UInt8) :=
  match f.byte? (a.toNat + f.stringLength a.toNat) with
  | some _ => .ok (f.bytesFrom a.toNat (f.stringLength a.toNat))
  | none => .error (.outOfBounds (UInt32.ofNat (a.toNat + f.stringLength a.toNat)))

/-- The memory with more bytes behind the heap. -/
def extendHeap (amount : Nat) : FlatMemory :=
  { f.put (f.stop .heap) (f.filler.bytes amount) with
    stop := fun region => if region = .heap then f.stop .heap + amount else f.stop region
    filler := f.filler.skip amount }

/-- The heap grows up to its ceiling. -/
def growHeap (amount : Nat) : Except MemoryError FlatMemory :=
  if f.stop .heap + amount ≤ f.heapCeiling then .ok (f.extendHeap amount)
  else .error (.heap
    { requested := amount, brk := UInt32.ofNat (f.stop .heap),
      size := f.stop .heap - f.start .heap })

/-! ## Operations -/

open Memory (told)

/-- The answer to a change, which leaves the memory as it was if it is refused. -/
def changed (answer : FlatMemory → Memory.Answer) :
    Except MemoryError FlatMemory → Memory.Answer × FlatMemory
  | .ok f' => (answer f', f')
  | .error e => (.refused e, f)

def perform : Memory.Operation → Memory.Answer × FlatMemory
  | .readByte a => told f (.byte ∘ UInt8.ofNat) (f.read a 1)
  | .readHalf a => told f (.half ∘ UInt16.ofNat) (f.read a 2)
  | .readWord a => told f (.word ∘ UInt32.ofNat) (f.read a 4)
  | .readString a => told f .string (f.readString a)
  | .writeByte a b => f.changed (fun _ => .written) (f.write a [b])
  | .writeHalf a h => f.changed (fun _ => .written)
      (f.write a [UInt8.ofNat (h.toNat / 0x100), UInt8.ofNat h.toNat])
  | .writeWord a w => f.changed (fun _ => .written) (f.write a (Word.bytes w))
  | .writeBytes a bytes => f.changed (fun _ => .written) (f.writeBytes a bytes)
  | .growHeap amount => f.changed (.grown <| ·.stop .heap) (f.growHeap amount)

/-- The answers to some operations in a row, and the memory after them. -/
def performAll (f : FlatMemory) : List Memory.Operation → List Memory.Answer × FlatMemory
  | [] => ([], f)
  | operation :: rest =>
    let (answer, f) := f.perform operation
    let (answers, f) := f.performAll rest
    (answer :: answers, f)

end FlatMemory

end MipsLab
