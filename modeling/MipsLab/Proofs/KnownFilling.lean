import Mathlib.Data.List.Rotate
import MipsLab.Proofs.DirectOperands
import MipsLab.Proofs.Strings

/-!
# What a known word fills

A machine may be set up to hold one known word everywhere. The stack and the new parts of the heap
are filled with the bytes of this word, over and over from their first byte on. So they hold the
word at all aligned addresses if they start at a whole word. The end of the heap always is one, but
the stack starts as far below its end as its size says, and its size may be any.

1. `Filler.bytes_known`: the byte at each position.
2. `Memory.readWord_known`: the word at each address, which is turned by its distance to the start.
3. `Memory.fills_stack`, `Memory.extendHeap_fills`: the stack at first, and a heap that has grown.
4. `known_word_fills`: whatever is done to a machine with an assembled program.
-/

namespace MipsLab

/-! ## Turned words -/

namespace Word

variable {w : Word} {count other : Nat}

/-- The word whose bytes are those of a word from some position on, and then the ones before it. -/
def turned (w : Word) (count : Nat) : Word := ofBytes ((bytes w).rotate count)

theorem turned_congr (h : count % 4 = other % 4) : w.turned count = w.turned other := by
  unfold turned
  rw [← List.rotate_mod, ← List.rotate_mod (bytes w) other, bytes_length, h]

theorem turned_of_dvd (h : 4 ∣ count) : w.turned count = w := by
  obtain ⟨n, rfl⟩ := h
  unfold turned
  rw [← bytes_length w, List.rotate_length_mul, ofBytes_bytes]

end Word

/-! ## Bytes of a known word -/

/-- A filler with one known word puts down its bytes over and over. -/
theorem Filler.bytes_known {f : Filler} {w : Word} (hstream : f.stream = fun _ => w) {count i : Nat}
    (h : i < count) : (f.bytes count)[i]? = (Word.bytes w)[i % 4]? := by
  have hbytes : f.bytes count =
      ((List.replicate (wordsFor count) w).flatMap Word.bytes).take count := by
    simp [Filler.bytes, hstream, List.flatMap, List.map_const']
  have hword : i / 4 < (List.replicate (wordsFor count) w).length := by
    rw [List.length_replicate, wordsFor]
    omega
  have hbefore : (((List.replicate (wordsFor count) w).take (i / 4)).flatMap Word.bytes).length =
      4 * (i / 4) := by
    rw [Word.flatMap_bytes_length, List.length_take, Nat.min_eq_left (Nat.le_of_lt hword)]
  rw [hbytes, List.getElem?_take_of_lt h, Word.flatMap_bytes_split hword, List.append_assoc,
    List.getElem?_append_right (by omega), hbefore, List.getElem_replicate,
    List.getElem?_append_left (by rw [Word.bytes_length]; omega), ← Nat.mod_def]

namespace FlatMemory

variable {f : FlatMemory} {w : Word} {a low count : Nat}

/-- Bytes that stand in a row are what is read there. -/
theorem Holds.bytesFrom {bytes : List UInt8} (h : f.Holds a bytes) :
    f.bytesFrom a bytes.length = bytes := by
  induction bytes generalizing a with
  | nil => rfl
  | cons b bytes ih =>
    obtain ⟨hfirst, hrest⟩ := holds_cons.mp h
    rw [List.length_cons, f.bytesFrom_succ hfirst, ih hrest]

/-- Where a known word has been put down over and over, any four bytes are turned by their distance
to the start. -/
theorem Holds.known {filler : Filler} (hstream : filler.stream = fun _ => w)
    (h : f.Holds low (filler.bytes count)) (hlow : low ≤ a) (hhigh : a + 4 ≤ low + count) :
    f.Holds a ((Word.bytes w).rotate (a - low)) := by
  intro k hk
  rw [List.length_rotate, Word.bytes_length] at hk
  have hposition : a - low + k < count := by omega
  have hbyte := h (a - low + k) (by rwa [Filler.bytes_length])
  rw [← Nat.add_assoc, Nat.add_sub_of_le hlow, Filler.bytes_known hstream hposition] at hbyte
  rw [hbyte, List.getElem?_rotate (by rwa [Word.bytes_length]), Word.bytes_length, Nat.add_comm k]

end FlatMemory

namespace Memory

variable {m : Memory} {w : Word} {a : Address} {low high amount : Nat}

/-! ## Reading a known word -/

theorem readWord_of_holds (h : m.LaidOut) {region : Region} (haligned : 4 ∣ a.toNat)
    (hin : m.flat.Within a.toNat 4 region) {bytes : List UInt8} (hlength : bytes.length = 4)
    (hholds : m.flat.Holds a.toNat bytes) : m.readWord a = .ok (Word.ofBytes bytes) := by
  have hread : m.flat.readError? a 4 = none := by
    rw [FlatMemory.readError?, if_neg (not_not_intro haligned),
      if_neg (not_not_intro ⟨region, hin⟩)]
  have hbytes := hholds.bytesFrom
  rw [hlength] at hbytes
  rw [readWord, read_flat h, FlatMemory.read, hread, hbytes]
  rfl

/-- In a stretch that a known word fills, each aligned word is the known one, turned by the distance
to the start of the stretch. -/
theorem readWord_known (h : m.LaidOut) (region : Region) {filler : Filler} {count : Nat}
    (hstream : filler.stream = fun _ => w)
    (hholds : m.flat.Holds low (filler.bytes count))
    (hstart : m.start region ≤ low) (hstop : low + count = m.stop region)
    (haligned : 4 ∣ a.toNat) (hlow : low ≤ a.toNat) (hhigh : a.toNat + 4 ≤ low + count) :
    m.readWord a = .ok (w.turned (a.toNat - low)) :=
  readWord_of_holds h haligned ⟨Nat.le_trans hstart hlow, Nat.le_trans hhigh (Nat.le_of_eq hstop)⟩
    ((List.length_rotate _ _).trans (Word.bytes_length w)) (hholds.known hstream hlow hhigh)

/-- The same word is read at all aligned addresses from one address on up to another. -/
def Fills (m : Memory) (w : Word) (low high : Nat) : Prop :=
  ∀ a : Address, 4 ∣ a.toNat → low ≤ a.toNat → a.toNat < high → m.readWord a = .ok w

/-- All bytes that can be read can still be read, and they are the same. -/
def Keeps (m m' : Memory) : Prop := ∀ a b, m.readByte a = .ok b → m'.readByte a = .ok b

theorem LaidOut.holds (h : m.LaidOut) (region : Region) :
    m.flat.Holds (m.start region) (Bytes.contents (m.bytes region)) := by
  intro i hi
  rw [List.getElem?_eq_getElem hi, h.byte?_iff]
  refine ⟨region, FlatMemory.image_eq_some.mpr ⟨Nat.le_add_right _ _, ?_⟩⟩
  rw [Nat.add_sub_cancel_left, List.getElem?_eq_getElem hi]

/-! ## The stack -/

/-- What a known word fills the stack with, by the size of the stack. -/
theorem fills_stack (h : m.LaidOut) {filler : Filler} (hstream : filler.stream = fun _ => w)
    (hstack : Bytes.contents m.stack = filler.bytes m.stack.size) :
    m.Fills (w.turned m.stack.size) m.stackFloor stackTop := by
  intro a haligned hlow hhigh
  have hholds : m.flat.Holds m.stackFloor (filler.bytes m.stack.size) := by
    rw [← hstack]
    exact h.holds .stack
  have hsize : m.stackFloor + m.stack.size = stackTop := h.start_add_size .stack
  have htop : 4 ∣ stackTop := by decide
  rw [readWord_known h .stack hstream hholds (Nat.le_refl _) hsize haligned hlow (by omega)]
  exact congrArg Except.ok (Word.turned_congr (by omega))

section

variable (text : List Word) (data : ByteArray) (heapBudget stackBudget : Nat) (init : MachineInit)

theorem create_stack_filled :
    Bytes.contents (create text data heapBudget stackBudget init).stack =
      Filler.bytes { stream := init.memoryWords }
        (create text data heapBudget stackBudget init).stack.size := by
  rw [create_stack_size, create_stack]

/-- A stack is a whole number of words if its budget is, also where there is no room for it all. -/
theorem dvd_create_stack_size (h : 4 ∣ stackBudget) :
    4 ∣ (create text data heapBudget stackBudget init).stack.size := by
  have htop : 4 ∣ stackTop := by decide
  have hstart : 4 ∣ Segment.data.start := by decide
  have hround : 4 ∣ roundUp data.size 4 := dvd_roundUp _ _
  rw [create_stack_size]
  omega

end

/-! ## The heap -/

/-- There is nothing between the end of the heap and the stack. -/
theorem LaidOut.heap_or_stack (h : m.LaidOut) {c : Nat} {b : UInt8}
    (hb : m.flat.byte? c = some b) : c < m.brk ∨ m.stackFloor ≤ c := by
  obtain ⟨region, hstart, hstop⟩ := (h.proper.bytes c).mp (Option.isSome_iff_exists.mpr ⟨b, hb⟩)
  have htext := h.text
  have hdata : Segment.data.start ≤ m.heapStart := Nat.le_add_right _ _
  have hheap : m.heapStart ≤ m.brk := Nat.le_add_right _ _
  cases region with
  | stack => exact .inr hstart
  | heap => exact .inl hstop
  | text | data =>
    simp only [flat, stop] at hstop
    omega

/-- Bytes behind the heap change nothing that could be read before. -/
theorem extendHeap_keeps (h : m.LaidOut) (hroom : m.brk + amount ≤ m.heapCeiling) :
    m.Keeps (m.extendHeap amount) := by
  intro a b hb
  rw [readByte_eq_ok_iff h] at hb
  rw [readByte_eq_ok_iff (h.extendHeap hroom), flat_extendHeap h hroom]
  show (m.flat.put m.brk (m.filler.bytes amount)).byte? a.toNat = some b
  have hbehind : ¬(m.brk ≤ a.toNat ∧ a.toNat < m.brk + (m.filler.bytes amount).length) := by
    have hstack := h.stack
    rw [Filler.bytes_length]
    rcases h.heap_or_stack hb with hlow | hhigh <;> omega
  rw [FlatMemory.put_byte?, if_neg hbehind, hb]

/-- A known word fills what is put behind a heap that ends at a whole word. -/
theorem extendHeap_fills (h : m.LaidOut) (hstream : m.filler.stream = fun _ => w)
    (hroom : m.brk + amount ≤ m.heapCeiling) (hbrk : 4 ∣ m.brk) (hamount : 4 ∣ amount) :
    (m.extendHeap amount).Fills w m.brk (m.extendHeap amount).brk := by
  intro a haligned hlow hhigh
  have hstop := m.extendHeap_brk amount
  have hholds : (m.extendHeap amount).flat.Holds m.brk (m.filler.bytes amount) := by
    rw [flat_extendHeap h hroom]
    exact m.flat.holds_put m.brk (m.filler.bytes amount)
  rw [readWord_known (h.extendHeap hroom) .heap hstream hholds (Nat.le_add_right _ _)
    hstop.symm haligned hlow (by omega), Word.turned_of_dvd (Nat.dvd_sub haligned hbrk)]

/-! ## What a memory is filled with -/

/-- Nothing but a reset changes what a memory is filled with. -/
theorem filler_lasting (stream : Nat → Word) : Lasting fun m => m.filler.stream = stream where
  overwrite {m} place bytes hstream := by rwa [overwrite_filler]
  extendHeap hstream _ := hstream

end Memory

namespace Machine

variable {p : Program}

theorem initialMemory_filler (flags : Flags) (program : Option Program) :
    (initialMemory flags program).filler.stream = flags.init.memoryWords := by
  rw [initialMemory, Memory.create_filler]
  rfl

/-- A machine is filled with what its flags said at the latest reset. -/
theorem filler_after (hnormal : ∀ i ∈ p.text.toList, i.Normal) (start : Machine)
    (operations : List Operation) :
    ((start.load p).after operations).memory.filler.stream =
      ((start.load p).layoutFlags start.flags operations).init.memoryWords := by
  have hfollows : (start.load p).Follows p := follows_reset rfl
  have hloaded : (start.load p).memory.filler.stream = start.flags.init.memoryWords :=
    initialMemory_filler start.flags (some p)
  exact memory_after (fun flags => Memory.filler_lasting flags.init.memoryWords)
    (fun flags => initialMemory_filler flags (some p)) hnormal hfollows hloaded operations

/-- A request for more heap that has been granted. -/
theorem growHeap_ran {initial : Memory} {m : Machine} (h : initial.GrownFrom m.memory)
    {requested : Word} (hran : (m.growHeap requested).1 = .ran) :
    let amount := roundUp requested.toNat 4
    m.memory.brk + amount ≤ m.memory.heapCeiling ∧
      (m.growHeap requested).2.memory = m.memory.extendHeap amount := by
  intro amount
  obtain ⟨hgranted, hrefused⟩ := growHeap_cases h requested
  rcases Nat.lt_or_ge m.memory.heapCeiling (m.memory.brk + amount) with hfull | hroom
  · rw [hrefused hfull] at hran
    exact nomatch hran
  · exact ⟨hroom, (hgranted hroom).2.2⟩

end Machine

/-- A machine that is set up to hold one known word everywhere holds it, right after a program has
been loaded, at all aligned addresses of the stack, turned by the size of the stack, and so not
turned if its budget is a whole number of words. Whatever is done to the machine then, and however
far a run has come, a request for more heap that is granted makes the known word be read at all
aligned addresses that it adds, and leaves what could be read before. -/
theorem known_word_fills (source : Source) (start : Machine) (w : Word) :
    let p := (assemble source).program
    let loaded := start.load p
    let memory := loaded.memory
    (start.flags.init = .known w →
      memory.Fills (w.turned memory.stack.size) memory.stackFloor Memory.stackTop ∧
        (4 ∣ start.flags.stackBudget → memory.Fills w memory.stackFloor Memory.stackTop)) ∧
    ∀ operations : List Machine.Operation,
      let m := loaded.after operations
      (loaded.layoutFlags start.flags operations).init = .known w →
        p.instrAt? m.pc = some .syscall → m.registers.get Reg.v0 = 9 → m.step.1 = .ran →
          m.step.2.memory.Fills w m.memory.brk m.step.2.memory.brk ∧
            m.memory.Keeps m.step.2.memory := by
  intro p loaded memory
  have hnormal : ∀ i ∈ p.text.toList, i.Normal := Program.ofStatements_normal _ source
  obtain ⟨htext, hdata⟩ : 4 * p.text.size ≤ segmentLimit ∧ p.data.size ≤ segmentLimit :=
    Program.ofStatements_fits _ source
  have hlaid (operations : List Machine.Operation) : (loaded.after operations).memory.LaidOut :=
    Machine.laidOut_after source start operations
  constructor
  · intro hinit
    have hstack : Bytes.contents memory.stack =
        Filler.bytes { stream := start.flags.init.memoryWords } memory.stack.size :=
      Memory.create_stack_filled ..
    have hfills : memory.Fills (w.turned memory.stack.size) memory.stackFloor Memory.stackTop :=
      Memory.fills_stack (hlaid []) (congrArg MachineInit.memoryWords hinit) hstack
    refine ⟨hfills, fun hbudget => ?_⟩
    have hsize : 4 ∣ memory.stack.size := Memory.dvd_create_stack_size _ _ _ _ _ hbudget
    rwa [Word.turned_of_dvd hsize] at hfills
  · intro operations m hinit hinstr hservice hran
    have hgrown : (Machine.initialMemory (loaded.layoutFlags start.flags operations)
        (some p)).GrownFrom m.memory :=
      Machine.grownFrom_after hnormal htext hdata (Machine.follows_reset rfl)
        (Machine.grownFrom_initial htext hdata start.flags) operations
    have hfiller : m.memory.filler.stream = fun _ => w :=
      (Machine.filler_after hnormal start operations).trans
        (congrArg MachineInit.memoryWords hinit)
    have hfollows : m.Follows p := Machine.follows_after hnormal start operations
    have hstep : m.step = m.growHeap (m.registers.get Reg.a0) := by
      rw [hfollows.step_eq hnormal, hinstr]
      exact (Machine.execute_eq_outcome m .syscall).trans (Machine.syscall_sbrk hservice)
    rw [hstep] at hran ⊢
    obtain ⟨hroom, hmemory⟩ := Machine.growHeap_ran hgrown hran
    rw [hmemory]
    exact ⟨Memory.extendHeap_fills (hlaid operations) hfiller hroom hgrown.aligned
      (dvd_roundUp _ _), Memory.extendHeap_keeps (hlaid operations) hroom⟩

/-- The last word of a stack of two words is known, and so is the second word of a heap that grows
by five bytes. -/
theorem known_word_fills_heap :
    let source : Source := .ofString "li $v0, 9\nli $a0, 5\nsyscall"
    let start := Machine.create { heapBudget := 12, stackBudget := 8, init := .known 0x01020304 }
    let loaded := start.load (assemble source).program
    let m := loaded.after [.stepIn, .stepIn]
    loaded.memory.readWord 0x7FFFFFFC = .ok 0x01020304 ∧ m.step.1 = .ran ∧
      m.step.2.memory.readWord 0x10010004 = .ok 0x01020304 ∧
      m.step.2.memory.readByte 0x7FFFFFFF = .ok 4 := by
  intro source start loaded m
  obtain ⟨hinstr, hservice, hran, hbrk, hgrown, hfloor, hbyte⟩ :
      (assemble source).program.instrAt? m.pc = some .syscall ∧ m.registers.get Reg.v0 = 9 ∧
      m.step.1 = .ran ∧ m.memory.brk = 0x10010000 ∧ m.step.2.memory.brk = 0x10010008 ∧
      loaded.memory.stackFloor = 0x7FFFFFF8 ∧ m.memory.readByte 0x7FFFFFFF = .ok 4 := by
    decide +kernel
  obtain ⟨hstack, hheap⟩ := known_word_fills source start 0x01020304
  have hloaded := (hstack rfl).2 (by decide) 0x7FFFFFFC (by decide) (by rw [hfloor]; decide)
    (by decide)
  obtain ⟨hfills, hkeeps⟩ := hheap [.stepIn, .stepIn] rfl hinstr hservice hran
  have hfilled := hfills 0x10010004 (by decide) (by rw [hbrk]; decide) (by rw [hgrown]; decide)
  exact ⟨hloaded, hran, hfilled, hkeeps 0x7FFFFFFF 4 hbyte⟩

/-- The last word of a stack of six bytes lies wholly in it and is not the known one: the bytes of
the known word begin two bytes below it, and again two bytes above. -/
theorem known_word_turned_in_stack :
    let start := Machine.create { stackBudget := 6, init := .known 0x01020304 }
    let memory := (start.load (assemble (.ofString "main: nop")).program).memory
    let a : Address := 0x7FFFFFFC
    start.flags.init = .known 0x01020304 ∧ 4 ∣ a.toNat ∧ memory.stackFloor ≤ a.toNat ∧
      a.toNat + 4 ≤ Memory.stackTop ∧ memory.readWord a = .ok 0x03040102 ∧
      memory.readWord a ≠ .ok 0x01020304 := by
  intro start memory a
  have hread : memory.readWord a = .ok 0x03040102 := by decide +kernel
  refine ⟨rfl, by decide, by decide +kernel, by decide, hread, ?_⟩
  rw [hread]
  decide

end MipsLab
