import MipsLab.Proofs.Fetch
import MipsLab.Proofs.Placement
import MipsLab.Proofs.Segments
import MipsLab.Proofs.Transfers

/-!
# The layout of a running machine

Loading a program fixes the bounds of all regions but the heap, and whatever is done to the machine
then, the heap grows only by whole words and only up to its ceiling.

1. `Layout.ofProgram`, `Layout.ofProgram_exact`: the bounds for a program as they are worked out in
   words; no sum and no difference wraps.
2. `Program.ofStatements_fits`: both segments of an assembled program fit into their rooms.
3. `Memory.GrownFrom`: what is left of the memory at the start in all later ones.
4. `Machine.growHeap_cases`: which requests for more heap are granted.
5. `Machine.memory_after`: what instructions do not change lasts, and a reset starts anew.
6. `layout_kept`: all of this for an assembled program.
-/

namespace MipsLab

/-! ## Layouts in words -/

/-- The bounds of the regions that depend on the program or on the flags. -/
structure Layout where
  textEnd : Address
  heapStart : Address
  heapCeiling : Address
  stackFloor : Address
  deriving DecidableEq, Repr

namespace Layout

/-- The bounds for some bytes of text and of data. Everything is worked out in words, so sums and
differences could wrap; only the budget of the heap is looked at before it is added. -/
def ofSizes (textSize dataSize heapBudget stackBudget : Nat) : Layout :=
  let stackTop : Address := UInt32.ofNat Memory.stackTop
  let heapStart : Address := UInt32.ofNat Segment.data.start + UInt32.ofNat dataSize
  let stackFloor := stackTop - UInt32.ofNat (min stackBudget (stackTop - heapStart).toNat)
  { textEnd := UInt32.ofNat Segment.text.start + UInt32.ofNat textSize
    heapStart
    heapCeiling :=
      match heapStart.advance? heapBudget with
      | some ceiling => if ceiling ≤ stackFloor then ceiling else stackFloor
      | none => stackFloor
    stackFloor }

def ofProgram (p : Program) (flags : Flags) : Layout :=
  ofSizes (4 * p.text.size) (roundUp p.data.size 4) flags.heapBudget flags.stackBudget

/-- The end of the heap in words. -/
def brk (l : Layout) (heapSize : Nat) : Address := l.heapStart + UInt32.ofNat heapSize

/-- A memory has the bounds of a layout, and its regions have the sizes that these leave them. -/
structure Bounds (l : Layout) (m : Memory) : Prop where
  text : Segment.text.start + m.text.size = l.textEnd.toNat
  data : Segment.data.start + m.data.size = l.heapStart.toNat
  heap : l.heapStart.toNat + m.heap.size = m.brk
  brk : (l.brk m.heap.size).toNat = m.brk
  heapCeiling : m.heapCeiling = l.heapCeiling.toNat
  stack : l.stackFloor.toNat + m.stack.size = Memory.stackTop

/-- The bounds are what they are in exact arithmetic. -/
structure Exact (l : Layout) (textSize dataSize heapBudget stackBudget : Nat) : Prop where
  textEnd : l.textEnd.toNat = Segment.text.start + textSize
  heapStart : l.heapStart.toNat = Segment.data.start + dataSize
  heapCeiling : l.heapCeiling.toNat =
    min (Segment.data.start + dataSize + heapBudget) l.stackFloor.toNat
  stackFloor : l.stackFloor.toNat + min stackBudget
    (Memory.stackTop - (Segment.data.start + dataSize)) = Memory.stackTop

theorem toNat_sum {a b : Nat} (h : a + b < 0x100000000) :
    (UInt32.ofNat a + UInt32.ofNat b).toNat = a + b := by
  rw [← UInt32.ofNat_add]
  exact UInt32.toNat_ofNat_of_lt' h

theorem toNat_difference {a : Word} {b : Nat} (h : b ≤ a.toNat) :
    (a - UInt32.ofNat b).toNat = a.toNat - b := by
  have hb : (UInt32.ofNat b).toNat = b :=
    UInt32.toNat_ofNat_of_lt' (Nat.lt_of_le_of_lt h a.toNat_lt)
  rw [UInt32.toNat_sub_of_le _ _ (UInt32.le_iff_toNat_le.mpr (by rwa [hb])), hb]

/-- Nothing wraps if text and data are not much larger than segments can be. -/
theorem ofSizes_exact {textSize dataSize : Nat} (htext : textSize ≤ segmentLimit)
    (hdata : dataSize ≤ segmentLimit + 3) (heapBudget stackBudget : Nat) :
    (ofSizes textSize dataSize heapBudget stackBudget).Exact textSize dataSize heapBudget
      stackBudget := by
  have htop : (UInt32.ofNat Memory.stackTop).toNat = Memory.stackTop := rfl
  have hroom : Segment.data.start + (segmentLimit + 3) ≤ Memory.stackTop := by decide
  have hlimit : Memory.stackTop < 0x100000000 := by decide
  have hstart : (UInt32.ofNat Segment.data.start + UInt32.ofNat dataSize : Address).toNat =
      Segment.data.start + dataSize := toNat_sum (by omega)
  have hdifference : (UInt32.ofNat Memory.stackTop -
      (UInt32.ofNat Segment.data.start + UInt32.ofNat dataSize)).toNat =
      Memory.stackTop - (Segment.data.start + dataSize) := by
    rw [← hstart, ← htop]
    exact UInt32.toNat_sub_of_le _ _ (UInt32.le_iff_toNat_le.mpr (by rw [hstart, htop]; omega))
  have hfloor : (UInt32.ofNat Memory.stackTop - UInt32.ofNat (min stackBudget
      (Memory.stackTop - (Segment.data.start + dataSize))) : Address).toNat =
      Memory.stackTop - min stackBudget (Memory.stackTop - (Segment.data.start + dataSize)) := by
    rw [toNat_difference (by rw [htop]; omega), htop]
  have htextRoom : Segment.text.start + segmentLimit < 0x100000000 := by decide
  refine ⟨toNat_sum (by omega), hstart, ?_, ?_⟩
  · unfold ofSizes Address.advance?
    simp only [hdifference, hstart]
    by_cases hadvance : Segment.data.start + dataSize + heapBudget ≤ Word.maxUnsigned
    · have hceiling : (UInt32.ofNat (Segment.data.start + dataSize + heapBudget)).toNat =
          Segment.data.start + dataSize + heapBudget :=
        UInt32.toNat_ofNat_of_lt' (Nat.lt_succ_of_le hadvance)
      rw [if_pos hadvance]
      simp only [UInt32.le_iff_toNat_le, hceiling, hfloor]
      split
      · next hle => rw [hceiling, Nat.min_eq_left hle]
      · next hle => rw [hfloor, Nat.min_eq_right (Nat.le_of_not_le hle)]
    · -- The budget reaches beyond all addresses, and so beyond the stack.
      have hmax : Memory.stackTop ≤ Word.maxUnsigned := by decide
      rw [if_neg hadvance]
      simp only [hfloor]
      exact (Nat.min_eq_right (by omega)).symm
  · unfold ofSizes
    simp only [hdifference, hfloor]
    exact Nat.sub_add_cancel (by omega)

end Layout

/-! ## Room for programs -/

theorem Cursor.placed?_segment {c placed : Cursor} {s : Statement} (h : c.placed? s = some placed)
    (hs : s.isData = true) : placed.segment = .data := by
  rcases Cursor.placed?_cases h with ⟨i, hbody, -⟩ | ⟨d, -, -, hsegment, rfl⟩ | ⟨hnot, -⟩
  · rw [Statement.isData, hbody] at hs
    exact Bool.noConfusion hs
  · exact hsegment
  · exact Bool.noConfusion (hnot.symm.trans hs)

namespace Emission

variable {symbols : SymbolTable} {source : Source} {e : Emission}

/-- What has been put down does not exceed the room of the segments. -/
structure Fits (e : Emission) : Prop where
  placed : e.WellPlaced
  text : e.cursor.text ≤ Segment.text.start + segmentLimit
  data : e.data.size ≤ segmentLimit

/-- A statement that is put down has been given room for all of its bytes. -/
theorem add_fits (h : e.Fits) (s : Statement) : (e.add symbols source s).Fits := by
  refine ⟨add_wellPlaced h.placed s, ?_, ?_⟩
  · rw [add_cursor]
    cases hplaced : e.cursor.placed? s with
    | none =>
      rw [Cursor.walk_text_of_not_placed hplaced]
      exact h.text
    | some placed =>
      obtain ⟨hplace, hadvance⟩ := Cursor.placed?_inv hplaced
      have hnext := Cursor.walk_next hplaced .text
      have hlimit := (Cursor.advance?_inv hadvance).2
      have hbefore := (Cursor.place?_counters hplace).1
      show (e.cursor.walk s).next .text ≤ _
      rw [hnext]
      split
      · next hsegment =>
        rw [← hsegment] at hlimit
        exact hlimit
      · exact Nat.le_trans (Nat.le_of_eq hbefore) h.text
  · cases hplaced : e.cursor.placed? s with
    | none =>
      rw [(add_of_not_placed symbols source hplaced).2.2]
      exact h.data
    | some placed =>
      cases hs : s.isData with
      | true =>
        -- The data ends before the data counter, which has been checked against the limit.
        have hsegment := Cursor.placed?_segment hplaced hs
        obtain ⟨-, hcounter, hlimit⟩ := Cursor.placed?_range hplaced
        have hbehind : _ ≤ (e.add symbols source s).cursor.data := (add_wellPlaced h.placed s).data
        rw [hsegment] at hcounter hlimit
        rw [add_cursor, show (e.cursor.walk s).data = _ from hcounter] at hbehind
        exact Nat.le_of_add_le_add_left (Nat.le_trans hbehind hlimit)
      | false =>
        have hroom := Nat.le_trans h.placed.data (Cursor.place?_counters
          (Cursor.placed?_inv hplaced).1).2
        rw [add_data_size hplaced hroom, hs, if_neg nofun,
          (walk_counters symbols hplaced).2.2 hs]
        exact h.data

theorem ofStatements_fits (symbols : SymbolTable) (source : Source)
    (statements : List Statement) : (ofStatements symbols source statements).Fits := by
  have hstart : Fits {} := ⟨⟨rfl, Nat.le_refl _⟩, by decide, by decide⟩
  exact foldl_add_induction (P := Fits) (fun _ s h => add_fits h s) hstart statements

end Emission

/-- The segments of a program are no larger than a segment can be. -/
theorem Program.ofStatements_fits (statements : List Statement) (source : Source) :
    4 * (ofStatements statements source).1.text.size ≤ segmentLimit ∧
      (ofStatements statements source).1.data.size ≤ segmentLimit := by
  obtain ⟨⟨hcode, -⟩, htext, hdata⟩ := Emission.ofStatements_fits
    (Definitions.ofStatements statements).table source statements
  rw [hcode] at htext
  exact ⟨Nat.le_of_add_le_add_left htext, hdata⟩

/-! ## Memories that grow -/

namespace Memory

/-- What is left of a memory in all later ones: the bounds of its regions but for the heap, which
has grown by whole words at most up to its ceiling. -/
structure GrownFrom (initial m : Memory) : Prop where
  text : m.text.size = initial.text.size
  data : m.data.size = initial.data.size
  stack : m.stack.size = initial.stack.size
  heapCeiling : m.heapCeiling = initial.heapCeiling
  room : m.brk ≤ m.heapCeiling
  apart : m.heapCeiling ≤ m.stackFloor
  aligned : 4 ∣ m.brk

variable {initial m m' : Memory}

/-- Memories whose regions have the same sizes have the same bounds. -/
theorem GrownFrom.resized (h : initial.GrownFrom m)
    (hsize : ∀ region, (m'.bytes region).size = (m.bytes region).size)
    (hceiling : m'.heapCeiling = m.heapCeiling) : initial.GrownFrom m' := by
  have hbrk : m'.brk = m.brk := congrFun (bounds_congr hsize).2 .heap
  have hfloor : m'.stackFloor = m.stackFloor := congrFun (bounds_congr hsize).1 .stack
  refine ⟨(hsize .text).trans h.text, (hsize .data).trans h.data, (hsize .stack).trans h.stack,
    hceiling.trans h.heapCeiling, ?_, ?_, ?_⟩
  · rw [hbrk, hceiling]
    exact h.room
  · rw [hceiling, hfloor]
    exact h.apart
  · rw [hbrk]
    exact h.aligned

theorem GrownFrom.overwrite (h : initial.GrownFrom m) (place : Place) (bytes : List UInt8) :
    initial.GrownFrom (m.overwrite place bytes) :=
  h.resized (m.overwrite_size place bytes) (m.overwrite_heapCeiling place bytes)

theorem heapError?_eq_none_iff {amount : Nat} :
    m.heapError? amount = none ↔ m.brk + amount ≤ m.heapCeiling := by
  unfold heapError?
  split
  · next hroom => exact ⟨fun _ => hroom, fun _ => rfl⟩
  · next hroom => exact ⟨nofun, fun h => absurd h hroom⟩

theorem GrownFrom.extendHeap (h : initial.GrownFrom m) {amount : Nat} (haligned : 4 ∣ amount)
    (hroom : m.brk + amount ≤ m.heapCeiling) : initial.GrownFrom (m.extendHeap amount) where
  text := h.text
  data := h.data
  stack := h.stack
  heapCeiling := h.heapCeiling
  room := Nat.le_trans (Nat.le_of_eq (m.extendHeap_brk amount)) hroom
  apart := h.apart
  aligned := by
    rw [extendHeap_brk]
    exact Nat.dvd_add h.aligned haligned

end Memory

/-! ## Requests for more heap -/

namespace Machine

/-- A request is rounded up to whole words. One that cannot be rounded up in a word is too large for
any heap, and so is what it would be rounded up to. -/
theorem heapRequest_cases (requested : Word) :
    heapRequest requested = roundUp requested.toNat 4 ∨
      Memory.stackTop < heapRequest requested ∧
        heapRequest requested ≤ roundUp requested.toNat 4 := by
  unfold heapRequest
  simp only
  split
  · exact .inl rfl
  · next hlarge =>
    have hmax : Word.maxUnsigned = 0xFFFFFFFF := rfl
    have htop : Memory.stackTop = 0x80000000 := rfl
    refine .inr ⟨?_, le_roundUp (by decide)⟩
    unfold roundUp at hlarge
    omega

variable {initial : Memory} {m : Machine}

/-- Up to the stack, it makes no difference that a request is rounded up in words. -/
theorem heapRequest_of_room {memory : Memory} (h : initial.GrownFrom memory) {requested : Word}
    (hroom : memory.brk + heapRequest requested ≤ memory.heapCeiling ∨
      memory.brk + roundUp requested.toNat 4 ≤ memory.heapCeiling) :
    heapRequest requested = roundUp requested.toNat 4 := by
  have htop : memory.heapCeiling ≤ Memory.stackTop := Nat.le_trans h.apart (Nat.sub_le _ _)
  rcases heapRequest_cases requested with heq | ⟨hlarge, hle⟩
  · exact heq
  · rcases hroom with hroom | hroom <;> omega

/-- A request for more heap is granted if what it is rounded up to fits below the ceiling, and
refused otherwise. -/
theorem growHeap_cases (h : initial.GrownFrom m.memory) (requested : Word) :
    let amount := roundUp requested.toNat 4
    (m.memory.brk + amount ≤ m.memory.heapCeiling →
      (m.growHeap requested).1 = .ran ∧
        (m.growHeap requested).2.registers =
          m.registers.set Reg.v0 (UInt32.ofNat m.memory.brk) ∧
        (m.growHeap requested).2.memory = m.memory.extendHeap amount) ∧
    (m.memory.heapCeiling < m.memory.brk + amount →
      m.growHeap requested = m.fail (.memory (.heap
        { requested := heapRequest requested
          brk := UInt32.ofNat m.memory.brk
          size := m.memory.heap.size }))) := by
  intro amount
  constructor
  · intro hroom
    have hamount : heapRequest requested = amount := heapRequest_of_room h (.inr hroom)
    unfold growHeap
    rw [hamount]
    simp only [Memory.heapError?_eq_none_iff.mpr hroom]
    exact ⟨rfl, rfl, rfl⟩
  · intro hfull
    have hnot : ¬m.memory.brk + heapRequest requested ≤ m.memory.heapCeiling := by
      intro hroom
      rw [heapRequest_of_room h (.inl hroom)] at hroom
      exact Nat.not_le_of_lt hfull hroom
    have herror : m.memory.heapError? (heapRequest requested) = some _ := if_neg hnot
    unfold growHeap
    simp only [herror]

end Machine

/-! ## What lasts -/

/-- A property of memories outlasts all that is done to them between two resets: bytes are replaced,
and the heap grows by what programs request. -/
structure Memory.Lasting (P : Memory → Prop) : Prop where
  overwrite {m : Memory} (place : Place) (bytes : List UInt8) : P m → P (m.overwrite place bytes)
  extendHeap {m : Memory} {requested : Word} : P m →
    m.brk + Machine.heapRequest requested ≤ m.heapCeiling →
      P (m.extendHeap (Machine.heapRequest requested))

namespace Memory.Lasting

variable {P : Memory → Prop}

theorem overwriteEach {m : Memory} (h : Lasting P) (hm : P m) (places : List Place)
    (bytes : List UInt8) : P (m.overwriteEach places bytes) := by
  unfold Memory.overwriteEach
  induction places.zip bytes generalizing m with
  | nil => exact hm
  | cons first rest ih => exact ih (h.overwrite first.1 [first.2] hm)

theorem written {m m' : Memory} (h : Lasting P) (hm : P m) (hwritten : m.Written m') : P m' := by
  cases hwritten with
  | nothing => exact hm
  | access => exact h.overwrite _ _ hm
  | each => exact h.overwriteEach hm _ _

theorem turn {m m' : Machine} {ended : StepEnd} (h : Lasting P) (hm : P m.memory)
    (hturn : m.Turn ended m') : P m'.memory := by
  cases hturn with
  | rests => exact hm
  | completes _ hwritten => exact h.written hm hwritten
  | grows herror => exact h.extendHeap hm (heapError?_eq_none_iff.mp herror)

/-- Every move of a run keeps such a property. -/
theorem kept (h : Lasting P) : Machine.Kept fun m => P m.memory where
  starts hm := hm
  goesOn {m m' ended} hm hstep := by
    have hturn := m.step_turn
    rw [hstep] at hturn
    exact h.turn hm hturn
  stops {m m' stop} hm hstep := by
    have hturn := m.step_turn
    rw [hstep] at hturn
    show P m'.memory
    exact h.turn hm hturn
  pauses _ hm := hm
  halts hm := hm

/-- So does every operation but a reset. -/
theorem perform (h : Lasting P) (m : Machine) {operation : Machine.Operation}
    (hreset : operation ≠ .reset) (hm : P m.memory) : P (m.perform operation).memory := by
  cases operation with
  | writeWord a value =>
    show P (m.writeWord a value).2.memory
    rw [Machine.writeWord_eq]
    cases m.memory.locateWritable a 4 with
    | error e => exact hm
    | ok place => exact h.overwrite place (Word.bytes value) hm
  | reset => exact absurd rfl hreset
  | setRegister | setPc | setConsole | setFlags | setBreakpoints | setEvents => exact hm
  | _ => exact h.kept.perform rfl hm

end Memory.Lasting

namespace Machine

/-! ## Whatever is done to the machine -/

/-- The flags that the memory of a machine is laid out by after an operation. Only a reset lays it
out anew. -/
def Operation.layoutFlags (m : Machine) (flags : Flags) : Operation → Flags
  | .reset => m.flags
  | _ => flags

/-- The flags that the memory of a machine is laid out by after some operations. -/
def layoutFlags (m : Machine) (flags : Flags) : List Operation → Flags
  | [] => flags
  | operation :: operations =>
    (m.perform operation).layoutFlags (operation.layoutFlags m flags) operations

theorem Operation.layoutFlags_of_ne {operation : Operation} (hreset : operation ≠ .reset)
    (m : Machine) (flags : Flags) : operation.layoutFlags m flags = flags := by
  cases operation with
  | reset => exact absurd rfl hreset
  | _ => rfl

/-- What lasts, and holds at the start of a program with any flags, always holds with the flags of
the latest reset. -/
theorem memory_after {P : Flags → Memory → Prop} (hlasting : ∀ flags, Memory.Lasting (P flags))
    {p : Program} (hinitial : ∀ flags, P flags (initialMemory flags (some p)))
    (hnormal : ∀ i ∈ p.text.toList, i.Normal) {m : Machine} (hfollows : m.Follows p)
    {flags : Flags} (h : P flags m.memory) (operations : List Operation) :
    P (m.layoutFlags flags operations) (m.after operations).memory := by
  induction operations generalizing m flags with
  | nil => exact h
  | cons operation operations ih =>
    rw [layoutFlags]
    refine ih (follows_perform hnormal m operation hfollows) ?_
    by_cases hreset : operation = .reset
    · subst hreset
      have hmemory : (m.perform .reset).memory = initialMemory m.flags (some p) :=
        congrArg (initialMemory m.flags) hfollows.program
      rw [hmemory]
      exact hinitial m.flags
    · rw [Operation.layoutFlags_of_ne hreset]
      exact (hlasting flags).perform m hreset h

theorem grownFrom_lasting (initial : Memory) : Memory.Lasting initial.GrownFrom where
  overwrite place bytes h := h.overwrite place bytes
  extendHeap {m requested} h hroom := by
    refine h.extendHeap ?_ hroom
    rw [heapRequest_of_room h (.inl hroom)]
    exact dvd_roundUp _ _

/-- The memory of a program at its start, if there is room for the program. -/
theorem grownFrom_initial {p : Program} (htext : 4 * p.text.size ≤ segmentLimit)
    (hdata : p.data.size ≤ segmentLimit) (flags : Flags) :
    (initialMemory flags (some p)).GrownFrom (initialMemory flags (some p)) := by
  have hlaid := Memory.laidOut_create p.words p.data flags.heapBudget flags.stackBudget flags.init
    (by rwa [p.words_length]) hdata
  refine ⟨rfl, rfl, rfl, rfl, hlaid.heap, hlaid.stack, ?_⟩
  show 4 ∣ (initialMemory flags (some p)).heapStart
  rw [initialMemory, Option.map_some, Option.map_some, Option.getD_some, Option.getD_some,
    Memory.create_heapStart]
  have hstart : 4 ∣ Segment.data.start := by decide
  exact Nat.dvd_add hstart (dvd_roundUp _ _)

/-- The memory has always grown from the one that the program started with at the latest reset. -/
theorem grownFrom_after {p : Program} (hnormal : ∀ i ∈ p.text.toList, i.Normal)
    (htext : 4 * p.text.size ≤ segmentLimit) (hdata : p.data.size ≤ segmentLimit)
    {m : Machine} (hfollows : m.Follows p) {flags : Flags}
    (h : (initialMemory flags (some p)).GrownFrom m.memory) (operations : List Operation) :
    (initialMemory (m.layoutFlags flags operations) (some p)).GrownFrom
      (m.after operations).memory :=
  memory_after (fun _ => grownFrom_lasting _) (grownFrom_initial htext hdata) hnormal hfollows h
    operations

end Machine

namespace Layout

/-- The bounds of a memory that has grown from the one at the start of a program are those that are
worked out in words. -/
theorem ofProgram_bounds {p : Program} (htext : 4 * p.text.size ≤ segmentLimit)
    (hdata : p.data.size ≤ segmentLimit) {flags : Flags} {m : Memory}
    (h : (Machine.initialMemory flags (some p)).GrownFrom m) :
    (ofProgram p flags).Exact (4 * p.text.size) (roundUp p.data.size 4) flags.heapBudget
        flags.stackBudget ∧
      (ofProgram p flags).Bounds m := by
  have hround : roundUp p.data.size 4 ≤ segmentLimit + 3 := by unfold roundUp; omega
  have hexact : (ofProgram p flags).Exact (4 * p.text.size) (roundUp p.data.size 4)
      flags.heapBudget flags.stackBudget :=
    ofSizes_exact htext hround flags.heapBudget flags.stackBudget
  refine ⟨hexact, ?_⟩
  have hinitial : Machine.initialMemory flags (some p) =
      Memory.create p.words p.data flags.heapBudget flags.stackBudget flags.init := rfl
  have htextSize : m.text.size = 4 * p.text.size := by
    rw [h.text, hinitial, ← Bytes.contents_length, Memory.create_text_contents,
      Word.flatMap_bytes_length, p.words_length]
  have hheapStart : m.heapStart = Segment.data.start + roundUp p.data.size 4 := by
    show Segment.data.start + m.data.size = _
    rw [h.data, hinitial]
    exact Memory.create_heapStart ..
  have hstackSize : m.stack.size = min flags.stackBudget
      (Memory.stackTop - (Segment.data.start + roundUp p.data.size 4)) := by
    rw [h.stack, hinitial, Memory.create_stack_size]
  have hceiling : m.heapCeiling = (ofProgram p flags).heapCeiling.toNat := by
    have hfloor := hexact.stackFloor
    rw [h.heapCeiling, hinitial, Memory.create_heapCeiling, hexact.heapCeiling]
    omega
  have htop : Memory.stackTop < 0x100000000 := by decide
  have hbrk : m.brk = m.heapStart + m.heap.size := rfl
  have hlimit : m.brk ≤ Memory.stackTop :=
    Nat.le_trans h.room (Nat.le_trans h.apart (Nat.sub_le _ _))
  refine ⟨by rw [hexact.textEnd, htextSize], by rw [hexact.heapStart, ← hheapStart]; rfl,
    by rw [hexact.heapStart, ← hheapStart, hbrk], ?_, hceiling,
    by rw [hstackSize, hexact.stackFloor]⟩
  -- The words of the layout are below the stack, so the end of the heap does not wrap either.
  show (UInt32.ofNat Segment.data.start + UInt32.ofNat (roundUp p.data.size 4) +
    UInt32.ofNat m.heap.size : Address).toNat = m.brk
  rw [← UInt32.ofNat_add, toNat_sum (by omega), hbrk, hheapStart]

end Layout

namespace Machine

theorem syscall_sbrk {m : Machine} (h : m.registers.get Reg.v0 = 9) :
    m.syscall = m.growHeap (m.registers.get Reg.a0) := by
  unfold syscall
  rw [h]
  rfl

end Machine

/-- Whatever is done to a machine that has been started with an assembled program, its regions stay
in order and apart, with the bounds that they were given when the program was loaded or last reset,
and of the sizes that these bounds leave them. No bound wraps when it is worked out in words. The
heap ends at a whole word below its ceiling, and a request for more of it is granted exactly if it
fits there after it has been rounded up; otherwise it is a fault and changes nothing. -/
theorem layout_kept (source : Source) (start : Machine) (operations : List Machine.Operation) :
    let p := (assemble source).program
    let m := (start.load p).after operations
    let flags := (start.load p).layoutFlags start.flags operations
    let l := Layout.ofProgram p flags
    l.Exact (4 * p.text.size) (roundUp p.data.size 4) flags.heapBudget flags.stackBudget ∧
    l.Bounds m.memory ∧
    (l.textEnd.toNat ≤ Segment.data.start ∧ Segment.data.start ≤ l.heapStart.toNat ∧
      l.heapStart.toNat ≤ m.memory.brk ∧ m.memory.brk ≤ l.heapCeiling.toNat ∧
      l.heapCeiling.toNat ≤ l.stackFloor.toNat ∧ l.stackFloor.toNat ≤ Memory.stackTop) ∧
    m.registers.get Reg.zero = 0 ∧ 4 ∣ m.memory.brk ∧
    (p.instrAt? m.pc = some .syscall → m.registers.get Reg.v0 = 9 →
      let requested := m.registers.get Reg.a0
      let amount := roundUp requested.toNat 4
      (m.step.1 = .ran ↔ m.memory.brk + amount ≤ l.heapCeiling.toNat) ∧
        (m.step.1 = .ran → (m.step.2.registers.get Reg.v0).toNat = m.memory.brk ∧
          m.step.2.memory.brk = m.memory.brk + amount) ∧
        (m.step.1 ≠ .ran → m.step.2.memory.brk = m.memory.brk ∧
          m.step = m.fail (.memory (.heap
            { requested := Machine.heapRequest requested
              brk := l.brk m.memory.heap.size
              size := m.memory.heap.size })))) := by
  intro p m flags l
  have hnormal : ∀ i ∈ p.text.toList, i.Normal := Program.ofStatements_normal _ source
  obtain ⟨htext, hdata⟩ : 4 * p.text.size ≤ segmentLimit ∧ p.data.size ≤ segmentLimit :=
    Program.ofStatements_fits _ source
  have hgrown : (Machine.initialMemory flags (some p)).GrownFrom m.memory :=
    Machine.grownFrom_after hnormal htext hdata (Machine.follows_reset rfl)
      (Machine.grownFrom_initial htext hdata start.flags) operations
  obtain ⟨hexact, hbounds⟩ : l.Exact _ _ _ _ ∧ l.Bounds m.memory :=
    Layout.ofProgram_bounds htext hdata hgrown
  have hfollows : m.Follows p := Machine.follows_after hnormal start operations
  have hroom : Segment.text.start + segmentLimit ≤ Segment.data.start := by decide
  refine ⟨hexact, hbounds, ⟨?_, ?_, ?_, ?_, ?_, ?_⟩, m.registers.get_zero, hgrown.aligned, ?_⟩
  · rw [hexact.textEnd]
    omega
  · rw [← hbounds.data]
    exact Nat.le_add_right _ _
  · rw [← hbounds.heap]
    exact Nat.le_add_right _ _
  · rw [← hbounds.heapCeiling]
    exact hgrown.room
  · rw [hexact.heapCeiling]
    exact Nat.min_le_right _ _
  · rw [← hbounds.stack]
    exact Nat.le_add_right _ _
  · intro hinstr hservice requested amount
    have hstep : m.step = m.growHeap requested := by
      rw [hfollows.step_eq hnormal, hinstr]
      exact (Machine.execute_eq_outcome m .syscall).trans (Machine.syscall_sbrk hservice)
    have hbrk : UInt32.ofNat m.memory.brk = l.brk m.memory.heap.size := by
      rw [← hbounds.brk, UInt32.ofNat_toNat]
    obtain ⟨hgranted, hrefused⟩ := Machine.growHeap_cases hgrown requested
    rw [hstep, ← hbounds.heapCeiling, ← hbrk]
    rcases Nat.lt_or_ge m.memory.heapCeiling (m.memory.brk + amount) with hfull | hfits
    · have hfault := hrefused hfull
      have hnot : (m.growHeap requested).1 ≠ .ran := by
        rw [hfault]
        nofun
      exact ⟨⟨fun hran => absurd hran hnot, fun hle => absurd hle (Nat.not_le_of_lt hfull)⟩,
        fun hran => absurd hran hnot, fun _ => ⟨by rw [hfault]; rfl, hfault⟩⟩
    · obtain ⟨hran, hregisters, hmemory⟩ := hgranted hfits
      refine ⟨⟨fun _ => hfits, fun _ => hran⟩, fun _ => ⟨?_, ?_⟩, fun hnot => absurd hran hnot⟩
      · rw [hregisters, Registers.get_set_self _ _ (by decide), hbrk, hbounds.brk]
      · rw [hmemory, Memory.extendHeap_brk]

/-- Two requests of a program with a heap of twelve bytes: five bytes take eight, and five more do
not fit any more. -/
theorem layout_kept_requests :
    let source : Source := .ofString "li $v0, 9\nli $a0, 5\nsyscall\nli $v0, 9\nsyscall"
    let p := (assemble source).program
    let start := Machine.create { heapBudget := 12, stackBudget := 4 }
    let m := (start.load p).after [.stepIn, .stepIn]
    let m₂ := (start.load p).after [.stepIn, .stepIn, .stepIn, .stepIn]
    (m.step.1 = .ran ∧ (m.step.2.registers.get Reg.v0).toNat = 0x10010000 ∧
        m.step.2.memory.brk = 0x10010008) ∧
      m₂.step.2.memory.brk = 0x10010008 ∧
      m₂.step = m₂.fail (.memory (.heap { requested := 8, brk := 0x10010008, size := 8 })) := by
  intro source p start m m₂
  obtain ⟨hinstr, hservice, hran, hbrk, hrequested⟩ : p.instrAt? m.pc = some .syscall ∧
      m.registers.get Reg.v0 = 9 ∧ m.step.1 = .ran ∧ m.memory.brk = 0x10010000 ∧
      m.registers.get Reg.a0 = 5 := by decide +kernel
  obtain ⟨hinstr₂, hservice₂, hnot₂, hrequested₂, hsize₂, hbrk₂⟩ :
      p.instrAt? m₂.pc = some .syscall ∧ m₂.registers.get Reg.v0 = 9 ∧ m₂.step.1 ≠ .ran ∧
      m₂.registers.get Reg.a0 = 5 ∧ m₂.memory.heap.size = 8 ∧ m₂.memory.brk = 0x10010008 := by
    decide +kernel
  have hlayout : (Layout.ofProgram p start.flags).brk 8 = 0x10010008 := by decide +kernel
  obtain ⟨-, -, -, -, -, hgrow⟩ := layout_kept source start [.stepIn, .stepIn]
  obtain ⟨-, -, -, -, -, hgrow₂⟩ :=
    layout_kept source start [.stepIn, .stepIn, .stepIn, .stepIn]
  obtain ⟨hv0, hgrown⟩ := (hgrow hinstr hservice).2.1 hran
  obtain ⟨hstays, hfault⟩ := (hgrow₂ hinstr₂ hservice₂).2.2 hnot₂
  refine ⟨⟨hran, hv0.trans hbrk, ?_⟩, hstays.trans hbrk₂, ?_⟩
  · rw [hgrown, hbrk, hrequested]
    rfl
  · have hflags : (start.load p).layoutFlags start.flags [.stepIn, .stepIn, .stepIn, .stepIn] =
        start.flags := rfl
    rw [hrequested₂, hsize₂, hflags, hlayout] at hfault
    exact hfault

end MipsLab
