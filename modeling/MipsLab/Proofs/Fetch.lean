import MipsLab.Assembly
import MipsLab.Proofs.Emission
import MipsLab.Proofs.MachineCode
import MipsLab.Proofs.Operations

/-!
# Fetching

A machine that has been started with an assembled program executes the instructions of that program
and nothing else, whatever is done to it.

1. `Memory.textWord?_eq`: a memory with the text of a program has the word of each instruction at
   the address of the instruction, and no other words of text.
2. `Machine.Follows`: the program and its text are in place, and no fault on record is wrong about
   them.
3. `Machine.follows_after`: no operation changes that.
4. `fetch_faithful`: so decoding the text gives the instructions of the program at all times.
-/

namespace MipsLab

/-! ## The text of a program -/

namespace Program

theorem words_length (p : Program) : p.words.length = p.text.size := by
  simp [words]

theorem words_getElem? (p : Program) (i : Nat) :
    p.words[i]? = (p.text[i]?).map Instr.encode := by
  simp [words]

end Program

namespace Memory

variable {m : Memory} {p : Program}

theorem create_text (text : List Word) (data : ByteArray) (heapBudget stackBudget : Nat)
    (init : MachineInit) : (create text data heapBudget stackBudget init).text =
      Bytes.appendList .empty (text.flatMap Word.bytes) := rfl

theorem start_text (m : Memory) : m.start .text = Segment.text.start := rfl

theorem covers_text {a : Address} {size : Nat} :
    m.covers a size .text = true ↔
      Segment.text.start ≤ a.toNat ∧ a.toNat + size ≤ Segment.text.start + m.text.size := by
  unfold covers
  rw [Bool.and_eq_true, decide_eq_true_iff, decide_eq_true_iff]
  rfl

/-- The text is the first region that is looked at. -/
theorem locate_text_iff {a : Address} {offset : Nat} :
    m.locate a 4 = .ok ⟨.text, offset⟩ ↔
      a.isAligned 4 = true ∧ m.covers a 4 .text = true ∧
        offset = a.toNat - Segment.text.start := by
  unfold locate region?
  rw [← m.start_text]
  constructor
  · intro h
    split at h
    · exact nomatch h
    · next ha =>
      split at h
      · next region hregion =>
        obtain ⟨rfl, rfl⟩ := Place.mk.inj (Except.ok.inj h)
        refine ⟨by simpa using ha, ?_, rfl⟩
        split at hregion
        · assumption
        -- Any other region is not the text.
        · repeat' split at hregion
          all_goals exact nomatch hregion
      · exact nomatch h
  · intro ⟨ha, hcovers, hoffset⟩
    simp [ha, hcovers, hoffset]

/-- The words of text are the words of the program. -/
theorem textWord?_eq (h : Bytes.contents m.text = p.words.flatMap Word.bytes) (a : Address) :
    m.textWord? a = (p.index? a).bind (p.words[·]?) := by
  have hsize : m.text.size = 4 * p.text.size := by
    rw [← Bytes.contents_length, h, Word.flatMap_bytes_length, p.words_length]
  have hstart : Segment.text.start = 0x00400000 := rfl
  unfold textWord?
  split
  · next offset hlocate =>
    obtain ⟨ha, hcovers, hoffset⟩ := locate_text_iff.mp hlocate
    obtain ⟨hle, hend⟩ := covers_text.mp hcovers
    have hmod := Address.isAligned_iff.mp ha
    have hlt : (a.toNat - Segment.text.start) / 4 < p.text.size := by omega
    have hword : offset = 4 * ((a.toNat - Segment.text.start) / 4) := by omega
    rw [Program.index?, if_pos ⟨hle, ha, hlt⟩, Option.bind_some, hword,
      Word.ofBytes_slice h (by rwa [p.words_length]),
      List.getElem?_eq_getElem (by rwa [p.words_length])]
  · next hlocate =>
    have hnot : p.index? a = none := by
      unfold Program.index?
      rw [if_neg]
      rintro ⟨hle, ha, hlt⟩
      have hmod := Address.isAligned_iff.mp ha
      exact hlocate _ (locate_text_iff.mpr ⟨ha, covers_text.mpr (by omega), rfl⟩)
    rw [hnot, Option.bind_none]

theorem textWord?_encode (h : Bytes.contents m.text = p.words.flatMap Word.bytes) (a : Address) :
    m.textWord? a = (p.instrAt? a).map Instr.encode := by
  rw [textWord?_eq h, Program.instrAt?]
  cases p.index? a with
  | none => rfl
  | some i =>
    rw [Option.bind_some, Option.bind_some, p.words_getElem?]

end Memory

theorem Program.instrAt?_normal {p : Program} (hnormal : ∀ i ∈ p.text.toList, i.Normal)
    {a : Address} {i : Instr} (h : p.instrAt? a = some i) : i.Normal := by
  obtain ⟨index, -, hindex⟩ := Option.bind_eq_some_iff.mp h
  exact hnormal i (Array.mem_toList_iff.mpr (Array.mem_of_getElem? hindex))

/-! ## Faults -/

/-- Whether an error is one of getting at an instruction, and not one of executing it. -/
def ExecError.isOfFetch : ExecError → Bool
  | illegalInstruction _ | pcOutsideText _ => true
  | _ => false

/-- Whether an attempt ends with an error of getting at the instruction. -/
def StepEnd.isFetchFault : StepEnd → Bool
  | stopped (.fault e) => e.isOfFetch
  | _ => false

theorem wordOfSum_error {trap : Bool} {exact : Int} {e : ExecError}
    (h : wordOfSum trap exact = .error e) : e.isOfFetch = false := by
  unfold wordOfSum at h
  split at h
  · obtain rfl := Except.error.inj h
    rfl
  · exact nomatch h

theorem AluOp.compute_error {op : AluOp} {trap : Bool} {s t : Word} {e : ExecError}
    (h : op.compute trap s t = .error e) : e.isOfFetch = false := by
  cases op with
  | add | sub => exact wordOfSum_error h
  | _ => exact nomatch h

theorem ImmOp.compute_error {op : ImmOp} {trap : Bool} {s i : Word} {e : ExecError}
    (h : op.compute trap s i = .error e) : e.isOfFetch = false := by
  cases op with
  | addi => exact wordOfSum_error h
  | _ => exact nomatch h

theorem MulDivOp.compute_error {op : MulDivOp} {s t : Word} {e : ExecError}
    (h : op.compute s t = .error e) : e.isOfFetch = false := by
  cases op with
  | mult | multu => exact nomatch h
  | div | divu =>
    unfold MulDivOp.compute at h
    simp only at h
    split at h
    · obtain rfl := Except.error.inj h
      rfl
    · exact nomatch h

theorem Instr.effect_error {i : Instr} {pc : Address} {trap : Bool} {regs : Registers}
    {memory : Memory} {e : ExecError} (h : i.effect pc trap regs memory = .error e) :
    e.isOfFetch = false := by
  cases i with
  | alu => exact AluOp.compute_error (map_error_inv h)
  | aluImm => exact ImmOp.compute_error (map_error_inv h)
  | mulDiv => exact MulDivOp.compute_error (map_error_inv h)
  | moveFrom part | moveTo part => cases part <;> exact nomatch h
  | branch =>
    unfold Instr.effect at h
    simp only at h
    split at h <;> exact nomatch h
  | load | store =>
    unfold Instr.effect at h
    simp only at h
    split at h
    · exact nomatch h
    · obtain rfl := Except.error.inj h
      rfl
  | _ => exact nomatch h

namespace Machine

theorem putBytes_isFetchFault (m : Machine) (a : Address) (bytes : List UInt8) :
    (m.putBytes a bytes).1.isFetchFault = false := by
  unfold putBytes
  split <;> rfl

theorem read_isFetchFault {α : Type} (m : Machine) (request : Console → ReadOutcome α × Console)
    {next : Machine → α → StepEnd × Machine}
    (hnext : ∀ m value, (next m value).1.isFetchFault = false) :
    (m.read request next).1.isFetchFault = false := by
  unfold read
  simp only
  split
  · exact hnext _ _
  · next e _ => cases e <;> rfl
  · rfl

theorem readLineInto_isFetchFault (m : Machine) (a : Address) (size : Int) :
    (m.readLineInto a size).1.isFetchFault = false := by
  unfold readLineInto
  split
  · rfl
  · split
    · exact putBytes_isFetchFault m a _
    · exact read_isFetchFault m _ fun m _ => putBytes_isFetchFault m a _

theorem syscall_isFetchFault (m : Machine) : m.syscall.1.isFetchFault = false := by
  unfold syscall
  simp only
  split
  · rfl
  · unfold printString
    split <;> rfl
  · exact read_isFetchFault m _ fun _ _ => rfl
  · exact readLineInto_isFetchFault m _ _
  · unfold growHeap
    simp only
    split <;> rfl
  · rfl
  · rfl
  · exact read_isFetchFault m _ fun _ _ => rfl
  · rfl
  · rfl

/-- Executing an instruction never fails for want of an instruction. -/
theorem execute_isFetchFault (m : Machine) (i : Instr) :
    (m.execute i).1.isFetchFault = false := by
  rw [execute_eq_outcome]
  unfold outcome
  split
  · exact syscall_isFetchFault m
  · rfl
  · split
    · rfl
    · next e h => exact Instr.effect_error h

end Machine

/-! ## Machines with a program -/

/-- A state is right about a program: a fault is put down to the address of the instruction exactly
if there is no instruction, and never to an instruction that cannot be decoded. -/
def Program.Explains (p : Program) (state : ExecState) : Prop :=
  ∀ f, state = .faulted f →
    (∀ word, f.error ≠ .illegalInstruction word) ∧
      ∀ pc, f.error = .pcOutsideText pc ↔ pc = f.pc ∧ p.instrAt? f.pc = none

namespace Machine

/-- A machine has a program, the text of the program, and a state that is right about it. -/
structure Follows (m : Machine) (p : Program) : Prop where
  program : m.program = some p
  text : Bytes.contents m.memory.text = p.words.flatMap Word.bytes
  state : p.Explains m.state

variable {m : Machine} {p : Program}

/-- A machine executes the instruction that its program has at the current address. -/
theorem Follows.step_eq (h : m.Follows p) (hnormal : ∀ i ∈ p.text.toList, i.Normal) :
    m.step =
      match p.instrAt? m.pc with
      | some i => m.execute i
      | none => m.fail (.pcOutsideText m.pc) := by
  unfold step
  rw [Memory.textWord?_encode h.text]
  cases hi : p.instrAt? m.pc with
  | none => rfl
  | some i =>
    rw [Option.map_some]
    simp only [Instr.decode?_encode (p.instrAt?_normal hnormal hi)]

/-- The errors of a step are right about the program. -/
theorem Follows.step_error (h : m.Follows p) (hnormal : ∀ i ∈ p.text.toList, i.Normal) :
    (∀ word, m.step.1 ≠ .stopped (.fault (.illegalInstruction word))) ∧
      ∀ pc, m.step.1 = .stopped (.fault (.pcOutsideText pc)) ↔
        pc = m.pc ∧ p.instrAt? m.pc = none := by
  rw [h.step_eq hnormal]
  cases hi : p.instrAt? m.pc with
  | none =>
    refine ⟨fun word heq => ?_, fun pc => ⟨fun heq => ?_, ?_⟩⟩
    · cases heq
    · cases heq
      exact ⟨rfl, rfl⟩
    · rintro ⟨rfl, -⟩
      rfl
  | some i =>
    have hfault := m.execute_isFetchFault i
    refine ⟨fun word heq => ?_, fun pc => ⟨fun heq => ?_, fun hnone => nomatch hnone.2⟩⟩
    · rw [heq] at hfault
      exact nomatch hfault
    · rw [heq] at hfault
      exact nomatch hfault

/-- The state that an attempt ends in is right about the program. -/
theorem Follows.explains_stateOf (h : m.Follows p)
    (hnormal : ∀ i ∈ p.text.toList, i.Normal) {stop : Stop} {m' : Machine}
    (hstep : m.step = (.stopped stop, m')) : p.Explains (m'.stateOf stop) := by
  intro f hf
  cases stop with
  | fault e =>
    obtain rfl := ExecState.faulted.inj hf
    obtain ⟨hlegal, houtside⟩ := h.step_error hnormal
    -- The fault names the address after the attempt, which a fault leaves as it was.
    have hpc : m'.pc = m.pc := by
      have hturn := m.step_turn
      rw [hstep] at hturn
      cases hturn with
      | rests => rfl
      | completes h => exact nomatch h
    rw [hstep] at hlegal houtside
    refine ⟨fun word heq => hlegal word (by rw [← heq]; rfl), fun pc => ?_⟩
    show e = .pcOutsideText pc ↔ pc = m'.pc ∧ p.instrAt? m'.pc = none
    rw [hpc, ← houtside pc]
    constructor
    · rintro rfl
      rfl
    · intro heq
      cases heq
      rfl
  | _ => exact nomatch hf

theorem explains_of_not_faulted {state : ExecState} (h : ∀ f, state ≠ .faulted f) :
    p.Explains state :=
  fun f hf => absurd hf (h f)

/-- Every move of a run keeps the program in place. -/
theorem follows_kept (hnormal : ∀ i ∈ p.text.toList, i.Normal) :
    Kept fun m => m.Follows p where
  starts h := ⟨h.program, h.text, explains_of_not_faulted fun f => nofun⟩
  goesOn {m m' ended} h hstep := by
    have hturn := m.step_turn
    rw [hstep] at hturn
    exact ⟨hturn.program.trans h.program, hturn.text ▸ h.text, hturn.state ▸ h.state⟩
  stops {m m' stop} h hstep := by
    have hturn := m.step_turn
    rw [hstep] at hturn
    exact ⟨hturn.program.trans h.program, hturn.text ▸ h.text, h.explains_stateOf hnormal hstep⟩
  pauses reason h := ⟨h.program, h.text, explains_of_not_faulted fun f => nofun⟩
  halts h := ⟨h.program, h.text, explains_of_not_faulted fun f => nofun⟩

theorem reset_program (m : Machine) : m.reset.program = m.program := by simp only [reset]

theorem reset_state (m : Machine) : m.reset.state = .loaded := rfl

theorem reset_text (h : m.program = some p) :
    Bytes.contents m.reset.memory.text = p.words.flatMap Word.bytes := by
  show Bytes.contents (initialMemory m.flags m.program).text = _
  rw [h, initialMemory, Memory.create_text, Bytes.contents_appendList, Bytes.contents_empty,
    List.nil_append, Option.map_some, Option.getD_some]

theorem follows_reset (h : m.program = some p) : m.reset.Follows p where
  program := (reset_program m).trans h
  text := reset_text h
  state := by
    rw [reset_state]
    exact explains_of_not_faulted fun f => nofun

/-- No operation takes the program away. -/
theorem follows_perform (hnormal : ∀ i ∈ p.text.toList, i.Normal) (m : Machine)
    (operation : Operation) (h : m.Follows p) : (m.perform operation).Follows p := by
  cases operation with
  | writeWord a value =>
    show (m.writeWord a value).2.Follows p
    rw [writeWord_eq]
    cases hlocate : m.memory.locateWritable a 4 with
    | error e => exact h
    | ok place =>
      have htext := Memory.overwrite_text (m := m.memory) (Word.bytes value)
        (Memory.locateWritable_region hlocate)
      exact ⟨h.program, (congrArg Bytes.contents htext).trans h.text, h.state⟩
  | reset => exact follows_reset h.program
  | setRegister | setPc | setConsole | setFlags | setBreakpoints | setEvents =>
    exact ⟨h.program, h.text, h.state⟩
  | _ => exact (follows_kept hnormal).perform rfl h

theorem follows_after (hnormal : ∀ i ∈ p.text.toList, i.Normal) (start : Machine)
    (operations : List Operation) : ((start.load p).after operations).Follows p :=
  after_induction (follows_perform hnormal) (follows_reset rfl) operations

end Machine

/-- Whatever is done to a machine that has been started with an assembled program, at every address
its text decodes to the instruction of the program there, or to none if there is none. So each step
executes the instruction of the program at the current address, no instruction is ever illegal, and
the address is outside of the text exactly if the program has no instruction there. -/
theorem fetch_faithful (source : Source) (start : Machine) (operations : List Machine.Operation) :
    let p := (assemble source).program
    let m := (start.load p).after operations
    (∀ a, (m.memory.textWord? a).bind Instr.decode? = p.instrAt? a) ∧
      (m.step = match p.instrAt? m.pc with
        | some i => m.execute i
        | none => m.fail (.pcOutsideText m.pc)) ∧
      (∀ word, m.step.1 ≠ .stopped (.fault (.illegalInstruction word))) ∧
      (∀ pc, m.step.1 = .stopped (.fault (.pcOutsideText pc)) ↔
        pc = m.pc ∧ p.instrAt? m.pc = none) ∧
      p.Explains m.state := by
  intro p m
  have hnormal : ∀ i ∈ p.text.toList, i.Normal := Program.ofStatements_normal _ source
  have h : m.Follows p := Machine.follows_after hnormal start operations
  refine ⟨fun a => ?_, h.step_eq hnormal, (h.step_error hnormal).1, (h.step_error hnormal).2,
    h.state⟩
  rw [Memory.textWord?_encode h.text]
  cases hi : p.instrAt? a with
  | none => rfl
  | some i => exact Instr.decode?_encode (p.instrAt?_normal hnormal hi)

/-- Running past the end of a program of one instruction. -/
theorem fetch_faithful_past_end :
    let p := (assemble (.ofString "main: nop")).program
    let m := (((Machine.create { stackBudget := 0 }).load p).after [.run 2])
    m.state = .faulted ⟨0x00400004, none, .pcOutsideText 0x00400004⟩ ∧
      p.instrAt? 0x00400004 = none := by
  intro p m
  have hstate : m.state = .faulted ⟨0x00400004, none, .pcOutsideText 0x00400004⟩ := by
    decide +kernel
  obtain ⟨-, -, -, -, hexplains⟩ := fetch_faithful (.ofString "main: nop")
    (Machine.create { stackBudget := 0 }) [.run 2]
  exact ⟨hstate, (((hexplains _ hstate).2 0x00400004).mp rfl).2⟩

end MipsLab
