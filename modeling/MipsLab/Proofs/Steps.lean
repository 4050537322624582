import MipsLab.Proofs.Outcomes

/-!
# What one instruction does

The attempt at an instruction either leaves everything but the input as it was, or completes the
instruction. What holds of all machines on the way through a program is proved from this case
distinction, and not from the instructions one by one.

1. `Machine.Turn`: all that the attempt at an instruction can do.
2. `Machine.execute_turn`, `Machine.step_turn`: it does one of these.
-/

namespace MipsLab

/-! ## Writing -/

/-- What an instruction may make of the memory without growing the heap: bytes are replaced at
places that may be written. -/
inductive Memory.Written (m : Memory) : Memory → Prop
  | nothing : Written m m
  | access {a : Address} {place : Place} {bytes : List UInt8}
      (h : m.locateWritable a bytes.length = .ok place) : Written m (m.overwrite place bytes)
  | each {a : Address} {places : List Place} {bytes : List UInt8}
      (h : m.locateEach a bytes.length = .ok places) : Written m (m.overwriteEach places bytes)

namespace Memory

variable {m m' : Memory} {a : Address} {place : Place} {places : List Place}

theorem locateWritable_region {size : Nat} (h : m.locateWritable a size = .ok place) :
    place.region ≠ .text := by
  unfold locateWritable at h
  obtain ⟨located, -, h⟩ := bind_ok_inv h
  intro hregion
  simp only [bind, Except.bind, throw, throwThe, MonadExceptOf.throw, pure, Except.pure] at h
  grind

theorem overwrite_text (bytes : List UInt8) (h : place.region ≠ .text) :
    (m.overwrite place bytes).text = m.text := by
  unfold overwrite
  split
  · next hregion => exact absurd hregion h
  all_goals rfl

theorem overwriteEach_text (bytes : List UInt8) (h : ∀ place ∈ places, place.region ≠ .text) :
    (m.overwriteEach places bytes).text = m.text := by
  unfold overwriteEach
  induction places generalizing m bytes with
  | nil => rfl
  | cons place places ih =>
    cases bytes with
    | nil => rfl
    | cons b bytes =>
      have hplace := h place List.mem_cons_self
      have hplaces := fun p hp => h p (List.mem_cons_of_mem place hp)
      rw [List.zip_cons_cons, List.foldl_cons, ih bytes hplaces, overwrite_text [b] hplace]

theorem locateEach_region {count : Nat} (h : m.locateEach a count = .ok places) :
    ∀ place ∈ places, place.region ≠ .text := by
  intro place hplace
  obtain ⟨i, -, hi⟩ := mapM_ok_mem h place hplace
  unfold locateBehind at hi
  split at hi
  · exact locateWritable_region hi
  · exact nomatch hi

/-- No instruction writes to the text. -/
theorem Written.text (h : m.Written m') : m'.text = m.text := by
  cases h with
  | nothing => rfl
  | access h => exact overwrite_text _ (locateWritable_region h)
  | each h => exact overwriteEach_text _ (locateEach_region h)

end Memory

/-! ## Reading from a console -/

namespace Console

theorem stall_output {α : Type} (c : Channel) : (c.stall (α := α)).2.output = c.output := by
  unfold Channel.stall
  split
  · rfl
  · split <;> rfl

theorem start_output (c : Channel) : c.start.output = c.output := by
  unfold Channel.start
  split <;> rfl

theorem readLine_output (c : Console) : c.readLine.2.output = c.output := by
  cases c with
  | closed | foreign => rfl
  | buffered b =>
    show b.readLine.2.output = b.output
    unfold Buffer.readLine
    split <;> rfl
  | channel c =>
    show c.readLine.2.output = c.output
    unfold Channel.readLine
    simp only
    split
    · exact start_output c
    · split
      · exact start_output c
      · rw [stall_output]
        exact start_output c

theorem readChar_output (c : Console) : c.readChar.2.output = c.output := by
  cases c with
  | closed | foreign => rfl
  | buffered b =>
    show b.readChar.2.output = b.output
    unfold Buffer.readChar
    split <;> rfl
  | channel c =>
    show c.readChar.2.output = c.output
    unfold Channel.readChar
    split
    · rfl
    · split
      · exact start_output c
      · rw [stall_output, start_output]

theorem readInt_output (c : Console) : c.readInt.2.output = c.output := by
  cases c with
  | closed | foreign => rfl
  | buffered b => exact readLine_output (.buffered b)
  | channel c => exact readLine_output (.channel c)

end Console

/-! ## Turns -/

/-- Whether the attempt has completed its instruction. -/
def StepEnd.isCompletion : StepEnd → Bool
  | ran | stopped (.halt _) | stopped .pause => true
  | stopped .cancelled | stopped (.fault _) | waiting => false

namespace Machine

/-- What the attempt at an instruction can come to. -/
inductive Turn (m : Machine) : StepEnd → Machine → Prop
  /-- The instruction is not completed. Some input may have been used up. -/
  | rests {ended : StepEnd} {console : Console} (h : ended.isCompletion = false)
      (houtput : console.output = m.console.output) : Turn m ended { m with console }
  /-- The instruction is completed, and has not made the heap grow. -/
  | completes {ended : StepEnd} {registers : Registers} {memory : Memory} {calls : CallStack}
      {console : Console} {next : Address} (h : ended.isCompletion = true)
      (hmemory : m.memory.Written memory) :
      Turn m ended ({ m with registers, memory, calls, console }.complete next)
  /-- The heap grows. -/
  | grows {requested : Word} (h : m.memory.heapError? (heapRequest requested) = none) :
      Turn m .ran
        ({ m with
          registers := m.registers.set Reg.v0 (UInt32.ofNat m.memory.brk)
          memory := m.memory.extendHeap (heapRequest requested)
          events := m.events.emit (.heapGrew (UInt32.ofNat m.memory.brk)
            (UInt32.ofNat (m.memory.brk + heapRequest requested))) }.complete (m.pc + 4))

variable {m : Machine}

/-! ## System calls -/

theorem fail_turn (m : Machine) (error : ExecError) : m.Turn (m.fail error).1 (m.fail error).2 :=
  .rests rfl rfl

theorem print_turn (m : Machine) (write : Console → Console) :
    m.Turn (m.print write).1 (m.print write).2 :=
  .completes rfl .nothing

theorem ofReadError_isCompletion (e : ReadError) :
    (StepEnd.stopped (Stop.ofReadError e)).isCompletion = false := by
  cases e <;> rfl

theorem putBytes_turn {console : Console} (houtput : console.output = m.console.output)
    (a : Address) (bytes : List UInt8) :
    m.Turn ({ m with console }.putBytes a bytes).1 ({ m with console }.putBytes a bytes).2 := by
  unfold putBytes
  split
  · next memory h =>
    obtain ⟨places, hplaces, rfl⟩ := map_ok_inv h
    exact .completes rfl (.each hplaces)
  · exact .rests rfl houtput

theorem answer_turn (m : Machine) (console : Console) (value : Word) :
    m.Turn ({ m with console }.answer value).1 ({ m with console }.answer value).2 :=
  .completes rfl .nothing

theorem read_turn {α : Type} {request : Console → ReadOutcome α × Console}
    {next : Machine → α → StepEnd × Machine} (hrequest : ∀ c, (request c).2.output = c.output)
    (hnext : ∀ console value, console.output = m.console.output →
      m.Turn (next { m with console } value).1 (next { m with console } value).2) :
    m.Turn (m.read request next).1 (m.read request next).2 := by
  have houtput := hrequest m.console
  unfold read
  simp only
  split
  · exact hnext _ _ houtput
  · next e _ => exact .rests (ofReadError_isCompletion e) houtput
  · exact .rests rfl houtput

theorem readLineInto_turn (m : Machine) (a : Address) (size : Int) :
    m.Turn (m.readLineInto a size).1 (m.readLineInto a size).2 := by
  unfold readLineInto
  split
  · exact .completes rfl .nothing
  · split
    · exact putBytes_turn rfl a _
    · -- The line is used up whether or not its bytes can be put down.
      exact read_turn Console.readLine_output fun _ _ h => putBytes_turn h a _

theorem growHeap_turn (m : Machine) (requested : Word) :
    m.Turn (m.growHeap requested).1 (m.growHeap requested).2 := by
  unfold growHeap
  simp only
  split
  · exact fail_turn m _
  · next h => exact .grows h

theorem printString_turn (m : Machine) (a : Address) :
    m.Turn (m.printString a).1 (m.printString a).2 := by
  unfold printString
  split
  · exact print_turn m _
  · exact fail_turn m _

theorem syscall_turn (m : Machine) : m.Turn m.syscall.1 m.syscall.2 := by
  unfold syscall
  simp only
  split
  · exact print_turn m _
  · exact printString_turn m _
  · exact read_turn Console.readInt_output fun console n _ => answer_turn m console _
  · exact readLineInto_turn m _ _
  · exact growHeap_turn m _
  · exact .completes rfl .nothing
  · exact print_turn m _
  · exact read_turn Console.readChar_output fun console b _ => answer_turn m console _
  · exact .completes rfl .nothing
  · exact fail_turn m _

end Machine

/-! ## Instructions -/

/-- The only instructions that write to memory have located the place before. -/
theorem Instr.effect_store {i : Instr} {pc : Address} {trap : Bool} {regs : Registers}
    {memory : Memory} {e : Effect} {place : Place} {bytes : List UInt8}
    (h : i.effect pc trap regs memory = .ok e) (hstore : e.store = some (place, bytes)) :
    ∃ a, memory.locateWritable a bytes.length = .ok place := by
  cases i with
  | store width rt base offset =>
    unfold Instr.effect at h
    simp only at h
    split at h
    · next located hlocated =>
      obtain rfl := Except.ok.inj h
      obtain ⟨rfl, rfl⟩ := Prod.mk.inj (Option.some.inj hstore)
      exact ⟨_, by rw [width.storedBytes_length]; exact hlocated⟩
    · exact nomatch h
  | alu | aluImm | mulDiv =>
    obtain ⟨_, -, rfl⟩ := map_ok_inv h
    exact nomatch hstore
  | moveFrom part rd | moveTo part rs =>
    cases part <;>
    · obtain rfl := Except.ok.inj h
      exact nomatch hstore
  | branch cond rs rt offset =>
    unfold Instr.effect at h
    simp only at h
    split at h <;>
    · obtain rfl := Except.ok.inj h
      exact nomatch hstore
  | load width rt base offset =>
    unfold Instr.effect at h
    simp only at h
    split at h
    · obtain rfl := Except.ok.inj h
      exact nomatch hstore
    · exact nomatch h
  | _ =>
    obtain rfl := Except.ok.inj h
    exact nomatch hstore

namespace Machine

variable {m : Machine}

theorem apply_turn (m : Machine) {i : Instr} {trap : Bool} {e : Effect}
    (h : i.effect m.pc trap m.registers m.memory = .ok e) : m.Turn .ran (m.apply e) := by
  refine .completes rfl ?_
  unfold Effect.onMemory
  split
  · next place bytes hstore =>
    obtain ⟨a, hlocated⟩ := Instr.effect_store h hstore
    exact .access hlocated
  · exact .nothing

/-- Executing an instruction is a turn. -/
theorem execute_turn (m : Machine) (i : Instr) : m.Turn (m.execute i).1 (m.execute i).2 := by
  rw [execute_eq_outcome]
  unfold outcome
  split
  · exact syscall_turn m
  · exact .completes rfl .nothing
  · split
    · next effect h => exact apply_turn m h
    · exact fail_turn m _

/-- The attempt at an instruction is a turn. -/
theorem step_turn (m : Machine) : m.Turn m.step.1 m.step.2 := by
  unfold step
  split
  · exact fail_turn m _
  · split
    · exact fail_turn m _
    · next i _ => exact execute_turn m i

/-! ## What no turn changes -/

namespace Turn

variable {ended : StepEnd} {m' : Machine}

theorem program (h : m.Turn ended m') : m'.program = m.program := by cases h <;> rfl

theorem state (h : m.Turn ended m') : m'.state = m.state := by cases h <;> rfl

theorem text (h : m.Turn ended m') : m'.memory.text = m.memory.text := by
  cases h with
  | rests => rfl
  | completes _ hmemory => exact hmemory.text
  | grows => rfl

end Turn

end Machine

end MipsLab
