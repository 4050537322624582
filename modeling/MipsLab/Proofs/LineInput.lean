import MipsLab.Proofs.ChannelSession
import MipsLab.Proofs.DirectOperands
import MipsLab.Proofs.Strings

/-!
# Lines of input

A program reads a line into a buffer of its own, whose size it tells. Whatever the line is like, no
byte outside of the buffer changes, and a buffer that cannot be written to as a whole stays as it
is. A line is given by a console in the ways that `Console.GivesLine` lists: it ends with a newline,
or with the input.

1. `Console.GivesLine`, `Console.AtEnd`, `Console.Pending`: what a console may do when it is asked.
2. `Machine.Stored`, `Machine.Puts`: what a machine has done with some bytes.
3. `Machine.ReadsLineInto`: what reading a line is, by the size of the buffer.
4. `line_input_bounded`: every such system call of an assembled program.
-/

namespace MipsLab

/-! ## Lines of consoles -/

namespace Console

/-- A console gives a line when it is asked for one, and is another one afterwards. A line goes up
to its newline, which is used up too, or up to the end of the input. -/
inductive GivesLine : Console → String → Console → Prop
  | bufferedLine {b : Buffer} {line rest : List UInt8}
    (h : b.input = line ++ newlineByte :: rest) (hline : newlineByte ∉ line) :
    GivesLine (.buffered b) (lineText line) (.buffered { b with input := rest })
  | bufferedLast {b : Buffer} (hline : newlineByte ∉ b.input) (hsome : b.input ≠ []) :
    GivesLine (.buffered b) (lineText b.input) (.buffered { b with input := [] })
  | channelLine {c : Channel} {line rest : List UInt8}
    (h : c.arrived = line ++ newlineByte :: rest) (hline : newlineByte ∉ line) :
    GivesLine (.channel c) (lineText (c.partialLine ++ line))
      (.channel { c.start.finish with arrived := rest, partialLine := [] })
  | channelLast {c : Channel} (hclosed : c.isOpen = false) (hline : newlineByte ∉ c.arrived)
    (hsome : c.partialLine ++ c.arrived ≠ []) :
    GivesLine (.channel c) (lineText (c.partialLine ++ c.arrived))
      (.channel { c.start.finish with arrived := [], partialLine := [] })
  | foreign {s : Script} {line : String} (h : s.line s.asked = .done line) :
    GivesLine (.foreign s) line (.foreign s.next)

/-- A console has no more input, and never will have. -/
inductive AtEnd : Console → Prop
  | closed : AtEnd .closed
  | buffered {b : Buffer} (h : b.input = []) : AtEnd (.buffered b)
  | channel {c : Channel} (hclosed : c.isOpen = false) (hnone : c.partialLine ++ c.arrived = []) :
    AtEnd (.channel c)
  | foreign {s : Script} (h : s.line s.asked = .failed .closed) : AtEnd (.foreign s)

/-- A console has no line yet, or has another reason not to give one. -/
inductive Pending : Console → Prop
  | channel {c : Channel} (hopen : c.isOpen = true) (h : newlineByte ∉ c.arrived) :
    Pending (.channel c)
  | foreign {s : Script} (hline : ∀ line, s.line s.asked ≠ .done line)
    (hopen : s.line s.asked ≠ .failed .closed) : Pending (.foreign s)

variable {console after : Console} {line : String}

theorem splitLine_of_not_mem {bytes : List UInt8} (h : newlineByte ∉ bytes) :
    splitLine bytes = (bytes, none) := by
  have happend := splitLine_append h []
  rw [List.append_nil, splitLine, List.append_nil] at happend
  exact happend

theorem splitLine_newline {line : List UInt8} (h : newlineByte ∉ line) (rest : List UInt8) :
    splitLine (line ++ newlineByte :: rest) = (line, some rest) := by
  rw [splitLine_append h, splitLine, if_pos rfl, List.append_nil]

theorem readLine_buffered {b : Buffer} (hsome : b.input ≠ []) {line : List UInt8}
    {rest : Option (List UInt8)} (h : splitLine b.input = (line, rest)) :
    (buffered b).readLine = (.done (lineText line), buffered { b with input := rest.getD [] }) := by
  have hread : b.readLine = (.done (lineText line), { b with input := rest.getD [] }) := by
    unfold Buffer.readLine
    rw [if_neg (by simpa using hsome)]
    simp only [h]
  show (b.readLine.1, buffered b.readLine.2) = _
  rw [hread]

theorem readLine_channel (c : Channel) :
    (channel c).readLine = (c.readLine.1, channel c.readLine.2) := rfl

theorem GivesLine.readLine_eq (h : GivesLine console line after) :
    console.readLine = (.done line, after) := by
  cases h with
  | bufferedLine h hline =>
    exact readLine_buffered (by simp [h]) (h ▸ splitLine_newline hline _)
  | bufferedLast hline hsome => exact readLine_buffered hsome (splitLine_of_not_mem hline)
  | channelLine h hline =>
    rw [readLine_channel, Channel.readLine_whole (h ▸ splitLine_newline hline _)]
  | channelLast hclosed hline hsome =>
    rw [readLine_channel, Channel.readLine_last (splitLine_of_not_mem hline) hclosed hsome]
  | @foreign s _ h => exact congrArg (·, Console.foreign s.next) h

theorem AtEnd.readLine_eq (h : AtEnd console) :
    ∃ after, console.readLine = (.failed .closed, after) := by
  cases h with
  | closed => exact ⟨_, rfl⟩
  | @buffered b h =>
    have hread : b.readLine = (.failed .closed, b) := if_pos (List.isEmpty_iff.mpr h)
    refine ⟨.buffered b, ?_⟩
    show (b.readLine.1, Console.buffered b.readLine.2) = _
    rw [hread]
  | @channel c hclosed hnone =>
    have harrived := (List.append_eq_nil_iff.mp hnone).2
    have hsplit : splitLine c.arrived = (c.arrived, none) := by rw [harrived]; rfl
    have hclosed' : c.start.isOpen = false := c.start_sameInput.isOpen.trans hclosed
    rw [readLine_channel, Channel.readLine_none hsplit (.inr hnone)]
    unfold Channel.stall
    rw [if_pos (by simp [hclosed'])]
    exact ⟨_, rfl⟩
  | @foreign s h => exact ⟨.foreign s.next, congrArg (·, Console.foreign s.next) h⟩

/-- A console that is pending gives nothing, and is not closed. -/
theorem Pending.readLine_ne (h : Pending console) :
    (∀ line, console.readLine.1 ≠ .done line) ∧ console.readLine.1 ≠ .failed .closed := by
  cases h with
  | @channel c hopen h =>
    have hopen' : c.start.isOpen = true := c.start_sameInput.isOpen.trans hopen
    rw [readLine_channel, Channel.readLine_none (splitLine_of_not_mem h) (.inl hopen)]
    unfold Channel.stall
    rw [if_neg (by simp [hopen'])]
    split <;> exact ⟨nofun, nofun⟩
  | foreign hline hopen => exact ⟨hline, hopen⟩

/-- A console does one of the three when it is asked for a line. -/
theorem givesLine_or (console : Console) :
    (∃ line after, GivesLine console line after) ∨ AtEnd console ∨ Pending console := by
  cases console with
  | closed => exact .inr (.inl .closed)
  | buffered b =>
    by_cases hnone : b.input = []
    · exact .inr (.inl (.buffered hnone))
    cases hsplit : splitLine b.input with
    | mk line rest =>
      cases rest with
      | some rest =>
        obtain ⟨hline, h⟩ := splitLine_eq_some hsplit
        exact .inl ⟨_, _, .bufferedLine h hline⟩
      | none => exact .inl ⟨_, _, .bufferedLast (splitLine_none hsplit).2 hnone⟩
  | channel c =>
    cases hsplit : splitLine c.arrived with
    | mk line rest =>
      cases rest with
      | some rest =>
        obtain ⟨hline, h⟩ := splitLine_eq_some hsplit
        exact .inl ⟨_, _, .channelLine h hline⟩
      | none =>
        have hline := (splitLine_none hsplit).2
        cases hopen : c.isOpen with
        | true => exact .inr (.inr (.channel hopen hline))
        | false =>
          by_cases hnone : c.partialLine ++ c.arrived = []
          · exact .inr (.inl (.channel hopen hnone))
          · exact .inl ⟨_, _, .channelLast hopen hline hnone⟩
  | foreign s =>
    cases hread : s.line s.asked with
    | done line => exact .inl ⟨line, _, .foreign hread⟩
    | failed e =>
      by_cases he : e = .closed
      · exact .inr (.inl (.foreign (he ▸ hread)))
      · refine .inr (.inr (.foreign (by rw [hread]; nofun) ?_))
        rw [hread]
        exact fun heq => he (ReadOutcome.failed.inj heq)
    | waiting =>
      exact .inr (.inr (.foreign (by rw [hread]; nofun) (by rw [hread]; nofun)))

end Console

/-! ## Putting bytes -/

namespace Machine

/-- A machine has completed an instruction that has put bytes from an address on, and has changed
nothing else. -/
structure Stored (m : Machine) (a : Address) (bytes : List UInt8) (m' : Machine) : Prop where
  state : m'.state = .paused .step
  completed : m'.completed = m.completed + 1
  pc : m'.pc = m.pc + 4
  registers : m'.registers = m.registers
  memory : m'.memory.flat = m.memory.flat.put a.toNat bytes
  same : m.SameApart m'

/-- A machine has put bytes from an address on, if all of them could be put. Otherwise it has failed
for the first one that could not. -/
def Puts (m : Machine) (a : Address) (bytes : List UInt8) (m' : Machine) : Prop :=
  (∀ i, i < bytes.length → m.memory.flat.Writable (a.toNat + i)) ∧ m.Stored a bytes m' ∨
    ∃ c, m.memory.flat.Offends a.toNat bytes.length c ∧
      m.Failed (.memory (m.memory.flat.refusal c)) m'

variable {m m' : Machine} {a : Address} {bytes : List UInt8} {size : Int} {console : Console}

theorem Puts.registers (h : m.Puts a bytes m') : m'.registers = m.registers := by
  rcases h with ⟨-, hstored⟩ | ⟨c, -, hfailed⟩
  · exact hstored.registers
  · exact hfailed.registers

/-- Bytes that can all be put are put. -/
theorem Puts.stored (h : m.Puts a bytes m')
    (hall : ∀ c, a.toNat ≤ c → c < a.toNat + bytes.length → m.memory.flat.Writable c) :
    m.Stored a bytes m' := by
  rcases h with ⟨-, hstored⟩ | ⟨c, hc, -⟩
  · exact hstored
  · exact absurd (hall c hc.le hc.lt) hc.not_writable

/-- Nothing changes outside of a buffer that the bytes fit. -/
theorem Puts.outside (h : m.Puts a bytes m') (hfits : (bytes.length : Int) ≤ size) {c : Nat}
    (hc : (c : Int) < a.toNat ∨ a.toNat + size ≤ c) :
    m'.memory.flat.byte? c = m.memory.flat.byte? c := by
  rcases h with ⟨-, hstored⟩ | ⟨c, -, hfailed⟩
  · rw [hstored.memory, FlatMemory.put_byte?, if_neg (by omega)]
  · rw [hfailed.memory]

/-- A step that puts bytes after it has read from the console, or without. -/
theorem puts_of_step (halive : m.state.isTerminal = false) (hlaid : m.memory.LaidOut)
    (hstep : m.step = { m with console }.putBytes a bytes) :
    { m with console }.Puts a bytes m.stepIn.2 := by
  unfold putBytes at hstep
  rcases hlaid.writeBytes_cases a bytes with ⟨memory, hall, hwrite, hput⟩ | ⟨c, hc, -, hwrite⟩
  · simp only [hwrite] at hstep
    refine .inl ⟨hall, ?_⟩
    rw [stepIn_ran halive hstep]
    exact ⟨rfl, rfl, rfl, rfl, hput, rfl⟩
  · simp only [hwrite] at hstep
    refine .inr ⟨c, hc, ?_⟩
    rw [stepIn_stopped halive hstep]
    exact failed_enter _ _

/-! ## Reading a line -/

/-- The bytes of a line with a newline, as far as there is room in front of a zero. -/
def fitted (line : String) (size : Int) : List UInt8 :=
  let bytes := Bytes.utf8 line ++ [newlineByte]
  bytes.take (min (size - 1).toNat bytes.length) ++ [0]

theorem fitted_length (line : String) {size : Int} (h : 1 < size) :
    ((fitted line size).length : Int) ≤ size := by
  unfold fitted
  rw [List.length_append, List.length_take, List.length_singleton]
  omega

theorem lineBytes_eq (line : String) {size : Int} (h : 1 < size) :
    lineBytes line size.toNat = fitted line size := by
  have hsize : (size - 1).toNat = size.toNat - 1 := by omega
  unfold lineBytes fitted
  rw [hsize, List.take_eq_take_min]

/-- What reading a line into a buffer of `size` bytes is. -/
structure ReadsLineInto (m : Machine) (a : Address) (size : Int) (m' : Machine) : Prop where
  /-- Without room nothing is read or written. -/
  noRoom : size ≤ 0 → m.Stored a [] m' ∧ m'.memory = m.memory
  /-- Where there is room for a zero only, nothing is read. -/
  zeroOnly : size = 1 → m.Puts a [0] m'
  line : 1 < size → ∀ line console, m.console.GivesLine line console →
    { m with console }.Puts a (fitted line size) m'
  ended : 1 < size → m.console.AtEnd → ∃ console, { m with console }.Failed .inputClosed m'
  pending : 1 < size → m.console.Pending → m'.memory = m.memory
  registers : m'.registers = m.registers
  /-- Nothing outside of the buffer is touched. -/
  outside (c : Nat) : (c : Int) < a.toNat ∨ a.toNat + size ≤ c →
    m'.memory.flat.byte? c = m.memory.flat.byte? c

theorem IsAt.step_syscall (h : m.IsAt .syscall) : m.step = m.syscall := by
  unfold step
  rw [h.word]
  simp only [Instr.decode?_encode h.normal]
  exact execute_eq_outcome m .syscall

theorem syscall_readLine (h : m.registers.get Reg.v0 = 8) :
    m.syscall =
      m.readLineInto (m.registers.get Reg.a0) (Word.signed (m.registers.get Reg.a1)) := by
  unfold syscall
  rw [h]
  rfl

/-- A read that gives nothing changes the console at most. -/
theorem read_failed {α : Type} {m : Machine} {next : Machine → α → StepEnd × Machine}
    {request : Console → ReadOutcome α × Console} (halive : m.state.isTerminal = false)
    (hstep : m.step = m.read request next) (hnone : ∀ value, (request m.console).1 ≠ .done value) :
    m.stepIn.2.memory = m.memory ∧ m.stepIn.2.registers = m.registers := by
  unfold read at hstep
  cases hread : request m.console with
  | mk outcome console =>
    simp only [hread] at hstep hnone
    cases outcome with
    | done value => exact absurd rfl (hnone value)
    | failed e =>
      rw [stepIn_stopped halive hstep]
      exact ⟨rfl, rfl⟩
    | waiting =>
      rw [stepIn_waiting halive hstep]
      exact ⟨rfl, rfl⟩

theorem readsLineInto_of_nonpos (halive : m.state.isTerminal = false) (hsize : size ≤ 0)
    (hstep : m.step = m.readLineInto a size) : m.ReadsLineInto a size m.stepIn.2 := by
  unfold readLineInto at hstep
  rw [if_pos hsize] at hstep
  have hstored : m.stepIn.2 = (m.complete (m.pc + 4)).enter (.paused .step) := by
    rw [stepIn_ran halive hstep]
    rfl
  rw [hstored]
  exact
    { noRoom := fun _ => ⟨⟨rfl, rfl, rfl, rfl, (FlatMemory.put_nil _ _).symm, rfl⟩, rfl⟩
      zeroOnly := fun h => by omega
      line := fun h => by omega
      ended := fun h => by omega
      pending := fun h => by omega
      registers := rfl
      outside := fun _ _ => rfl }

theorem readsLineInto_of_one (halive : m.state.isTerminal = false) (hlaid : m.memory.LaidOut)
    (hstep : m.step = m.readLineInto a 1) : m.ReadsLineInto a 1 m.stepIn.2 := by
  have hputs : m.Puts a [0] m.stepIn.2 := puts_of_step halive hlaid hstep
  exact
    { noRoom := fun h => absurd h (by decide)
      zeroOnly := fun _ => hputs
      line := fun h => absurd h (by decide)
      ended := fun h => absurd h (by decide)
      pending := fun h => absurd h (by decide)
      registers := hputs.registers
      outside := fun c => hputs.outside (by decide) }

theorem readsLineInto_of_room (halive : m.state.isTerminal = false) (hlaid : m.memory.LaidOut)
    (hsize : 1 < size) (hstep : m.step = m.readLineInto a size) :
    m.ReadsLineInto a size m.stepIn.2 := by
  unfold readLineInto at hstep
  rw [if_neg (by omega), if_neg (by omega)] at hstep
  have hline (line : String) (console : Console) (h : m.console.GivesLine line console) :
      { m with console }.Puts a (fitted line size) m.stepIn.2 := by
    refine puts_of_step halive hlaid ?_
    rw [hstep, ← lineBytes_eq line hsize]
    unfold read
    simp only [h.readLine_eq]
  have hended (h : m.console.AtEnd) :
      ∃ console, { m with console }.Failed .inputClosed m.stepIn.2 := by
    obtain ⟨console, hread⟩ := h.readLine_eq
    unfold read at hstep
    simp only [hread] at hstep
    rw [stepIn_stopped halive hstep]
    exact ⟨console, failed_enter _ _⟩
  have hpending (h : m.console.Pending) :
      m.stepIn.2.memory = m.memory ∧ m.stepIn.2.registers = m.registers :=
    read_failed halive hstep h.readLine_ne.1
  have hboth : m.stepIn.2.registers = m.registers ∧
      ∀ c : Nat, (c : Int) < a.toNat ∨ a.toNat + size ≤ c →
        m.stepIn.2.memory.flat.byte? c = m.memory.flat.byte? c := by
    rcases m.console.givesLine_or with ⟨line, console, h⟩ | h | h
    · have hputs := hline line console h
      exact ⟨hputs.registers, fun c => hputs.outside (fitted_length line hsize)⟩
    · obtain ⟨console, hfailed⟩ := hended h
      exact ⟨hfailed.registers, fun c _ => by rw [hfailed.memory]⟩
    · obtain ⟨hmemory, hregisters⟩ := hpending h
      exact ⟨hregisters, fun c _ => by rw [hmemory]⟩
  exact
    { noRoom := fun h => by omega
      zeroOnly := fun h => by omega
      line := fun _ => hline
      ended := fun _ => hended
      pending := fun _ h => (hpending h).1
      registers := hboth.1
      outside := hboth.2 }

theorem stepIn_readLineInto (halive : m.state.isTerminal = false) (hlaid : m.memory.LaidOut)
    (hstep : m.step = m.readLineInto a size) : m.ReadsLineInto a size m.stepIn.2 := by
  rcases Int.lt_trichotomy size 1 with hnone | rfl | hroom
  · exact readsLineInto_of_nonpos halive (Int.lt_add_one_iff.mp hnone) hstep
  · exact readsLineInto_of_one halive hlaid hstep
  · exact readsLineInto_of_room halive hlaid hroom hstep

end Machine

/-- Whatever has been done to a machine with an assembled program, it reads a line into the buffer
that the program has told it, and touches nothing else. The console has a line, or no input any
more, or it has not decided yet. -/
theorem line_input_bounded (source : Source) (start : Machine)
    (operations : List Machine.Operation) :
    let m := (start.load (assemble source).program).after operations
    m.IsAt .syscall → m.registers.get Reg.v0 = 8 →
      m.ReadsLineInto (m.registers.get Reg.a0) (Word.signed (m.registers.get Reg.a1)) m.stepIn.2 ∧
        ((∃ line console, m.console.GivesLine line console) ∨ m.console.AtEnd ∨
          m.console.Pending) := by
  intro m hat hservice
  have hlaid : m.memory.LaidOut := Machine.laidOut_after source start operations
  have hstep := hat.step_syscall.trans (Machine.syscall_readLine hservice)
  exact ⟨Machine.stepIn_readLineInto hat.alive hlaid hstep, m.console.givesLine_or⟩

/-- A line that is too long for its buffer, and the input that is left. -/
theorem line_input_bounded_long :
    let source : Source :=
      .ofString ".data\nbuf: .space 4\n.text\nli $v0, 8\nla $a0, buf\nli $a1, 3\nsyscall"
    let start := Machine.create { heapBudget := 12, stackBudget := 4 }
    let input : List UInt8 := [0x68, 0x65, 0x6C, 0x6C, 0x6F, 10, 0x77]
    let m := (start.load (assemble source).program).after
      [.setConsole (.buffered { input }), .stepIn, .stepIn, .stepIn, .stepIn]
    m.IsAt .syscall ∧ m.registers.get Reg.v0 = 8 ∧
      m.stepIn.2.memory.flat = m.memory.flat.put 0x10010000 [0x68, 0x65, 0] := by
  intro source start input m
  let unread : Console → List UInt8
    | .buffered b => b.input
    | _ => []
  obtain ⟨hstate, hword, hservice, hbuffer, hsize, hunread, hstop⟩ :
      m.state.isTerminal = false ∧ m.memory.textWord? m.pc = some (Instr.encode .syscall) ∧
      m.registers.get Reg.v0 = 8 ∧ m.registers.get Reg.a0 = 0x10010000 ∧
      Word.signed (m.registers.get Reg.a1) = 3 ∧ unread m.console = input ∧
      m.memory.stop .data = 0x10010004 := by decide +kernel
  have hat : m.IsAt .syscall := ⟨hstate, hword, trivial⟩
  refine ⟨hat, hservice, ?_⟩
  have hreads : m.ReadsLineInto (m.registers.get Reg.a0)
      (Word.signed (m.registers.get Reg.a1)) m.stepIn.2 :=
    (line_input_bounded source start
      [.setConsole (.buffered { input }), .stepIn, .stepIn, .stepIn, .stepIn] hat hservice).1
  -- From here on only what has been computed of the machine counts.
  clear_value m
  obtain ⟨console, hgives⟩ :
      ∃ console, m.console.GivesLine (lineText [0x68, 0x65, 0x6C, 0x6C, 0x6F]) console := by
    cases hconsole : m.console with
    | buffered b =>
      rw [hconsole] at hunread
      exact ⟨_, .bufferedLine hunread (by decide)⟩
    | closed | channel | foreign =>
      rw [hconsole] at hunread
      exact nomatch hunread
  have hfitted : Machine.fitted (lineText [0x68, 0x65, 0x6C, 0x6C, 0x6F]) 3 = [0x68, 0x65, 0] := by
    decide +kernel
  have hputs := hreads.line (by rw [hsize]; decide) _ _ hgives
  rw [hsize, hfitted, hbuffer] at hputs
  refine (hputs.stored fun c hle hlt => ⟨.data, nofun, hle, ?_⟩).memory
  exact Nat.le_trans (Nat.succ_le_of_lt hlt) (Nat.le_trans (by decide) (Nat.le_of_eq hstop.symm))

end MipsLab
