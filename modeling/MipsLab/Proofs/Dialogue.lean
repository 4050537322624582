import MipsLab.Proofs.Foresight
import MipsLab.Proofs.Runs

/-!
# What an instruction asks of the console

The attempt at an instruction makes one read at most, and what it does beside that follows from
what the read gives. So two attempts at the same instruction with different consoles differ only as
the reads do, and a console on which no read has been cancelled lets an instruction wait, but never
gives it up.

1. `Machine.step_parallel`: two attempts with different consoles, side by side.
2. `Machine.step_calm`: an attempt with a channel on which no read has been cancelled.
3. `Machine.Foresees.step_fault`: a fault does not depend on when the input arrives.
-/

namespace MipsLab

/-- The reads that instructions make. -/
inductive Console.Request : {α : Type} → (Console → ReadOutcome α × Console) → Prop
  | line : Request Console.readLine
  | char : Request Console.readChar
  | int : Request Console.readInt

/-- Whether an attempt ends in a way that is up to the instruction, and not to whoever provides or
refuses the input. -/
def StepEnd.isOwn : StepEnd → Bool
  | ran | stopped (.halt (.exit _)) | stopped .pause | stopped (.fault _) => true
  | stopped (.halt .stopped) | stopped .cancelled | waiting => false

namespace Machine

/-- What an attempt makes of the outcome of its read. -/
def heard {α : Type} (m : Machine) (next : α → StepEnd × Machine) :
    ReadOutcome α × Console → StepEnd × Machine
  | (.done value, console) => ((next value).1, { (next value).2 with console })
  | (.failed e, console) => (.stopped (Stop.ofReadError e), { m with console })
  | (.waiting, console) => (.waiting, { m with console })

/-! ## Two consoles -/

/-- How two attempts at the same instruction compare, one with a console `c` and one with `d`. -/
inductive Parallel (m : Machine) (c d : Console) : StepEnd × Machine → StepEnd × Machine → Prop
  | silent {r : StepEnd × Machine} (h : r.1.isOwn = true) :
      Parallel m c d (r.1, { r.2 with console := c }) (r.1, { r.2 with console := d })
  | writes {r : StepEnd × Machine} (h : r.1.isOwn = true) (stream : Stream) (bytes : List UInt8) :
      Parallel m c d (r.1, { r.2 with console := c.write stream bytes })
        (r.1, { r.2 with console := d.write stream bytes })
  | reads {α : Type} {request : Console → ReadOutcome α × Console}
      (hrequest : Console.Request request)
      {next : α → StepEnd × Machine} (hnext : ∀ value, (next value).1.isOwn = true) :
      Parallel m c d (m.heard next (request c)) (m.heard next (request d))

section Parallel

variable (m : Machine) (c d : Console)

theorem fail_parallel (e : ExecError) :
    Parallel m c d ({ m with console := c }.fail e) ({ m with console := d }.fail e) :=
  .silent (r := m.fail e) rfl

theorem complete_parallel {ended : StepEnd} (h : ended.isOwn = true) (next : Address) :
    Parallel m c d (ended, { m with console := c }.complete next)
      (ended, { m with console := d }.complete next) :=
  .silent (r := (ended, m.complete next)) h

theorem print_parallel (stream : Stream) (bytes : List UInt8) :
    Parallel m c d ({ m with console := c }.print (·.write stream bytes))
      ({ m with console := d }.print (·.write stream bytes)) :=
  .writes (r := m.goOn) rfl stream bytes

theorem putBytes_console (a : Address) (bytes : List UInt8) :
    { m with console := c }.putBytes a bytes =
      ((m.putBytes a bytes).1, { (m.putBytes a bytes).2 with console := c }) := by
  unfold putBytes
  cases m.memory.writeBytes a bytes <;> rfl

theorem putBytes_isOwn (a : Address) (bytes : List UInt8) :
    (m.putBytes a bytes).1.isOwn = true := by
  unfold putBytes
  cases m.memory.writeBytes a bytes <;> rfl

variable {m c d}

theorem read_parallel {α : Type} {request : Console → ReadOutcome α × Console}
    (hrequest : Console.Request request) {next : Machine → α → StepEnd × Machine}
    (hnext : ∀ value, (next m value).1.isOwn = true)
    (hconsole : ∀ console value, next { m with console } value =
      ((next m value).1, { (next m value).2 with console })) :
    Parallel m c d ({ m with console := c }.read request next)
      ({ m with console := d }.read request next) := by
  have hheard (console : Console) :
      { m with console }.read request next = m.heard (next m) (request console) := by
    unfold Machine.read
    obtain ⟨outcome, after, h⟩ : ∃ outcome after, request console = (outcome, after) := ⟨_, _, rfl⟩
    simp only [h]
    cases outcome with
    | done value => exact hconsole after value
    | failed e => rfl
    | waiting => rfl
  rw [hheard, hheard]
  exact .reads hrequest hnext

variable (m c d)

theorem readLineInto_parallel (a : Address) (size : Int) :
    Parallel m c d ({ m with console := c }.readLineInto a size)
      ({ m with console := d }.readLineInto a size) := by
  unfold readLineInto
  split
  · exact complete_parallel m c d rfl _
  · split
    · rw [m.putBytes_console c, m.putBytes_console d]
      exact .silent (m.putBytes_isOwn a _)
    · exact read_parallel .line (fun _ => m.putBytes_isOwn a _)
        fun console _ => m.putBytes_console console a _

theorem growHeap_parallel (requested : Word) :
    Parallel m c d ({ m with console := c }.growHeap requested)
      ({ m with console := d }.growHeap requested) := by
  unfold growHeap
  simp only
  cases m.memory.heapError? (heapRequest requested) with
  | some e => exact m.fail_parallel c d _
  | none =>
    let grown : Machine :=
      { m with
        memory := m.memory.extendHeap (heapRequest requested)
        events := m.events.emit (.heapGrew (UInt32.ofNat m.memory.brk)
          (UInt32.ofNat (m.memory.brk + heapRequest requested))) }
    exact .silent (r := grown.answer (UInt32.ofNat m.memory.brk)) rfl

theorem printString_parallel (a : Address) :
    Parallel m c d ({ m with console := c }.printString a)
      ({ m with console := d }.printString a) := by
  unfold printString
  simp only
  cases m.memory.readString a with
  | ok bytes => exact m.print_parallel c d .stdout bytes.toList
  | error e => exact m.fail_parallel c d _

theorem syscall_parallel :
    Parallel m c d { m with console := c }.syscall { m with console := d }.syscall := by
  unfold syscall
  simp only
  split
  · exact m.print_parallel c d .stdout _
  · exact m.printString_parallel c d _
  · exact read_parallel .int (fun _ => rfl) fun _ _ => rfl
  · exact m.readLineInto_parallel c d _ _
  · exact m.growHeap_parallel c d _
  · exact m.complete_parallel c d rfl _
  · exact m.print_parallel c d .stdout _
  · exact read_parallel .char (fun _ => rfl) fun _ _ => rfl
  · exact m.complete_parallel c d rfl _
  · exact m.fail_parallel c d _

theorem execute_parallel (i : Instr) :
    Parallel m c d ({ m with console := c }.execute i) ({ m with console := d }.execute i) := by
  rw [execute_eq_outcome, execute_eq_outcome]
  unfold outcome
  split
  · exact m.syscall_parallel c d
  · exact m.complete_parallel c d rfl _
  · simp only
    cases i.effect m.pc m.flags.trapOverflow m.registers m.memory with
    | ok e => exact .silent (r := (.ran, m.apply e)) rfl
    | error e => exact m.fail_parallel c d e

/-- Two attempts at the instruction at the address of a machine. -/
theorem step_parallel :
    Parallel m c d { m with console := c }.step { m with console := d }.step := by
  unfold step
  simp only
  cases m.memory.textWord? m.pc with
  | none => exact m.fail_parallel c d _
  | some word =>
    simp only
    cases Instr.decode? word with
    | none => exact m.fail_parallel c d _
    | some i => exact m.execute_parallel c d i

end Parallel

end Machine

/-! ## Channels without a cancelled read -/

/-- A read of a channel on which no read has been cancelled. -/
structure Channel.Calms {α : Type} (c : Channel) (r : ReadOutcome α × Channel) : Prop where
  isCancelled : r.2.isCancelled = false
  isOpen : r.2.isOpen = c.isOpen
  outcome : r.1 ≠ .failed .cancelled
  waiting : r.1 = .waiting → c.isOpen = true

namespace Channel

variable {c c' : Channel}

theorem Calms.congr {α : Type} {r : ReadOutcome α × Channel} (h : c'.Calms r)
    (hopen : c'.isOpen = c.isOpen) : c.Calms r :=
  ⟨h.isCancelled, h.isOpen.trans hopen, h.outcome, fun hwaits => hopen ▸ h.waiting hwaits⟩

theorem Calms.done {α : Type} {value : α} (hcancelled : c'.isCancelled = false)
    (hopen : c'.isOpen = c.isOpen) : c.Calms (.done value, c') :=
  ⟨hcancelled, hopen, nofun, nofun⟩

theorem start_isCancelled (h : c.isCancelled = false) : c.start.isCancelled = false := by
  unfold start
  split
  · exact h
  · rfl

theorem stall_calms {α : Type} (h : c.isCancelled = false) : c.Calms (c.stall (α := α)) := by
  unfold stall
  cases hopen : c.isOpen with
  | false => exact ⟨h, rfl, nofun, nofun⟩
  | true =>
    rw [h]
    exact ⟨h, rfl, nofun, fun _ => hopen⟩

theorem readLine_calms (h : c.isCancelled = false) : c.Calms c.readLine := by
  have hstart := start_isCancelled h
  have hopen := c.start_sameInput.isOpen
  unfold readLine
  simp only
  split
  · exact .done hstart hopen
  · split
    · exact .done hstart hopen
    · refine (stall_calms ?_).congr ?_
      · exact hstart
      · exact hopen

theorem readChar_calms (h : c.isCancelled = false) : c.Calms c.readChar := by
  have hstart := start_isCancelled h
  have hopen := c.start_sameInput.isOpen
  unfold readChar
  split
  · exact .done h rfl
  · split
    · exact .done hstart hopen
    · exact (stall_calms hstart).congr hopen

/-- Without input a read fails only where no input can come any more. -/
theorem stall_failed {α : Type} {e : ReadError} (h : (c.stall (α := α)).1 = .failed e)
    (he : e ≠ .cancelled) : e = .closed ∧ c.isOpen = false := by
  unfold stall at h
  cases hopen : c.isOpen with
  | false =>
    rw [hopen] at h
    cases h
    exact ⟨rfl, rfl⟩
  | true =>
    rw [hopen] at h
    cases hcancelled : c.isCancelled with
    | false =>
      rw [hcancelled] at h
      exact nomatch h
    | true =>
      rw [hcancelled] at h
      cases h
      exact absurd rfl he

theorem stall_closed {α : Type} (h : c.isOpen = false) :
    (c.stall (α := α)).1 = .failed .closed := by
  unfold stall
  rw [h]
  rfl

/-- Where one channel has come to the end of its input, so has another one that had it before. -/
theorem Foresees.exhausted {input : Input} {d : Channel} (h : Foresees input c d)
    (hopen : c.isOpen = false) (hpartial : c.partialLine = []) (harrived : c.arrived = []) :
    d.isOpen = false ∧ d.partialLine = [] ∧ d.arrived = [] := by
  obtain ⟨begun, -, hbegun, hd⟩ := h.unread
  rw [hpartial] at hbegun
  obtain ⟨hline, rfl⟩ := List.append_eq_nil_iff.mp hbegun.symm
  rw [harrived, toCome_closed hopen] at hd
  exact ⟨by rw [h.isOpen, hopen, Bool.false_and], hline, hd⟩

theorem Foresees.readLine_failed {input : Input} {d : Channel} {e : ReadError}
    (h : Foresees input c d) (hfailed : c.readLine.1 = .failed e) (he : e ≠ .cancelled) :
    d.readLine.1 = .failed e := by
  obtain ⟨line, after, hsplit⟩ : ∃ line after, splitLine c.arrived = (line, after) := ⟨_, _, rfl⟩
  cases after with
  | some rest =>
    rw [readLine_whole hsplit] at hfailed
    exact nomatch hfailed
  | none =>
    obtain ⟨rfl, -⟩ := splitLine_none hsplit
    by_cases hlast : c.isOpen = false ∧ c.partialLine ++ c.arrived ≠ []
    · rw [readLine_last hsplit hlast.1 hlast.2] at hfailed
      exact nomatch hfailed
    · have hnot : c.isOpen = true ∨ c.partialLine ++ c.arrived = [] := by
        cases hopen : c.isOpen with
        | true => exact .inl rfl
        | false => exact .inr (Decidable.not_not.mp fun hsome => hlast ⟨hopen, hsome⟩)
      rw [readLine_none hsplit hnot] at hfailed
      obtain ⟨rfl, hstart⟩ := stall_failed hfailed he
      have hopen : c.isOpen = false := c.start_sameInput.isOpen.symm.trans hstart
      obtain ⟨hpartial, harrived⟩ := List.append_eq_nil_iff.mp
        (hnot.resolve_left (by rw [hopen]; nofun))
      obtain ⟨hdopen, hdpartial, hdarrived⟩ := h.exhausted hopen hpartial harrived
      have hdsplit : splitLine d.arrived = ([], none) := by rw [hdarrived]; rfl
      rw [readLine_none hdsplit (.inr (by rw [hdpartial]; rfl))]
      exact stall_closed (d.start_sameInput.isOpen.trans hdopen)

theorem Foresees.readChar_failed {input : Input} {d : Channel} {e : ReadError}
    (h : Foresees input c d) (hfailed : c.readChar.1 = .failed e) (he : e ≠ .cancelled) :
    d.readChar.1 = .failed e := by
  cases hpartial : c.partialLine with
  | cons b rest =>
    rw [readChar_begun hpartial] at hfailed
    exact nomatch hfailed
  | nil =>
    cases harrived : c.arrived with
    | cons b rest =>
      rw [readChar_arrived hpartial harrived] at hfailed
      exact nomatch hfailed
    | nil =>
      rw [readChar_none hpartial harrived] at hfailed
      obtain ⟨rfl, hstart⟩ := stall_failed hfailed he
      have hopen : c.isOpen = false := c.start_sameInput.isOpen.symm.trans hstart
      obtain ⟨hdopen, hdpartial, hdarrived⟩ := h.exhausted hopen hpartial harrived
      rw [readChar_none hdpartial hdarrived]
      exact stall_closed (d.start_sameInput.isOpen.trans hdopen)

end Channel

namespace Console

/-- A channel that is open or not, and on which no read has been cancelled. -/
def IsCalm (isOpen : Bool) (console : Console) : Prop :=
  ∃ c : Channel, console = .channel c ∧ c.isOpen = isOpen ∧ c.isCancelled = false

variable {isOpen : Bool} {c d : Console} {input : Input}

theorem IsCalm.write (h : c.IsCalm isOpen) (stream : Stream) (bytes : List UInt8) :
    (c.write stream bytes).IsCalm isOpen := by
  obtain ⟨c, rfl, hopen, hcancelled⟩ := h
  have hwrite : (c.write stream bytes).isOpen = c.isOpen ∧
      (c.write stream bytes).isCancelled = c.isCancelled := by
    unfold Channel.write
    cases c.quota with
    | none => exact ⟨rfl, rfl⟩
    | some left => cases left <;> exact ⟨rfl, rfl⟩
  exact ⟨c.write stream bytes, rfl, hwrite.1.trans hopen, hwrite.2.trans hcancelled⟩

/-- Input arrives; nothing but its end closes the channel. -/
theorem IsCalm.arrive (h : c.IsCalm isOpen) (arrival : Arrival) :
    (c.arrive arrival).IsCalm (isOpen && arrival ≠ .ends) := by
  obtain ⟨c, rfl, hopen, hcancelled⟩ := h
  cases arrival with
  | bytes bytes =>
    have hpush := c.push_congr bytes
    refine ⟨c.push bytes, rfl, ?_, ?_⟩
    · rw [← hpush] at hopen
      rw [show (c.push bytes).isOpen = isOpen from hopen]
      exact (Bool.and_true _).symm
    · rw [← hpush] at hcancelled
      exact hcancelled
  | ends => exact ⟨c.close, rfl, (Bool.and_false _).symm, hcancelled⟩

/-- How a read of such a channel ends. -/
theorem IsCalm.request {α : Type} {request : Console → ReadOutcome α × Console}
    (h : c.IsCalm isOpen) (hrequest : Request request) :
    (request c).2.IsCalm isOpen ∧ (request c).1 ≠ .failed .cancelled ∧
      ((request c).1 = .waiting → isOpen = true) := by
  obtain ⟨c, rfl, rfl, hcancelled⟩ := h
  have hline := Channel.readLine_calms hcancelled
  cases hrequest with
  | line => exact ⟨⟨_, rfl, hline.isOpen, hline.isCancelled⟩, hline.outcome, hline.waiting⟩
  | char =>
    have hchar := Channel.readChar_calms hcancelled
    exact ⟨⟨_, rfl, hchar.isOpen, hchar.isCancelled⟩, hchar.outcome, hchar.waiting⟩
  | int =>
    refine ⟨⟨_, rfl, hline.isOpen, hline.isCancelled⟩, ?_⟩
    show c.readLine.1.andThen integerOfLine ≠ _ ∧ (c.readLine.1.andThen integerOfLine = _ → _)
    have houtcome := hline.outcome
    have hwaits := hline.waiting
    cases hread : c.readLine.1 with
    | done line =>
      rw [ReadOutcome.andThen]
      cases hinteger : integerOfLine line with
      | ok n => exact ⟨by simp, by simp⟩
      | error e =>
        refine ⟨fun heq => ?_, by simp⟩
        cases heq
        exact integerOfLine_ne_cancelled line hinteger
    | failed e =>
      rw [hread] at houtcome
      exact ⟨fun heq => houtcome (by cases heq; rfl), by simp [ReadOutcome.andThen]⟩
    | waiting => exact ⟨by simp [ReadOutcome.andThen], fun _ => hwaits hread⟩

/-- A read that fails, and has not been cancelled, fails in the same way with all input in
advance. -/
theorem Foresees.request_failed {α : Type} {request : Console → ReadOutcome α × Console}
    {e : ReadError} (h : Foresees input c d) (hrequest : Request request)
    (hfailed : (request c).1 = .failed e) (he : e ≠ .cancelled) : (request d).1 = .failed e := by
  cases h with
  | closed | buffered | foreign => exact hfailed
  | @channel c d h =>
    cases hrequest with
    | line => exact h.readLine_failed hfailed he
    | char => exact h.readChar_failed hfailed he
    | int =>
      have hfailed : c.readLine.1.andThen integerOfLine = .failed e := hfailed
      show d.readLine.1.andThen integerOfLine = .failed e
      rcases h.readLine with ⟨line, hc, hd, -⟩ | ⟨hnot, -⟩
      · rw [hd, ← hc, hfailed]
      · cases hread : c.readLine.1 with
        | done line => exact absurd hread (hnot line)
        | waiting =>
          rw [hread] at hfailed
          exact nomatch hfailed
        | failed e' =>
          rw [hread] at hfailed
          cases hfailed
          rw [h.readLine_failed hread he]
          rfl

/-- A read that gives something gives the same with all input in advance. -/
theorem Foresees.request_done {α : Type} {request : Console → ReadOutcome α × Console} {value : α}
    (h : Foresees input c d) (hrequest : Request request)
    (hdone : (request c).1 = .done value) : (request d).1 = .done value := by
  have hreads : Reads input d (request c) (request d) := by
    cases hrequest with
    | line => exact h.readLine
    | char => exact h.readChar
    | int => exact h.readInt
  generalize request c = x at hreads hdone
  generalize request d = y at hreads
  cases hreads with
  | done => exact hdone
  | rests houtcome => exact absurd hdone (houtcome value)
  | fails => exact nomatch hdone
  | repeats houtcome => exact absurd hdone (houtcome value)

end Console

/-! ## Attempts -/

namespace Machine

variable {m m' a a' r : Machine} {ended : StepEnd} {isOpen : Bool} {input : Input}

/-- With a channel on which no read has been cancelled, an attempt ends as its instruction will have
it, or waits for more input. -/
theorem step_calm (h : m.console.IsCalm isOpen) (hstep : m.step = (ended, m')) :
    m'.console.IsCalm isOpen ∧ (ended.isOwn = true ∨ ended = .waiting ∧ isOpen = true) := by
  have hparallel : Parallel m m.console m.console m.step m.step := m.step_parallel _ _
  rw [hstep] at hparallel
  generalize hx : (ended, m') = x at hparallel
  generalize (ended, m') = y at hparallel
  cases hparallel with
  | silent hown =>
    cases hx
    exact ⟨h, .inl hown⟩
  | writes hown stream bytes =>
    cases hx
    exact ⟨h.write stream bytes, .inl hown⟩
  | @reads α request hrequest next hnext =>
    obtain ⟨hcalm, houtcome, hwaits⟩ := h.request hrequest
    generalize request m.console = answer at hx hcalm houtcome hwaits
    obtain ⟨outcome, console⟩ := answer
    cases outcome with
    | done value =>
      cases hx
      exact ⟨hcalm, .inl (hnext value)⟩
    | failed e =>
      cases hx
      refine ⟨hcalm, .inl ?_⟩
      cases e with
      | cancelled => exact absurd rfl houtcome
      | closed | malformed => rfl
    | waiting =>
      cases hx
      exact ⟨hcalm, .inr ⟨rfl, hwaits rfl⟩⟩

/-- What instructions look at. -/
def plain (m : Machine) : Machine :=
  { m with
    program := none
    state := .loaded
    flags := { trapOverflow := m.flags.trapOverflow }
    breakpoints := []
    events := {} }

theorem plain_ignored : InstructionsIgnore plain where
  registers _ := rfl
  pc _ := rfl
  memory _ := rfl
  console _ := rfl
  setsRegisters _ _ := rfl
  setsMemory _ _ := rfl
  setsConsole _ _ := rfl
  tells _ _ := rfl
  completes _ _ := rfl
  trap _ := rfl
  calls _ _ _ := rfl

theorem plain_step (m : Machine) : m.plain.step.1 = m.step.1 := by
  rw [plain_ignored.step]
  rfl

/-- An instruction that faults also faults, with the same error, where all input is there in
advance. -/
theorem Foresees.step_fault {e : ExecError} (h : a.Foresees input r)
    (hstep : a.step.1 = .stopped (.fault e)) : r.step.1 = .stopped (.fault e) := by
  have hplain : r.plain = { a.plain with console := r.console } := by
    unfold plain
    rw [h.registers, h.pc, h.memory, h.completed, h.calls, h.trap]
  have hparallel : Parallel a.plain a.console r.console a.plain.step r.plain.step := by
    rw [hplain]
    exact a.plain.step_parallel _ _
  rw [← plain_step] at hstep ⊢
  generalize a.plain.step = x at hparallel hstep
  generalize r.plain.step = y at hparallel
  cases hparallel with
  | silent | writes => exact hstep
  | @reads α request hrequest next hnext =>
    obtain ⟨outcome, console, hanswer⟩ :
        ∃ outcome console, request a.console = (outcome, console) :=
      ⟨_, _, rfl⟩
    have houtcome : (request a.console).1 = outcome := congrArg Prod.fst hanswer
    rw [hanswer] at hstep
    cases outcome with
    | done value =>
      have hdone := h.console.request_done hrequest houtcome
      rw [show request r.console = (.done value, (request r.console).2) from Prod.ext hdone rfl]
      exact hstep
    | failed read =>
      have hread : read ≠ .cancelled := by
        rintro rfl
        exact nomatch hstep
      have hfailed := h.console.request_failed hrequest houtcome hread
      rw [show request r.console = (.failed read, (request r.console).2) from Prod.ext hfailed rfl]
      exact hstep
    | waiting => exact nomatch hstep

end Machine

end MipsLab
