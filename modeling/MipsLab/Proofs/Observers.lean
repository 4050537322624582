import MipsLab.Proofs.Operations

/-!
# Observers only watch

What a machine does depends neither on its observers nor on what they have been told already. Two
machines that differ in their observers alone give the same answers, stay the same in everything
else, and tell their observers the same events in the same order.

1. `Machine.Abreast`: two machines are the same but for their observers, who have been told the same
   since some moment.
2. `Machine.Abreast.step`, `Machine.Abreast.runFrom`: attempts and runs leave such machines abreast.
3. `Machine.Abreast.after`: so does any sequence of operations that do not deal with observers.
-/

namespace MipsLab

/-- Tells events to all observers, one after the other. -/
def EventBus.emitAll (b : EventBus) (events : List Event) : EventBus := events.foldl emit b

theorem EventBus.emitAll_concat (b : EventBus) (events : List Event) (event : Event) :
    b.emitAll (events ++ [event]) = (b.emitAll events).emit event := by
  rw [emitAll, emitAll, List.foldl_append]
  rfl

namespace Machine

/-- A machine with other observers. -/
def watchedBy (m : Machine) (observers : EventBus) : Machine := { m with events := observers }

theorem watchedBy_pc (m : Machine) (observers : EventBus) : (m.watchedBy observers).pc = m.pc := rfl

/-- Two machines are the same but for their observers, who have been told the same events since they
were `b` and `b'`. -/
inductive Abreast (b b' : EventBus) : Machine → Machine → Prop
  | told (m : Machine) (events : List Event) :
      Abreast b b' (m.watchedBy (b.emitAll events)) (m.watchedBy (b'.emitAll events))

/-- Two attempts, steps or runs end in the same way, with machines that are abreast. -/
structure AbreastEnds {α : Type} (b b' : EventBus) (r r' : α × Machine) : Prop where
  ended : r.1 = r'.1
  abreast : Abreast b b' r.2 r'.2

theorem enter_eq (m : Machine) (state : ExecState) :
    m.enter state =
      match Event.ofState? m.pc state with
      | some event => { m with state }.watchedBy (m.events.emit event)
      | none => { m with state } := by
  unfold enter
  cases Event.ofState? m.pc state <;> rfl

variable {b b' : EventBus} {m m' : Machine}

namespace Abreast

/-- Two machines that differ in their observers alone are abreast from now on. -/
theorem start (m : Machine) (b : EventBus) : Abreast b m.events (m.watchedBy b) m := .told m []

/-! ## What the machines have in common -/

theorem pc (h : Abreast b b' m m') : m.pc = m'.pc := by cases h; rfl

theorem registers (h : Abreast b b' m m') : m.registers = m'.registers := by cases h; rfl

theorem memory (h : Abreast b b' m m') : m.memory = m'.memory := by cases h; rfl

theorem completed (h : Abreast b b' m m') : m.completed = m'.completed := by cases h; rfl

theorem state (h : Abreast b b' m m') : m.state = m'.state := by cases h; rfl

theorem calls (h : Abreast b b' m m') : m.calls = m'.calls := by cases h; rfl

theorem flags (h : Abreast b b' m m') : m.flags = m'.flags := by cases h; rfl

theorem console (h : Abreast b b' m m') : m.console = m'.console := by cases h; rfl

theorem atBreakpoint (h : Abreast b b' m m') : m.atBreakpoint = m'.atBreakpoint := by
  cases h; rfl

theorem stateOf (h : Abreast b b' m m') (stop : Stop) : m.stateOf stop = m'.stateOf stop := by
  cases h; rfl

/-! ## Changes -/

/-- A change that takes no notice of the observers and tells them nothing. -/
theorem change {f : Machine → Machine} (hf : ∀ m b, f (watchedBy m b) = (f m).watchedBy b)
    (h : Abreast b b' m m') : Abreast b b' (f m) (f m') := by
  cases h with
  | told m events =>
    rw [hf, hf]
    exact .told (f m) events

/-- The observers of both machines are told one more event. -/
theorem tell (h : Abreast b b' m m') (event : Event) :
    Abreast b b' (m.watchedBy (m.events.emit event)) (m'.watchedBy (m'.events.emit event)) := by
  cases h with
  | told m events =>
    have htold : Abreast b b' (m.watchedBy (b.emitAll (events ++ [event])))
        (m.watchedBy (b'.emitAll (events ++ [event]))) := .told m (events ++ [event])
    rw [EventBus.emitAll_concat, EventBus.emitAll_concat] at htold
    exact htold

theorem complete (h : Abreast b b' m m') (next : Address) :
    Abreast b b' (m.complete next) (m'.complete next) := by
  unfold Machine.complete
  rw [← h.pc]
  exact (h.tell (.executed m.pc)).change
    (f := fun m => { m with pc := next, completed := m.completed + 1 }) fun _ _ => rfl

theorem enter (h : Abreast b b' m m') (state : ExecState) :
    Abreast b b' (m.enter state) (m'.enter state) := by
  have hstate := h.change (f := fun m => { m with state }) fun _ _ => rfl
  cases h with
  | told m events =>
    rw [enter_eq, enter_eq, watchedBy_pc, watchedBy_pc]
    cases Event.ofState? m.pc state with
    | none => exact hstate
    | some event => exact hstate.tell event

end Abreast

/-! ## System calls -/

namespace AbreastEnds

theorem fail (h : Abreast b b' m m') (error : ExecError) :
    AbreastEnds b b' (m.fail error) (m'.fail error) := ⟨rfl, h⟩

theorem complete (h : Abreast b b' m m') (ended : StepEnd) :
    AbreastEnds b b' (ended, m.complete (m.pc + 4)) (ended, m'.complete (m'.pc + 4)) := by
  rw [← h.pc]
  exact ⟨rfl, h.complete _⟩

theorem print (h : Abreast b b' m m') (write : Console → Console) :
    AbreastEnds b b' (m.print write) (m'.print write) :=
  complete (h.change (f := fun m => { m with console := write m.console }) fun _ _ => rfl) .ran

theorem answer (h : Abreast b b' m m') (value : Word) :
    AbreastEnds b b' (m.answer value) (m'.answer value) :=
  complete (h.change (f := (·.setRegister Reg.v0 value)) fun _ _ => rfl) .ran

theorem putBytes (h : Abreast b b' m m') (a : Address) (bytes : List UInt8) :
    AbreastEnds b b' (m.putBytes a bytes) (m'.putBytes a bytes) := by
  unfold Machine.putBytes
  rw [← h.memory]
  cases m.memory.writeBytes a bytes with
  | ok memory =>
    let put (m : Machine) : Machine := { m with memory }
    have hput := complete (h.change (f := put) fun _ _ => rfl) .ran
    cases h
    exact hput
  | error e => exact fail h _

theorem read {α : Type} (h : Abreast b b' m m') (request : Console → ReadOutcome α × Console)
    {next : Machine → α → StepEnd × Machine}
    (hnext : ∀ {m m'} value, Abreast b b' m m' → AbreastEnds b b' (next m value) (next m' value)) :
    AbreastEnds b b' (m.read request next) (m'.read request next) := by
  unfold Machine.read
  rw [← h.console]
  obtain ⟨outcome, console, hrequest⟩ : ∃ outcome console, request m.console = (outcome, console) :=
    ⟨_, _, rfl⟩
  have hconsole := h.change (f := fun m => { m with console }) fun _ _ => rfl
  rw [hrequest]
  cases outcome with
  | done value => exact hnext value hconsole
  | failed e => exact ⟨rfl, hconsole⟩
  | waiting => exact ⟨rfl, hconsole⟩

theorem readLineInto (h : Abreast b b' m m') (a : Address) (size : Int) :
    AbreastEnds b b' (m.readLineInto a size) (m'.readLineInto a size) := by
  unfold Machine.readLineInto
  split
  · exact complete h .ran
  · split
    · exact putBytes h a [0]
    · exact read h _ fun line hread => putBytes hread a (lineBytes line size.toNat)

theorem growHeap (h : Abreast b b' m m') (requested : Word) :
    AbreastEnds b b' (m.growHeap requested) (m'.growHeap requested) := by
  unfold Machine.growHeap
  simp only [← h.memory]
  cases m.memory.heapError? (heapRequest requested) with
  | none =>
    let brk := m.memory.brk
    let grow (m : Machine) : Machine :=
      { m with memory := m.memory.extendHeap (heapRequest requested) }
    have htold := h.tell (.heapGrew (UInt32.ofNat brk) (UInt32.ofNat (brk + heapRequest requested)))
    have hgrown := answer (htold.change (f := grow) fun _ _ => rfl) (UInt32.ofNat brk)
    cases h
    exact hgrown
  | some e => exact fail h _

theorem printString (h : Abreast b b' m m') (a : Address) :
    AbreastEnds b b' (m.printString a) (m'.printString a) := by
  unfold Machine.printString
  rw [← h.memory]
  cases m.memory.readString a with
  | ok bytes => exact print h _
  | error e => exact fail h _

theorem syscall (h : Abreast b b' m m') : AbreastEnds b b' m.syscall m'.syscall := by
  unfold Machine.syscall
  simp only [← h.registers]
  split
  · exact print h _
  · exact printString h _
  · exact read h _ fun n hread => answer hread (Word.ofInt n)
  · exact readLineInto h _ _
  · exact growHeap h _
  · exact complete h _
  · exact print h _
  · exact read h _ fun b hread => answer hread (UInt32.ofNat b.toNat)
  · exact complete h _
  · exact fail h _

end AbreastEnds

/-! ## Attempts and runs -/

namespace Abreast

theorem apply (h : Abreast b b' m m') (e : Effect) : Abreast b b' (m.apply e) (m'.apply e) := by
  let act (m : Machine) : Machine :=
    { m with
      registers := e.onRegisters m.registers
      memory := e.onMemory m.memory
      calls := e.onCalls m.pc (e.onRegisters m.registers) m.calls }
  have hact := (h.change (f := act) fun _ _ => rfl).complete (e.jump.getD (m.pc + 4))
  cases h
  exact hact

theorem execute (h : Abreast b b' m m') (i : Instr) :
    AbreastEnds b b' (m.execute i) (m'.execute i) := by
  rw [execute_eq_outcome, execute_eq_outcome]
  unfold outcome
  split
  · exact .syscall h
  · exact .complete h _
  · rw [← h.pc, ← h.flags, ← h.registers, ← h.memory]
    cases i.effect m.pc m.flags.trapOverflow m.registers m.memory with
    | ok e => exact ⟨rfl, h.apply e⟩
    | error e => exact .fail h e

/-- Observers make no difference to the attempt at an instruction. -/
theorem step (h : Abreast b b' m m') : AbreastEnds b b' m.step m'.step := by
  unfold Machine.step
  rw [← h.memory, ← h.pc]
  cases m.memory.textWord? m.pc with
  | none => exact .fail h _
  | some word =>
    simp only
    cases Instr.decode? word with
    | none => exact .fail h _
    | some i => exact h.execute i

theorem step_eq (h : Abreast b b' m m') :
    ∃ ended a a', m.step = (ended, a) ∧ m'.step = (ended, a') ∧ Abreast b b' a a' := by
  obtain ⟨hended, hnext⟩ := h.step
  exact ⟨m.step.1, m.step.2, m'.step.2, rfl, by rw [hended], hnext⟩

theorem endIn (h : Abreast b b' m m') (state : ExecState) :
    AbreastEnds b b' (m.endIn state) (m'.endIn state) := ⟨rfl, h.enter state⟩

end Abreast

end Machine

/-- A condition of a run may ask for anything but for the observers. -/
def Goal.DisregardsObservers : Goal → Prop
  | .whileTrue condition => ∀ m b, condition (Machine.watchedBy m b) = condition m
  | _ => True

namespace Machine

variable {b b' : EventBus} {m m' : Machine}

namespace Abreast

theorem reached? (h : Abreast b b' m m') {goal : Goal} (hgoal : goal.DisregardsObservers)
    (begun : Bool) : goal.reached? begun m = goal.reached? begun m' := by
  unfold Goal.reached?
  cases goal with
  | unlimited => rfl
  | count start limit => simp only [h.completed]
  | whileTrue condition =>
    cases h with
    | told m events => simp only [hgoal m]
  | overCall depth | outOfCall depth => simp only [h.calls]

/-- The induction is on the number of attempts: each of them ends both runs, or leads on in both. -/
theorem runFrom (h : Abreast b b' m m') {goal : Goal} (hgoal : goal.DisregardsObservers)
    (fuel : Nat) (begun : Bool) :
    AbreastEnds b b' (runFrom goal fuel begun m) (runFrom goal fuel begun m') := by
  induction fuel generalizing begun m m' with
  | zero => exact ⟨rfl, h⟩
  | succ fuel ih =>
    have hsame := h.reached? hgoal begun
    cases hreached : goal.reached? begun m with
    | some reason =>
      rw [runFrom_reached hreached, runFrom_reached (hsame.symm.trans hreached)]
      exact h.endIn _
    | none =>
      have hreached' := hsame.symm.trans hreached
      obtain ⟨ended, a, a', ha, ha', hnext⟩ := h.step_eq
      cases ended with
      | ran =>
        rw [runFrom_ran hreached ha, runFrom_ran hreached' ha', hnext.atBreakpoint]
        split
        · exact hnext.endIn _
        · exact ih hnext true
      | stopped stop =>
        rw [runFrom_stopped hreached ha, runFrom_stopped hreached' ha', hnext.stateOf]
        exact hnext.endIn _
      | waiting =>
        rw [runFrom_waiting hreached ha, runFrom_waiting hreached' ha']
        exact ⟨rfl, hnext⟩

theorem runTo (h : Abreast b b' m m') (goal : Goal) (hgoal : goal.DisregardsObservers)
    (fuel : Nat) : AbreastEnds b b' (m.runTo goal fuel) (m'.runTo goal fuel) := by
  have hstarts := h.change (f := fun m => { m with state := .running }) fun _ _ => rfl
  unfold Machine.runTo
  rw [← h.state]
  split
  · exact ⟨rfl, h⟩
  · exact hstarts.runFrom hgoal fuel false

theorem stepIn (h : Abreast b b' m m') : AbreastEnds b b' m.stepIn m'.stepIn := by
  cases hstate : m.state.isTerminal with
  | true =>
    unfold Machine.stepIn
    rw [← h.state, hstate]
    exact ⟨rfl, h⟩
  | false =>
    have hstate' : m'.state.isTerminal = false := by rw [← h.state, hstate]
    obtain ⟨ended, a, a', ha, ha', hnext⟩ := h.step_eq
    cases ended with
    | ran =>
      rw [stepIn_ran hstate ha, stepIn_ran hstate' ha']
      exact hnext.endIn _
    | stopped stop =>
      rw [stepIn_stopped hstate ha, stepIn_stopped hstate' ha', hnext.stateOf]
      exact hnext.endIn _
    | waiting =>
      rw [stepIn_waiting hstate ha, stepIn_waiting hstate' ha']
      exact ⟨rfl, hnext⟩

theorem stepOut (h : Abreast b b' m m') (fuel : Nat) :
    AbreastEnds b b' (m.stepOut fuel) (m'.stepOut fuel) := by
  unfold Machine.stepOut
  rw [← h.calls]
  split
  · exact ⟨rfl, h⟩
  · exact h.runTo (.outOfCall m.calls.depth) trivial fuel

theorem stop (h : Abreast b b' m m') : Abreast b b' m.stop m'.stop := by
  unfold Machine.stop
  rw [← h.state]
  split
  · exact h
  · exact h.enter _

theorem reset (h : Abreast b b' m m') : Abreast b b' m.reset m'.reset := by
  let restart (m : Machine) : Machine := { m.reset with events := m.events }
  have hreset := (h.tell (.loaded (entry m.program))).change (f := restart) fun _ _ => rfl
  cases h
  exact hreset

theorem writeWord (h : Abreast b b' m m') (a : Address) (value : Word) :
    Abreast b b' (m.writeWord a value).2 (m'.writeWord a value).2 := by
  have hsame : m.memory.locateWritable a 4 = m'.memory.locateWritable a 4 := by rw [h.memory]
  rw [writeWord_eq, writeWord_eq, ← hsame]
  cases m.memory.locateWritable a 4 with
  | ok place =>
    let put (m : Machine) : Machine :=
      { m with memory := m.memory.overwrite place (Word.bytes value) }
    exact h.change (f := put) fun _ _ => rfl
  | error e => exact h

end Abreast

/-! ## Operations -/

/-- What an operation gives back, if it lets the machine run. -/
def answer? (m : Machine) : Operation → Option Progress
  | .stepIn => some m.stepIn.1
  | .run fuel => some (m.run fuel).1
  | .runWhile condition fuel => some (m.runWhileTrue condition fuel).1
  | .runLimited limit fuel => some (m.runLimited limit fuel).1
  | .stepOver fuel => some (m.stepOver fuel).1
  | .stepOut fuel => some (m.stepOut fuel).1
  | .resume goal begun fuel => some (Machine.runFrom goal fuel begun m).1
  | _ => none

/-- What some operations give back, one after the other. -/
def answers (m : Machine) : List Operation → List (Option Progress)
  | [] => []
  | operation :: operations => m.answer? operation :: (m.perform operation).answers operations

/-- An operation neither asks for the observers nor replaces them. -/
def Operation.DisregardsObservers : Operation → Prop
  | .runWhile condition _ => (Goal.whileTrue condition).DisregardsObservers
  | .resume goal _ _ => goal.DisregardsObservers
  | .setEvents _ => False
  | _ => True

namespace Abreast

theorem perform (h : Abreast b b' m m') {operation : Operation}
    (hoperation : operation.DisregardsObservers) :
    AbreastEnds b b' (m.answer? operation, m.perform operation)
      (m'.answer? operation, m'.perform operation) := by
  have hruns {r r' : Progress × Machine} (hr : AbreastEnds b b' r r') :
      AbreastEnds b b' (some r.1, r.2) (some r'.1, r'.2) := ⟨congrArg some hr.ended, hr.abreast⟩
  cases operation with
  | stepIn => exact hruns h.stepIn
  | run fuel => exact hruns (h.runTo .unlimited trivial fuel)
  | runWhile condition fuel => exact hruns (h.runTo (.whileTrue condition) hoperation fuel)
  | runLimited limit fuel =>
    have hlimited := h.runTo (.count m.completed limit) trivial fuel
    cases h
    exact hruns hlimited
  | stepOver fuel =>
    have hover := h.runTo (.overCall m.calls.depth) trivial fuel
    cases h
    exact hruns hover
  | stepOut fuel => exact hruns (h.stepOut fuel)
  | resume goal begun fuel => exact hruns (h.runFrom hoperation fuel begun)
  | stop => exact ⟨rfl, h.stop⟩
  | setRegister r value =>
    exact ⟨rfl, h.change (f := (·.setRegister r value)) fun _ _ => rfl⟩
  | setPc pc => exact ⟨rfl, h.change (f := (·.setPc pc)) fun _ _ => rfl⟩
  | writeWord a value => exact ⟨rfl, h.writeWord a value⟩
  | reset => exact ⟨rfl, h.reset⟩
  | setConsole console =>
    exact ⟨rfl, h.change (f := fun m => { m with console }) fun _ _ => rfl⟩
  | setFlags flags => exact ⟨rfl, h.change (f := fun m => { m with flags }) fun _ _ => rfl⟩
  | setBreakpoints breakpoints =>
    exact ⟨rfl, h.change (f := fun m => { m with breakpoints }) fun _ _ => rfl⟩
  | setEvents events => exact hoperation.elim

/-- Whatever is done to two machines that are abreast, they answer the same and stay abreast. -/
theorem after (h : Abreast b b' m m') {operations : List Operation}
    (hoperations : ∀ operation ∈ operations, operation.DisregardsObservers) :
    m.answers operations = m'.answers operations ∧
      Abreast b b' (m.after operations) (m'.after operations) := by
  induction operations generalizing m m' with
  | nil => exact ⟨rfl, h⟩
  | cons operation operations ih =>
    obtain ⟨hoperation, hoperations⟩ := List.forall_mem_cons.mp hoperations
    obtain ⟨hanswer, hnext⟩ := h.perform hoperation
    obtain ⟨hanswers, hafter⟩ := ih hnext hoperations
    have hanswer : m.answer? operation = m'.answer? operation := hanswer
    exact ⟨by rw [answers, answers, hanswer, hanswers], hafter⟩

end Abreast

end Machine

end MipsLab
