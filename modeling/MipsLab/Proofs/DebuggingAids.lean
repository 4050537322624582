import MipsLab.Proofs.Reloading
import MipsLab.Proofs.RunEvents
import MipsLab.Proofs.Runs

/-!
# Aids for debugging

Records of the open calls, observers and breakpoints are there for whoever looks at a program. They
decide where a run pauses, but what the program does from attempt to attempt is the same with all of
them, with some and with none.

1. `Machine.unaided_ignored`: no instruction looks at the aids.
2. `Machine.run_one`: so the run of a single attempt does to a machine what the attempt does to the
   machine without aids.
3. `Machine.Alike.resumed`: two machines that are alike stay so, attempt by attempt.
4. `Machine.Alike.visited`: longer runs make the same attempts.
5. `Machine.Recorded.perform`: the record of the open calls has as many entries as there are calls.
6. `Machine.aids_unnoticed`: all of this together.
-/

namespace MipsLab

/-- What a debugger adds to a machine. -/
structure Aids where
  recordFrames : Bool
  /-- The record of the open calls, if there is one. -/
  frames : Option (Array Frame)
  observers : EventBus
  breakpoints : List Breakpoint

namespace Machine

/-- A machine with other aids. -/
def equipped (m : Machine) (aids : Aids) : Machine :=
  { m with
    flags := { m.flags with recordFrames := aids.recordFrames }
    calls := { m.calls with frames := aids.frames }
    events := aids.observers
    breakpoints := aids.breakpoints }

/-- It makes no difference whether aids are given to a machine before or after a program is loaded,
but that the loading is told to the observers and starts the record of the calls. -/
theorem load_equipped (m : Machine) (aids : Aids) (p : Program) :
    (m.equipped aids).load p =
      (m.load p).equipped
        { aids with
          frames := (CallStack.empty aids.recordFrames).frames
          observers := aids.observers.emit (.loaded p.entry) } := rfl

/-- What can be seen of a program at some moment. -/
structure Values where
  registers : Registers
  memory : Memory
  pc : Address
  output : Output
  completed : Nat
  /-- How many calls are open. -/
  depth : Nat

def values (m : Machine) : Values where
  registers := m.registers
  memory := m.memory
  pc := m.pc
  output := m.console.output
  completed := m.completed
  depth := m.calls.depth

/-- The state in which a machine has ended, if it has. -/
def ending? (m : Machine) : Option ExecState := if m.state.isTerminal then some m.state else none

theorem ending?_isSome (m : Machine) : m.ending?.isSome = m.state.isTerminal := by
  unfold ending?
  cases m.state.isTerminal <;> rfl

theorem ending?_eq_none {m : Machine} : m.ending? = none ↔ m.state.isTerminal = false := by
  unfold ending?
  cases m.state.isTerminal <;> simp

/-! ## Machines without aids -/

/-- A machine without aids, and without the state in which it pauses. -/
def unaided (m : Machine) : Machine :=
  { m with
    state := .loaded
    flags := { m.flags with recordFrames := false }
    calls := { m.calls with frames := none }
    events := {}
    breakpoints := [] }

theorem unaided_ignored : InstructionsIgnore unaided where
  registers _ := rfl
  pc _ := rfl
  memory _ := rfl
  console _ := rfl
  setsRegisters _ _ := rfl
  setsMemory _ _ := rfl
  setsConsole _ _ := rfl
  tells _ _ := rfl
  completes _ _ := rfl
  trap _ := rfl
  calls m e registers := by
    unfold Effect.onCalls
    cases e.call <;> rfl

/-- The state in which an attempt ends the execution, if it does. -/
def final? : StepEnd × Machine → Option ExecState
  | (.stopped stop, m) =>
    if (m.stateOf stop).isTerminal then some (m.stateOf stop) else none
  | _ => none

/-- Two machines that differ in their aids alone, and in where they pause for that reason. -/
structure Alike (a b : Machine) : Prop where
  unaided : a.unaided = b.unaided
  ending : a.ending? = b.ending?

theorem Alike.values {a b : Machine} (h : a.Alike b) : a.values = b.values := by
  show a.unaided.values = b.unaided.values
  rw [h.unaided]

/-- What follows an attempt is at most a pause or the end. -/
structure Continues (r : StepEnd × Machine) (m : Machine) : Prop where
  unaided : m.unaided = r.2
  ending : m.ending? = final? r

section Attempts

variable {m m' : Machine} {ended : StepEnd}

theorem unaided_step (h : m.step = (ended, m')) : m.unaided.step = (ended, m'.unaided) := by
  rw [unaided_ignored.step, h]
  rfl

theorem continues_ran (hstate : m.state.isTerminal = false) (h : m.step = (.ran, m')) :
    Continues m.unaided.step m' := by
  have hturn := m.step_turn
  rw [h] at hturn
  rw [unaided_step h]
  exact ⟨rfl, ending?_eq_none.mpr (hturn.state ▸ hstate)⟩

theorem continues_breakpoint (h : m.step = (.ran, m')) :
    Continues m.unaided.step (m'.endIn (.paused .breakpoint)).2 := by
  rw [unaided_step h]
  exact ⟨rfl, rfl⟩

theorem continues_stopped {stop : Stop} (h : m.step = (.stopped stop, m')) :
    Continues m.unaided.step (m'.endIn (m'.stateOf stop)).2 := by
  rw [unaided_step h]
  refine ⟨rfl, ?_⟩
  cases stop <;> rfl

theorem continues_waiting (hstate : m.state.isTerminal = false) (h : m.step = (.waiting, m')) :
    Continues m.unaided.step m' := by
  have hturn := m.step_turn
  rw [h] at hturn
  rw [unaided_step h]
  exact ⟨rfl, ending?_eq_none.mpr (hturn.state ▸ hstate)⟩

/-- A run of one attempt does what the attempt does to the machine without aids. -/
theorem run_one (hstate : m.state.isTerminal = false) : Continues m.unaided.step (m.run 1).2 := by
  obtain ⟨ended, m', hstep⟩ : ∃ ended m', { m with state := .running }.step = (ended, m') :=
    ⟨_, _, rfl⟩
  have hrun : (m.run 1).2 = (runFrom .unlimited 1 false { m with state := .running }).2 := by
    rw [run, runTo, if_neg (by simp [hstate])]
  rw [hrun]
  show Continues { m with state := .running }.unaided.step _
  cases ended with
  | ran =>
    rw [runFrom_ran rfl hstep]
    split
    · exact continues_breakpoint hstep
    · exact continues_ran rfl hstep
  | stopped stop =>
    rw [runFrom_stopped rfl hstep]
    exact continues_stopped hstep
  | waiting =>
    rw [runFrom_waiting rfl hstep]
    exact continues_waiting rfl hstep

end Attempts

/-! ## Attempt by attempt -/

/-- A machine after `k` attempts at instructions, in runs each of which is begun where the one
before it has paused or waits. What happens to the console before each attempt is up to its
surroundings. -/
def resumed (m : Machine) (surroundings : Nat → Console → Console) : Nat → Machine
  | 0 => m
  | k + 1 =>
    let before := m.resumed surroundings k
    ({ before with console := surroundings k before.console }.run 1).2

namespace Alike

variable {a b x : Machine}

theorem refl (m : Machine) : m.Alike m := ⟨rfl, rfl⟩

/-- Machines that differ in nothing but their aids are alike. -/
theorem equipped (m : Machine) (first second : Aids) :
    (m.equipped first).Alike (m.equipped second) := ⟨rfl, rfl⟩

theorem onConsole (h : a.Alike b) (change : Console → Console) :
    Alike { a with console := change a.console } { b with console := change b.console } := by
  refine ⟨?_, h.ending⟩
  show { a.unaided with console := change a.unaided.console } =
    { b.unaided with console := change b.unaided.console }
  rw [h.unaided]

theorem isTerminal (h : a.Alike b) : a.state.isTerminal = b.state.isTerminal := by
  rw [← ending?_isSome, h.ending, ending?_isSome]

/-- What follows an attempt of one machine is like what a run of one attempt makes of the other. -/
theorem run_one (h : a.Alike b) (hstate : a.state.isTerminal = false)
    (hx : Continues a.unaided.step x) : x.Alike (b.run 1).2 := by
  have hb := Machine.run_one (m := b) (h.isTerminal ▸ hstate)
  rw [← h.unaided] at hb
  exact ⟨hx.unaided.trans hb.unaided.symm, hx.ending.trans hb.ending.symm⟩

theorem run_both (h : a.Alike b) : (a.run 1).2.Alike (b.run 1).2 := by
  cases hstate : a.state.isTerminal with
  | false => exact h.run_one hstate (Machine.run_one hstate)
  | true =>
    rw [run, run, runTo_ended hstate, runTo_ended (h.isTerminal ▸ hstate)]
    exact h

/-- Machines that are alike make the same of each attempt. The induction is on the attempts. -/
theorem resumed (h : a.Alike b) (surroundings : Nat → Console → Console) (k : Nat) :
    (a.resumed surroundings k).Alike (b.resumed surroundings k) := by
  induction k with
  | zero => exact h
  | succ k ih => exact (ih.onConsole (surroundings k)).run_both

end Alike

/-! ## Longer runs -/

/-- Nothing happens to the console. -/
def quiet (_ : Nat) (console : Console) : Console := console

theorem resumed_quiet_add (m : Machine) (j k : Nat) :
    (m.resumed quiet j).resumed quiet k = m.resumed quiet (j + k) := by
  induction k with
  | zero => rfl
  | succ k ih =>
    show (((m.resumed quiet j).resumed quiet k).run 1).2 = ((m.resumed quiet (j + k)).run 1).2
    rw [ih]

/-- The machines at which some runs, one after the other, attempt an instruction. -/
def visited (m : Machine) : List Nat → List Machine
  | [] => []
  | fuel :: runs => m.attempts (.run fuel) ++ (m.run fuel).2.visited runs

/-- These machines, from a first to a last one, have the values of `b` from attempt to attempt. -/
structure Traverses (b : Machine) (path : List Machine) (last : Machine) : Prop where
  values : path.map Machine.values =
    (List.range path.length).map fun k => (b.resumed quiet k).values
  last : last.Alike (b.resumed quiet path.length)

namespace Traverses

variable {a b m last : Machine} {path more : List Machine}

theorem none (h : last.Alike b) : b.Traverses [] last := ⟨rfl, h⟩

theorem one (h : a.Alike b) (hlast : last.Alike (b.run 1).2) : b.Traverses [a] last :=
  ⟨congrArg (fun v => [v]) h.values, hlast⟩

theorem append (h : b.Traverses path m)
    (hmore : (b.resumed quiet path.length).Traverses more last) :
    b.Traverses (path ++ more) last where
  values := by
    rw [List.map_append, h.values, hmore.values, List.length_append, List.range_add,
      List.map_append, List.map_map]
    simp only [Function.comp_def, resumed_quiet_add]
  last := by
    rw [List.length_append, ← resumed_quiet_add]
    exact hmore.last

end Traverses

namespace Alike

variable {a b : Machine}

/-- The attempts of a run are attempts of the other machine. The induction is on the number of
attempts that the run may make; where a breakpoint ends it, the other machine may go on. -/
theorem runFrom (h : a.Alike b) (hstate : a.state.isTerminal = false) (fuel : Nat) (begun : Bool) :
    b.Traverses (attemptsFrom .unlimited fuel begun a)
      (Machine.runFrom .unlimited fuel begun a).2 := by
  induction fuel generalizing a b begun with
  | zero => exact .none h
  | succ fuel ih =>
    obtain ⟨ended, a', hstep⟩ : ∃ ended a', a.step = (ended, a') := ⟨_, _, rfl⟩
    cases ended with
    | ran =>
      rw [runFrom_ran rfl hstep, attemptsFrom_ran rfl hstep]
      split
      · exact .one h (h.run_one hstate (continues_breakpoint hstep))
      · have hturn := a.step_turn
        rw [hstep] at hturn
        have hnext := h.run_one hstate (continues_ran hstate hstep)
        exact (Traverses.one h hnext).append (ih hnext (hturn.state ▸ hstate) true)
    | stopped stop =>
      rw [runFrom_stopped rfl hstep, attemptsFrom_last rfl hstep nofun]
      exact .one h (h.run_one hstate (continues_stopped hstep))
    | waiting =>
      rw [runFrom_waiting rfl hstep, attemptsFrom_last rfl hstep nofun]
      exact .one h (h.run_one hstate (continues_waiting hstate hstep))

theorem run (h : a.Alike b) (fuel : Nat) :
    b.Traverses (a.attempts (.run fuel)) (a.run fuel).2 := by
  rw [attempts, attemptsTo, Machine.run]
  cases hstate : a.state.isTerminal with
  | true =>
    rw [runTo_ended hstate]
    exact .none h
  | false =>
    have hrunning : Alike { a with state := .running } b :=
      ⟨h.unaided, (ending?_eq_none.mpr hstate).symm.trans h.ending⟩
    rw [if_neg Bool.false_ne_true, runTo, if_neg (by simp [hstate])]
    exact hrunning.runFrom rfl fuel false

/-- So are the attempts of any runs, one after the other. -/
theorem visited (h : a.Alike b) (runs : List Nat) :
    b.Traverses (a.visited runs) (a.after (runs.map .run)) := by
  induction runs generalizing a b with
  | nil => exact .none h
  | cons fuel runs ih => exact (h.run fuel).append (ih (h.run fuel).last)

end Alike

/-- Each run that may make an attempt makes one, unless the machine has ended. -/
theorem length_le_visited (m : Machine) {runs : List Nat} (hruns : ∀ fuel ∈ runs, 0 < fuel)
    (h : (m.after (runs.map .run)).ending? = none) : runs.length ≤ (m.visited runs).length := by
  induction runs generalizing m with
  | nil => exact Nat.zero_le _
  | cons fuel runs ih =>
    obtain ⟨hfuel, hruns⟩ := List.forall_mem_cons.mp hruns
    cases hstate : m.state.isTerminal with
    | true =>
      have hcalls : ∀ call ∈ (fuel :: runs).map Operation.run, call.isCall = true := by
        simp [Operation.isCall]
      rw [(calls_ended hstate hcalls).1, ending?_eq_none, hstate] at h
      cases h
    | false =>
      have hrest := ih (m.run fuel).2 hruns h
      have hone : 1 ≤ (m.attempts (.run fuel)).length := by
        obtain ⟨fuel, rfl⟩ := Nat.exists_eq_succ_of_ne_zero (Nat.ne_of_gt hfuel)
        rw [attempts, attemptsTo, if_neg (by simp [hstate])]
        exact Nat.succ_le_succ (Nat.zero_le _)
      rw [Machine.visited, List.length_append, List.length_cons, Nat.add_comm]
      exact Nat.add_le_add hone hrest

/-! ## The record of the open calls -/

/-- All open calls are recorded. -/
structure Recorded (m : Machine) : Prop where
  flag : m.flags.recordFrames = true
  frames : ∃ frames, m.calls.frames = some frames ∧ frames.size = m.calls.depth

/-- Services leave the open calls alone. -/
theorem syscall_calls (m : Machine) : m.syscall.2.calls = m.calls := by
  have hignored : ServicesIgnore fun other => { other with calls := m.calls } :=
    { registers := fun _ => rfl, pc := fun _ => rfl, memory := fun _ => rfl
      console := fun _ => rfl, setsRegisters := fun _ _ => rfl, setsMemory := fun _ _ => rfl
      setsConsole := fun _ _ => rfl, tells := fun _ _ => rfl, completes := fun _ _ => rfl }
  exact congrArg (·.2.calls) (hignored.syscall m)

/-- An attempt does to the open calls what the effect of an instruction does. -/
theorem step_calls (m : Machine) :
    ∃ (e : Effect) (regs : Registers), m.step.2.calls = e.onCalls m.pc regs m.calls := by
  have hkept (r : StepEnd × Machine) (h : r.2.calls = m.calls) :
      ∃ (e : Effect) (regs : Registers), r.2.calls = e.onCalls m.pc regs m.calls :=
    ⟨{}, m.registers, h⟩
  unfold step
  split
  · exact hkept _ rfl
  · split
    · exact hkept _ rfl
    · rw [execute_eq_outcome]
      unfold outcome
      split
      · exact hkept _ m.syscall_calls
      · exact hkept _ rfl
      · split
        · next e _ => exact ⟨e, _, rfl⟩
        · exact hkept _ rfl

theorem step_flags (m : Machine) : m.step.2.flags = m.flags := by
  have hturn := m.step_turn
  generalize m.step.1 = ended at hturn
  generalize m.step.2 = m' at hturn
  cases hturn <;> rfl

/-- Whether the record of the open calls is left switched on. -/
def Operation.keepsRecording : Operation → Bool
  | .setFlags flags => flags.recordFrames
  | _ => true

namespace Recorded

variable {m m' : Machine}

theorem congr (h : m.Recorded) (hflags : m'.flags = m.flags) (hcalls : m'.calls = m.calls) :
    m'.Recorded :=
  ⟨by rw [hflags, h.flag], by rw [hcalls]; exact h.frames⟩

/-- At the start of a program no call is open. -/
theorem reset (h : m.flags.recordFrames = true) : m.reset.Recorded := by
  refine ⟨h, #[], ?_, rfl⟩
  show (CallStack.empty m.flags.recordFrames).frames = some #[]
  rw [h]
  rfl

/-- A call is pushed onto the record, and a return takes the last one from it. Where no call is
open, both are left at zero. -/
theorem step (h : m.Recorded) : m.step.2.Recorded := by
  obtain ⟨frames, hframes, hsize⟩ := h.frames
  obtain ⟨e, regs, hcalls⟩ := m.step_calls
  refine ⟨by rw [m.step_flags, h.flag], ?_⟩
  rw [hcalls]
  unfold Effect.onCalls
  cases e.call with
  | keep => exact ⟨frames, hframes, hsize⟩
  | opens callee =>
    refine ⟨frames.push (CallStack.frameOf m.pc callee regs), ?_, ?_⟩
    · exact congrArg (Option.map (·.push (CallStack.frameOf m.pc callee regs))) hframes
    · show (frames.push _).size = m.calls.depth + 1
      rw [Array.size_push, hsize]
  | closes =>
    refine ⟨frames.pop, ?_, ?_⟩
    · exact congrArg (Option.map Array.pop) hframes
    · show frames.pop.size = m.calls.depth - 1
      rw [Array.size_pop, hsize]

theorem kept : Kept Recorded where
  starts h := h.congr rfl rfl
  goesOn h hstep := by
    have hafter := h.step
    rwa [hstep] at hafter
  stops h hstep := by
    have hafter := h.step
    rw [hstep] at hafter
    exact hafter.congr rfl rfl
  pauses _ h := h.congr rfl rfl
  halts h := h.congr rfl rfl

theorem perform (h : m.Recorded) {operation : Operation}
    (hoperation : operation.keepsRecording = true) : (m.perform operation).Recorded := by
  cases hrun : operation.isRun with
  | true => exact kept.perform hrun h
  | false =>
    cases operation with
    | reset => exact .reset h.flag
    | setFlags flags => exact ⟨hoperation, h.frames⟩
    | writeWord a value =>
      show (m.writeWord a value).2.Recorded
      rw [writeWord_eq]
      cases m.memory.locateWritable a 4 <;> exact h.congr rfl rfl
    | setRegister | setPc | setConsole | setBreakpoints | setEvents => exact h.congr rfl rfl
    | _ => exact nomatch hrun

theorem after (h : m.Recorded) {operations : List Operation}
    (hoperations : ∀ operation ∈ operations, operation.keepsRecording = true) :
    (m.after operations).Recorded := by
  induction operations generalizing m with
  | nil => exact h
  | cons operation operations ih =>
    obtain ⟨hoperation, hoperations⟩ := List.forall_mem_cons.mp hoperations
    exact ih (h.perform hoperation) hoperations

end Recorded

/-! ## Aids make no difference -/

/-- Aids for debugging do not change a program. Two machines that differ in nothing but records of
calls, observers and breakpoints, and whose runs are begun again after every pause, have the same
values after every attempt at an instruction and end with the same attempt in the same state,
whatever happens to the input meanwhile, as long as it is the same for both. That each run makes as
many attempts as it likes does not matter: the attempts of all runs, one after the other, are these,
and there is one at least in each run that may make one, until the machine has ended. Once calls are
recorded from the loading of a program on, there are as many entries as open calls, whatever is done
to the machine. -/
theorem aids_unnoticed :
    (∀ (m : Machine) (aids : Aids) (p : Program),
      ∃ loaded, (m.equipped aids).load p = (m.load p).equipped loaded) ∧
    (∀ (m : Machine) (first second : Aids) (surroundings : Nat → Console → Console) (k : Nat),
      let a := (m.equipped first).resumed surroundings k
      let b := (m.equipped second).resumed surroundings k
      a.values = b.values ∧ a.ending? = b.ending?) ∧
    (∀ (m : Machine) (runs : List Nat),
      let final := m.after (runs.map .run)
      let attempts := (m.visited runs).length
      (m.visited runs).map values =
          (List.range attempts).map (fun k => (m.resumed quiet k).values) ∧
        final.values = (m.resumed quiet attempts).values ∧
        final.ending? = (m.resumed quiet attempts).ending? ∧
        ((∀ fuel ∈ runs, 0 < fuel) → final.ending? = none → runs.length ≤ attempts)) ∧
    ∀ (m : Machine) (p : Program) (operations : List Operation),
      m.flags.recordFrames = true →
      (∀ operation ∈ operations, operation.keepsRecording = true) →
      let reached := (m.load p).after operations
      ∃ frames, reached.calls.frames = some frames ∧ frames.size = reached.calls.depth := by
  refine ⟨fun m aids p => ⟨_, m.load_equipped aids p⟩,
    fun m first second surroundings k => ?_, fun m runs => ?_,
    fun m p operations hflag hkeep => ?_⟩
  · have halike := (Alike.equipped m first second).resumed surroundings k
    exact ⟨halike.values, halike.ending⟩
  · have htraverses := (Alike.refl m).visited runs
    exact ⟨htraverses.values, htraverses.last.values, htraverses.last.ending,
      m.length_le_visited⟩
  · have hloaded : (m.load p).Recorded := .reset (m := { m with program := some p }) hflag
    exact (hloaded.after hkeep).frames

/-- A program that makes a call and ends. One machine records the call, is observed and pauses in
it; the other one does none of this. -/
theorem aids_unnoticed_call :
    let p := (assemble (.ofString "main: jal f\nli $v0, 10\nsyscall\nf: jr $ra")).program
    let m := fresh { stackBudget := 0, recordFrames := true } p
    let first : Aids :=
      { recordFrames := true, frames := some #[], observers := (EventBus.subscribe {} none).2
        breakpoints := [.pc 0x0040000C] }
    let second : Aids :=
      { recordFrames := false, frames := none, observers := {}, breakpoints := [] }
    let a := (m.equipped first).resumed quiet
    let b := (m.equipped second).resumed quiet
    (a 1).state = .paused .breakpoint ∧ (b 1).state = .running ∧ (a 1).values = (b 1).values ∧
      (a 4).ending? = some (.halted (.exit 0)) ∧ (b 4).ending? = some (.halted (.exit 0)) ∧
      2 ≤ ((m.equipped first).visited [9, 1]).length ∧
      ∃ frames, (m.after [.stepIn]).calls.frames = some frames ∧ frames.size = 1 := by
  intro p m first second a b
  obtain ⟨-, hsame, hruns, hrecorded⟩ := aids_unnoticed
  -- The runs of the one machine make four attempts, after which it has ended.
  obtain ⟨-, -, hending, -⟩ := hruns (m.equipped second) [9]
  have hattempts : ((m.equipped second).visited [9]).length = 4 := by decide +kernel
  have hended : ((m.equipped second).after ([9].map .run)).ending? = some (.halted (.exit 0)) := by
    decide +kernel
  rw [hended, hattempts] at hending
  obtain ⟨-, -, -, hlength⟩ := hruns (m.equipped first) [9, 1]
  have hgoesOn : ((m.equipped first).after ([9, 1].map .run)).ending? = none := by decide +kernel
  have hdepth : (m.after [.stepIn]).calls.depth = 1 := by decide +kernel
  obtain ⟨frames, hframes, hsize⟩ :=
    hrecorded (create { stackBudget := 0, recordFrames := true }) p [.stepIn] rfl
      (by simp [Operation.keepsRecording])
  exact ⟨by decide +kernel, by decide +kernel, (hsame m first second quiet 1).1,
    (hsame m first second quiet 4).2.trans hending.symm, hending.symm, hlength (by simp) hgoesOn,
    frames, hframes, hsize.trans hdepth⟩

end Machine

end MipsLab
