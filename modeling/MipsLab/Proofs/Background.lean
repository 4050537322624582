import MipsLab.Proofs.Foresight
import MipsLab.Proofs.Precision
import MipsLab.Proofs.Runs
import MipsLab.Worker

/-!
# Execution in the background

What a worker's machine computes does not depend on what controllers do meanwhile. It is compared
with a machine of its own that nobody controls and that makes single steps.

1. `Machine.Foresees.attempt`: an attempt of the worker's machine is a step of the other one or
   none.
2. `Worker.Shadows`: what the two have in common at any time.
3. `Worker.Shadows.after`: whatever happens to the worker keeps it.
4. `Worker.computes_alone`: all results of the worker are results of single steps.
-/

namespace MipsLab

/-! ## Results -/

namespace Machine

/-- Two machines have completed as many instructions, with the same results. -/
structure SameResults (a b : Machine) : Prop where
  registers : b.registers = a.registers
  pc : b.pc = a.pc
  memory : b.memory = a.memory
  calls : b.calls = a.calls
  output : b.console.output = a.console.output
  completed : b.completed = a.completed

variable {input : Input} {a a' b c r : Machine}

theorem SameResults.refl (a : Machine) : a.SameResults a :=
  ⟨.refl _, .refl _, .refl _, .refl _, .refl _, .refl _⟩

theorem SameResults.symm (h : a.SameResults b) : b.SameResults a :=
  ⟨h.registers.symm, h.pc.symm, h.memory.symm, h.calls.symm, h.output.symm, h.completed.symm⟩

theorem SameResults.trans (h : a.SameResults b) (h' : b.SameResults c) : a.SameResults c where
  registers := h'.registers.trans h.registers
  pc := h'.pc.trans h.pc
  memory := h'.memory.trans h.memory
  calls := h'.calls.trans h.calls
  output := h'.output.trans h.output
  completed := h'.completed.trans h.completed

section

variable {state : ExecState} {events : EventBus} {flags : Flags}

/-- The state of a machine, its observers and its flags are not among its results. -/
theorem SameResults.restate (h : a.SameResults b) :
    SameResults { a with state, events, flags } b :=
  ⟨h.registers, h.pc, h.memory, h.calls, h.output, h.completed⟩

/-- Only one of the flags matters to what instructions do. -/
theorem Foresees.restate (h : a.Foresees input r)
    (htrap : flags.trapOverflow = a.flags.trapOverflow) :
    Foresees input { a with state, events, flags } r :=
  ⟨h.registers, h.pc, h.memory, h.completed, h.calls, h.trap.trans htrap.symm, h.console⟩

end

theorem Foresees.sameResults (h : a.Foresees input r) : a.SameResults r :=
  ⟨h.registers, h.pc, h.memory, h.calls, h.console.output, h.completed⟩

end Machine

/-! ## Output -/

namespace Console

theorem cancelRead_output (c : Console) : c.cancelRead.output = c.output := by
  cases c with
  | channel c => exact c.cancelRead_sameInput.output
  | closed | buffered | foreign => rfl

theorem arrive_output (c : Console) (arrival : Arrival) : (c.arrive arrival).output = c.output := by
  cases c with
  | channel c =>
    cases arrival with
    | bytes bytes => exact congrArg (·.output) (c.push_congr bytes)
    | ends => rfl
  | closed | buffered | foreign => cases arrival <;> rfl

end Console

/-! ## Attempts -/

/-- Whether the machine has ended with the attempt. -/
def StepEnd.isFinal : StepEnd → Bool
  | stopped (.halt _) | stopped (.fault _) => true
  | ran | stopped .pause | stopped .cancelled | waiting => false

namespace Machine

variable {input : Input} {a a' m m' r : Machine} {ended : StepEnd}

theorem stateOf_isTerminal (m : Machine) (stop : Stop) :
    (m.stateOf stop).isTerminal = (StepEnd.stopped stop).isFinal := by
  cases stop <;> rfl

/-- A single step adds nothing to the attempt at an instruction but the state and an event. -/
theorem stepIn_step (hstate : m.state.isTerminal = false) (h : m.step = (ended, m')) :
    ∃ state events, m.stepIn.2 = { m' with state, events } ∧ state.isTerminal = ended.isFinal := by
  cases ended with
  | ran => exact ⟨_, _, congrArg Prod.snd (stepIn_ran hstate h), rfl⟩
  | stopped stop =>
    exact ⟨_, _, congrArg Prod.snd (stepIn_stopped hstate h), m'.stateOf_isTerminal stop⟩
  | waiting =>
    have hkept : m'.state = m.state := by
      have hturn := m.step_turn
      rw [h] at hturn
      exact hturn.state
    exact ⟨_, _, congrArg Prod.snd (stepIn_waiting hstate h), by rw [hkept, hstate]; rfl⟩

theorem attempt_ran (h : m.step = (.ran, m')) :
    m.attempt = (if m'.atBreakpoint then .ends (.paused .breakpoint) else .goesOn, m') := by
  unfold attempt
  rw [h]

theorem attempt_stopped {stop : Stop} (h : m.step = (.stopped stop, m')) :
    m.attempt = (.ends (m'.stateOf stop), m') := by
  unfold attempt
  rw [h]

theorem attempt_waiting (h : m.step = (.waiting, m')) : m.attempt = (.waits, m') := by
  unfold attempt
  rw [h]

/-- An attempt of a machine that gets its input bit by bit has the results of a step of the machine
that has it in advance, or it has none and the other one stays as it is. -/
theorem Foresees.attempt (h : a.Foresees input r) (hstate : r.state.isTerminal = false)
    (hstep : a.step = (ended, a')) :
    ∃ r', (r' = r ∨ r' = r.stepIn.2) ∧ a'.SameResults r' ∧
      (ended.isFinal = false → r'.state.isTerminal = false ∧ a'.Foresees input r') := by
  have hreplays := h.step
  rw [hstep] at hreplays
  obtain ⟨other, r₁, hr⟩ : ∃ other r₁, r.step = (other, r₁) := ⟨_, _, rfl⟩
  rw [hr] at hreplays
  cases hreplays with
  | completes hafter =>
    obtain ⟨state, events, hstepIn, hterminal⟩ := stepIn_step hstate hr
    have hsame : a'.Foresees input { r₁ with state, events } :=
      ⟨hafter.registers, hafter.pc, hafter.memory, hafter.completed, hafter.calls, hafter.trap,
        hafter.console⟩
    rw [← hstepIn] at hsame
    refine ⟨r.stepIn.2, .inr rfl, hsame.sameResults, fun hfinal => ⟨?_, hsame⟩⟩
    rw [hstepIn]
    exact hterminal.trans hfinal
  | rests hended hafter =>
    exact ⟨r, .inl rfl, hafter.sameResults, fun _ => ⟨hstate, hafter⟩⟩
  | fails =>
    obtain ⟨hunchanged, houtput⟩ := step_of_not_completion hstep rfl
    refine ⟨r, .inl rfl, ?_, fun hfinal => nomatch hfinal⟩
    rw [hunchanged]
    exact ⟨h.registers, h.pc, h.memory, h.calls, h.console.output.trans houtput.symm, h.completed⟩

end Machine

/-! ## Workers -/

/-- Whether the worker is in a run. -/
def Phase.isRun : Phase → Bool
  | between | executing => true
  | idle | stepping | ended => false

namespace Worker

/-- The worker's machine has the same results as a machine `r` that has some more input. As long as
the first one has not ended, neither has the second one, and both go on in the same way. -/
structure Shadows (input : Input) (r : Machine) (w : Worker) : Prop where
  results : w.machine.SameResults r
  goesOn : w.machine.state.isTerminal = false →
    r.state.isTerminal = false ∧ w.machine.Foresees input r
  run : w.phase.isRun = true → w.machine.state.isTerminal = false

variable {input : Input} {r : Machine} {w w' : Worker}

theorem shadows_ofMachine {m : Machine} (h : m.Foresees input r) (hstate : r.state = m.state) :
    Shadows input r (ofMachine m) where
  results := h.sameResults
  goesOn := fun hm => ⟨by rw [hstate]; exact hm, h⟩
  run := nofun

/-! ## Commands -/

/-- Commands change the state, the events and the flags of the machine, and do not bring a machine
that has ended back to life. -/
theorem Shadows.restate (h : Shadows input r w) {state : ExecState} {events : EventBus}
    {flags : Flags} (hmachine : w'.machine = { w.machine with state, events, flags })
    (htrap : flags.trapOverflow = w.machine.flags.trapOverflow)
    (hstate : state.isTerminal = false → w.machine.state.isTerminal = false)
    (hrun : w'.phase.isRun = true → state.isTerminal = false) : Shadows input r w' := by
  obtain ⟨machine, status, phase, queue, sent, isControlled, isBlocked⟩ := w'
  obtain rfl : machine = { w.machine with state, events, flags } := hmachine
  refine ⟨h.results.restate, fun hgoes => ?_, hrun⟩
  obtain ⟨hr, hforesees⟩ := h.goesOn (hstate hgoes)
  exact ⟨hr, hforesees.restate htrap⟩

theorem Shadows.rephase (h : Shadows input r w) (hmachine : w'.machine = w.machine)
    (hrun : w'.phase.isRun = true → w.machine.state.isTerminal = false) : Shadows input r w' :=
  h.restate hmachine rfl id hrun

theorem Shadows.handle (h : Shadows input r w) (hphase : w.phase = .idle) (command : Command) :
    Shadows input r (w.handle command) := by
  have hidle : ¬ w.phase.isRun = true := by
    rw [hphase]
    nofun
  cases command with
  | resume =>
    show Shadows input r w.startRun.count.publish
    unfold startRun
    cases hstate : w.machine.state.isTerminal with
    | true => exact h.rephase rfl fun hrun => absurd hrun hidle
    | false => exact h.restate rfl rfl (fun _ => hstate) fun _ => rfl
  | step => exact h.rephase rfl nofun
  | pause => exact h.rephase rfl fun hrun => absurd hrun hidle
  | stop =>
    show Shadows input r { w with machine := w.machine.stop }.count.publish
    unfold Machine.stop
    cases hstate : w.machine.state.isTerminal with
    | true => exact h.rephase rfl fun hrun => absurd hrun hidle
    | false => exact h.restate rfl rfl nofun fun hrun => absurd hrun hidle
  | setDelay delay => exact h.restate rfl rfl id fun hrun => absurd hrun hidle
  | shutdown => exact h.rephase rfl nofun

theorem Shadows.interrupt (h : Shadows input r w) (hphase : w.phase = .between)
    (command : Command) : Shadows input r (w.interrupt command) := by
  have hstate : w.machine.state.isTerminal = false := h.run (by rw [hphase]; rfl)
  cases command with
  | resume | step => exact h.rephase rfl fun _ => hstate
  | pause => exact h.restate rfl rfl (fun _ => hstate) nofun
  | stop => exact h.restate rfl rfl (fun _ => hstate) nofun
  | setDelay delay => exact h.restate rfl rfl id fun _ => hstate
  | shutdown => exact h.restate rfl rfl (fun _ => hstate) nofun

/-! ## Turns -/

/-- The machine `r` either stays as it is or makes a step. -/
def StaysOrSteps (r r' : Machine) : Prop := r' = r ∨ r' = r.stepIn.2

/-- The worker has attempted an instruction, and then changed the state of the machine at most. -/
theorem Shadows.attempt (h : Shadows input r w) (hstate : w.machine.state.isTerminal = false)
    {ended : StepEnd} {a : Machine} (hstep : w.machine.step = (ended, a)) {state : ExecState}
    {events : EventBus} (hmachine : w'.machine = { a with state, events })
    (hfinal : state.isTerminal = ended.isFinal)
    (hrun : w'.phase.isRun = true → state.isTerminal = false) :
    ∃ r', StaysOrSteps r r' ∧ Shadows input r' w' := by
  obtain ⟨hr, hforesees⟩ := h.goesOn hstate
  obtain ⟨r', hr', hresults, hgoes⟩ := hforesees.attempt hr hstep
  obtain ⟨machine, status, phase, queue, sent, isControlled, isBlocked⟩ := w'
  obtain rfl : machine = { a with state, events } := hmachine
  refine ⟨r', hr', hresults.restate, fun hgoesOn => ?_, hrun⟩
  obtain ⟨hr'state, hafter⟩ := hgoes (hfinal.symm.trans hgoesOn)
  exact ⟨hr'state, hafter.restate rfl⟩

/-- The worker executes the instruction of a step command. -/
theorem Shadows.stepping (h : Shadows input r w) (hphase : w.phase = .stepping) :
    ∃ r', StaysOrSteps r r' ∧ Shadows input r' w.turn := by
  obtain ⟨machine, status, phase, queue, sent, isControlled, isBlocked⟩ := w
  obtain rfl : phase = .stepping := hphase
  unfold turn
  cases hstate : machine.state.isTerminal with
  | true =>
    have hstepIn : machine.stepIn = (.ended machine.state.result, machine) := by
      unfold Machine.stepIn
      rw [if_pos hstate]
    simp only [hstepIn]
    exact ⟨r, .inl rfl, h.rephase rfl nofun⟩
  | false =>
    obtain ⟨ended, a, hstep⟩ : ∃ ended a, machine.step = (ended, a) := ⟨_, _, rfl⟩
    obtain ⟨state, events, hafter, hfinal⟩ := Machine.stepIn_step hstate hstep
    cases ended with
    | waiting =>
      rw [Machine.stepIn_waiting hstate hstep] at hafter
      simp only [Machine.stepIn_waiting hstate hstep]
      exact h.attempt hstate hstep hafter hfinal nofun
    | ran =>
      rw [Machine.stepIn_ran hstate hstep] at hafter
      simp only [Machine.stepIn_ran hstate hstep]
      exact h.attempt hstate hstep hafter hfinal nofun
    | stopped stop =>
      rw [Machine.stepIn_stopped hstate hstep] at hafter
      simp only [Machine.stepIn_stopped hstate hstep]
      exact h.attempt hstate hstep hafter hfinal nofun

/-- The worker executes an instruction of a run. -/
theorem Shadows.executing (h : Shadows input r w) (hphase : w.phase = .executing) :
    ∃ r', StaysOrSteps r r' ∧ Shadows input r' w.turn := by
  obtain ⟨machine, status, phase, queue, sent, isControlled, isBlocked⟩ := w
  obtain rfl : phase = .executing := hphase
  have hstate : machine.state.isTerminal = false := h.run rfl
  obtain ⟨ended, a, hstep⟩ : ∃ ended a, machine.step = (ended, a) := ⟨_, _, rfl⟩
  have hkept : a.state.isTerminal = false := by
    have hturn := machine.step_turn
    rw [hstep] at hturn
    rw [hturn.state]
    exact hstate
  unfold turn
  cases ended with
  | ran =>
    have hattempt := Machine.attempt_ran hstep
    cases hbreak : a.atBreakpoint with
    | true =>
      rw [hbreak, if_pos rfl] at hattempt
      simp only [hattempt]
      exact h.attempt hstate hstep rfl rfl nofun
    | false =>
      rw [hbreak, if_neg nofun] at hattempt
      simp only [hattempt]
      exact h.attempt hstate hstep rfl hkept fun _ => hkept
  | waiting =>
    simp only [Machine.attempt_waiting hstep]
    exact h.attempt hstate hstep rfl hkept fun _ => hkept
  | stopped stop =>
    have hattempt := Machine.attempt_stopped hstep
    cases stop with
    | cancelled =>
      -- The run goes on, and the instruction is attempted again.
      simp only [hattempt]
      exact h.attempt hstate hstep rfl rfl fun _ => rfl
    | halt reason =>
      simp only [hattempt]
      exact h.attempt hstate hstep rfl rfl nofun
    | pause =>
      simp only [hattempt]
      exact h.attempt hstate hstep rfl rfl nofun
    | fault error =>
      simp only [hattempt]
      exact h.attempt hstate hstep rfl rfl nofun

theorem Shadows.turn (h : Shadows input r w) :
    ∃ r', StaysOrSteps r r' ∧ Shadows input r' w.turn := by
  cases hphase : w.phase with
  | stepping => exact h.stepping hphase
  | executing => exact h.executing hphase
  | idle =>
    refine ⟨r, .inl rfl, ?_⟩
    obtain ⟨machine, status, phase, queue, sent, isControlled, isBlocked⟩ := w
    obtain rfl : phase = .idle := hphase
    cases queue with
    | nil =>
      refine h.rephase rfl fun hrun => ?_
      cases isControlled <;> exact nomatch hrun
    | cons command rest =>
      have htook : Shadows input r { machine, status, queue := rest, sent, isControlled } :=
        h.rephase rfl nofun
      exact htook.handle rfl command
  | between =>
    refine ⟨r, .inl rfl, ?_⟩
    obtain ⟨machine, status, phase, queue, sent, isControlled, isBlocked⟩ := w
    obtain rfl : phase = .between := hphase
    have hstate : machine.state.isTerminal = false := h.run rfl
    cases queue with
    | nil =>
      cases isControlled with
      | true => exact h.rephase rfl fun _ => hstate
      | false => exact h.restate rfl rfl (fun _ => hstate) nofun
    | cons command rest =>
      have htook : Shadows input r
          { machine, status, phase := .between, queue := rest, sent, isControlled } :=
        h.rephase rfl fun _ => hstate
      exact htook.interrupt rfl command
  | ended =>
    refine ⟨r, .inl rfl, ?_⟩
    obtain ⟨machine, status, phase, queue, sent, isControlled, isBlocked⟩ := w
    obtain rfl : phase = .ended := hphase
    exact h.rephase rfl nofun

/-! ## Actions -/

/-- What an action does to the input. -/
def Action.arrival? : Action → Option Arrival
  | feed bytes => some (.bytes bytes)
  | closeInput => some .ends
  | turn | send _ | cancelRead | detach => none

/-- What some actions do to the input. -/
def arrivals (actions : List Action) : Input := actions.filterMap Action.arrival?

/-- The console of the machine is changed in a way that the other machine does not notice. -/
theorem Shadows.reconsole {input' : Input} {r' : Machine} (h : Shadows input r w)
    {change : Console → Console} {console : Console} (hr : r' = { r with console })
    (houtput : console.output = (change w.machine.console).output)
    (hforesees : w.machine.console.Foresees input r.console →
      (change w.machine.console).Foresees input' console) :
    Shadows input' r' (w.onConsole change) := by
  subst hr
  obtain ⟨hregisters, hpc, hmemory, hcalls, -, hcompleted⟩ := h.results
  refine ⟨⟨hregisters, hpc, hmemory, hcalls, houtput, hcompleted⟩, fun hstate => ?_, h.run⟩
  obtain ⟨hrstate, hafter⟩ := h.goesOn hstate
  exact ⟨hrstate, hafter.registers, hafter.pc, hafter.memory, hafter.completed, hafter.calls,
    hafter.trap, hforesees hafter.console⟩

theorem Shadows.after (h : Shadows input r w) {action : Action} (haction : action.arrival? = none) :
    ∃ r', StaysOrSteps r r' ∧ Shadows input r' (w.after action) := by
  cases action with
  | turn => exact h.turn
  | send command => exact ⟨r, .inl rfl, h.rephase rfl h.run⟩
  | cancelRead =>
    refine ⟨r, .inl rfl, h.reconsole rfl ?_ fun hforesees => hforesees.cancelRead⟩
    rw [Console.cancelRead_output]
    exact h.results.output
  | feed bytes => exact nomatch haction
  | closeInput => exact nomatch haction
  | detach => exact ⟨r, .inl rfl, h.rephase rfl h.run⟩

theorem after_arrival {action : Action} {arrival : Arrival} (h : action.arrival? = some arrival) :
    w.after action = w.onConsole (·.arrive arrival) := by
  cases action with
  | feed bytes =>
    cases h
    rfl
  | closeInput =>
    cases h
    rfl
  | turn | send | cancelRead | detach => exact nomatch h

/-- Input arrives that the other machine has already. -/
theorem Shadows.arrive {arrival : Arrival} (h : Shadows (arrival :: input) r w) :
    Shadows input r (w.onConsole (·.arrive arrival)) := by
  refine h.reconsole rfl ?_ fun hforesees => hforesees.arrive
  rw [Console.arrive_output]
  exact h.results.output

/-- Input arrives in both machines. -/
theorem Shadows.arrive_both (h : Shadows [] r w) (arrival : Arrival) :
    Shadows [] { r with console := r.console.arrive arrival } (w.onConsole (·.arrive arrival)) := by
  refine h.reconsole rfl ?_ fun hforesees => hforesees.arrive_both arrival
  rw [Console.arrive_output, Console.arrive_output]
  exact h.results.output

end Worker

/-! ## Machines of their own -/

namespace Machine

/-- What is done to a machine that nobody controls. -/
inductive Move
  | step
  | arrive (arrival : Arrival)
  deriving DecidableEq, Repr

def Move.arrival? : Move → Option Arrival
  | step => none
  | arrive arrival => some arrival

def move (m : Machine) : Move → Machine
  | .step => m.stepIn.2
  | .arrive arrival => { m with console := m.console.arrive arrival }

/-- A machine after some moves. -/
def moved (m : Machine) (moves : List Move) : Machine := moves.foldl move m

/-- A machine that has been given all input in advance. -/
def given (m : Machine) (input : Input) : Machine :=
  { m with console := input.foldl Console.arrive m.console }

variable {m m' : Machine} {ended : StepEnd}

/-- An attempt that completes no instruction has no results. -/
theorem Turn.results (h : m.Turn ended m') :
    m'.completed = m.completed + 1 ∨ m.SameResults m' := by
  cases h with
  | rests hended houtput => exact .inr ⟨rfl, rfl, rfl, rfl, houtput, rfl⟩
  | completes => exact .inl rfl
  | grows => exact .inl rfl

theorem stepIn_results (m : Machine) :
    m.stepIn.2.completed = m.completed + 1 ∨ m.SameResults m.stepIn.2 := by
  cases hstate : m.state.isTerminal with
  | true =>
    have hsame : m.stepIn.2 = m := by
      unfold stepIn
      rw [if_pos hstate]
    rw [hsame]
    exact .inr (.refl m)
  | false =>
    obtain ⟨ended, m', hstep⟩ : ∃ ended m', m.step = (ended, m') := ⟨_, _, rfl⟩
    obtain ⟨state, events, hafter, -⟩ := stepIn_step hstate hstep
    have hturn := m.step_turn
    rw [hstep] at hturn
    rw [hafter]
    rcases hturn.results with hcompleted | hsame
    · exact .inl hcompleted
    · exact .inr hsame.symm.restate.symm

/-- Steps complete instructions, or have no results. -/
theorem stepped_results (m : Machine) (k : Nat) :
    m.completed < (m.stepped k).completed ∨ m.SameResults (m.stepped k) := by
  induction k with
  | zero => exact .inr (.refl m)
  | succ k ih =>
    show m.completed < (m.stepped k).stepIn.2.completed ∨ m.SameResults (m.stepped k).stepIn.2
    rcases (m.stepped k).stepIn_results with hmore | hsame
    · rcases ih with hlt | hk
      · exact .inl (by omega)
      · exact .inl (by rw [hmore, hk.completed]; exact Nat.lt_succ_self _)
    · rcases ih with hlt | hk
      · exact .inl (by rw [hsame.completed]; exact hlt)
      · exact .inr (hk.trans hsame)

/-- The number of completed instructions determines the results of single steps. -/
theorem sameResults_of_completed {n k : Nat}
    (h : (m.stepped n).completed = (m.stepped k).completed) :
    (m.stepped n).SameResults (m.stepped k) := by
  rcases Nat.le_total n k with hle | hle
  · obtain ⟨d, rfl⟩ := Nat.exists_eq_add_of_le hle
    rw [← stepped_add] at h ⊢
    rcases (m.stepped n).stepped_results d with hlt | hsame
    · exact absurd h (Nat.ne_of_lt hlt)
    · exact hsame
  · obtain ⟨d, rfl⟩ := Nat.exists_eq_add_of_le hle
    rw [← stepped_add] at h ⊢
    rcases (m.stepped k).stepped_results d with hlt | hsame
    · exact absurd h.symm (Nat.ne_of_lt hlt)
    · exact hsame.symm

end Machine

/-! ## Any actions -/

namespace Worker

variable {input : Input} {r : Machine} {w : Worker}

/-- The machine has been given all input in advance. The induction is on the actions, each of which
is a step of the machine, or none, or uses up a part of that input. -/
theorem Shadows.foldl_given {actions later : List Action}
    (h : Shadows (arrivals (actions ++ later)) r w) :
    ∃ n, Shadows (arrivals later) (r.stepped n) (actions.foldl Worker.after w) := by
  induction actions generalizing r w with
  | nil => exact ⟨0, h⟩
  | cons action actions ih =>
    cases harrival : action.arrival? with
    | none =>
      have hskip : arrivals (action :: actions ++ later) = arrivals (actions ++ later) :=
        List.filterMap_cons_none harrival
      rw [hskip] at h
      obtain ⟨r', hr', hafter⟩ := h.after harrival
      obtain ⟨n, hn⟩ := ih hafter
      rcases hr' with rfl | rfl
      · exact ⟨n, hn⟩
      · refine ⟨1 + n, ?_⟩
        rw [← Machine.stepped_add]
        exact hn
    | some arrival =>
      have huse : arrivals (action :: actions ++ later) = arrival :: arrivals (actions ++ later) :=
        List.filterMap_cons_some harrival
      rw [huse] at h
      rw [List.foldl_cons, after_arrival harrival]
      exact ih h.arrive

/-- The machine gets the input when the worker does. -/
theorem Shadows.foldl_moved (h : Shadows [] r w) (actions : List Action) :
    ∃ moves : List Machine.Move, moves.filterMap Machine.Move.arrival? = arrivals actions ∧
      Shadows [] (r.moved moves) (actions.foldl Worker.after w) := by
  induction actions generalizing r w with
  | nil => exact ⟨[], rfl, h⟩
  | cons action actions ih =>
    cases harrival : action.arrival? with
    | none =>
      have hskip : arrivals (action :: actions) = arrivals actions :=
        List.filterMap_cons_none harrival
      obtain ⟨r', hr', hafter⟩ := h.after harrival
      obtain ⟨moves, hmoves, hshadows⟩ := ih hafter
      rw [hskip]
      rcases hr' with rfl | rfl
      · exact ⟨moves, hmoves, hshadows⟩
      · exact ⟨.step :: moves, hmoves, hshadows⟩
    | some arrival =>
      have huse : arrivals (action :: actions) = arrival :: arrivals actions :=
        List.filterMap_cons_some harrival
      obtain ⟨moves, hmoves, hshadows⟩ := ih (h.arrive_both arrival)
      rw [List.foldl_cons, after_arrival harrival, huse]
      exact ⟨.arrive arrival :: moves, congrArg (arrival :: ·) hmoves, hshadows⟩

/-- Whatever the controllers do, and however that mixes with the turns of the worker, the worker's
machine has the results of single steps of a machine of its own that gets the same input. It does
not matter when the input arrives, but for a buffer: a machine that has been given all of it in
advance, and with it all that is still to come, has the same results as soon as it has completed as
many instructions. -/
theorem computes_alone (m : Machine) (actions : List Action) :
    (∃ moves : List Machine.Move, moves.filterMap Machine.Move.arrival? = arrivals actions ∧
      (actions.foldl after (ofMachine m)).machine.SameResults (m.moved moves)) ∧
    ∀ later, (∀ b bytes, m.console = .buffered b → .bytes bytes ∉ arrivals (actions ++ later)) →
      let alone := m.given (arrivals (actions ++ later))
      (∃ n, (actions.foldl after (ofMachine m)).machine.SameResults (alone.stepped n)) ∧
      ∀ n, (alone.stepped n).completed = (actions.foldl after (ofMachine m)).machine.completed →
        (actions.foldl after (ofMachine m)).machine.SameResults (alone.stepped n) := by
  constructor
  · have hself : m.Foresees [] m :=
      ⟨rfl, rfl, rfl, rfl, rfl, rfl, m.console.foresees_refl⟩
    obtain ⟨moves, hmoves, hshadows⟩ := (shadows_ofMachine hself rfl).foldl_moved actions
    exact ⟨moves, hmoves, hshadows.results⟩
  · intro later hbuffer alone
    have hgiven : m.Foresees (arrivals (actions ++ later)) alone :=
      ⟨rfl, rfl, rfl, rfl, rfl, rfl, m.console.foresees_foldl _ hbuffer⟩
    obtain ⟨n, hshadows⟩ := (shadows_ofMachine hgiven rfl).foldl_given
    refine ⟨⟨n, hshadows.results⟩, fun k hk => ?_⟩
    have hcompleted : (alone.stepped n).completed = (alone.stepped k).completed :=
      hshadows.results.completed.trans hk.symm
    exact hshadows.results.trans (Machine.sameResults_of_completed hcompleted)

/-- A line arrives in two parts, between which the read is cancelled, and the run paused and
resumed. -/
theorem computes_alone_read :
    let p := (assemble (.ofString "li $v0, 5\nsyscall")).program
    let m := { (Machine.create { stackBudget := 0 }).load p with console := .channel {} }
    let before : List Action := [.send .resume, .turn, .turn, .turn, .turn, .turn, .feed [52],
      .turn, .cancelRead, .send .pause, .turn, .turn]
    let afterwards : List Action := [.send .step, .turn, .turn, .feed [50, 10], .turn]
    let later : List Action := [.closeInput]
    let actions := before ++ afterwards
    let alone := m.given (arrivals (actions ++ later))
    (before.foldl after (ofMachine m)).state = .paused .requested ∧
      (alone.stepped 2).registers.get Reg.v0 = 42 ∧
      (∀ b bytes, m.console = .buffered b → .bytes bytes ∉ arrivals (actions ++ later)) ∧
      (actions.foldl after (ofMachine m)).machine.SameResults (alone.stepped 2) := by
  intro p m before afterwards later actions alone
  have hbuffer : ∀ b bytes, m.console = .buffered b →
      .bytes bytes ∉ arrivals (actions ++ later) := nofun
  have hpaused : (before.foldl after (ofMachine m)).state = .paused .requested := by
    decide +kernel
  have hread : (alone.stepped 2).registers.get Reg.v0 = 42 := by decide +kernel
  have hcompleted : (alone.stepped 2).completed =
      (actions.foldl after (ofMachine m)).machine.completed := by decide +kernel
  exact ⟨hpaused, hread, hbuffer, ((computes_alone m actions).2 later hbuffer).2 2 hcompleted⟩

end Worker

end MipsLab
