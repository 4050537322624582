import Mathlib.Data.List.Induction
import Mathlib.Logic.Relation
import MipsLab.Proofs.Background

/-!
# Shared workers

A worker as its controllers see it. Its thread takes many small steps where a worker of the program
makes one turn, and controllers may look at what it shows, send commands, change the input or leave
in between. Commands are counted and states are shown in steps of their own.

What a worker of the program does, the threads could have done as well.

1. `SharedWorker.Step`, `SharedWorker.Reaches`: the steps of a worker and of its controllers.
2. `Worker.Shows`: what a worker of the program and a shared worker have in common.
3. `Worker.shows_after`: whatever happens to a worker of the program, the threads can bring about
   the same.
-/

namespace MipsLab

open Relation

/-! ## Commands -/

namespace Command

/-- What a command makes of a machine that is not in a run, if it executes nothing. -/
def act (m : Machine) : Command → Machine
  | stop => m.stop
  | setDelay delay => { m with flags := { m.flags with delay } }
  | _ => m

/-- The state in which a command ends a run, if it does. -/
def runEnd? : Command → Option ExecState
  | pause | shutdown => some (.paused .requested)
  | stop => some (.halted .stopped)
  | _ => none

end Command

/-! ## Steps -/

/-- What the thread of a worker is doing. -/
inductive Stage
  /-- It waits for a command. -/
  | idle
  /-- It has taken a command that found it idle. -/
  | taken (command : Command)
  /-- It executes the instruction of a step command. -/
  | stepping
  /-- It has done what a command asked for, and not counted it. -/
  | finishing (command : Command)
  /-- It has counted a resume command, and is about to start the run. -/
  | starting
  /-- It is in a run, between two instructions. -/
  | between
  /-- It has taken a command in a run. -/
  | interrupted (command : Command)
  /-- It has counted that command, and is about to do what it asks for. -/
  | obeying (command : Command)
  /-- It executes an instruction of a run. -/
  | executing
  /-- The run is over, which does not show yet. The worker may be about to end with it. -/
  | leaving (isLast : Bool)
  | ended
  deriving DecidableEq, Repr

namespace Stage

/-- Whether an instruction is being executed. -/
def isInside : Stage → Bool
  | stepping | executing => true
  | _ => false

/-- The command that has been taken and not been counted. -/
def inHand : Stage → List Command
  | taken command | finishing command | interrupted command => [command]
  | stepping => [.step]
  | _ => []

end Stage

/-- A worker with its controllers. -/
structure SharedWorker where
  machine : Machine
  status : Status
  stage : Stage := .idle
  /-- The commands that wait to be taken. -/
  queue : List Command := []
  /-- All commands that have been sent, in order. -/
  sent : List Command := []
  /-- All commands that have been taken, in order. -/
  taken : List Command := []
  isControlled : Bool := true

/-- The part of a machine that controllers can look at while it runs. -/
structure MachineView where
  registers : Registers
  pc : Address
  memory : Memory

def Machine.view (m : Machine) : MachineView :=
  { registers := m.registers, pc := m.pc, memory := m.memory }

namespace SharedWorker

/-- The worker of a machine, which waits for its first command. -/
def ofMachine (machine : Machine) : SharedWorker :=
  { machine, status := { state := machine.state } }

def pc (c : SharedWorker) : Address :=
  if c.stage.isInside then c.machine.pc + 4 else c.machine.pc

/-- What controllers see of the machine. -/
def view (c : SharedWorker) : MachineView := { c.machine.view with pc := c.pc }

/-- What can happen next. -/
inductive Step (c : SharedWorker) : SharedWorker → Prop
  -- The controllers.
  | send (command : Command) :
      Step c { c with queue := c.queue ++ [command], sent := c.sent ++ [command] }
  /-- Input arrives or ends, or a read is cancelled. -/
  | onConsole (console : Console) : Step c { c with machine := { c.machine with console } }
  /-- The last controller leaves. -/
  | detach : Step c { c with isControlled := false }
  -- A worker that is idle.
  | take {command : Command} {rest : List Command} (hstage : c.stage = .idle)
      (hqueue : c.queue = command :: rest) :
      Step c { c with stage := .taken command, queue := rest, taken := c.taken ++ [command] }
  | quit (hstage : c.stage = .idle) (hqueue : c.queue = []) (hcontrolled : c.isControlled = false) :
      Step c { c with stage := .ended }
  | act {command : Command} (hstage : c.stage = .taken command) (hresume : command ≠ .resume)
      (hstep : command ≠ .step) :
      Step c { c with machine := command.act c.machine, stage := .finishing command }
  | refuseStep (hstage : c.stage = .taken .step) (hended : c.machine.state.isTerminal = true) :
      Step c { c with stage := .finishing .step }
  | beginStep (hstage : c.stage = .taken .step) (hstate : c.machine.state.isTerminal = false) :
      Step c { c with stage := .stepping }
  | waitInStep {m : Machine} (hstage : c.stage = .stepping)
      (hwaits : c.machine.stepIn = (.waiting, m)) :
      Step c { c with machine := m }
  | endStep {result : Except Fault Unit} {m : Machine} (hstage : c.stage = .stepping)
      (hends : c.machine.stepIn = (.ended result, m)) :
      Step c { c with machine := m, stage := .finishing .step }
  /-- A command is counted, and the state of the machine is shown. -/
  | finish {command : Command} (hstage : c.stage = .finishing command) :
      Step c { c with
        status := { state := c.machine.state, handled := c.status.handled + 1 }
        stage := if command = .shutdown then .ended else .idle }
  /-- A resume command is counted, and shows as a run unless the machine has ended. -/
  | resume (hstage : c.stage = .taken .resume) :
      Step c { c with
        status :=
          { state := if c.machine.state.isTerminal then c.status.state else .running
            handled := c.status.handled + 1 }
        stage := .starting }
  -- A worker in a run.
  | refuseRun (hstage : c.stage = .starting) (hended : c.machine.state.isTerminal = true) :
      Step c { c with stage := .leaving false }
  | beginRun (hstage : c.stage = .starting) (hstate : c.machine.state.isTerminal = false) :
      Step c { c with machine := { c.machine with state := .running }, stage := .between }
  | interrupt {command : Command} {rest : List Command} (hstage : c.stage = .between)
      (hqueue : c.queue = command :: rest) :
      Step c { c with stage := .interrupted command, queue := rest, taken := c.taken ++ [command] }
  | count {command : Command} (hstage : c.stage = .interrupted command) :
      Step c { c with
        status := { c.status with handled := c.status.handled + 1 }, stage := .obeying command }
  | obey {command : Command} (hstage : c.stage = .obeying command)
      (hgoesOn : command.runEnd? = none) :
      Step c { c with machine := command.act c.machine, stage := .between }
  | endRun {command : Command} {state : ExecState} (hstage : c.stage = .obeying command)
      (hends : command.runEnd? = some state) :
      Step c { c with
        machine := c.machine.enter state, stage := .leaving (command = .shutdown) }
  /-- No controller is left to end the run. -/
  | abandon (hstage : c.stage = .between) (hqueue : c.queue = [])
      (hcontrolled : c.isControlled = false) :
      Step c { c with machine := c.machine.enter (.paused .requested), stage := .leaving true }
  | beginAttempt (hstage : c.stage = .between) (hqueue : c.queue = [])
      (hcontrolled : c.isControlled = true) :
      Step c { c with stage := .executing }
  | waitInRun {m : Machine} (hstage : c.stage = .executing)
      (hwaits : c.machine.attempt = (.waits, m)) :
      Step c { c with machine := m }
  | goOn {m : Machine} (hstage : c.stage = .executing)
      (hgoesOn : c.machine.attempt = (.goesOn, m)) :
      Step c { c with machine := m, stage := .between }
  /-- A cancelled read is tried again, unless a command prevents that. -/
  | retry {m : Machine} (hstage : c.stage = .executing)
      (hends : c.machine.attempt = (.ends (.paused .readCancelled), m)) :
      Step c { c with machine := Worker.noteCancelledRead m, stage := .between }
  | endAttempt {state : ExecState} {m : Machine} (hstage : c.stage = .executing)
      (hends : c.machine.attempt = (.ends state, m)) (hstate : state ≠ .paused .readCancelled) :
      Step c { c with machine := m.enter state, stage := .leaving false }
  /-- The end of a run is shown. -/
  | leave {isLast : Bool} (hstage : c.stage = .leaving isLast) :
      Step c { c with
        status := { c.status with state := c.machine.state }
        stage := if isLast then .ended else .idle }

abbrev Reaches : SharedWorker → SharedWorker → Prop := ReflTransGen Step

end SharedWorker

/-! ## Workers of the program -/

namespace Worker

/-- What the thread does when a worker rests. -/
def stage (w : Worker) : Stage :=
  match w.phase with
  | .idle => .idle
  | .stepping => if w.machine.state.isTerminal then .finishing .step else .stepping
  | .between => .between
  | .executing => .executing
  | .ended => .ended

/-- A shared worker is where a worker of the program is. -/
structure Shows (w : Worker) (c : SharedWorker) : Prop where
  machine : w.machine = c.machine
  status : w.status = c.status
  queue : w.queue = c.queue
  sent : w.sent = c.sent.length
  isControlled : w.isControlled = c.isControlled
  stage : w.stage = c.stage

/-- The threads can bring about what a worker of the program has come to. -/
def ShownFrom (w : Worker) (c : SharedWorker) : Prop := ∃ d, c.Reaches d ∧ w.Shows d

variable {w : Worker} {c d : SharedWorker}

theorem ShownFrom.after (h : w.ShownFrom d) (hreach : c.Reaches d) : w.ShownFrom c := by
  obtain ⟨e, hrest, hshows⟩ := h
  exact ⟨e, hreach.trans hrest, hshows⟩

theorem Shows.eq_mk (h : w.Shows c) : ∃ sent taken, w.sent = List.length sent ∧
    c = { machine := w.machine, status := w.status, stage := w.stage, queue := w.queue, sent, taken
          isControlled := w.isControlled } := by
  refine ⟨c.sent, c.taken, h.sent, ?_⟩
  rw [h.machine, h.status, h.stage, h.queue, h.isControlled]

/-! ## Turns -/

/-- A worker that is idle takes a command, or ends if no controller is left. -/
theorem Shows.idle (h : w.Shows c) (hphase : w.phase = .idle) : w.turn.ShownFrom c := by
  obtain ⟨sent', taken, hsent, rfl⟩ := h.eq_mk
  obtain ⟨machine, status, phase, queue, sent, isControlled, isBlocked⟩ := w
  obtain rfl : phase = .idle := hphase
  cases queue with
  | nil =>
    cases isControlled with
    | true => exact ⟨_, .refl, rfl, rfl, rfl, hsent, rfl, rfl⟩
    | false => exact ⟨_, .single (.quit rfl rfl rfl), rfl, rfl, rfl, hsent, rfl, rfl⟩
  | cons command rest =>
    cases command with
    | resume =>
      show ShownFrom (startRun _).count.publish _
      unfold startRun
      cases hstate : machine.state.isTerminal with
      | true =>
        exact ⟨_, .head (.take rfl rfl) <| .head (.resume rfl) <| .head (.refuseRun rfl hstate) <|
          .single (.leave rfl), rfl, rfl, rfl, hsent, rfl, rfl⟩
      | false =>
        refine ⟨_, .head (.take rfl rfl) <| .head (.resume rfl) <| .single (.beginRun rfl hstate),
          rfl, ?_, rfl, hsent, rfl, rfl⟩
        simp only [hstate]
        rfl
    | step =>
      cases hstate : machine.state.isTerminal with
      | true =>
        exact ⟨_, .head (.take rfl rfl) <| .single (.refuseStep rfl hstate), rfl, rfl, rfl, hsent,
          rfl, if_pos hstate⟩
      | false =>
        have hnot : ¬ machine.state.isTerminal = true := by rw [hstate]; nofun
        exact ⟨_, .head (.take rfl rfl) <| .single (.beginStep rfl hstate), rfl, rfl, rfl, hsent,
          rfl, if_neg hnot⟩
    | pause | stop | setDelay | shutdown =>
      exact ⟨_, .head (.take rfl rfl) <| .head (.act rfl nofun nofun) <| .single (.finish rfl), rfl,
        rfl, rfl, hsent, rfl, rfl⟩

/-- A worker between two instructions takes a command, or executes the next instruction if there is
none. -/
theorem Shows.between (h : w.Shows c) (hphase : w.phase = .between) : w.turn.ShownFrom c := by
  obtain ⟨sent', taken, hsent, rfl⟩ := h.eq_mk
  obtain ⟨machine, status, phase, queue, sent, isControlled, isBlocked⟩ := w
  obtain rfl : phase = .between := hphase
  cases queue with
  | nil =>
    cases isControlled with
    | true => exact ⟨_, .single (.beginAttempt rfl rfl rfl), rfl, rfl, rfl, hsent, rfl, rfl⟩
    | false =>
      exact ⟨_, .head (.abandon rfl rfl rfl) <| .single (.leave rfl), rfl, rfl, rfl, hsent, rfl,
        rfl⟩
  | cons command rest =>
    cases command with
    | resume | step | setDelay =>
      exact ⟨_, .head (.interrupt rfl rfl) <| .head (.count rfl) <| .single (.obey rfl rfl), rfl,
        rfl, rfl, hsent, rfl, rfl⟩
    | pause | stop | shutdown =>
      exact ⟨_, .head (.interrupt rfl rfl) <| .head (.count rfl) <| .head (.endRun rfl rfl) <|
        .single (.leave rfl), rfl, rfl, rfl, hsent, rfl, rfl⟩

theorem Shows.stepping (h : w.Shows c) (hphase : w.phase = .stepping) : w.turn.ShownFrom c := by
  obtain ⟨sent', taken, hsent, rfl⟩ := h.eq_mk
  obtain ⟨machine, status, phase, queue, sent, isControlled, isBlocked⟩ := w
  obtain rfl : phase = .stepping := hphase
  unfold turn
  cases hstate : machine.state.isTerminal with
  | true =>
    have hstepIn : machine.stepIn = (.ended machine.state.result, machine) := by
      unfold Machine.stepIn
      rw [if_pos hstate]
    simp only [hstepIn]
    exact ⟨_, .single (.finish (if_pos hstate)), rfl, rfl, rfl, hsent, rfl, rfl⟩
  | false =>
    have hstage : (if machine.state.isTerminal then Stage.finishing .step else .stepping) =
        .stepping := if_neg (by rw [hstate]; nofun)
    obtain ⟨ended, a, hstep⟩ : ∃ ended a, machine.step = (ended, a) := ⟨_, _, rfl⟩
    cases ended with
    | waiting =>
      have hstepIn := Machine.stepIn_waiting hstate hstep
      have hkept : a.state = machine.state := by
        have hturn := machine.step_turn
        rw [hstep] at hturn
        exact hturn.state
      simp only [hstepIn]
      refine ⟨_, .single (.waitInStep hstage hstepIn), rfl, rfl, rfl, hsent, rfl, ?_⟩
      show (if a.state.isTerminal then Stage.finishing .step else .stepping) = _
      rw [hkept]
      rfl
    | ran =>
      have hstepIn := Machine.stepIn_ran hstate hstep
      simp only [hstepIn]
      exact ⟨_, .head (.endStep hstage hstepIn) <| .single (.finish rfl), rfl, rfl, rfl, hsent, rfl,
        rfl⟩
    | stopped stop =>
      have hstepIn := Machine.stepIn_stopped hstate hstep
      simp only [hstepIn]
      exact ⟨_, .head (.endStep hstage hstepIn) <| .single (.finish rfl), rfl, rfl, rfl, hsent, rfl,
        rfl⟩

theorem Shows.executing (h : w.Shows c) (hphase : w.phase = .executing) : w.turn.ShownFrom c := by
  obtain ⟨sent', taken, hsent, rfl⟩ := h.eq_mk
  obtain ⟨machine, status, phase, queue, sent, isControlled, isBlocked⟩ := w
  obtain rfl : phase = .executing := hphase
  unfold turn
  obtain ⟨attempt, a, hattempt⟩ : ∃ attempt a, machine.attempt = (attempt, a) := ⟨_, _, rfl⟩
  cases attempt with
  | goesOn =>
    simp only [hattempt]
    exact ⟨_, .single (.goOn rfl hattempt), rfl, rfl, rfl, hsent, rfl, rfl⟩
  | waits =>
    simp only [hattempt]
    exact ⟨_, .single (.waitInRun rfl hattempt), rfl, rfl, rfl, hsent, rfl, rfl⟩
  | ends state =>
    by_cases hstate : state = .paused .readCancelled
    · subst hstate
      simp only [hattempt]
      exact ⟨_, .single (.retry rfl hattempt), rfl, rfl, rfl, hsent, rfl, rfl⟩
    · simp only [hattempt]
      exact ⟨_, .head (.endAttempt rfl hattempt hstate) <| .single (.leave rfl), rfl, rfl, rfl,
        hsent, rfl, rfl⟩

/-! ## Everything that can happen -/

theorem Shows.turn (h : w.Shows c) : w.turn.ShownFrom c := by
  cases hphase : w.phase with
  | idle => exact h.idle hphase
  | stepping => exact h.stepping hphase
  | between => exact h.between hphase
  | executing => exact h.executing hphase
  | ended =>
    obtain ⟨machine, status, phase, queue, sent, isControlled, isBlocked⟩ := w
    obtain rfl : phase = .ended := hphase
    exact ⟨c, .refl, h.machine, h.status, h.queue, h.sent, h.isControlled, h.stage⟩

theorem Shows.onConsole (h : w.Shows c) (change : Console → Console) :
    (w.onConsole change).ShownFrom c := by
  refine ⟨_, .single (.onConsole (change w.machine.console)), ?_, h.status, h.queue, h.sent,
    h.isControlled, h.stage⟩
  rw [← h.machine]
  rfl

theorem Shows.after (h : w.Shows c) (action : Action) : (w.after action).ShownFrom c := by
  cases action with
  | turn => exact h.turn
  | send command =>
    refine ⟨_, .single (.send command), h.machine, h.status, ?_, ?_, h.isControlled, h.stage⟩
    · exact congrArg (· ++ [command]) h.queue
    · show w.sent + 1 = _
      rw [h.sent, List.length_append]
      rfl
  | cancelRead => exact h.onConsole _
  | feed bytes => exact h.onConsole (Console.push · bytes)
  | closeInput => exact h.onConsole _
  | detach =>
    exact ⟨_, .single .detach, h.machine, h.status, h.queue, h.sent, rfl, h.stage⟩

/-- Whatever happens to a worker of the program, the threads can bring about the same. -/
theorem shows_after (machine : Machine) (actions : List Action) :
    (actions.foldl after (ofMachine machine)).ShownFrom (SharedWorker.ofMachine machine) := by
  induction actions using List.reverseRecOn with
  | nil => exact ⟨_, .refl, rfl, rfl, rfl, rfl, rfl, rfl⟩
  | append_singleton actions action ih =>
    obtain ⟨c, hreach, hshows⟩ := ih
    rw [List.foldl_append]
    exact (hshows.after action).after hreach

end Worker

end MipsLab
