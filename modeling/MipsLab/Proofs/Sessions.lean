import MipsLab.CommandLine
import MipsLab.Proofs.Retracing

/-!
# The course of a session

A session steps through its program itself or leaves it to a worker, and its input arrives
meanwhile. In either case it goes the way of the program's machine with all input in advance, and
tells the user about each step what its options ask for.

1. `Session.moved`: a session, with turns and arrivals in any order; `Session.advance_moved`: the
   turns that are made at once are such moves.
2. `account`: what the user is told about the first steps of a program.
3. `Session.At`: how far a session has come, and `Session.Concluded`: how it ends.
4. `Session.At.turn`: what a turn does.
5. `Session.At.moved`: what any moves do; `Session.At.ended`: a session that steps through its
   program itself ends, if its turns do not wait and its program or its limit does.
-/

namespace MipsLab.CommandLine

/-! ## Moves -/

/-- What can happen to a session. -/
inductive Session.Move
  | turn
  /-- Input arrives or ends. -/
  | arrive (arrival : Arrival)
  deriving DecidableEq, Repr

namespace Session

def Move.arrival? : Move → Option Arrival
  | turn => none
  | arrive arrival => some arrival

/-- What arrives in the course of some moves. -/
def arrivals (moves : List Move) : Input := moves.filterMap Move.arrival?

/-- How many of some moves are turns. -/
def turns (moves : List Move) : Nat := moves.countP (· = .turn)

/-- What arrives in the course of some moves is an input, or the start of it. -/
def Delivers (stdin : List UInt8) (moves : List Move) : Prop :=
  ∃ later, Input.bytes (arrivals moves ++ later) = stdin ∧
    Input.ends (arrivals moves ++ later) = true

/-- All of an input arrives in the course of some moves. -/
def DeliversAll (stdin : List UInt8) (moves : List Move) : Prop :=
  Input.bytes (arrivals moves) = stdin ∧ Input.ends (arrivals moves) = true

theorem arrivals_turns (n : Nat) : arrivals (List.replicate n .turn) = [] :=
  List.filterMap_eq_nil_iff.mpr fun move hmove => by rw [List.eq_of_mem_replicate hmove]; rfl

def arrive (s : Session) (arrival : Arrival) : Session := s.onConsole (·.arrive arrival)

/-- A session after some moves, or at its end if it ends before. -/
def moved (s : Session) : List Move → Activity × Session
  | [] => (.busy, s)
  | .arrive arrival :: moves => (s.arrive arrival).moved moves
  | .turn :: moves =>
    match s.turn with
    | (.ended code, s) => (.ended code, s)
    | (_, s) => s.moved moves

/-- Whether a session waits for input in one of the turns. -/
def waits (s : Session) : List Move → Bool
  | [] => false
  | .arrive arrival :: moves => (s.arrive arrival).waits moves
  | .turn :: moves =>
    match s.turn with
    | (.busy, s) => s.waits moves
    | (.waiting, _) => true
    | (.ended _, _) => false

theorem DeliversAll.delivers {stdin : List UInt8} {moves : List Move}
    (h : DeliversAll stdin moves) : Delivers stdin moves :=
  ⟨[], by rw [List.append_nil]; exact h⟩

theorem DeliversAll.append_turns {stdin : List UInt8} {moves : List Move}
    (h : DeliversAll stdin moves) (n : Nat) :
    DeliversAll stdin (moves ++ List.replicate n .turn) := by
  have harrivals : arrivals (moves ++ List.replicate n .turn) = arrivals moves := by
    rw [arrivals, List.filterMap_append]
    exact (congrArg (arrivals moves ++ ·) (arrivals_turns n)).trans (List.append_nil _)
  unfold DeliversAll
  rw [harrivals]
  exact h

section Moves

variable {s s' : Session} {code : UInt8} {moves more : List Move}

theorem moved_turn_ended (h : s.turn = (.ended code, s')) (moves : List Move) :
    s.moved (.turn :: moves) = (.ended code, s') := by
  rw [moved, h]

theorem moved_turn {activity : Activity} (h : s.turn = (activity, s'))
    (hactivity : ∀ code, activity ≠ .ended code) (moves : List Move) :
    s.moved (.turn :: moves) = s'.moved moves := by
  rw [moved, h]
  cases activity with
  | busy | waiting => rfl
  | ended code => exact absurd rfl (hactivity code)

/-- The end of a session is its end whatever is to follow. -/
theorem moved_append_ended (h : s.moved moves = (.ended code, s')) (more : List Move) :
    s.moved (moves ++ more) = (.ended code, s') := by
  induction moves generalizing s with
  | nil => exact nomatch h
  | cons move moves ih =>
    cases move with
    | arrive arrival => exact ih h
    | turn =>
      obtain ⟨activity, after, hturn⟩ : ∃ activity after, s.turn = (activity, after) := ⟨_, _, rfl⟩
      cases activity with
      | ended code' =>
        rw [moved_turn_ended hturn] at h
        rw [List.cons_append, moved_turn_ended hturn, h]
      | busy | waiting =>
        rw [moved_turn hturn nofun] at h
        rw [List.cons_append, moved_turn hturn nofun]
        exact ih h

theorem moved_append (h : s.moved moves = (.busy, s')) (more : List Move) :
    s.moved (moves ++ more) = s'.moved more := by
  induction moves generalizing s with
  | nil =>
    cases h
    rfl
  | cons move moves ih =>
    cases move with
    | arrive arrival => exact ih h
    | turn =>
      obtain ⟨activity, after, hturn⟩ : ∃ activity after, s.turn = (activity, after) := ⟨_, _, rfl⟩
      cases activity with
      | ended code =>
        rw [moved_turn_ended hturn] at h
        exact nomatch h
      | busy | waiting =>
        rw [moved_turn hturn nofun] at h
        rw [List.cons_append, moved_turn hturn nofun]
        exact ih h

/-- Turns until a session waits or ends are such moves. -/
theorem advance_moved (fuel : Nat) (s : Session) :
    ∃ n, n ≤ fuel ∧ (s.moved (List.replicate n .turn)).2 = (s.advance fuel).2 ∧
      ∀ code, (s.moved (List.replicate n .turn)).1 = .ended code ↔
        (s.advance fuel).1 = .ended code := by
  induction fuel generalizing s with
  | zero => exact ⟨0, Nat.le_refl 0, rfl, fun _ => Iff.rfl⟩
  | succ fuel ih =>
    obtain ⟨activity, after, hturn⟩ : ∃ activity after, s.turn = (activity, after) := ⟨_, _, rfl⟩
    rw [advance, hturn]
    cases activity with
    | busy =>
      obtain ⟨n, hn, hsession, hended⟩ := ih after
      refine ⟨n + 1, Nat.succ_le_succ hn, ?_⟩
      rw [List.replicate_succ, moved_turn hturn nofun]
      exact ⟨hsession, hended⟩
    | waiting =>
      refine ⟨1, Nat.le_add_left 1 fuel, ?_⟩
      rw [List.replicate_succ, moved_turn hturn nofun]
      exact ⟨rfl, fun code => ⟨nofun, nofun⟩⟩
    | ended code =>
      refine ⟨1, Nat.le_add_left 1 fuel, ?_⟩
      rw [List.replicate_succ, moved_turn_ended hturn]
      exact ⟨rfl, fun code => Iff.rfl⟩

end Moves

end Session

/-! ## What is told -/

/-- What is told when an instruction has left the machine as it is, in a session with a trace or
without. -/
def report (traced : Bool) (p : Program) (m : Machine) : List String :=
  match m.state with
  | .paused .breakInstruction => pauseLines p .breakInstruction m.pc m.registers
  | .paused .step =>
    if !traced && m.atBreakpoint then pauseLines p .breakpoint m.pc m.registers else []
  | _ => []

/-- What is told about the instruction that a machine attempts. -/
def announcement (traced : Bool) (p : Program) (m : Machine) : List String :=
  if traced then [traceLine p m.pc] else []

/-- What is told about the first `k` steps of a machine. -/
def account (traced : Bool) (p : Program) (r : Machine) (k : Nat) : List String :=
  (List.range k).flatMap fun i =>
    announcement traced p (r.stepped i) ++ report traced p (r.stepped (i + 1))

theorem account_succ (traced : Bool) (p : Program) (r : Machine) (k : Nat) :
    account traced p r (k + 1) =
      account traced p r k ++
        (announcement traced p (r.stepped k) ++ report traced p (r.stepped (k + 1))) := by
  rw [account, List.range_succ, List.flatMap_append, List.flatMap_singleton]
  rfl

theorem report_ended (traced : Bool) (p : Program) {m : Machine}
    (h : m.state.isTerminal = true) : report traced p m = [] := by
  unfold report
  cases hstate : m.state with
  | halted | faulted | loaded | running => rfl
  | paused =>
    rw [hstate] at h
    exact nomatch h

/-- What is told about a pause for some reason. -/
def pauseNotes (p : Program) (m : Machine) : PauseReason → List String
  | .step | .tripwire => []
  | reason => pauseLines p reason m.pc m.registers

/-! ## Attempts -/

section Attempts

variable {p : Program} {input : Input} {a r : Machine} {k : Nat}

/-- What an attempt in a run comes to, and what there is to tell about it. -/
inductive Attempted (p : Program) (input : Input) (r : Machine) (k : Nat) :
    Attempt × Machine → Prop
  | waits {a' : Machine} (h : a'.Retraces input r k) (hopen : a'.console.IsCalm true) :
      Attempted p input r k (.waits, a')
  | goesOn {a' : Machine} (h : a'.Retraces input r (k + 1))
      (hreport : report false p (r.stepped (k + 1)) = []) : Attempted p input r k (.goesOn, a')
  | pauses {a' : Machine} {reason : PauseReason} (h : a'.Retraces input r (k + 1))
      (hreason : reason = .breakpoint ∨ reason = .breakInstruction)
      (hreport : report false p (r.stepped (k + 1)) = pauseLines p reason a'.pc a'.registers) :
      Attempted p input r k (.ends (.paused reason), a')
  | ends {a' : Machine} {state : ExecState} (hterminal : state.isTerminal = true)
      (hstate : (r.stepped (k + 1)).state = state) (hsame : a'.SameResults (r.stepped (k + 1))) :
      Attempted p input r k (.ends state, a')

theorem attempted (hr : r.Provided) (h : a.Retraces input r k) (p : Program) :
    Attempted p input r k a.attempt := by
  obtain ⟨ended, a', hstep⟩ : ∃ ended a', a.step = (ended, a') := ⟨_, _, rfl⟩
  have houtcome := h.step hr hstep
  cases houtcome with
  | waits h hopen =>
    rw [Machine.attempt_waiting hstep]
    exact .waits h hopen
  | ran h hstate =>
    rw [Machine.attempt_ran hstep, h.atBreakpoint]
    cases hbreak : (r.stepped (k + 1)).atBreakpoint with
    | false => exact .goesOn h (by rw [report, hstate, hbreak]; rfl)
    | true =>
      refine .pauses h (.inl rfl) ?_
      rw [report, hstate, hbreak, h.foresees.pc, h.foresees.registers]
      rfl
  | pauses h hstate =>
    rw [Machine.attempt_stopped hstep]
    refine .pauses h (.inr rfl) ?_
    rw [report, hstate, h.foresees.pc, h.foresees.registers]
  | ends hterminal hstate hsame =>
    rw [Machine.attempt_stopped hstep]
    exact .ends hterminal hstate hsame

/-- What a session that steps through the program itself finds after an attempt, and what there is
to tell about it. -/
inductive Proceeds (traced : Bool) (p : Program) (input : Input) (r : Machine) (k : Nat) :
    Progress × Machine → Prop
  | waits {a' : Machine} (h : a'.Retraces input r k) (hopen : a'.console.IsCalm true)
      (hgoing : a'.state.isTerminal = false) : Proceeds traced p input r k (.waiting, a')
  | goesOn {a' : Machine} (h : a'.Retraces input r (k + 1)) (hgoing : a'.state.isTerminal = false)
      (htraced : traced = false) (hreport : report traced p (r.stepped (k + 1)) = []) :
      Proceeds traced p input r k (.unfinished, a')
  | pauses {result : Except Fault Unit} {a' : Machine} {reason : PauseReason}
      (h : a'.Retraces input r (k + 1)) (hstate : a'.state = .paused reason)
      (hreport : report traced p (r.stepped (k + 1)) = pauseNotes p a' reason) :
      Proceeds traced p input r k (.ended result, a')
  | ends {result : Except Fault Unit} {a' : Machine} (hterminal : a'.state.isTerminal = true)
      (hstate : (r.stepped (k + 1)).state = a'.state)
      (hsame : a'.SameResults (r.stepped (k + 1))) :
      Proceeds traced p input r k (.ended result, a')

theorem state_of_step {ended : StepEnd} {a' : Machine} (h : a.step = (ended, a')) :
    a'.state = a.state := by
  have hturn := a.step_turn
  rw [h] at hturn
  exact hturn.state

theorem proceeds_stepIn (hr : r.Provided) (h : a.Retraces input r k)
    (hgoing : a.state.isTerminal = false) (p : Program) :
    Proceeds true p input r k a.stepIn := by
  obtain ⟨ended, a', hstep⟩ : ∃ ended a', a.step = (ended, a') := ⟨_, _, rfl⟩
  have houtcome := h.step hr hstep
  cases houtcome with
  | waits h hopen =>
    rw [Machine.stepIn_waiting hgoing hstep]
    exact .waits h hopen (by rw [state_of_step hstep, hgoing])
  | ran h hstate =>
    rw [Machine.stepIn_ran hgoing hstep]
    exact .pauses h.restate (rfl : _ = ExecState.paused .step) (by rw [report, hstate]; rfl)
  | pauses h hstate =>
    rw [Machine.stepIn_stopped hgoing hstep]
    refine .pauses h.restate (rfl : _ = ExecState.paused .breakInstruction) ?_
    rw [report, hstate, h.foresees.pc, h.foresees.registers]
    rfl
  | ends hterminal hstate hsame =>
    rw [Machine.stepIn_stopped hgoing hstep]
    exact .ends hterminal hstate hsame.restate

theorem attempt_state (a : Machine) : a.attempt.2.state = a.state := by
  obtain ⟨ended, a', hstep⟩ : ∃ ended a', a.step = (ended, a') := ⟨_, _, rfl⟩
  rw [← state_of_step hstep]
  cases ended with
  | ran => rw [Machine.attempt_ran hstep]
  | stopped stop => rw [Machine.attempt_stopped hstep]
  | waiting => rw [Machine.attempt_waiting hstep]

theorem proceeds_runLimited (hr : r.Provided) (h : a.Retraces input r k)
    (hgoing : a.state.isTerminal = false) (p : Program) {limit : Nat} (hlimit : limit ≠ 0) :
    Proceeds false p input r k (a.runLimited limit 1) := by
  have hreached : Goal.reached? (.count a.completed limit) false { a with state := .running } =
      none := by
    rw [Goal.reached?, if_pos (by simpa using Nat.pos_of_ne_zero hlimit)]
  have hrunning : Machine.Retraces input { a with state := .running } r k := h.restate
  have hattempted := attempted hr hrunning p
  have hstate := attempt_state { a with state := .running }
  rw [Machine.runLimited, Machine.runTo, if_neg (by simp [hgoing]), Machine.runFrom, hreached]
  generalize Machine.attempt { a with state := .running } = attempt at hattempted hstate ⊢
  cases hattempted with
  | waits h hopen => exact .waits h hopen (by rw [hstate]; rfl)
  | goesOn h hreport => exact .goesOn h (congrArg ExecState.isTerminal hstate) rfl hreport
  | @pauses a' reason h hreason hreport =>
    refine .pauses h.restate (rfl : _ = ExecState.paused reason) ?_
    rw [hreport]
    obtain rfl | rfl := hreason <;> rfl
  | ends hterminal hends hsame => exact .ends hterminal hends hsame.restate

end Attempts

/-! ## How far a session has come -/

/-- A worker in a phase, with some commands to look at, which has counted all others. -/
structure Stands (w : Worker) (now : Phase) (commands : List Command) : Prop where
  phase : w.phase = now
  queue : w.queue = commands
  sent : w.sent = w.status.handled + commands.length
  isControlled : w.isControlled = true

def Execution.isDirect : Execution → Bool
  | .direct _ => true
  | .background _ => false

/-- The execution of a session has gone the way of the first `k` steps of a machine, and the lines
`owed` have still to be told about the last one. -/
inductive Follows (p : Program) (input : Input) (r : Machine) :
    Nat → List String → Execution → Prop
  | direct {k : Nat} {m : Machine} (h : m.Retraces input r k)
      (hgoing : m.state.isTerminal = false) : Follows p input r k [] (.direct m)
  /-- The worker has been told to go on. -/
  | ready {k : Nat} {w : Worker} (hw : Stands w .idle [.resume])
      (h : w.machine.Retraces input r k) (hgoing : w.machine.state.isTerminal = false) :
      Follows p input r k [] (.background w)
  /-- The worker is in a run. -/
  | running {k : Nat} {w : Worker} {phase : Phase} (hrun : phase.isRun = true)
      (hw : Stands w phase []) (hshown : w.state = .running) (h : w.machine.Retraces input r k)
      (hgoing : w.machine.state.isTerminal = false) : Follows p input r k [] (.background w)
  | paused {k : Nat} {w : Worker} {reason : PauseReason} (hw : Stands w .idle [])
      (hshown : w.state = .paused reason) (h : w.machine.Retraces input r k)
      (hgoing : w.machine.state.isTerminal = false)
      (hreason : reason = .breakpoint ∨ reason = .breakInstruction) :
      Follows p input r k (pauseLines p reason w.machine.pc w.machine.registers) (.background w)
  | done {k : Nat} {w : Worker} (hw : Stands w .idle [])
      (hgoing : (r.stepped k).state.isTerminal = false)
      (hterminal : (r.stepped (k + 1)).state.isTerminal = true)
      (hshown : w.state = (r.stepped (k + 1)).state)
      (hsame : w.machine.SameResults (r.stepped (k + 1))) :
      Follows p input r (k + 1) [] (.background w)

namespace Session

/-- How far a session has come: it has gone the way of the first `k` steps of a machine, and told
about them all but the lines `owed`. -/
structure At (o : RunOptions) (p : Program) (input : Input) (r : Machine) (k : Nat)
    (owed : List String) (s : Session) : Prop where
  options : s.options = o
  program : s.program = p
  direct : s.execution.isDirect = isDirect o
  follows : Follows p input r k owed s.execution
  notes : s.notes.toList ++ owed = account o.isTraced p r k
  limit : ∀ n, o.maxSteps = some n → k ≤ n

/-- How a session ends: with the step that ends its program, or when its instructions are used
up. -/
inductive Concluded (o : RunOptions) (p : Program) (r : Machine) (s : Session) : UInt8 → Prop
  | finished {k : Nat} (hgoing : (r.stepped k).state.isTerminal = false)
      (hterminal : (r.stepped (k + 1)).state.isTerminal = true)
      (hlimit : ∀ n, o.maxSteps = some n → k < n)
      (hsame : s.machine.SameResults (r.stepped (k + 1)))
      (hnotes : s.notes.toList = account o.isTraced p r (k + 1) ++
        closingLines p o (r.stepped (k + 1)).state) :
      Concluded o p r s (exitCode (r.stepped (k + 1)).state)
  | limited {n : Nat} (hlimit : o.maxSteps = some n)
      (hgoing : (r.stepped n).state.isTerminal = false)
      (hsame : s.machine.SameResults (r.stepped n))
      (hnotes : s.notes.toList = account o.isTraced p r n ++
        closingLines p o (.paused .tripwire)) : Concluded o p r s limitCode

/-- What a turn does. It takes the session one step further, or ends it; where the session steps
through the program itself, any other turn waits for input. -/
inductive Next (o : RunOptions) (p : Program) (input : Input) (r : Machine) (k : Nat)
    (owed : List String) : Activity × Session → Prop
  | stays {activity : Activity} {s' : Session} {owed' : List String}
      (h : s'.At o p input r k owed') (hended : ∀ code, activity ≠ .ended code)
      (hwaits : isDirect o = true → activity = .waiting ∧ s'.machine.console.IsCalm true) :
      Next o p input r k owed (activity, s')
  | goesOn {s' : Session} {owed' : List String} (howed : owed = [])
      (h : s'.At o p input r (k + 1) owed') : Next o p input r k owed (.busy, s')
  | ends {code : UInt8} {s' : Session} (h : s'.Concluded o p r code) :
      Next o p input r k owed (.ended code, s')

variable {o : RunOptions} {p : Program} {input : Input} {r m : Machine} {k : Nat}
  {owed : List String} {s : Session} {notes : Array String}

theorem say_notes (s : Session) (lines : List String) :
    (s.say lines).notes.toList = s.notes.toList ++ lines := Array.toList_appendList

theorem settle_paused (s : Session) (m : Machine) (reason : PauseReason) :
    s.settle (.paused reason) m.pc m.registers =
      (.busy, s.say (pauseNotes s.program m reason)) := by
  have hsilent : s.say [] = s := by
    obtain ⟨options, program, execution, notes⟩ := s
    simp [say]
  cases reason with
  | step | tripwire => exact congrArg (Activity.busy, ·) hsilent.symm
  | breakpoint | breakInstruction | requested | readCancelled => rfl

theorem settle_ended (s : Session) {state : ExecState} (h : state.isTerminal = true)
    (pc : Address) (regs : Registers) : s.settle state pc regs = s.finish state := by
  cases state with
  | halted | faulted => rfl
  | loaded | running | paused => exact nomatch h

theorem settle_machine (s : Session) (state : ExecState) (pc : Address) (regs : Registers) :
    (s.settle state pc regs).2.machine = s.machine := by
  unfold settle
  split <;> rfl

/-! ## Turns of a session that steps through its program itself -/

theorem At.of_direct (hdirect : isDirect o = true) (h : m.Retraces input r k)
    (hgoing : m.state.isTerminal = false) (hnotes : notes.toList = account o.isTraced p r k)
    (hlimit : ∀ n, o.maxSteps = some n → k ≤ n) :
    At o p input r k [] { options := o, program := p, notes, execution := .direct m } :=
  ⟨rfl, rfl, hdirect.symm, .direct h hgoing, (List.append_nil _).trans hnotes, hlimit⟩

theorem turnDirect_limited {o : RunOptions} {notes : Array String}
    (hr : r.Provided) (h : m.Retraces input r k) (hlimit : ∀ n, o.maxSteps = some n → k ≤ n)
    (hnotes : notes.toList = account o.isTraced p r k) (hremaining : remaining o m = some 0) :
    Next o p input r k [] (turnDirect o p notes m) := by
  obtain ⟨n, hn, hzero⟩ := Option.map_eq_some_iff.mp hremaining
  rw [h.completed hr] at hzero
  obtain rfl : k = n := Nat.le_antisymm (hlimit n hn) (Nat.le_of_sub_eq_zero hzero)
  rw [turnDirect, if_pos hremaining]
  refine .ends (.limited hn h.going h.foresees.sameResults ?_)
  rw [say_notes, hnotes]

theorem proceed_proceeds (hr : r.Provided) (h : m.Retraces input r k)
    (hgoing : m.state.isTerminal = false) (hdirect : isDirect o = true)
    (hremaining : remaining o m ≠ some 0) (p : Program) :
    Proceeds o.isTraced p input r k (proceed o m) := by
  unfold proceed
  cases htraced : o.isTraced with
  | true => exact proceeds_stepIn hr h hgoing p
  | false =>
    rw [if_neg nofun]
    cases hlimit : remaining o m with
    | some limit =>
      exact proceeds_runLimited hr h hgoing p fun hzero => hremaining (hzero ▸ hlimit)
    | none =>
      -- A session without a trace and a limit leaves its program to a worker.
      rw [isDirect, htraced, Option.map_eq_none_iff.mp hlimit] at hdirect
      exact nomatch hdirect

theorem turnDirect_next (hr : r.Provided) (h : m.Retraces input r k)
    (hgoing : m.state.isTerminal = false) (hdirect : isDirect o = true)
    (hlimit : ∀ n, o.maxSteps = some n → k ≤ n)
    (hnotes : notes.toList = account o.isTraced p r k) :
    Next o p input r k [] (turnDirect o p notes m) := by
  by_cases hremaining : remaining o m = some 0
  · exact turnDirect_limited hr h hlimit hnotes hremaining
  · have hbelow : ∀ n, o.maxSteps = some n → k < n := by
      intro n hn
      refine Nat.lt_of_le_of_ne (hlimit n hn) fun heq => hremaining ?_
      rw [remaining, hn, h.completed hr, heq, Option.map_some, Nat.sub_self]
    have hproceeds := proceed_proceeds hr h hgoing hdirect hremaining p
    rw [turnDirect, if_neg hremaining]
    generalize proceed o m = proceeded at hproceeds
    have hannounced : announcement o.isTraced p (r.stepped k) =
        if o.isTraced then [traceLine p m.pc] else [] := by
      rw [announcement, h.foresees.pc]
    rw [← hannounced]
    cases hproceeds with
    | waits h hopen hgoing =>
      exact .stays (.of_direct hdirect h hgoing hnotes hlimit) nofun fun _ => ⟨rfl, hopen⟩
    | goesOn h hgoing htraced hreport =>
      refine .goesOn rfl (.of_direct hdirect h hgoing ?_ hbelow)
      rw [account_succ, hreport, announcement, htraced]
      simpa [htraced] using hnotes
    | @pauses result a' reason h hstate hreport =>
      simp only [hstate, settle_paused]
      refine .goesOn rfl (.of_direct hdirect h ?_ ?_ hbelow)
      · rw [hstate]
        rfl
      · rw [Array.toList_appendList, Array.toList_appendList, account_succ, hreport, hnotes,
          List.append_assoc]
    | @ends result a' hterminal hstate hsame =>
      rw [← hstate] at hterminal
      simp only [← hstate]
      rw [settle_ended _ hterminal]
      refine .ends (.finished h.going hterminal hbelow hsame ?_)
      rw [say_notes, Array.toList_appendList, account_succ, report_ended _ _ hterminal, hnotes,
        List.append_nil]

/-! ## Turns of a session with a worker -/

section Workers

variable {w : Worker} {a : Machine}

theorem turn_ready (hw : Stands w .idle [.resume]) (hgoing : w.machine.state.isTerminal = false) :
    w.turn =
      { w with
        machine := { w.machine with state := .running }
        status := { state := .running, handled := w.status.handled + 1 }
        phase := .between
        queue := []
        isBlocked := false } := by
  obtain ⟨machine, status, phase, queue, sent, isControlled, isBlocked⟩ := w
  obtain ⟨rfl, rfl, -, rfl⟩ := hw
  unfold Worker.turn Worker.handle Worker.startRun
  simp only [if_neg (ne_true_of_eq_false hgoing)]
  rfl

theorem turn_between (hw : Stands w .between []) :
    w.turn = { w with phase := .executing, isBlocked := false } := by
  obtain ⟨machine, status, phase, queue, sent, isControlled, isBlocked⟩ := w
  obtain ⟨rfl, rfl, -, rfl⟩ := hw
  rfl

theorem turn_goesOn (hw : Stands w .executing []) (h : w.machine.attempt = (.goesOn, a)) :
    w.turn = { w with machine := a, phase := .between, isBlocked := false } := by
  obtain ⟨machine, status, phase, queue, sent, isControlled, isBlocked⟩ := w
  obtain ⟨rfl, rfl, -, rfl⟩ := hw
  unfold Worker.turn
  simp only [h]

theorem turn_waits (hw : Stands w .executing []) (h : w.machine.attempt = (.waits, a)) :
    w.turn = { w with machine := a, isBlocked := true } := by
  obtain ⟨machine, status, phase, queue, sent, isControlled, isBlocked⟩ := w
  obtain ⟨rfl, rfl, -, rfl⟩ := hw
  unfold Worker.turn
  simp only [h]

theorem turn_ends {state : ExecState} (hw : Stands w .executing [])
    (h : w.machine.attempt = (.ends state, a)) (hstate : state ≠ .paused .readCancelled) :
    w.turn =
      { w with
        machine := a.enter state
        status := { w.status with state }
        phase := .idle
        isBlocked := false } := by
  obtain ⟨machine, status, phase, queue, sent, isControlled, isBlocked⟩ := w
  obtain ⟨rfl, rfl, -, rfl⟩ := hw
  unfold Worker.turn
  simp only [h]
  rfl

theorem hasSettled_ready (hw : Stands w .idle [.resume]) : hasSettled w = false := by
  unfold hasSettled
  rw [hw.sent]
  simp

theorem hasSettled_running (hshown : w.state = .running) : hasSettled w = false := by
  unfold hasSettled
  rw [hshown]
  simp

theorem hasSettled_idle (hw : Stands w .idle []) (hshown : w.state ≠ .running) :
    hasSettled w = true := by
  unfold hasSettled
  rw [hw.sent]
  simp [hshown]

theorem pc_idle {commands : List Command} (hw : Stands w .idle commands) : w.pc = w.machine.pc := by
  unfold Worker.pc Worker.isInside
  rw [hw.phase]
  rfl

/-- The session leaves the worker to itself. -/
theorem turnBackground_leave (h : hasSettled w = false) (o : RunOptions) (p : Program)
    (notes : Array String) :
    ∃ activity w', turnBackground o p notes w =
        (activity, { options := o, program := p, notes, execution := .background w' }) ∧
      (activity = .waiting ∧ w' = w ∧ w.isResting = true ∨
        activity = .busy ∧ w' = w.turn ∧ w.isResting = false) := by
  unfold turnBackground
  rw [if_neg (ne_true_of_eq_false h)]
  cases hresting : w.isResting with
  | true => exact ⟨.waiting, w, rfl, .inl ⟨rfl, rfl, rfl⟩⟩
  | false => exact ⟨.busy, w.turn, rfl, .inr ⟨rfl, rfl, rfl⟩⟩

/-- Where the worker has settled, a turn does not get the program any further. -/
theorem turnBackground_settled (h : hasSettled w = true) :
    (turnBackground o p notes w).2.machine.completed = w.machine.completed := by
  unfold turnBackground
  rw [if_pos h]
  simp only [settle_machine]
  cases hterminal : w.state.isTerminal <;> rfl

end Workers

/-- A session leaves its program to a worker if it neither traces nor limits it. -/
theorem isDirect_eq_false_iff : isDirect o = false ↔ o.isTraced = false ∧ o.maxSteps = none := by
  rw [isDirect, Bool.or_eq_false_iff, Option.isSome_eq_false_iff, Option.isNone_iff_eq_none]

theorem At.of_background {w : Worker} (hdirect : isDirect o = false)
    (hfollows : Follows p input r k owed (.background w))
    (hnotes : notes.toList ++ owed = account o.isTraced p r k) :
    At o p input r k owed { options := o, program := p, notes, execution := .background w } := by
  refine ⟨rfl, rfl, hdirect.symm, hfollows, hnotes, fun n hn => ?_⟩
  rw [(isDirect_eq_false_iff.mp hdirect).2] at hn
  exact nomatch hn

/-- The worker gets no further with its program, or waits. -/
theorem Next.of_background {w : Worker} {owed' : List String} {activity : Activity}
    (hdirect : isDirect o = false) (hended : ∀ code, activity ≠ .ended code)
    (hfollows : Follows p input r k owed' (.background w))
    (hnotes : notes.toList ++ owed' = account o.isTraced p r k) :
    Next o p input r k owed
      (activity, { options := o, program := p, notes, execution := .background w }) :=
  .stays (.of_background hdirect hfollows hnotes) hended fun hother =>
    absurd (hdirect.symm.trans hother) Bool.false_ne_true

/-- The worker attempts an instruction. -/
theorem executing_next {w : Worker} (hr : r.Provided) (hdirect : isDirect o = false)
    (hw : Stands w .executing []) (hshown : w.state = .running)
    (h : w.machine.Retraces input r k) (hgoing : w.machine.state.isTerminal = false)
    (hnotes : notes.toList = account o.isTraced p r k) :
    Next o p input r k []
      (.busy, { options := o, program := p, notes, execution := .background w.turn }) := by
  have huntraced : o.isTraced = false := (isDirect_eq_false_iff.mp hdirect).1
  have hadvanced {owed : List String} (hreport : report false p (r.stepped (k + 1)) = owed) :
      notes.toList ++ owed = account o.isTraced p r (k + 1) := by
    rw [account_succ, ← hnotes, announcement, huntraced, if_neg nofun, List.nil_append, hreport]
  have hattempted := attempted hr h p
  have hstate := attempt_state w.machine
  generalize hattempt : w.machine.attempt = attempt at hattempted hstate
  cases hattempted with
  | @waits a h hopen =>
    have hgoing' : a.state.isTerminal = false := (congrArg ExecState.isTerminal hstate).trans hgoing
    have hfollows :
        Follows p input r k [] (.background { w with machine := a, isBlocked := true }) :=
      .running (rfl : Phase.executing.isRun = true)
        ⟨hw.phase, hw.queue, hw.sent, hw.isControlled⟩ hshown h hgoing'
    rw [turn_waits hw hattempt]
    exact .of_background hdirect nofun hfollows ((List.append_nil _).trans hnotes)
  | @goesOn a h hreport =>
    have hgoing' : a.state.isTerminal = false := (congrArg ExecState.isTerminal hstate).trans hgoing
    have hfollows : Follows p input r (k + 1) []
        (.background { w with machine := a, phase := .between, isBlocked := false }) :=
      .running (rfl : Phase.between.isRun = true) ⟨rfl, hw.queue, hw.sent, hw.isControlled⟩ hshown h
        hgoing'
    rw [turn_goesOn hw hattempt]
    exact .goesOn rfl (.of_background hdirect hfollows (hadvanced hreport))
  | @pauses a reason h hreason hreport =>
    have hread : ExecState.paused reason ≠ .paused .readCancelled := by
      obtain rfl | rfl := hreason <;> nofun
    rw [turn_ends hw hattempt hread]
    have hfollows := Follows.paused (p := p) (w := { w with
        machine := a.enter (.paused reason), status := { w.status with state := .paused reason }
        phase := .idle, isBlocked := false })
      ⟨rfl, hw.queue, hw.sent, hw.isControlled⟩ rfl h.restate rfl hreason
    exact .goesOn rfl (.of_background hdirect hfollows (hadvanced hreport))
  | @ends a state hterminal hends hsame =>
    have hread : state ≠ .paused .readCancelled := by
      rintro rfl
      exact nomatch hterminal
    subst hends
    rw [turn_ends hw hattempt hread]
    have hfollows : Follows p input r (k + 1) [] (.background { w with
        machine := a.enter (r.stepped (k + 1)).state
        status := { w.status with state := (r.stepped (k + 1)).state }
        phase := .idle, isBlocked := false }) :=
      .done ⟨rfl, hw.queue, hw.sent, hw.isControlled⟩ h.going hterminal rfl hsame.restate
    exact .goesOn rfl (.of_background hdirect hfollows (hadvanced (report_ended _ _ hterminal)))

/-- A pause of the worker is told, and the worker is to go on. -/
theorem paused_next {w : Worker} {reason : PauseReason} (hdirect : isDirect o = false)
    (hw : Stands w .idle []) (hshown : w.state = .paused reason)
    (h : w.machine.Retraces input r k) (hgoing : w.machine.state.isTerminal = false)
    (hreason : reason = .breakpoint ∨ reason = .breakInstruction)
    (hnotes : notes.toList ++ pauseLines p reason w.machine.pc w.machine.registers =
      account o.isTraced p r k) :
    Next o p input r k owed (turnBackground o p notes w) := by
  have hsettled := hasSettled_idle hw (by rw [hshown]; nofun)
  have hsent : Stands (w.send .resume) .idle [.resume] :=
    ⟨hw.phase, by rw [Worker.send, hw.queue]; rfl, by rw [Worker.send, hw.sent]; rfl,
      hw.isControlled⟩
  have hlines : pauseNotes p w.machine reason =
      pauseLines p reason w.machine.pc w.machine.registers := by
    obtain rfl | rfl := hreason <;> rfl
  unfold turnBackground
  rw [if_pos hsettled]
  simp only [hshown, ExecState.isTerminal, Bool.false_eq_true, if_false, pc_idle hw, settle_paused]
  rw [hlines]
  refine .of_background hdirect nofun (.ready hsent h hgoing) ?_
  rw [List.append_nil, ← hnotes]
  exact Array.toList_appendList

theorem turnBackground_next {w : Worker} (hr : r.Provided) (hdirect : isDirect o = false)
    (hfollows : Follows p input r k owed (.background w))
    (hnotes : notes.toList ++ owed = account o.isTraced p r k) :
    Next o p input r k owed (turnBackground o p notes w) := by
  cases hfollows with
  | ready hw h hgoing =>
    obtain ⟨activity, w', hturn, ⟨-, -, hresting⟩ | ⟨rfl, rfl, -⟩⟩ :=
      turnBackground_leave (hasSettled_ready hw) o p notes
    · unfold Worker.isResting at hresting
      rw [hw.phase, hw.queue] at hresting
      exact nomatch hresting
    · rw [hturn, turn_ready hw hgoing]
      exact .of_background hdirect nofun (.running (rfl : Phase.between.isRun = true)
        ⟨rfl, rfl, hw.sent, hw.isControlled⟩ rfl h.restate rfl) hnotes
  | @running _ _ phase hrun hw hshown h hgoing =>
    obtain ⟨activity, w', hturn, ⟨rfl, rfl, -⟩ | ⟨rfl, rfl, -⟩⟩ :=
      turnBackground_leave (hasSettled_running hshown) o p notes
    · rw [hturn]
      exact .of_background hdirect nofun (.running hrun hw hshown h hgoing) hnotes
    · rw [hturn]
      cases phase with
      | between =>
        rw [turn_between hw]
        exact .of_background hdirect nofun (.running (rfl : Phase.executing.isRun = true)
          ⟨rfl, hw.queue, hw.sent, hw.isControlled⟩ hshown h hgoing) hnotes
      | executing =>
        exact executing_next hr hdirect hw hshown h hgoing ((List.append_nil _).symm.trans hnotes)
      | idle | stepping | ended => exact nomatch hrun
  | paused hw hshown h hgoing hreason =>
    exact paused_next hdirect hw hshown h hgoing hreason hnotes
  | @done j _ hw hgoing hterminal hshown hsame =>
    have hrunning : w.state ≠ .running := by
      rw [hshown]
      intro heq
      rw [heq] at hterminal
      exact nomatch hterminal
    unfold turnBackground
    rw [if_pos (hasSettled_idle hw hrunning)]
    simp only [hshown]
    rw [if_pos hterminal, settle_ended _ hterminal]
    refine .ends (.finished hgoing hterminal (fun n hn => ?_) hsame ?_)
    · rw [(isDirect_eq_false_iff.mp hdirect).2] at hn
      exact nomatch hn
    · rw [List.append_nil] at hnotes
      rw [say_notes, hnotes]

namespace At

/-! ## Any moves -/

/-- A turn of a session that has gone the way of some steps. -/
theorem turn (hr : r.Provided) (h : s.At o p input r k owed) : Next o p input r k owed s.turn := by
  obtain ⟨options, program, execution, notes⟩ := s
  obtain ⟨rfl, rfl, hdirect, hfollows, hnotes, hlimit⟩ := h
  cases execution with
  | direct m =>
    cases hfollows with
    | direct h hgoing =>
      rw [List.append_nil] at hnotes
      exact turnDirect_next hr h hgoing hdirect.symm hlimit hnotes
  | background w => exact turnBackground_next hr hdirect.symm hfollows hnotes

/-- When a turn completes an instruction, everything about the ones before it has been told. -/
theorem due (hr : r.Provided) (h : s.At o p input r k owed)
    (hnext : s.turn.2.machine.completed ≠ s.machine.completed) :
    s.machine.completed = k ∧ s.notes.toList = account o.isTraced p r k := by
  obtain ⟨options, program, execution, notes⟩ := s
  obtain ⟨rfl, rfl, -, hfollows, hnotes, -⟩ := h
  cases hfollows with
  | direct h | ready _ h | running _ _ _ h =>
    exact ⟨h.completed hr, (List.append_nil _).symm.trans hnotes⟩
  | paused hw hshown =>
    exact absurd (turnBackground_settled (hasSettled_idle hw (by rw [hshown]; nofun))) hnext
  | done hw _ hterminal hshown =>
    refine absurd (turnBackground_settled (hasSettled_idle hw fun hrunning => ?_)) hnext
    rw [← hshown, hrunning] at hterminal
    exact nomatch hterminal

/-- Some of the input that was to come has come. -/
theorem arrive {arrival : Arrival} (h : s.At o p (arrival :: input) r k owed) :
    (s.arrive arrival).At o p input r k owed := by
  obtain ⟨options, program, execution, notes⟩ := s
  obtain ⟨rfl, rfl, hdirect, hfollows, hnotes, hlimit⟩ := h
  have hfollows' : Follows program input r k owed
      (Session.arrive ⟨options, program, execution, notes⟩ arrival).execution := by
    cases hfollows with
    | direct h hgoing => exact .direct h.arrive hgoing
    | ready hw h hgoing =>
      exact .ready ⟨hw.phase, hw.queue, hw.sent, hw.isControlled⟩ h.arrive hgoing
    | running hrun hw hshown h hgoing =>
      exact .running hrun ⟨hw.phase, hw.queue, hw.sent, hw.isControlled⟩ hshown h.arrive hgoing
    | @paused _ w _ hw hshown h hgoing hreason =>
      exact .paused (w := w.onConsole (·.arrive arrival))
        ⟨hw.phase, hw.queue, hw.sent, hw.isControlled⟩ hshown h.arrive hgoing hreason
    | @done _ w hw hgoing hterminal hshown hsame =>
      refine .done ⟨hw.phase, hw.queue, hw.sent, hw.isControlled⟩ hgoing hterminal hshown ?_
      exact ⟨hsame.registers, hsame.pc, hsame.memory, hsame.calls,
        hsame.output.trans (Console.arrive_output _ _).symm, hsame.completed⟩
  refine ⟨rfl, rfl, ?_, hfollows', hnotes, hlimit⟩
  cases execution <;> exact hdirect

/-- Any moves of a session, in the course of which a part of its input arrives. The induction is on
the moves: each of them is a turn, or uses up some of that input. -/
theorem moved (hr : r.Provided) {moves : List Move} {later : Input}
    (h : s.At o p (arrivals moves ++ later) r k owed) :
    (∃ code s', s.moved moves = (.ended code, s') ∧ s'.Concluded o p r code) ∨
      ∃ s' j owed', s.moved moves = (.busy, s') ∧ k ≤ j ∧ s'.At o p later r j owed' := by
  induction moves generalizing s k owed with
  | nil => exact .inr ⟨s, k, owed, rfl, Nat.le_refl k, h⟩
  | cons move moves ih =>
    cases move with
    | arrive arrival => exact ih h.arrive
    | turn =>
      have h : s.At o p (arrivals moves ++ later) r k owed := h
      have hnext := h.turn hr
      generalize hturn : s.turn = result at hnext
      cases hnext with
      | ends hconcluded => exact .inl ⟨_, _, moved_turn_ended hturn moves, hconcluded⟩
      | stays hafter hended _ =>
        rw [moved_turn hturn hended]
        exact ih hafter
      | goesOn _ hafter =>
        rw [moved_turn hturn nofun]
        obtain hconcluded | ⟨s', j, owed', hmoved, hle, hat⟩ := ih hafter
        · exact .inl hconcluded
        · exact .inr ⟨s', j, owed', hmoved, Nat.le_of_succ_le hle, hat⟩

/-- A machine that ends within some steps, or a session that may execute as many instructions. -/
theorem le_bound {bound : Nat} (h : s.At o p input r k owed)
    (hbound : (r.stepped bound).state.isTerminal = true ∨ o.maxSteps = some bound) :
    k ≤ bound ∨ isDirect o = false := by
  obtain hterminal | hlimit := hbound
  · cases hexecution : s.execution with
    | background w =>
      right
      rw [← h.direct, hexecution]
      rfl
    | direct m =>
      left
      have hfollows := h.follows
      rw [hexecution] at hfollows
      cases hfollows with
      | direct hretraces hgoing =>
        refine Nat.le_of_not_lt fun hlt => ?_
        rw [Machine.going_of_le hretraces.going (Nat.le_of_lt hlt)] at hterminal
        exact nomatch hterminal
  · exact .inl (h.limit bound hlimit)

/-- A session that steps through its program itself takes a step with each turn that does not wait,
so it ends when it has made more turns than there are steps left. -/
theorem ended (hr : r.Provided) {moves : List Move} {later : Input} {bound : Nat}
    (h : s.At o p (arrivals moves ++ later) r k owed) (hdirect : isDirect o = true)
    (hbound : (r.stepped bound).state.isTerminal = true ∨ o.maxSteps = some bound)
    (hwaits : s.waits moves = false) (hturns : bound < k + turns moves) :
    ∃ code s', s.moved moves = (.ended code, s') := by
  induction moves generalizing s k owed with
  | nil =>
    obtain hle | hother := h.le_bound hbound
    · exact absurd hturns (Nat.not_lt.mpr hle)
    · rw [hdirect] at hother
      exact nomatch hother
  | cons move moves ih =>
    cases move with
    | arrive arrival => exact ih h.arrive hwaits hturns
    | turn =>
      have h : s.At o p (arrivals moves ++ later) r k owed := h
      have hnext := h.turn hr
      rw [Session.waits] at hwaits
      generalize hturn : s.turn = result at hnext hwaits
      cases hnext with
      | ends => exact ⟨_, _, moved_turn_ended hturn moves⟩
      | stays _ _ hwaiting =>
        obtain ⟨rfl, -⟩ := hwaiting hdirect
        exact nomatch hwaits
      | goesOn _ hafter =>
        rw [moved_turn hturn nofun]
        refine ih hafter hwaits ?_
        have hcount : turns (.turn :: moves) = turns moves + 1 := List.countP_cons_of_pos rfl
        rw [hcount] at hturns
        omega

/-- When all input has come, such a session does not wait. -/
theorem waits_closed (hr : r.Provided) (h : s.At o p [] r k owed) (hdirect : isDirect o = true)
    (n : Nat) : s.waits (List.replicate n .turn) = false := by
  induction n generalizing s k owed with
  | zero => rfl
  | succ n ih =>
    have hnext := h.turn hr
    rw [List.replicate_succ, Session.waits]
    generalize s.turn = result at hnext
    cases hnext with
    | ends => rfl
    | goesOn _ hafter => exact ih hafter
    | @stays activity s' owed' hafter _ hwaiting =>
      obtain ⟨rfl, c, hc, hopen, -⟩ := hwaiting hdirect
      have hkind := hafter.direct
      have hfollows := hafter.follows
      obtain ⟨options, program, execution, notes⟩ := s'
      cases execution with
      | background w => exact nomatch hkind.trans hdirect
      | direct m =>
        cases hfollows with
        | direct hretraces hgoing =>
          obtain ⟨d, hd, hclosed, -⟩ := hretraces.closed hr
          have hc : m.console = .channel c := hc
          rw [hc] at hd
          cases hd
          exact nomatch hopen.symm.trans hclosed

/-- So such a session ends when all input has come, if its turns go on. -/
theorem finishes (hr : r.Provided) {moves : List Move} {bound : Nat}
    (h : s.At o p (arrivals moves) r k owed) (hdirect : isDirect o = true)
    (hbound : (r.stepped bound).state.isTerminal = true ∨ o.maxSteps = some bound) :
    ∃ code s', s.moved (moves ++ List.replicate (bound + 1) .turn) = (.ended code, s') := by
  rw [← List.append_nil (arrivals moves)] at h
  obtain ⟨code, s', hmoved, -⟩ | ⟨s', j, owed', hmoved, -, hat⟩ := h.moved hr
  · exact ⟨code, s', moved_append_ended hmoved _⟩
  · rw [moved_append hmoved]
    have hrest : s'.At o p (arrivals (List.replicate (bound + 1) .turn) ++ []) r j owed' := by
      rw [arrivals_turns]
      exact hat
    refine hrest.ended hr hdirect hbound (hat.waits_closed hr hdirect _) ?_
    rw [turns, List.countP_replicate, if_pos (by rfl)]
    exact Nat.lt_of_lt_of_le (Nat.lt_succ_self bound) (Nat.le_add_left _ _)

end At

/-! ## Sessions from their start -/

/-- The machine of a session with all input in advance. -/
def alone (s : Session) (stdin : List UInt8) : Machine :=
  { s.machine with console := .channel { arrived := stdin, isOpen := false } }

end Session

/-- Adding breakpoints changes nothing else. -/
theorem addBreakpoint_foldl (breakpoints : List Breakpoint) (m : Machine) :
    ∃ all,
      breakpoints.foldl (fun m b => (m.addBreakpoint b).2) m = { m with breakpoints := all } ∧
        ∀ b, b ∈ all ↔ b ∈ breakpoints ∨ b ∈ m.breakpoints := by
  induction breakpoints generalizing m with
  | nil => exact ⟨m.breakpoints, rfl, fun b => by simp⟩
  | cons b breakpoints ih =>
    obtain ⟨all, hall, hmem⟩ := ih (m.addBreakpoint b).2
    refine ⟨all, ?_, fun b' => ?_⟩
    · rw [List.foldl_cons, hall]
      unfold Machine.addBreakpoint
      split <;> rfl
    · rw [hmem b', Machine.addBreakpoint]
      split
      · next hold =>
        have hold : b ∈ m.breakpoints := List.contains_iff_mem.mp hold
        grind
      · grind

/-- When a request to run comes to a session, and to which one. -/
theorem run_eq_session_iff {o : RunOptions} {source : Source} {s : Session} :
    run o source = .session s ↔
      ∃ p breakpoints, (assemble source).toExcept = .ok p ∧
        breakpointsOf p o.breaks = .ok breakpoints ∧ s = startSession o p breakpoints := by
  constructor
  · intro h
    unfold run at h
    cases hassembled : (assemble source).toExcept with
    | error problems =>
      rw [hassembled] at h
      exact nomatch h
    | ok p =>
      rw [hassembled] at h
      simp only at h
      cases hbreakpoints : breakpointsOf p o.breaks with
      | error label =>
        rw [hbreakpoints] at h
        exact nomatch h
      | ok breakpoints =>
        rw [hbreakpoints] at h
        cases h
        exact ⟨p, breakpoints, rfl, hbreakpoints, rfl⟩
  · rintro ⟨p, breakpoints, hassembled, hbreakpoints, rfl⟩
    unfold run
    rw [hassembled]
    simp only [hbreakpoints]

def Response.session? : Response → Option Session
  | .answer _ => none
  | .session s => some s

/-- The session of a response in which a test finds one that it passes. -/
theorem Response.exists_session {response : Response} {test : Session → Bool}
    (h : response.session?.any test = true) : ∃ s, response = .session s ∧ test s = true := by
  cases response with
  | answer => exact nomatch h
  | session s => exact ⟨s, rfl, h⟩

/-- The machine with which a session starts. -/
theorem startSession_machine (o : RunOptions) (p : Program) (breakpoints : List Breakpoint) :
    (startSession o p breakpoints).machine =
      { breakpoints.foldl (fun m b => (m.addBreakpoint b).2) ((Machine.create (flagsOf o)).load p)
        with console := .channel {} } := by
  unfold startSession
  cases isDirect o <;> rfl

theorem provided_start (o : RunOptions) (p : Program) (breakpoints : List Breakpoint)
    (stdin : List UInt8) : ((startSession o p breakpoints).alone stdin).Provided := by
  obtain ⟨all, hall, -⟩ := addBreakpoint_foldl breakpoints ((Machine.create (flagsOf o)).load p)
  unfold Session.alone
  rw [startSession_machine, hall]
  exact ⟨⟨_, rfl, rfl, rfl⟩, rfl, rfl⟩

/-- A session at its start has not gone anywhere yet. -/
theorem at_start (o : RunOptions) (p : Program) (breakpoints : List Breakpoint) {input : Input}
    (hends : input.ends = true) :
    (startSession o p breakpoints).At o p input
      ((startSession o p breakpoints).alone input.bytes) 0 [] := by
  obtain ⟨all, hall, -⟩ := addBreakpoint_foldl breakpoints ((Machine.create (flagsOf o)).load p)
  have hmachine := startSession_machine o p breakpoints
  rw [hall] at hmachine
  generalize hstart : startSession o p breakpoints = s at hmachine
  have hgoing : s.machine.state.isTerminal = false := by rw [hmachine]; rfl
  have hretraces := Machine.Retraces.start hgoing (by rw [hmachine]) hends
  unfold startSession at hstart
  cases hdirect : isDirect o with
  | true =>
    simp only [hdirect, if_true] at hstart
    subst hstart
    exact .of_direct hdirect hretraces hgoing rfl fun n _ => Nat.zero_le n
  | false =>
    simp only [hdirect, Bool.false_eq_true, if_false] at hstart
    subst hstart
    exact .of_background hdirect (.ready ⟨rfl, rfl, rfl, rfl⟩ hretraces hgoing) rfl


end MipsLab.CommandLine
