import MipsLab.Proofs.Endings
import MipsLab.Proofs.Segments

/-!
# What runs tell

The events of a run are compared with what the run does: the instructions that it completes, the
growth of the heap, and the state in which it comes to rest.

1. `Machine.Tallies`, `Machine.Told`: what is told between two moments, against what is done.
2. `Machine.Turn.told`: the attempt at an instruction.
3. `Machine.Accounts`, `Machine.runFrom_accounts`: runs and steps.
4. `Machine.perform_accounts`, `Machine.perform_told`: all operations but a reset.
-/

namespace MipsLab

/-! ## Kinds of events -/

namespace Event

/-- The address of an instruction that has been completed. -/
def executed? : Event → Option Address
  | executed pc => some pc
  | _ => none

/-- The old and the new end of the heap. -/
def grown? : Event → Option (Address × Address)
  | heapGrew old new => some (old, new)
  | _ => none

def isLoaded : Event → Bool
  | loaded _ => true
  | _ => false

/-- Whether an event is told in the course of a run, and not where it comes to rest. -/
def isInner : Event → Bool
  | executed _ | heapGrew _ _ => true
  | _ => false

/-- An event tells the state that a machine has come to. -/
inductive Describes (m : Machine) : Event → Prop
  | paused {reason : PauseReason} (h : m.state = .paused reason)
      (hread : reason ≠ .readCancelled) : Describes m (.paused reason)
  | readCancelled (h : m.state = .paused .readCancelled) : Describes m (.readCancelled m.pc)
  | halted {reason : HaltReason} (h : m.state = .halted reason) : Describes m (.halted reason)
  | faulted {fault : Fault} (h : m.state = .faulted fault) : Describes m (.faulted fault)

theorem Describes.notLoaded {m : Machine} {event : Event} (h : event.Describes m) :
    event.isLoaded = false := by
  cases h <;> rfl

/-- From `start` to `stop`, each growth of the heap begins where the one before has ended. -/
def Grows : Address → List (Address × Address) → Address → Prop
  | start, [], stop => start = stop
  | start, (old, new) :: grown, stop => old = start ∧ Grows new grown stop

theorem Grows.append {start middle stop : Address} {grown more : List (Address × Address)}
    (h : Grows start grown middle) (hmore : Grows middle more stop) :
    Grows start (grown ++ more) stop := by
  induction grown generalizing start with
  | nil =>
    obtain rfl : start = middle := h
    exact hmore
  | cons first grown ih =>
    obtain ⟨old, new⟩ := first
    exact ⟨h.1, ih h.2⟩

end Event

/-- Whether a machine in a state has come to rest, for now or for good. -/
def ExecState.isRest : ExecState → Bool
  | paused _ | halted _ | faulted _ => true
  | loaded | running => false

/-! ## Memories with the same bounds -/

namespace Memory

variable {m m' : Memory}

theorem overwriteEach_bounds (m : Memory) (places : List Place) (bytes : List UInt8) :
    (m.overwriteEach places bytes).start = m.start ∧
      (m.overwriteEach places bytes).stop = m.stop := by
  unfold overwriteEach
  induction places.zip bytes generalizing m with
  | nil => exact ⟨rfl, rfl⟩
  | cons first rest ih =>
    obtain ⟨hstart, hstop⟩ := ih (m.overwrite first.1 [first.2])
    exact ⟨hstart.trans (m.overwrite_start _ _), hstop.trans (m.overwrite_stop _ _)⟩

theorem Written.bounds (h : m.Written m') : m'.start = m.start ∧ m'.stop = m.stop := by
  cases h with
  | nothing => exact ⟨rfl, rfl⟩
  | access => exact ⟨m.overwrite_start _ _, m.overwrite_stop _ _⟩
  | each => exact m.overwriteEach_bounds _ _

end Memory

namespace EventBus

theorem emitAll_append (b : EventBus) (events more : List Event) :
    b.emitAll (events ++ more) = (b.emitAll events).emitAll more :=
  List.foldl_append

end EventBus

namespace Machine

/-! ## What is told and what is done -/

/-- Some events tell what a machine has done between two moments without a loading between them: the
instructions at `addresses` have been completed, and the heap has grown from event to event. -/
structure Tallies (m m' : Machine) (events : List Event) (addresses : List Address) : Prop where
  executed : events.filterMap Event.executed? = addresses
  completed : m'.completed = m.completed + addresses.length
  grown : Event.Grows (UInt32.ofNat m.memory.brk) (events.filterMap Event.grown?)
    (UInt32.ofNat m'.memory.brk)
  heapStart : m'.memory.heapStart = m.memory.heapStart
  notLoaded : ∀ event ∈ events, event.isLoaded = false

/-- These events have been told to the observers, and no others. -/
structure Told (m m' : Machine) (events : List Event) (addresses : List Address) : Prop
    extends Tallies m m' events addresses where
  told : m'.events = m.events.emitAll events

section Moments

variable {m m' m'' : Machine} {events events' : List Event} {addresses addresses' : List Address}

/-- No events, where nothing is done that is told of. -/
theorem Tallies.silent (hcompleted : m'.completed = m.completed)
    (hmemory : m'.memory.start = m.memory.start ∧ m'.memory.stop = m.memory.stop) :
    m.Tallies m' [] [] where
  executed := rfl
  completed := hcompleted
  grown := congrArg UInt32.ofNat (congrFun hmemory.2 .heap).symm
  heapStart := congrFun hmemory.1 .heap
  notLoaded := nofun

theorem Tallies.trans (h : m.Tallies m' events addresses)
    (h' : m'.Tallies m'' events' addresses') :
    m.Tallies m'' (events ++ events') (addresses ++ addresses') where
  executed := by rw [List.filterMap_append, h.executed, h'.executed]
  completed := by rw [h'.completed, h.completed, List.length_append, Nat.add_assoc]
  grown := by
    rw [List.filterMap_append]
    exact h.grown.append h'.grown
  heapStart := h'.heapStart.trans h.heapStart
  notLoaded := by
    intro event hevent
    rcases List.mem_append.mp hevent with hevent | hevent
    · exact h.notLoaded event hevent
    · exact h'.notLoaded event hevent

theorem Told.silent (hevents : m'.events = m.events) (hcompleted : m'.completed = m.completed)
    (hmemory : m'.memory.start = m.memory.start ∧ m'.memory.stop = m.memory.stop) :
    m.Told m' [] [] :=
  ⟨.silent hcompleted hmemory, hevents⟩

theorem Told.trans (h : m.Told m' events addresses) (h' : m'.Told m'' events' addresses') :
    m.Told m'' (events ++ events') (addresses ++ addresses') :=
  ⟨h.toTallies.trans h'.toTallies, by rw [h'.told, h.told, EventBus.emitAll_append]⟩

end Moments

variable {m m' : Machine} {ended : StepEnd}

/-- Completing an instruction is told, and nothing else is. -/
theorem complete_told (m : Machine) (next : Address) :
    m.Told (m.complete next) [.executed m.pc] [m.pc] where
  told := rfl
  executed := rfl
  completed := rfl
  grown := rfl
  heapStart := rfl
  notLoaded := by simp [Event.isLoaded]

/-- What the attempt at an instruction tells: the instruction, if it has been completed, and before
it the growth of the heap. -/
theorem Turn.told (h : m.Turn ended m') :
    ∃ inner, m.Told m' inner (if ended.isCompletion then [m.pc] else []) ∧
      ∀ event ∈ inner, event.isInner = true := by
  cases h with
  | rests hended =>
    rw [hended]
    exact ⟨[], .silent rfl rfl ⟨rfl, rfl⟩, nofun⟩
  | @completes _ registers memory calls console _ hended hmemory =>
    rw [hended]
    have hwritten : m.Told { m with registers, memory, calls, console } [] [] :=
      .silent rfl rfl hmemory.bounds
    exact ⟨_, hwritten.trans (complete_told _ _), by simp [Event.isInner]⟩
  | @grows requested hroom =>
    have hgrown : m.Told
        { m with
          registers := m.registers.set Reg.v0 (UInt32.ofNat m.memory.brk)
          memory := m.memory.extendHeap (heapRequest requested)
          events := m.events.emit (.heapGrew (UInt32.ofNat m.memory.brk)
            (UInt32.ofNat (m.memory.brk + heapRequest requested))) }
        [.heapGrew (UInt32.ofNat m.memory.brk)
          (UInt32.ofNat (m.memory.brk + heapRequest requested))] [] :=
      { told := rfl
        executed := rfl
        completed := rfl
        grown := ⟨rfl, congrArg UInt32.ofNat (m.memory.extendHeap_brk _).symm⟩
        heapStart := rfl
        notLoaded := by simp [Event.isLoaded] }
    exact ⟨_, hgrown.trans (complete_told _ _), by simp [Event.isInner]⟩

theorem step_told (hstep : m.step = (ended, m')) :
    ∃ inner, m.Told m' inner (if ended.isCompletion then [m.pc] else []) ∧
      ∀ event ∈ inner, event.isInner = true := by
  have hturn := step_turn m
  rw [hstep] at hturn
  exact hturn.told

/-- An instruction that faults or whose read is cancelled tells nothing. -/
theorem step_silent (h : m.step.1.isCompletion = false) :
    m.step.2.events = m.events ∧ m.step.2.completed = m.completed := by
  have hturn := step_turn m
  generalize m.step.1 = ended at h hturn
  generalize m.step.2 = m' at hturn
  cases hturn with
  | rests => exact ⟨rfl, rfl⟩
  | completes hended => exact nomatch h.symm.trans hended
  | grows => exact nomatch h

/-! ## Coming to rest -/

/-- A machine that enters a state to rest in tells that state. -/
theorem enter_told (m : Machine) {state : ExecState} (h : state.isRest = true) :
    ∃ last, m.Told (m.enter state) [last] [] ∧ last.Describes (m.enter state) := by
  have hsingle (last : Event) (htold : (m.enter state).events = m.events.emit last)
      (hlast : last.Describes (m.enter state)) :
      ∃ last, m.Told (m.enter state) [last] [] ∧ last.Describes (m.enter state) := by
    refine ⟨last, ⟨⟨?_, rfl, ?_, rfl, ?_⟩, htold⟩, hlast⟩
    · cases hlast <;> rfl
    · cases hlast <;> rfl
    · rintro event hevent
      obtain rfl := List.mem_singleton.mp hevent
      exact hlast.notLoaded
  cases state with
  | paused reason =>
    by_cases hread : reason = .readCancelled
    · subst hread
      exact hsingle (.readCancelled m.pc) rfl (.readCancelled rfl)
    · refine hsingle (.paused reason) ?_ (.paused rfl hread)
      cases reason with
      | readCancelled => exact absurd rfl hread
      | _ => rfl
  | halted reason => exact hsingle (.halted reason) rfl (.halted rfl)
  | faulted fault => exact hsingle (.faulted fault) rfl (.faulted rfl)
  | loaded | running => exact nomatch h

theorem stateOf_isRest (m : Machine) (stop : Stop) : (m.stateOf stop).isRest = true := by
  cases stop <;> rfl

/-- What a step or run tells at last: when it returns, the one event of the state that the machine
has come to, and its result is that of the state; until then nothing. -/
def ConcludedBy (m : Machine) (final : List Event) : Progress → Prop
  | .ended result => (∃ last, final = [last] ∧ last.Describes m) ∧ result = m.state.result
  | .waiting | .unfinished => final = []

/-- What a step or run has told by the time that it returns or waits: in its course only what its
instructions do, and then how it ends. -/
def Accounts (m : Machine) (addresses : List Address) (progress : Progress) (m' : Machine) : Prop :=
  ∃ inner final, m.Told m' (inner ++ final) addresses ∧
    (∀ event ∈ inner, event.isInner = true) ∧ m'.ConcludedBy final progress

namespace Accounts

variable {m m' m'' : Machine} {addresses addresses' : List Address} {progress : Progress}
  {inner : List Event}

theorem told (h : m.Accounts addresses progress m') :
    ∃ events, m.Told m' events addresses := by
  obtain ⟨inner, final, htold, -⟩ := h
  exact ⟨inner ++ final, htold⟩

/-- A run that has not returned. -/
theorem unreturned (h : m.Told m' inner addresses) (hinner : ∀ event ∈ inner, event.isInner = true)
    (hprogress : progress.hasReturned = false) : m.Accounts addresses progress m' := by
  refine ⟨inner, [], by rwa [List.append_nil], hinner, ?_⟩
  cases progress with
  | ended result => exact nomatch hprogress
  | waiting | unfinished => rfl

/-- A run that comes to rest after some attempts. -/
theorem rests {state : ExecState} (h : m.Told m' inner addresses)
    (hinner : ∀ event ∈ inner, event.isInner = true) (hstate : state.isRest = true) :
    m.Accounts addresses (m'.endIn state).1 (m'.endIn state).2 := by
  obtain ⟨last, hlast, hdescribes⟩ := m'.enter_told hstate
  have htold := h.trans hlast
  rw [List.append_nil] at htold
  exact ⟨inner, [last], htold, hinner, ⟨last, rfl, hdescribes⟩, rfl⟩

/-- What has been told before goes before it. -/
theorem after (h : m.Told m' inner addresses) (hinner : ∀ event ∈ inner, event.isInner = true)
    (hrest : m'.Accounts addresses' progress m'') :
    m.Accounts (addresses ++ addresses') progress m'' := by
  obtain ⟨inner', final, htold, hinner', hfinal⟩ := hrest
  refine ⟨inner ++ inner', final, ?_, ?_, hfinal⟩
  · rw [List.append_assoc]
    exact h.trans htold
  · intro event hevent
    rcases List.mem_append.mp hevent with hevent | hevent
    · exact hinner event hevent
    · exact hinner' event hevent

end Accounts

/-! ## Attempts -/

/-- The machines at which a run attempts an instruction, one after the other. -/
def attemptsFrom (goal : Goal) : Nat → Bool → Machine → List Machine
  | 0, _, _ => []
  | fuel + 1, begun, m =>
    match goal.reached? begun m with
    | some _ => []
    | none =>
      m ::
        match m.attempt with
        | (.goesOn, m) => attemptsFrom goal fuel true m
        | _ => []

def attemptsTo (m : Machine) (goal : Goal) (fuel : Nat) : List Machine :=
  if m.state.isTerminal then [] else attemptsFrom goal fuel false { m with state := .running }

/-- The machines at which an operation attempts an instruction. -/
def attempts (m : Machine) : Operation → List Machine
  | .stepIn => if m.state.isTerminal then [] else [m]
  | .run fuel => m.attemptsTo .unlimited fuel
  | .runWhile condition fuel => m.attemptsTo (.whileTrue condition) fuel
  | .runLimited limit fuel => m.attemptsTo (.count m.completed limit) fuel
  | .stepOver fuel => m.attemptsTo (.overCall m.calls.depth) fuel
  | .stepOut fuel =>
    if m.calls.depth = 0 then [] else m.attemptsTo (.outOfCall m.calls.depth) fuel
  | .resume goal begun fuel => attemptsFrom goal fuel begun m
  | _ => []

/-- The addresses of the instructions that some attempts complete. -/
def completions (attempts : List Machine) : List Address :=
  (attempts.filter (·.step.1.isCompletion)).map pc

theorem completions_cons (hstep : m.step = (ended, m')) (attempts : List Machine) :
    completions (m :: attempts) =
      (if ended.isCompletion then [m.pc] else []) ++ completions attempts := by
  unfold completions
  rw [List.filter_cons, hstep]
  cases ended.isCompletion <;> rfl

section Runs

variable {goal : Goal} {begun : Bool}

theorem attemptsFrom_reached {reason : PauseReason} (h : goal.reached? begun m = some reason)
    (fuel : Nat) : attemptsFrom goal (fuel + 1) begun m = [] := by
  rw [attemptsFrom, h]

theorem attemptsFrom_ran (h : goal.reached? begun m = none) (hstep : m.step = (.ran, m'))
    (fuel : Nat) :
    attemptsFrom goal (fuel + 1) begun m =
      m :: if m'.atBreakpoint then [] else attemptsFrom goal fuel true m' := by
  rw [attemptsFrom, h, attempt, hstep]
  by_cases hb : m'.atBreakpoint <;> simp [hb]

theorem attemptsFrom_last (h : goal.reached? begun m = none) (hstep : m.step = (ended, m'))
    (hended : ended ≠ .ran) (fuel : Nat) : attemptsFrom goal (fuel + 1) begun m = [m] := by
  rw [attemptsFrom, h, attempt, hstep]
  cases ended with
  | ran => exact absurd rfl hended
  | stopped | waiting => rfl

/-- A run accounts for what it attempts. The induction is on the number of attempts: each leads on,
and tells what it has completed before the rest is told, or it is the last. -/
theorem runFrom_accounts (goal : Goal) (fuel : Nat) (begun : Bool) (m : Machine) :
    m.Accounts (completions (attemptsFrom goal fuel begun m)) (runFrom goal fuel begun m).1
      (runFrom goal fuel begun m).2 := by
  have hnothing (m : Machine) : m.Told m [] [] := .silent rfl rfl ⟨rfl, rfl⟩
  induction fuel generalizing begun m with
  | zero => exact .unreturned (hnothing m) nofun rfl
  | succ fuel ih =>
    cases hreached : goal.reached? begun m with
    | some reason =>
      rw [runFrom_reached hreached, attemptsFrom_reached hreached]
      exact .rests (hnothing m) nofun rfl
    | none =>
      obtain ⟨ended, m', hstep⟩ : ∃ ended m', m.step = (ended, m') := ⟨_, _, rfl⟩
      obtain ⟨inner, htold, hinner⟩ := step_told hstep
      cases ended with
      | ran =>
        rw [runFrom_ran hreached hstep, attemptsFrom_ran hreached hstep, completions_cons hstep]
        by_cases hbreak : m'.atBreakpoint = true
        · rw [if_pos hbreak, if_pos hbreak]
          exact .after htold hinner (.rests (hnothing m') nofun rfl)
        · rw [if_neg hbreak, if_neg hbreak]
          exact .after htold hinner (ih true m')
      | stopped stop =>
        rw [runFrom_stopped hreached hstep, attemptsFrom_last hreached hstep nofun,
          completions_cons hstep]
        exact .after htold hinner (.rests (hnothing m') nofun (m'.stateOf_isRest stop))
      | waiting =>
        rw [runFrom_waiting hreached hstep, attemptsFrom_last hreached hstep nofun,
          completions_cons hstep]
        exact .after htold hinner (.unreturned (hnothing m') nofun rfl)

theorem runTo_accounts (hstate : m.state.isTerminal = false) (goal : Goal) (fuel : Nat) :
    m.Accounts (completions (m.attemptsTo goal fuel)) (m.runTo goal fuel).1
      (m.runTo goal fuel).2 := by
  rw [attemptsTo, runTo, if_neg (by simp [hstate]), if_neg (by simp [hstate])]
  have hstart : m.Told { m with state := .running } [] [] := .silent rfl rfl ⟨rfl, rfl⟩
  exact .after hstart (List.forall_mem_nil _) (runFrom_accounts goal fuel false _)

theorem stepIn_accounts (hstate : m.state.isTerminal = false) :
    m.Accounts (completions [m]) m.stepIn.1 m.stepIn.2 := by
  obtain ⟨ended, m', hstep⟩ : ∃ ended m', m.step = (ended, m') := ⟨_, _, rfl⟩
  obtain ⟨inner, htold, hinner⟩ := step_told hstep
  rw [completions_cons hstep]
  have hnothing : m'.Told m' [] [] := .silent rfl rfl ⟨rfl, rfl⟩
  cases ended with
  | ran =>
    rw [stepIn_ran hstate hstep]
    exact .after htold hinner (.rests hnothing nofun rfl)
  | stopped stop =>
    rw [stepIn_stopped hstate hstep]
    exact .after htold hinner (.rests hnothing nofun (m'.stateOf_isRest stop))
  | waiting =>
    rw [stepIn_waiting hstate hstep]
    exact .after htold hinner (.unreturned hnothing nofun rfl)

end Runs

/-! ## Operations -/

/-- Every step and run accounts for what it attempts, on a machine that has not ended and with a
call to leave if it is to leave one. -/
theorem perform_accounts {operation : Operation} {progress : Progress}
    (hstate : m.state.isTerminal = false) (hleaves : m.leavesNoCall operation = false)
    (hanswer : m.answer? operation = some progress) :
    m.Accounts (completions (m.attempts operation)) progress (m.perform operation) := by
  cases operation with
  | stepIn =>
    obtain rfl := Option.some.inj hanswer
    rw [attempts, if_neg (by simp [hstate])]
    exact stepIn_accounts hstate
  | run fuel | runWhile condition fuel | runLimited limit fuel | stepOver fuel =>
    obtain rfl := Option.some.inj hanswer
    exact runTo_accounts hstate _ fuel
  | stepOut fuel =>
    obtain rfl := Option.some.inj hanswer
    have hdepth : m.calls.depth ≠ 0 := by simpa [leavesNoCall] using hleaves
    rw [perform, attempts, stepOut, if_neg hdepth, if_neg hdepth]
    exact runTo_accounts hstate _ fuel
  | resume goal begun fuel =>
    obtain rfl := Option.some.inj hanswer
    exact runFrom_accounts goal fuel begun m
  | _ => cases hanswer

/-- Whether an operation puts the machine back to the start of its program. -/
def Operation.restarts : Operation → Bool
  | .reset => true
  | _ => false

/-- Whether an operation leaves the observers to the machine. What they do by themselves is
described apart. -/
def Operation.keepsObservers : Operation → Bool
  | .setEvents _ => false
  | _ => true

theorem runTo_told (m : Machine) (goal : Goal) (fuel : Nat) :
    ∃ events, m.Told (m.runTo goal fuel).2 events (completions (m.attemptsTo goal fuel)) := by
  cases hstate : m.state.isTerminal with
  | true =>
    rw [runTo_ended hstate, attemptsTo, if_pos hstate]
    exact ⟨[], .silent rfl rfl ⟨rfl, rfl⟩⟩
  | false => exact (runTo_accounts hstate goal fuel).told

/-- What any operation but a reset tells, and what it completes. -/
theorem perform_told (m : Machine) {operation : Operation} (hreset : operation.restarts = false)
    (hobservers : operation.keepsObservers = true) :
    ∃ events, m.Told (m.perform operation) events (completions (m.attempts operation)) := by
  have hnothing : m.Told m [] [] := .silent rfl rfl ⟨rfl, rfl⟩
  cases operation with
  | stepIn =>
    rw [perform, attempts]
    cases hstate : m.state.isTerminal with
    | true =>
      rw [stepIn_ended hstate]
      exact ⟨[], hnothing⟩
    | false => exact (stepIn_accounts hstate).told
  | run fuel | runWhile condition fuel | runLimited limit fuel | stepOver fuel =>
    exact m.runTo_told _ fuel
  | stepOut fuel =>
    rw [perform, attempts, stepOut]
    by_cases hdepth : m.calls.depth = 0
    · rw [if_pos hdepth, if_pos hdepth]
      exact ⟨[], hnothing⟩
    · rw [if_neg hdepth, if_neg hdepth]
      exact m.runTo_told _ fuel
  | resume goal begun fuel => exact (runFrom_accounts goal fuel begun m).told
  | stop =>
    rw [perform, stop]
    cases hstate : m.state.isTerminal with
    | true => exact ⟨[], hnothing⟩
    | false =>
      have hrest : (ExecState.halted .stopped).isRest = true := rfl
      obtain ⟨last, htold, -⟩ := m.enter_told hrest
      exact ⟨[last], htold⟩
  | writeWord a value =>
    refine ⟨[], ?_⟩
    show m.Told (m.writeWord a value).2 [] []
    rw [writeWord_eq]
    cases m.memory.locateWritable a 4 with
    | ok place =>
      exact .silent rfl rfl ⟨m.memory.overwrite_start _ _, m.memory.overwrite_stop _ _⟩
    | error e => exact hnothing
  | setRegister | setPc | setConsole | setFlags | setBreakpoints =>
    exact ⟨[], .silent rfl rfl ⟨rfl, rfl⟩⟩
  | reset => cases hreset
  | setEvents => cases hobservers

end Machine

end MipsLab
