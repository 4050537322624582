import MipsLab.Proofs.Steps

/-!
# Whatever is done to a machine

The operations that a machine offers, and what has to be shown of a property so that it outlasts
all runs and all sequences of operations.

1. `Machine.Kept.runFrom`, `Machine.Kept.perform`: a property that is kept by every move of a run is
   kept by runs of any length towards any goal, and by all operations that let the machine run.
2. `Machine.after_induction`: what every operation keeps holds after any sequence of them.
-/

namespace MipsLab

namespace Machine

/-! ## Operations -/

/-- What can be done to a machine that has a program, beside loading another one. -/
inductive Operation
  | stepIn
  | run (fuel : Nat)
  | runWhile (condition : Machine → Bool) (fuel : Nat)
  | runLimited (limit fuel : Nat)
  | stepOver (fuel : Nat)
  | stepOut (fuel : Nat)
  /-- Goes on with a run that waits for input or has made all its attempts. What a caller does
  between two attempts of a run is some operations between two of these. -/
  | resume (goal : Goal) (begun : Bool) (fuel : Nat)
  | stop
  | setRegister (r : Reg) (value : Word)
  | setPc (pc : Address)
  | writeWord (a : Address) (value : Word)
  | reset
  /-- Input arrives or ends, a read is cancelled, or another console is put in place. -/
  | setConsole (console : Console)
  | setFlags (flags : Flags)
  | setBreakpoints (breakpoints : List Breakpoint)
  /-- Observers come, go and take events. -/
  | setEvents (events : EventBus)

/-- A machine after an operation. -/
def perform (m : Machine) : Operation → Machine
  | .stepIn => m.stepIn.2
  | .run fuel => (m.run fuel).2
  | .runWhile condition fuel => (m.runWhileTrue condition fuel).2
  | .runLimited limit fuel => (m.runLimited limit fuel).2
  | .stepOver fuel => (m.stepOver fuel).2
  | .stepOut fuel => (m.stepOut fuel).2
  | .resume goal begun fuel => (runFrom goal fuel begun m).2
  | .stop => m.stop
  | .setRegister r value => m.setRegister r value
  | .setPc pc => m.setPc pc
  | .writeWord a value => (m.writeWord a value).2
  | .reset => m.reset
  | .setConsole console => { m with console }
  | .setFlags flags => { m with flags }
  | .setBreakpoints breakpoints => { m with breakpoints }
  | .setEvents events => { m with events }

/-- Whether an operation lets a machine run or ends its runs. The others change it from outside. -/
def Operation.isRun : Operation → Bool
  | .stepIn | .run _ | .runWhile _ _ | .runLimited _ _ | .stepOver _ | .stepOut _ | .resume _ _ _
  | .stop => true
  | _ => false

/-- A machine after some operations. -/
def after (m : Machine) (operations : List Operation) : Machine := operations.foldl perform m

/-- What holds at first and is kept by every operation holds after any sequence of them. -/
theorem after_induction {P : Machine → Prop}
    (hperform : ∀ m operation, P m → P (m.perform operation)) {m : Machine} (h : P m)
    (operations : List Operation) : P (m.after operations) := by
  unfold after
  induction operations generalizing m with
  | nil => exact h
  | cons operation operations ih => exact ih (hperform m operation h)

/-! ## Moves of runs and steps -/

section Moves

variable {goal : Goal} {begun : Bool} {m m' : Machine}

theorem runFrom_reached {reason : PauseReason} (h : goal.reached? begun m = some reason)
    (fuel : Nat) : runFrom goal (fuel + 1) begun m = m.endIn (.paused reason) := by
  rw [runFrom, h]

theorem runFrom_ran (h : goal.reached? begun m = none) (hstep : m.step = (.ran, m'))
    (fuel : Nat) :
    runFrom goal (fuel + 1) begun m =
      if m'.atBreakpoint then m'.endIn (.paused .breakpoint) else runFrom goal fuel true m' := by
  rw [runFrom, h, attempt, hstep]
  by_cases hb : m'.atBreakpoint <;> simp [hb]

theorem runFrom_stopped {stop : Stop} (h : goal.reached? begun m = none)
    (hstep : m.step = (.stopped stop, m')) (fuel : Nat) :
    runFrom goal (fuel + 1) begun m = m'.endIn (m'.stateOf stop) := by
  rw [runFrom, h, attempt, hstep]

theorem runFrom_waiting (h : goal.reached? begun m = none) (hstep : m.step = (.waiting, m'))
    (fuel : Nat) : runFrom goal (fuel + 1) begun m = (.waiting, m') := by
  rw [runFrom, h, attempt, hstep]

theorem stepIn_ran (hstate : m.state.isTerminal = false) (hstep : m.step = (.ran, m')) :
    m.stepIn = m'.endIn (.paused .step) := by
  rw [stepIn, hstate, hstep]
  rfl

theorem stepIn_stopped {stop : Stop} (hstate : m.state.isTerminal = false)
    (hstep : m.step = (.stopped stop, m')) : m.stepIn = m'.endIn (m'.stateOf stop) := by
  rw [stepIn, hstate, hstep]
  rfl

theorem stepIn_waiting (hstate : m.state.isTerminal = false) (hstep : m.step = (.waiting, m')) :
    m.stepIn = (.waiting, m') := by
  rw [stepIn, hstate, hstep]
  rfl

end Moves

/-! ## Properties that outlast runs -/

/-- A property is kept by every move of a run. -/
structure Kept (P : Machine → Prop) : Prop where
  starts : ∀ {m}, P m → P { m with state := .running }
  /-- An attempt leads on, or waits. -/
  goesOn : ∀ {m m' ended}, P m → m.step = (ended, m') → P m'
  /-- An attempt ends a run. -/
  stops : ∀ {m m' stop}, P m → m.step = (.stopped stop, m') → P (m'.enter (m'.stateOf stop))
  pauses : ∀ {m} reason, P m → P (m.enter (.paused reason))
  halts : ∀ {m}, P m → P (m.enter (.halted .stopped))

namespace Kept

variable {P : Machine → Prop} {m : Machine}

/-- Induction on the number of attempts: each of them leads on, or ends the run. -/
theorem runFrom (h : Kept P) (goal : Goal) (fuel : Nat) (begun : Bool) (hm : P m) :
    P (Machine.runFrom goal fuel begun m).2 := by
  induction fuel generalizing begun m with
  | zero => exact hm
  | succ fuel ih =>
    cases hreached : goal.reached? begun m with
    | some reason =>
      rw [runFrom_reached hreached]
      exact h.pauses reason hm
    | none =>
      obtain ⟨ended, m', hstep⟩ : ∃ ended m', m.step = (ended, m') := ⟨_, _, rfl⟩
      have hm' := h.goesOn hm hstep
      cases ended with
      | ran =>
        rw [runFrom_ran hreached hstep]
        split
        · exact h.pauses .breakpoint hm'
        · exact ih true hm'
      | stopped stop =>
        rw [runFrom_stopped hreached hstep]
        exact h.stops hm hstep
      | waiting =>
        rw [runFrom_waiting hreached hstep]
        exact hm'

theorem runTo (h : Kept P) (goal : Goal) (fuel : Nat) (hm : P m) : P (m.runTo goal fuel).2 := by
  unfold Machine.runTo
  split
  · exact hm
  · exact h.runFrom goal fuel false (h.starts hm)

theorem stepIn (h : Kept P) (hm : P m) : P m.stepIn.2 := by
  unfold Machine.stepIn
  split
  · exact hm
  · split
    · next m' hstep => exact h.pauses .step (h.goesOn hm hstep)
    · next stop m' hstep => exact h.stops hm hstep
    · next m' hstep => exact h.goesOn hm hstep

theorem stop (h : Kept P) (hm : P m) : P m.stop := by
  unfold Machine.stop
  split
  · exact hm
  · exact h.halts hm

theorem stepOut (h : Kept P) (fuel : Nat) (hm : P m) : P (m.stepOut fuel).2 := by
  unfold Machine.stepOut
  split
  · exact hm
  · exact h.runTo _ fuel hm

theorem perform (h : Kept P) {operation : Operation} (hrun : operation.isRun = true) (hm : P m) :
    P (m.perform operation) := by
  cases operation with
  | stepIn => exact h.stepIn hm
  | run fuel | runWhile condition fuel | runLimited limit fuel | stepOver fuel =>
    exact h.runTo _ fuel hm
  | stepOut fuel => exact h.stepOut fuel hm
  | resume goal begun fuel => exact h.runFrom goal fuel begun hm
  | stop => exact h.stop hm
  | _ => exact nomatch hrun

end Kept

end Machine

end MipsLab
