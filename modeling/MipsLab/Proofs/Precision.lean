import MipsLab.Assembly
import MipsLab.Proofs.Operations

/-!
# Instructions that are not completed

A fault or a cancelled read leaves the machine as it was before the instruction, apart from the
input that has been used up, the state and the event that tells of it.

This is not built into the way instructions are executed: they work on the machine in place, and
`Machine.carryOut` keeps what they have changed when they fail, and puts back the address alone. It
holds because no instruction and no service changes anything but the input before its last check,
as `Machine.execute_eq_outcome` says of each of them.

1. `Machine.step_of_not_completion`: the attempt itself changes nothing but the input.
2. `Machine.EndsUnchanged`: what a single step and a run make of such an attempt.
3. `Machine.faults_and_cancellations_precise`: both kinds of attempt end so.
-/

namespace MipsLab

namespace Machine

variable {m m' : Machine}

/-- An attempt that does not complete its instruction leaves all but the input as it was. -/
theorem step_of_not_completion {ended : StepEnd} (h : m.step = (ended, m'))
    (hended : ended.isCompletion = false) :
    m' = { m with console := m'.console } ∧ m'.console.output = m.console.output := by
  have hturn := m.step_turn
  rw [h] at hturn
  cases hturn with
  | rests _ houtput => exact ⟨rfl, houtput⟩
  | completes hcompletion => exact absurd (hcompletion.symm.trans hended) (by decide)
  | grows => exact nomatch hended

/-- The attempt at an instruction, which leads from `m` to `m'`, has changed nothing but the input
and written nothing. A single step and a run both end with it in a state, at the address of the
instruction and with one event. -/
structure EndsUnchanged (m m' : Machine) (state : ExecState) (event : Event) : Prop where
  unchanged : m' = { m with console := m'.console }
  output : m'.console.output = m.console.output
  stepIn : m.state.isTerminal = false →
    m.stepIn = (.ended state.result,
      { m with console := m'.console, state, events := m.events.emit event })
  runFrom : ∀ goal begun fuel, goal.reached? begun m = none →
    runFrom goal (fuel + 1) begun m = (.ended state.result,
      { m with console := m'.console, state, events := m.events.emit event })

theorem endsUnchanged_of_step {stop : Stop} {event : Event}
    (h : m.step = (.stopped stop, m')) (hstop : (StepEnd.stopped stop).isCompletion = false)
    (hevent : Event.ofState? m.pc (m.stateOf stop) = some event) :
    m.EndsUnchanged m' (m.stateOf stop) event := by
  obtain ⟨hunchanged, houtput⟩ := step_of_not_completion h hstop
  -- The state is worked out after the attempt, from parts that are as they were before it.
  have hend : m'.endIn (m'.stateOf stop) = (.ended (m.stateOf stop).result,
      { m with
        console := m'.console, state := m.stateOf stop, events := m.events.emit event }) := by
    have hstate : m'.stateOf stop = m.stateOf stop := by
      rw [hunchanged]
      cases stop <;> rfl
    rw [hstate, endIn, enter, hunchanged]
    simp only [hevent]
  refine ⟨hunchanged, houtput, fun hstate => ?_, fun goal begun fuel hreached => ?_⟩
  · rw [stepIn_stopped hstate h, hend]
  · rw [runFrom_stopped hreached h, hend]

/-- Faults and cancelled reads change nothing. The fault tells the address and the line of the
instruction, and a cancelled read leads to a pause. -/
theorem faults_and_cancellations_precise (m m' : Machine) :
    (∀ e, m.step = (.stopped (.fault e), m') →
      let f : Fault := { pc := m.pc, line := m.program.bind (·.lineAt? m.pc), error := e }
      m.EndsUnchanged m' (.faulted f) (.faulted f)) ∧
    (m.step = (.stopped .cancelled, m') →
      m.EndsUnchanged m' (.paused .readCancelled) (.readCancelled m.pc)) :=
  ⟨fun _ h => endsUnchanged_of_step h rfl rfl, fun h => endsUnchanged_of_step h rfl rfl⟩

/-- Reading an integer when the input is closed, and when the read is cancelled. -/
theorem faults_and_cancellations_precise_read :
    let p := (assemble (.ofString "li $v0, 5\nsyscall")).program
    let m := ((create { stackBudget := 0 }).load p).stepIn.2
    let f : Fault := ⟨0x00400004, some 2, .inputClosed⟩
    let cancelled (_ : Nat) : ReadOutcome Int := .failed .cancelled
    let script : Script := ⟨fun _ => .waiting, fun _ => .waiting, cancelled, 0, {}⟩
    let m₂ := { m with console := .foreign script }
    m.EndsUnchanged m.step.2 (.faulted f) (.faulted f) ∧
      m₂.EndsUnchanged m₂.step.2 (.paused .readCancelled) (.readCancelled 0x00400004) := by
  intro p m f cancelled script m₂
  have hfault : m.step.1 = .stopped (.fault .inputClosed) := by decide +kernel
  have hf : Fault.mk m.pc (m.program.bind (·.lineAt? m.pc)) .inputClosed = f := by decide +kernel
  have hcancelled : m₂.step.1 = .stopped .cancelled := by decide +kernel
  have hpc : m₂.pc = 0x00400004 := by decide +kernel
  have h := (faults_and_cancellations_precise m m.step.2).1 .inputClosed (Prod.ext hfault rfl)
  have h₂ := (faults_and_cancellations_precise m₂ m₂.step.2).2 (Prod.ext hcancelled rfl)
  rw [hpc] at h₂
  exact ⟨hf ▸ h, h₂⟩

end Machine

end MipsLab
