import MipsLab.Proofs.Reloading

/-!
# Machines that have ended

A machine that has halted or faulted stays as it is, whatever steps and runs are asked of it, and
tells how it has ended. Two things differ from this:

* Leaving a call asks first whether a call is open. If none is, nothing is told about a fault
  (`Machine.stepOut_forgets_fault`).
* Loading and resetting put the machine back to the start of a program.

1. `Machine.runTo_ended`, `Machine.stepIn_ended`, `Machine.stop_ended`: the guards.
2. `Machine.unreturned_not_ended`: a call that has not returned leaves a machine that has not ended,
   so there is none to go on with.
3. `Machine.ended_absorbing`: nothing but a restart leads out of such a state.
-/

namespace MipsLab

/-- Whether a call has returned. -/
def Progress.hasReturned : Progress → Bool
  | ended _ => true
  | waiting | unfinished => false

namespace Machine

/-! ## Calls -/

/-- What makes a machine execute, or ends that: a step, a run or a stop. Going on with a run that
has not returned is part of the call that began it. -/
def Operation.isCall : Operation → Bool
  | .stepIn | .run _ | .runWhile _ _ | .runLimited _ _ | .stepOver _ | .stepOut _ | .stop => true
  | _ => false

/-- The answer of a call that returns a result. A stop returns nothing. -/
def Operation.returns (call : Operation) (result : Except Fault Unit) : Option Progress :=
  match call with
  | .stop => none
  | _ => some (.ended result)

/-- Whether a call would leave an open call of the program where there is none. -/
def leavesNoCall (m : Machine) : Operation → Bool
  | .stepOut _ => m.calls.depth = 0
  | _ => false

variable {m : Machine}

/-! ## The guards -/

theorem runTo_ended (h : m.state.isTerminal = true) (goal : Goal) (fuel : Nat) :
    m.runTo goal fuel = (.ended m.state.result, m) := by
  rw [runTo, if_pos h]

theorem stepIn_ended (h : m.state.isTerminal = true) :
    m.stepIn = (.ended m.state.result, m) := by
  rw [stepIn, if_pos h]

theorem stop_ended (h : m.state.isTerminal = true) : m.stop = m := by
  rw [stop, if_pos h]

/-- The guard of this call stands behind a condition of its own. -/
theorem stepOut_ended (h : m.state.isTerminal = true) (fuel : Nat) :
    m.stepOut fuel =
      (.ended (if m.leavesNoCall (.stepOut fuel) then .ok () else m.state.result), m) := by
  unfold stepOut leavesNoCall
  by_cases hdepth : m.calls.depth = 0
  · simp [hdepth]
  · rw [if_neg hdepth, runTo_ended h]
    simp [hdepth]

/-- A call on a machine that has ended. -/
theorem call_ended (h : m.state.isTerminal = true) {call : Operation}
    (hcall : call.isCall = true) :
    m.perform call = m ∧
      m.answer? call = call.returns (if m.leavesNoCall call then .ok () else m.state.result) := by
  cases call with
  | stepIn =>
    rw [perform, answer?, stepIn_ended h]
    exact ⟨rfl, rfl⟩
  | run fuel | runWhile condition fuel | runLimited limit fuel | stepOver fuel =>
    refine ⟨congrArg Prod.snd (runTo_ended h _ fuel), ?_⟩
    exact congrArg (some ·.1) (runTo_ended h _ fuel)
  | stepOut fuel =>
    rw [perform, answer?, stepOut_ended h]
    exact ⟨rfl, rfl⟩
  | stop => exact ⟨stop_ended h, rfl⟩
  | _ => exact nomatch hcall

/-- Any number of calls: the machine is the same before each of them. -/
theorem calls_ended (h : m.state.isTerminal = true) {calls : List Operation}
    (hcalls : ∀ call ∈ calls, call.isCall = true) :
    m.after calls = m ∧
      m.answers calls = calls.map fun call =>
        call.returns (if m.leavesNoCall call then .ok () else m.state.result) := by
  induction calls with
  | nil => exact ⟨rfl, rfl⟩
  | cons call calls ih =>
    obtain ⟨hcall, hcalls⟩ := List.forall_mem_cons.mp hcalls
    obtain ⟨hperform, hanswer⟩ := call_ended h hcall
    obtain ⟨hafter, hanswers⟩ := ih hcalls
    constructor
    · show (m.perform call).after calls = m
      rw [hperform, hafter]
    · rw [answers, hperform, hanswer, hanswers, List.map_cons]

/-! ## Calls that have not returned -/

/-- A run that has not returned is in the state in which it began. The induction is on the number of
attempts, none of which changes the state. -/
theorem runFrom_unreturned {goal : Goal} {fuel : Nat} {begun : Bool}
    (h : (runFrom goal fuel begun m).1.hasReturned = false) :
    (runFrom goal fuel begun m).2.state = m.state := by
  induction fuel generalizing begun m with
  | zero => rfl
  | succ fuel ih =>
    cases hreached : goal.reached? begun m with
    | some reason =>
      rw [runFrom_reached hreached] at h
      exact nomatch h
    | none =>
      obtain ⟨ended, m', hstep⟩ : ∃ ended m', m.step = (ended, m') := ⟨_, _, rfl⟩
      have hturn := step_turn m
      rw [hstep] at hturn
      cases ended with
      | ran =>
        rw [runFrom_ran hreached hstep] at h ⊢
        split at h
        · exact nomatch h
        · rw [if_neg ‹_›, ih h, hturn.state]
      | stopped stop =>
        rw [runFrom_stopped hreached hstep] at h
        exact nomatch h
      | waiting =>
        rw [runFrom_waiting hreached hstep]
        exact hturn.state

theorem runTo_unreturned {goal : Goal} {fuel : Nat}
    (h : (m.runTo goal fuel).1.hasReturned = false) :
    (m.runTo goal fuel).2.state = .running := by
  unfold runTo at h ⊢
  split at h
  · exact nomatch h
  · rw [if_neg ‹_›]
    exact runFrom_unreturned h

theorem stepIn_unreturned (h : m.stepIn.1.hasReturned = false) :
    m.stepIn.2.state = m.state ∧ m.state.isTerminal = false := by
  cases hterminal : m.state.isTerminal with
  | true =>
    rw [stepIn_ended hterminal] at h
    exact nomatch h
  | false =>
    obtain ⟨ended, m', hstep⟩ : ∃ ended m', m.step = (ended, m') := ⟨_, _, rfl⟩
    have hturn := step_turn m
    rw [hstep] at hturn
    cases ended with
    | ran =>
      rw [stepIn_ran hterminal hstep] at h
      exact nomatch h
    | stopped stop =>
      rw [stepIn_stopped hterminal hstep] at h
      exact nomatch h
    | waiting =>
      rw [stepIn_waiting hterminal hstep]
      exact ⟨hturn.state, rfl⟩

/-- A call that has not returned, or has been gone on with and still has not, leaves a machine that
has not ended. So what is gone on with is never the call of a machine that has. -/
theorem unreturned_not_ended {operation : Operation} {progress : Progress}
    (hanswer : m.answer? operation = some progress) (h : progress.hasReturned = false)
    (hresume : operation.isCall = true ∨ m.state.isTerminal = false) :
    (m.perform operation).state.isTerminal = false := by
  have hrunning {goal : Goal} {fuel : Nat} (hto : (m.runTo goal fuel).1 = progress) :
      (m.runTo goal fuel).2.state.isTerminal = false := by
    rw [runTo_unreturned (by rw [hto, h])]
    rfl
  cases operation with
  | stepIn =>
    obtain rfl := Option.some.inj hanswer
    obtain ⟨hstate, hnot⟩ := stepIn_unreturned h
    rw [perform, hstate, hnot]
  | run fuel | runWhile condition fuel | runLimited limit fuel | stepOver fuel =>
    exact hrunning (Option.some.inj hanswer)
  | stepOut fuel =>
    have hanswer := Option.some.inj hanswer
    rw [perform]
    unfold stepOut at hanswer ⊢
    split at hanswer
    · subst hanswer
      exact nomatch h
    · rw [if_neg ‹_›]
      exact hrunning hanswer
  | resume goal begun fuel =>
    obtain rfl := Option.some.inj hanswer
    rw [perform, runFrom_unreturned h]
    exact hresume.resolve_left nofun
  | _ => exact nomatch hanswer

/-! ## What leads out of the end -/

/-- What can be asked of a machine that has ended, beside loading: everything but a reset, and but
going on with a call, of which there is none. -/
def Operation.keepsEnd : Operation → Bool
  | .reset | .resume _ _ _ => false
  | _ => true

theorem perform_state (h : m.state.isTerminal = true) {operation : Operation}
    (hoperation : operation.keepsEnd = true) : (m.perform operation).state = m.state := by
  cases operation with
  | stepIn | run | runWhile | runLimited | stepOver | stepOut | stop => rw [(call_ended h rfl).1]
  | writeWord a value =>
    show (m.writeWord a value).2.state = m.state
    rw [writeWord_eq]
    cases m.memory.locateWritable a 4 <;> rfl
  | setRegister | setPc | setConsole | setFlags | setBreakpoints | setEvents => rfl
  | reset | resume => exact nomatch hoperation

theorem after_state (h : m.state.isTerminal = true) {operations : List Operation}
    (hoperations : ∀ operation ∈ operations, operation.keepsEnd = true) :
    (m.after operations).state = m.state := by
  induction operations generalizing m with
  | nil => rfl
  | cons operation operations ih =>
    obtain ⟨hoperation, hoperations⟩ := List.forall_mem_cons.mp hoperations
    have hstate := perform_state h hoperation
    have hrest : ((m.perform operation).after operations).state = (m.perform operation).state :=
      ih (by rw [hstate, h]) hoperations
    exact hrest.trans hstate

/-- Whatever calls are made on a machine that has halted or faulted, in any order, it is the same
machine as before: in its state, its registers, its memory, its address, its open calls, its count
of instructions, its console and what its observers have been told. A halted machine answers each
call without a fault, and a faulted one with its fault, but for leaving a call where none is open,
which answers without. Whatever else is done to it, only loading and resetting lead to another
state. -/
theorem ended_absorbing (m : Machine) :
    (∀ reason, m.state = .halted reason →
      ∀ calls : List Operation, (∀ call ∈ calls, call.isCall = true) →
        m.after calls = m ∧ m.answers calls = calls.map (·.returns (.ok ()))) ∧
    (∀ fault, m.state = .faulted fault →
      ∀ calls : List Operation, (∀ call ∈ calls, call.isCall = true) →
        m.after calls = m ∧
          m.answers calls = calls.map fun call =>
            call.returns (if m.leavesNoCall call then .ok () else .error fault)) ∧
    (m.state.isTerminal = true →
      ∀ operations : List Operation, (∀ operation ∈ operations, operation.keepsEnd = true) →
        (m.after operations).state = m.state) ∧
    m.reset.state = .loaded ∧ ∀ p, (m.load p).state = .loaded := by
  refine ⟨fun reason hstate calls hcalls => ?_, fun fault hstate calls hcalls => ?_,
    fun h operations => after_state h, rfl, fun p => rfl⟩
  · have h := calls_ended (m := m) (by rw [hstate]; rfl) hcalls
    simpa only [hstate, ExecState.result, ite_self] using h
  · have h := calls_ended (m := m) (by rw [hstate]; rfl) hcalls
    simpa only [hstate, ExecState.result] using h

/-- Calls of all kinds on a machine that has run past the end of its program, of which the last asks
for a call to be left. -/
theorem ended_absorbing_faulted :
    let m := ((fresh { stackBudget := 8 } (assemble (.ofString "main: nop")).program).run 2).2
    let fault : Fault := { pc := 0x00400004, line := none, error := .pcOutsideText 0x00400004 }
    let calls : List Operation :=
      [.stepIn, .run 3, .stop, .runLimited 2 3, .stepOver 3, .runWhile (fun _ => true) 3,
        .stepOut 3]
    m.state = .faulted fault ∧ m.after calls = m ∧
      m.answers calls =
        [some (.ended (.error fault)), some (.ended (.error fault)), none,
          some (.ended (.error fault)), some (.ended (.error fault)),
          some (.ended (.error fault)), some (.ended (.ok ()))] ∧
      (m.after [.setRegister Reg.v0 1, .setPc 0x00400000]).state = m.state := by
  intro m fault calls
  have hstate : m.state = .faulted fault := by decide +kernel
  have hdepth : m.calls.depth = 0 := by decide +kernel
  obtain ⟨-, hfaulted, hkept, -⟩ := ended_absorbing m
  obtain ⟨hafter, hanswers⟩ := hfaulted fault hstate calls (by simp [calls, Operation.isCall])
  refine ⟨hstate, hafter, ?_, hkept (by rw [hstate]; rfl) _ (by simp [Operation.keepsEnd])⟩
  rw [hanswers]
  simp [calls, Operation.returns, leavesNoCall, hdepth]

/-- Every call on a faulted machine answers with the fault. -/
def FaultsAgain : Prop :=
  ∀ (m : Machine) (fault : Fault), m.state = .faulted fault →
    ∀ call : Operation, call.isCall = true → m.answer? call = call.returns (.error fault)

/-- On the machine that has run past the end of its program, leaving a call does not. -/
theorem stepOut_forgets_fault : ¬ FaultsAgain := by
  intro h
  let m := ((fresh { stackBudget := 8 } (assemble (.ofString "main: nop")).program).run 2).2
  let fault : Fault := { pc := 0x00400004, line := none, error := .pcOutsideText 0x00400004 }
  have hstate : m.state = .faulted fault := by decide +kernel
  have hdepth : m.calls.depth = 0 := by decide +kernel
  have hagain := h m fault hstate (.stepOut 1) rfl
  rw [answer?, stepOut, if_pos hdepth] at hagain
  exact nomatch hagain

end Machine

end MipsLab
