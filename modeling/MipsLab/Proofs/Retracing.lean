import MipsLab.Proofs.Background
import MipsLab.Proofs.Dialogue
import MipsLab.Proofs.Endings

/-!
# Steps that are retraced

A machine that gets its input while it runs goes, attempt by attempt, the way of a machine that has
all of it in advance and makes single steps. No read of it is cancelled, so an attempt waits for
input, or it is the next step of the other machine: it completes the same instruction, or ends in
the same state.

1. `Machine.Provided.going`: single steps with all input in advance.
2. `Machine.Retraces`: a machine has gone the way of the first steps of another one.
3. `Machine.Retraces.step`: what its next attempt comes to.
-/

namespace MipsLab

namespace Machine

variable {input : Input} {a a' m m' r : Machine} {ended : StepEnd} {j k : Nat}

/-! ## What steps keep -/

theorem Turn.breakpoints (h : m.Turn ended m') : m'.breakpoints = m.breakpoints := by
  cases h <;> rfl

theorem step_program (h : m.step = (ended, m')) : m'.program = m.program := by
  have hturn := m.step_turn
  rw [h] at hturn
  exact hturn.program

theorem step_breakpoints (h : m.step = (ended, m')) : m'.breakpoints = m.breakpoints := by
  have hturn := m.step_turn
  rw [h] at hturn
  exact hturn.breakpoints

theorem step_completed (h : m.step = (ended, m')) (hended : ended.isCompletion = true) :
    m'.completed = m.completed + 1 := by
  have hturn := m.step_turn
  rw [h] at hturn
  cases hturn with
  | rests hrests => exact nomatch hrests.symm.trans hended
  | completes | grows => rfl

theorem stepIn_kept (m : Machine) :
    m.stepIn.2.program = m.program ∧ m.stepIn.2.breakpoints = m.breakpoints := by
  cases hstate : m.state.isTerminal with
  | true =>
    rw [stepIn_ended hstate]
    exact ⟨rfl, rfl⟩
  | false =>
    obtain ⟨ended, m', hstep⟩ : ∃ ended m', m.step = (ended, m') := ⟨_, _, rfl⟩
    obtain ⟨state, events, hafter, -⟩ := stepIn_step hstate hstep
    rw [hafter]
    have hprogram := step_program hstep
    have hbreakpoints := step_breakpoints hstep
    exact ⟨hprogram, hbreakpoints⟩

theorem stepped_kept (m : Machine) (k : Nat) :
    (m.stepped k).program = m.program ∧ (m.stepped k).breakpoints = m.breakpoints := by
  induction k with
  | zero => exact ⟨rfl, rfl⟩
  | succ k ih =>
    obtain ⟨hprogram, hbreakpoints⟩ := (m.stepped k).stepIn_kept
    exact ⟨hprogram.trans ih.1, hbreakpoints.trans ih.2⟩

/-- A machine that has ended stays as it is. -/
theorem stepped_of_ended (h : (m.stepped j).state.isTerminal = true) (hle : j ≤ k) :
    m.stepped k = m.stepped j := by
  obtain ⟨d, rfl⟩ := Nat.exists_eq_add_of_le hle
  clear hle
  induction d with
  | zero => rfl
  | succ d ih =>
    show (m.stepped (j + d)).stepIn.2 = m.stepped j
    rw [ih, stepIn_ended h]

theorem going_of_le (h : (m.stepped k).state.isTerminal = false) (hle : j ≤ k) :
    (m.stepped j).state.isTerminal = false := by
  cases hj : (m.stepped j).state.isTerminal with
  | false => rfl
  | true =>
    rw [stepped_of_ended hj hle, hj] at h
    exact nomatch h

/-! ## All input in advance -/

/-- A machine at the start, to which no more input will come. -/
structure Provided (r : Machine) : Prop where
  console : r.console.IsCalm false
  completed : r.completed = 0
  state : r.state.isTerminal = false

/-- With all input in advance no step waits. -/
theorem isOwn_of_calm (h : m.console.IsCalm false) (hstep : m.step = (ended, m')) :
    m'.console.IsCalm false ∧ ended.isOwn = true := by
  obtain ⟨hconsole, hown | ⟨-, hopen⟩⟩ := step_calm h hstep
  · exact ⟨hconsole, hown⟩
  · exact nomatch hopen

theorem completion_of_own (hown : ended.isOwn = true) (hfinal : ended.isFinal = false) :
    ended.isCompletion = true := by
  cases ended with
  | ran => rfl
  | waiting => exact nomatch hown
  | stopped stop =>
    cases stop with
    | pause => rfl
    | cancelled => exact nomatch hown
    | halt | fault => exact nomatch hfinal

/-- As long as the machine goes on, each of its steps completes an instruction. -/
theorem Provided.going (hr : r.Provided) (h : (r.stepped k).state.isTerminal = false) :
    (r.stepped k).console.IsCalm false ∧ (r.stepped k).completed = k := by
  induction k with
  | zero => exact ⟨hr.console, hr.completed⟩
  | succ k ih =>
    have hbefore := going_of_le h (Nat.le_succ k)
    obtain ⟨hconsole, hcompleted⟩ := ih hbefore
    obtain ⟨ended, m', hstep⟩ : ∃ ended m', (r.stepped k).step = (ended, m') := ⟨_, _, rfl⟩
    obtain ⟨state, events, hafter, hfinal⟩ := stepIn_step hbefore hstep
    obtain ⟨hconsole', hown⟩ := isOwn_of_calm hconsole hstep
    have hnext : r.stepped (k + 1) = { m' with state, events } := hafter
    rw [hnext] at h ⊢
    have hcompletion := completion_of_own hown (hfinal.symm.trans h)
    exact ⟨hconsole', (step_completed hstep hcompletion).trans (by rw [hcompleted])⟩

/-- The step that ends the machine is the first one after which it has ended. -/
theorem last_unique (hj : (r.stepped j).state.isTerminal = false)
    (hj' : (r.stepped (j + 1)).state.isTerminal = true)
    (hk : (r.stepped k).state.isTerminal = false)
    (hk' : (r.stepped (k + 1)).state.isTerminal = true) : j = k := by
  have hle {j k : Nat} (hj' : (r.stepped (j + 1)).state.isTerminal = true)
      (hk : (r.stepped k).state.isTerminal = false) : k ≤ j := by
    refine Nat.le_of_not_lt fun hlt => ?_
    rw [going_of_le hk hlt] at hj'
    exact nomatch hj'
  exact Nat.le_antisymm (hle hk' hj) (hle hj' hk)

/-- A step may complete its instruction, or end the machine without. -/
theorem Provided.completed_next (hr : r.Provided) (h : (r.stepped k).state.isTerminal = false) :
    (r.stepped (k + 1)).completed = k ∨ (r.stepped (k + 1)).completed = k + 1 := by
  obtain ⟨ended, m', hstep⟩ : ∃ ended m', (r.stepped k).step = (ended, m') := ⟨_, _, rfl⟩
  obtain ⟨state, events, hafter, -⟩ := stepIn_step h hstep
  have hnext : r.stepped (k + 1) = { m' with state, events } := hafter
  have hturn := (r.stepped k).step_turn
  rw [hstep] at hturn
  rw [hnext, ← (hr.going h).2]
  cases hturn with
  | rests => exact .inl rfl
  | completes | grows => exact .inr rfl

/-! ## Going the same way -/

/-- A machine `a` has gone the way of the first `k` steps of a machine `r`, which have not ended it,
and will get the input that `r` has more than it. -/
structure Retraces (input : Input) (a r : Machine) (k : Nat) : Prop where
  going : (r.stepped k).state.isTerminal = false
  foresees : a.Foresees input (r.stepped k)
  console : ∃ isOpen, a.console.IsCalm isOpen
  program : a.program = r.program
  breakpoints : a.breakpoints = r.breakpoints

/-- What the next attempt of such a machine comes to. -/
inductive Outcome (input : Input) (r : Machine) (k : Nat) : StepEnd → Machine → Prop
  | waits {a' : Machine} (h : a'.Retraces input r k) (hopen : a'.console.IsCalm true) :
      Outcome input r k .waiting a'
  | ran {a' : Machine} (h : a'.Retraces input r (k + 1))
      (hstate : (r.stepped (k + 1)).state = .paused .step) : Outcome input r k .ran a'
  | pauses {a' : Machine} (h : a'.Retraces input r (k + 1))
      (hstate : (r.stepped (k + 1)).state = .paused .breakInstruction) :
      Outcome input r k (.stopped .pause) a'
  | ends {stop : Stop} {a' : Machine} (hterminal : (a'.stateOf stop).isTerminal = true)
      (hstate : (r.stepped (k + 1)).state = a'.stateOf stop)
      (hsame : a'.SameResults (r.stepped (k + 1))) : Outcome input r k (.stopped stop) a'

namespace Retraces

theorem restate (h : a.Retraces input r k) {state : ExecState} {events : EventBus} :
    Retraces input { a with state, events } r k :=
  ⟨h.going, h.foresees.restate rfl, h.console, h.program, h.breakpoints⟩

/-- Some of the input that was to come has come. -/
theorem arrive {arrival : Arrival} (h : a.Retraces (arrival :: input) r k) :
    Retraces input { a with console := a.console.arrive arrival } r k := by
  obtain ⟨isOpen, hcalm⟩ := h.console
  obtain ⟨hregisters, hpc, hmemory, hcompleted, hcalls, htrap, hconsole⟩ := h.foresees
  exact ⟨h.going, ⟨hregisters, hpc, hmemory, hcompleted, hcalls, htrap, hconsole.arrive⟩,
    ⟨_, hcalm.arrive arrival⟩, h.program, h.breakpoints⟩

theorem completed (hr : r.Provided) (h : a.Retraces input r k) : a.completed = k :=
  h.foresees.completed.symm.trans (hr.going h.going).2

theorem atBreakpoint (h : a.Retraces input r k) :
    a.atBreakpoint = (r.stepped k).atBreakpoint := by
  have hmeets : a.meets = (r.stepped k).meets := by
    funext b
    unfold meets
    rw [h.foresees.pc, h.foresees.registers, h.foresees.memory]
  rw [Machine.atBreakpoint, Machine.atBreakpoint, hmeets, h.breakpoints, (r.stepped_kept k).2]

/-- When all input has come, there is none left to wait for. -/
theorem closed (hr : r.Provided) (h : a.Retraces [] r k) : a.console.IsCalm false := by
  obtain ⟨isOpen, c, hc, hopen, hcancelled⟩ := h.console
  obtain ⟨d, hd, hdopen, -⟩ := (hr.going h.going).1
  have hconsole := h.foresees.console
  rw [hc, hd] at hconsole
  cases hconsole with
  | channel hchannel =>
    have hsame : d.isOpen = (c.isOpen && true) := hchannel.isOpen
    rw [hdopen, Bool.and_true] at hsame
    exact ⟨c, hc, hsame.symm, hcancelled⟩

/-- An instruction that is completed is completed by the other machine, too. -/
theorem completes (h : a.Retraces input r k) (hstep : a.step = (ended, a'))
    (hended : ended.isCompletion = true) :
    ∃ r', (r.stepped k).step = (ended, r') ∧ a'.Foresees input r' := by
  have hreplays := h.foresees.step
  rw [hstep] at hreplays
  generalize hr : (r.stepped k).step = other at hreplays
  cases hreplays with
  | completes hafter => exact ⟨_, rfl, hafter⟩
  | rests hrests => exact nomatch hrests.symm.trans hended
  | fails => exact nomatch hended

/-- An instruction that faults faults there, too, and changes nothing in either machine. -/
theorem faults (h : a.Retraces input r k) {e : ExecError}
    (hstep : a.step = (.stopped (.fault e), a')) :
    ∃ r', (r.stepped k).step = (.stopped (.fault e), r') ∧ a'.SameResults r' := by
  have hfault := h.foresees.step_fault (congrArg Prod.fst hstep)
  have hr : (r.stepped k).step = (.stopped (.fault e), (r.stepped k).step.2) := Prod.ext hfault rfl
  refine ⟨_, hr, ?_⟩
  obtain ⟨ha, houtput⟩ := step_of_not_completion hstep rfl
  obtain ⟨hr', houtput'⟩ := step_of_not_completion hr rfl
  obtain ⟨hregisters, hpc, hmemory, hcalls, hsame, hcompleted⟩ := h.foresees.sameResults
  rw [ha, hr']
  exact ⟨hregisters, hpc, hmemory, hcalls, houtput'.trans (hsame.trans houtput.symm), hcompleted⟩

/-- A machine that has completed an instruction which does not end it has gone one step further. -/
theorem advance (h : a.Retraces input r k) (hstep : a.step = (ended, a')) {r' : Machine}
    {state : ExecState} {events : EventBus} (hnext : r.stepped (k + 1) = { r' with state, events })
    (hstate : state.isTerminal = false) (hafter : a'.Foresees input r') :
    a'.Retraces input r (k + 1) := by
  obtain ⟨isOpen, hcalm⟩ := h.console
  refine ⟨?_, ?_, ⟨isOpen, (step_calm hcalm hstep).1⟩, (step_program hstep).trans h.program,
    (step_breakpoints hstep).trans h.breakpoints⟩
  · rw [hnext]
    exact hstate
  · rw [hnext]
    exact ⟨hafter.registers, hafter.pc, hafter.memory, hafter.completed, hafter.calls,
      hafter.trap, hafter.console⟩

/-- The attempt of a machine that retraces the steps of another one waits, or is its next step. -/
theorem step (hr : r.Provided) (h : a.Retraces input r k) (hstep : a.step = (ended, a')) :
    Outcome input r k ended a' := by
  obtain ⟨isOpen, hcalm⟩ := h.console
  obtain ⟨hcalm', hends⟩ := step_calm hcalm hstep
  -- The other machine enters the same state, as that depends only on what the two have in common.
  have hends_same {stop : Stop} {r' : Machine} (hr' : (r.stepped k).step = (.stopped stop, r'))
      (ha : a.step = (.stopped stop, a')) (hsame : a'.SameResults r')
      (hfinal : (StepEnd.stopped stop).isFinal = true) : Outcome input r k (.stopped stop) a' := by
    have hnext : r.stepped (k + 1) = r'.enter (r'.stateOf stop) :=
      congrArg Prod.snd (stepIn_stopped h.going hr')
    have hprogram : r'.program = a'.program := by
      rw [step_program hr', step_program ha, h.program, (r.stepped_kept k).1]
    have hstate : r'.stateOf stop = a'.stateOf stop := by
      unfold stateOf faultOf
      rw [hprogram, hsame.pc]
    refine .ends ((a'.stateOf_isTerminal stop).trans hfinal) ?_ ?_
    · rw [hnext, ← hstate]
      rfl
    · rw [hnext]
      exact ⟨hsame.registers, hsame.pc, hsame.memory, hsame.calls, hsame.output, hsame.completed⟩
  cases ended with
  | ran =>
    obtain ⟨r', hr', hafter⟩ := h.completes hstep rfl
    have hnext : r.stepped (k + 1) = r'.enter (.paused .step) :=
      congrArg Prod.snd (stepIn_ran h.going hr')
    exact .ran (h.advance hstep hnext rfl hafter) (by rw [hnext]; rfl)
  | waiting =>
    obtain hown | ⟨-, rfl⟩ := hends
    · exact nomatch hown
    · have hreplays := h.foresees.step
      rw [hstep] at hreplays
      generalize hother : (r.stepped k).step = other at hreplays
      cases hreplays with
      | completes =>
        exact nomatch (isOwn_of_calm (hr.going h.going).1 hother).2
      | rests _ hafter =>
        exact .waits ⟨h.going, hafter, ⟨true, hcalm'⟩, (step_program hstep).trans h.program,
          (step_breakpoints hstep).trans h.breakpoints⟩ hcalm'
  | stopped stop =>
    have hown : (StepEnd.stopped stop).isOwn = true := hends.resolve_right (nomatch ·.1)
    cases stop with
    | pause =>
      obtain ⟨r', hr', hafter⟩ := h.completes hstep rfl
      have hnext : r.stepped (k + 1) = r'.enter (.paused .breakInstruction) :=
        congrArg Prod.snd (stepIn_stopped h.going hr')
      exact .pauses (h.advance hstep hnext rfl hafter) (by rw [hnext]; rfl)
    | halt reason =>
      obtain ⟨r', hr', hafter⟩ := h.completes hstep rfl
      exact hends_same hr' hstep hafter.sameResults rfl
    | fault e =>
      obtain ⟨r', hr', hsame⟩ := h.faults hstep
      exact hends_same hr' hstep hsame rfl
    | cancelled => exact nomatch hown

/-- A machine at the start, compared with the same machine with its input in advance. -/
theorem start (hstate : a.state.isTerminal = false) (hconsole : a.console = .channel {})
    (hends : input.ends = true) :
    a.Retraces input
      { a with console := .channel { arrived := input.bytes, isOpen := false } } 0 where
  going := hstate
  foresees := by
    refine ⟨rfl, rfl, rfl, rfl, rfl, rfl, ?_⟩
    rw [hconsole]
    refine .channel ⟨?_, rfl, rfl, [], List.not_mem_nil, rfl, rfl⟩
    rw [hends]
    rfl
  console := ⟨true, {}, hconsole, rfl, rfl⟩
  program := rfl
  breakpoints := rfl

end Retraces

end Machine

end MipsLab
