import MipsLab.Assembly
import MipsLab.Proofs.Operations

/-!
# Runs are iterated steps

A run takes a machine as far as single steps would, up to the first one after which there is a
reason to stop.

1. `Machine.InstructionsIgnore.step`: the attempt at an instruction depends on nothing that no
   instruction looks at.
2. `Machine.core_step`: so it depends on neither the state nor the observers of a machine, and
   running and stepping can be compared in spite of their different states.
3. `Machine.restAfter?`: the reason to stop after a number of steps, if there is one.
4. `Machine.runFrom_endsLike`: a run comes to rest at the first of these reasons.
5. `Machine.run_iterates_stepIn`: the same for runs with and without a limit.
-/

namespace MipsLab

namespace Machine

/-! ## Attempts do not look at the state -/

/-- A machine without its state and its observers. -/
def core (m : Machine) : Machine := { m with state := .loaded, events := {} }

/-- Two machines have the same registers, memory, address, program, open calls, flags, breakpoints
and console, and have completed as many instructions. -/
def Agrees (a b : Machine) : Prop := a.core = b.core

/-- The end of an attempt without the state and the observers. -/
def coreEnd (r : StepEnd × Machine) : StepEnd × Machine := (r.1, r.2.core)

/-- System calls take no notice of what `f` changes of a machine. -/
structure ServicesIgnore (f : Machine → Machine) : Prop where
  registers : ∀ m, (f m).registers = m.registers
  pc : ∀ m, (f m).pc = m.pc
  memory : ∀ m, (f m).memory = m.memory
  console : ∀ m, (f m).console = m.console
  setsRegisters : ∀ m registers, f { m with registers } = { f m with registers }
  setsMemory : ∀ m memory, f { m with memory } = { f m with memory }
  setsConsole : ∀ m console, f { m with console } = { f m with console }
  tells : ∀ m event,
    f { m with events := m.events.emit event } = { f m with events := (f m).events.emit event }
  completes : ∀ m next, f (m.complete next) = (f m).complete next

/-- Neither do the other instructions. -/
structure InstructionsIgnore (f : Machine → Machine) : Prop extends ServicesIgnore f where
  trap : ∀ m, (f m).flags.trapOverflow = m.flags.trapOverflow
  calls : ∀ m (e : Effect) registers,
    f { m with calls := e.onCalls m.pc registers m.calls } =
      { f m with calls := e.onCalls m.pc registers (f m).calls }

namespace ServicesIgnore

variable {f : Machine → Machine}

theorem advance (h : ServicesIgnore f) (m : Machine) (ended : StepEnd) :
    (ended, (f m).complete ((f m).pc + 4)) = (ended, f (m.complete (m.pc + 4))) := by
  rw [h.completes, h.pc]

theorem print (h : ServicesIgnore f) (m : Machine) (write : Console → Console) :
    (f m).print write = (m.print write).map id f := by
  unfold Machine.print
  rw [h.console, ← h.setsConsole]
  exact h.advance _ .ran

theorem answer (h : ServicesIgnore f) (m : Machine) (value : Word) :
    (f m).answer value = (m.answer value).map id f := by
  unfold Machine.answer setRegister
  rw [h.registers, ← h.setsRegisters]
  exact h.advance _ .ran

theorem putBytes (h : ServicesIgnore f) (m : Machine) (a : Address) (bytes : List UInt8) :
    (f m).putBytes a bytes = (m.putBytes a bytes).map id f := by
  unfold Machine.putBytes
  rw [h.memory]
  cases m.memory.writeBytes a bytes with
  | ok places =>
    simp only
    rw [← h.setsMemory]
    exact h.advance _ .ran
  | error e => rfl

theorem read (h : ServicesIgnore f) {α : Type} (m : Machine)
    (request : Console → ReadOutcome α × Console) {next : Machine → α → StepEnd × Machine}
    (hnext : ∀ m value, next (f m) value = (next m value).map id f) :
    (f m).read request next = (m.read request next).map id f := by
  unfold Machine.read
  rw [h.console]
  obtain ⟨outcome, console, hrequest⟩ :
      ∃ outcome console, request m.console = (outcome, console) := ⟨_, _, rfl⟩
  rw [hrequest]
  simp only
  rw [← h.setsConsole]
  cases outcome with
  | done value => exact hnext { m with console } value
  | failed => rfl
  | waiting => rfl

theorem readLineInto (h : ServicesIgnore f) (m : Machine) (a : Address) (size : Int) :
    (f m).readLineInto a size = (m.readLineInto a size).map id f := by
  unfold Machine.readLineInto
  split
  · exact h.advance m .ran
  · split
    · exact h.putBytes m a _
    · exact h.read m _ fun m _ => h.putBytes m a _

theorem growHeap (h : ServicesIgnore f) (m : Machine) (requested : Word) :
    (f m).growHeap requested = (m.growHeap requested).map id f := by
  unfold Machine.growHeap
  simp only [h.memory]
  cases m.memory.heapError? (heapRequest requested) with
  | some e => rfl
  | none =>
    let grown := m.memory.extendHeap (heapRequest requested)
    let event : Event := .heapGrew (UInt32.ofNat m.memory.brk)
      (UInt32.ofNat (m.memory.brk + heapRequest requested))
    have hgrows := h.tells { m with memory := grown } event
    rw [h.setsMemory] at hgrows
    simp only
    rw [← hgrows]
    exact h.answer _ _

theorem printString (h : ServicesIgnore f) (m : Machine) (a : Address) :
    (f m).printString a = (m.printString a).map id f := by
  unfold Machine.printString
  rw [h.memory]
  cases m.memory.readString a with
  | ok bytes => exact h.print m _
  | error e => rfl

theorem syscall (h : ServicesIgnore f) (m : Machine) :
    (f m).syscall = m.syscall.map id f := by
  unfold Machine.syscall
  simp only [h.registers]
  split
  · exact h.print m _
  · exact h.printString m _
  · exact h.read m _ fun m _ => h.answer m _
  · exact h.readLineInto m _ _
  · exact h.growHeap m _
  · exact h.advance m _
  · exact h.print m _
  · exact h.read m _ fun m _ => h.answer m _
  · exact h.advance m _
  · rfl

end ServicesIgnore

namespace InstructionsIgnore

variable {f : Machine → Machine}

theorem apply (h : InstructionsIgnore f) (m : Machine) (e : Effect) :
    (f m).apply e = f (m.apply e) := by
  let registers := e.onRegisters m.registers
  let memory := e.onMemory m.memory
  have hmemory : f { m with registers, memory } = { f m with registers, memory } := by
    rw [h.setsMemory { m with registers }, h.setsRegisters]
  have hcalls := h.calls { m with registers, memory } e registers
  rw [hmemory] at hcalls
  unfold Machine.apply
  rw [h.registers, h.memory, h.completes]
  refine Eq.trans ?_ (congrArg (complete · (e.jump.getD (m.pc + 4))) hcalls.symm)
  simp only [h.pc, registers, memory]

theorem execute (h : InstructionsIgnore f) (m : Machine) (i : Instr) :
    (f m).execute i = (m.execute i).map id f := by
  rw [execute_eq_outcome, execute_eq_outcome]
  unfold outcome
  split
  · exact h.syscall m
  · exact h.advance m _
  · rw [h.pc, h.trap, h.registers, h.memory]
    cases i.effect m.pc m.flags.trapOverflow m.registers m.memory with
    | ok e => exact congrArg (StepEnd.ran, ·) (h.apply m e)
    | error e => rfl

/-- The attempt at an instruction takes no notice of what none of them takes notice of. -/
theorem step (h : InstructionsIgnore f) (m : Machine) : (f m).step = m.step.map id f := by
  unfold Machine.step
  rw [h.memory, h.pc]
  cases m.memory.textWord? m.pc with
  | none => rfl
  | some word =>
    simp only
    cases Instr.decode? word with
    | none => rfl
    | some i => exact h.execute m i

end InstructionsIgnore

theorem core_ignored : InstructionsIgnore core where
  registers _ := rfl
  pc _ := rfl
  memory _ := rfl
  console _ := rfl
  setsRegisters _ _ := rfl
  setsMemory _ _ := rfl
  setsConsole _ _ := rfl
  tells _ _ := rfl
  completes _ _ := rfl
  trap _ := rfl
  calls _ _ _ := rfl

/-- The attempt at an instruction takes no notice of the state and the observers. -/
theorem core_step (m : Machine) : m.core.step = coreEnd m.step := core_ignored.step m

namespace Agrees

variable {a b : Machine}

theorem refl (a : Machine) : a.Agrees a := rfl

/-- Machines that agree attempt the same, and agree afterwards. -/
theorem step (h : a.Agrees b) :
    a.step.1 = b.step.1 ∧ a.step.2.Agrees b.step.2 := by
  have hstep : coreEnd a.step = coreEnd b.step := by
    rw [← core_step, ← core_step, show a.core = b.core from h]
  have hended : (coreEnd a.step).1 = (coreEnd b.step).1 := congrArg Prod.fst hstep
  exact ⟨hended, congrArg Prod.snd hstep⟩

theorem atBreakpoint (h : a.Agrees b) : a.atBreakpoint = b.atBreakpoint := by
  show a.core.atBreakpoint = b.core.atBreakpoint
  rw [show a.core = b.core from h]

theorem stateOf (h : a.Agrees b) (stop : Stop) : a.stateOf stop = b.stateOf stop := by
  show a.core.stateOf stop = b.core.stateOf stop
  rw [show a.core = b.core from h]

theorem completed (h : a.Agrees b) : a.completed = b.completed := by
  show a.core.completed = b.core.completed
  rw [show a.core = b.core from h]

theorem pc (h : a.Agrees b) : a.pc = b.pc := by
  show a.core.pc = b.core.pc
  rw [show a.core = b.core from h]

theorem calls (h : a.Agrees b) : a.calls = b.calls := by
  show a.core.calls = b.core.calls
  rw [show a.core = b.core from h]

end Agrees

/-! ## Reasons to stop -/

/-- A machine after some single steps. -/
def stepped (m : Machine) : Nat → Machine
  | 0 => m
  | k + 1 => (m.stepped k).stepIn.2

theorem stepped_add (m : Machine) (n k : Nat) : (m.stepped n).stepped k = m.stepped (n + k) := by
  induction k with
  | zero => rfl
  | succ k ih =>
    show ((m.stepped n).stepped k).stepIn.2 = (m.stepped (n + k)).stepIn.2
    rw [ih]

/-- Where a run comes to rest after `k` steps, if it does: in the state of the last step if that
does not lead on, or else at a breakpoint, or else because there is a reason of the run's own, which
`over?` finds by the number of steps. -/
def restAfter? (m : Machine) (over? : Nat → Option PauseReason) (k : Nat) : Option ExecState :=
  if 0 < k ∧ (m.stepped k).state ≠ .paused .step then some (m.stepped k).state
  else if 0 < k ∧ (m.stepped k).atBreakpoint = true then some (.paused .breakpoint)
  else (over? k).map .paused

/-- There is no reason to stop before `k` steps have been made, and none of them waits. -/
def LeadsTo (m : Machine) (over? : Nat → Option PauseReason) (k : Nat) : Prop :=
  ∀ j, j < k → m.restAfter? over? j = none ∧ (m.stepped j).stepIn.1 ≠ .waiting

/-- What `k` steps say about the end of a run that has made `k` attempts and was allowed `fuel`. -/
def EndsLike (m : Machine) (over? : Nat → Option PauseReason) (fuel k : Nat) :
    Progress × Machine → Prop
  | (.ended result, final) =>
    m.restAfter? over? k = some final.state ∧ result = final.state.result ∧
      final.Agrees (m.stepped k)
  | (.waiting, final) =>
    m.restAfter? over? k = none ∧ (m.stepped k).stepIn.1 = .waiting ∧
      final.Agrees (m.stepped (k + 1))
  | (.unfinished, final) => k = fuel ∧ final.Agrees (m.stepped k)

/-- A goal is reached after those numbers of steps of which `over?` says so. -/
def Reaches (m : Machine) (goal : Goal) (over? : Nat → Option PauseReason) : Prop :=
  ∀ k a, a.Agrees (m.stepped k) → goal.reached? (decide (0 < k)) a = over? k

/-! ## Runs -/

section Runs

variable {m a : Machine} {over? : Nat → Option PauseReason} {goal : Goal} {k : Nat}

theorem restAfter?_of_stopped {state : ExecState} (hstate : (m.stepped (k + 1)).state = state)
    (h : state ≠ .paused .step) : m.restAfter? over? (k + 1) = some state := by
  rw [restAfter?, hstate, if_pos ⟨Nat.succ_pos k, h⟩]

theorem restAfter?_of_breakpoint (hstate : (m.stepped (k + 1)).state = .paused .step)
    (h : (m.stepped (k + 1)).atBreakpoint = true) :
    m.restAfter? over? (k + 1) = some (.paused .breakpoint) := by
  rw [restAfter?, hstate, if_neg (fun hstop => hstop.2 rfl), if_pos ⟨Nat.succ_pos k, h⟩]

theorem restAfter?_of_ran (hstate : (m.stepped (k + 1)).state = .paused .step)
    (h : (m.stepped (k + 1)).atBreakpoint = false) :
    m.restAfter? over? (k + 1) = (over? (k + 1)).map .paused := by
  rw [restAfter?, hstate, if_neg (fun hstop => hstop.2 rfl), if_neg (by simp [h])]

theorem stateOf_ne_step (m : Machine) (stop : Stop) : m.stateOf stop ≠ .paused .step := by
  cases stop <;> nofun

theorem LeadsTo.succ (h : m.LeadsTo over? k) (hrest : m.restAfter? over? k = none)
    (hwait : (m.stepped k).stepIn.1 ≠ .waiting) : m.LeadsTo over? (k + 1) := by
  intro j hj
  rcases Nat.lt_succ_iff_lt_or_eq.mp hj with hj | rfl
  · exact h j hj
  · exact ⟨hrest, hwait⟩

/-- A run has come as far as `k` steps, and only its own reason can make it stop there. -/
structure OnItsWay (m : Machine) (over? : Nat → Option PauseReason) (k : Nat) (a : Machine) :
    Prop where
  agrees : a.Agrees (m.stepped k)
  leadsTo : m.LeadsTo over? k
  state : (m.stepped k).state.isTerminal = false
  rest : m.restAfter? over? k = (over? k).map .paused

/-- A run that is on its way ends at the first reason to stop. The induction is on the number of
attempts, each of which is compared with the next step. -/
theorem OnItsWay.runFrom_endsLike (h : m.OnItsWay over? k a) (hgoal : m.Reaches goal over?)
    (fuel : Nat) :
    ∃ n, n ≤ k + fuel ∧ m.LeadsTo over? n ∧
      m.EndsLike over? (k + fuel) n (runFrom goal fuel (decide (0 < k)) a) := by
  induction fuel generalizing k a with
  | zero => exact ⟨k, Nat.le_refl k, h.leadsTo, rfl, h.agrees⟩
  | succ fuel ih =>
    have hover := hgoal k a h.agrees
    cases hreached : goal.reached? (decide (0 < k)) a with
    | some reason =>
      rw [runFrom_reached hreached]
      have hrest : m.restAfter? over? k = some (.paused reason) := by
        rw [h.rest, ← hover, hreached, Option.map_some]
      exact ⟨k, Nat.le_add_right k _, h.leadsTo, hrest, rfl, h.agrees⟩
    | none =>
      have hrest : m.restAfter? over? k = none := by
        rw [h.rest, ← hover, hreached, Option.map_none]
      obtain ⟨ended, a', ha⟩ : ∃ ended a', a.step = (ended, a') := ⟨_, _, rfl⟩
      obtain ⟨ended₂, b, hb⟩ : ∃ ended b, (m.stepped k).step = (ended, b) := ⟨_, _, rfl⟩
      obtain ⟨hended, hagrees⟩ := h.agrees.step
      rw [ha, hb] at hended hagrees
      obtain rfl : ended = ended₂ := hended
      have hagrees : a'.Agrees b := hagrees
      cases ended with
      | ran =>
        -- The step pauses where the run goes on: the machines agree in all but the state.
        have hstepIn := stepIn_ran h.state hb
        have hnext : m.stepped (k + 1) = b.enter (.paused .step) := congrArg Prod.snd hstepIn
        have hlead := h.leadsTo.succ hrest (by rw [hstepIn]; nofun)
        have hstate : (m.stepped (k + 1)).state = .paused .step := by rw [hnext]; rfl
        have hagrees : a'.Agrees (m.stepped (k + 1)) := by rw [hnext]; exact hagrees
        rw [runFrom_ran hreached ha]
        split
        · next hbreak =>
          rw [hagrees.atBreakpoint] at hbreak
          exact ⟨k + 1, by omega, hlead, restAfter?_of_breakpoint hstate hbreak, rfl, hagrees⟩
        · next hbreak =>
          rw [hagrees.atBreakpoint, Bool.not_eq_true] at hbreak
          have hterminal : (m.stepped (k + 1)).state.isTerminal = false := by rw [hstate]; rfl
          obtain ⟨n, hn, hleads, hends⟩ :=
            ih ⟨hagrees, hlead, hterminal, restAfter?_of_ran hstate hbreak⟩
          rw [Nat.add_right_comm] at hn hends
          exact ⟨n, hn, hleads, hends⟩
      | stopped stop =>
        have hstepIn := stepIn_stopped h.state hb
        have hnext : m.stepped (k + 1) = b.enter (b.stateOf stop) := congrArg Prod.snd hstepIn
        have hlead := h.leadsTo.succ hrest (by rw [hstepIn]; nofun)
        rw [runFrom_stopped hreached ha, hagrees.stateOf stop]
        refine ⟨k + 1, by omega, hlead, ?_, rfl, ?_⟩
        · exact restAfter?_of_stopped (by rw [hnext]; rfl) (b.stateOf_ne_step stop)
        · rw [hnext]
          exact hagrees
      | waiting =>
        have hstepIn := stepIn_waiting h.state hb
        have hnext : m.stepped (k + 1) = b := congrArg Prod.snd hstepIn
        rw [runFrom_waiting hreached ha]
        refine ⟨k, by omega, h.leadsTo, hrest, by rw [hstepIn], ?_⟩
        rw [hnext]
        exact hagrees

/-- A run that starts, or that is taken up again, ends at the first reason to stop. -/
theorem runFrom_endsLike (hstate : m.state.isTerminal = false) (hagrees : a.Agrees m)
    (hgoal : m.Reaches goal over?) (fuel : Nat) :
    ∃ n, n ≤ fuel ∧ m.LeadsTo over? n ∧ m.EndsLike over? fuel n (runFrom goal fuel false a) := by
  have h : m.OnItsWay over? 0 a :=
    { agrees := hagrees
      leadsTo := fun j hj => absurd hj (Nat.not_lt_zero j)
      state := hstate
      rest := rfl }
  have hends := h.runFrom_endsLike hgoal fuel
  rw [Nat.zero_add] at hends
  exact hends

/-- There is only one first reason to stop, so a run with enough attempts comes to it. -/
theorem ended_of_restAfter {result : Progress × Machine} {fuel n : Nat} {state : ExecState}
    (hn : m.LeadsTo over? n) (hends : m.EndsLike over? fuel n result) (hk : m.LeadsTo over? k)
    (hrest : m.restAfter? over? k = some state) (hfuel : k < fuel) :
    ∃ final, result = (.ended state.result, final) ∧ final.state = state ∧
      final.Agrees (m.stepped k) := by
  rcases Nat.lt_trichotomy k n with hlt | rfl | hlt
  · -- The run has gone past the reason to stop.
    rw [(hn k hlt).1] at hrest
    exact nomatch hrest
  · obtain ⟨progress, final⟩ := result
    cases progress with
    | ended result =>
      obtain ⟨hfinal, rfl, hagrees⟩ := hends
      obtain rfl : final.state = state := Option.some.inj (hfinal.symm.trans hrest)
      exact ⟨final, rfl, rfl, hagrees⟩
    | waiting => exact nomatch hends.1.symm.trans hrest
    | unfinished => exact absurd hends.1 (Nat.ne_of_lt hfuel)
  · -- The run has not come to the reason to stop, and has found another one.
    obtain ⟨hnone, hwait⟩ := hk n hlt
    obtain ⟨progress, final⟩ := result
    cases progress with
    | ended result => exact nomatch hnone.symm.trans hends.1
    | waiting => exact absurd hends.2.1 hwait
    | unfinished => exact absurd hends.1 (Nat.ne_of_lt (Nat.lt_trans hlt hfuel))

end Runs

/-! ## Runs with and without a limit -/

/-- The goal of a run that may go on until `limit` instructions more than `start` have been
completed, or for ever. -/
def limitGoal (start : Nat) : Option Nat → Goal
  | none => .unlimited
  | some n => .count start n

/-- The reason to stop of such a run. -/
def limitReached? (m : Machine) (start : Nat) (limit : Option Nat) (k : Nat) :
    Option PauseReason :=
  match limit with
  | none => none
  | some n => if n ≤ (m.stepped k).completed - start then some .tripwire else none

/-- A run that may complete `limit` instructions, or any number of them. -/
def runUpTo (m : Machine) (limit : Option Nat) (fuel : Nat) : Progress × Machine :=
  match limit with
  | none => m.run fuel
  | some n => m.runLimited n fuel

theorem reaches_limit (m : Machine) (start : Nat) (limit : Option Nat) :
    m.Reaches (limitGoal start limit) (m.limitReached? start limit) := by
  intro k a h
  cases limit with
  | none => rfl
  | some n =>
    unfold limitGoal Goal.reached? limitReached?
    simp only [h.completed]
    by_cases hlt : (m.stepped k).completed - start < n
    · rw [if_pos hlt, if_neg (Nat.not_le_of_lt hlt)]
    · rw [if_neg hlt, if_pos (Nat.le_of_not_lt hlt)]

/-- A limit counts no matter whether the run has begun. -/
theorem runFrom_limitGoal (start : Nat) (limit : Option Nat) (fuel : Nat) (begun : Bool)
    (m : Machine) :
    runFrom (limitGoal start limit) fuel begun m =
      runFrom (limitGoal start limit) fuel false m := by
  cases fuel with
  | zero => rfl
  | succ fuel => cases limit <;> rfl

theorem runUpTo_eq (m : Machine) (hstate : m.state.isTerminal = false) (limit : Option Nat)
    (fuel : Nat) :
    m.runUpTo limit fuel =
      runFrom (limitGoal m.completed limit) fuel false { m with state := .running } := by
  cases limit with
  | none =>
    rw [runUpTo, run, runTo, hstate]
    rfl
  | some n =>
    rw [runUpTo, runLimited, runTo, hstate]
    rfl

/-- A run, with or without a limit, goes as far as single steps do up to the first reason to stop.
If there is one, and the run is allowed more attempts, then it ends there, in the state that the
reason asks for. A run that is taken up again, after it has waited, goes on in the same way. -/
theorem run_iterates_stepIn (m : Machine) (hstate : m.state.isTerminal = false)
    (limit : Option Nat) :
    (∀ fuel, ∃ k, k ≤ fuel ∧ m.LeadsTo (m.limitReached? m.completed limit) k ∧
      m.EndsLike (m.limitReached? m.completed limit) fuel k (m.runUpTo limit fuel)) ∧
    (∀ k state, m.LeadsTo (m.limitReached? m.completed limit) k →
      m.restAfter? (m.limitReached? m.completed limit) k = some state →
      ∀ fuel, k < fuel → ∃ final, m.runUpTo limit fuel = (.ended state.result, final) ∧
        final.state = state ∧ final.Agrees (m.stepped k)) ∧
    ∀ start begun fuel, ∃ k, k ≤ fuel ∧ m.LeadsTo (m.limitReached? start limit) k ∧
      m.EndsLike (m.limitReached? start limit) fuel k
        (runFrom (limitGoal start limit) fuel begun m) := by
  have hrun (fuel : Nat) : ∃ k, k ≤ fuel ∧ m.LeadsTo (m.limitReached? m.completed limit) k ∧
      m.EndsLike (m.limitReached? m.completed limit) fuel k (m.runUpTo limit fuel) := by
    have hagrees : Agrees { m with state := .running } m := rfl
    rw [runUpTo_eq m hstate]
    exact runFrom_endsLike hstate hagrees (m.reaches_limit m.completed limit) fuel
  refine ⟨hrun, fun k state hk hrest fuel hfuel => ?_, fun start begun fuel => ?_⟩
  · obtain ⟨n, -, hn, hends⟩ := hrun fuel
    exact ended_of_restAfter hn hends hk hrest hfuel
  · rw [runFrom_limitGoal]
    exact runFrom_endsLike hstate (.refl m) (m.reaches_limit start limit) fuel

/-- A breakpoint that is reached together with the limit goes before it. -/
theorem run_iterates_stepIn_breakpoint :
    let p := (assemble (.ofString "main: nop\nnop\nnop")).program
    let m := { (create { stackBudget := 0 }).load p with breakpoints := [.pc 0x00400008] }
    ∃ final, m.runLimited 2 3 = (.ended (.ok ()), final) ∧
      final.state = .paused .breakpoint ∧ final.Agrees (m.stepped 2) := by
  intro p m
  have hstate : m.state.isTerminal = false := rfl
  have hrest : m.restAfter? (m.limitReached? m.completed (some 2)) 2 =
      some (.paused .breakpoint) := by decide +kernel
  have hlead : m.LeadsTo (m.limitReached? m.completed (some 2)) 2 := by
    have hnone : ∀ j, j < 2 →
        m.restAfter? (m.limitReached? m.completed (some 2)) j = none := by decide +kernel
    have hends : ∀ j, j < 2 → (match (m.stepped j).stepIn.1 with
        | .ended _ => true
        | _ => false) = true := by decide +kernel
    refine fun j hj => ⟨hnone j hj, fun hwait => ?_⟩
    have hj := hends j hj
    rw [hwait] at hj
    exact nomatch hj
  exact (run_iterates_stepIn m hstate (some 2)).2.1 2 (.paused .breakpoint) hlead hrest 3
    (by decide)

end Machine

end MipsLab
