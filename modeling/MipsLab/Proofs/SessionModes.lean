import MipsLab.Proofs.Sessions

/-!
# The modes of a run

Whether a session leaves its program to a worker, steps through it, limits it, or does both, makes
no difference to what the program does.

1. `run_in_mode`: the options for the mode do not decide whether a program can be run.
2. `ending_cases`: how a session ends, if it is not for its limit, depends only on the machine with
   all input in advance.
3. `modes_agree`: a run that ends in one mode ends in the same way in the other ones.
-/

namespace MipsLab.CommandLine

/-- What an answer writes to the standard output. -/
def Answer.stdout (a : Answer) : List UInt8 :=
  a.printed.flatMap fun line => Bytes.utf8 line ++ [newlineByte]

/-- How a run ends: its exit code, what has been written to the standard output, and how many
instructions have been completed. -/
structure Ending where
  code : UInt8
  stdout : List UInt8
  completed : Nat
  deriving DecidableEq, Repr

/-- How a response ends in the course of some moves, if it does. An answer ends at once. -/
def Response.ending? (moves : List Session.Move) : Response → Option Ending
  | .answer a => some { code := a.code, stdout := a.stdout, completed := 0 }
  | .session s =>
    match s.moved moves with
    | (.ended code, s) =>
      some { code, stdout := s.output.stdout.data.toList, completed := s.machine.completed }
    | _ => none

/-- Other options for the mode of a run: whether it is traced, and how many instructions it may
execute. -/
def RunOptions.inMode (o : RunOptions) (traced : Bool) (limit : Option Nat) : RunOptions :=
  { o with isTraced := traced, maxSteps := limit }

variable {o : RunOptions} {p : Program} {source : Source} {stdin : List UInt8}
  {moves : List Session.Move} {e : Ending} {traced : Bool} {limit : Option Nat} {r : Machine}

/-! ## Sessions in different modes -/

theorem alone_inMode (o : RunOptions) (p : Program) (breakpoints : List Breakpoint)
    (stdin : List UInt8) (traced : Bool) (limit : Option Nat) :
    (startSession (o.inMode traced limit) p breakpoints).alone stdin =
      (startSession o p breakpoints).alone stdin := by
  unfold Session.alone
  rw [startSession_machine, startSession_machine]
  rfl

/-- A program is run in each mode, or in none. -/
theorem run_in_mode (o : RunOptions) (source : Source) (traced : Bool) (limit : Option Nat) :
    (∃ a, run o source = .answer a ∧ run (o.inMode traced limit) source = .answer a) ∨
      ∃ p breakpoints, run o source = .session (startSession o p breakpoints) ∧
        run (o.inMode traced limit) source =
          .session (startSession (o.inMode traced limit) p breakpoints) := by
  cases hrun : run o source with
  | session s =>
    obtain ⟨p, breakpoints, hassembled, hbreakpoints, rfl⟩ := run_eq_session_iff.mp hrun
    exact .inr ⟨p, breakpoints, rfl,
      run_eq_session_iff.mpr ⟨p, breakpoints, hassembled, hbreakpoints, rfl⟩⟩
  | answer a =>
    refine .inl ⟨a, rfl, ?_⟩
    unfold run at hrun ⊢
    cases hassembled : (assemble source).toExcept with
    | error problems =>
      rw [hassembled] at hrun
      exact hrun
    | ok p =>
      rw [hassembled] at hrun
      simp only at hrun ⊢
      have hbreaks : (o.inMode traced limit).breaks = o.breaks := rfl
      rw [hbreaks]
      cases hbreakpoints : breakpointsOf p o.breaks with
      | error label =>
        rw [hbreakpoints] at hrun
        exact hrun
      | ok breakpoints =>
        rw [hbreakpoints] at hrun
        exact nomatch hrun

/-! ## Endings -/

/-- How a run ends with the last step of a machine. -/
def Ending.ofMachine (m : Machine) : Ending :=
  { code := exitCode m.state, stdout := m.console.output.stdout.data.toList
    completed := m.completed }

/-- A session that ends goes the way of the machine with all input in advance up to its last step,
or up to the limit. -/
theorem ending_cases {breakpoints : List Breakpoint} (hdelivers : Session.Delivers stdin moves)
    (hend : (Response.session (startSession o p breakpoints)).ending? moves = some e) :
    let r := (startSession o p breakpoints).alone stdin
    (∃ k, (r.stepped k).state.isTerminal = false ∧ (r.stepped (k + 1)).state.isTerminal = true ∧
        e = Ending.ofMachine (r.stepped (k + 1))) ∨
      ∃ n, o.maxSteps = some n ∧ (r.stepped n).state.isTerminal = false := by
  obtain ⟨later, rfl, hends⟩ := hdelivers
  intro r
  have hat := at_start o p breakpoints hends
  have hr : r.Provided := provided_start o p breakpoints _
  obtain ⟨code, s', hmoved, hconcluded⟩ | ⟨s', j, owed', hmoved, -, -⟩ := hat.moved hr
  · simp only [Response.ending?, hmoved, Option.some.injEq] at hend
    subst hend
    cases hconcluded with
    | @finished k hgoing hterminal hlimit hsame hnotes =>
      refine .inl ⟨k, hgoing, hterminal, ?_⟩
      unfold Ending.ofMachine
      rw [hsame.output, hsame.completed]
      rfl
    | limited hlimit hgoing => exact .inr ⟨_, hlimit, hgoing⟩
  · simp only [Response.ending?, hmoved] at hend
    exact nomatch hend

/-- Where a session without a limit has ended, and with how many instructions. -/
theorem ending_unlimited {breakpoints : List Breakpoint}
    (hdelivers : Session.Delivers stdin moves) (hunlimited : o.maxSteps = none)
    (hend : (Response.session (startSession o p breakpoints)).ending? moves = some e) :
    let r := (startSession o p breakpoints).alone stdin
    ∃ k, (r.stepped k).state.isTerminal = false ∧ (r.stepped (k + 1)).state.isTerminal = true ∧
      e = .ofMachine (r.stepped (k + 1)) ∧ k ≤ e.completed := by
  intro r
  obtain ⟨k, hgoing, hterminal, rfl⟩ | ⟨n, hlimit, -⟩ := ending_cases hdelivers hend
  · have hr : r.Provided := provided_start o p breakpoints stdin
    have hcompleted : k ≤ (r.stepped (k + 1)).completed := by
      obtain heq | heq := hr.completed_next hgoing <;> omega
    exact ⟨k, hgoing, hterminal, rfl, hcompleted⟩
  · rw [hunlimited] at hlimit
    exact nomatch hlimit

/-- In each mode with a limit that is not reached, the end is the last step of the machine. -/
theorem ending_inMode {breakpoints : List Breakpoint} {k : Nat}
    (hr : (startSession o p breakpoints).alone stdin = r)
    (hgoing : (r.stepped k).state.isTerminal = false)
    (hterminal : (r.stepped (k + 1)).state.isTerminal = true)
    (hlimit : ∀ n, limit = some n → k < n) (hdelivers : Session.Delivers stdin moves)
    (hend : (Response.session (startSession (o.inMode traced limit) p breakpoints)).ending? moves =
      some e) : e = .ofMachine (r.stepped (k + 1)) := by
  have hcases := ending_cases hdelivers hend
  rw [alone_inMode, hr] at hcases
  obtain ⟨j, hgoing', hterminal', rfl⟩ | ⟨n, hn, hgoing'⟩ := hcases
  · rw [Machine.last_unique hgoing' hterminal' hgoing hterminal]
  · rw [Machine.stepped_of_ended hterminal (hlimit n hn), hterminal] at hgoing'
    exact nomatch hgoing'

/-- In a mode in which the session steps through the program itself, it does end. -/
theorem ends_inMode {breakpoints : List Breakpoint} {k : Nat}
    (hr : (startSession o p breakpoints).alone stdin = r)
    (hterminal : (r.stepped k).state.isTerminal = true) (hmode : (traced || limit.isSome) = true)
    (hdelivers : Session.DeliversAll stdin moves) :
    ∃ e, (Response.session (startSession (o.inMode traced limit) p breakpoints)).ending?
      (moves ++ List.replicate (k + 1) .turn) = some e := by
  have hat := at_start (o.inMode traced limit) p breakpoints hdelivers.2
  rw [hdelivers.1, alone_inMode, hr] at hat
  have hprovided : r.Provided := hr ▸ provided_start o p breakpoints stdin
  obtain ⟨code, s', hmoved⟩ := hat.finishes hprovided hmode (.inl hterminal)
  refine ⟨⟨code, s'.output.stdout.data.toList, s'.machine.completed⟩, ?_⟩
  rw [Response.ending?, hmoved]

/-- Consider a run without a limit that ends. In another mode, with no limit or one that is above
the number of instructions that were completed, a run of the same program with the same input ends
when all input has come and its turns go on; and it can only end in the same way, with the same exit
code, after the same output and after as many instructions. -/
theorem modes_agree (hunlimited : o.maxSteps = none) (hdelivers : Session.Delivers stdin moves)
    (hend : (run o source).ending? moves = some e)
    (hmode : (traced || limit.isSome) = true) (hlimit : ∀ n, limit = some n → e.completed < n) :
    (∃ n, ∀ moves', Session.DeliversAll stdin moves' →
        (run (o.inMode traced limit) source).ending? (moves' ++ List.replicate n .turn) = some e) ∧
      ∀ moves' e', Session.Delivers stdin moves' →
        (run (o.inMode traced limit) source).ending? moves' = some e' → e' = e := by
  obtain ⟨a, hanswer, hother⟩ | ⟨p, breakpoints, hsession, hother⟩ :=
    run_in_mode o source traced limit
  · rw [hanswer] at hend
    rw [hother]
    exact ⟨⟨0, fun _ _ => hend⟩, fun _ _ _ hend' => Option.some.inj (hend'.symm.trans hend)⟩
  · rw [hsession] at hend
    rw [hother]
    obtain ⟨k, hgoing, hterminal, rfl, hcompleted⟩ := ending_unlimited hdelivers hunlimited hend
    have hbelow : ∀ n, limit = some n → k < n := fun n hn =>
      Nat.lt_of_le_of_lt hcompleted (hlimit n hn)
    refine ⟨⟨k + 2, fun moves' hall => ?_⟩, fun moves' e' hdelivers' hend' =>
      ending_inMode rfl hgoing hterminal hbelow hdelivers' hend'⟩
    obtain ⟨e', hend'⟩ := ends_inMode rfl hterminal hmode hall
    rw [hend', ending_inMode rfl hgoing hterminal hbelow (hall.append_turns _).delivers hend']

/-- A program that reads a number, prints it and ends with it, and that is paused on the way. -/
theorem modes_agree_echo :
    let source : Source := .ofString
      "li $v0, 5\nsyscall\nL: addu $a0, $v0, $0\nbreak\nli $v0, 1\nsyscall\nli $v0, 17\nsyscall"
    let o : RunOptions := { path := "", heapSize := some 0, stackSize := some 0, breaks := ["L"] }
    let e : Ending := { code := 7, stdout := [0x37], completed := 8 }
    (∃ n, ∀ moves, Session.DeliversAll [0x37, 0x0A] moves →
        (run (o.inMode true (some 9)) source).ending? (moves ++ List.replicate n .turn) = some e) ∧
      ∀ moves e', Session.Delivers [0x37, 0x0A] moves →
        (run (o.inMode true (some 9)) source).ending? moves = some e' → e' = e := by
  intro source o e
  have hend : (run o source).ending?
      (.arrive (.bytes [0x37, 0x0A]) :: List.replicate 30 .turn) = some e := by decide +kernel
  have hdelivers : Session.Delivers [0x37, 0x0A]
      (.arrive (.bytes [0x37, 0x0A]) :: List.replicate 30 .turn) := ⟨[.ends], rfl, rfl⟩
  exact modes_agree rfl hdelivers hend rfl fun n hn => by cases hn; decide

end MipsLab.CommandLine
