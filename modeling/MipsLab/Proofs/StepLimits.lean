import MipsLab.Proofs.Runs
import MipsLab.Proofs.Sessions

/-!
# Limits on the number of instructions

A session whose instructions are limited comes to its end, and the exit code tells what the program
has done within the limit.

1. `Kept`: what a limit means for the exit code and for the number of instructions.
2. `Session.Concluded.kept`: a session that has ended has kept its limit.
3. `limit_kept`: it does end.
4. `limit_code_shared`: a program can end with the code of the limit, too.
5. `Session.proceedThrough_eq_runUpTo`: going on for one instruction after the other comes to what
   one run for all that are left comes to.
-/

namespace MipsLab.CommandLine

variable {o : RunOptions} {p : Program} {source : Source} {s : Session} {n : Nat} {r : Machine}
  {code : UInt8}

/-- How a run ends that may take the first `n` steps of a machine. -/
structure Kept (r : Machine) (n : Nat) (code : UInt8) (completed : Nat) : Prop where
  completed_le : completed ≤ n
  /-- The code of the limit stands for a machine that has not ended in these steps, or that has
  itself ended with this code. -/
  limited : code = limitCode ↔ (r.stepped n).state.isTerminal = false ∨
    ∃ c, (r.stepped n).state = .halted (.exit c) ∧ c % 0x100 = limitCode.toNat
  lasts : (r.stepped n).state.isTerminal = false → completed = n
  exits : ∀ k ≤ n, ∀ c, (r.stepped k).state = .halted (.exit c) → code.toNat = c % 0x100
  faults : ∀ k ≤ n, ∀ fault, (r.stepped k).state = .faulted fault → code = faultCode

/-! ## Exit codes -/

theorem exitCode_exit (c : Int) : (exitCode (.halted (.exit c))).toNat = c % 0x100 := by
  have hcode : (exitCode (.halted (.exit c))).toNat = (c % 0x100).toNat % 0x100 := UInt8.toNat_ofNat
  omega

/-- A program that ends has the code of the limit only if it exits with it. -/
theorem exitCode_eq_limitCode_iff {state : ExecState} (h : state.isTerminal = true) :
    exitCode state = limitCode ↔
      ∃ c, state = .halted (.exit c) ∧ c % 0x100 = limitCode.toNat := by
  cases state with
  | halted reason =>
    cases reason with
    | exit c =>
      rw [← UInt8.toNat_inj, ← Int.natCast_inj, exitCode_exit]
      simp
    | stopped => exact ⟨nofun, fun ⟨_, hc, _⟩ => nomatch hc⟩
  | faulted fault => exact ⟨nofun, fun ⟨_, hc, _⟩ => nomatch hc⟩
  | loaded | running | paused => exact nomatch h

/-! ## Sessions with a limit -/

/-- A session that has ended has kept its limit. -/
theorem Session.Concluded.kept (hr : r.Provided) (hlimit : o.maxSteps = some n)
    (h : s.Concluded o p r code) : Kept r n code s.machine.completed := by
  cases h with
  | @finished k hgoing hterminal hbelow hsame =>
    have hlast : r.stepped n = r.stepped (k + 1) :=
      Machine.stepped_of_ended hterminal (hbelow n hlimit)
    -- Whichever step has ended the machine, it has stayed in this state since then.
    have hstays {j : Nat} {state : ExecState} (hj : j ≤ n) (hstate : (r.stepped j).state = state)
        (hended : state.isTerminal = true) : (r.stepped (k + 1)).state = state := by
      rw [← hlast, Machine.stepped_of_ended (by rw [hstate, hended]) hj, hstate]
    refine ⟨?_, ?_, ?_, fun j hj c hc => ?_, fun j hj fault hfault => ?_⟩
    · have hk := hbelow n hlimit
      rw [← hsame.completed]
      obtain hcompleted | hcompleted := hr.completed_next hgoing <;> omega
    · rw [hlast, hterminal, exitCode_eq_limitCode_iff hterminal]
      simp
    · rw [hlast, hterminal]
      exact nofun
    · rw [hstays hj hc rfl, exitCode_exit]
    · rw [hstays hj hfault rfl]
      rfl
  | @limited m hm hgoing hsame =>
    obtain rfl : n = m := Option.some.inj (hlimit.symm.trans hm)
    have hcompleted : s.machine.completed = n := hsame.completed.symm.trans (hr.going hgoing).2
    refine ⟨Nat.le_of_eq hcompleted, ⟨fun _ => .inl hgoing, fun _ => rfl⟩, fun _ => hcompleted,
      fun j hj c hc => ?_, fun j hj fault hfault => ?_⟩
    · have hgoing' := Machine.going_of_le hgoing hj
      rw [hc] at hgoing'
      exact nomatch hgoing'
    · have hgoing' := Machine.going_of_le hgoing hj
      rw [hfault] at hgoing'
      exact nomatch hgoing'

/-- A session that may execute `n` instructions ends: when it has made more than `n` turns, if it
never waits, and in any case when all input has come. The exit code tells what the program does in
its first `n` steps with all input in advance. -/
theorem limit_kept (hrun : run o source = .session s) (hlimit : o.maxSteps = some n)
    (stdin : List UInt8) :
    (∀ moves, Session.Delivers stdin moves → s.waits moves = false → n < Session.turns moves →
        ∃ code s', s.moved moves = (.ended code, s')) ∧
      (∀ moves, Session.DeliversAll stdin moves →
        ∃ code s', s.moved (moves ++ List.replicate (n + 1) .turn) = (.ended code, s')) ∧
      ∀ moves code s', Session.Delivers stdin moves → s.moved moves = (.ended code, s') →
        Kept (s.alone stdin) n code s'.machine.completed := by
  obtain ⟨p, breakpoints, -, -, rfl⟩ := run_eq_session_iff.mp hrun
  have hr := provided_start o p breakpoints stdin
  have hdirect : isDirect o = true := by
    rw [isDirect, hlimit, Option.isSome_some, Bool.or_true]
  refine ⟨?_, ?_, ?_⟩
  · rintro moves ⟨later, rfl, hends⟩ hwaits hturns
    exact (at_start o p breakpoints hends).ended hr hdirect (.inr hlimit) hwaits
      (by rw [Nat.zero_add]; exact hturns)
  · rintro moves ⟨rfl, hends⟩
    exact (at_start o p breakpoints hends).finishes hr hdirect (.inr hlimit)
  · rintro moves code s' ⟨later, rfl, hends⟩ hmoved
    obtain ⟨code', s'', hmoved', hconcluded⟩ | ⟨_, _, _, hmoved', -⟩ :=
      (at_start o p breakpoints hends).moved hr
    · obtain ⟨⟨⟩, rfl⟩ := Prod.mk.inj (hmoved.symm.trans hmoved')
      exact hconcluded.kept hr hlimit
    · have hbusy := congrArg Prod.fst (hmoved.symm.trans hmoved')
      cases hbusy

/-- A program that jumps in place, traced and with a limit. -/
theorem limit_kept_loop :
    let o : RunOptions :=
      { path := "", heapSize := some 0, stackSize := some 0, isTraced := true, maxSteps := some 2 }
    ∃ s code s', run o (.ofString "L: j L") = .session s ∧
      s.moved (.arrive .ends :: List.replicate 3 .turn) = (.ended code, s') ∧
      Kept (s.alone []) 2 code s'.machine.completed := by
  intro o
  obtain ⟨s, hrun, -⟩ := Response.exists_session
    (show (run o (.ofString "L: j L")).session?.any (fun _ => true) = true by decide +kernel)
  obtain ⟨-, hends, hkept⟩ := limit_kept hrun (rfl : o.maxSteps = some 2) []
  have hall : Session.DeliversAll [] [.arrive .ends] := ⟨rfl, rfl⟩
  obtain ⟨code, s', hmoved⟩ := hends _ hall
  exact ⟨s, code, s', hrun, hmoved, hkept _ code s' (hall.append_turns 3).delivers hmoved⟩

/-- The reading under which the code of the limit always means that the machine has not ended. -/
def LimitCodeIsOwn : Prop :=
  ∀ (o : RunOptions) (source : Source) (stdin : List UInt8) (moves : List Session.Move)
    (s s' : Session) (n : Nat) (code : UInt8),
    run o source = .session s → o.maxSteps = some n → Session.Delivers stdin moves →
      s.moved moves = (.ended code, s') →
        (code = limitCode ↔ ((s.alone stdin).stepped n).state.isTerminal = false)

/-- A program can exit with the code of the limit itself, and long before. -/
theorem limit_code_shared : ¬ LimitCodeIsOwn := by
  intro hown
  let o : RunOptions :=
    { path := "", heapSize := some 0, stackSize := some 0, maxSteps := some 10 }
  let test (s : Session) : Bool :=
    (s.moved (List.replicate 3 .turn)).1 = .ended limitCode ∧
      ((s.alone []).stepped 10).state.isTerminal
  obtain ⟨s, hrun, htest⟩ := Response.exists_session
    (show (run o (.ofString "li $a0, 3\nli $v0, 17\nsyscall")).session?.any test = true by
      decide +kernel)
  obtain ⟨hended, hterminal⟩ := of_decide_eq_true htest
  have hgoing := (hown o _ [] (List.replicate 3 .turn) s _ 10 limitCode hrun rfl
    ⟨[.ends], rfl, rfl⟩ (Prod.ext hended rfl)).mp rfl
  rw [hterminal] at hgoing
  exact nomatch hgoing

/-! ## One run for all instructions that are left -/

namespace Session

/-- Goes on with a program for one instruction after the other, as a session does that steps through
it itself, until one of them ends the run or waits, or none are left; but for at most `fuel`
attempts. -/
def proceedThrough (o : RunOptions) : Nat → Machine → Progress × Machine
  | 0, m => (.unfinished, m)
  | fuel + 1, m =>
    if remaining o m = some 0 then m.endIn (.paused .tripwire)
    else
      match proceed o m with
      | (.unfinished, m) => proceedThrough o fuel m
      | ended => ended

theorem proceed_eq_runUpTo (huntraced : o.isTraced = false) (m : Machine) :
    proceed o m = m.runUpTo (remaining o m) 1 := by
  unfold proceed Machine.runUpTo
  rw [if_neg (by simp [huntraced])]
  cases remaining o m <;> rfl

/-- A run with a limit ends when there are no instructions left. -/
theorem limitGoal_reached? {start : Nat} {limit : Option Nat} {m : Machine}
    (hlimit : o.maxSteps = limit.map (start + ·)) (hpos : limit ≠ some 0) (begun : Bool) :
    (Machine.limitGoal start limit).reached? begun m =
      (if remaining o m = some 0 then some PauseReason.tripwire else none) := by
  unfold remaining
  rw [hlimit]
  cases limit with
  | none => rfl
  | some n =>
    have hn : n ≠ 0 := fun h => hpos (congrArg some h)
    show (if m.completed - start < n then none else some PauseReason.tripwire) =
      if some (start + n - m.completed) = some 0 then some PauseReason.tripwire else none
    by_cases hlt : m.completed - start < n
    · rw [if_pos hlt, if_neg (by rw [Option.some.injEq]; omega)]
    · rw [if_neg hlt, if_pos (by rw [Option.some.injEq]; omega)]

theorem maxSteps_of_remaining {m : Machine} (hleft : remaining o m ≠ some 0) :
    o.maxSteps = (remaining o m).map (m.completed + ·) := by
  unfold remaining at hleft ⊢
  cases hmax : o.maxSteps with
  | none => rfl
  | some n =>
    rw [hmax] at hleft
    have hn : n - m.completed ≠ 0 := fun h => hleft (congrArg some h)
    show some n = some (m.completed + (n - m.completed))
    rw [Option.some.injEq]
    omega

/-- The first attempt of a run for all instructions that are left. -/
theorem runUpTo_remaining {m : Machine} (hgoing : m.state.isTerminal = false)
    (hleft : remaining o m ≠ some 0) (fuel : Nat) :
    m.runUpTo (remaining o m) (fuel + 1) =
      match Machine.attempt { m with state := .running } with
      | (.goesOn, m') =>
        Machine.runFrom (Machine.limitGoal m.completed (remaining o m)) fuel true m'
      | (.ends state, m') => m'.endIn state
      | (.waits, m') => (.waiting, m') := by
  have hreached : (Machine.limitGoal m.completed (remaining o m)).reached? false
      { m with state := .running } = none :=
    (limitGoal_reached? (maxSteps_of_remaining hleft) hleft false).trans (if_neg hleft)
  rewrite [Machine.runUpTo_eq m hgoing, Machine.runFrom, hreached]
  rfl

/-- In a run that has begun, one attempt after the other comes to what the rest of the run comes to.
The induction is on the attempts; each of them asks anew for what is left of the limit. -/
theorem proceedThrough_running (huntraced : o.isTraced = false) {start : Nat}
    {limit : Option Nat} (hlimit : o.maxSteps = limit.map (start + ·)) (hpos : limit ≠ some 0)
    {m : Machine} (hstate : m.state = .running) (fuel : Nat) (begun : Bool) :
    proceedThrough o fuel m =
      Machine.runFrom (Machine.limitGoal start limit) fuel begun m := by
  induction fuel generalizing m begun with
  | zero => rfl
  | succ fuel ih =>
    rw [proceedThrough, Machine.runFrom, limitGoal_reached? hlimit hpos]
    by_cases hleft : remaining o m = some 0
    · rw [if_pos hleft, if_pos hleft]
    · have hgoing : m.state.isTerminal = false := by rw [hstate]; rfl
      have hrunning : { m with state := .running } = m := by rw [← hstate]
      have hkept := attempt_state m
      rw [if_neg hleft, if_neg hleft, proceed_eq_runUpTo huntraced,
        runUpTo_remaining hgoing hleft 0, hrunning]
      generalize m.attempt = attempted at hkept
      obtain ⟨attempt, m'⟩ := attempted
      cases attempt with
      | goesOn => exact ih (hkept.trans hstate) true
      | ends state => rfl
      | waits => rfl

/-- A session that steps through its program itself, without a trace, goes on as it would with one
run for all instructions that are left. -/
theorem proceedThrough_eq_runUpTo (huntraced : o.isTraced = false) {m : Machine}
    (hgoing : m.state.isTerminal = false) (hleft : remaining o m ≠ some 0) (fuel : Nat) :
    proceedThrough o (fuel + 1) m = m.runUpTo (remaining o m) (fuel + 1) := by
  have hkept := attempt_state { m with state := .running }
  rw [proceedThrough, if_neg hleft, proceed_eq_runUpTo huntraced,
    runUpTo_remaining hgoing hleft 0, runUpTo_remaining hgoing hleft fuel]
  generalize Machine.attempt { m with state := .running } = attempted at hkept
  obtain ⟨attempt, m'⟩ := attempted
  cases attempt with
  | goesOn =>
    exact proceedThrough_running huntraced (maxSteps_of_remaining hleft) hleft hkept fuel true
  | ends state => rfl
  | waits => rfl

end Session

end MipsLab.CommandLine
