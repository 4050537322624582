import MipsLab.Proofs.DebuggingAids

/-!
# Steps over and out of calls

A step over an instruction, or out of a call, is a run that stops by itself as soon as no more than
some calls are open. If the instruction is a call whose body returns from every call that it makes,
this is right behind the return.

1. `Machine.StopsWithin`: what it means to stop at the first such step, or before it for a reason of
   any other kind.
2. `Machine.stopsWithin_runFrom`: runs with these goals do so, also when they are taken up again.
3. `Machine.stepIn_calls`: what an instruction does to the open calls.
4. `Machine.Executes.calls`: instructions whose calls are balanced leave them as they were.
5. `calls_stepped`: all that for the steps of a debugger.
-/

namespace MipsLab

/-! ## Bounds on the open calls -/

namespace Machine

/-- Whether a run has done something, and no more than some calls are open after `k` steps. -/
def within? (m : Machine) (bound k : Nat) : Option PauseReason :=
  if 0 < k ∧ (m.stepped k).calls.depth ≤ bound then some .step else none

/-- Runs, each with its number of attempts, stop at the first step after which no more than some
calls are open, unless there is another reason to stop there or before: the step does not lead on,
or there is a breakpoint behind it. -/
structure StopsWithin (m : Machine) (bound : Nat) (runs : Nat → Progress × Machine) : Prop where
  /-- However many attempts there are, they are steps up to the first reason to stop. -/
  like : ∀ fuel, ∃ k, k ≤ fuel ∧ m.LeadsTo (m.within? bound) k ∧
    m.EndsLike (m.within? bound) fuel k (runs fuel)
  /-- If there is a first reason to stop, and there are enough attempts, they come to it. -/
  ends : ∀ k state, m.LeadsTo (m.within? bound) k → m.restAfter? (m.within? bound) k = some state →
    ∀ fuel, k < fuel → ∃ final, runs fuel = (.ended state.result, final) ∧
      final.state = state ∧ final.Agrees (m.stepped k)

variable {m : Machine} {bound k : Nat}

theorem reaches_overCall (m : Machine) (bound : Nat) :
    m.Reaches (.overCall bound) (m.within? bound) := by
  intro k a h
  unfold Goal.reached? within?
  simp only [h.calls]
  by_cases hk : 0 < k <;> by_cases hdepth : bound < (m.stepped k).calls.depth <;>
    simp [hk, hdepth, Nat.not_le_of_lt, Nat.le_of_not_lt]

/-- To leave a call is to come back to fewer calls. -/
theorem reaches_outOfCall (m : Machine) (bound : Nat) :
    m.Reaches (.outOfCall (bound + 1)) (m.within? bound) :=
  m.reaches_overCall bound

theorem stopsWithin_of_reaches {a : Machine} {goal : Goal} (hstate : m.state.isTerminal = false)
    (hagrees : a.Agrees m) (hgoal : m.Reaches goal (m.within? bound)) :
    m.StopsWithin bound fun fuel => runFrom goal fuel false a where
  like fuel := runFrom_endsLike hstate hagrees hgoal fuel
  ends k state hk hrest fuel hfuel := by
    obtain ⟨n, -, hn, hends⟩ := runFrom_endsLike hstate hagrees hgoal fuel
    exact ended_of_restAfter hn hends hk hrest hfuel

/-- A run that is taken up where more calls are open is like one that has not begun. -/
theorem stopsWithin_runFrom (hstate : m.state.isTerminal = false) {begun : Bool}
    (hbegun : begun = true → bound < m.calls.depth) :
    (m.StopsWithin bound fun fuel => runFrom (.overCall bound) fuel begun m) ∧
      m.StopsWithin bound fun fuel => runFrom (.outOfCall (bound + 1)) fuel begun m := by
  have hover := stopsWithin_of_reaches hstate (.refl m) (m.reaches_overCall bound)
  have hout := stopsWithin_of_reaches hstate (.refl m) (m.reaches_outOfCall bound)
  cases begun with
  | false => exact ⟨hover, hout⟩
  | true =>
    have hdepth := hbegun rfl
    have hsame (goal : Goal) (hgoal : goal.reached? true m = goal.reached? false m) :
        (fun fuel => runFrom goal fuel true m) = fun fuel => runFrom goal fuel false m := by
      funext fuel
      cases fuel with
      | zero => rfl
      | succ fuel => rw [runFrom, runFrom, hgoal]
    rw [hsame (.overCall bound) (if_pos (by simpa using hdepth)),
      hsame (.outOfCall (bound + 1)) (if_pos (by simpa using Nat.succ_le_of_lt hdepth))]
    exact ⟨hover, hout⟩

theorem stopsWithin_stepOver (hstate : m.state.isTerminal = false) :
    m.StopsWithin m.calls.depth m.stepOver := by
  have hruns : m.stepOver = fun fuel =>
      runFrom (.overCall m.calls.depth) fuel false { m with state := .running } := by
    funext fuel
    rw [stepOver, runTo, hstate]
    rfl
  have hagrees : Agrees { m with state := .running } m := rfl
  rw [hruns]
  exact stopsWithin_of_reaches hstate hagrees (m.reaches_overCall m.calls.depth)

theorem stopsWithin_stepOut (hstate : m.state.isTerminal = false) (hdepth : 0 < m.calls.depth) :
    m.StopsWithin (m.calls.depth - 1) m.stepOut := by
  have hsucc : m.calls.depth - 1 + 1 = m.calls.depth := Nat.sub_add_cancel hdepth
  have hruns : m.stepOut = fun fuel =>
      runFrom (.outOfCall (m.calls.depth - 1 + 1)) fuel false { m with state := .running } := by
    funext fuel
    rw [stepOut, if_neg (Nat.ne_of_gt hdepth), runTo, hstate, hsucc]
    rfl
  have hagrees : Agrees { m with state := .running } m := rfl
  rw [hruns]
  exact stopsWithin_of_reaches hstate hagrees (m.reaches_outOfCall (m.calls.depth - 1))

end Machine

/-! ## What instructions do to the open calls -/

/-- Whether an instruction is a call. -/
def Instr.isCall : Instr → Bool
  | jal _ | jalr _ _ => true
  | _ => false

/-- What only some kinds of instructions do to the open calls is part of their effects. -/
theorem Instr.effect_keep {i : Instr} (hcall : i.isCall = false) (hreturn : i ≠ .jr Reg.ra)
    {pc : Address} {trap : Bool} {regs : Registers} {memory : Memory} {e : Effect}
    (h : i.effect pc trap regs memory = .ok e) : e.call = .keep := by
  cases i with
  | alu | aluImm | mulDiv =>
    obtain ⟨value, -, rfl⟩ := map_ok_inv h
    rfl
  | jr rs =>
    obtain rfl := Except.ok.inj h
    exact if_neg fun hrs => hreturn (congrArg Instr.jr hrs)
  | jal | jalr => exact nomatch hcall
  | moveFrom register | moveTo register =>
    cases register <;> exact Except.ok.inj h ▸ rfl
  | branch cond rs rt offset =>
    unfold effect at h
    simp only at h
    split at h <;> exact Except.ok.inj h ▸ rfl
  | load | store =>
    unfold effect at h
    simp only at h
    split at h
    · exact Except.ok.inj h ▸ rfl
    · exact nomatch h
  | shift | syscall | brk | lui | j => exact Except.ok.inj h ▸ rfl

namespace Machine

variable {m : Machine} {i : Instr}

/-- The instruction at the current address, if there is one. -/
def fetched? (m : Machine) : Option Instr := (m.memory.textWord? m.pc).bind Instr.decode?

theorem step_of_fetched (h : m.fetched? = some i) : m.step = m.execute i := by
  obtain ⟨word, hword, hdecode⟩ := Option.bind_eq_some_iff.mp h
  unfold step
  rw [hword]
  simp only [hdecode]

theorem stepIn_calls (hstate : m.state.isTerminal = false) (h : m.fetched? = some i) :
    m.stepIn.2.calls = (m.execute i).2.calls := by
  rw [← step_of_fetched h]
  obtain ⟨ended, m', hstep⟩ : ∃ ended m', m.step = (ended, m') := ⟨_, _, rfl⟩
  rw [hstep]
  cases ended with
  | ran => rw [stepIn_ran hstate hstep]; rfl
  | stopped stop => rw [stepIn_stopped hstate hstep]; rfl
  | waiting => rw [stepIn_waiting hstate hstep]

theorem execute_calls_keep (m : Machine) (hcall : i.isCall = false) (hreturn : i ≠ .jr Reg.ra) :
    (m.execute i).2.calls = m.calls := by
  rw [execute_eq_outcome]
  unfold outcome
  split
  · exact m.syscall_calls
  · rfl
  · split
    · next e heffect =>
      show e.onCalls m.pc _ m.calls = m.calls
      unfold Effect.onCalls
      rw [Instr.effect_keep hcall hreturn heffect]
    · rfl

theorem execute_calls_open (m : Machine) (hcall : i.isCall = true) :
    ∃ callee regs, (m.execute i).2.calls = m.calls.push m.pc callee regs := by
  cases i with
  | jal | jalr => exact ⟨_, _, rfl⟩
  | _ => exact nomatch hcall

theorem execute_calls_close (m : Machine) :
    (m.execute (.jr Reg.ra)).2.calls = m.calls.pop := rfl

end Machine

/-! ## Balanced calls -/

/-- Each call is followed by its return, a jump back to `$ra`, and the calls and returns between the
two are balanced themselves. -/
inductive Instr.Balanced : List Instr → Prop
  | nil : Balanced []
  | plain {i : Instr} {rest : List Instr} (hcall : i.isCall = false) (hreturn : i ≠ .jr Reg.ra)
    (hrest : Balanced rest) : Balanced (i :: rest)
  | call {i : Instr} {body rest : List Instr} (hcall : i.isCall = true) (hbody : Balanced body)
    (hrest : Balanced rest) : Balanced (i :: (body ++ .jr Reg.ra :: rest))

namespace Machine

/-- The next step completes an instruction and leads on. -/
structure Completes (m : Machine) (i : Instr) : Prop where
  alive : m.state.isTerminal = false
  fetched : m.fetched? = some i
  ran : m.step.1 = .ran

/-- So do the next steps, one after the other. -/
def Executes (m : Machine) : List Instr → Prop
  | [] => True
  | i :: rest => m.Completes i ∧ m.stepIn.2.Executes rest

variable {m : Machine} {i : Instr} {instrs first rest : List Instr}

theorem stepped_succ (m : Machine) (k : Nat) : m.stepped (k + 1) = m.stepIn.2.stepped k := by
  rw [Nat.add_comm]
  exact (m.stepped_add 1 k).symm

theorem Completes.stepIn_eq (h : m.Completes i) :
    m.stepIn = (.ended (.ok ()), m.step.2.enter (.paused .step)) :=
  stepIn_ran h.alive (Prod.ext h.ran rfl)

instance (m : Machine) (i : Instr) : Decidable (m.Completes i) :=
  decidable_of_iff (m.state.isTerminal = false ∧ m.fetched? = some i ∧ m.step.1 = .ran)
    ⟨fun ⟨alive, fetched, ran⟩ => ⟨alive, fetched, ran⟩, fun h => ⟨h.alive, h.fetched, h.ran⟩⟩

instance decidableExecutes : (m : Machine) → (instrs : List Instr) → Decidable (m.Executes instrs)
  | _, [] => .isTrue trivial
  | m, _ :: rest =>
    have := decidableExecutes m.stepIn.2 rest
    inferInstanceAs (Decidable (_ ∧ _))

theorem executes_append :
    m.Executes (first ++ rest) ↔ m.Executes first ∧ (m.stepped first.length).Executes rest := by
  induction first generalizing m with
  | nil => exact (true_and _).symm.to_iff
  | cons i first ih =>
    rw [List.cons_append, List.length_cons, stepped_succ, Executes, Executes, ih, and_assoc]

theorem Executes.completes (h : m.Executes instrs) {k : Nat} (hk : k < instrs.length) :
    (m.stepped k).Completes instrs[k] := by
  induction instrs generalizing m k with
  | nil => exact absurd hk (Nat.not_lt_zero k)
  | cons i rest ih =>
    cases k with
    | zero => exact h.1
    | succ k =>
      rw [stepped_succ]
      exact ih h.2 (Nat.lt_of_succ_lt_succ hk)

theorem pop_push (s : CallStack) (caller callee : Address) (regs : Registers) :
    (s.push caller callee regs).pop = s := by
  obtain ⟨depth, frames⟩ := s
  cases frames <;> simp [CallStack.push, CallStack.pop]

/-- A call, a body that leaves the open calls as they were, and the return. -/
theorem Completes.call_calls (h : m.Completes i) (hcall : i.isCall = true) {n : Nat}
    (hbody : (m.stepIn.2.stepped n).calls = m.stepIn.2.calls ∧
      ∀ k, k ≤ n → m.stepIn.2.calls.depth ≤ (m.stepIn.2.stepped k).calls.depth)
    (hreturn : (m.stepIn.2.stepped n).Completes (.jr Reg.ra)) :
    (m.stepped (n + 2)).calls = m.calls ∧
      ∀ k, 0 < k → k ≤ n + 1 → m.calls.depth < (m.stepped k).calls.depth := by
  obtain ⟨callee, regs, hopen⟩ := m.execute_calls_open hcall
  rw [← stepIn_calls h.alive h.fetched] at hopen
  constructor
  · have hclose := stepIn_calls hreturn.alive hreturn.fetched
    rw [execute_calls_close, hbody.1, hopen, pop_push] at hclose
    rw [stepped_succ]
    exact hclose
  · intro k hpos hk
    obtain ⟨k, rfl⟩ := Nat.exists_eq_succ_of_ne_zero (Nat.ne_of_gt hpos)
    have hdepth := hbody.2 k (Nat.le_of_succ_le_succ hk)
    rw [hopen] at hdepth
    rw [Nat.succ_eq_add_one, stepped_succ]
    exact hdepth

/-- Instructions whose calls are balanced never close a call that has been open before, and leave
the open calls as they were. The induction is on how they are balanced. -/
theorem Executes.calls (h : m.Executes instrs) (hbalanced : Instr.Balanced instrs) :
    (m.stepped instrs.length).calls = m.calls ∧
      ∀ k, k ≤ instrs.length → m.calls.depth ≤ (m.stepped k).calls.depth := by
  induction hbalanced generalizing m with
  | nil =>
    refine ⟨rfl, fun k hk => ?_⟩
    obtain rfl := Nat.le_zero.mp hk
    exact Nat.le_refl _
  | @plain i rest hcall hreturn _ ih =>
    obtain ⟨hi, hrest⟩ := h
    have hkept : m.stepIn.2.calls = m.calls := by
      rw [stepIn_calls hi.alive hi.fetched, execute_calls_keep m hcall hreturn]
    obtain ⟨hcalls, hdepth⟩ := ih hrest
    rw [List.length_cons]
    refine ⟨?_, fun k hk => ?_⟩
    · rw [stepped_succ, hcalls, hkept]
    · cases k with
      | zero => exact Nat.le_refl _
      | succ k =>
        rw [stepped_succ, ← hkept]
        exact hdepth k (Nat.le_of_succ_le_succ hk)
  | @call i body rest hcall _ _ ihbody ihrest =>
    obtain ⟨hi, hbehind⟩ := h
    obtain ⟨hbody, hreturn, hrest⟩ := executes_append.mp hbehind
    obtain ⟨hcalls, hdepth⟩ := hi.call_calls hcall (ihbody hbody) hreturn
    have hbehind : (m.stepIn.2.stepped body.length).stepIn.2 = m.stepped (body.length + 2) :=
      (m.stepped_succ (body.length + 1)).symm
    rw [hbehind] at hrest
    obtain ⟨hcalls', hdepth'⟩ := ihrest hrest
    have hlength : (i :: (body ++ .jr Reg.ra :: rest)).length = body.length + 2 + rest.length := by
      simp only [List.length_cons, List.length_append]
      omega
    rw [hlength]
    refine ⟨?_, fun k hk => ?_⟩
    · rw [← stepped_add, hcalls', hcalls]
    · rcases Nat.lt_or_ge k (body.length + 2) with hlt | hge
      · cases k with
        | zero => exact Nat.le_refl _
        | succ k => exact Nat.le_of_lt (hdepth (k + 1) (Nat.succ_pos k) (Nat.le_of_lt_succ hlt))
      · obtain ⟨j, rfl⟩ := Nat.exists_eq_add_of_le hge
        rw [← stepped_add, ← hcalls]
        exact hdepth' j (Nat.le_of_add_le_add_left hk)

/-! ## Steps over instructions -/

theorem leadsTo_one (hwait : m.stepIn.1 ≠ .waiting) (bound : Nat) :
    m.LeadsTo (m.within? bound) 1 := by
  intro j hj
  obtain rfl := Nat.lt_one_iff.mp hj
  exact ⟨rfl, hwait⟩

/-- Behind an instruction that is not a call, the step over it has a reason to stop. -/
theorem stepOver_plain (hstate : m.state.isTerminal = false) (h : m.fetched? = some i)
    (hcall : i.isCall = false) (hwait : m.stepIn.1 ≠ .waiting) {fuel : Nat} (hfuel : 1 < fuel) :
    ∃ final, m.stepOver fuel = (.ended final.state.result, final) ∧
      m.restAfter? (m.within? m.calls.depth) 1 = some final.state ∧ final.Agrees m.stepIn.2 := by
  have hdepth : m.stepIn.2.calls.depth ≤ m.calls.depth := by
    rw [stepIn_calls hstate h]
    by_cases hreturn : i = .jr Reg.ra
    · rw [hreturn]
      exact Nat.sub_le _ 1
    · exact Nat.le_of_eq (congrArg CallStack.depth (execute_calls_keep m hcall hreturn))
  have hwithin : m.within? m.calls.depth 1 = some .step := if_pos ⟨Nat.one_pos, hdepth⟩
  obtain ⟨state, hrest⟩ : ∃ state, m.restAfter? (m.within? m.calls.depth) 1 = some state := by
    unfold restAfter?
    rw [hwithin]
    split
    · exact ⟨_, rfl⟩
    · split
      · exact ⟨_, rfl⟩
      · exact ⟨_, rfl⟩
  obtain ⟨final, hresult, rfl, hagrees⟩ :=
    (stopsWithin_stepOver hstate).ends 1 state (leadsTo_one hwait _) hrest fuel hfuel
  exact ⟨final, hresult, hrest, hagrees⟩

/-- Between a call and its return, the step over it has no reason to stop but a breakpoint. -/
theorem stepOver_call {body : List Instr} (hcall : i.isCall = true)
    (hbody : Instr.Balanced body) (h : m.Executes (i :: (body ++ [.jr Reg.ra])))
    (hfree : ∀ k, 0 < k → k ≤ body.length + 1 → (m.stepped k).atBreakpoint = false) {fuel : Nat}
    (hfuel : body.length + 2 < fuel) :
    ∃ final, m.stepOver fuel = (.ended (.ok ()), final) ∧
      final.Agrees (m.stepped (body.length + 2)) ∧ final.calls = m.calls ∧
      final.state = .paused
        (if (m.stepped (body.length + 2)).atBreakpoint then .breakpoint else .step) := by
  obtain ⟨hexecutes, hreturn, -⟩ := executes_append.mp h.2
  obtain ⟨hcalls, hdepth⟩ := h.1.call_calls hcall (hexecutes.calls hbody) hreturn
  have hlength : (i :: (body ++ [.jr Reg.ra])).length = body.length + 2 := by simp
  have hcompletes (k : Nat) (hk : k < body.length + 2) :
      (m.stepped k).stepIn = (.ended (.ok ()), (m.stepped k).step.2.enter (.paused .step)) :=
    (h.completes (hlength ▸ hk)).stepIn_eq
  have hpaused (k : Nat) (hk : k < body.length + 2) :
      (m.stepped (k + 1)).state = .paused .step := by
    show (m.stepped k).stepIn.2.state = _
    rw [hcompletes k hk]
    rfl
  have hlead : m.LeadsTo (m.within? m.calls.depth) (body.length + 2) := by
    intro j hj
    refine ⟨?_, by rw [hcompletes j hj]; nofun⟩
    cases j with
    | zero => rfl
    | succ j =>
      have hopen := hdepth (j + 1) (Nat.succ_pos j) (Nat.le_of_lt_succ hj)
      rw [restAfter?_of_ran (hpaused j (Nat.lt_of_succ_lt hj))
        (hfree (j + 1) (Nat.succ_pos j) (Nat.le_of_lt_succ hj)), within?,
        if_neg fun hwithin => Nat.not_lt_of_le hwithin.2 hopen]
      rfl
  have hrest : m.restAfter? (m.within? m.calls.depth) (body.length + 2) = some (.paused
      (if (m.stepped (body.length + 2)).atBreakpoint then .breakpoint else .step)) := by
    have hlast := hpaused (body.length + 1) (Nat.lt_succ_self _)
    cases hbreak : (m.stepped (body.length + 2)).atBreakpoint with
    | true => exact restAfter?_of_breakpoint hlast hbreak
    | false =>
      rw [restAfter?_of_ran hlast hbreak, within?,
        if_pos ⟨Nat.succ_pos _, Nat.le_of_eq (congrArg CallStack.depth hcalls)⟩]
      rfl
  obtain ⟨final, hresult, hfinal, hagrees⟩ :=
    (stopsWithin_stepOver h.1.alive).ends _ _ hlead hrest fuel hfuel
  exact ⟨final, hresult, hagrees, hagrees.calls.trans hcalls, hfinal⟩

end Machine

/-- On every machine that has not ended, a step over an instruction goes to the first step after
which no more calls are open than before, and a step out of a call to the first one after which
there are fewer, unless there is another reason to stop there or before; without an open call it
does nothing. This is also so for a step that is taken up again after it has waited or has used up
its attempts. In particular, a step over an instruction that is not a call is one step. And a step
over a call whose body is balanced stops right behind the return, with the calls open that have been
open before, if there is no breakpoint in between. -/
theorem calls_stepped (m : Machine) (hstate : m.state.isTerminal = false) :
    m.StopsWithin m.calls.depth m.stepOver ∧
    (0 < m.calls.depth → m.StopsWithin (m.calls.depth - 1) m.stepOut) ∧
    (m.calls.depth = 0 → ∀ fuel, m.stepOut fuel = (.ended (.ok ()), m)) ∧
    (∀ bound begun, (begun = true → bound < m.calls.depth) →
      (m.StopsWithin bound fun fuel => Machine.runFrom (.overCall bound) fuel begun m) ∧
        m.StopsWithin bound fun fuel => Machine.runFrom (.outOfCall (bound + 1)) fuel begun m) ∧
    (∀ i, m.fetched? = some i → i.isCall = false → m.stepIn.1 ≠ .waiting → ∀ fuel, 1 < fuel →
      ∃ final, m.stepOver fuel = (.ended final.state.result, final) ∧
        m.restAfter? (m.within? m.calls.depth) 1 = some final.state ∧
        final.Agrees m.stepIn.2) ∧
    ∀ i body, i.isCall = true → Instr.Balanced body →
      m.Executes (i :: (body ++ [.jr Reg.ra])) →
      (∀ k, 0 < k → k ≤ body.length + 1 → (m.stepped k).atBreakpoint = false) →
      ∀ fuel, body.length + 2 < fuel →
        ∃ final, m.stepOver fuel = (.ended (.ok ()), final) ∧
          final.Agrees (m.stepped (body.length + 2)) ∧ final.calls = m.calls ∧
          final.state = .paused
            (if (m.stepped (body.length + 2)).atBreakpoint then .breakpoint else .step) := by
  exact ⟨Machine.stopsWithin_stepOver hstate, Machine.stopsWithin_stepOut hstate,
    fun hdepth fuel => if_pos hdepth, fun bound begun => Machine.stopsWithin_runFrom hstate,
    fun i hi hcall hwait fuel => Machine.stepOver_plain hstate hi hcall hwait,
    fun i body hcall hbody h hfree fuel => Machine.stepOver_call hcall hbody h hfree⟩

/-- A call that makes a call itself. -/
theorem calls_stepped_nested :
    let p := (assemble (.ofString
      "main: jal f\nnop\nf: move $t0, $ra\njal g\nmove $ra, $t0\njr $ra\ng: jr $ra")).program
    let m := (Machine.create { stackBudget := 0 }).load p
    (m.stepped 1).calls.depth = 1 ∧ (m.stepped 3).calls.depth = 2 ∧
      ∃ final, m.stepOver 7 = (.ended (.ok ()), final) ∧ final.pc = 0x00400004 ∧
        final.calls.depth = 0 ∧ final.state = .paused .step := by
  intro p m
  let call : Instr := .jal 0x00100002
  let keep : Instr := .alu .addu 8 Reg.ra Reg.zero
  let inner : Instr := .jal 0x00100006
  let restore : Instr := .alu .addu Reg.ra 8 Reg.zero
  let body : List Instr := [keep, inner, .jr Reg.ra, restore]
  have hbody : Instr.Balanced body :=
    .plain rfl (by decide) (.call rfl .nil (.plain rfl (by decide) .nil))
  obtain ⟨hone, hthree, hexecutes, hpc, hbreak⟩ : (m.stepped 1).calls.depth = 1 ∧
      (m.stepped 3).calls.depth = 2 ∧ m.Executes (call :: (body ++ [.jr Reg.ra])) ∧
      (m.stepped (body.length + 2)).pc = 0x00400004 ∧
      ∀ k, k < body.length + 3 → (m.stepped k).atBreakpoint = false := by
    decide +kernel
  obtain ⟨-, -, -, -, -, hcall⟩ := calls_stepped m rfl
  obtain ⟨final, hresult, hagrees, hcalls, hstate⟩ := hcall call body rfl hbody hexecutes
    (fun k _ hk => hbreak k (Nat.lt_of_le_of_lt hk (by decide))) 7 (by decide)
  rw [hbreak (body.length + 2) (Nat.lt_succ_self _)] at hstate
  refine ⟨hone, hthree, final, hresult, hagrees.pc.trans hpc, ?_, hstate⟩
  rw [hcalls]
  rfl

end MipsLab
