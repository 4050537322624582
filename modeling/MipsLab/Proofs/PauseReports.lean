import MipsLab.Proofs.Sessions

/-!
# Reports about pauses

What a session tells about the instructions that have been completed, and when: the registers after
each break instruction and, without a trace, at each label that the user has asked for.

1. `atBreakpoint_iff`: the breakpoints of a session are its labels.
2. `arrivalLines`, `told`: what is to be told, in terms of the labels.
3. `arrivals_reported`: it has been told before the next instruction is completed.
4. `arrivals_unreported`: with a trace, arrivals at labels are passed over.
-/

namespace MipsLab.CommandLine

variable {o : RunOptions} {p : Program} {source : Source} {stdin : List UInt8}
  {breakpoints : List Breakpoint} {moves : List Session.Move} {s : Session} {k : Nat}

/-! ## Labels -/

/-- Whether the next instruction is at a label at which to show the registers. -/
def isAtLabel (o : RunOptions) (p : Program) (m : Machine) : Bool :=
  o.breaks.any fun label => p.symbols.address? label = some m.pc

/-- The breakpoints at labels are at the addresses of the labels. -/
theorem mem_breakpointsOf {labels : List String} (h : breakpointsOf p labels = .ok breakpoints)
    (b : Breakpoint) :
    b ∈ breakpoints ↔ ∃ label ∈ labels, ∃ address,
      p.symbols.address? label = some address ∧ b = .pc address := by
  induction labels generalizing breakpoints with
  | nil =>
    obtain rfl := Except.ok.inj h
    simp
  | cons label labels ih =>
    rw [breakpointsOf, List.mapM_cons] at h
    obtain ⟨first, hfirst, h⟩ := bind_ok_inv h
    obtain ⟨rest, hrest, h⟩ := bind_ok_inv h
    obtain rfl := Except.ok.inj h
    obtain ⟨address, haddress, rfl⟩ :
        ∃ address, p.symbols.address? label = some address ∧ first = .pc address := by
      cases haddress : p.symbols.address? label with
      | none =>
        rw [haddress] at hfirst
        exact nomatch hfirst
      | some address =>
        rw [haddress] at hfirst
        exact ⟨address, rfl, (Except.ok.inj hfirst).symm⟩
    simp [ih hrest, haddress]

/-- A machine that goes on as a session started is at a breakpoint if it is at a label. -/
theorem atBreakpoint_eq (h : breakpointsOf p o.breaks = .ok breakpoints) (stdin : List UInt8)
    (k : Nat) :
    let m := ((startSession o p breakpoints).alone stdin).stepped k
    m.atBreakpoint = isAtLabel o p m := by
  intro m
  obtain ⟨all, hall, hmem⟩ :=
    addBreakpoint_foldl breakpoints ((Machine.create (flagsOf o)).load p)
  have hbreakpoints : m.breakpoints = all := by
    rw [(Machine.stepped_kept _ k).2, Session.alone, startSession_machine, hall]
  have hany (b : Breakpoint) : b ∈ all ↔ ∃ label ∈ o.breaks, ∃ address,
      p.symbols.address? label = some address ∧ b = .pc address := by
    rw [hmem, ← mem_breakpointsOf h]
    exact or_iff_left List.not_mem_nil
  rw [Bool.eq_iff_iff, Machine.atBreakpoint, isAtLabel, List.any_eq_true, List.any_eq_true,
    hbreakpoints]
  constructor
  · rintro ⟨b, hb, hmeets⟩
    obtain ⟨label, hlabel, address, haddress, rfl⟩ := (hany b).mp hb
    have hpc : m.pc = address := of_decide_eq_true hmeets
    exact ⟨label, hlabel, by rw [haddress, hpc]; exact decide_eq_true rfl⟩
  · rintro ⟨label, hlabel, hpc⟩
    have haddress : p.symbols.address? label = some m.pc := of_decide_eq_true hpc
    exact ⟨.pc m.pc, (hany _).mpr ⟨label, hlabel, m.pc, haddress, rfl⟩, decide_eq_true rfl⟩

/-! ## What is to be told -/

/-- What a session tells about an instruction that has left the machine as it is: after a break
instruction, and without a trace at a label, where the machine is, and the registers. -/
def arrivalLines (o : RunOptions) (p : Program) (m : Machine) : List String :=
  match m.state with
  | .paused .breakInstruction => pauseLines p .breakInstruction m.pc m.registers
  | .paused .step =>
    if !o.isTraced && isAtLabel o p m then pauseLines p .breakpoint m.pc m.registers else []
  | _ => []

/-- What a session tells about the first `k` instructions of a machine. -/
def told (o : RunOptions) (p : Program) (r : Machine) (k : Nat) : List String :=
  (List.range k).flatMap fun i =>
    (if o.isTraced then [traceLine p (r.stepped i).pc] else []) ++
      arrivalLines o p (r.stepped (i + 1))

theorem report_eq_arrivalLines (h : breakpointsOf p o.breaks = .ok breakpoints)
    (stdin : List UInt8) (k : Nat) :
    let m := ((startSession o p breakpoints).alone stdin).stepped k
    report o.isTraced p m = arrivalLines o p m := by
  intro m
  have hlabel : m.atBreakpoint = isAtLabel o p m := atBreakpoint_eq h stdin k
  rw [report, hlabel]
  rfl

theorem account_eq_told (h : breakpointsOf p o.breaks = .ok breakpoints) (stdin : List UInt8)
    (k : Nat) :
    account o.isTraced p ((startSession o p breakpoints).alone stdin) k =
      told o p ((startSession o p breakpoints).alone stdin) k := by
  unfold account told
  congr 1
  funext i
  rw [report_eq_arrivalLines h]
  rfl

/-! ## When it is told -/

/-- Before a session completes an instruction it has told about all instructions before, and about
nothing else. When it ends it has told about all of them, the last one of which may have failed, and
then why it ends. -/
theorem arrivals_reported (hrun : run o source = .session s)
    (hdelivers : Session.Delivers stdin moves) :
    (∀ s', s.moved moves = (.busy, s') →
        s'.turn.2.machine.completed ≠ s'.machine.completed →
        s'.notes.toList = told o s.program (s.alone stdin) s'.machine.completed) ∧
      ∀ code s', s.moved moves = (.ended code, s') →
        ∃ attempts state,
          (attempts = s'.machine.completed ∨ attempts = s'.machine.completed + 1) ∧
            s'.notes.toList =
              told o s.program (s.alone stdin) attempts ++
                Session.closingLines s.program o state := by
  obtain ⟨p, breakpoints, -, hbreakpoints, rfl⟩ := run_eq_session_iff.mp hrun
  obtain ⟨later, rfl, hends⟩ := hdelivers
  have hr := provided_start o p breakpoints (Input.bytes (Session.arrivals moves ++ later))
  have hat := at_start o p breakpoints hends
  have hprogram : (startSession o p breakpoints).program = p := rfl
  rw [hprogram]
  obtain ⟨code, s', hmoved, hconcluded⟩ | ⟨s', k, owed, hmoved, -, hat'⟩ := hat.moved hr
  · rw [hmoved]
    refine ⟨fun _ hbusy => (nomatch congrArg Prod.fst hbusy), fun _ _ hended => ?_⟩
    obtain ⟨-, rfl⟩ := Prod.mk.inj hended
    cases hconcluded with
    | @finished k hgoing _ _ hsame hnotes =>
      refine ⟨k + 1, _, ?_, by rw [hnotes, account_eq_told hbreakpoints]⟩
      rw [← hsame.completed]
      obtain hcompleted | hcompleted := hr.completed_next hgoing <;> omega
    | @limited n _ hgoing hsame hnotes =>
      refine ⟨n, _, .inl ?_, by rw [hnotes, account_eq_told hbreakpoints]⟩
      rw [← hsame.completed, (hr.going hgoing).2]
  · rw [hmoved]
    refine ⟨fun _ hbusy hnext => ?_, fun _ _ hended => nomatch congrArg Prod.fst hended⟩
    obtain ⟨-, rfl⟩ := Prod.mk.inj hbusy
    obtain ⟨hcompleted, hnotes⟩ := hat'.due hr hnext
    rw [hnotes, hcompleted, account_eq_told hbreakpoints]

/-- A label that is reached with the first instruction of a program, in a run that leaves the
program to a worker. -/
theorem arrivals_reported_label :
    let o : RunOptions := { path := "", heapSize := some 0, stackSize := some 0, breaks := ["L"] }
    ∃ s s', run o (.ofString "nop\nL: nop") = .session s ∧
      s.moved (List.replicate 6 .turn) = (.busy, s') ∧
      isAtLabel o s.program ((s.alone []).stepped 1) = true ∧
      s'.notes.toList = told o s.program (s.alone []) 1 := by
  intro o
  let test (s : Session) : Bool :=
    let after := s.moved (List.replicate 6 .turn)
    after.1 = .busy ∧ after.2.machine.completed = 1 ∧ after.2.turn.2.machine.completed = 2 ∧
      isAtLabel o s.program ((s.alone []).stepped 1)
  obtain ⟨s, hrun, htest⟩ := Response.exists_session
    (show (run o (.ofString "nop\nL: nop")).session?.any test = true by decide +kernel)
  obtain ⟨hbusy, hbefore, hafter, hlabel⟩ := of_decide_eq_true htest
  have hmoved : s.moved (List.replicate 6 .turn) =
      (.busy, (s.moved (List.replicate 6 .turn)).2) := Prod.ext hbusy rfl
  have hdelivers : Session.Delivers [] (List.replicate 6 .turn) := ⟨[.ends], rfl, rfl⟩
  refine ⟨s, _, hrun, hmoved, hlabel, ?_⟩
  have htold := (arrivals_reported hrun hdelivers).1 _ hmoved (by rw [hbefore, hafter]; decide)
  rw [hbefore] at htold
  exact htold

/-- The reading under which labels are reported in every mode: where an instruction has led to a
label, the registers have been shown before the next one is completed. -/
def ReportsArrivals : Prop :=
  ∀ (o : RunOptions) (source : Source) (stdin : List UInt8) (moves : List Session.Move)
    (s s' : Session) (k : Nat),
    run o source = .session s → Session.Delivers stdin moves → s.moved moves = (.busy, s') →
      s'.turn.2.machine.completed ≠ s'.machine.completed → k < s'.machine.completed →
      let m := (s.alone stdin).stepped (k + 1)
      isAtLabel o s.program m = true →
        ∃ reason, pauseLines s.program reason m.pc m.registers <:+: s'.notes.toList

theorem pauseLines_length (p : Program) (reason : PauseReason) (pc : Address) (regs : Registers) :
    (pauseLines p reason pc regs).length = 10 := by
  have hall : Reg.all.length = 32 := by decide
  simp [pauseLines, registerLines, rows, hall]

/-- With a trace, the session steps on past breakpoints, and arrivals at labels are passed over. -/
theorem arrivals_unreported : ¬ ReportsArrivals := by
  intro hreports
  let o : RunOptions :=
    { path := "", heapSize := some 0, stackSize := some 0, isTraced := true, breaks := ["L"] }
  let test (s : Session) : Bool :=
    let after := s.moved [.turn]
    after.1 = .busy ∧ after.2.machine.completed = 1 ∧ after.2.turn.2.machine.completed = 2 ∧
      isAtLabel o s.program ((s.alone []).stepped 1) ∧ after.2.notes.toList.length = 1
  obtain ⟨s, hrun, htest⟩ := Response.exists_session
    (show (run o (.ofString "nop\nL: nop")).session?.any test = true by decide +kernel)
  obtain ⟨hbusy, hbefore, hafter, hlabel, hnotes⟩ := of_decide_eq_true htest
  obtain ⟨reason, hshown⟩ := hreports o _ [] [.turn] s _ 0 hrun ⟨[.ends], rfl, rfl⟩
    (Prod.ext hbusy rfl) (by rw [hbefore, hafter]; decide) (by rw [hbefore]; decide) hlabel
  have hlength := hshown.length_le
  rw [pauseLines_length, hnotes] at hlength
  exact absurd hlength (by decide)

end MipsLab.CommandLine
