import MipsLab.Proofs.SharedWorker

/-!
# Handshakes

What a controller may rely on when it has seen its command counted and a certain state, whatever
other controllers do. A command is counted while a run that it ends still shows as a run, and a step
command executes its instruction before it is counted, so the count and the state have to be taken
together.

1. `SharedWorker.Sound`: commands are taken in the order in which they are sent and counted once
   each, and at each stage only some states may be shown.
2. `Stage.IsCalm`, `Step.calm`: a worker that executes nothing goes on like that until it takes a
   command that makes it execute something, which none does when the machine has ended.
3. `handshakes_sound`: what a controller has seen holds on.
-/

namespace MipsLab

open Relation

/-! ## Machines that execute nothing -/

theorem Command.act_view (command : Command) (m : Machine) : (command.act m).view = m.view := by
  cases command with
  | stop =>
    show m.stop.view = m.view
    unfold Machine.stop
    split <;> rfl
  | resume | pause | step | setDelay | shutdown => rfl

theorem Command.act_state (command : Command) {m : Machine} (h : m.state.isTerminal = true) :
    (command.act m).state = m.state := by
  cases command with
  | stop => exact congrArg Machine.state (if_pos h)
  | resume | pause | step | setDelay | shutdown => rfl

/-- The command executes nothing in a state of the machine. -/
def Command.IsHarmless (state : ExecState) (command : Command) : Prop :=
  command = .resume ∨ command = .step → state.isTerminal = true

namespace Stage

/-- Which state may be shown at a stage while the machine is in some state. -/
def Admits (shown state : ExecState) : Stage → Prop
  | idle | taken _ | ended => shown = state
  | stepping => shown.isTerminal = false
  | finishing _ => shown.isTerminal = true → state = shown
  | starting => state.isTerminal = true ∧ shown = state ∨ shown = .running
  | between | interrupted _ | obeying _ | executing => shown = .running
  | leaving _ => shown = state ∨ shown = .running

/-- The worker executes nothing, and a command that it has taken will not make it. -/
def IsCalm (state : ExecState) : Stage → Prop
  | idle | finishing _ | leaving _ | ended => True
  | taken command => command.IsHarmless state
  | starting => state.isTerminal = true
  | stepping | between | interrupted _ | obeying _ | executing => False

theorem IsCalm.not_inside {stage : Stage} {state : ExecState} (h : stage.IsCalm state) :
    stage.isInside = false := by
  cases stage with
  | stepping | executing => exact False.elim h
  | _ => rfl

end Stage

namespace SharedWorker

variable {c d : SharedWorker} {i : Nat}

theorem view_eq (h : c.stage.isInside = false) : c.view = c.machine.view := by
  unfold view pc
  rw [h]
  rfl

/-- Only a worker within an instruction changes what can be seen of its machine. -/
theorem Step.view (h : c.Step d) (hinside : c.stage.isInside = false) :
    d.machine.view = c.machine.view := by
  cases h with
  | act | obey => exact Command.act_view _ _
  | waitInStep hstage | endStep hstage | waitInRun hstage | goOn hstage | retry hstage
  | endAttempt hstage =>
    rw [hstage] at hinside
    exact nomatch hinside
  | _ => rfl

/-! ## What is counted and what is shown -/

/-- The commands that have been taken are those that have been counted and the one in hand. -/
def Counted (c : SharedWorker) : Prop :=
  ∃ counted, c.taken = counted ++ c.stage.inHand ∧ counted.length = c.status.handled

/-- Commands are taken in the order in which they are sent and counted once each, and the state that
is shown is the machine's wherever it has to be. -/
structure Sound (c : SharedWorker) : Prop where
  sent : c.sent = c.taken ++ c.queue
  counted : c.Counted
  shown : c.stage.Admits c.status.state c.machine.state

theorem sound_ofMachine (m : Machine) : (ofMachine m).Sound := ⟨rfl, ⟨[], rfl, rfl⟩, rfl⟩

theorem Step.sent (h : c.Step d) (hsent : c.sent = c.taken ++ c.queue) :
    d.sent = d.taken ++ d.queue := by
  cases h with
  | send command =>
    show c.sent ++ [command] = c.taken ++ (c.queue ++ [command])
    rw [hsent, List.append_assoc]
  | take _ hqueue | interrupt _ hqueue =>
    show c.sent = _
    rw [hsent, hqueue, List.append_assoc]
    rfl
  | _ => exact hsent

theorem Step.counted (h : c.Step d) (hcounted : c.Counted) : d.Counted := by
  obtain ⟨counted, htaken, hlength⟩ := hcounted
  cases h with
  | take hstage _ | interrupt hstage _ =>
    refine ⟨counted, ?_, hlength⟩
    show c.taken ++ [_] = counted ++ [_]
    rw [htaken, hstage]
    exact congrArg (· ++ [_]) (List.append_nil counted)
  | resume hstage | count hstage =>
    -- The command in hand joins those that have been counted.
    rw [hstage] at htaken
    refine ⟨c.taken, (List.append_nil _).symm, ?_⟩
    rw [htaken, List.length_append, hlength]
    rfl
  | finish hstage =>
    rw [hstage] at htaken
    refine ⟨c.taken, ?_, ?_⟩
    · split <;> exact (List.append_nil _).symm
    · rw [htaken, List.length_append, hlength]
      rfl
  | send | onConsole | detach | waitInStep | waitInRun => exact ⟨counted, htaken, hlength⟩
  | quit hstage | act hstage | refuseStep hstage | beginStep hstage | endStep hstage
  | refuseRun hstage | beginRun hstage | obey hstage | endRun hstage | abandon hstage
  | beginAttempt hstage | goOn hstage | retry hstage | endAttempt hstage =>
    rw [hstage] at htaken
    exact ⟨counted, htaken, hlength⟩
  | leave hstage =>
    rw [hstage] at htaken
    refine ⟨counted, ?_, hlength⟩
    split <;> exact htaken

theorem Step.shown (h : c.Step d) (hshown : c.stage.Admits c.status.state c.machine.state) :
    d.stage.Admits d.status.state d.machine.state := by
  cases h with
  | send | detach | onConsole => exact hshown
  | take hstage _ | quit hstage _ _ =>
    rw [hstage] at hshown
    exact hshown
  | act hstage _ _ =>
    rw [hstage] at hshown
    have hsame : c.status.state = c.machine.state := hshown
    intro hterminal
    rw [hsame] at hterminal ⊢
    exact Command.act_state _ hterminal
  | refuseStep hstage _ =>
    rw [hstage] at hshown
    have hsame : c.status.state = c.machine.state := hshown
    exact fun _ => hsame.symm
  | beginStep hstage hstate =>
    rw [hstage] at hshown
    have hsame : c.status.state = c.machine.state := hshown
    rw [← hsame] at hstate
    exact hstate
  | waitInStep hstage _ | waitInRun hstage _ =>
    rw [hstage] at hshown ⊢
    exact hshown
  | endStep hstage _ =>
    rw [hstage] at hshown
    have hnot : c.status.state.isTerminal = false := hshown
    intro hterminal
    exact nomatch hnot.symm.trans hterminal
  | finish hstage => split <;> rfl
  | resume hstage =>
    rw [hstage] at hshown
    have hsame : c.status.state = c.machine.state := hshown
    cases hstate : c.machine.state.isTerminal with
    | true => exact .inl ⟨hstate, hsame⟩
    | false => exact .inr rfl
  | refuseRun hstage _ =>
    rw [hstage] at hshown
    rcases hshown with ⟨-, hsame⟩ | hrunning
    · exact .inl hsame
    · exact .inr hrunning
  | beginRun hstage hstate =>
    rw [hstage] at hshown
    rcases hshown with ⟨hended, -⟩ | hrunning
    · exact nomatch hstate.symm.trans hended
    · exact hrunning
  | interrupt hstage _ | count hstage | obey hstage _ | beginAttempt hstage _ _
  | goOn hstage _ | retry hstage _ =>
    rw [hstage] at hshown
    exact hshown
  | endRun hstage _ | abandon hstage _ _ | endAttempt hstage _ _ =>
    rw [hstage] at hshown
    exact .inr hshown
  | leave hstage => split <;> rfl

theorem Sound.step (hc : c.Sound) (h : c.Step d) : d.Sound :=
  ⟨h.sent hc.sent, h.counted hc.counted, h.shown hc.shown⟩

/-! ## Workers that execute nothing -/

/-- Whoever has seen a command counted and no run shown knows that the worker is calm, unless it has
taken a later command that makes it execute something. -/
theorem Sound.calm (hc : c.Sound) (hi : i ≤ c.status.handled) (hstate : c.status.state ≠ .running)
    (hresume : .resume ∉ c.taken.drop i) (hstep : .step ∉ c.taken.drop i) :
    c.stage.IsCalm c.machine.state := by
  -- A command in hand has not been counted, so it is a later one.
  obtain ⟨counted, htaken, hlength⟩ := hc.counted
  rw [htaken, List.drop_append_of_le_length (hlength ▸ hi)] at hresume hstep
  have hshown := hc.shown
  cases hstage : c.stage with
  | idle | finishing _ | leaving _ | ended => exact trivial
  | taken command =>
    rw [hstage] at hresume hstep
    rintro (rfl | rfl)
    · exact absurd (List.mem_append_right _ List.mem_cons_self) hresume
    · exact absurd (List.mem_append_right _ List.mem_cons_self) hstep
  | stepping =>
    rw [hstage] at hstep
    exact absurd (List.mem_append_right _ List.mem_cons_self) hstep
  | starting =>
    rw [hstage] at hshown
    rcases hshown with ⟨hended, -⟩ | hrunning
    · exact hended
    · exact absurd hrunning hstate
  | between | interrupted _ | obeying _ | executing =>
    rw [hstage] at hshown
    exact absurd hshown hstate

/-- Whoever has seen the machine end knows that it has, and that the worker is calm. -/
theorem Sound.ended (hc : c.Sound) (hstate : c.status.state.isTerminal = true) :
    c.machine.state.isTerminal = true ∧ c.stage.IsCalm c.machine.state := by
  have hshown := hc.shown
  have hnot : c.status.state ≠ .running := by
    intro hrunning
    rw [hrunning] at hstate
    exact nomatch hstate
  cases hstage : c.stage with
  | idle | ended =>
    rw [hstage] at hshown
    have hsame : c.status.state = c.machine.state := hshown
    exact ⟨hsame ▸ hstate, trivial⟩
  | taken _ =>
    rw [hstage] at hshown
    have hsame : c.status.state = c.machine.state := hshown
    exact ⟨hsame ▸ hstate, fun _ => hsame ▸ hstate⟩
  | finishing _ =>
    rw [hstage] at hshown
    have hsame : c.machine.state = c.status.state := hshown hstate
    exact ⟨hsame ▸ hstate, trivial⟩
  | starting =>
    rw [hstage] at hshown
    rcases hshown with ⟨hended, -⟩ | hrunning
    · exact ⟨hended, hended⟩
    · exact absurd hrunning hnot
  | leaving _ =>
    rw [hstage] at hshown
    rcases hshown with hsame | hrunning
    · exact ⟨hsame ▸ hstate, trivial⟩
    · exact absurd hrunning hnot
  | stepping =>
    rw [hstage] at hshown
    exact nomatch hstate.symm.trans hshown
  | between | interrupted _ | obeying _ | executing =>
    rw [hstage] at hshown
    exact absurd hshown hnot

theorem Step.taken (h : c.Step d) : ∃ more, d.taken = c.taken ++ more := by
  cases h with
  | take | interrupt => exact ⟨_, rfl⟩
  | _ => exact ⟨[], (List.append_nil _).symm⟩

theorem Reaches.taken (h : c.Reaches d) : ∃ more, d.taken = c.taken ++ more := by
  induction h with
  | refl => exact ⟨[], (List.append_nil _).symm⟩
  | tail _ hlast ih =>
    obtain ⟨more, hmore⟩ := ih
    obtain ⟨last, hlast⟩ := hlast.taken
    exact ⟨more ++ last, by rw [hlast, hmore, List.append_assoc]⟩

/-- A worker that is calm stays so, if a command that it takes executes nothing; and what has ended
has ended. -/
theorem Step.calm (h : c.Step d) (hcalm : c.stage.IsCalm c.machine.state)
    (hnew : ∀ command, d.taken = c.taken ++ [command] → command.IsHarmless c.machine.state) :
    d.stage.IsCalm d.machine.state ∧
      (c.machine.state.isTerminal = true → d.machine.state.isTerminal = true) := by
  cases h with
  | send | detach | onConsole => exact ⟨hcalm, id⟩
  | take hstage _ => exact ⟨hnew _ rfl, id⟩
  | act =>
    refine ⟨trivial, ?_⟩
    intro hended
    exact (congrArg _ (Command.act_state _ hended)).trans hended
  | quit | refuseStep | refuseRun => exact ⟨trivial, id⟩
  | finish | leave => exact ⟨by split <;> exact trivial, id⟩
  | resume hstage =>
    rw [hstage] at hcalm
    exact ⟨hcalm (.inl rfl), id⟩
  | beginStep hstage hstate =>
    rw [hstage] at hcalm
    exact nomatch hstate.symm.trans (hcalm (.inr rfl))
  | beginRun hstage hstate =>
    rw [hstage] at hcalm
    exact nomatch hstate.symm.trans hcalm
  | waitInStep hstage _ | endStep hstage _ | interrupt hstage _ | count hstage | obey hstage _
  | endRun hstage _ | abandon hstage _ _ | beginAttempt hstage _ _ | waitInRun hstage _
  | goOn hstage _ | retry hstage _ | endAttempt hstage _ _ =>
    rw [hstage] at hcalm
    exact False.elim hcalm

/-- As long as a calm worker takes no command that makes it execute something, nothing changes. -/
theorem Reaches.calm (h : c.Reaches d) (hcalm : c.stage.IsCalm c.machine.state)
    (hi : i ≤ c.taken.length) (hresume : .resume ∉ d.taken.drop i)
    (hstep : .step ∉ d.taken.drop i) :
    d.stage.IsCalm d.machine.state ∧ d.machine.view = c.machine.view := by
  induction h with
  | refl => exact ⟨hcalm, rfl⟩
  | @tail x d hbefore hlast ih =>
    obtain ⟨first, hfirst⟩ := Reaches.taken hbefore
    obtain ⟨last, hlast'⟩ := hlast.taken
    have hix : i ≤ x.taken.length := by
      rw [hfirst, List.length_append]
      exact Nat.le_add_right_of_le hi
    rw [hlast', List.drop_append_of_le_length hix] at hresume hstep
    obtain ⟨hcalm', hview⟩ := ih (fun hmem => hresume (List.mem_append_left _ hmem))
      fun hmem => hstep (List.mem_append_left _ hmem)
    refine ⟨(hlast.calm hcalm' ?_).1, (hlast.view hcalm'.not_inside).trans hview⟩
    intro command hcommand
    obtain rfl : last = [command] := List.append_cancel_left (hlast'.symm.trans hcommand)
    rintro (rfl | rfl)
    · exact absurd (List.mem_append_right _ List.mem_cons_self) hresume
    · exact absurd (List.mem_append_right _ List.mem_cons_self) hstep

/-- When the machine has ended, nothing changes any more. -/
theorem Reaches.ended (h : c.Reaches d) (hended : c.machine.state.isTerminal = true)
    (hcalm : c.stage.IsCalm c.machine.state) :
    d.machine.state.isTerminal = true ∧ d.stage.IsCalm d.machine.state ∧
      d.machine.view = c.machine.view := by
  induction h with
  | refl => exact ⟨hended, hcalm, rfl⟩
  | tail _ hlast ih =>
    obtain ⟨hended', hcalm', hview⟩ := ih
    obtain ⟨hcalm'', hkept⟩ := hlast.calm hcalm' fun _ _ _ => hended'
    exact ⟨hkept hended', hcalm'', (hlast.view hcalm'.not_inside).trans hview⟩

/-! ## What controllers may rely on -/

theorem Sound.handled_le (hc : c.Sound) : c.status.handled ≤ c.taken.length := by
  obtain ⟨counted, htaken, hlength⟩ := hc.counted
  rw [htaken, List.length_append, hlength]
  exact Nat.le_add_right _ _

/-- Controllers do with a worker what they like. Its commands are taken in the order in which they
are sent, and each is counted once; while the worker waits for a command, the state of the machine
is shown. When a command has been counted and no run shows, nothing that can be seen of the machine
changes before a later command is taken that resumes the run or asks for a step, and when an end of
the machine shows, nothing ever changes. A worker of the program does nothing that the threads could
not do. -/
theorem handshakes_sound (m : Machine) (hreach : (ofMachine m).Reaches c) :
    (c.sent = c.taken ++ c.queue ∧
      (∃ counted, c.taken = counted ++ c.stage.inHand ∧ counted.length = c.status.handled) ∧
      ∀ d, c.Reaches d → ∃ more, d.taken = c.taken ++ more) ∧
    (c.stage = .idle → c.status.state = c.machine.state) ∧
    (∀ i, i ≤ c.status.handled → c.status.state ≠ .running → ∀ d, c.Reaches d →
      .resume ∉ d.taken.drop i → .step ∉ d.taken.drop i →
        d.view = c.view ∧ d.stage.isInside = false) ∧
    (c.status.state.isTerminal = true → ∀ d, c.Reaches d →
      d.view = c.view ∧ d.stage.isInside = false) ∧
    ∀ actions : List Worker.Action,
      (actions.foldl Worker.after (Worker.ofMachine m)).ShownFrom (ofMachine m) := by
  have hsound : c.Sound := by
    induction hreach with
    | refl => exact sound_ofMachine m
    | tail _ hlast ih => exact ih.step hlast
  refine ⟨⟨hsound.sent, hsound.counted, fun d => Reaches.taken⟩, ?_, ?_, ?_,
    Worker.shows_after m⟩
  · intro hstage
    have hshown := hsound.shown
    rw [hstage] at hshown
    exact hshown
  · intro i hi hstate d hd hresume hstep
    obtain ⟨more, hmore⟩ := hd.taken
    have hbefore : ∀ command ∈ c.taken.drop i, command ∈ d.taken.drop i := by
      intro command hmem
      rw [hmore, List.drop_append]
      exact List.mem_append_left _ hmem
    have hcalm := hsound.calm hi hstate (fun hmem => hresume (hbefore _ hmem))
      fun hmem => hstep (hbefore _ hmem)
    obtain ⟨hcalm', hview⟩ := hd.calm hcalm (Nat.le_trans hi hsound.handled_le) hresume hstep
    have hinside := hcalm'.not_inside
    exact ⟨by rw [view_eq hinside, view_eq hcalm.not_inside, hview], hinside⟩
  · intro hstate d hd
    obtain ⟨hended, hcalm⟩ := hsound.ended hstate
    obtain ⟨-, hcalm', hview⟩ := hd.ended hended hcalm
    have hinside := hcalm'.not_inside
    exact ⟨by rw [view_eq hinside, view_eq hcalm.not_inside, hview], hinside⟩

/-- A run is paused, and then the machine is stopped. -/
theorem handshakes_sound_pause :
    let m := (Machine.create {}).load (assemble (.ofString "main: b main")).program
    let w := [Worker.Action.send .resume, .turn, .turn, .turn, .send .pause, .turn].foldl
      Worker.after (Worker.ofMachine m)
    let w' := [Worker.Action.send .stop, .turn].foldl Worker.after w
    (w.status = { state := .paused .requested, handled := 2 } ∧
      ∃ c, (ofMachine m).Reaches c ∧ w.Shows c ∧ ∀ d, c.Reaches d →
        .resume ∉ d.taken.drop 2 → .step ∉ d.taken.drop 2 → d.view = c.view) ∧
    w'.status = { state := .halted .stopped, handled := 3 } ∧
      ∃ c, (ofMachine m).Reaches c ∧ w'.Shows c ∧ ∀ d, c.Reaches d → d.view = c.view := by
  intro m w w'
  have hw : w.status = { state := .paused .requested, handled := 2 } := by decide +kernel
  have hw' : w'.status = { state := .halted .stopped, handled := 3 } := by decide +kernel
  refine ⟨⟨hw, ?_⟩, hw', ?_⟩
  · obtain ⟨c, hreach, hshows⟩ := Worker.shows_after m
      [Worker.Action.send .resume, .turn, .turn, .turn, .send .pause, .turn]
    have hstatus := hshows.status.symm.trans hw
    refine ⟨c, hreach, hshows, ?_⟩
    intro d hd hresume hstep
    obtain ⟨-, -, hcalm, -⟩ := handshakes_sound m hreach
    have hi : 2 ≤ c.status.handled := Nat.le_of_eq (congrArg Status.handled hstatus).symm
    exact (hcalm 2 hi (by rw [hstatus]; nofun) d hd hresume hstep).1
  · obtain ⟨c, hreach, hshows⟩ := Worker.shows_after m
      [Worker.Action.send .resume, .turn, .turn, .turn, .send .pause, .turn, .send .stop, .turn]
    have hstatus := hshows.status.symm.trans hw'
    refine ⟨c, hreach, hshows, ?_⟩
    intro d hd
    obtain ⟨-, -, -, hover, -⟩ := handshakes_sound m hreach
    exact (hover (by rw [hstatus]; rfl) d hd).1

end SharedWorker

end MipsLab
