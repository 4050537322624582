import MipsLab.Assembly
import MipsLab.Proofs.Observers

/-!
# A reloaded machine is a fresh one

Loading a program, or resetting a machine, sets the machine up again piece by piece. Nothing of what
it did before is left: it is in the state of a new machine with the same flags and the same program,
and what it does from there on is what the new machine does.

1. `Registers.refill_eq`: all registers are set up, whatever they held.
2. `Machine.reset_eq`: so is everything else but breakpoints, console and observers, which are kept.
3. `Machine.reload_fresh`: a run of a reloaded machine is a run of a new one.
-/

namespace MipsLab

/-! ## Registers -/

namespace Registers

/-- The word that a register is given, and what is left of the stream. -/
def drawn (filler : Filler) (r : Reg) : Word × Filler :=
  if r = Reg.zero then (0, filler) else filler.next

theorem drawn_zero (filler : Filler) {r : Reg} (h : r = Reg.zero) : (drawn filler r).1 = 0 := by
  unfold drawn
  rw [if_pos h]

theorem draw_eq (regs : Registers) (filler : Filler) (r : Reg) :
    regs.draw filler r =
      (regs.store r (drawn filler r).1 (drawn_zero filler), (drawn filler r).2) := by
  by_cases hr : r = Reg.zero
  · subst hr
    rfl
  · unfold draw
    simp only [dif_neg hr, drawn, if_neg hr]

/-- What the registers of a list hold after they have been given their words depends on the stream
alone, and the other ones are left alone. The induction is on the list. -/
theorem drawAll_agree (rs : List Reg) (a b : Registers) (filler : Filler) :
    (a.drawAll filler rs).2 = (b.drawAll filler rs).2 ∧
      ∀ i : Reg, i ∈ rs ∨ a.general[i.val]? = b.general[i.val]? →
        (a.drawAll filler rs).1.general[i.val]? = (b.drawAll filler rs).1.general[i.val]? := by
  induction rs generalizing a b filler with
  | nil => exact ⟨rfl, fun i hi => hi.resolve_left List.not_mem_nil⟩
  | cons r rs ih =>
    simp only [drawAll, draw_eq]
    obtain ⟨hfiller, hgeneral⟩ := ih
      (a.store r (drawn filler r).1 (drawn_zero filler))
      (b.store r (drawn filler r).1 (drawn_zero filler)) (drawn filler r).2
    unfold store at hgeneral
    refine ⟨hfiller, fun i hi => hgeneral i ?_⟩
    by_cases hr : i = r
    · right
      subst hr
      rw [Vector.getElem?_set_self, Vector.getElem?_set_self]
    · refine hi.imp (fun hmem => (List.mem_cons.mp hmem).resolve_left hr) fun hsame => ?_
      have hne : r.val ≠ i.val := fun heq => hr (Fin.ext heq.symm)
      rwa [Vector.getElem?_set_ne _ hne, Vector.getElem?_set_ne _ hne]

/-- Registers that are set up hold nothing of what they held before. -/
theorem refill_eq (a b : Registers) (filler : Filler) : a.refill filler = b.refill filler := by
  obtain ⟨hfiller, hgeneral⟩ := drawAll_agree Reg.all a b filler
  have hsame : (a.drawAll filler Reg.all).1.general = (b.drawAll filler Reg.all).1.general := by
    refine Vector.ext fun i hi => Option.some.inj ?_
    rw [← Vector.getElem?_eq_getElem hi, ← Vector.getElem?_eq_getElem hi]
    exact hgeneral ⟨i, hi⟩ (.inl (List.mem_finRange _))
  unfold refill
  simp only [hfiller, hsame]

end Registers

/-! ## Machines -/

namespace Machine

/-- A new machine with a program. -/
def fresh (flags : Flags) (p : Program) : Machine := (create flags).load p

theorem fresh_eq (flags : Flags) (p : Program) :
    fresh flags p =
      { registers := (create flags).registers.refill { stream := flags.init.registerWords }
        pc := p.entry
        memory := initialMemory flags (some p)
        program := some p
        calls := CallStack.empty flags.recordFrames
        flags
        events := EventBus.emit {} (.loaded p.entry) } := by
  rw [fresh, load, reset, create]
  rfl

/-- A reset sets up everything but breakpoints, console and observers as it is in a new machine. -/
theorem reset_eq {m : Machine} {p : Program} (h : m.program = some p) :
    m.reset =
      { fresh m.flags p with
        breakpoints := m.breakpoints
        console := m.console
        events := m.events.emit (.loaded p.entry) } := by
  rw [reset, fresh_eq, h, Registers.refill_eq m.registers (create m.flags).registers]
  rfl

/-- A machine that is loaded with a program, or that has the program and is reset, comes to the
state of a new machine with the same flags and that program: in its registers, its memory with the
layout and the end of the heap, its address, its open calls, its number of instructions and its
state of execution. Only breakpoints, console and observers are those that it had. Whatever is then
done to both machines, with the same console and the same breakpoints, gives the same answers and
leaves them in the same state, with their observers told the same. Words that come neither from a
seed nor from a known value are here the same ones both times. -/
theorem reload_fresh {m reloaded : Machine} {p : Program}
    (h : reloaded = m.load p ∨ m.program = some p ∧ reloaded = m.reset) :
    reloaded =
      { fresh m.flags p with
        breakpoints := m.breakpoints
        console := m.console
        events := m.events.emit (.loaded p.entry) } ∧
    ∀ (console : Console) (breakpoints : List Breakpoint) (operations : List Operation),
      (∀ operation ∈ operations, operation.DisregardsObservers) →
      let again := { reloaded with console, breakpoints }
      let first := { fresh m.flags p with console, breakpoints }
      again.answers operations = first.answers operations ∧
        Abreast again.events first.events (again.after operations) (first.after operations) := by
  have hreloaded : reloaded =
      { fresh m.flags p with
        breakpoints := m.breakpoints
        console := m.console
        events := m.events.emit (.loaded p.entry) } := by
    rcases h with rfl | ⟨hprogram, rfl⟩
    · exact reset_eq (m := { m with program := some p }) rfl
    · exact reset_eq hprogram
  refine ⟨hreloaded, fun console breakpoints operations hoperations => ?_⟩
  intro again first
  have hagain : again = first.watchedBy again.events := by
    show { reloaded with console, breakpoints } = first.watchedBy reloaded.events
    rw [hreloaded]
    rfl
  have habreast : Abreast again.events first.events again first := by
    have hstart := Abreast.start first again.events
    rwa [← hagain] at hstart
  exact habreast.after hoperations

/-- A machine whose program has let the heap grow and then faulted is loaded with another program,
which it runs like a new machine. The words of the stream are those of a generator of our own. -/
theorem reload_fresh_faulted :
    let before := (assemble (.ofString "li $v0, 9\nli $a0, 8\nsyscall\nlw $t0, 2($v0)")).program
    let p := (assemble (.ofString "main: li $v0, 5\nsyscall\nadd $a0, $v0, $t0")).program
    let flags : Flags :=
      { init := .seeded 7 fun seed i => UInt32.ofNat (seed.toNat + i), stackBudget := 8 }
    let m := ((fresh flags before).run 9).2
    let console : Console := .buffered { input := Bytes.utf8 "12\n" }
    m.state.isTerminal = true ∧ m.memory.heap.size = 8 ∧
      (m.load p).registers = (fresh m.flags p).registers ∧
      (m.load p).memory = (fresh m.flags p).memory ∧
      { m.load p with console, breakpoints := [] }.answers [.stepIn, .run 9, .reset, .run 9] =
        { fresh m.flags p with console, breakpoints := [] }.answers
          [.stepIn, .run 9, .reset, .run 9] := by
  intro before p flags m console
  obtain ⟨hstate, hruns⟩ := reload_fresh (m := m) (p := p) (.inl rfl)
  obtain ⟨hanswers, -⟩ := hruns console [] [.stepIn, .run 9, .reset, .run 9]
    (by simp [Operation.DisregardsObservers])
  exact ⟨by decide +kernel, by decide +kernel, by rw [hstate], by rw [hstate], hanswers⟩

end Machine

end MipsLab
