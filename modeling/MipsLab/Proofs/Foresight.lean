import MipsLab.Proofs.Steps

/-!
# Input in advance

A machine that gets its input bit by bit against one that has been given all of it in advance. The
first one may have to wait where the other one goes on, and may take in a part of a line that the
other one still has before it; but the instructions that it completes do the same in both.

1. `Channel.Foresees`, `Console.Foresees`: what the two consoles have in common.
2. `Console.Reads`: a read that gives something gives the same on both consoles.
3. `Machine.Foresees.step`: an instruction that is completed by the one machine is completed in the
   same way by the other.
-/

namespace MipsLab

/-- What can happen to the input of a console from outside. -/
inductive Arrival
  | bytes (bytes : List UInt8)
  | ends
  deriving DecidableEq, Repr

/-- What is still to happen to the input. -/
abbrev Input := List Arrival

namespace Input

/-- The bytes that arrive before the input ends. -/
def bytes : Input → List UInt8
  | [] => []
  | .bytes first :: rest => first ++ bytes rest
  | .ends :: _ => []

def ends (input : Input) : Bool := input.contains .ends

end Input

/-! ## Lines -/

/-- The first line of bytes that are behind some without a newline. -/
theorem splitLine_append {begun : List UInt8} (h : newlineByte ∉ begun) (rest : List UInt8) :
    splitLine (begun ++ rest) = (begun ++ (splitLine rest).1, (splitLine rest).2) := by
  induction begun with
  | nil => rfl
  | cons b begun ih =>
    have hb : b ≠ newlineByte := fun heq => h (heq ▸ List.mem_cons_self)
    have hbegun : newlineByte ∉ begun := fun hmem => h (List.mem_cons_of_mem b hmem)
    rw [List.cons_append, splitLine, if_neg hb, ih hbegun]
    rfl

theorem splitLine_some {bytes line rest : List UInt8} (h : splitLine bytes = (line, some rest))
    (more : List UInt8) : splitLine (bytes ++ more) = (line, some (rest ++ more)) := by
  induction bytes generalizing line with
  | nil => exact nomatch h
  | cons b bytes ih =>
    rw [List.cons_append]
    unfold splitLine at h ⊢
    split at h
    · next hb =>
      cases h
      rw [if_pos hb]
    · next hb =>
      obtain ⟨first, after, hsplit⟩ : ∃ first after, splitLine bytes = (first, after) :=
        ⟨_, _, rfl⟩
      rw [hsplit] at h
      cases h
      rw [if_neg hb, ih hsplit]

theorem splitLine_none {bytes line : List UInt8} (h : splitLine bytes = (line, none)) :
    line = bytes ∧ newlineByte ∉ bytes := by
  induction bytes generalizing line with
  | nil =>
    cases h
    exact ⟨rfl, List.not_mem_nil⟩
  | cons b bytes ih =>
    unfold splitLine at h
    split at h
    · exact nomatch h
    · next hb =>
      obtain ⟨first, after, hsplit⟩ : ∃ first after, splitLine bytes = (first, after) :=
        ⟨_, _, rfl⟩
      rw [hsplit] at h
      cases h
      obtain ⟨rfl, hnot⟩ := ih hsplit
      exact ⟨rfl, List.not_mem_cons_of_ne_of_not_mem (Ne.symm hb) hnot⟩

/-! ## Channels -/

namespace Channel

/-- What of some input will arrive. -/
def toCome (c : Channel) (input : Input) : List UInt8 :=
  if c.isOpen = true then input.bytes else []

/-- A channel `d` has all that another channel `c` has and all input that is still to come. What `c`
has begun to read of a line, `d` may still have before it. -/
structure Foresees (input : Input) (c d : Channel) : Prop where
  isOpen : d.isOpen = (c.isOpen && !input.ends)
  output : d.output = c.output
  quota : d.quota = c.quota
  unread : ∃ begun, newlineByte ∉ begun ∧ c.partialLine = d.partialLine ++ begun ∧
    d.arrived = begun ++ (c.arrived ++ c.toCome input)

/-- Two channels differ at most in whether a read is waiting and has been cancelled. -/
structure SameInput (c c' : Channel) : Prop where
  arrived : c'.arrived = c.arrived
  isOpen : c'.isOpen = c.isOpen
  partialLine : c'.partialLine = c.partialLine
  output : c'.output = c.output
  quota : c'.quota = c.quota

variable {input : Input} {c c' d d' : Channel}

theorem toCome_congr (h : c'.isOpen = c.isOpen) : c'.toCome input = c.toCome input := by
  unfold toCome
  rw [h]

theorem toCome_nil (c : Channel) : c.toCome [] = [] := ite_self []

theorem toCome_closed (h : c.isOpen = false) : c.toCome input = [] := by
  unfold toCome
  rw [h]
  rfl

theorem Foresees.congr (h : Foresees input c d) (hc : c.SameInput c') (hd : d.SameInput d') :
    Foresees input c' d' where
  isOpen := by rw [hd.isOpen, h.isOpen, hc.isOpen]
  output := by rw [hd.output, h.output, hc.output]
  quota := by rw [hd.quota, h.quota, hc.quota]
  unread := by
    obtain ⟨begun, hbegun, hpartial, harrived⟩ := h.unread
    refine ⟨begun, hbegun, ?_, ?_⟩
    · rw [hc.partialLine, hpartial, hd.partialLine]
    · rw [hd.arrived, harrived, hc.arrived, toCome_congr hc.isOpen]

theorem SameInput.rfl : c.SameInput c := ⟨.refl _, .refl _, .refl _, .refl _, .refl _⟩

theorem start_sameInput (c : Channel) : c.SameInput c.start := by
  unfold start
  split <;> exact ⟨rfl, rfl, rfl, rfl, rfl⟩

theorem cancelRead_sameInput (c : Channel) : c.SameInput c.cancelRead := by
  unfold cancelRead
  split <;> exact ⟨rfl, rfl, rfl, rfl, rfl⟩

/-- A read without input gives nothing, and leaves the input as it is. -/
theorem stall_cases {α : Type} (c : Channel) :
    (∀ value, (c.stall (α := α)).1 ≠ .done value) ∧ c.SameInput (c.stall (α := α)).2 := by
  unfold stall
  split
  · exact ⟨nofun, rfl, rfl, rfl, rfl, rfl⟩
  · split
    · exact ⟨nofun, rfl, rfl, rfl, rfl, rfl⟩
    · exact ⟨nofun, rfl, rfl, rfl, rfl, rfl⟩

/-! ## Reading lines -/

section

variable {line rest : List UInt8}

/-- There is a whole line. -/
theorem readLine_whole (h : splitLine c.arrived = (line, some rest)) :
    c.readLine = (.done (lineText (c.partialLine ++ line)),
      { c.start.finish with arrived := rest, partialLine := [] }) := by
  obtain ⟨harrived, hopen, hpartial, -, -⟩ := c.start_sameInput
  unfold readLine
  simp only [harrived, h, hpartial]

/-- There is a line that the end of the input ends. -/
theorem readLine_last (h : splitLine c.arrived = (line, none)) (hclosed : c.isOpen = false)
    (hsome : c.partialLine ++ line ≠ []) :
    c.readLine = (.done (lineText (c.partialLine ++ line)),
      { c.start.finish with arrived := [], partialLine := [] }) := by
  obtain ⟨harrived, hopen, hpartial, -, -⟩ := c.start_sameInput
  unfold readLine
  simp only [harrived, h, hpartial, hopen, hclosed]
  rw [if_pos]
  simpa using hsome

/-- There is no line, or not yet. -/
theorem readLine_none (h : splitLine c.arrived = (line, none))
    (hnot : c.isOpen = true ∨ c.partialLine ++ line = []) :
    c.readLine = { c.start with arrived := [], partialLine := c.partialLine ++ line }.stall := by
  obtain ⟨harrived, hopen, hpartial, -, -⟩ := c.start_sameInput
  unfold readLine
  simp only [harrived, h, hpartial, hopen]
  rw [if_neg]
  rcases hnot with hnot | hnot <;> simp [hnot]

end

/-- Two channels have used up the same input when one has nothing left of the line begun. -/
theorem foresees_after_line (h : Foresees input c d) (rest : List UInt8) :
    Foresees input { c.start.finish with arrived := rest, partialLine := [] }
      { d.start.finish with
        arrived := rest ++ c.toCome input, partialLine := [] } := by
  have h := h.congr c.start_sameInput d.start_sameInput
  refine ⟨h.isOpen, h.output, h.quota, [], List.not_mem_nil, rfl, ?_⟩
  rw [← toCome_congr c.start_sameInput.isOpen]
  rfl

/-- Reading a line gives the same line, if it gives one. -/
theorem Foresees.readLine (h : Foresees input c d) :
    (∃ line, c.readLine.1 = .done line ∧ d.readLine.1 = .done line ∧
        Foresees input c.readLine.2 d.readLine.2) ∨
      ((∀ line, c.readLine.1 ≠ .done line) ∧ Foresees input c.readLine.2 d) := by
  obtain ⟨begun, hbegun, hpartial, harrived⟩ := h.unread
  obtain ⟨line, after, hsplit⟩ : ∃ line after, splitLine c.arrived = (line, after) := ⟨_, _, rfl⟩
  cases after with
  | some rest =>
    have hsplit' := splitLine_append hbegun (c.arrived ++ c.toCome input)
    rw [splitLine_some hsplit, ← harrived] at hsplit'
    have hline : d.partialLine ++ (begun ++ line) = c.partialLine ++ line := by
      rw [hpartial, List.append_assoc]
    rw [readLine_whole hsplit, readLine_whole hsplit', hline]
    exact .inl ⟨_, rfl, rfl, foresees_after_line h rest⟩
  | none =>
    obtain ⟨rfl, hnewline⟩ := splitLine_none hsplit
    by_cases hlast : c.isOpen = false ∧ c.partialLine ++ c.arrived ≠ []
    · -- The input has ended, and there is no more of it to come.
      obtain ⟨hclosed, hsome⟩ := hlast
      have hafter := foresees_after_line h []
      rw [toCome_closed hclosed, List.append_nil] at harrived hafter
      have hclosed' : d.isOpen = false := by rw [h.isOpen, hclosed, Bool.false_and]
      have hsplit' := splitLine_append hbegun c.arrived
      rw [hsplit, ← harrived] at hsplit'
      have hline : d.partialLine ++ d.arrived = c.partialLine ++ c.arrived := by
        rw [harrived, hpartial, List.append_assoc]
      rw [readLine_last hsplit hclosed hsome, readLine_last hsplit' hclosed' (hline ▸ hsome),
        hline]
      exact .inl ⟨_, rfl, rfl, hafter⟩
    · have hnot : c.isOpen = true ∨ c.partialLine ++ c.arrived = [] := by
        rcases Decidable.not_and_iff_or_not.mp hlast with hopen | hnil
        · exact .inl (Bool.not_eq_false _ ▸ hopen)
        · exact .inr (Decidable.not_not.mp hnil)
      rw [readLine_none hsplit hnot]
      obtain ⟨hstalls, hstalled⟩ := stall_cases (α := String)
        { c.start with arrived := [], partialLine := c.partialLine ++ c.arrived }
      refine .inr ⟨hstalls, Foresees.congr ?_ hstalled .rfl⟩
      have hstart := c.start_sameInput
      -- The bytes go over to the line that has been begun, where they are still unread.
      refine ⟨?_, ?_, ?_, begun ++ c.arrived, ?_, ?_, ?_⟩
      · exact h.isOpen.trans (by rw [← hstart.isOpen])
      · exact h.output.trans hstart.output.symm
      · exact h.quota.trans hstart.quota.symm
      · exact fun hmem => (List.mem_append.mp hmem).elim hbegun hnewline
      · show c.partialLine ++ c.arrived = _
        rw [hpartial, List.append_assoc]
      · rw [harrived, List.append_assoc, ← toCome_congr hstart.isOpen]
        rfl

/-! ## Reading bytes -/

section

variable {b : UInt8} {rest : List UInt8}

theorem readChar_begun (h : c.partialLine = b :: rest) :
    c.readChar = (.done b, { c with partialLine := rest }) := by
  unfold readChar
  rw [h]

theorem readChar_arrived (hpartial : c.partialLine = []) (h : c.arrived = b :: rest) :
    c.readChar = (.done b, { c.start.finish with arrived := rest }) := by
  have harrived : c.start.arrived = b :: rest := c.start_sameInput.arrived.trans h
  unfold readChar
  rw [hpartial]
  simp only [harrived]

theorem readChar_none (hpartial : c.partialLine = []) (h : c.arrived = []) :
    c.readChar = c.start.stall := by
  have harrived : c.start.arrived = [] := c.start_sameInput.arrived.trans h
  unfold readChar
  rw [hpartial]
  simp only [harrived]

end

/-- Reading a byte gives the same byte, if it gives one. -/
theorem Foresees.readChar (h : Foresees input c d) :
    (∃ b, c.readChar.1 = .done b ∧ d.readChar.1 = .done b ∧
        Foresees input c.readChar.2 d.readChar.2) ∨
      ((∀ b, c.readChar.1 ≠ .done b) ∧ Foresees input c.readChar.2 d) := by
  obtain ⟨begun, hbegun, hpartial, harrived⟩ := h.unread
  have hstart := h.congr c.start_sameInput d.start_sameInput
  cases hd : d.partialLine with
  | cons b rest =>
    -- Both have the byte in the line that has been begun.
    rw [hd, List.cons_append] at hpartial
    rw [readChar_begun hpartial, readChar_begun hd]
    exact .inl ⟨b, rfl, rfl, h.isOpen, h.output, h.quota, begun, hbegun, rfl, harrived⟩
  | nil =>
    rw [hd, List.nil_append] at hpartial
    cases begun with
    | cons b begun =>
      -- Only the first one has taken the byte in.
      have hrest : newlineByte ∉ begun := fun hmem => hbegun (List.mem_cons_of_mem b hmem)
      rw [List.cons_append] at harrived
      rw [readChar_begun hpartial, readChar_arrived hd harrived]
      have hopen := d.start_sameInput.isOpen.trans h.isOpen
      have houtput := d.start_sameInput.output.trans h.output
      have hquota := d.start_sameInput.quota.trans h.quota
      have hline := d.start_sameInput.partialLine.trans hd
      refine .inl ⟨b, rfl, rfl, hopen, houtput, hquota, begun, hrest, ?_, rfl⟩
      show begun = d.start.partialLine ++ begun
      rw [hline, List.nil_append]
    | nil =>
      rw [List.nil_append] at harrived
      cases hc : c.arrived with
      | cons b rest =>
        rw [hc, List.cons_append] at harrived
        rw [readChar_arrived hpartial hc, readChar_arrived hd harrived]
        obtain ⟨hopen, houtput, hquota, -⟩ := hstart
        refine .inl ⟨b, rfl, rfl, hopen, houtput, hquota, [], List.not_mem_nil, ?_, ?_⟩
        · show c.start.partialLine = d.start.partialLine ++ []
          rw [c.start_sameInput.partialLine, hpartial, d.start_sameInput.partialLine, hd]
          rfl
        · show rest ++ c.toCome input = rest ++ c.start.toCome input
          rw [toCome_congr c.start_sameInput.isOpen]
      | nil =>
        rw [readChar_none hpartial hc]
        obtain ⟨hstalls, hstalled⟩ := stall_cases (α := UInt8) c.start
        exact .inr ⟨hstalls, (h.congr c.start_sameInput .rfl).congr hstalled .rfl⟩

/-! ## Writing -/

theorem Foresees.write (h : Foresees input c d) (stream : Stream) (bytes : List UInt8) :
    Foresees input (c.write stream bytes) (d.write stream bytes) := by
  unfold Channel.write
  rw [h.quota, h.output]
  cases c.quota with
  | none => exact ⟨h.isOpen, rfl, rfl, h.unread⟩
  | some left =>
    cases left with
    | zero => exact h
    | succ left => exact ⟨h.isOpen, rfl, rfl, h.unread⟩

/-! ## Input arrives -/

section

variable {bytes : List UInt8}

theorem arrives_push {input : Input} :
    (c.push bytes).arrived ++ (c.push bytes).toCome input =
      c.arrived ++ c.toCome (.bytes bytes :: input) := by
  unfold push toCome
  by_cases hopen : c.isOpen = true
  · rw [if_pos hopen, if_pos hopen, if_pos hopen, List.append_assoc]
    rfl
  · rw [if_neg hopen, if_neg hopen, if_neg hopen]

theorem push_congr (c : Channel) (bytes : List UInt8) :
    { c.push bytes with arrived := c.arrived } = c := by
  unfold push
  split <;> rfl

/-- Bytes that have been foreseen arrive. -/
theorem foresees_push :
    Foresees (.bytes bytes :: input) c d ↔ Foresees input (c.push bytes) d := by
  have hisOpen : (c.push bytes).isOpen = c.isOpen := congrArg (·.isOpen) (c.push_congr bytes)
  have hline : (c.push bytes).partialLine = c.partialLine :=
    congrArg (·.partialLine) (c.push_congr bytes)
  have houtput : (c.push bytes).output = c.output := congrArg (·.output) (c.push_congr bytes)
  have hquota : (c.push bytes).quota = c.quota := congrArg (·.quota) (c.push_congr bytes)
  constructor
  · rintro ⟨hopen, hout, hquot, begun, hbegun, hpartial, harrived⟩
    refine ⟨?_, ?_, ?_, begun, hbegun, ?_, ?_⟩
    · rw [hisOpen, hopen]
      rfl
    · rw [houtput, hout]
    · rw [hquota, hquot]
    · rw [hline, hpartial]
    · rw [arrives_push, harrived]
  · rintro ⟨hopen, hout, hquot, begun, hbegun, hpartial, harrived⟩
    refine ⟨?_, ?_, ?_, begun, hbegun, ?_, ?_⟩
    · rw [hopen, hisOpen]
      rfl
    · rw [hout, houtput]
    · rw [hquot, hquota]
    · rw [← hline, hpartial]
    · rw [harrived, arrives_push]

/-- The end of the input, which has been foreseen, comes. -/
theorem foresees_close : Foresees (.ends :: input) c d ↔ Foresees input c.close d := by
  have hopen : (c.isOpen && !Input.ends (.ends :: input)) = false := Bool.and_false c.isOpen
  have hnone : c.toCome (.ends :: input) = [] := ite_self []
  constructor
  · rintro ⟨hisOpen, houtput, hquota, hunread⟩
    rw [hopen] at hisOpen
    rw [hnone] at hunread
    exact ⟨hisOpen, houtput, hquota, hunread⟩
  · rintro ⟨hisOpen, houtput, hquota, hunread⟩
    refine ⟨?_, houtput, hquota, ?_⟩
    · rw [hopen]
      exact hisOpen
    · rw [hnone]
      exact hunread

/-- Input arrives that has not been foreseen. -/
theorem Foresees.push_both (h : Foresees [] c d) (bytes : List UInt8) :
    Foresees [] (c.push bytes) (d.push bytes) := by
  obtain ⟨hisOpen, houtput, hquota, begun, hbegun, hpartial, harrived⟩ := h
  rw [toCome_nil, List.append_nil] at harrived
  have hopen : d.isOpen = c.isOpen := hisOpen.trans (Bool.and_true _)
  unfold Channel.push
  rw [hopen]
  split
  · refine ⟨(Bool.and_true _).symm, houtput, hquota, begun, hbegun, hpartial, ?_⟩
    show d.arrived ++ bytes = begun ++ (c.arrived ++ bytes ++ toCome _ [])
    rw [toCome_nil, List.append_nil, harrived, List.append_assoc]
  · refine ⟨hisOpen, houtput, hquota, begun, hbegun, hpartial, ?_⟩
    rw [toCome_nil, List.append_nil, harrived]

theorem Foresees.close_both (h : Foresees [] c d) : Foresees [] c.close d.close := by
  obtain ⟨-, houtput, hquota, begun, hbegun, hpartial, harrived⟩ := h
  rw [toCome_nil] at harrived
  refine ⟨rfl, houtput, hquota, begun, hbegun, hpartial, ?_⟩
  rw [toCome_nil]
  exact harrived

theorem foresees_refl (c : Channel) : Foresees [] c c := by
  refine ⟨(Bool.and_true _).symm, rfl, rfl, [], List.not_mem_nil, ?_, ?_⟩
  · rw [List.append_nil]
  · rw [toCome_nil, List.append_nil]
    rfl

end

end Channel

/-! ## Consoles -/

namespace Console

/-- A console has all that another one has and all input that is still to come. This cannot be said
of a buffer to which bytes are still to come: its reads do not wait for them. -/
inductive Foresees (input : Input) : Console → Console → Prop
  | closed : Foresees input .closed .closed
  | buffered (b : Buffer) (h : ∀ bytes, .bytes bytes ∉ input) :
    Foresees input (.buffered b) (.buffered b)
  | channel {c d : Channel} (h : c.Foresees input d) : Foresees input (.channel c) (.channel d)
  | foreign (s : Script) : Foresees input (.foreign s) (.foreign s)

/-- How a read of a console compares with the same read of the console `d` that has its input in
advance. If it gives something, so does the other one. A read that waits or has been cancelled may
have no counterpart. -/
inductive Reads {α : Type} (input : Input) (d : Console) :
    ReadOutcome α × Console → ReadOutcome α × Console → Prop
  | done {value : α} {c' d' : Console} (h : Foresees input c' d') :
      Reads input d (.done value, c') (.done value, d')
  | rests {outcome : ReadOutcome α} {c' : Console} {other : ReadOutcome α × Console}
      (houtcome : ∀ value, outcome ≠ .done value) (h : Foresees input c' d) :
      Reads input d (outcome, c') other
  | fails {e : ReadError} {c' : Console} {other : ReadOutcome α × Console} (he : e ≠ .cancelled) :
      Reads input d (.failed e, c') other
  | repeats {outcome : ReadOutcome α} {c' d' : Console}
      (houtcome : ∀ value, outcome ≠ .done value) (h : Foresees input c' d') :
      Reads input d (outcome, c') (outcome, d')

variable {input : Input} {c d : Console}

theorem Foresees.output (h : Foresees input c d) : d.output = c.output := by
  cases h with
  | channel h => exact h.output
  | closed | buffered | foreign => rfl

theorem Foresees.write (h : Foresees input c d) (stream : Stream) (bytes : List UInt8) :
    Foresees input (c.write stream bytes) (d.write stream bytes) := by
  cases h with
  | closed => exact .closed
  | buffered b h => exact .buffered _ h
  | channel h => exact .channel (h.write stream bytes)
  | foreign s => exact .foreign _

/-- The outcome of a console that is the same for both machines. -/
theorem Reads.same {α : Type} {outcome : ReadOutcome α} {c' : Console} (h : Foresees input c' c') :
    Reads input d (outcome, c') (outcome, c') := by
  cases outcome with
  | done value => exact .done h
  | failed e => exact .repeats nofun h
  | waiting => exact .repeats nofun h

theorem Foresees.readLine (h : Foresees input c d) :
    Reads input d c.readLine d.readLine := by
  cases h with
  | closed => exact .same .closed
  | buffered b h => exact .same (.buffered _ h)
  | foreign s => exact .same (.foreign _)
  | @channel c d h =>
    show Reads input (.channel d) (c.readLine.1, .channel c.readLine.2)
      (d.readLine.1, .channel d.readLine.2)
    rcases h.readLine with ⟨line, hc, hd, hafter⟩ | ⟨hnot, hafter⟩
    · rw [hc, hd]
      exact .done (.channel hafter)
    · exact .rests hnot (.channel hafter)

theorem Foresees.readChar (h : Foresees input c d) :
    Reads input d c.readChar d.readChar := by
  cases h with
  | closed => exact .same .closed
  | buffered b h => exact .same (.buffered _ h)
  | foreign s => exact .same (.foreign _)
  | @channel c d h =>
    show Reads input (.channel d) (c.readChar.1, .channel c.readChar.2)
      (d.readChar.1, .channel d.readChar.2)
    rcases h.readChar with ⟨b, hc, hd, hafter⟩ | ⟨hnot, hafter⟩
    · rw [hc, hd]
      exact .done (.channel hafter)
    · exact .rests hnot (.channel hafter)

theorem andThen_ne_done {α β : Type} {outcome : ReadOutcome α} {next : α → Except ReadError β}
    (h : ∀ value, outcome ≠ .done value) : ∀ value, outcome.andThen next ≠ .done value := by
  cases outcome with
  | done value => exact absurd rfl (h value)
  | failed e => exact nofun
  | waiting => exact nofun

/-- A read whose result may turn out not to be what was wanted. -/
theorem Reads.andThen {α β : Type} {x y : ReadOutcome α × Console} (h : Reads input d x y)
    {next : α → Except ReadError β} (hnext : ∀ value, next value ≠ .error .cancelled) :
    Reads input d (x.1.andThen next, x.2) (y.1.andThen next, y.2) := by
  cases h with
  | @done value c' d' h =>
    cases hvalue : next value with
    | ok result =>
      have hthen : (ReadOutcome.done value).andThen next = .done result := by
        simp only [ReadOutcome.andThen, hvalue]
      rw [hthen]
      exact .done h
    | error e =>
      have hthen : (ReadOutcome.done value).andThen next = .failed e := by
        simp only [ReadOutcome.andThen, hvalue]
      rw [hthen]
      exact .fails fun he => hnext value (hvalue.trans (congrArg Except.error he))
  | rests houtcome h => exact .rests (andThen_ne_done houtcome) h
  | fails he => exact .fails he
  | repeats houtcome h => exact .repeats (andThen_ne_done houtcome) h

theorem integerOfLine_ne_cancelled (line : String) :
    integerOfLine line ≠ .error .cancelled := by
  unfold integerOfLine
  split
  · exact nofun
  · exact nofun

theorem Foresees.readInt (h : Foresees input c d) : Reads input d c.readInt d.readInt := by
  have hline := h.readLine.andThen integerOfLine_ne_cancelled
  cases h with
  | foreign s => exact .same (.foreign _)
  | closed | buffered | channel => exact hline

/-! ## Input arrives -/

def arrive (console : Console) : Arrival → Console
  | .bytes bytes => console.push bytes
  | .ends => console.closeInput

theorem Foresees.cancelRead (h : Foresees input c d) : Foresees input c.cancelRead d := by
  cases h with
  | closed => exact .closed
  | buffered b h => exact .buffered b h
  | channel h => exact .channel (h.congr (Channel.cancelRead_sameInput _) .rfl)
  | foreign s => exact .foreign s

/-- What has been foreseen happens. -/
theorem Foresees.arrive {arrival : Arrival} (h : Foresees (arrival :: input) c d) :
    Foresees input (c.arrive arrival) d := by
  cases h with
  | closed => cases arrival <;> exact .closed
  | buffered b h =>
    cases arrival with
    | bytes bytes => exact absurd List.mem_cons_self (h bytes)
    | ends => exact .buffered b fun bytes hmem => h bytes (List.mem_cons_of_mem _ hmem)
  | channel h =>
    cases arrival with
    | bytes bytes => exact .channel (Channel.foresees_push.mp h)
    | ends => exact .channel (Channel.foresees_close.mp h)
  | foreign s => cases arrival <;> exact .foreign s

/-- What has not been foreseen happens to both consoles. -/
theorem Foresees.arrive_both (h : Foresees [] c d) (arrival : Arrival) :
    Foresees [] (c.arrive arrival) (d.arrive arrival) := by
  cases h with
  | closed => cases arrival <;> exact .closed
  | buffered b h => cases arrival <;> exact .buffered _ h
  | channel h =>
    cases arrival with
    | bytes bytes => exact .channel (h.push_both bytes)
    | ends => exact .channel h.close_both
  | foreign s => cases arrival <;> exact .foreign s

/-- What happens next may be foreseen, unless bytes arrive in a buffer. -/
theorem foresees_of_arrive {arrival : Arrival} (h : Foresees input (c.arrive arrival) d)
    (hbuffer : ∀ b bytes, c = .buffered b → arrival ≠ .bytes bytes) :
    Foresees (arrival :: input) c d := by
  cases c with
  | closed =>
    have hsame : Console.closed.arrive arrival = .closed := by cases arrival <;> rfl
    rw [hsame] at h
    cases h
    exact .closed
  | foreign s =>
    have hsame : (Console.foreign s).arrive arrival = .foreign s := by cases arrival <;> rfl
    rw [hsame] at h
    cases h
    exact .foreign s
  | buffered b =>
    cases arrival with
    | bytes bytes => exact absurd rfl (hbuffer b bytes rfl)
    | ends =>
      have hsame : Foresees input (.buffered b) d := h
      cases hsame with
      | buffered _ hnot =>
        refine .buffered b fun bytes hmem => ?_
        rcases List.mem_cons.mp hmem with heq | hmem
        · exact nomatch heq
        · exact hnot bytes hmem
  | channel c =>
    cases arrival with
    | bytes bytes =>
      have hpush : Foresees input (.channel (c.push bytes)) d := h
      cases hpush with
      | channel hchannel => exact .channel (Channel.foresees_push.mpr hchannel)
    | ends =>
      have hclose : Foresees input (.channel c.close) d := h
      cases hclose with
      | channel hchannel => exact .channel (Channel.foresees_close.mpr hchannel)

theorem foresees_refl (c : Console) : Foresees [] c c := by
  cases c with
  | closed => exact .closed
  | buffered b => exact .buffered b fun _ => List.not_mem_nil
  | channel c => exact .channel c.foresees_refl
  | foreign s => exact .foreign s

theorem arrive_eq_buffered {arrival : Arrival} {b : Buffer} (h : c.arrive arrival = .buffered b) :
    ∃ b', c = .buffered b' := by
  cases c with
  | buffered b' => exact ⟨b', rfl⟩
  | closed | channel | foreign => cases arrival <;> exact nomatch h

/-- A console may be given all input at once, unless bytes arrive in a buffer. -/
theorem foresees_foldl (c : Console) (input : Input)
    (hbuffer : ∀ b bytes, c = .buffered b → .bytes bytes ∉ input) :
    Foresees input c (input.foldl Console.arrive c) := by
  induction input generalizing c with
  | nil => exact c.foresees_refl
  | cons arrival input ih =>
    refine foresees_of_arrive (ih _ ?_) ?_
    · intro b bytes hb hmem
      obtain ⟨b', hb'⟩ := arrive_eq_buffered hb
      exact hbuffer b' bytes hb' (List.mem_cons_of_mem _ hmem)
    · rintro b bytes hb rfl
      exact hbuffer b bytes hb List.mem_cons_self

end Console

/-! ## Machines -/

namespace Machine

/-- Two machines that are at the same place, one of which has its input in advance. They need not be
in the same state or have the same observers and breakpoints. -/
structure Foresees (input : Input) (a r : Machine) : Prop where
  registers : r.registers = a.registers
  pc : r.pc = a.pc
  memory : r.memory = a.memory
  completed : r.completed = a.completed
  calls : r.calls = a.calls
  trap : r.flags.trapOverflow = a.flags.trapOverflow
  console : a.console.Foresees input r.console

/-- How the attempt at an instruction compares with the attempt of the machine `r` that has its
input in advance. If the instruction is completed, so is the other one. If it waits or has been
cancelled, the attempt may have no counterpart. -/
inductive Replays (input : Input) (r : Machine) :
    StepEnd × Machine → StepEnd × Machine → Prop
  | completes {ended : StepEnd} {a' r' : Machine} (h : a'.Foresees input r') :
      Replays input r (ended, a') (ended, r')
  | rests {ended : StepEnd} {a' : Machine} {other : StepEnd × Machine}
      (hended : ended.isCompletion = false) (h : a'.Foresees input r) :
      Replays input r (ended, a') other
  | fails {e : ExecError} {a' : Machine} {other : StepEnd × Machine} :
      Replays input r (.stopped (.fault e), a') other

variable {input : Input} {a r : Machine}

namespace Foresees

theorem withConsole (h : Foresees input a r) {c d : Console} (hconsole : c.Foresees input d) :
    Foresees input { a with console := c } { r with console := d } :=
  ⟨h.registers, h.pc, h.memory, h.completed, h.calls, h.trap, hconsole⟩

theorem withMemory (h : Foresees input a r) (memory : Memory) :
    Foresees input { a with memory } { r with memory } :=
  ⟨h.registers, h.pc, rfl, h.completed, h.calls, h.trap, h.console⟩

theorem complete (h : Foresees input a r) {next next' : Address} (hnext : next' = next) :
    Foresees input (a.complete next) (r.complete next') := by
  refine ⟨h.registers, hnext, h.memory, ?_, h.calls, h.trap, h.console⟩
  show r.completed + 1 = a.completed + 1
  rw [h.completed]

theorem advance (h : Foresees input a r) :
    Foresees input (a.complete (a.pc + 4)) (r.complete (r.pc + 4)) :=
  h.complete (by rw [h.pc])

theorem goOn (h : Foresees input a r) (start : Machine) :
    Replays input start a.goOn r.goOn :=
  .completes h.advance

theorem print (h : Foresees input a r) (start : Machine) (stream : Stream) (bytes : List UInt8) :
    Replays input start (a.print (·.write stream bytes)) (r.print (·.write stream bytes)) :=
  (h.withConsole (h.console.write stream bytes)).goOn start

theorem answer (h : Foresees input a r) (start : Machine) (value : Word) :
    Replays input start (a.answer value) (r.answer value) := by
  have hset : Foresees input (a.setRegister Reg.v0 value) (r.setRegister Reg.v0 value) := by
    refine ⟨?_, h.pc, h.memory, h.completed, h.calls, h.trap, h.console⟩
    show r.registers.set Reg.v0 value = a.registers.set Reg.v0 value
    rw [h.registers]
  exact hset.goOn start

theorem putBytes (h : Foresees input a r) (start : Machine) (address : Address)
    (bytes : List UInt8) :
    Replays input start (a.putBytes address bytes) (r.putBytes address bytes) := by
  unfold Machine.putBytes
  rw [h.memory]
  cases a.memory.writeBytes address bytes with
  | ok places => exact (h.withMemory _).goOn start
  | error e => exact .fails

/-- What is read goes to the same use in both machines. -/
theorem read {α : Type} (h : Foresees input a r) {request : Console → ReadOutcome α × Console}
    {next : Machine → α → StepEnd × Machine}
    (hrequest : Console.Reads input r.console (request a.console) (request r.console))
    (hnext : ∀ value {a' r' : Machine}, a'.Foresees input r' →
      Replays input r (next a' value) (next r' value)) :
    Replays input r (a.read request next) (r.read request next) := by
  unfold Machine.read
  generalize request a.console = x at hrequest ⊢
  generalize request r.console = y at hrequest ⊢
  cases hrequest with
  | @done value c' d' hafter => exact hnext value (h.withConsole hafter)
  | @rests outcome c' other houtcome hafter =>
    have hrest : Foresees input { a with console := c' } r := h.withConsole hafter
    cases outcome with
    | done value => exact absurd rfl (houtcome value)
    | failed e => exact .rests (ofReadError_isCompletion e) hrest
    | waiting => exact .rests rfl hrest
  | @fails e c' other he =>
    cases e with
    | cancelled => exact absurd rfl he
    | closed => exact .fails
    | malformed line => exact .fails
  | @repeats outcome c' d' houtcome hafter =>
    cases outcome with
    | done value => exact absurd rfl (houtcome value)
    | failed e => exact .completes (h.withConsole hafter)
    | waiting => exact .completes (h.withConsole hafter)

theorem readLineInto (h : Foresees input a r) (address : Address) (size : Int) :
    Replays input r (a.readLineInto address size) (r.readLineInto address size) := by
  unfold Machine.readLineInto
  split
  · exact h.goOn r
  · split
    · exact h.putBytes r address [0]
    · exact h.read h.console.readLine fun line _ _ h => h.putBytes r address _

theorem growHeap (h : Foresees input a r) (requested : Word) :
    Replays input r (a.growHeap requested) (r.growHeap requested) := by
  unfold Machine.growHeap
  simp only [h.memory]
  cases a.memory.heapError? (heapRequest requested) with
  | some e => exact .fails
  | none =>
    refine Foresees.answer ?_ r _
    exact ⟨h.registers, h.pc, rfl, h.completed, h.calls, h.trap, h.console⟩

theorem printString (h : Foresees input a r) (address : Address) :
    Replays input r (a.printString address) (r.printString address) := by
  unfold Machine.printString
  rw [h.memory]
  cases a.memory.readString address with
  | ok bytes => exact h.print r .stdout bytes.toList
  | error e => exact .fails

theorem syscall (h : Foresees input a r) : Replays input r a.syscall r.syscall := by
  unfold Machine.syscall
  simp only [h.registers]
  split
  · exact h.print r _ _
  · exact h.printString _
  · exact h.read h.console.readInt fun n _ _ h => h.answer r _
  · exact h.readLineInto _ _
  · exact h.growHeap _
  · exact .completes h.advance
  · exact h.print r _ _
  · exact h.read h.console.readChar fun b _ _ h => h.answer r _
  · exact .completes h.advance
  · exact .fails

/-! ## Instructions -/

theorem apply (h : Foresees input a r) (e : Effect) :
    Foresees input (a.apply e) (r.apply e) := by
  unfold Machine.apply
  refine complete ?_ ?_
  · refine ⟨?_, h.pc, ?_, h.completed, ?_, h.trap, h.console⟩
    · show e.onRegisters r.registers = e.onRegisters a.registers
      rw [h.registers]
    · show e.onMemory r.memory = e.onMemory a.memory
      rw [h.memory]
    · show e.onCalls r.pc (e.onRegisters r.registers) r.calls = _
      rw [h.pc, h.registers, h.calls]
  · rw [h.pc]

theorem execute (h : Foresees input a r) (i : Instr) :
    Replays input r (a.execute i) (r.execute i) := by
  rw [execute_eq_outcome, execute_eq_outcome]
  unfold outcome
  split
  · exact h.syscall
  · exact .completes h.advance
  · rw [h.pc, h.trap, h.registers, h.memory]
    cases i.effect a.pc a.flags.trapOverflow a.registers a.memory with
    | ok e => exact .completes (h.apply e)
    | error e => exact .fails

/-- An instruction that is completed without the input in advance is completed with it, and does the
same. -/
theorem step (h : Foresees input a r) : Replays input r a.step r.step := by
  unfold Machine.step
  rw [h.memory, h.pc]
  cases a.memory.textWord? a.pc with
  | none => exact .fails
  | some word =>
    simp only
    cases Instr.decode? word with
    | none => exact .fails
    | some i => exact h.execute i

end Foresees

end Machine

end MipsLab
