import MipsLab.Proofs.Acceptance

/-!
# What labels stand for

A label on a line of its own belongs to the next instruction or directive, whichever that is, and is
put where that is put. So it stands for what follows it, but not always within the segment that it
is written in: a directive that switches segments takes the labels before it along. And it is not
always in front of the padding, since only what is aligned itself takes its labels along.

1. `parse_written`: the statements hold the labels and bodies of the lines, in the same order.
2. `Fitting.stop_eq`: where the contents of a program end.
3. `Program.LeadsInto`: an address where a segment goes on behind some statements.
4. `labels_lead_into`: the address of every label of a source without problems.
5. `LabelsStay`, `labels_leave`: labels do not stay in the segment that they are written in.
-/

namespace MipsLab

/-! ## Labels and lines -/

/-- What is written in a source text, apart from the ends of its lines. -/
inductive Written
  | label (label : Label)
  | body (body : Body)
  deriving DecidableEq, Repr

/-- The labels of a statement stand before its body. -/
def Statement.written (s : Statement) : List Written :=
  s.labels.map .label ++ s.body.toList.map .body

/-- The labels of a line stand before its body. -/
def ParsedLine.written (line : ParsedLine) : List Written :=
  line.labels.map .label ++ (line.body.map Prod.fst).toList.map .body

theorem flatMap_ofTrailing_written (labels : List Label) :
    (Statement.ofTrailing labels).flatMap Statement.written = labels.map .label := by
  unfold Statement.ofTrailing
  cases hlast : labels.getLast? with
  | none =>
    rw [List.getLast?_eq_none_iff.mp hlast]
    rfl
  | some last => simp [Statement.written]

theorem flatMap_gather_written (pending : List Label) (lines : List ParsedLine) :
    (Statement.gather pending lines).flatMap Statement.written =
      pending.map .label ++ lines.flatMap ParsedLine.written := by
  induction lines generalizing pending with
  | nil => rw [Statement.gather, flatMap_ofTrailing_written, List.flatMap_nil, List.append_nil]
  | cons line lines ih =>
    unfold Statement.gather
    split
    · next body span hbody =>
      rw [List.flatMap_cons, ih, List.flatMap_cons]
      simp [Statement.written, ParsedLine.written, hbody]
    · next hbody =>
      rw [ih, List.flatMap_cons]
      simp [ParsedLine.written, hbody]

/-- The statements hold what the lines do, in the same order. So what is written before a label
belongs to the statements before the label's own one, but for other labels of this one. -/
theorem parse_written {chars : List Char} {before behind : List Statement} {s : Statement}
    (h : (parse chars).1 = before ++ s :: behind) :
    (parseLines chars).flatMap ParsedLine.written =
      before.flatMap Statement.written ++ s.written ++ behind.flatMap Statement.written := by
  have hwritten : (parse chars).1.flatMap Statement.written = _ :=
    flatMap_gather_written [] (parseLines chars)
  rw [h, List.flatMap_append, List.flatMap_cons, ← List.append_assoc] at hwritten
  exact hwritten.symm

/-! ## Ends of segments -/

/-- Where the contents of a segment of a program end. -/
def Program.stop (p : Program) : Segment → Nat
  | .text => Segment.text.start + 4 * p.text.size
  | .data => Segment.data.start + p.data.size

theorem Statement.isData_of_home {s : Statement} (h : s.home? = some .data) :
    s.isData = true := by
  unfold home? at h
  unfold isData
  cases hbody : s.body with
  | none => rw [hbody] at h; exact nomatch h
  | some body =>
    rw [hbody] at h
    cases body with
    | instr => exact nomatch h
    | directive d => cases d <;> first | rfl | exact nomatch h

/-- As long as everything can be placed, the data ends at the data counter. -/
theorem Fitting.data_size {statements : List Statement} (h : Fitting statements)
    (symbols : SymbolTable) (source : Source) :
    Segment.data.start + (Emission.ofStatements symbols source statements).data.size =
      Segment.data.stop statements := by
  induction statements using List.reverseRecOn with
  | nil => rfl
  | append_singleton before s ih =>
    have hbefore := h.of_prefix (List.prefix_append before [s])
    have hwell := Emission.ofStatements_wellPlaced symbols source before
    have hwalk : (Emission.ofStatements symbols source before).cursor.walk s =
        Cursor.laidOut (before ++ [s]) := by
      rw [Emission.ofStatements_walk, ← h.walk_eq, List.foldl_append]
      rfl
    have hplaced := h.placed?_eq List.prefix_rfl
    rw [← Emission.ofStatements_walk symbols source, Option.map_eq_some_iff] at hplaced
    obtain ⟨placed, hplaced, -⟩ := hplaced
    have hroom := Nat.le_trans hwell.data
      (Cursor.place?_counters (Cursor.placed?_inv hplaced).1).2
    obtain ⟨-, hdata, hnodata⟩ := Emission.walk_counters symbols hplaced
    rw [Emission.ofStatements_append, Emission.add_data_size hplaced hroom]
    cases hs : s.isData with
    | true =>
      have hstop : Segment.data.stop (before ++ [s]) = _ := hwalk ▸ hdata hs
      rw [hstop, if_pos rfl]
      omega
    | false =>
      have helsewhere : s.home? ≠ some .data :=
        fun hhome => Bool.noConfusion (hs.symm.trans (Statement.isData_of_home hhome))
      rw [hnodata hs, Segment.stop_append, if_neg helsewhere, ← ih hbefore]
      rfl

/-- The contents of the segments of a program end where the layout of its statements does. -/
theorem Fitting.stop_eq {statements : List Statement} (h : Fitting statements) (source : Source)
    (segment : Segment) :
    (Program.ofStatements statements source).1.stop segment = segment.stop statements := by
  cases segment with
  | text =>
    have hwell := Emission.ofStatements_wellPlaced (Definitions.ofStatements statements).table
      source statements
    have hcursor : _ = Cursor.laidOut statements :=
      (Emission.ofStatements_walk (Definitions.ofStatements statements).table source
        statements).trans h.walk_eq
    exact hwell.text.symm.trans (congrArg Cursor.text hcursor)
  | data => exact h.data_size (Definitions.ofStatements statements).table source

/-! ## Where segments go on -/

/-- An address at which a segment goes on, with some statements before it and others behind it: the
address of the first one behind that belongs into the segment, or the end of the contents of the
segment if there is none. -/
structure Program.LeadsInto (p : Program) (source : Source) (segment : Segment)
    (before rest : List Statement) (address : Nat) : Prop where
  first : ∀ between t behind, rest = between ++ t :: behind →
    (∀ u ∈ between, u.home? ≠ some segment) → t.home? = some segment →
      Emits (before ++ rest) source (before ++ between) t address
  last : (∀ t ∈ rest, t.home? ≠ some segment) → address = p.stop segment

/-- Where a segment goes on: behind the statements before, and behind the padding of the first one
that comes next. -/
def Segment.nextPlace (segment : Segment) (before rest : List Statement) : Nat :=
  let alignment := (rest.find? (·.home? = some segment)).map Statement.alignment
  roundUp (segment.stop before) (alignment.getD 1)

section

variable {segment : Segment} {before rest between behind : List Statement} {t : Statement}

theorem nextPlace_of_first (hbetween : ∀ u ∈ between, u.home? ≠ some segment)
    (ht : t.home? = some segment) :
    segment.nextPlace before (between ++ t :: behind) = t.place (before ++ between) := by
  have hfind : (between ++ t :: behind).find? (·.home? = some segment) = some t := by
    rw [List.find?_append, List.find?_eq_none.mpr (by simpa using hbetween)]
    simp [ht]
  unfold Segment.nextPlace
  rw [hfind, Statement.place_of_home ht, segment.stop_of_elsewhere before hbetween]
  rfl

theorem nextPlace_of_none (h : ∀ t ∈ rest, t.home? ≠ some segment) :
    segment.nextPlace before rest = segment.stop (before ++ rest) := by
  have hfind : rest.find? (·.home? = some segment) = none :=
    List.find?_eq_none.mpr (by simpa using h)
  unfold Segment.nextPlace
  rw [hfind, segment.stop_of_elsewhere before h]
  exact roundUp_one _

/-- A segment goes on with one of the statements, or with none. -/
theorem first_or_none (segment : Segment) (rest : List Statement) :
    (∃ between t behind, rest = between ++ t :: behind ∧
      (∀ u ∈ between, u.home? ≠ some segment) ∧ t.home? = some segment) ∨
    ∀ t ∈ rest, t.home? ≠ some segment := by
  cases hfind : rest.find? (·.home? = some segment) with
  | none => exact .inr (by simpa using hfind)
  | some t =>
    obtain ⟨ht, between, behind, hrest, hbetween⟩ := List.find?_eq_some_iff_append.mp hfind
    exact .inl ⟨between, t, behind, hrest, by simpa using hbetween, of_decide_eq_true ht⟩

theorem stop_le_nextPlace (segment : Segment) (before rest : List Statement) :
    segment.stop before ≤ segment.nextPlace before rest := by
  refine le_roundUp ?_
  cases rest.find? (·.home? = some segment) with
  | none => exact Nat.one_pos
  | some t => exact t.alignment_pos

theorem nextPlace_le_stop (segment : Segment) (before rest : List Statement) :
    segment.nextPlace before rest ≤ segment.stop (before ++ rest) := by
  rcases first_or_none segment rest with ⟨between, t, behind, rfl, hbetween, ht⟩ | hnone
  · have hstop := segment.stop_mono (List.prefix_append (before ++ between ++ [t]) behind)
    rw [Segment.stop_of_home ht] at hstop
    rw [nextPlace_of_first hbetween ht, List.append_cons, ← List.append_assoc,
      ← List.append_assoc]
    exact Nat.le_of_add_right_le hstop
  · exact Nat.le_of_eq (nextPlace_of_none hnone)

theorem leadsInto_nextPlace (h : Fitting (before ++ rest)) (source : Source) (segment : Segment) :
    (Program.ofStatements (before ++ rest) source).1.LeadsInto source segment before rest
      (segment.nextPlace before rest) where
  first := by
    rintro between t behind rfl hbetween ht
    rw [nextPlace_of_first hbetween ht]
    exact h.emits source ⟨behind, by simp⟩
  last := by
    intro hnone
    rw [h.stop_eq, nextPlace_of_none hnone]

end

/-! ## Labels -/

/-- A statement that belongs into a segment is the next one to be put there. Any other one is put at
the end of the current segment. -/
theorem place_eq {before behind : List Statement} {s : Statement}
    (h : Fitting (before ++ s :: behind)) :
    s.place before =
      if s.home?.isSome then (currentSegment (before ++ [s])).nextPlace before (s :: behind)
      else (currentSegment (before ++ [s])).stop before := by
  cases hhome : s.home? with
  | none =>
    unfold Statement.place
    rw [hhome]
    rfl
  | some segment =>
    have hsegment := h.inPlace before s ⟨behind, by simp⟩ segment hhome
    have hnext : segment.nextPlace before ([] ++ s :: behind) = s.place (before ++ []) :=
      nextPlace_of_first (List.forall_mem_nil _) hhome
    rw [List.append_nil] at hnext
    rw [currentSegment_of_home hhome, hsegment]
    exact hnext.symm

/-- In a source without problems, every label stands for what follows it in the segment that is
current behind its own statement, which is the next instruction or directive written: the lines hold
what the statements before this one hold, then its labels and its body, then the rest. That is the
address of the first instruction or data directive from this statement on that is put into the
segment, or the end of what the segment holds if there is none. If the statement of the label itself
takes no room, the address is the one in front of the padding of what follows. -/
theorem labels_lead_into {source : Source} (hok : (assemble source).isOk = true)
    {before behind : List Statement} {s : Statement}
    (hstatements : (parse source.chars).1 = before ++ s :: behind) {l : Label}
    (hl : l ∈ s.labels) :
    let p := (assemble source).program
    let segment := currentSegment (before ++ [s])
    let next := segment.nextPlace before (s :: behind)
    (parseLines source.chars).flatMap ParsedLine.written =
        before.flatMap Statement.written ++ s.written ++ behind.flatMap Statement.written ∧
      p.LeadsInto source segment before (s :: behind) next ∧
      segment.stop before ≤ next ∧ next ≤ segment.start + segmentLimit ∧
      p.symbols.address? l.name =
        some (UInt32.ofNat (if s.home?.isSome then next else segment.stop before)) := by
  intro p segment next
  obtain ⟨hfits, hnodup, -⟩ := fitting_of_isOk hok
  have hwritten := parse_written hstatements
  have haddress : p.symbols.address? l.name = some (UInt32.ofNat (s.place before)) :=
    hfits.address? hnodup hstatements hl
  have hprogram : p = (Program.ofStatements (before ++ s :: behind) source).1 := by
    rw [← hstatements]
    rfl
  rw [hstatements] at hfits
  rw [place_eq hfits] at haddress
  refine ⟨hwritten, ?_, stop_le_nextPlace segment before (s :: behind), ?_, haddress⟩
  · rw [hprogram]
    exact leadsInto_nextPlace hfits source segment
  · exact Nat.le_trans (nextPlace_le_stop segment before (s :: behind)) (hfits.room segment)

/-- A label in front of padding. -/
theorem labels_lead_into_padding :
    let source : Source := .ofString "nop\n.data\n.byte 1\nx:\n.globl x\n.word 2"
    let p := (assemble source).program
    p.symbols.address? "x" = some 0x10010001 ∧
      ∃ before s, Emits (parse source.chars).1 source before s 0x10010004 ∧
        s.body = some (.directive (.word [.value 2])) := by
  intro source p
  let before : List Statement :=
    [⟨[], some (.instr .nop), ⟨0, 3⟩⟩, ⟨[], some (.directive .data), ⟨4, 9⟩⟩,
      ⟨[], some (.directive (.byte [1])), ⟨10, 17⟩⟩]
  let s : Statement := ⟨[⟨"x", 18⟩], some (.directive (.globl ⟨"x", 28⟩)), ⟨21, 29⟩⟩
  let word : Statement := ⟨[], some (.directive (.word [.value 2])), ⟨30, 37⟩⟩
  have hok : (assemble source).isOk = true := by decide +kernel
  have hstatements : (parse source.chars).1 = before ++ s :: [word] := by decide +kernel
  obtain ⟨-, hleads, -, -, haddress⟩ :=
    labels_lead_into hok hstatements (l := ⟨"x", 18⟩) List.mem_cons_self
  refine ⟨haddress.trans (by decide +kernel), before ++ [s], word, ?_, rfl⟩
  have hemits := hleads.first [s] word [] rfl (by decide) (by decide)
  rw [← hstatements] at hemits
  have hnext : (currentSegment (before ++ [s])).nextPlace before [s, word] = 0x10010004 := by
    decide +kernel
  rwa [hnext] at hemits

/-! ## Labels do not stay -/

/-- Every label stands for what follows it in the segment that it is written in. -/
def LabelsStay (source : Source) : Prop :=
  ∀ before s behind, (parse source.chars).1 = before ++ s :: behind → ∀ l ∈ s.labels,
    ∃ address, (assemble source).program.symbols.address? l.name = some (UInt32.ofNat address) ∧
      (assemble source).program.LeadsInto source (currentSegment before) before (s :: behind)
        address

/-- A label before a directive that switches segments leaves the text segment, and a label before
one that makes it known stands for the padding behind it, and not for the word. -/
theorem labels_leave :
    let switching : Source := .ofString "nop\nend:\n.data\n.word 1"
    let padding : Source := .ofString "nop\n.data\n.byte 1\nx:\n.globl x\n.word 2"
    (assemble switching).isOk = true ∧ ¬LabelsStay switching ∧
      (assemble padding).isOk = true ∧ ¬LabelsStay padding := by
  intro switching padding
  refine ⟨by decide +kernel, fun hstay => ?_, by decide +kernel, fun hstay => ?_⟩
  · let nop : Statement := ⟨[], some (.instr .nop), ⟨0, 3⟩⟩
    let s : Statement := ⟨[⟨"end", 4⟩], some (.directive .data), ⟨9, 14⟩⟩
    let word : Statement := ⟨[], some (.directive (.word [.value 1])), ⟨15, 22⟩⟩
    have hstatements : (parse switching.chars).1 = [nop] ++ s :: [word] := by decide +kernel
    obtain ⟨address, haddress, hleads⟩ := hstay [nop] s [word] hstatements _ List.mem_cons_self
    -- Nothing more is put into the text segment, so the label should stand for its end.
    rw [hleads.last (by decide)] at haddress
    exact absurd haddress (by decide +kernel)
  · let before : List Statement :=
      [⟨[], some (.instr .nop), ⟨0, 3⟩⟩, ⟨[], some (.directive .data), ⟨4, 9⟩⟩,
        ⟨[], some (.directive (.byte [1])), ⟨10, 17⟩⟩]
    let s : Statement := ⟨[⟨"x", 18⟩], some (.directive (.globl ⟨"x", 28⟩)), ⟨21, 29⟩⟩
    let word : Statement := ⟨[], some (.directive (.word [.value 2])), ⟨30, 37⟩⟩
    have hstatements : (parse padding.chars).1 = before ++ s :: [word] := by decide +kernel
    obtain ⟨address, haddress, hleads⟩ := hstay before s [word] hstatements _ List.mem_cons_self
    have hplaced := (hleads.first [s] word [] rfl (by decide) (by decide)).placed
    have hword : some 0x10010004 = some address := by
      rw [← hplaced]
      decide +kernel
    obtain rfl := Option.some.inj hword
    exact absurd haddress (by decide +kernel)

end MipsLab
