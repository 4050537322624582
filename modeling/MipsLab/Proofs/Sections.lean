import MipsLab.Proofs.Placement

/-!
# The layout of a source text

Where the statements of a source text belong, told from the statements alone. The current segment is
that of the latest `.text` or `.data`, and each segment holds its own statements one behind the
other, aligned. The location counters of the assembler follow this layout for as long as every
statement can be placed.

1. `currentSegment`, `Segment.stop`, `Statement.place`: the layout.
2. `Cursor.placed?_laidOut`: at the counters of the layout, a statement is put where the layout has
   it, if it belongs there and there is room.
3. `Fitting`: each statement is in its own segment, and no segment is too large.
   `Fitting.append_iff`: so it is exactly if each statement in turn can be placed.
-/

namespace MipsLab

/-! ## Layout -/

namespace Body

/-- The segment that an instruction or a data directive belongs into. -/
def home? : Body → Option Segment
  | instr _ => some .text
  | directive d => if d.isData then some .data else none

/-- The segment that a directive switches to. -/
def switch? : Body → Option Segment
  | directive .text => some .text
  | directive .data => some .data
  | _ => none

/-- What the address of a body is a multiple of, as far as padding sees to it. -/
def alignment : Body → Nat
  | instr _ => 1
  | directive d => d.alignment

theorem alignment_pos (body : Body) : 0 < body.alignment := by
  cases body with
  | instr => exact Nat.one_pos
  | directive d => exact d.alignment_pos

end Body

namespace Statement

def home? (s : Statement) : Option Segment := s.body.bind Body.home?

def alignment (s : Statement) : Nat := (s.body.map Body.alignment).getD 1

theorem alignment_pos (s : Statement) : 0 < s.alignment := by
  unfold alignment
  cases s.body with
  | none => exact Nat.one_pos
  | some body => exact body.alignment_pos

end Statement

/-- The segment that is current behind some statements: the one that the last of them which switches
segments switches to. -/
def currentSegment (statements : List Statement) : Segment :=
  (statements.filterMap fun s => s.body.bind Body.switch?).getLast?.getD .text

/-- Where the contents of a segment end that some statements put there: each goes to the next
multiple of its alignment. -/
def Segment.stop (segment : Segment) (statements : List Statement) : Nat :=
  statements.foldl
    (fun stop s =>
      if s.home? = some segment then roundUp stop s.alignment + s.byteCount else stop)
    segment.start

/-- Where a statement is put that has others before it. An instruction or data directive goes to the
next place of its own segment. Everything else is put at the end of the current segment, which is
the new one if the statement switches segments. -/
def Statement.place (before : List Statement) (s : Statement) : Nat :=
  match s.home? with
  | some segment => roundUp (segment.stop before) s.alignment
  | none => (currentSegment (before ++ [s])).stop before

/-- Every instruction is in the text segment, and every data directive in the data segment. -/
def InPlace (statements : List Statement) : Prop :=
  ∀ before s, before ++ [s] <+: statements → ∀ segment, s.home? = some segment →
    currentSegment before = segment

/-! ## One more statement -/

theorem not_prefix_nil {before : List Statement} {s : Statement} : ¬before ++ [s] <+: [] :=
  fun h => List.append_ne_nil_of_right_ne_nil before (List.cons_ne_nil s []) (List.prefix_nil.mp h)

/-- A statement that stands among some others and a last one is the last one or stands among the
others. -/
theorem prefix_append_cases {before statements : List Statement} {s last : Statement}
    (h : before ++ [s] <+: statements ++ [last]) :
    (before = statements ∧ s = last) ∨ before ++ [s] <+: statements := by
  rcases List.prefix_concat_iff.mp h with heq | hprefix
  · obtain ⟨hbefore, hs⟩ := List.append_inj' heq rfl
    exact .inl ⟨hbefore, List.singleton_inj.mp hs⟩
  · exact .inr hprefix

section

variable {before : List Statement} {s : Statement}

theorem currentSegment_append (before : List Statement) (s : Statement) :
    currentSegment (before ++ [s]) = (s.body.bind Body.switch?).getD (currentSegment before) := by
  unfold currentSegment
  rw [List.filterMap_append]
  cases hswitch : s.body.bind Body.switch? with
  | none => simp [hswitch]
  | some segment => simp [hswitch]

theorem Segment.stop_append (segment : Segment) (before : List Statement) (s : Statement) :
    segment.stop (before ++ [s]) =
      if s.home? = some segment then roundUp (segment.stop before) s.alignment + s.byteCount
      else segment.stop before := by
  unfold stop
  rw [List.foldl_append]
  rfl

theorem Segment.stop_le_append (segment : Segment) (before : List Statement) (s : Statement) :
    segment.stop before ≤ segment.stop (before ++ [s]) := by
  rw [stop_append]
  split
  · exact Nat.le_trans (le_roundUp s.alignment_pos) (Nat.le_add_right _ _)
  · exact Nat.le_refl _

theorem Segment.stop_mono (segment : Segment) {before statements : List Statement}
    (h : before <+: statements) : segment.stop before ≤ segment.stop statements := by
  obtain ⟨behind, rfl⟩ := h
  induction behind using List.reverseRecOn with
  | nil => exact Nat.le_of_eq (by rw [List.append_nil])
  | append_singleton behind s ih =>
    rw [← List.append_assoc]
    exact Nat.le_trans ih (segment.stop_le_append _ s)

theorem Segment.start_le_stop (segment : Segment) (statements : List Statement) :
    segment.start ≤ segment.stop statements :=
  segment.stop_mono List.nil_prefix

/-- Statements that belong elsewhere do not make a segment any longer. -/
theorem Segment.stop_of_elsewhere {segment : Segment} {between : List Statement}
    (before : List Statement) (h : ∀ t ∈ between, t.home? ≠ some segment) :
    segment.stop (before ++ between) = segment.stop before := by
  induction between using List.reverseRecOn with
  | nil => rw [List.append_nil]
  | append_singleton between t ih =>
    have ht := h t (List.mem_append_right _ (List.mem_singleton_self t))
    rw [← List.append_assoc, stop_append, if_neg ht,
      ih fun t' ht' => h t' (List.mem_append_left _ ht')]

theorem Statement.place_of_home {segment : Segment} (h : s.home? = some segment) :
    s.place before = roundUp (segment.stop before) s.alignment := by
  unfold place
  rw [h]

/-- The end of a statement that takes room. -/
theorem Segment.stop_of_home {segment : Segment} (h : s.home? = some segment) :
    segment.stop (before ++ [s]) = s.place before + s.byteCount := by
  rw [stop_append, if_pos h, Statement.place_of_home h]

end

/-! ## Location counters -/

/-- Everything that takes room belongs into a segment. -/
theorem Statement.byteCount_of_home {s : Statement} (h : s.home? = none) : s.byteCount = 0 := by
  unfold home? at h
  unfold byteCount
  cases hbody : s.body with
  | none => rfl
  | some body =>
    rw [hbody] at h
    cases body with
    | instr => exact nomatch h
    | directive d =>
      cases d with
      | text | data | globl => rfl
      | _ => exact nomatch h

theorem Statement.alignment_of_text {s : Statement} (h : s.home? = some .text) :
    s.alignment = 1 := by
  unfold home? at h
  unfold alignment
  cases hbody : s.body with
  | none => rfl
  | some body =>
    rw [hbody] at h
    cases body with
    | instr => rfl
    | directive d => cases d <;> exact nomatch h

/-- What belongs into a segment does not switch segments. -/
theorem currentSegment_of_home {before : List Statement} {s : Statement} {segment : Segment}
    (h : s.home? = some segment) : currentSegment (before ++ [s]) = currentSegment before := by
  rw [currentSegment_append]
  unfold Statement.home? at h
  cases hbody : s.body with
  | none => rfl
  | some body =>
    rw [hbody] at h
    cases body with
    | instr => rfl
    | directive d =>
      cases d with
      | text | data => exact nomatch h
      | _ => rfl

namespace Cursor

/-- The location counters of a layout. -/
def laidOut (statements : List Statement) : Cursor where
  segment := currentSegment statements
  text := Segment.text.stop statements
  data := Segment.data.stop statements

theorem laidOut_next (statements : List Statement) (segment : Segment) :
    (laidOut statements).next segment = segment.stop statements := by
  cases segment <;> rfl

variable {before statements : List Statement} {s : Statement}

theorem moveTo_segment (c : Cursor) (address : Nat) : (c.moveTo address).segment = c.segment := by
  obtain ⟨segment, text, data⟩ := c
  cases segment <;> rfl

theorem ext_next {c c' : Cursor} (hsegment : c.segment = c'.segment)
    (hnext : ∀ segment, c.next segment = c'.next segment) : c = c' := by
  have htext := hnext .text
  have hdata := hnext .data
  obtain ⟨segment, text, data⟩ := c
  obtain ⟨segment', text', data'⟩ := c'
  obtain rfl : segment = segment' := hsegment
  obtain rfl : text = text' := htext
  obtain rfl : data = data' := hdata
  rfl

/-- The end of the current segment behind a statement, which belongs into no other one. -/
theorem stop_current (hbelongs : ∀ segment, s.home? = some segment →
      currentSegment before = segment) {segment : Segment}
    (hsegment : segment = currentSegment (before ++ [s])) :
    segment.stop (before ++ [s]) = s.place before + s.byteCount := by
  cases hhome : s.home? with
  | none =>
    rw [Segment.stop_append, hhome, if_neg nofun, Statement.byteCount_of_home hhome]
    unfold Statement.place
    rw [hhome, hsegment]
    rfl
  | some home =>
    obtain rfl : segment = home := by
      rw [hsegment, currentSegment_of_home hhome, hbelongs home hhome]
    exact Segment.stop_of_home hhome

/-- A statement belongs where it stands exactly if it can be placed there, were it not for its
size. -/
theorem place?_laidOut (before : List Statement) (s : Statement) :
    (laidOut before).place? s.body =
      if ∀ segment, s.home? = some segment → currentSegment before = segment then
        some
          { segment := currentSegment (before ++ [s])
            text := Segment.text.stop before
            data :=
              if s.home? = some .data then s.place before else Segment.data.stop before }
      else none := by
  rw [currentSegment_append]
  unfold Statement.place Statement.home? Statement.alignment
  cases hbody : s.body with
  | none => simp [place?, laidOut]
  | some body =>
    cases body with
    | instr i =>
      cases hsegment : currentSegment before with
      | text => simp [place?, laidOut, Body.home?, Body.switch?, hsegment]
      | data => simp [place?, laidOut, Body.home?, hsegment]
    | directive d =>
      cases d with
      | text | data | globl =>
        simp [place?, laidOut, Body.home?, Body.switch?, Directive.isData]
      | _ =>
        cases hsegment : currentSegment before with
        | text => simp [place?, laidOut, Body.home?, Directive.isData, hsegment]
        | data =>
          simp [place?, laidOut, Body.home?, Body.switch?, Body.alignment, Directive.isData,
            hsegment]

/-- The place of a statement at the counters of a layout. -/
theorem current_laidOut (hbelongs : ∀ segment, s.home? = some segment →
      currentSegment before = segment) {placed : Cursor}
    (hplace : (laidOut before).place? s.body = some placed) :
    placed.segment = currentSegment (before ++ [s]) ∧ placed.current = s.place before ∧
      ∀ segment, segment ≠ placed.segment → placed.next segment = segment.stop before := by
  rw [place?_laidOut, if_pos hbelongs] at hplace
  obtain rfl := Option.some.inj hplace
  refine ⟨rfl, ?_, fun segment hne => ?_⟩
  · rw [current_eq]
    cases hhome : s.home? with
    | none =>
      unfold Statement.place
      rw [hhome]
      cases currentSegment (before ++ [s]) <;> rfl
    | some segment =>
      rw [currentSegment_of_home hhome, hbelongs segment hhome]
      cases segment with
      | text =>
        show Segment.text.stop before = _
        rw [Statement.place_of_home hhome, Statement.alignment_of_text hhome, roundUp_one]
      | data =>
        show (if some Segment.data = some .data then s.place before
          else Segment.data.stop before) = _
        exact if_pos rfl
  · cases segment with
    | text => rfl
    | data =>
      -- A data directive is in the data segment, which is not the one in question.
      refine if_neg fun hhome => hne ?_
      show Segment.data = currentSegment (before ++ [s])
      rw [currentSegment_of_home hhome, hbelongs _ hhome]

/-- At the counters of a layout, a statement is put where the layout has it if there is room, and
the counters go on to the layout with the statement. -/
theorem placed?_laidOut (hbelongs : ∀ segment, s.home? = some segment →
      currentSegment before = segment)
    (hroom : s.place before + s.byteCount ≤
      (currentSegment (before ++ [s])).start + segmentLimit) :
    ((laidOut before).placed? s).map current = some (s.place before) ∧
      (laidOut before).walk s = laidOut (before ++ [s]) := by
  obtain ⟨placed, hplace⟩ : ∃ placed, (laidOut before).place? s.body = some placed :=
    ⟨_, by rw [place?_laidOut, if_pos hbelongs]⟩
  obtain ⟨hsegment, hcurrent, hother⟩ := current_laidOut hbelongs hplace
  have hadvance : placed.advance? s.byteCount =
      some (placed.moveTo (placed.current + s.byteCount)) := by
    unfold advance?
    rw [if_pos]
    rw [hsegment, hcurrent]
    omega
  constructor
  · unfold placed?
    rw [hplace, Option.bind_some, hadvance, Option.map_some, Option.map_some, hcurrent]
  · have hwalk : (laidOut before).walk s = placed.moveTo (placed.current + s.byteCount) := by
      unfold walk
      rw [hplace]
      simp only [hadvance, Option.getD_some]
    rw [hwalk]
    refine ext_next ?_ fun segment => ?_
    · rw [moveTo_segment, hsegment]
      rfl
    · rw [moveTo_next, laidOut_next, hcurrent]
      split
      · next hsame => rw [stop_current hbelongs (hsame.trans hsegment)]
      · next hne =>
        rw [hother segment hne, Segment.stop_append, if_neg]
        intro hhome
        refine hne ?_
        rw [hsegment, currentSegment_of_home hhome, hbelongs segment hhome]

/-- A statement that is placed at the counters of a layout belongs there, and there is room. -/
theorem placed?_laidOut_inv (h : ((laidOut before).placed? s).isSome) :
    (∀ segment, s.home? = some segment → currentSegment before = segment) ∧
      s.place before + s.byteCount ≤
        (currentSegment (before ++ [s])).start + segmentLimit := by
  obtain ⟨placed, hplaced⟩ := Option.isSome_iff_exists.mp h
  obtain ⟨hplace, hadvance⟩ := placed?_inv hplaced
  have hbelongs : ∀ segment, s.home? = some segment → currentSegment before = segment := by
    by_contra hnot
    rw [place?_laidOut, if_neg hnot] at hplace
    exact nomatch hplace
  obtain ⟨hsegment, hcurrent, -⟩ := current_laidOut hbelongs hplace
  have hroom := (advance?_inv hadvance).2
  rw [hsegment, hcurrent] at hroom
  exact ⟨hbelongs, hroom⟩

end Cursor

/-- All statements are where they belong, and no segment is larger than a segment can be. -/
structure Fitting (statements : List Statement) : Prop where
  inPlace : InPlace statements
  room : ∀ segment : Segment, segment.stop statements ≤ segment.start + segmentLimit

namespace Fitting

variable {before statements : List Statement} {s : Statement}

theorem nil : Fitting [] where
  inPlace := fun _ _ hstands => absurd hstands not_prefix_nil
  room := fun _ => Nat.le_add_right _ _

theorem of_prefix (h : Fitting statements) (hbefore : before <+: statements) : Fitting before where
  inPlace := fun t s hstands => h.inPlace t s (hstands.trans hbefore)
  room := fun segment => Nat.le_trans (segment.stop_mono hbefore) (h.room segment)

/-- One more statement fits if it belongs where it stands, and there is room for it. -/
theorem append (h : Fitting before)
    (hbelongs : ∀ segment, s.home? = some segment → currentSegment before = segment)
    (hroom : s.place before + s.byteCount ≤
      (currentSegment (before ++ [s])).start + segmentLimit) : Fitting (before ++ [s]) where
  inPlace := by
    intro before' s' hstands
    rcases prefix_append_cases hstands with ⟨rfl, rfl⟩ | hprefix
    · exact hbelongs
    · exact h.inPlace before' s' hprefix
  room := by
    intro segment
    by_cases hsame : segment = currentSegment (before ++ [s])
    · rw [Cursor.stop_current hbelongs hsame, hsame]
      exact hroom
    · rw [Segment.stop_append, if_neg]
      · exact h.room segment
      · intro hhome
        refine hsame ?_
        rw [currentSegment_of_home hhome, hbelongs segment hhome]

/-- The room of the next one of some statements that fit. -/
theorem room_next (h : Fitting statements) (hstands : before ++ [s] <+: statements) :
    s.place before + s.byteCount ≤
      (currentSegment (before ++ [s])).start + segmentLimit := by
  rw [← Cursor.stop_current (h.inPlace before s hstands) rfl]
  exact (h.of_prefix hstands).room _

/-- As long as the statements fit, the counters are those of the layout. -/
theorem walk_eq (h : Fitting statements) :
    statements.foldl Cursor.walk .initial = Cursor.laidOut statements := by
  induction statements using List.reverseRecOn with
  | nil => rfl
  | append_singleton before s ih =>
    rw [List.foldl_append, List.foldl_cons, List.foldl_nil,
      ih (h.of_prefix (List.prefix_append before [s]))]
    exact (Cursor.placed?_laidOut (h.inPlace before s List.prefix_rfl)
      (h.room_next List.prefix_rfl)).2

/-- A statement is put at its place in the layout. -/
theorem placed?_eq (h : Fitting statements) (hstands : before ++ [s] <+: statements) :
    ((before.foldl Cursor.walk .initial).placed? s).map Cursor.current = some (s.place before) := by
  rw [(h.of_prefix ((List.prefix_append before [s]).trans hstands)).walk_eq]
  exact (Cursor.placed?_laidOut (h.inPlace before s hstands) (h.room_next hstands)).1

/-- If some statements fit, then so do they with one more behind them exactly if it can be placed at
the counters of the layout. -/
theorem append_iff (h : Fitting before) :
    Fitting (before ++ [s]) ↔ ((Cursor.laidOut before).placed? s).isSome := by
  constructor
  · intro hfits
    have hplaced := hfits.placed?_eq List.prefix_rfl
    rw [h.walk_eq] at hplaced
    obtain ⟨placed, hplaced, -⟩ := Option.map_eq_some_iff.mp hplaced
    exact Option.isSome_of_mem hplaced
  · intro hplaced
    obtain ⟨hbelongs, hroom⟩ := Cursor.placed?_laidOut_inv hplaced
    exact h.append hbelongs hroom

end Fitting

end MipsLab
